/-
**WITNESSES AND VERIFIERS AGREE ON TIME** (`dht/transport.go`: `hWitness`;
`claims/claims.go`: the corroboration band and `HasFreshQuorum`).

The handler gates a claim's timestamp with unsigned arithmetic around its own
clock, which it reads twice; the verifier computes its band with signed arithmetic
around the timestamp.
-/
import Freens.Claims.QuorumSoundness
import Freens.Dht.FreshEvidence
import Freens.Dht.WitnessExclusivity

namespace Freens.Dht

open Library Naming Wire Claims

variable {P : Primitives}

variable {ts : UInt64} {ph : Bytes} {now nowU : Int} {ids : Option (List Bytes)}
  {w : WitnessAttestation}
  {att : WitnessAttestation} {m : WitnessArgs} {c : AliasClaim} {others : Finset Bytes}
  {t : Int}

theorem verify_of_newWitnessAttestation {kp : Crypto.Keypair}
    (h : newWitnessAttestation P kp ts ph = some att) : att.verify P ph = true ∧ att.ts = ts := by
  unfold newWitnessAttestation at h
  split at h
  next nodeID msg hid hmsg =>
    rw [Option.some.injEq] at h
    subst h
    refine ⟨?_, rfl⟩
    have hlen := kp.publicKey_length P
    rw [Crypto.tldID, if_neg (not_not.mpr hlen), Option.some.injEq] at hid
    exact WitnessAttestation.verify_iff.mpr ⟨hlen, hid, msg, hmsg, Crypto.verify_sign P kp msg⟩
  next => cases h

theorem signed_of_attested {n : WitnessNode} {gates : WitnessGates} {difficulty : UInt64}
    (h : (hWitness P n gates m nowU now).1 = .attested att difficulty) :
    ∃ req, presented P n.pool gates m nowU now = .ok req ∧
      newWitnessAttestation P n.kp (uint64 now) req.want = some att := by
  unfold hWitness at h
  split at h
  next => cases h
  next req hreq =>
    refine ⟨req, hreq, ?_⟩
    split at h
    next => cases h
    simp only at h
    split at h
    next => cases h
    next att' hatt =>
      rw [WitnessReply.attested.injEq] at h
      rw [← h.1]
      exact hatt

/-! ## The gate in whole seconds -/

/-- **The clock readings of one request**: ordered, less than the skew apart, and in the
signed range. -/
structure ClockInRange (nowU now : Int) : Prop where
  nonneg : 0 ≤ nowU
  inOrder : nowU ≤ now
  delay : now ≤ nowU + 60
  room : now + 172860 < 2 ^ 63

theorem ClockInRange.ts_le (hclock : ClockInRange nowU now)
    (h : ¬ ts > uint64 nowU + uint64 Constants.skewTolerance) : (ts.toNat : Int) ≤ nowU + 60 := by
  obtain ⟨hnonneg, hle, _, hroom⟩ := hclock
  have hword := uint64_toNat hnonneg (by omega)
  have hskew : (uint64 Constants.skewTolerance).toNat = 60 := rfl
  have hsum : (uint64 nowU + uint64 Constants.skewTolerance).toNat = nowU.toNat + 60 := by
    rw [UInt64.toNat_add, hword, hskew, Nat.mod_eq_of_lt (by omega)]
  have hnat := UInt64.le_iff_toNat_le.mp (UInt64.not_lt.mp h)
  omega

theorem ClockInRange.le_ts (hclock : ClockInRange nowU now)
    (h : ¬ (ts ≤ uint64 nowU ∧ uint64 nowU - ts > uint64 Constants.witnessPresentWindow)) :
    nowU ≤ ts.toNat + 300 := by
  obtain ⟨hnonneg, hle, _, hroom⟩ := hclock
  have hword := uint64_toNat hnonneg (by omega)
  by_cases hold : ts ≤ uint64 nowU
  · have hage : ¬ uint64 nowU - ts > uint64 Constants.witnessPresentWindow := fun hage => h ⟨hold, hage⟩
    have hnat := UInt64.le_iff_toNat_le.mp (UInt64.not_lt.mp hage)
    have hwindow : (uint64 Constants.witnessPresentWindow).toNat = 300 := rfl
    have hdate := UInt64.le_iff_toNat_le.mp hold
    rw [UInt64.toNat_sub_of_le _ _ hold, hword, hwindow] at hnat
    omega
  · have hfuture := UInt64.lt_iff_toNat_lt.mp (UInt64.not_le.mp hold)
    omega

theorem mint_of_ageGate {p : ClaimPool} {aliasN : Bytes} {nowU : UInt64}
    (h : ageGate P p m aliasN ts nowU now = .ok false) :
    ¬ (ts ≤ nowU ∧ nowU - ts > uint64 Constants.witnessPresentWindow) := by
  intro hold
  unfold ageGate at h
  rw [if_pos hold, guard_eq_ok, guard_eq_ok] at h
  exact absurd h.2.2 (by simp)

/-! ## At the verifier -/

/-- The claim with witnesses. -/
def WitnessArgs.claimWith (m : WitnessArgs) (aliasN : Bytes) (ts : UInt64)
    (witnesses : List (Option WitnessAttestation)) : AliasClaim :=
  { m.claim aliasN ts with witnesses }

/-- The verifier looks at it: the first of its node, one of the first sixteen nodes. -/
def Evaluated (c : AliasClaim) (w : WitnessAttestation) : Prop :=
  w ∈ (firstPerNode c.attestations []).take maxWitnessEvaluations

theorem counted_of_evaluated (hph : c.prefixHash P = .ok ph) (heval : Evaluated c w)
    (hverify : w.verify P ph = true) (hlo : wrap64 (int64 c.timestamp - 60) ≤ int64 w.ts)
    (hhi : int64 w.ts ≤ wrap64 (wrap64 (int64 c.timestamp + 300) + 60))
    (hset : inWitnessSet ids w.nodeID = true) : Counted P c ids w := by
  refine ⟨ph, hph, ?_, hset⟩
  unfold AliasClaim.corroboratingWitnessesFromPrefixHash AliasClaim.validWitnessesFromPrefixHash
  rw [List.mem_filter, List.mem_filter, Bool.and_eq_true, decide_eq_true_eq, decide_eq_true_eq]
  exact ⟨⟨heval, hverify⟩, hlo, hhi⟩

theorem verifyFull_of_counted (hcounted : Counted P c ids w)
    (hpow : c.verifyPoW P inferDifficulty = true) (hclaimant : c.verifyClaimantConsistency P = true)
    (hothers : ∀ id ∈ others, ∃ w', Counted P c ids w' ∧ w'.nodeID = id)
    (hnew : w.nodeID ∉ others) : verifyFull P c inferDifficulty ids (others.card + 1) = true := by
  obtain ⟨ph, hph, _⟩ := id hcounted
  obtain ⟨pre, hpre, rfl⟩ := prefixHash_eq_ok_iff.mp hph
  rw [AliasClaim.verifyPoW, hpre] at hpow
  refine verifyFull_iff.mpr ⟨hclaimant, pre, hpre, hpow, (hasQuorum_iff_counted hph).mpr ?_⟩
  refine ⟨insert w.nodeID others, (Finset.card_insert_of_notMem hnew).ge, ?_⟩
  intro id hid
  rcases Finset.mem_insert.mp hid with rfl | hmem
  · exact ⟨w, hcounted, rfl⟩
  · exact hothers id hmem

/-- **The attestation counts toward the fresh quorum**: its node is one of those accepted. -/
def FreshCounted (P : Primitives) (atts : List WitnessAttestation) (ph : Bytes) (t : Int)
    (ids : Option (List Bytes)) (w : WitnessAttestation) : Prop :=
  w.nodeID ∈ (freshAttestations P atts ph t Constants.reAttestFresh).map (·.nodeID) ∧
    inWitnessSet ids w.nodeID = true

theorem freshCounted_of_dated {w : WitnessAttestation} {ph : Bytes} {t : Int}
    {ids : Option (List Bytes)} {before after : List WitnessAttestation}
    (hverify : w.verify P ph = true) (hlo : wrap64 (t - 172800) ≤ int64 w.ts)
    (hhi : int64 w.ts ≤ wrap64 (t + 60)) (hbefore : before.length < 16)
    (hset : inWitnessSet ids w.nodeID = true) :
    FreshCounted P (before ++ w :: after) ph t ids w := by
  refine ⟨?_, hset⟩
  unfold freshAttestations
  rw [freshLoop_eq_budgetScan]
  refine (key_mem_budgetScan (isFresh_iff.mpr ⟨hverify, hlo, hhi⟩) hbefore).resolve_left ?_
  exact List.not_mem_nil

theorem hasFreshQuorum_of_freshCounted {atts : List WitnessAttestation}
    (hcounted : FreshCounted P atts ph t ids w)
    (hothers : ∀ id ∈ others, ∃ w', FreshCounted P atts ph t ids w' ∧ w'.nodeID = id)
    (hnew : w.nodeID ∉ others) :
    hasFreshQuorum P atts ph t Constants.reAttestFresh ids (others.card + 1) = true := by
  unfold hasFreshQuorum distinctNodes
  rw [decide_eq_true_eq, le_countDistinct_iff]
  refine ⟨insert w.nodeID others, ?_, (Finset.card_insert_of_notMem hnew).ge⟩
  intro id hid
  rcases Finset.mem_insert.mp hid with rfl | hmem
  · exact hcounted
  · obtain ⟨w', hw', rfl⟩ := hothers id hmem
    exact hw'

/-! ## Agreement -/

theorem ClockInRange.in_band (hclock : ClockInRange nowU now)
    (hfuture : ¬ ts > uint64 nowU + uint64 Constants.skewTolerance)
    (hmint : ¬ (ts ≤ uint64 nowU ∧ uint64 nowU - ts > uint64 Constants.witnessPresentWindow)) :
    wrap64 (int64 ts - 60) ≤ now ∧ now ≤ wrap64 (wrap64 (int64 ts + 300) + 60) := by
  have hle := hclock.ts_le hfuture
  have hge := hclock.le_ts hmint
  obtain ⟨_, hinOrder, hdelay, hroom⟩ := hclock
  obtain ⟨hlo, hhi⟩ := @band_of_lt ts (by omega)
  rw [hlo, hhi]
  omega

theorem ClockInRange.in_window (hclock : ClockInRange nowU now) (hle : now ≤ t)
    (hlt : t ≤ now + 172800) : wrap64 (t - 172800) ≤ now ∧ now ≤ wrap64 (t + 60) := by
  obtain ⟨hnonneg, hinOrder, _, hroom⟩ := hclock
  rw [wrap64_of_range (by omega) (by omega), wrap64_of_range (by omega) (by omega)]
  omega

/-- **Witnesses and verifiers agree on time**, at a clock in range. A mint attestation adds
one to the quorum of `VerifyFull` wherever it is evaluated; in either mode it counts toward
`HasFreshQuorum` for 48 hours, with fewer than sixteen before it. -/
theorem attestation_counts (P : Primitives) {n : WitnessNode} {gates : WitnessGates}
    {m : WitnessArgs} {nowU now : Int} (hclock : ClockInRange nowU now) {att : WitnessAttestation}
    {difficulty : UInt64} (h : (hWitness P n gates m nowU now).1 = .attested att difficulty) :
    ∃ req ts, presented P n.pool gates m nowU now = .ok req ∧ m.ts = some ts ∧
      (req.reattest = false →
        ∀ (witnesses : List (Option WitnessAttestation)) (ids : Option (List Bytes)),
          Evaluated (m.claimWith req.aliasN ts witnesses) att →
          inWitnessSet ids att.nodeID = true →
          Counted P (m.claimWith req.aliasN ts witnesses) ids att ∧
          ∀ others : Finset Bytes, att.nodeID ∉ others →
            (∀ id ∈ others, ∃ w, Counted P (m.claimWith req.aliasN ts witnesses) ids w ∧
              w.nodeID = id) →
            (m.claimWith req.aliasN ts witnesses).verifyClaimantConsistency P = true →
            verifyFull P (m.claimWith req.aliasN ts witnesses) inferDifficulty ids
              (others.card + 1) = true) ∧
      ∀ t, now ≤ t → t ≤ now + 172800 →
        ∀ (before after : List WitnessAttestation) (ids : Option (List Bytes)), before.length < 16 →
          inWitnessSet ids att.nodeID = true →
          FreshCounted P (before ++ att :: after) m.prefixHash t ids att ∧
          ∀ others : Finset Bytes, att.nodeID ∉ others →
            (∀ id ∈ others, ∃ w, FreshCounted P (before ++ att :: after) m.prefixHash t ids w ∧
              w.nodeID = id) →
            hasFreshQuorum P (before ++ att :: after) m.prefixHash t Constants.reAttestFresh ids
              (others.card + 1) = true := by
  obtain ⟨req, hreq, hnew⟩ := signed_of_attested h
  obtain ⟨ts, hid⟩ := identified_of_presented hreq
  have htime := inTime_of_presentedInTime hid.inTime
  rw [htime.want] at hnew
  obtain ⟨hverify, hts⟩ := verify_of_newWitnessAttestation hnew
  -- the signed reading of the attestation's time is the clock
  have hdate : int64 att.ts = now := by
    rw [hts]
    exact int64_uint64 (hclock.nonneg.trans hclock.inOrder) (by have := hclock.room; omega)
  refine ⟨req, ts, hreq, hid.time, ?_, ?_⟩
  · intro hmode witnesses ids heval hset
    have hmint := mint_of_ageGate (hmode ▸ htime.age)
    obtain ⟨hlo, hhi⟩ := hclock.in_band htime.notFuture hmint
    have hidentity : (m.claimWith req.aliasN ts witnesses).prefixHash P = .ok m.prefixHash :=
      hid.identity
    rw [← hdate] at hlo hhi
    have hcounted := counted_of_evaluated hidentity heval hverify hlo hhi hset
    refine ⟨hcounted, ?_⟩
    intro others hother hothers hclaimant
    exact verifyFull_of_counted hcounted hid.pow hclaimant hothers hother
  · intro t hle hlt before after ids hbefore hset
    obtain ⟨hlo, hhi⟩ := hclock.in_window hle hlt
    rw [← hdate] at hlo hhi
    have hcounted := @freshCounted_of_dated P att m.prefixHash t ids before after hverify hlo hhi
      hbefore hset
    exact ⟨hcounted, fun others hother hothers =>
      hasFreshQuorum_of_freshCounted hcounted hothers hother⟩

namespace TimingSample

open Freens.Toy WitnessSample

def witness : WitnessNode := { kp := keypair 9, witnessLast := ∅, pool := newClaimPool }

def issued (ts : UInt64) : WitnessAttestation :=
  (newWitnessAttestation mined (keypair 9) ts (presents 2 ts).prefixHash).getD ⟨[], [], 0, []⟩

/-- 100 s before the end of the signed range. -/
def endOfTime : UInt64 := 0x7FFFFFFFFFFFFF9B

end TimingSample

section
open Toy WitnessSample TimingSample

theorem ordinary_attestation_counts : ∃ req ts,
    presented mined witness.pool gates (presents 2 1000) 1000 1000 = .ok req ∧
      FreshCounted mined [issued 1000] (presents 2 1000).prefixHash 173800 none (issued 1000) ∧
      (presents 2 1000).ts = some ts := by
  have hreply : (hWitness mined witness gates (presents 2 1000) 1000 1000).1 =
      .attested (issued 1000) 24 := by decide +kernel
  obtain ⟨req, ts, hreq, hts, _, hfresh⟩ := attestation_counts mined
    ⟨by norm_num, le_refl _, by norm_num, by norm_num⟩ hreply
  exact ⟨req, ts, hreq, (hfresh 173800 (by norm_num) (by norm_num) [] [] none (by decide) rfl).1, hts⟩

/-- **At the end of time the band wraps**: the signature on a claim dated now does not count. -/
theorem band_wraps_at_end_of_time :
    (hWitness mined witness gates (presents 2 endOfTime) (2 ^ 63 - 101) (2 ^ 63 - 101)).1 =
        .attested (issued endOfTime) 24 ∧
      ((presents 2 endOfTime).claimWith aliasA endOfTime
        [some (issued endOfTime)]).verifyClaimantConsistency mined = true ∧
      Evaluated ((presents 2 endOfTime).claimWith aliasA endOfTime [some (issued endOfTime)])
        (issued endOfTime) ∧
      verifyFull mined ((presents 2 endOfTime).claimWith aliasA endOfTime [some (issued endOfTime)])
        inferDifficulty none 1 = false := by
  refine ⟨by decide +kernel, by decide +kernel, ?_, by decide +kernel⟩
  unfold Evaluated
  decide +kernel

end

end Freens.Dht
