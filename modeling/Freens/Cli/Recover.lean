/-
**THE RECOVER COMMAND** (`cli/lifecycle.go`: `cmdRecover`,
`buildRecoveryEnvelope`): the declaration a quorum of recovery keys signs, from
now + timelock on, and the recovered record that is published with it, which
expires with its predecessor or after an hour.
-/
import Freens.Dht.LookupSpec

namespace Freens.Cli

open Library Naming Wire Dht

/-! ## The command -/

/-- Why a recovery is not built. -/
inductive RecoverError where
  /-- "wire: record has no recovery policy (field 10)" -/
  | noRecoveryPolicy
  /-- "duplicate recovery seed %d" -/
  | duplicateSeed (i : Nat)
  /-- "recovery seed %d yields key %s which is NOT one of the policy's %d keys" -/
  | notInPolicy (i : Nat) (key : Bytes) (policyKeys : Nat)
  /-- An error of `RecoverySigningMessage`. -/
  | message
  /-- "assembled recovery evidence failed self-verification" -/
  | selfVerification
  | record (e : RecordError)
  /-- The error of `SignRecord`. -/
  | encode
  /-- "recovered record R2 failed its signature self-check" -/
  | selfCheck
  deriving DecidableEq, Repr

section
variable (P : Primitives)

/-- The loop over the recovery seeds: each is a key of the policy and none is
given twice. -/
def collectSigners (policy : RecoveryPolicyWire) :
    Nat → List Bytes → List Crypto.Keypair → Except RecoverError (List Crypto.Keypair)
  | _, _, [] => .ok []
  | i, seen, kp :: rest =>
    if seen.any (fun k => k = kp.publicKey P) then .error (.duplicateSeed i)
    else if !policy.keys.any (fun k => k = kp.publicKey P) then
      .error (.notInPolicy i (kp.publicKey P) policy.keys.length)
    else do
      let signers ← collectSigners policy (i + 1) (kp.publicKey P :: seen) rest
      return kp :: signers

/-- The evidence `cmdRecover` writes, from now + timelock on. With too few signatures it
only warns. -/
def assembleEvidence (prev : SignedEnvelope) (newKP : Crypto.Keypair)
    (recoverySeeds : List Crypto.Keypair) (now : UInt64) : Except RecoverError RecoveryEvidence :=
  match prev.record.recovery with
  | none => .error .noRecoveryPolicy
  | some policy => do
    let signers ← collectSigners P policy 0 [] recoverySeeds
    match recoverySigningMessage (prev.recordHash P) (newKP.publicKey P) (now + policy.timelock) with
    | none => .error .message
    | some msg =>
      let ev : RecoveryEvidence :=
        { newOwnerPK := newKP.publicKey P
          signatures := signers.map (fun kp => kp.sign P msg)
          notBefore := now + policy.timelock }
      if !verifyRecovery P (some policy) ev (prev.recordHash P) prev.record.created
            (now + policy.timelock)
          ∧ (ev.signatures.length : Int) ≥ int64 policy.threshold then .error .selfVerification
      else .ok ev

/-- What is left of the previous record's lifetime, at least an hour. -/
def remainingLifetime (prev : Record) (now : UInt64) : Int :=
  let remaining := wrap64 (int64 prev.expires - int64 now)
  if remaining < Constants.responseTTLCap then Constants.responseTTLCap else remaining

/-- The fields carried over: the RRset with a TTL of 3600 where there was none, delegation,
policy and claim. -/
def recoveredRecord (prev : SignedEnvelope) (fresh : Record) (newKP : Crypto.Keypair) : Record :=
  { fresh with
    prevHash := some (prev.recordHash P)
    rrset := prev.record.rrset.map (fun rr => if rr.ttl = 0 then { rr with ttl := 3600 } else rr)
    delegation :=
      if prev.record.delegationBytes.length = 0
          ∨ prev.record.delegationBytes = prev.record.owner then some (newKP.publicKey P)
      else prev.record.delegation
    recovery := prev.record.recovery
    claim := prev.record.claim }

/-- `buildRecoveryEnvelope`: the next record, under the new owner. -/
def buildRecoveryEnvelope (prev : SignedEnvelope) (newKP : Crypto.Keypair) (now : UInt64) :
    Except RecoverError SignedEnvelope :=
  if prev.record.recovery = none then .error .noRecoveryPolicy
  else match newRecord prev.record.name (newKP.publicKey P) (prev.record.sequence + 1) now
      (uint64 (wrap64 (int64 now + remainingLifetime prev.record now))) with
    | .error e => .error (.record e)
    | .ok fresh =>
      match signRecord P (recoveredRecord P prev fresh newKP) newKP with
      | none => .error .encode
      | some env => if !env.verifySignature P then .error .selfCheck else .ok env

/-- `cmdRecover` with both outputs: the evidence and the recovered record. -/
def recover (prev : SignedEnvelope) (newKP : Crypto.Keypair) (recoverySeeds : List Crypto.Keypair)
    (now : UInt64) : Except RecoverError (RecoveryEvidence × SignedEnvelope) := do
  let ev ← assembleEvidence P prev newKP recoverySeeds now
  let r2 ← buildRecoveryEnvelope P prev newKP now
  return (ev, r2)

end

/-! ## The evidence -/

/-- **A quorum at hand**: `threshold` distinct policy keys, a timelock of at most 30 days
and a clock in range. -/
structure QuorumAtHand (P : Primitives) (prev : SignedEnvelope) (policy : RecoveryPolicyWire)
    (recoverySeeds : List Crypto.Keypair) (now : UInt64) : Prop where
  carried : prev.record.recovery = some policy
  threshold : 1 ≤ policy.threshold
  enough : policy.threshold.toNat ≤ recoverySeeds.length
  distinct : (recoverySeeds.map (fun kp => kp.publicKey P)).Nodup
  members : ∀ kp ∈ recoverySeeds, kp.publicKey P ∈ policy.keys
  timelock : policy.timelock.toNat ≤ 2592000
  clock : now.toNat < 2 ^ 62

/-- The declaration, signed by the recovery keys. -/
def declarationBy (P : Primitives) (prev : SignedEnvelope) (newKP : Crypto.Keypair)
    (signers : List Crypto.Keypair) (notBefore : UInt64) : RecoveryEvidence :=
  { newOwnerPK := newKP.publicKey P
    signatures := signers.map (fun kp =>
      kp.sign P (declaration (prev.recordHash P) (newKP.publicKey P) notBefore))
    notBefore }

variable {P : Primitives} {prev : SignedEnvelope} {policy : RecoveryPolicyWire}
  {newKP : Crypto.Keypair} {recoverySeeds : List Crypto.Keypair} {now : UInt64}
  {ev : RecoveryEvidence}

theorem collectSigners_eq_ok (seeds : List Crypto.Keypair) (i : Nat) (seen : List Bytes)
    (hdistinct : (seeds.map (fun kp => kp.publicKey P)).Nodup)
    (hunseen : ∀ kp ∈ seeds, kp.publicKey P ∉ seen)
    (hmembers : ∀ kp ∈ seeds, kp.publicKey P ∈ policy.keys) :
    collectSigners P policy i seen seeds = .ok seeds := by
  induction seeds generalizing i seen with
  | nil => rfl
  | cons kp seeds ih =>
    rw [List.map_cons, List.nodup_cons] at hdistinct
    -- the keys still to come are distinct from this one as well
    have hrest := ih (i + 1) (kp.publicKey P :: seen) hdistinct.2
      (by
        intro kp' hkp' hmem
        rcases List.mem_cons.mp hmem with heq | hseen
        · exact hdistinct.1 (heq ▸ List.mem_map.mpr ⟨kp', hkp', rfl⟩)
        · exact hunseen kp' (List.mem_cons_of_mem _ hkp') hseen)
      (fun kp' hkp' => hmembers kp' (List.mem_cons_of_mem _ hkp'))
    have hnew : kp.publicKey P ∉ seen := hunseen kp List.mem_cons_self
    have hmember : kp.publicKey P ∈ policy.keys := hmembers kp List.mem_cons_self
    unfold collectSigners
    rw [if_neg (by simpa using hnew), if_neg (by simpa using hmember), hrest]
    rfl

section
variable (h : QuorumAtHand P prev policy recoverySeeds now)
include h

theorem QuorumAtHand.notBefore_toNat :
    (now + policy.timelock).toNat = now.toNat + policy.timelock.toNat := by
  have htimelock := h.timelock
  have hclock := h.clock
  rw [UInt64.toNat_add, Nat.mod_eq_of_lt (by omega)]

theorem QuorumAtHand.quorum (newKP : Crypto.Keypair) (notBefore : UInt64) :
    Quorum P policy (declarationBy P prev newKP recoverySeeds notBefore) (prev.recordHash P) := by
  refine ⟨(recoverySeeds.map (fun kp => kp.publicKey P)).toFinset, ?_, ?_⟩
  · intro k hk
    obtain ⟨kp, hkp, hpk⟩ := List.mem_map.mp (List.mem_toFinset.mp hk)
    subst hpk
    refine ⟨h.members kp hkp, _, List.mem_map.mpr ⟨kp, hkp, rfl⟩, ?_⟩
    exact Crypto.verify_sign P kp _
  · rw [List.toFinset_card_of_nodup h.distinct, List.length_map]
    exact h.enough

theorem QuorumAtHand.timelockBound_iff :
    TimelockBound policy prev.record.created (now + policy.timelock) ↔
      prev.record.created = 0 ∨ prev.record.created ≤ now := by
  have htimelock := h.timelock
  have hclock := h.clock
  unfold TimelockBound
  rw [h.notBefore_toNat, UInt64.le_iff_toNat_le]
  by_cases hzero : prev.record.created = 0
  · simp [hzero]
  · simp only [hzero, ne_eq, not_false_eq_true, true_imp_iff, false_or]
    omega

theorem QuorumAtHand.verifyRecovery_iff :
    verifyRecovery P (some policy)
        (declarationBy P prev newKP recoverySeeds (now + policy.timelock)) (prev.recordHash P)
        prev.record.created (now + policy.timelock) = true ↔
      prev.record.created = 0 ∨ prev.record.created ≤ now := by
  rw [Wire.verifyRecovery_iff (recordHash_length prev), ← h.timelockBound_iff]
  constructor
  · intro hverify
    obtain ⟨pol, hpol, _, _, hbound, _⟩ := hverify
    rw [Option.some.injEq] at hpol
    exact hpol ▸ hbound
  · intro hbound
    exact ⟨policy, rfl, h.threshold, Crypto.Keypair.publicKey_length P newKP, hbound,
      h.quorum newKP _, UInt64.le_refl _⟩

theorem QuorumAtHand.enough_int64 :
    int64 policy.threshold ≤ (recoverySeeds.length : Int) := by
  have henough := h.enough
  have hlt := policy.threshold.toNat_lt
  by_cases hsmall : policy.threshold.toNat < 2 ^ 63
  · rw [int64_of_lt hsmall]
    omega
  · rw [int64_of_ge (by omega)]
    omega

theorem QuorumAtHand.assembleEvidence_eq_ok_iff :
    assembleEvidence P prev newKP recoverySeeds now = .ok ev ↔
      (prev.record.created = 0 ∨ prev.record.created ≤ now) ∧
        ev = declarationBy P prev newKP recoverySeeds (now + policy.timelock) := by
  have hsigners := @collectSigners_eq_ok P policy recoverySeeds 0 [] h.distinct (by simp) h.members
  have hmsg := @recoverySigningMessage_eq_some (prev.recordHash P) (newKP.publicKey P)
    (now + policy.timelock) (recordHash_length prev) (Crypto.Keypair.publicKey_length P newKP)
  have hcheck := @QuorumAtHand.verifyRecovery_iff P prev policy newKP recoverySeeds now h
  have henough := h.enough_int64
  unfold assembleEvidence
  rw [h.carried]
  simp only [hsigners, bind_eq_ok, Except.ok.injEq, exists_eq_left', hmsg, guard_eq_ok,
    List.length_map, ge_iff_le]
  rw [← hcheck]
  constructor
  · intro hok
    obtain ⟨hnot, hev⟩ := hok
    refine ⟨?_, hev.symm⟩
    by_contra hfail
    exact hnot ⟨by rw [Bool.not_eq_true', ← Bool.not_eq_true]; exact hfail, henough⟩
  · intro hok
    obtain ⟨hverify, hev⟩ := hok
    refine ⟨?_, hev.symm⟩
    intro hboth
    have hfalse := hboth.1
    rw [Bool.not_eq_true', ← Bool.not_eq_true] at hfalse
    exact hfalse hverify

end

/-! ## The recovered record -/

/-- **What the recovered record is**: the next of its name, linked to the predecessor, owned
and signed by the new key, until the predecessor's end or for an hour. -/
structure RecoveredFrom (P : Primitives) (prev : SignedEnvelope) (newKP : Crypto.Keypair)
    (now : UInt64) (r2 : SignedEnvelope) : Prop where
  name : r2.record.name = prev.record.name
  owner : r2.record.owner = newKP.publicKey P
  signer : r2.signer = newKP.publicKey P
  sequence : r2.record.sequence.toNat = prev.record.sequence.toNat + 1
  created : r2.record.created = now
  expires : (r2.record.expires.toNat : Int) =
    now.toNat + max (wrap64 (int64 prev.record.expires - int64 now)) 3600
  link : r2.record.prevHashBytes = prev.recordHash P
  authentic : r2.verifySignature P = true

theorem remainingLifetime_eq (prev : Record) (now : UInt64) :
    remainingLifetime prev now = max (wrap64 (int64 prev.expires - int64 now)) 3600 := by
  simp only [remainingLifetime, Constants.responseTTLCap]
  split <;> omega

theorem expires_toNat (prev : Record) (hclock : now.toNat < 2 ^ 62) :
    ((uint64 (wrap64 (int64 now + remainingLifetime prev now))).toNat : Int) =
      now.toNat + max (wrap64 (int64 prev.expires - int64 now)) 3600 := by
  rw [remainingLifetime_eq, int64_of_lt (by omega : now.toNat < 2 ^ 63)]
  have hlt := wrap64_lt (int64 prev.expires - now.toNat)
  rw [uint64_wrap64, uint64_toNat (by omega) (by omega)]
  omega

variable {r2 : SignedEnvelope} {T : Bytes}

theorem recoveredFrom_of_build (hclock : now.toNat < 2 ^ 62)
    (h : buildRecoveryEnvelope P prev newKP now = .ok r2) : RecoveredFrom P prev newKP now r2 := by
  simp only [buildRecoveryEnvelope, guard_eq_ok] at h
  obtain ⟨_, h⟩ := h
  split at h
  next => cases h
  next fresh hfresh =>
    split at h
    next => cases h
    next env henv =>
    rw [guard_eq_ok, Except.ok.injEq] at h
    obtain ⟨hvalid, hrec⟩ := newRecord_eq_ok_iff.mp hfresh
    have hseq := hvalid.sequence
    have hauthentic := verifySignature_signRecord henv
    rw [h.2] at henv hauthentic
    have hr2 := (signRecord_eq_some_iff.mp henv).2.symm
    subst hr2 hrec
    exact ⟨rfl, rfl, rfl, sequence_succ hseq, rfl, expires_toNat prev.record hclock, rfl,
      hauthentic⟩

theorem exists_build_iff (hclock : now.toNat < 2 ^ 62) (hpolicy : prev.record.recovery ≠ none)
    (hname : prev.record.name ≠ []) (hencodes : prev.record.encodes = true) :
    (∃ r2, buildRecoveryEnvelope P prev newKP now = .ok r2) ↔
      prev.record.sequence.toNat + 1 < 2 ^ 64 := by
  constructor
  · intro h
    obtain ⟨r2, hr2⟩ := h
    rw [← (recoveredFrom_of_build hclock hr2).sequence]
    exact r2.record.sequence.toNat_lt
  · intro hseq
    have hexpires := @expires_toNat now prev.record hclock
    have hvalid : (Record.mk 1 prev.record.name (newKP.publicKey P) (prev.record.sequence + 1) now
        (uint64 (wrap64 (int64 now + remainingLifetime prev.record now))) [] none none none []
        none).Valid := by
      refine ⟨rfl, hname, Crypto.Keypair.publicKey_length P newKP, ?_, ?_, by simp, by simp, by simp⟩
      · exact one_le_succ hseq
      · show now ≤ uint64 (wrap64 (int64 now + remainingLifetime prev.record now))
        rw [UInt64.le_iff_toNat_le]
        omega
    unfold buildRecoveryEnvelope
    rw [if_neg hpolicy, newRecord_eq_ok_iff.mpr ⟨hvalid, rfl⟩]
    -- the recovered record has the claim of its predecessor
    exact ⟨_, signed_of_encodes ((encodes_congr rfl).trans hencodes)⟩

theorem recover_eq_ok_iff :
    recover P prev newKP recoverySeeds now = .ok (ev, r2) ↔
      assembleEvidence P prev newKP recoverySeeds now = .ok ev ∧
        buildRecoveryEnvelope P prev newKP now = .ok r2 := by
  simp only [recover, bind_eq_ok, pure_eq_ok, Prod.mk.injEq]
  constructor
  · intro h
    obtain ⟨ev', hev, r2', hr2, heq, heq'⟩ := h
    exact ⟨heq ▸ hev, heq' ▸ hr2⟩
  · intro h
    exact ⟨ev, h.1, r2, h.2, rfl, rfl⟩

theorem decodeRecoveryEvidence_declarationBy (notBefore : UInt64) :
    decodeRecoveryEvidence P (declarationBy P prev newKP recoverySeeds notBefore).bytes =
      some (declarationBy P prev newKP recoverySeeds notBefore) := by
  refine decodeRecoveryEvidence_bytes (Crypto.Keypair.publicKey_length P newKP) ?_
  intro sig hsig
  obtain ⟨kp, _, heq⟩ := List.mem_map.mp hsig
  rw [← heq]
  exact Crypto.Keypair.sign_length P kp _

theorem evidence_bytes_ne_nil (ev : RecoveryEvidence) : ev.bytes ≠ [] := by
  simp [RecoveryEvidence.bytes, Cbor.map, Cbor.head]

theorem QuorumAtHand.accepted (h : QuorumAtHand P prev policy recoverySeeds now)
    (hT : T.length = 32) (hcreated : prev.record.created = 0 ∨ prev.record.created ≤ now)
    (hr2 : RecoveredFrom P prev newKP now r2) {s : EnvelopeStore} {t : Int} {verify : Bool}
    (hholds : Holds s T prev) :
    (putWithEvidence P s T r2 t verify
      (declarationBy P prev newKP recoverySeeds (now + policy.timelock)).bytes).1 = .ok true := by
  have hseq : prev.record.sequence < r2.record.sequence := by
    rw [UInt64.lt_iff_toNat_lt, hr2.sequence]
    omega
  -- the recovery gate looks at the evidence that comes with the put
  have hband (ev : RecoveryEvidence) : evidenceFor P s r2 ev.bytes = ev.bytes := by
    unfold evidenceFor
    rw [if_neg (fun hnil => evidence_bytes_ne_nil _ (List.length_eq_zero_iff.mp hnil))]
  have hgate : recoveryAcceptable P s r2 prev
      (declarationBy P prev newKP recoverySeeds (now + policy.timelock)).bytes = true := by
    rw [recoveryAcceptable_iff, hband]
    exact ⟨evidence_bytes_ne_nil _, _, decodeRecoveryEvidence_declarationBy _,
      hr2.signer.trans hr2.owner.symm, hr2.owner.symm, policy, h.carried, h.threshold,
      h.quorum newKP _, h.timelockBound_iff.mpr hcreated⟩
  apply accepted_over_held hT hr2.authentic hholds
  intro hne
  rw [judgeIncumbent_install_iff]
  exact ⟨hne, envelopeWins_iff.mpr (.inl hseq), .inl ⟨hr2.link, hseq, .inr hgate⟩⟩

theorem RecoveredFrom.selfCertified_iff (hr2 : RecoveredFrom P prev newKP now r2)
    (hname : prev.record.name = wireImage [] T) :
    selfCertifiedTldRoot P r2 = true ↔ P.sha256 (newKP.publicKey P) = T := by
  constructor
  · intro hself
    rw [tldID_of_selfCertified hself (hr2.name.trans hname), hr2.owner]
  · intro hT
    rw [selfCertifiedTldRoot_iff, hr2.owner, hr2.name, hname, hT]
    exact ⟨hr2.signer, Crypto.Keypair.publicKey_length P newKP, rfl⟩

section
variable {fetchPredecessor : Bytes → Option SignedEnvelope}
  {fetchEvidence : Bytes → Option RecoveryEvidence} {t : UInt64}
  (h : QuorumAtHand P prev policy recoverySeeds now)
  (hcreated : prev.record.created = 0 ∨ prev.record.created ≤ now)
  (hr2 : RecoveredFrom P prev newKP now r2)
  (hfetch : fetchPredecessor (prev.recordHash P) = some prev)
  (hev : fetchEvidence (r2.recordHash P) =
    some (declarationBy P prev newKP recoverySeeds (now + policy.timelock)))
  (ht : now + policy.timelock ≤ t)
include h hcreated hr2 hfetch hev ht

theorem QuorumAtHand.handoffStep_eq (hprev : prev.verifySignature P = true) :
    handoffStep P fetchPredecessor (some fetchEvidence) t r2 = some prev := by
  rw [handoffStep_eq_some_iff hr2.authentic]
  refine ⟨⟨?_, hr2.link, hprev, hr2.sequence, hr2.name⟩, .inr ⟨?_, ?_⟩⟩
  · rw [hr2.link]
    exact hfetch
  · exact hr2.signer.trans hr2.owner.symm
  · exact ⟨fetchEvidence, _, policy, rfl, hev, hr2.owner.symm, h.carried, h.threshold,
      h.quorum newKP _, ht, h.timelockBound_iff.mpr hcreated⟩

/-- **The verifier on the recovered record** once declared: it certifies itself, or its
predecessor's lineage leaves room for a hop. -/
theorem QuorumAtHand.verifies_iff (haccepted :
    verifyAuthorityChainWithHandoffs P fetchPredecessor (some fetchEvidence) now [prev] = true) :
    verifyAuthorityChainWithHandoffs P fetchPredecessor (some fetchEvidence) t [r2] = true ↔
      selfCertifiedTldRoot P r2 = true ∨
        ∃ records, Lineage P (HandoffHop P 1 fetchPredecessor (some fetchEvidence) now) prev records ∧
          records.length ≤ transferMaxDepth := by
  obtain ⟨hprev, hwalk⟩ := verifyAuthorityChainWithHandoffs_single.mp haccepted
  have hstep := h.handoffStep_eq hcreated hr2 hfetch hev ht hprev
  have hnow : now ≤ t := by
    have hstart := UInt64.le_iff_toNat_le.mp ht
    rw [h.notBefore_toNat] at hstart
    rw [UInt64.le_iff_toNat_le]
    omega
  -- what was handed over at `now` is handed over at `t`
  have hsame := @walkBack_isSome_of_extends _ (selfCertifiedTldRoot P)
    (handoffStep P fetchPredecessor (some fetchEvidence) now)
    (handoffStep P fetchPredecessor (some fetchEvidence) t)
    (fun _ _ => handoffStep_mono hnow) transferMaxDepth 15 prev hwalk
  rw [verifyAuthorityChainWithHandoffs_single, ← lineage_iff_walkBack (show 15 ≤ 16 by omega) hprev,
    ← hsame]
  by_cases hself : selfCertifiedTldRoot P r2 = true
  · simp [hr2.authentic, hself, walkBack]
  · have hone : (walkBack (selfCertifiedTldRoot P)
        (handoffStep P fetchPredecessor (some fetchEvidence) t) transferMaxDepth r2) =
        walkBack (selfCertifiedTldRoot P)
          (handoffStep P fetchPredecessor (some fetchEvidence) t) 15 prev := by
      show (if selfCertifiedTldRoot P r2 then some r2 else
        (handoffStep P fetchPredecessor (some fetchEvidence) t r2).bind _) = _
      rw [if_neg hself, hstep]
      rfl
    rw [hone]
    simp [hr2.authentic, hself]

end

/-! ## Recoveries that complete -/

/-- **A recovery completes**: evidence and record are written and accepted, and at some time
the record is unexpired and verifies. -/
def Completes (P : Primitives) (prev : SignedEnvelope) (newKP : Crypto.Keypair)
    (recoverySeeds : List Crypto.Keypair) (now : UInt64) (T : Bytes)
    (fetchPredecessor : Bytes → Option SignedEnvelope)
    (fetchEvidence : Bytes → Option RecoveryEvidence) : Prop :=
  ∃ ev r2, recover P prev newKP recoverySeeds now = .ok (ev, r2) ∧
    (∀ s t verify, Holds s T prev →
      (putWithEvidence P s T r2 t verify ev.bytes).1 = .ok true) ∧
    ∃ t, ev.notBefore ≤ t ∧ t < r2.record.expires ∧
      verifyAuthorityChainWithHandoffs P fetchPredecessor (some fetchEvidence) t [r2] = true

theorem tldID_length_of_accepted {fetchPredecessor : Bytes → Option SignedEnvelope}
    {fetchEvidence : Option (Bytes → Option RecoveryEvidence)}
    (hname : prev.record.name = wireImage [] T)
    (h : verifyAuthorityChainWithHandoffs P fetchPredecessor fetchEvidence now [prev] = true) :
    T.length = 32 := by
  obtain ⟨hprev, hwalk⟩ := verifyAuthorityChainWithHandoffs_single.mp h
  obtain ⟨records, hl⟩ := (walkBack_isSome_iff hprev).mp hwalk
  obtain ⟨origin, hlast, hself⟩ := hl.origin
  have horigin := hl.name origin (List.mem_of_getLast? hlast)
  rw [tldID_of_selfCertified hself (horigin.trans hname)]
  exact P.sha256_length _

/-- **When a recovery completes**: there is a next sequence number, the root is not of the
future, the timelock is shorter than its remaining life or an hour, and the new key is the
TLD's or the lineage has at most 15 hops. -/
theorem recovery_completes_iff (P : Primitives) (prev : SignedEnvelope)
    (policy : RecoveryPolicyWire) (newKP : Crypto.Keypair) (recoverySeeds : List Crypto.Keypair)
    (now : UInt64) (T : Bytes) (fetchPredecessor : Bytes → Option SignedEnvelope)
    (fetchEvidence : Bytes → Option RecoveryEvidence)
    (hquorum : QuorumAtHand P prev policy recoverySeeds now)
    (hname : prev.record.name = wireImage [] T)
    (haccepted : verifyAuthorityChainWithHandoffs P fetchPredecessor (some fetchEvidence) now [prev]
      = true)
    (hfetch : fetchPredecessor (prev.recordHash P) = some prev)
    (hevidence : ∀ ev r2, recover P prev newKP recoverySeeds now = .ok (ev, r2) →
      fetchEvidence (r2.recordHash P) = some ev) :
    Completes P prev newKP recoverySeeds now T fetchPredecessor fetchEvidence ↔
      prev.record.sequence.toNat + 1 < 2 ^ 64 ∧
      (prev.record.created = 0 ∨ prev.record.created ≤ now) ∧
      (policy.timelock.toNat : Int) < max (wrap64 (int64 prev.record.expires - int64 now)) 3600 ∧
      (P.sha256 (newKP.publicKey P) = T ∨
        ∃ records, Lineage P (HandoffHop P 1 fetchPredecessor (some fetchEvidence) now) prev records ∧
          records.length ≤ transferMaxDepth) := by
  have hpolicy : prev.record.recovery ≠ none := by simp [hquorum.carried]
  have hnonempty : prev.record.name ≠ [] := by simp [hname, wireImage]
  have hencodes : prev.record.encodes = true :=
    encodes_of_verifySignature (verifyAuthorityChainWithHandoffs_single.mp haccepted).1
  have hstart := hquorum.notBefore_toNat
  constructor
  · intro h
    obtain ⟨ev, r2, hrecover, _, t, hafter, hbefore, hverify⟩ := h
    have hat := hevidence ev r2 hrecover
    obtain ⟨hev, hbuild⟩ := recover_eq_ok_iff.mp hrecover
    obtain ⟨hcreated, hdeclared⟩ := hquorum.assembleEvidence_eq_ok_iff.mp hev
    have hr2 := recoveredFrom_of_build hquorum.clock hbuild
    have hseq := (exists_build_iff hquorum.clock hpolicy hnonempty hencodes).mp ⟨r2, hbuild⟩
    subst hdeclared
    refine ⟨hseq, hcreated, ?_, ?_⟩
    · -- the two windows meet at `t`
      have hafter' : (now + policy.timelock).toNat ≤ t.toNat := UInt64.le_iff_toNat_le.mp hafter
      have hbefore' := UInt64.lt_iff_toNat_lt.mp hbefore
      have hexpires := hr2.expires
      omega
    · rw [hquorum.verifies_iff hcreated hr2 hfetch hat hafter haccepted,
        hr2.selfCertified_iff hname] at hverify
      exact hverify
  · intro h
    obtain ⟨hseq, hcreated, hwindow, hroom⟩ := h
    obtain ⟨r2, hbuild⟩ := (exists_build_iff hquorum.clock hpolicy hnonempty hencodes).mpr hseq
    have hr2 := recoveredFrom_of_build hquorum.clock hbuild
    have hrecover := recover_eq_ok_iff.mpr
      ⟨hquorum.assembleEvidence_eq_ok_iff.mpr ⟨hcreated, rfl⟩, hbuild⟩
    have hat := hevidence _ r2 hrecover
    refine ⟨_, r2, hrecover, ?_, now + policy.timelock, UInt64.le_refl _, ?_, ?_⟩
    · intro s t verify hholds
      exact hquorum.accepted (tldID_length_of_accepted hname haccepted) hcreated hr2 hholds
    · have hexpires := hr2.expires
      rw [UInt64.lt_iff_toNat_lt]
      omega
    · rw [hquorum.verifies_iff hcreated hr2 hfetch hat (UInt64.le_refl _) haccepted,
        hr2.selfCertified_iff hname]
      exact hroom

namespace Sample

def root (timelock : UInt64) : SignedEnvelope :=
  Toy.signedBy 1 { Toy.tldRecord 1 1 1 100 86500 with
    recovery := some { threshold := 1, keys := [Toy.publicKey 3], timelock } }

def evidence (timelock : UInt64) : RecoveryEvidence :=
  declarationBy Toy.primitives (root timelock) (Toy.keypair 2) [Toy.keypair 3] (200 + timelock)

def recoveredRoot (timelock : UInt64) : SignedEnvelope :=
  Toy.signedBy 2 { Toy.tldRecord 1 2 2 200 86500 with
    prevHash := some ((root timelock).recordHash Toy.primitives)
    delegation := some (Toy.publicKey 2)
    recovery := some { threshold := 1, keys := [Toy.publicKey 3], timelock } }

def fetchRoot (timelock : UInt64) (h : Bytes) : Option SignedEnvelope :=
  if h = (root timelock).recordHash Toy.primitives then some (root timelock) else none

def fetchDeclared (timelock : UInt64) (h : Bytes) : Option RecoveryEvidence :=
  if h = (recoveredRoot timelock).recordHash Toy.primitives then some (evidence timelock) else none

end Sample

theorem recovery_completes_early :
    Completes Toy.primitives (Sample.root 500) (Toy.keypair 2) [Toy.keypair 3] 200 Dht.Sample.tld
      (Sample.fetchRoot 500) (Sample.fetchDeclared 500) := by
  have hrecover : recover Toy.primitives (Sample.root 500) (Toy.keypair 2) [Toy.keypair 3] 200 =
      .ok (Sample.evidence 500, Sample.recoveredRoot 500) := by decide +kernel
  have hauthentic : (Sample.root 500).verifySignature Toy.primitives = true := by decide +kernel
  have hself : selfCertifiedTldRoot Toy.primitives (Sample.root 500) = true := by decide +kernel
  refine (recovery_completes_iff Toy.primitives (Sample.root 500)
    { threshold := 1, keys := [Toy.publicKey 3], timelock := 500 } (Toy.keypair 2) [Toy.keypair 3]
    200 Dht.Sample.tld (Sample.fetchRoot 500) (Sample.fetchDeclared 500)
    ⟨rfl, by decide, by decide, by decide +kernel, by decide +kernel, by decide, by decide⟩
    rfl (by decide +kernel) (if_pos rfl) ?_).mpr ?_
  · intro ev r2 h
    rw [hrecover, Except.ok.injEq, Prod.mk.injEq] at h
    rw [← h.1, ← h.2]
    exact if_pos rfl
  · refine ⟨by decide +kernel, .inr (by decide +kernel), by decide +kernel, .inr ?_⟩
    exact ⟨_, Lineage.single hauthentic hself, by decide⟩

/-- **The recovered record expires first**, with a timelock of three days and a root of one. -/
theorem recovery_expires_first :
    QuorumAtHand Toy.primitives (Sample.root 259200)
      { threshold := 1, keys := [Toy.publicKey 3], timelock := 259200 } [Toy.keypair 3] 200 ∧
    verifyAuthorityChain Toy.primitives [Sample.root 259200] = true ∧
    200 < (Sample.root 259200).record.expires ∧
    recover Toy.primitives (Sample.root 259200) (Toy.keypair 2) [Toy.keypair 3] 200 =
      .ok (Sample.evidence 259200, Sample.recoveredRoot 259200) ∧
    (putWithEvidence Toy.primitives (Dht.Sample.holding (Sample.root 259200)) Dht.Sample.tld
      (Sample.recoveredRoot 259200) 200 true (Sample.evidence 259200).bytes).1 = .ok true ∧
    ∀ t, (Sample.evidence 259200).notBefore ≤ t →
      ¬ t < (Sample.recoveredRoot 259200).record.expires := by
  refine ⟨⟨rfl, by decide, by decide, by decide +kernel, by decide +kernel, by decide, by decide⟩,
    by decide +kernel, by decide, by decide +kernel, by decide +kernel, ?_⟩
  intro t ht
  have hlate : (Sample.recoveredRoot 259200).record.expires ≤ (Sample.evidence 259200).notBefore := by
    decide +kernel
  exact UInt64.not_lt.mpr (UInt64.le_trans hlate ht)

end Freens.Cli
