/-
**ONE CLAIM, TWO SCREENS** (`dht/claims_tombstone.go`: `ClaimEvidence`;
`resolver/resolver.go`: `verifyClaimEnvelope`, `verifyClaimContents`).

The checks are the same but for one: the resolver does not look at the revoke
field. Both read the claim's timestamp, an unsigned word, as a signed one.
-/
import Freens.Resolver.ClaimSet
import Freens.Toy

namespace Freens.Resolver

open Library Wire Claims Dht

/-! ## The resolver's screen beside the evidence screen -/

section
variable {P : Primitives} {env : SignedEnvelope} {aliasName : Bytes} {now : Int}
  {claim : AliasClaim}

theorem verifyClaimContents_iff {oracle : Option Int} {witnessSet : Option (List Bytes)} :
    verifyClaimContents P env aliasName now oracle witnessSet = some claim ↔
      boundClaim P env aliasName now = some claim ∧
        verifyFull P claim (effectivePoWDifficulty claim oracle)
          (membershipAt claim witnessSet now) Constants.w = true := by
  unfold verifyClaimContents
  cases hbound : boundClaim P env aliasName now with
  | none => simp
  | some bound =>
    show (if !verifyFull P bound _ _ _ then none else some bound) = some claim ↔ _
    split
    next hfull =>
      rw [Bool.not_eq_true'] at hfull
      constructor
      · intro h
        cases h
      · rintro ⟨heq, hpass⟩
        rw [Option.some.injEq] at heq
        rw [← heq, hfull] at hpass
        cases hpass
    next hfull =>
      rw [Bool.not_eq_true', Bool.not_eq_false] at hfull
      constructor
      · intro h
        rw [Option.some.injEq] at h
        subst h
        exact ⟨rfl, hfull⟩
      · rintro ⟨heq, _⟩
        exact heq

theorem membershipAt_none : membershipAt claim none now = none := ite_self none

theorem verifyClaimEnvelope_iff :
    verifyClaimEnvelope P env aliasName now none none = some claim ↔
      env.record.Valid ∧ env.verifySignature P = true ∧
        boundClaim P env aliasName now = some claim ∧
        verifyFull P claim inferDifficulty none 5 = true ∧
        env.record.created ≤ uint64 now ∧ uint64 now < env.record.expires := by
  have hcontents : verifyClaimContents P env aliasName now none none = some claim ↔
      boundClaim P env aliasName now = some claim ∧
        verifyFull P claim inferDifficulty none 5 = true := by
    rw [verifyClaimContents_iff, membershipAt_none]
    rfl
  unfold verifyClaimEnvelope
  cases hvalid : isBasicValid P env (uint64 now) with
  | false =>
    rw [Bool.eq_false_iff, ne_eq, isBasicValid_iff] at hvalid
    simp only [Bool.not_false, if_true, reduceCtorEq, false_iff]
    rintro ⟨hrecord, hsig, _, _, hwindow⟩
    exact hvalid ⟨hrecord, hsig, hwindow⟩
  | true =>
    rw [isBasicValid_iff] at hvalid
    obtain ⟨hrecord, hsig, hwindow⟩ := hvalid
    simp only [Bool.not_true, Bool.false_eq_true, if_false, hcontents, hrecord, hsig, hwindow,
      and_self, and_true, true_and]

theorem exists_prefixHash_of_verifyFull {d : Int} {ids : Option (List Bytes)} {quorum : Nat}
    (h : verifyFull P claim d ids quorum = true) : ∃ ph, claim.prefixHash P = .ok ph := by
  obtain ⟨_, pre, hpre, _⟩ := verifyFull_iff.mp h
  exact ⟨P.sha256 pre, prefixHash_eq_ok_iff.mpr ⟨pre, hpre, rfl⟩⟩

/-- **Live evidence**: the evidence screen, and the carrier in its time. -/
def LiveEvidence (P : Primitives) (env : SignedEnvelope) (aliasName : Bytes) (now : Int)
    (claim : AliasClaim) : Prop :=
  (∃ ph, claimEvidence P env aliasName now = some (claim, ph)) ∧
    env.record.created ≤ uint64 now ∧ uint64 now < env.record.expires

theorem liveEvidence_iff :
    LiveEvidence P env aliasName now claim ↔
      env.isRevoked = false ∧ verifyClaimEnvelope P env aliasName now none none = some claim := by
  rw [verifyClaimEnvelope_iff]
  constructor
  · rintro ⟨⟨ph, hevidence⟩, hwindow⟩
    have h := claimEvidence_eq_some_iff.mp hevidence
    exact ⟨h.notRevoked, h.valid, h.signature, h.bound, h.full, hwindow⟩
  · rintro ⟨hrevoked, hvalid, hsig, hbound, hfull, hwindow⟩
    obtain ⟨ph, hph⟩ := exists_prefixHash_of_verifyFull hfull
    exact ⟨⟨ph, claimEvidence_eq_some_iff.mpr ⟨hrevoked, hvalid, hsig, hbound, hfull, hph⟩⟩, hwindow⟩

end

/-- **The two screens agree** on a carrier unless it is both revoked and live for the resolver. -/
theorem screens_agree_iff (P : Primitives) (env : SignedEnvelope) (aliasName : Bytes) (now : Int) :
    (∀ claim, verifyClaimEnvelope P env aliasName now none none = some claim ↔
      (∃ ph, claimEvidence P env aliasName now = some (claim, ph)) ∧
        env.record.created ≤ uint64 now ∧ uint64 now < env.record.expires) ↔
      (env.isRevoked = true → verifyClaimEnvelope P env aliasName now none none = none) := by
  constructor
  · intro hagree hrevoked
    rw [Option.eq_none_iff_forall_ne_some]
    intro claim hlive
    have hevidence := liveEvidence_iff.mp ((hagree claim).mp hlive)
    rw [hrevoked] at hevidence
    exact absurd hevidence.1 (by simp)
  · intro hrevoked claim
    show _ ↔ LiveEvidence P env aliasName now claim
    rw [liveEvidence_iff, iff_and_self]
    intro hlive
    rw [Bool.eq_false_iff]
    intro hrev
    rw [hrevoked hrev] at hlive
    cases hlive

namespace ScreenSample

open Toy

def claim : AliasClaim := minedClaim 1 aliasA 1000 quorum

def revoked : SignedEnvelope :=
  signedWith mined { (carrier 1 claim 1000 100000).record with revoke := some true } (keypair 1)

end ScreenSample

/-- **A revoked claim competes** for the resolver; it is no evidence for witnesses and
storing nodes. -/
theorem revoked_carrier_live :
    ScreenSample.revoked.isRevoked = true ∧
      verifyClaimEnvelope Toy.mined ScreenSample.revoked Toy.aliasA 20000 none none =
        some ScreenSample.claim ∧
      claimEvidence Toy.mined ScreenSample.revoked Toy.aliasA 20000 = none ∧
      (resolveClaimSet Toy.mined ∅ Toy.aliasA 20000
        { envs := .ok [ScreenSample.revoked], witnessSet := none, oracle := none,
          reAttestSets := ∅ }).1.tldID = ScreenSample.claim.tldID := by
  decide +kernel

/-! ## Dates -/

/-- One of the two screens accepts the claim of the carrier. -/
def Accepted (P : Primitives) (env : SignedEnvelope) (aliasName : Bytes) (now : Int)
    (claim : AliasClaim) : Prop :=
  (∃ ph, claimEvidence P env aliasName now = some (claim, ph)) ∨
    ∃ oracle witnessSet, verifyClaimContents P env aliasName now oracle witnessSet = some claim

/-- A resolution answers with the claim and does not call it contested. -/
def ReportedFinal (P : Primitives) (aliasName : Bytes) (now : Int) (claim : AliasClaim) : Prop :=
  ∃ l c, selectWinner P (orderClaims P ((keptClaims P l aliasName now c).map (·.claim))) = some claim ∧
    (resolveClaimSet P l aliasName now c).1 = ⟨claim.tldID, false, false⟩

/-- **The dates mean what the ordering reads**: not future, and past the contest window
where no contest is reported. -/
structure DatedAsRead (P : Primitives) (aliasName : Bytes) (now : Int) (claim : AliasClaim) :
    Prop where
  notFuture : (claim.timestamp.toNat : Int) ≤ now + 60
  exempt : ∀ ids, membershipAt claim (some ids) now = none →
    (claim.timestamp.toNat : Int) + 172800 ≤ now
  final : ReportedFinal P aliasName now claim → (claim.timestamp.toNat : Int) + 172800 ≤ now

section
variable {P : Primitives} {env : SignedEnvelope} {aliasName : Bytes} {now : Int}
  {claim : AliasClaim}

theorem Accepted.notFuture (h : Accepted P env aliasName now claim) :
    int64 claim.timestamp ≤ wrap64 (now + 60) := by
  rcases h with ⟨ph, hevidence⟩ | ⟨oracle, witnessSet, hcontents⟩
  · exact (isBound_of_boundClaim (claimEvidence_eq_some_iff.mp hevidence).bound).notFuture
  · exact (isBound_of_boundClaim (verifyClaimContents_iff.mp hcontents).1).notFuture

theorem exempt_iff {ids : List Bytes} :
    membershipAt claim (some ids) now = none ↔
      172800 ≤ wrap64 (now - int64 claim.timestamp) := by
  unfold membershipAt
  split
  next h => simpa using h
  next h => simpa using h

theorem ReportedFinal.aged (h : ReportedFinal P aliasName now claim) :
    172800 ≤ wrap64 (now - int64 claim.timestamp) := by
  obtain ⟨l, c, hwinner, hanswer⟩ := h
  have hvalid : ∀ x ∈ (keptClaims P l aliasName now c).map (·.claim),
      structurallyAndPoWValid P x = true := claims_of_keptClaims_valid
  -- the answer is not a miss, so it is the winner's
  have hmem : structurallyAndPoWValid P claim = true := by
    rcases selectWinner_orderClaims hvalid with ⟨_, hnone⟩ | ⟨w, hw, hbest⟩
    · rw [hnone] at hwinner
      cases hwinner
    · rw [hw, Option.some.injEq] at hwinner
      rw [← hwinner]
      exact hvalid w hbest.mem
  have htld := tldID_ne_nil_of_valid hmem
  have hne : (resolveClaimSet P l aliasName now c).1.tldID ≠ [] := by
    rw [hanswer]
    exact htld
  have hchosen := (resolveClaimSet_fst hne).symm.trans hanswer
  unfold chooseClaim at hchosen
  split at hchosen
  next => exact absurd (congrArg ClaimOutcome.tldID hchosen).symm htld
  split at hchosen
  next => exact absurd (congrArg ClaimOutcome.tldID hchosen).symm htld
  rw [hwinner] at hchosen
  have hcontested := congrArg ClaimOutcome.contested hchosen
  simpa using hcontested

theorem aged_of_lt (hnow : 0 ≤ now) (hmax : now < 2 ^ 63) (hlt : claim.timestamp.toNat < 2 ^ 63)
    (h : 172800 ≤ wrap64 (now - int64 claim.timestamp)) :
    (claim.timestamp.toNat : Int) + 172800 ≤ now := by
  rw [int64_of_lt hlt, wrap64_of_range (by omega) (by omega)] at h
  omega

theorem not_aged_of_ge (hmax : now < 2 ^ 63) (hge : 2 ^ 63 ≤ claim.timestamp.toNat)
    (hahead : (claim.timestamp.toNat : Int) ≤ now + 60) :
    ¬ 172800 ≤ wrap64 (now - int64 claim.timestamp) := by
  have hword := claim.timestamp.toNat_lt
  have hwrap : wrap64 (now - int64 claim.timestamp) = now - claim.timestamp.toNat := by
    rw [int64_of_ge hge, wrap64_of_ge (by omega) (by omega)]
    omega
  rw [hwrap]
  omega

end

/-- **An accepted claim is dated as the ordering reads it** exactly when its
timestamp is below `2 ^ 63`, or the clock is within a minute of its own end. -/
theorem dated_as_read_iff (P : Primitives) {env : SignedEnvelope} {aliasName : Bytes} {now : Int}
    {claim : AliasClaim} (hnow : 0 ≤ now) (hmax : now < 2 ^ 63)
    (haccepted : Accepted P env aliasName now claim) :
    DatedAsRead P aliasName now claim ↔
      claim.timestamp.toNat < 2 ^ 63 ∨ 2 ^ 63 - 60 ≤ now := by
  have hsigned := haccepted.notFuture
  have hword := claim.timestamp.toNat_lt
  constructor
  · intro hdated
    have hahead := hdated.notFuture
    omega
  · intro hcond
    by_cases hlt : claim.timestamp.toNat < 2 ^ 63
    · refine ⟨?_, ?_, ?_⟩
      · rw [int64_of_lt hlt] at hsigned
        exact hsigned.trans (wrap64_le (by omega))
      · intro ids hexempt
        exact aged_of_lt hnow hmax hlt (exempt_iff.mp hexempt)
      · intro hfinal
        exact aged_of_lt hnow hmax hlt hfinal.aged
    · -- the clock's minute wraps as the date does
      have hge : 2 ^ 63 ≤ claim.timestamp.toNat := Nat.le_of_not_lt hlt
      have hahead : (claim.timestamp.toNat : Int) ≤ now + 60 := by
        rw [int64_of_ge hge, wrap64_of_ge (by omega) (by omega)] at hsigned
        omega
      refine ⟨hahead, ?_, ?_⟩
      · intro ids hexempt
        exact absurd (exempt_iff.mp hexempt) (not_aged_of_ge hmax hge hahead)
      · intro hfinal
        exact absurd hfinal.aged (not_aged_of_ge hmax hge hahead)

namespace ScreenSample

open Toy

def alive : SignedEnvelope := carrier 1 claim 1000 100000

def farFuture : AliasClaim := minedClaim 2 aliasA 0xc000000000000000 quorum

def farFutureCarrier : SignedEnvelope := carrier 2 farFuture 1000 100000

end ScreenSample

theorem dated_as_read_recent :
    Accepted Toy.mined ScreenSample.alive Toy.aliasA 20000 ScreenSample.claim ∧
      DatedAsRead Toy.mined Toy.aliasA 20000 ScreenSample.claim := by
  have haccepted : Accepted Toy.mined ScreenSample.alive Toy.aliasA 20000 ScreenSample.claim :=
    .inr ⟨none, none, by decide +kernel⟩
  exact ⟨haccepted,
    (dated_as_read_iff Toy.mined (by decide) (by decide) haccepted).mpr (.inl (by decide))⟩

/-- **A claim from the far future**, past `2 ^ 63`, is accepted by both screens and not
contested. -/
theorem far_future_accepted :
    (claimEvidence Toy.mined ScreenSample.farFutureCarrier Toy.aliasA 20000).map (·.1) =
        some ScreenSample.farFuture ∧
      verifyClaimContents Toy.mined ScreenSample.farFutureCarrier Toy.aliasA 20000 none (some []) =
        some ScreenSample.farFuture ∧
      (resolveClaimSet Toy.mined ∅ Toy.aliasA 20000
        { envs := .ok [ScreenSample.farFutureCarrier], witnessSet := some [], oracle := none,
          reAttestSets := ∅ }).1 = ⟨ScreenSample.farFuture.tldID, false, false⟩ ∧
      20000 + 60 < ScreenSample.farFuture.timestamp.toNat := by
  decide +kernel

end Freens.Resolver
