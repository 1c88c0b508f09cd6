/-
**COUNTING A RECOVERY QUORUM** (`wire/recovery.go`: `VerifyRecovery`, §8.4). What
the check decides is a statement about sets: `recoverySigners` are the distinct
policy keys with a valid signature over the declaration.
-/
import Freens.Wire.Recovery

namespace Freens.Wire

open Library

variable {P : Primitives} {policy : RecoveryPolicyWire} {ev : RecoveryEvidence}
  {prevRecordHash : Bytes} {prevCreated now : UInt64}

/-! ## The keys that signed -/

/-- A key of 32 bytes validates one of the signatures, if there is a message. -/
def validatesDeclaration (P : Primitives) (ev : RecoveryEvidence) (prevRecordHash k : Bytes) : Bool :=
  match recoverySigningMessage prevRecordHash ev.newOwnerPK ev.notBefore with
  | none => false
  | some msg => signedBy P ev.signatures msg k

/-- The policy keys that signed the declaration. -/
def recoverySigners (P : Primitives) (policy : RecoveryPolicyWire) (ev : RecoveryEvidence)
    (prevRecordHash : Bytes) : Finset Bytes :=
  policy.keys.toFinset.filter (fun k => validatesDeclaration P ev prevRecordHash k = true)

variable {k : Bytes}

theorem validatesDeclaration_iff :
    validatesDeclaration P ev prevRecordHash k = true ↔
      ∃ msg, recoverySigningMessage prevRecordHash ev.newOwnerPK ev.notBefore = some msg ∧
        k.length = 32 ∧ ∃ sig ∈ ev.signatures, Crypto.verify P k sig msg = true := by
  unfold validatesDeclaration
  cases hmsg : recoverySigningMessage prevRecordHash ev.newOwnerPK ev.notBefore with
  | none => simp
  | some msg =>
    simp only [Option.some.injEq, exists_eq_left']
    rw [signedBy, Bool.and_eq_true, decide_eq_true_eq, List.any_eq_true]

theorem mem_recoverySigners :
    k ∈ recoverySigners P policy ev prevRecordHash ↔
      k ∈ policy.keys ∧ validatesDeclaration P ev prevRecordHash k = true := by
  rw [recoverySigners, Finset.mem_filter, List.mem_toFinset]

theorem countDistinct_eq_signers {msg : Bytes}
    (hmsg : recoverySigningMessage prevRecordHash ev.newOwnerPK ev.notBefore = some msg) :
    countDistinct (signedBy P ev.signatures msg) policy.keys [] =
      (recoverySigners P policy ev prevRecordHash).card := by
  rw [countDistinct_eq_card, List.toFinset_nil, Finset.sdiff_empty]
  congr 1
  ext k
  rw [List.mem_toFinset, List.mem_filter, mem_recoverySigners, validatesDeclaration, hmsg]

theorem recoverySigners_eq_empty
    (hmsg : recoverySigningMessage prevRecordHash ev.newOwnerPK ev.notBefore = none) :
    recoverySigners P policy ev prevRecordHash = ∅ := by
  apply Finset.eq_empty_of_forall_notMem
  intro k hk
  have hvalid := (mem_recoverySigners.mp hk).2
  rw [validatesDeclaration, hmsg] at hvalid
  cases hvalid

theorem recoverySigningMessage_eq_none_iff {pk : Bytes} {notBefore : UInt64} :
    recoverySigningMessage prevRecordHash pk notBefore = none ↔
      prevRecordHash.length ≠ 32 ∨ pk.length ≠ 32 := by
  unfold recoverySigningMessage
  by_cases hh : prevRecordHash.length = 32
  · by_cases hpk : pk.length = 32
    · simp [hh, hpk]
    · simp [hh, hpk]
  · simp [hh]

theorem verifyRecovery_iff_card :
    verifyRecovery P (some policy) ev prevRecordHash prevCreated now = true ↔
      1 ≤ policy.threshold ∧
      policy.threshold.toNat ≤ (recoverySigners P policy ev prevRecordHash).card ∧
      ev.notBefore ≤ now ∧ TimelockBound policy prevCreated ev.notBefore := by
  cases hmsg : recoverySigningMessage prevRecordHash ev.newOwnerPK ev.notBefore with
  | none =>
    -- the lengths fail, and there is no signer to reach a positive threshold
    rw [recoverySigners_eq_empty hmsg, Finset.card_empty]
    have hlen := recoverySigningMessage_eq_none_iff.mp hmsg
    have hverdict : verifyRecovery P (some policy) ev prevRecordHash prevCreated now = false := by
      unfold verifyRecovery
      rcases hlen with hh | hpk
      · simp [hh]
      · simp [hpk]
    rw [hverdict]
    refine ⟨fun h => absurd h (by simp), ?_⟩
    intro h
    obtain ⟨hone, hcount, _⟩ := h
    have hpos := UInt64.le_iff_toNat_le.mp hone
    have hunit : (1 : UInt64).toNat = 1 := rfl
    omega
  | some msg =>
    have hlen : prevRecordHash.length = 32 ∧ ev.newOwnerPK.length = 32 := by
      by_contra hnot
      have hnone := (@recoverySigningMessage_eq_none_iff prevRecordHash ev.newOwnerPK ev.notBefore).mpr
        (by rwa [not_and_or] at hnot)
      rw [hnone] at hmsg
      cases hmsg
    rw [verifyRecovery_iff hlen.1]
    have hmsg' : msg = declaration prevRecordHash ev.newOwnerPK ev.notBefore := by
      rw [recoverySigningMessage_eq_some hlen.1 hlen.2, Option.some.injEq] at hmsg
      exact hmsg.symm
    simp only [Option.some.injEq, exists_eq_left', quorum_iff, ← hmsg',
      countDistinct_eq_signers hmsg]
    constructor
    · intro h
      obtain ⟨hone, _, hbound, hcount, hstart⟩ := h
      exact ⟨hone, hcount, hstart, hbound⟩
    · intro h
      obtain ⟨hone, hcount, hstart, hbound⟩ := h
      exact ⟨hone, hlen.2, hbound, hcount, hstart⟩

theorem recoverySigners_mono {keys sigs : List Bytes} (hkeys : policy.keys ⊆ keys)
    (hsigs : ev.signatures ⊆ sigs) :
    recoverySigners P policy ev prevRecordHash ⊆
      recoverySigners P { policy with keys } { ev with signatures := sigs } prevRecordHash := by
  intro k hk
  obtain ⟨hmem, hvalid⟩ := mem_recoverySigners.mp hk
  obtain ⟨msg, hmsg, hlen, sig, hsig, hverify⟩ := validatesDeclaration_iff.mp hvalid
  exact mem_recoverySigners.mpr
    ⟨hkeys hmem, validatesDeclaration_iff.mpr ⟨msg, hmsg, hlen, sig, hsigs hsig, hverify⟩⟩

/-- **Recovery quorums are counted as sets.** `VerifyRecovery` accepts exactly when a
positive threshold of distinct 32-byte policy keys validate a signature and the start is
reached and respects the timelock; permuting or repeating changes nothing, adding signatures
loses nothing. -/
theorem recovery_quorum_counts (P : Primitives) (policy : RecoveryPolicyWire)
    (ev : RecoveryEvidence) (prevRecordHash : Bytes) (prevCreated now : UInt64) :
    (verifyRecovery P (some policy) ev prevRecordHash prevCreated now = true ↔
      1 ≤ policy.threshold ∧
      policy.threshold.toNat ≤ (policy.keys.toFinset.filter (fun k => k.length = 32 ∧
        ∃ msg, recoverySigningMessage prevRecordHash ev.newOwnerPK ev.notBefore = some msg ∧
          ∃ sig ∈ ev.signatures, Crypto.verify P k sig msg = true)).card ∧
      ev.notBefore ≤ now ∧
      (prevCreated ≠ 0 →
        min (prevCreated.toNat + policy.timelock.toNat) (2 ^ 64 - 1) ≤ ev.notBefore.toNat)) ∧
    (∀ keys sigs : List Bytes, (∀ k, k ∈ keys ↔ k ∈ policy.keys) →
      (∀ s, s ∈ sigs ↔ s ∈ ev.signatures) →
      verifyRecovery P (some { policy with keys }) { ev with signatures := sigs } prevRecordHash
        prevCreated now = verifyRecovery P (some policy) ev prevRecordHash prevCreated now) ∧
    (∀ sigs : List Bytes, ev.signatures ⊆ sigs →
      verifyRecovery P (some policy) ev prevRecordHash prevCreated now = true →
      verifyRecovery P (some policy) { ev with signatures := sigs } prevRecordHash prevCreated now
        = true) ∧
    verifyRecovery P none ev prevRecordHash prevCreated now = false := by
  classical
  refine ⟨?_, ?_, ?_, rfl⟩
  · rw [verifyRecovery_iff_card]
    have hset : recoverySigners P policy ev prevRecordHash =
        policy.keys.toFinset.filter (fun k => k.length = 32 ∧
          ∃ msg, recoverySigningMessage prevRecordHash ev.newOwnerPK ev.notBefore = some msg ∧
            ∃ sig ∈ ev.signatures, Crypto.verify P k sig msg = true) := by
      ext k
      rw [mem_recoverySigners, Finset.mem_filter, List.mem_toFinset, validatesDeclaration_iff]
      constructor
      · rintro ⟨hk, msg, hmsg, hlen, hsig⟩
        exact ⟨hk, hlen, msg, hmsg, hsig⟩
      · rintro ⟨hk, hlen, msg, hmsg, hsig⟩
        exact ⟨hk, msg, hmsg, hlen, hsig⟩
    rw [hset]
    rfl
  · intro keys sigs hkeys hsigs
    -- each side has the signers of the other
    have hset : recoverySigners P { policy with keys } { ev with signatures := sigs } prevRecordHash =
        recoverySigners P policy ev prevRecordHash := by
      apply Finset.Subset.antisymm
      · exact @recoverySigners_mono P { policy with keys } { ev with signatures := sigs }
          prevRecordHash policy.keys ev.signatures (fun k hk => (hkeys k).mp hk)
          (fun s hs => (hsigs s).mp hs)
      · exact recoverySigners_mono (fun k hk => (hkeys k).mpr hk) (fun s hs => (hsigs s).mpr hs)
    rw [Bool.eq_iff_iff, verifyRecovery_iff_card, verifyRecovery_iff_card, hset]
    rfl
  · intro sigs hsigs haccepted
    rw [verifyRecovery_iff_card] at haccepted ⊢
    obtain ⟨hone, hcount, hstart, hbound⟩ := haccepted
    have hmore := Finset.card_le_card
      (@recoverySigners_mono P policy ev prevRecordHash policy.keys sigs (List.Subset.refl _) hsigs)
    exact ⟨hone, hcount.trans hmore, hstart, hbound⟩

end Freens.Wire
