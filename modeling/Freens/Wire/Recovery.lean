/-
**RECOVERY DECLARATIONS** (`wire/recovery.go`, §8.4): the evidence
that a quorum of a record's recovery keys signed its hand-off to a new
owner key, and the check of it.

`verifyRecovery_iff` says what the check decides: a quorum, the timelock
bound and the timelock itself.
-/
import Freens.Library.Quorum
import Freens.Wire.Record

namespace Freens.Wire

open Library

/-! ## Evidence and the signed message -/

/-- The canonical encoding of the evidence. -/
def RecoveryEvidence.bytes (ev : RecoveryEvidence) : Bytes :=
  Cbor.map [(1, Cbor.bstr ev.newOwnerPK), (2, Cbor.array (ev.signatures.map Cbor.bstr)),
    (3, Cbor.uint ev.notBefore)]

/-- `none` stands for its errors, which no caller tells apart. -/
def decodeRecoveryEvidence (P : Primitives) (data : Bytes) : Option RecoveryEvidence :=
  match P.unmarshalEvidence data with
  | none => none
  | some ev =>
    if ev.newOwnerPK.length ≠ Constants.ed25519PublicKeyLen then none
    -- one malformed signature spoils the whole blob
    else if ev.signatures.any (·.length ≠ Constants.ed25519SignatureLen) then none
    else some ev

/-- The bytes of `"freens-recovery-v1"`. -/
def recoverySigningTag : Bytes :=
  [0x66, 0x72, 0x65, 0x65, 0x6e, 0x73, 0x2d, 0x72, 0x65, 0x63, 0x6f, 0x76, 0x65, 0x72, 0x79,
   0x2d, 0x76, 0x31]

/-- Tag, record hash, new owner, start time; `none` when a length is wrong. -/
def recoverySigningMessage (prevRecordHash newOwnerPK : Bytes) (executeNotBefore : UInt64) :
    Option Bytes :=
  if prevRecordHash.length ≠ Constants.sha256Len then none
  else if newOwnerPK.length ≠ Constants.ed25519PublicKeyLen then none
  else some (recoverySigningTag ++ prevRecordHash ++ newOwnerPK
    ++ bigEndian 8 executeNotBefore.toNat)

section
variable (P : Primitives)

/-- A 32-byte policy key of which some listed signature verifies. -/
def signedBy (signatures : List Bytes) (msg k : Bytes) : Bool :=
  k.length = Constants.ed25519PublicKeyLen && signatures.any (fun sig => Crypto.verify P k sig msg)

/-- `VerifyRecovery`. `policy` is nil when the record has no field 10. -/
def verifyRecovery (policy : Option RecoveryPolicyWire) (evidence : RecoveryEvidence)
    (prevRecordHash : Bytes) (prevCreated now : UInt64) : Bool :=
  match policy with
  | none => false
  | some policy =>
    if policy.threshold < 1 then false
    else if prevRecordHash.length ≠ Constants.sha256Len then false
    else if evidence.newOwnerPK.length ≠ Constants.ed25519PublicKeyLen then false
    -- the bound is waived when the creation time is unknown
    else if prevCreated ≠ 0 ∧ evidence.notBefore < satAdd prevCreated policy.timelock then false
    else
      match recoverySigningMessage prevRecordHash evidence.newOwnerPK evidence.notBefore with
      | none => false
      | some msg =>
        if countDistinct (signedBy P evidence.signatures msg) policy.keys []
            < policy.threshold.toNat then false
        else now ≥ evidence.notBefore

end

/-! ## What the check decides -/

/-- The bytes a recovery key signs, for fields of the right lengths. -/
def declaration (prevRecordHash newOwnerPK : Bytes) (notBefore : UInt64) : Bytes :=
  recoverySigningTag ++ prevRecordHash ++ newOwnerPK ++ bigEndian 8 notBefore.toNat

theorem recoverySigningMessage_eq_some {h pk : Bytes} {notBefore : UInt64} (hh : h.length = 32)
    (hpk : pk.length = 32) :
    recoverySigningMessage h pk notBefore = some (declaration h pk notBefore) := by
  unfold recoverySigningMessage declaration
  rw [if_neg (by simp [hh]), if_neg (by simp [hpk])]

/-- **A quorum**: at least `threshold` distinct policy keys signed the hand-off of
`prevRecordHash`. -/
def Quorum (P : Primitives) (policy : RecoveryPolicyWire) (ev : RecoveryEvidence)
    (prevRecordHash : Bytes) : Prop :=
  ∃ signers : Finset Bytes,
    (∀ k ∈ signers, k ∈ policy.keys ∧ ∃ sig ∈ ev.signatures,
      Crypto.verify P k sig (declaration prevRecordHash ev.newOwnerPK ev.notBefore) = true) ∧
    policy.threshold.toNat ≤ signers.card

/-- The start respects the timelock from the creation on, without wrap-around; 0 is none. -/
def TimelockBound (policy : RecoveryPolicyWire) (prevCreated notBefore : UInt64) : Prop :=
  prevCreated ≠ 0 → min (prevCreated.toNat + policy.timelock.toNat) (2 ^ 64 - 1) ≤ notBefore.toNat

variable {P : Primitives}

theorem signedBy_iff {signatures : List Bytes} {msg k : Bytes} :
    signedBy P signatures msg k = true ↔
      ∃ sig ∈ signatures, Crypto.verify P k sig msg = true := by
  unfold signedBy
  rw [Bool.and_eq_true, decide_eq_true_eq, List.any_eq_true]
  constructor
  · intro h
    exact h.2
  · intro h
    obtain ⟨sig, hsig, hverify⟩ := h
    exact ⟨Crypto.length_of_verify P hverify, sig, hsig, hverify⟩

variable {ev : RecoveryEvidence} {policy : RecoveryPolicyWire}

theorem quorum_iff {h : Bytes} :
    Quorum P policy ev h ↔ policy.threshold.toNat ≤
      countDistinct (signedBy P ev.signatures (declaration h ev.newOwnerPK ev.notBefore))
        policy.keys [] := by
  rw [le_countDistinct_iff]
  simp only [signedBy_iff]
  rfl

theorem timelockBound_iff {prevCreated notBefore : UInt64} :
    TimelockBound policy prevCreated notBefore ↔
      ¬ (prevCreated ≠ 0 ∧ notBefore < satAdd prevCreated policy.timelock) := by
  rw [TimelockBound, UInt64.lt_iff_toNat_lt, satAdd_toNat, not_and, Nat.not_lt]

/-- **`VerifyRecovery` is exact**: a positive threshold, a quorum, the timelock bound, the
start reached. -/
theorem verifyRecovery_iff {policy : Option RecoveryPolicyWire} {ev : RecoveryEvidence}
    {h : Bytes} {prevCreated now : UInt64} (hh : h.length = 32) :
    verifyRecovery P policy ev h prevCreated now = true ↔
      ∃ pol, policy = some pol ∧ 1 ≤ pol.threshold ∧ ev.newOwnerPK.length = 32 ∧
        TimelockBound pol prevCreated ev.notBefore ∧ Quorum P pol ev h ∧ ev.notBefore ≤ now := by
  cases policy with
  | none => simp [verifyRecovery]
  | some pol =>
    simp only [Option.some.injEq, exists_eq_left', quorum_iff, timelockBound_iff, verifyRecovery]
    by_cases hpk : ev.newOwnerPK.length = 32
    · rw [recoverySigningMessage_eq_some hh hpk]
      grind
    · grind

theorem length_of_decodeRecoveryEvidence {data : Bytes}
    (h : decodeRecoveryEvidence P data = some ev) : ev.newOwnerPK.length = 32 := by
  unfold decodeRecoveryEvidence at h
  split at h
  next => cases h
  next ev' _ =>
    split at h
    next => cases h
    next hlen =>
      split at h
      next => cases h
      injection h with h
      exact h ▸ not_not.mp hlen

theorem decodeRecoveryEvidence_bytes (hpk : ev.newOwnerPK.length = 32)
    (hsigs : ∀ s ∈ ev.signatures, s.length = 64) : decodeRecoveryEvidence P ev.bytes = some ev := by
  unfold decodeRecoveryEvidence RecoveryEvidence.bytes
  rw [P.unmarshalEvidence_marshal ev hpk hsigs]
  simp only [hpk, ne_eq, not_true_eq_false, if_false, ite_eq_right_iff, List.any_eq_true,
    decide_eq_true_eq, forall_exists_index, and_imp]
  intro s hs hne
  exact absurd (hsigs s hs) hne

end Freens.Wire
