/-
**WHAT THE DECODER OF CLAIMS REFUSES, ACCEPTS AND CRASHES ON**
(`claims/claims.go`: `DecodeAliasClaim`, `AliasClaim.validate`).

A CBOR `null` in the witness array decodes into a nil pointer that `validate`
reads. The crash is `ClaimError.nilWitness`.
-/
import Freens.Toy

namespace Freens.Claims

open Library Naming

variable {P : Primitives}

/-! ## One witness -/

/-- The lengths `validate` asks for. -/
def WitnessAttestation.WellFormed (w : WitnessAttestation) : Prop :=
  w.nodeID.length = 32 ∧ w.nodePK.length = 32 ∧ w.sig.length = 64

theorem WitnessAttestation.validate_eq_ok_iff {w : WitnessAttestation} :
    w.validate = .ok () ↔ w.WellFormed := by
  simp only [WitnessAttestation.validate, guard_eq_ok, not_not, and_true]
  exact Iff.rfl

theorem WitnessAttestation.validate_ne_nilWitness (w : WitnessAttestation) :
    w.validate ≠ .error .nilWitness := by
  simp only [WitnessAttestation.validate, ne_eq, guard_eq_error]
  simp

/-- A nil witness is refused, another validated. -/
def validateWitness (w : Option WitnessAttestation) : Except ClaimError Unit :=
  match w with
  | none => .error .nilWitness
  | some w => w.validate

variable {w : Option WitnessAttestation} {a : Bytes}

theorem validateWitness_eq_ok_iff :
    validateWitness w = .ok () ↔ ∃ a, w = some a ∧ a.WellFormed := by
  cases w with
  | none => simp [validateWitness]
  | some a =>
    show a.validate = .ok () ↔ _
    simp [WitnessAttestation.validate_eq_ok_iff]

theorem validateWitness_crash_iff : validateWitness w = .error .nilWitness ↔ w = none := by
  cases w with
  | none => simp [validateWitness]
  | some a =>
    show a.validate = .error .nilWitness ↔ _
    simp [WitnessAttestation.validate_ne_nilWitness]

variable {c : AliasClaim} {data : Bytes}

theorem witnesses_eq_attestations (h : ∀ w ∈ c.witnesses, ∃ a, w = some a ∧ a.WellFormed) :
    c.witnesses = c.attestations.map some ∧ ∀ a ∈ c.attestations, a.WellFormed := by
  obtain ⟨name, tldID, ts, nonce, pk, pow, ws⟩ := c
  replace h : ∀ w ∈ ws, ∃ a, w = some a ∧ a.WellFormed := h
  show ws = (ws.filterMap id).map some ∧ ∀ a ∈ ws.filterMap id, a.WellFormed
  induction ws with
  | nil => simp
  | cons w ws ih =>
    obtain ⟨⟨a, rfl, ha⟩, hrest⟩ := List.forall_mem_cons.mp h
    obtain ⟨heq, hwell⟩ := ih hrest
    rw [List.filterMap_cons_some (show id (some a) = some a from rfl)]
    refine ⟨?_, List.forall_mem_cons.mpr ⟨ha, hwell⟩⟩
    rw [List.map_cons, ← heq]

/-! ## The claim -/

/-- What `Validate` checks before the witnesses. -/
structure AliasClaim.FieldsValid (P : Primitives) (c : AliasClaim) : Prop where
  aliasName : ∃ a, validateAlias P c.aliasName = .ok a
  tldID : c.tldID.length = 32
  claimantPK : c.claimantPK.length = 32
  powHash : c.powHash.length = 32
  nonce : c.nonce.length ≤ 128

theorem normalizedAlias_eq_ok_iff {s : Bytes} :
    normalizedAlias P s = .ok a ↔ validateAlias P s = .ok a := by
  unfold normalizedAlias
  cases validateAlias P s <;> simp

theorem normalizedAlias_ne_nilWitness (s : Bytes) : normalizedAlias P s ≠ .error .nilWitness := by
  unfold normalizedAlias
  cases validateAlias P s <;> simp

theorem AliasClaim.validate_eq_forM (h : c.FieldsValid P) :
    c.validate P = c.witnesses.forM validateWitness := by
  obtain ⟨a, ha⟩ := h.aliasName
  have halias := normalizedAlias_eq_ok_iff.mpr ha
  have hnonce : ¬ c.nonce.length > maxNonceLen := not_lt.mpr h.nonce
  unfold AliasClaim.validate
  rw [halias]
  show (if _ then _ else _) = _
  rw [if_neg (not_not.mpr h.tldID), if_neg (not_not.mpr h.claimantPK),
    if_neg (not_not.mpr h.powHash), if_neg hnonce]
  rfl

theorem AliasClaim.validate_eq_ok_iff :
    c.validate P = .ok () ↔
      c.FieldsValid P ∧ ∀ w ∈ c.witnesses, ∃ a, w = some a ∧ a.WellFormed := by
  constructor
  · intro h
    have hfields : c.FieldsValid P := by
      simp only [AliasClaim.validate, bind_eq_ok, guard_eq_ok, not_not, not_lt] at h
      obtain ⟨a, ha, htld, hpk, hpow, hnonce, _⟩ := h
      exact ⟨⟨a, normalizedAlias_eq_ok_iff.mp ha⟩, htld, hpk, hpow, hnonce⟩
    rw [AliasClaim.validate_eq_forM hfields, forM_eq_ok] at h
    exact ⟨hfields, fun w hw => validateWitness_eq_ok_iff.mp (h w hw)⟩
  · rintro ⟨hfields, hws⟩
    rw [AliasClaim.validate_eq_forM hfields, forM_eq_ok]
    exact fun w hw => validateWitness_eq_ok_iff.mpr (hws w hw)

/-- **The nil dereference is reached**: fields and all witnesses before the first nil one
are valid. -/
structure AliasClaim.NilReached (P : Primitives) (c : AliasClaim) : Prop where
  fields : c.FieldsValid P
  witnesses : ∃ sound rest, c.witnesses = sound ++ none :: rest ∧
    ∀ w ∈ sound, ∃ a, w = some a ∧ a.WellFormed

theorem AliasClaim.validate_crash_iff : c.validate P = .error .nilWitness ↔ c.NilReached P := by
  constructor
  · intro h
    have hfields : c.FieldsValid P := by
      -- each refused field has an error of its own
      simp only [AliasClaim.validate, bind_eq_error, guard_eq_error, not_not, not_lt,
        normalizedAlias_ne_nilWitness, reduceCtorEq, and_false, false_or] at h
      obtain ⟨a, ha, htld, hpk, hpow, hnonce, _⟩ := h
      exact ⟨⟨a, normalizedAlias_eq_ok_iff.mp ha⟩, htld, hpk, hpow, hnonce⟩
    rw [AliasClaim.validate_eq_forM hfields, forM_eq_error] at h
    obtain ⟨sound, w, rest, hsplit, hsound, hw⟩ := h
    rw [validateWitness_crash_iff.mp hw] at hsplit
    exact ⟨hfields, sound, rest, hsplit, fun w hw => validateWitness_eq_ok_iff.mp (hsound w hw)⟩
  · rintro ⟨hfields, sound, rest, hsplit, hsound⟩
    rw [AliasClaim.validate_eq_forM hfields, forM_eq_error]
    exact ⟨sound, none, rest, hsplit, fun w hw => validateWitness_eq_ok_iff.mpr (hsound w hw), rfl⟩

/-! ## The decoder -/

theorem fieldsValid_normalized (ha : validateAlias P c.aliasName = .ok a) :
    ({ c with aliasName := a } : AliasClaim).FieldsValid P ↔ c.FieldsValid P := by
  constructor
  · rintro ⟨_, htld, hpk, hpow, hnonce⟩
    exact ⟨⟨a, ha⟩, htld, hpk, hpow, hnonce⟩
  · rintro ⟨_, htld, hpk, hpow, hnonce⟩
    exact ⟨⟨a, validateAlias_idem ha⟩, htld, hpk, hpow, hnonce⟩

theorem decodeAliasClaim_of_unmarshal (hraw : P.unmarshalClaim data = some c) :
    decodeAliasClaim P data = (do
      let a ← normalizedAlias P c.aliasName
      ({ c with aliasName := a } : AliasClaim).validate P
      return { c with aliasName := a }) := by
  unfold decodeAliasClaim
  rw [hraw]
  rfl

theorem decodeAliasClaim_of_not_unmarshal (hraw : P.unmarshalClaim data = none) :
    decodeAliasClaim P data = .error .cbor := by
  unfold decodeAliasClaim
  rw [hraw]
  rfl

theorem validate_of_decodeAliasClaim
    (h : decodeAliasClaim P data = .ok c) : c.validate P = .ok () := by
  cases hraw : P.unmarshalClaim data with
  | none =>
    rw [decodeAliasClaim_of_not_unmarshal hraw] at h
    cases h
  | some raw =>
    rw [decodeAliasClaim_of_unmarshal hraw, bind_eq_ok] at h
    obtain ⟨a, _, h⟩ := h
    rw [bind_eq_ok] at h
    obtain ⟨_, hvalid, heq⟩ := h
    rw [pure_eq_ok] at heq
    exact heq ▸ hvalid

theorem decodeAliasClaim_eq_crash_iff :
    decodeAliasClaim P data = .error .nilWitness ↔
      ∃ c, P.unmarshalClaim data = some c ∧ c.NilReached P := by
  cases hraw : P.unmarshalClaim data with
  | none => simp [decodeAliasClaim_of_not_unmarshal hraw]
  | some c =>
    rw [decodeAliasClaim_of_unmarshal hraw, bind_eq_error]
    constructor
    · rintro (halias | ⟨a, ha, h⟩)
      · exact absurd halias (normalizedAlias_ne_nilWitness _)
      · rw [bind_eq_error] at h
        rcases h with hcrash | ⟨_, _, hok⟩
        · obtain ⟨hfields, hws⟩ := AliasClaim.validate_crash_iff.mp hcrash
          have hvalid := (fieldsValid_normalized (normalizedAlias_eq_ok_iff.mp ha)).mp hfields
          exact ⟨c, rfl, hvalid, hws⟩
        · exact absurd hok (by simp [pure, Except.pure])
    · rintro ⟨c', hc', hfields, hws⟩
      obtain rfl := Option.some.inj hc'
      obtain ⟨a, ha⟩ := hfields.aliasName
      refine .inr ⟨a, normalizedAlias_eq_ok_iff.mpr ha, ?_⟩
      rw [bind_eq_error]
      exact .inl (AliasClaim.validate_crash_iff.mpr ⟨(fieldsValid_normalized ha).mpr hfields, hws⟩)

/-- **Decoding is safe except on a nil witness**: nil is dereferenced exactly when the first
ill-formed witness of a claim with valid fields is nil. -/
theorem decodeAliasClaim_crash_iff (P : Primitives) (data : Bytes) :
    (decodeAliasClaim P data ≠ .error .nilWitness ↔
      ∀ c, P.unmarshalClaim data = some c → ¬ c.NilReached P) ∧
    ∀ c, decodeAliasClaim P data = .ok c →
      c.witnesses = c.attestations.map some ∧ ∀ w ∈ c.attestations, w.WellFormed := by
  constructor
  · rw [ne_eq, decodeAliasClaim_eq_crash_iff, not_exists]
    exact forall_congr' fun c => not_and
  · intro c hc
    exact witnesses_eq_attestations
      (AliasClaim.validate_eq_ok_iff.mp (validate_of_decodeAliasClaim hc)).2

theorem witnessed_claim_decodes :
    (Toy.minedClaim 1 Toy.aliasA 200 Toy.quorum).witnesses =
        (Toy.minedClaim 1 Toy.aliasA 200 Toy.quorum).attestations.map some ∧
      ∀ w ∈ (Toy.minedClaim 1 Toy.aliasA 200 Toy.quorum).attestations, w.WellFormed :=
  (decodeAliasClaim_crash_iff Toy.mined
    (Toy.minedClaim 1 Toy.aliasA 200 Toy.quorum).canonicalBytes).2 _ (by decide +kernel)

/-! A claim of `a` whose witness array is `[null]`. -/

section NullWitness
open Toy Cbor

/-- A claim whose witness list holds a null. -/
def nullClaimBytes : Bytes :=
  Cbor.map [(1, tstr aliasA), (2, bstr (minedChecksum (publicKey 1))), (3, uint 200),
    (4, bstr [24]), (5, bstr (publicKey 1)), (6, bstr (minedChecksum [])), (7, array [[0xf6]])]

/-- What it decodes to. -/
def nullClaim : AliasClaim :=
  { aliasName := aliasA, tldID := minedChecksum (publicKey 1), timestamp := 200, nonce := [24],
    claimantPK := publicKey 1, powHash := minedChecksum [], witnesses := [none] }

/-- Primitives that decode it. -/
def nullReader : Primitives :=
  { mined with
    unmarshalClaim := fun data =>
      if data = nullClaimBytes then some nullClaim else unmarshalClaim data
    unmarshalClaim_nil := by decide +kernel }

/-- **One null crashes the decoder.** -/
theorem null_witness_crashes :
    decodeAliasClaim nullReader nullClaimBytes = .error .nilWitness := by decide +kernel

end NullWitness

end Freens.Claims
