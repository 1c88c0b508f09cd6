/-
**CONSTRUCTED AND DECODED** (`wire/wire.go`, §4.3, §5.4): the
constructors of resource records and recovery policies check bounds that the
decoders of the same structures and `Record.Validate` do not.
-/
import Freens.Wire.EnvelopeCodec

namespace Freens.Wire

open Library

/-! ## The constructors -/

/-- The error of `NewRR`: "ttl must be in 1..2592000, got %d". -/
inductive NewRRError where
  | ttl (got : UInt64)
  deriving DecidableEq, Repr

/-- `NewRR`: a TTL of 1 to 2592000. -/
def newRR (typ ttl : UInt64) (rdata : Bytes) : Except NewRRError RR :=
  if ttl = 0 ∨ ttl > Constants.recordMaxTTL then .error (.ttl ttl)
  else .ok { type := typ, ttl, rdata }

/-- The errors of `NewRecoveryPolicyWire`. -/
inductive NewPolicyError where
  /-- "threshold must be >= 1" -/
  | threshold
  /-- "recovery key %d must be 32 bytes, got %d" -/
  | key (index got : Nat)
  /-- "threshold must be <= len(keys)" -/
  | thresholdCount
  deriving DecidableEq, Repr

/-- Every key has 32 bytes; the error names the first that has not. -/
def checkKeys (keys : List Bytes) : Except NewPolicyError Unit :=
  keys.zipIdx.forM (fun k =>
    if k.1.length ≠ Constants.ed25519PublicKeyLen then .error (.key k.2 k.1.length) else .ok ())

/-- `NewRecoveryPolicyWire` with its checks in order. -/
def newRecoveryPolicyWire (threshold : UInt64) (keys : List Bytes) (timelock : UInt64) :
    Except NewPolicyError RecoveryPolicyWire :=
  if threshold < 1 then .error .threshold
  else do
    checkKeys keys
    if threshold > UInt64.ofNat keys.length then .error .thresholdCount
    else .ok { threshold, keys, timelock }

/-! ## The bounds -/

/-- §4.3: a time to live of one second to thirty days. -/
def RR.InBounds (rr : RR) : Prop := 1 ≤ rr.ttl.toNat ∧ rr.ttl.toNat ≤ 2592000

/-- §5.4: keys of 32 bytes, and a threshold they can reach. -/
structure RecoveryPolicyWire.InBounds (p : RecoveryPolicyWire) : Prop where
  nonempty : p.keys ≠ []
  keys : ∀ k ∈ p.keys, k.length = 32
  positive : 1 ≤ p.threshold.toNat
  reachable : p.threshold.toNat ≤ p.keys.length

/-- **The bounds of the specification** on a record. -/
structure Record.InBounds (r : Record) : Prop where
  rrs : ∀ rr ∈ r.rrset, rr.InBounds
  count : r.rrset.length ≤ 64
  times : r.created ≤ r.expires
  policy : ∀ p ∈ r.recovery, p.InBounds

/-! ## The same bounds on the input

The items of the input that the decoder reads these fields from; an absent one counts as
zero, or as none. -/

section
variable (L : CborReader)

/-- The unsigned number an item stands for. -/
def number (v : Option Bytes) : Nat := ((v.bind L.uint).map UInt64.toNat).getD 0

/-- The elements of an array item. -/
def elements (v : Option Bytes) : List Bytes := (v.bind L.array).getD []

/-- The length of a byte-string item; a null has none. -/
def stringLength (v : Bytes) : Nat := (((L.bytes v).getD none).getD []).length

/-- The time to live in the item of a resource record, its second element. -/
def ttlItem (v : Bytes) : Nat := number L (elements L (some v))[1]?

/-- The item under a key of a map item. -/
def mapField (v : Bytes) (k : UInt64) : Option Bytes := (L.structFields v).bind (· k)

/-- §5.4 on the item of a policy: the keys are under 2, the threshold under 1. -/
structure PolicyItemInBounds (v : Bytes) : Prop where
  nonempty : elements L (mapField L v 2) ≠ []
  keys : ∀ k ∈ elements L (mapField L v 2), stringLength L k = 32
  positive : 1 ≤ number L (mapField L v 1)
  reachable : number L (mapField L v 1) ≤ (elements L (mapField L v 2)).length

/-- **The bounds on the bytes**: on the elements under key 7, and on the policy under key 10. -/
structure ItemsInBounds (b : Bytes) : Prop where
  rrs : ∀ v ∈ elements L (rawField L b 7), 1 ≤ ttlItem L v ∧ ttlItem L v ≤ 2592000
  policy : ∀ v ∈ rawField L b 10, PolicyItemInBounds L v

end

/-- Every structure in the record is one its constructor builds. -/
structure Record.Constructible (r : Record) : Prop where
  rrs : ∀ rr ∈ r.rrset, newRR rr.type rr.ttl rr.rdata = .ok rr
  policy : ∀ p ∈ r.recovery, newRecoveryPolicyWire p.threshold p.keys p.timelock = .ok p

/-! ## What the constructors build -/

theorem newRR_eq_ok_iff {rr : RR} : newRR rr.type rr.ttl rr.rdata = .ok rr ↔ rr.InBounds := by
  have hmax : Constants.recordMaxTTL.toNat = 2592000 := rfl
  have hzero : rr.ttl = 0 ↔ rr.ttl.toNat = 0 := UInt64.toNat_inj.symm
  rw [newRR, guard_eq_ok, RR.InBounds, hzero, gt_iff_lt, UInt64.lt_iff_toNat_lt, hmax]
  constructor
  · intro h
    omega
  · intro h
    refine ⟨?_, rfl⟩
    omega

theorem checkKeys_eq_ok_iff {keys : List Bytes} {u : Unit} :
    checkKeys keys = .ok u ↔ ∀ k ∈ keys, k.length = 32 := by
  cases u
  rw [checkKeys, forM_eq_ok]
  simp only [guard_eq_ok, and_true, ne_eq, not_not]
  constructor
  · intro h k hk
    obtain ⟨i, hi⟩ := List.mem_iff_getElem?.mp hk
    exact h (k, i) (List.mem_zipIdx_iff_getElem?.mpr hi)
  · intro h k hk
    exact h k.1 (List.fst_mem_of_mem_zipIdx hk)

theorem newRecoveryPolicyWire_eq_ok_iff {p : RecoveryPolicyWire} (hcount : p.keys.length < 2 ^ 64) :
    newRecoveryPolicyWire p.threshold p.keys p.timelock = .ok p ↔ p.InBounds := by
  have hlength : (UInt64.ofNat p.keys.length).toNat = p.keys.length := by
    rw [UInt64.toNat_ofNat']
    exact Nat.mod_eq_of_lt hcount
  have hone : (1 : UInt64).toNat = 1 := rfl
  rw [newRecoveryPolicyWire, guard_eq_ok, bind_eq_ok, UInt64.lt_iff_toNat_lt, hone]
  simp only [checkKeys_eq_ok_iff, guard_eq_ok, gt_iff_lt, UInt64.lt_iff_toNat_lt, hlength]
  constructor
  · intro h
    obtain ⟨hpos, _, hkeys, hle, _⟩ := h
    refine ⟨?_, hkeys, by omega, by omega⟩
    -- a positive threshold is reached by at least one key
    intro hnil
    rw [hnil, List.length_nil] at hle
    omega
  · intro h
    have hpos := h.positive
    have hle := h.reachable
    exact ⟨by omega, (), h.keys, by omega, trivial⟩

/-! ## What the decoder lets through -/

variable {L : CborReader} {b data : Bytes} {env : SignedEnvelope}

theorem ttlItem_of_unmarshalRR {rr : RR} (h : unmarshalRR L data = .ok rr) :
    ttlItem L data = rr.ttl.toNat := by
  obtain ⟨_, type, ttl, rdata, content, harray, _, httl, _⟩ := unmarshalRR_eq_ok_iff.mp h
  simp [ttlItem, elements, number, harray, httl]

theorem inBounds_rrset_iff {rrset : List RR} (h : unmarshalRRset L data = .ok rrset) :
    (∀ rr ∈ rrset, rr.InBounds) ↔
      ∀ v ∈ elements L (some data), 1 ≤ ttlItem L v ∧ ttlItem L v ≤ 2592000 := by
  rw [unmarshalRRset, bind_eq_ok] at h
  obtain ⟨elems, harray, hloop⟩ := h
  have helems : elements L (some data) = elems := by
    simp [elements, expect_eq_ok.mp harray]
  rw [helems]
  refine (forall_mem_iff_of_forall₂ (mapM_eq_ok.mp (mapError_eq_ok.mp hloop)) ?_).symm
  intro v rr hread
  rw [ttlItem_of_unmarshalRR hread]
  exact Iff.rfl

theorem keys_of_unmarshalKeys {keys : List Bytes} (h : unmarshalKeys L data = .ok keys) :
    (elements L (some data)).length = keys.length ∧
      ((∀ v ∈ elements L (some data), stringLength L v = 32) ↔ ∀ k ∈ keys, k.length = 32) := by
  rw [unmarshalKeys, bind_eq_ok] at h
  obtain ⟨elems, harray, hloop⟩ := h
  have helems : elements L (some data) = elems := by
    simp [elements, expect_eq_ok.mp harray]
  rw [helems]
  refine ⟨mapM_length hloop, forall_mem_iff_of_forall₂ (mapM_eq_ok.mp hloop) ?_⟩
  intro v k hread
  obtain ⟨x, hx, rfl⟩ := map_eq_ok.mp hread
  rw [stringLength, expect_eq_ok.mp hx, Option.getD_some]

theorem inBounds_policy_iff {p : RecoveryPolicyWire} (h : unmarshalPolicy L data = .ok p) :
    p.InBounds ↔ PolicyItemInBounds L data := by
  simp only [unmarshalPolicy, bind_eq_ok, expect_eq_ok, ifPresent_eq_ok, pure_eq_ok] at h
  obtain ⟨m, hm, threshold, hthreshold, keys, hkeys, timelock, _, rfl⟩ := h
  -- the two items that are read, absent or present
  have hnumber : number L (m 1) = threshold.toNat := by
    rcases hthreshold with ⟨hnone, rfl⟩ | ⟨v, hv, hread⟩
    · simp [number, hnone]
    · simp [number, hv, hread]
  have hitems : (elements L (m 2)).length = keys.length ∧
      ((∀ v ∈ elements L (m 2), stringLength L v = 32) ↔ ∀ k ∈ keys, k.length = 32) := by
    rcases hkeys with ⟨hnone, rfl⟩ | ⟨v, hv, hread⟩
    · simp [elements, hnone]
    · rw [hv]
      exact keys_of_unmarshalKeys hread
  have hnonempty : elements L (m 2) ≠ [] ↔ keys ≠ [] := by
    rw [ne_eq, ne_eq, ← List.length_eq_zero_iff, hitems.1, List.length_eq_zero_iff]
  have hfield : ∀ k, mapField L data k = m k := fun k => by simp [mapField, hm]
  rw [← hfield 1] at hnumber
  rw [← hfield 2] at hitems hnonempty
  constructor
  · intro hb
    refine ⟨hnonempty.mpr hb.nonempty, hitems.2.mpr hb.keys, ?_, ?_⟩
    · rw [hnumber]
      exact hb.positive
    · rw [hnumber, hitems.1]
      exact hb.reachable
  · intro hb
    have hpositive := hb.positive
    have hreachable := hb.reachable
    rw [hnumber] at hpositive hreachable
    rw [hitems.1] at hreachable
    exact ⟨hnonempty.mp hb.nonempty, hitems.2.mp hb.keys, hpositive, hreachable⟩

/-- **Decoded records and the bounds.** An accepted record keeps those on count and times,
and the others exactly when the items under keys 7 and 10 do. Together they are the
constructors' bounds. -/
theorem decoded_bounds_iff (haccepted : decodeEnvelope (unmarshalEnvelope L) b = .ok env)
    (hvalid : env.record.validate = .ok ()) :
    env.record.rrset.length ≤ 64 ∧ env.record.created ≤ env.record.expires ∧
      (env.record.InBounds ↔ ItemsInBounds L b) ∧
      (env.record.InBounds ↔ env.record.Constructible) := by
  have hv := validate_eq_ok_iff.mp hvalid
  have hreads := readsRecord_of_decodeEnvelope haccepted
  have hshort := (wellFormed_of_decodeEnvelope haccepted).encodable.keys
  have hpresent : rawField L b 7 = some ((rawField L b 7).getD []) := by
    cases h : rawField L b 7 with
    | none => exact absurd h (hreads.required 7 (by decide))
    | some v => rfl
  have hrrs := inBounds_rrset_iff hreads.rrset
  rw [← hpresent] at hrrs
  have hpolicy : (∀ p ∈ env.record.recovery, p.InBounds) ↔
      ∀ v ∈ rawField L b 10, PolicyItemInBounds L v := by
    rcases hreads.recovery with ⟨hnone, hrec⟩ | ⟨v, hv, p, hp, hrec⟩
    · simp [hnone, ← hrec]
    · simpa [hv, ← hrec] using inBounds_policy_iff hp
  refine ⟨hv.rrset, hv.created, ?_, ?_⟩
  · constructor
    · intro h
      exact ⟨hrrs.mp h.rrs, hpolicy.mp h.policy⟩
    · intro h
      exact ⟨hrrs.mpr h.rrs, hv.rrset, hv.created, hpolicy.mpr h.policy⟩
  · constructor
    · intro h
      exact ⟨fun rr hrr => newRR_eq_ok_iff.mpr (h.rrs rr hrr), fun p hp =>
        (newRecoveryPolicyWire_eq_ok_iff (hshort p hp).1).mpr (h.policy p hp)⟩
    · intro h
      exact ⟨fun rr hrr => newRR_eq_ok_iff.mp (h.rrs rr hrr), hv.rrset, hv.created, fun p hp =>
        (newRecoveryPolicyWire_eq_ok_iff (hshort p hp).1).mp (h.policy p hp)⟩

/-- A signed record with one RR and a policy. -/
def envelopeWith (rr : RR) (p : RecoveryPolicyWire) : SignedEnvelope :=
  { envelopeClaiming [] with
    record := { (envelopeClaiming []).record with rrset := [rr], recovery := some p } }

/-- One within every bound. -/
def boundedEnvelope : SignedEnvelope :=
  envelopeWith { type := 1, ttl := 3600, rdata := [127, 0, 0, 1] }
    { threshold := 1, keys := [List.replicate 32 9], timelock := 0 }

/-- The same with no time to live, under a policy of no key and no threshold. -/
def unboundedEnvelope : SignedEnvelope :=
  envelopeWith { type := 1, ttl := 0, rdata := [127, 0, 0, 1] }
    { threshold := 0, keys := [], timelock := 0 }

theorem bounded_decodes :
    decodeEnvelope (unmarshalEnvelope Cbor.strictReader) boundedEnvelope.bytes
        = .ok boundedEnvelope ∧
      boundedEnvelope.record.InBounds := by
  have haccepted : decodeEnvelope (unmarshalEnvelope Cbor.strictReader) boundedEnvelope.bytes
      = .ok boundedEnvelope := by decide +kernel
  have hitems : ItemsInBounds Cbor.strictReader boundedEnvelope.bytes := by
    refine ⟨by decide +kernel, fun v hv => ?_⟩
    have hraw : rawField Cbor.strictReader boundedEnvelope.bytes 10
        = some (RecoveryPolicyWire.marshal ⟨1, [List.replicate 32 9], 0⟩) := by decide +kernel
    rw [hraw, Option.mem_some_iff] at hv
    subst hv
    constructor <;> decide +kernel
  exact ⟨haccepted, (decoded_bounds_iff haccepted (by decide +kernel)).2.2.1.mpr hitems⟩

/-- **A record outside the bounds is decoded**: a TTL of zero, and a policy without keys and
threshold. -/
theorem decoded_without_bounds :
    decodeEnvelope (unmarshalEnvelope Cbor.strictReader) unboundedEnvelope.bytes
        = .ok unboundedEnvelope ∧
      unboundedEnvelope.record.validate = .ok () ∧
      (∃ rr ∈ unboundedEnvelope.record.rrset, rr.ttl = 0 ∧
        newRR rr.type rr.ttl rr.rdata = .error (.ttl 0)) ∧
      (∃ p ∈ unboundedEnvelope.record.recovery, p.keys = [] ∧ p.threshold = 0 ∧
        newRecoveryPolicyWire p.threshold p.keys p.timelock = .error .threshold) ∧
      ¬ unboundedEnvelope.record.InBounds := by
  refine ⟨by decide +kernel, by decide +kernel, ⟨_, List.mem_cons_self, rfl, rfl⟩,
    ⟨_, rfl, rfl, rfl, rfl⟩, ?_⟩
  intro h
  have hpositive := (h.rrs _ List.mem_cons_self).1
  exact absurd hpositive (by decide)

end Freens.Wire
