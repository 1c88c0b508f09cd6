/-
**READING ENVELOPES BACK** (`wire/wire.go`): the field-by-field
decoders of resource records, recovery policies, records and envelopes, over
the CBOR library they call.

The error of a step keeps the field it names; the library's own text behind
it is left out. A null in the record set is a nil pointer in the source,
which `Validate` refuses; here the decoder refuses it.
-/
import Freens.Toy
import Freens.Wire.Files

namespace Freens.Wire

open Library

/-! ## The decoders -/

/-- The errors of `RR.UnmarshalCBOR`. -/
inductive RRDecodeError where
  /-- "RR must be a CBOR array: …" -/
  | array
  /-- "RR must be a 3-element array, got %d" -/
  | length (got : Nat)
  /-- "RR.type: …" -/
  | type
  /-- "RR.ttl: …" -/
  | ttl
  /-- "RR.rdata: …" -/
  | rdata
  /-- "rrset[%d] is nil" -/
  | null
  deriving DecidableEq, Repr

/-- The errors of `Record.UnmarshalCBOR`. -/
inductive RecordDecodeError where
  /-- "record must be a CBOR map: …" -/
  | map
  /-- "record missing required key %d" -/
  | missing (key : UInt64)
  /-- "record.version: …", and so on for each field -/
  | version
  | name
  | owner
  | sequence
  | created
  | expires
  | rrset
  | rr (e : RRDecodeError)
  | delegation
  | prevHash
  | recovery
  | revoke
  deriving DecidableEq, Repr

section
variable (L : CborReader)

/-- `RR.UnmarshalCBOR`, behind the test for a null. -/
def unmarshalRR (data : Bytes) : Except RRDecodeError RR :=
  if L.null data then .error .null
  else do
    let elems ← expect .array (L.array data)
    match elems with
    | [type, ttl, rdata] => do
      let type ← expect .type (L.uint type)
      let ttl ← expect .ttl (L.uint ttl)
      let rdata ← expect .rdata (L.bytes rdata)
      return { type, ttl, rdata := rdata.getD [] }
    | _ => .error (.length elems.length)

/-- `cbor.Unmarshal` into the record set; the error of an element is wrapped. -/
def unmarshalRRset (data : Bytes) : Except RecordDecodeError (List RR) := do
  let elems ← expect .rrset (L.array data)
  (elems.mapM (unmarshalRR L)).mapError .rr

/-- `cbor.Unmarshal` into a `[][]byte`; a null element is nil. -/
def unmarshalKeys (data : Bytes) : Except RecordDecodeError (List Bytes) := do
  let elems ← expect .recovery (L.array data)
  elems.mapM (fun v => (·.getD []) <$> expect .recovery (L.bytes v))

/-- `cbor.Unmarshal` into a `RecoveryPolicyWire`: a missing field is zero. -/
def unmarshalPolicy (data : Bytes) : Except RecordDecodeError RecoveryPolicyWire := do
  let m ← expect .recovery (L.structFields data)
  let threshold ← ifPresent 0 (m 1) (fun v => expect .recovery (L.uint v))
  let keys ← ifPresent [] (m 2) (unmarshalKeys L)
  let timelock ← ifPresent 0 (m 3) (fun v => expect .recovery (L.uint v))
  return { threshold, keys, timelock }

/-- Every key is present; the error names the first missing. -/
def requireKeys (m : UInt64 → Option Bytes) (keys : List UInt64) : Except RecordDecodeError Unit :=
  keys.forM (fun k => if m k = none then .error (.missing k) else .ok ())

/-- `Record.UnmarshalCBOR`: keys 1-7 are required, 8-12 read when present. -/
def unmarshalRecord (data : Bytes) : Except RecordDecodeError Record := do
  let m ← expect .map (L.mapEntries data)
  let raw (k : UInt64) : Bytes := (m k).getD []
  requireKeys m [1, 2, 3, 4, 5, 6, 7]
  let version ← expect .version (L.uint (raw 1))
  let name ← expect .name (L.bytes (raw 2))
  let owner ← expect .owner (L.bytes (raw 3))
  let sequence ← expect .sequence (L.uint (raw 4))
  let created ← expect .created (L.uint (raw 5))
  let expires ← expect .expires (L.uint (raw 6))
  let rrset ← unmarshalRRset L (raw 7)
  -- a null leaves these two nil, an empty string does not
  let delegation ← ifPresent none (m 8) (fun v => expect .delegation (L.bytes v))
  let prevHash ← ifPresent none (m 9) (fun v => expect .prevHash (L.bytes v))
  let recovery ← ifPresent none (m 10) (fun v => some <$> unmarshalPolicy L v)
  let revoke ← ifPresent none (m 12) (fun v => some <$> expect .revoke (L.bool v))
  return { version, name := name.getD [], owner := owner.getD [], sequence, created, expires,
           rrset, delegation, prevHash, recovery,
           -- field 11 is kept as the raw bytes of the item
           claim := raw 11, revoke }

/-- `cbor.Unmarshal` into an envelope with a record; `none` for every error. -/
def unmarshalEnvelope (data : Bytes) : Option SignedEnvelope :=
  match L.structFields data with
  | none => none
  | some m =>
    match m 1 with
    | none => none
    | some record =>
      if L.null record then none
      else
        match unmarshalRecord L record, ifPresent none (m 2) (fun v => expect () (L.bytes v)),
            ifPresent none (m 3) (fun v => expect () (L.bytes v)) with
        | .ok record, .ok sig, .ok signer =>
          some { record, sig := sig.getD [], signer := signer.getD [] }
        | _, _, _ => none

/-- The raw item under key `k` of the record in the bytes of an envelope. -/
def rawField (data : Bytes) (k : UInt64) : Option Bytes :=
  match L.structFields data with
  | none => none
  | some m =>
    match m 1 with
    | none => none
    | some record =>
      match L.mapEntries record with
      | none => none
      | some fields => fields k

end

variable {L : CborReader}

/-! ## What each decoder accepts -/

variable {data : Bytes} {rr : RR} {r : Record} {env e e' : SignedEnvelope} {j : UInt64} {c : Prop}
  {rrset : List RR} {keys : List Bytes} {p : RecoveryPolicyWire}

theorem unmarshalRR_eq_ok_iff :
    unmarshalRR L data = .ok rr ↔ L.null data = false ∧ ∃ type ttl rdata content,
      L.array data = some [type, ttl, rdata] ∧ L.uint type = some rr.type ∧
        L.uint ttl = some rr.ttl ∧ L.bytes rdata = some content ∧ content.getD [] = rr.rdata := by
  unfold unmarshalRR
  rw [guard_eq_ok, Bool.not_eq_true, bind_eq_ok]
  refine and_congr_right fun _ => ?_
  constructor
  · intro h
    obtain ⟨elems, harray, hread⟩ := h
    split at hread
    next type ttl rdata =>
      simp only [bind_eq_ok, expect_eq_ok, pure_eq_ok] at hread
      obtain ⟨t, ht, l, hl, d, hd, rfl⟩ := hread
      exact ⟨type, ttl, rdata, d, expect_eq_ok.mp harray, ht, hl, hd, rfl⟩
    next => cases hread
  · intro h
    obtain ⟨type, ttl, rdata, content, harray, htype, httl, hrdata, hcontent⟩ := h
    refine ⟨[type, ttl, rdata], expect_eq_ok.mpr harray, ?_⟩
    simp only [bind_eq_ok, expect_eq_ok, pure_eq_ok]
    exact ⟨_, htype, _, httl, _, hrdata, by rw [hcontent]⟩

variable {α : Type} {m : UInt64 → Option Bytes} {k : UInt64} {v b : Bytes} {o : Option Bytes}

theorem requireKeys_eq_ok {keys : List UInt64} {u : Unit} :
    requireKeys m keys = .ok u ↔ ∀ k ∈ keys, m k ≠ none := by
  cases u
  rw [requireKeys, forM_eq_ok]
  simp only [guard_eq_ok, and_true, ne_eq]

/-- What the fields of a record's map say about the record. -/
structure ReadsRecord (L : CborReader) (m : UInt64 → Option Bytes) (r : Record) : Prop where
  required : ∀ k ∈ ([1, 2, 3, 4, 5, 6, 7] : List UInt64), m k ≠ none
  version : L.uint ((m 1).getD []) = some r.version
  name : ∃ x, L.bytes ((m 2).getD []) = some x ∧ x.getD [] = r.name
  owner : ∃ x, L.bytes ((m 3).getD []) = some x ∧ x.getD [] = r.owner
  sequence : L.uint ((m 4).getD []) = some r.sequence
  created : L.uint ((m 5).getD []) = some r.created
  expires : L.uint ((m 6).getD []) = some r.expires
  rrset : unmarshalRRset L ((m 7).getD []) = .ok r.rrset
  delegation : (m 8 = none ∧ none = r.delegation) ∨
    ∃ v, m 8 = some v ∧ L.bytes v = some r.delegation
  prevHash : (m 9 = none ∧ none = r.prevHash) ∨ ∃ v, m 9 = some v ∧ L.bytes v = some r.prevHash
  recovery : (m 10 = none ∧ none = r.recovery) ∨
    ∃ v, m 10 = some v ∧ ∃ p, unmarshalPolicy L v = .ok p ∧ some p = r.recovery
  claim : (m 11).getD [] = r.claim
  revoke : (m 12 = none ∧ none = r.revoke) ∨
    ∃ v, m 12 = some v ∧ ∃ x, L.bool v = some x ∧ some x = r.revoke

theorem unmarshalRecord_eq_ok_iff :
    unmarshalRecord L data = .ok r ↔ ∃ m, L.mapEntries data = some m ∧ ReadsRecord L m r := by
  simp only [unmarshalRecord, bind_eq_ok, expect_eq_ok, requireKeys_eq_ok,
    ifPresent_eq_ok, map_eq_ok, pure_eq_ok]
  constructor
  · intro h
    obtain ⟨m, hm, _, hreq, version, hversion, name, hname, owner, howner, sequence, hsequence,
      created, hcreated, expires, hexpires, rrset, hrrset, delegation, hdelegation, prevHash,
      hprevHash, recovery, hrecovery, revoke, hrevoke, rfl⟩ := h
    exact ⟨m, hm, hreq, hversion, ⟨name, hname, rfl⟩, ⟨owner, howner, rfl⟩, hsequence, hcreated,
      hexpires, hrrset, hdelegation, hprevHash, hrecovery, rfl, hrevoke⟩
  · intro h
    obtain ⟨m, hm, h⟩ := h
    obtain ⟨name, hname, hname'⟩ := h.name
    obtain ⟨owner, howner, howner'⟩ := h.owner
    refine ⟨m, hm, (), h.required, _, h.version, name, hname, owner, howner, _, h.sequence, _,
      h.created, _, h.expires, _, h.rrset, _, h.delegation, _, h.prevHash, _, h.recovery, _,
      h.revoke, ?_⟩
    rw [hname', howner', h.claim]

theorem unmarshalEnvelope_eq_some_iff :
    unmarshalEnvelope L data = some env ↔ ∃ m record, L.structFields data = some m ∧
      m 1 = some record ∧ L.null record = false ∧ unmarshalRecord L record = .ok env.record ∧
      (∃ x, ifPresent none (m 2) (fun v => expect () (L.bytes v)) = .ok x ∧ x.getD [] = env.sig) ∧
      ∃ x, ifPresent none (m 3) (fun v => expect () (L.bytes v)) = .ok x ∧ x.getD [] = env.signer := by
  unfold unmarshalEnvelope
  constructor
  · intro h
    split at h
    next => cases h
    next m hm =>
      split at h
      next => cases h
      next record hrecord =>
        split at h
        next => cases h
        next hnull =>
          split at h
          next r sig signer hr hsig hsigner =>
            rw [Option.some.injEq] at h
            subst h
            exact ⟨m, record, hm, hrecord, Bool.eq_false_iff.mpr hnull, hr, ⟨sig, hsig, rfl⟩,
              signer, hsigner, rfl⟩
          next => cases h
  · intro h
    obtain ⟨m, record, hm, hrecord, hnull, hr, ⟨sig, hsig, hsig'⟩, signer, hsigner, hsigner'⟩ := h
    simp only [hm, hrecord, hnull, hr, hsig, hsigner, hsig', hsigner']
    rfl

/-! ## The fields as they are written -/

theorem lookup_ite [Decidable c] :
    (if c then [(j, v)] else []).lookup k = if k = j then (if c then some v else none) else none := by
  by_cases hc : c
  · simp [hc, List.lookup_cons]
    grind
  · simp [hc]

theorem lookup_map_toList {o : Option α} {f : α → Bytes} :
    (o.map (fun a => (j, f a))).toList.lookup k = if k = j then o.map f else none := by
  cases o with
  | none => simp
  | some a =>
    simp [List.lookup_cons]
    grind

/-- What a map holds after `Record.MarshalCBOR` filled it. -/
structure WritesRecord (m : UInt64 → Option Bytes) (r : Record) : Prop where
  version : m 1 = some (Cbor.uint r.version)
  name : m 2 = some (Cbor.bstr r.name)
  owner : m 3 = some (Cbor.bstr r.owner)
  sequence : m 4 = some (Cbor.uint r.sequence)
  created : m 5 = some (Cbor.uint r.created)
  expires : m 6 = some (Cbor.uint r.expires)
  rrset : m 7 = some (Cbor.array (r.rrset.map RR.marshal))
  delegation : m 8 =
    if 0 < r.delegationBytes.length then some (Cbor.bstr r.delegationBytes) else none
  prevHash : m 9 = if r.hasPrevHash then some (Cbor.bstr r.prevHashBytes) else none
  recovery : m 10 = r.recovery.map RecoveryPolicyWire.marshal
  claim : m 11 = if 0 < r.claim.length then some r.claim else none
  revoke : m 12 = if r.revoke = some true then some Cbor.simpleTrue else none

theorem writesRecord_fields (r : Record) : WritesRecord (fun k => r.fields.lookup k) r := by
  constructor <;>
    simp [Record.fields, List.lookup_append, List.lookup_cons, lookup_ite, lookup_map_toList]

theorem keys_ite [Decidable c] : ((if c then [(j, v)] else []).map Prod.fst).Sublist [j] := by
  by_cases hc : c
  · rw [if_pos hc]
    exact List.Sublist.refl _
  · rw [if_neg hc]
    exact List.nil_sublist _

theorem keys_fields (r : Record) :
    (r.fields.map Prod.fst).Sublist [1, 2, 3, 4, 5, 6, 7, 8, 9, 10, 11, 12] := by
  have hrecovery : ((r.recovery.map (fun p => ((10 : UInt64), p.marshal))).toList.map
      Prod.fst).Sublist [10] := by
    cases r.recovery with
    | none => exact List.nil_sublist _
    | some p => exact List.Sublist.refl _
  rw [Record.fields, List.map_append, List.map_append, List.map_append, List.map_append,
    List.map_append]
  exact (((((List.Sublist.refl [1, 2, 3, 4, 5, 6, 7]).append keys_ite).append keys_ite).append
    hrecovery).append keys_ite).append keys_ite

theorem nodup_keys_fields (r : Record) : (r.fields.map Prod.fst).Nodup :=
  (keys_fields r).nodup (by decide)

theorem length_fields (r : Record) : r.fields.length < 2 ^ 64 := by
  have hle := (keys_fields r).length_le
  rw [List.length_map] at hle
  exact Nat.lt_of_le_of_lt hle (by decide)

/-! ## Well-formed envelopes -/

/-- Every length fits the head it is written behind, and a claim is CBOR. -/
structure Record.Encodable (L : CborReader) (r : Record) : Prop where
  name : r.name.length < 2 ^ 64
  rdata : ∀ rr ∈ r.rrset, rr.rdata.length < 2 ^ 64
  keys : ∀ p ∈ r.recovery, p.keys.length < 2 ^ 64 ∧ ∀ k ∈ p.keys, k.length < 2 ^ 64
  claim : r.claim = [] ∨ L.Item r.claim

/-- **A well-formed envelope**: a valid record and the two lengths. -/
structure SignedEnvelope.WellFormed (L : CborReader) (e : SignedEnvelope) : Prop where
  valid : e.record.Valid
  encodable : e.record.Encodable L
  sig : e.sig.length = 64
  signer : e.signer.length = 32

theorem item_rrElems (h : rr.rdata.length < 2 ^ 64) :
    ∀ x ∈ [Cbor.uint rr.type, Cbor.uint rr.ttl, Cbor.bstr rr.rdata], L.Item x := by
  simp only [List.forall_mem_cons]
  exact ⟨L.item_uint _, L.item_uint _, L.item_bstr _ h, by simp⟩

theorem item_rrs (h : ∀ rr ∈ rrset, rr.rdata.length < 2 ^ 64) :
    ∀ x ∈ rrset.map RR.marshal, L.Item x := by
  intro x hx
  obtain ⟨rr, hrr, rfl⟩ := List.mem_map.mp hx
  apply L.item_array _ (item_rrElems (h rr hrr))
  show 3 < 2 ^ 64
  omega

theorem item_bstrs (h : ∀ k ∈ keys, k.length < 2 ^ 64) : ∀ x ∈ keys.map Cbor.bstr, L.Item x := by
  intro x hx
  obtain ⟨k, hk, rfl⟩ := List.mem_map.mp hx
  exact L.item_bstr k (h k hk)

theorem item_policyFields (hcount : p.keys.length < 2 ^ 64)
    (hkeys : ∀ k ∈ p.keys, k.length < 2 ^ 64) :
    ∀ x ∈ [((1 : UInt64), Cbor.uint p.threshold), (2, Cbor.array (p.keys.map Cbor.bstr)),
      (3, Cbor.uint p.timelock)], L.Item x.2 := by
  have harray : L.Item (Cbor.array (p.keys.map Cbor.bstr)) :=
    L.item_array _ (item_bstrs hkeys) (by rwa [List.length_map])
  simp only [List.forall_mem_cons]
  exact ⟨L.item_uint _, harray, L.item_uint _, by simp⟩

theorem item_policy (hcount : p.keys.length < 2 ^ 64)
    (hkeys : ∀ k ∈ p.keys, k.length < 2 ^ 64) : L.Item p.marshal :=
  L.item_map _ (item_policyFields hcount hkeys) (show 3 < 2 ^ 64 by omega)

theorem forall_mem_ite [Decidable c] {a : α} {p : α → Prop} (h : c → p a) :
    ∀ x ∈ (if c then [a] else []), p x := by
  intro x hx
  by_cases hc : c
  · rw [if_pos hc, List.mem_singleton] at hx
    exact hx ▸ h hc
  · rw [if_neg hc] at hx
    exact absurd hx List.not_mem_nil

theorem short_of_len32 (h : ∀ d ∈ o, d.length = 32) : (o.getD []).length < 2 ^ 64 := by
  cases o with
  | none => exact Nat.two_pow_pos 64
  | some d =>
    have hd := h d rfl
    show d.length < 2 ^ 64
    omega

theorem item_fields (hv : r.Valid) (he : r.Encodable L) : ∀ x ∈ r.fields, L.Item x.2 := by
  have howner : r.owner.length < 2 ^ 64 := by
    have h := hv.owner
    omega
  have hcount : (r.rrset.map RR.marshal).length < 2 ^ 64 := by
    have h := hv.rrset
    rw [List.length_map]
    omega
  have hrequired : ∀ x ∈ [((1 : UInt64), Cbor.uint r.version), (2, Cbor.bstr r.name),
      (3, Cbor.bstr r.owner), (4, Cbor.uint r.sequence), (5, Cbor.uint r.created),
      (6, Cbor.uint r.expires), (7, Cbor.array (r.rrset.map RR.marshal))], L.Item x.2 := by
    simp only [List.forall_mem_cons]
    exact ⟨L.item_uint _, L.item_bstr _ he.name, L.item_bstr _ howner, L.item_uint _,
      L.item_uint _, L.item_uint _, L.item_array _ (item_rrs he.rdata) hcount, by simp⟩
  have hrecovery : ∀ x ∈ (r.recovery.map (fun p => ((10 : UInt64), p.marshal))).toList,
      L.Item x.2 := by
    intro x hx
    rw [Option.mem_toList, Option.map_eq_some_iff] at hx
    obtain ⟨p, hp, rfl⟩ := hx
    exact item_policy (he.keys p hp).1 (he.keys p hp).2
  have hclaim : 0 < r.claim.length → L.Item r.claim := by
    intro hpos
    refine he.claim.resolve_left ?_
    rintro hnil
    rw [hnil] at hpos
    exact absurd hpos (Nat.lt_irrefl 0)
  unfold Record.fields
  simp only [List.forall_mem_append]
  exact ⟨⟨⟨⟨⟨hrequired,
    forall_mem_ite (fun _ => L.item_bstr _ (short_of_len32 hv.delegation))⟩,
    forall_mem_ite (fun _ => L.item_bstr _ (short_of_len32 hv.prevHash))⟩, hrecovery⟩,
    forall_mem_ite hclaim⟩, forall_mem_ite (fun _ => L.item_true)⟩

theorem item_record (hv : r.Valid) (he : r.Encodable L) : L.Item r.canonicalBytes :=
  L.item_map _ (item_fields hv he) (length_fields r)

/-! ## Reading back what was written -/

theorem unmarshalRR_marshal (h : rr.rdata.length < 2 ^ 64) : unmarshalRR L rr.marshal = .ok rr := by
  have harray := L.array_array _ (item_rrElems h) (show 3 < 2 ^ 64 by omega)
  rw [unmarshalRR_eq_ok_iff]
  exact ⟨L.null_array _, _, _, _, some rr.rdata, harray, L.uint_uint _, L.uint_uint _,
    L.bytes_bstr _ h, rfl⟩

theorem unmarshalRRset_marshal (hcount : rrset.length < 2 ^ 64)
    (hrdata : ∀ rr ∈ rrset, rr.rdata.length < 2 ^ 64) :
    unmarshalRRset L (Cbor.array (rrset.map RR.marshal)) = .ok rrset := by
  have harray := L.array_array _ (item_rrs hrdata) (by rwa [List.length_map])
  rw [unmarshalRRset, bind_eq_ok]
  refine ⟨_, expect_eq_ok.mpr harray, ?_⟩
  rw [mapError_eq_ok, mapM_map_eq_ok]
  exact fun rr hrr => unmarshalRR_marshal (hrdata rr hrr)

theorem unmarshalKeys_marshal (hcount : keys.length < 2 ^ 64)
    (hkeys : ∀ k ∈ keys, k.length < 2 ^ 64) :
    unmarshalKeys L (Cbor.array (keys.map Cbor.bstr)) = .ok keys := by
  have harray := L.array_array _ (item_bstrs hkeys) (by rwa [List.length_map])
  rw [unmarshalKeys, bind_eq_ok]
  refine ⟨_, expect_eq_ok.mpr harray, ?_⟩
  rw [mapM_map_eq_ok]
  intro k hk
  rw [map_eq_ok]
  exact ⟨some k, expect_eq_ok.mpr (L.bytes_bstr k (hkeys k hk)), rfl⟩

theorem unmarshalPolicy_marshal (hcount : p.keys.length < 2 ^ 64)
    (hkeys : ∀ k ∈ p.keys, k.length < 2 ^ 64) : unmarshalPolicy L p.marshal = .ok p := by
  have hfields := L.structFields_map _ (item_policyFields hcount hkeys) (show 3 < 2 ^ 64 by omega)
    (show ([1, 2, 3] : List UInt64).Nodup by decide)
  simp only [unmarshalPolicy, bind_eq_ok, expect_eq_ok, ifPresent_eq_ok, pure_eq_ok]
  refine ⟨_, hfields, p.threshold, .inr ⟨_, rfl, L.uint_uint _⟩, p.keys, ?_, p.timelock, ?_, rfl⟩
  · exact .inr ⟨_, rfl, unmarshalKeys_marshal hcount hkeys⟩
  · exact .inr ⟨_, rfl, L.uint_uint _⟩

theorem reads_optional {m : Option Bytes} (h : ∀ d ∈ o, d.length = 32)
    (hm : m = if 0 < (o.getD []).length then some (Cbor.bstr (o.getD [])) else none) :
    (m = none ∧ none = o) ∨ ∃ v, m = some v ∧ L.bytes v = some o := by
  subst hm
  cases o with
  | none => exact .inl ⟨rfl, rfl⟩
  | some d =>
    have hd := h d rfl
    have hpos : 0 < ((some d).getD []).length := by
      show 0 < d.length
      omega
    refine .inr ⟨Cbor.bstr d, if_pos hpos, L.bytes_bstr d ?_⟩
    omega

/-- The record as it is read back: a revocation that is not true is absent. -/
def Record.normal (r : Record) : Record :=
  { r with revoke := if r.revoke = some true then some true else none }

theorem WritesRecord.reads (hw : WritesRecord m r) (hv : r.Valid)
    (he : r.Encodable L) : ReadsRecord L m r.normal := by
  have howner : r.owner.length < 2 ^ 64 := by
    have h := hv.owner
    omega
  have hcount : r.rrset.length < 2 ^ 64 := by
    have h := hv.rrset
    omega
  constructor
  case required =>
    simp [hw.version, hw.name, hw.owner, hw.sequence, hw.created, hw.expires, hw.rrset]
  case version =>
    rw [hw.version]
    exact L.uint_uint _
  case name =>
    rw [hw.name]
    exact ⟨some r.name, L.bytes_bstr _ he.name, rfl⟩
  case owner =>
    rw [hw.owner]
    exact ⟨some r.owner, L.bytes_bstr _ howner, rfl⟩
  case sequence =>
    rw [hw.sequence]
    exact L.uint_uint _
  case created =>
    rw [hw.created]
    exact L.uint_uint _
  case expires =>
    rw [hw.expires]
    exact L.uint_uint _
  case rrset =>
    rw [hw.rrset]
    exact unmarshalRRset_marshal hcount he.rdata
  case delegation => exact reads_optional hv.delegation hw.delegation
  case prevHash =>
    refine reads_optional hv.prevHash (hw.prevHash.trans ?_)
    simp only [Record.hasPrevHash, decide_eq_true_eq]
    rfl
  case recovery =>
    rw [hw.recovery]
    show (_ ∧ none = r.recovery) ∨ ∃ v, _ ∧ ∃ p, _ ∧ some p = r.recovery
    cases hp : r.recovery with
    | none => exact .inl ⟨rfl, rfl⟩
    | some p =>
      have hshort := he.keys p hp
      exact .inr ⟨p.marshal, rfl, p, unmarshalPolicy_marshal hshort.1 hshort.2, rfl⟩
  case claim =>
    rw [hw.claim]
    show _ = r.claim
    cases r.claim with
    | nil | cons c claim => rfl
  case revoke =>
    rw [hw.revoke]
    by_cases hrev : r.revoke = some true
    · rw [if_pos hrev]
      exact .inr ⟨_, rfl, true, L.bool_true, (if_pos hrev).symm⟩
    · rw [if_neg hrev]
      exact .inl ⟨rfl, (if_neg hrev).symm⟩

theorem unmarshalRecord_canonicalBytes (hv : r.Valid) (he : r.Encodable L) :
    unmarshalRecord L r.canonicalBytes = .ok r.normal := by
  rw [unmarshalRecord_eq_ok_iff]
  refine ⟨_, L.mapEntries_map _ (item_fields hv he) (length_fields r) (nodup_keys_fields r), ?_⟩
  exact (writesRecord_fields r).reads hv he

/-- The envelope with its record in normal form. -/
def SignedEnvelope.normal (e : SignedEnvelope) : SignedEnvelope :=
  { e with record := e.record.normal }

theorem valid_normal (h : r.Valid) : r.normal.Valid :=
  ⟨h.version, h.name, h.owner, h.sequence, h.created, h.rrset, h.delegation, h.prevHash⟩

/-- **`DecodeEnvelope` is exact**: the library's envelope, its record valid and the lengths
right. -/
theorem decodeEnvelope_eq_ok_iff {unmarshal : Bytes → Option SignedEnvelope} :
    decodeEnvelope unmarshal data = .ok env ↔ unmarshal data = some env ∧ env.record.Valid ∧
      env.sig.length = 64 ∧ env.signer.length = 32 := by
  unfold decodeEnvelope
  cases hread : unmarshal data with
  | none => simp
  | some e =>
    dsimp only
    rw [← validate_eq_ok_iff, Option.some.injEq]
    cases hvalid : e.record.validate with
    | error err =>
      dsimp only
      constructor
      · intro h
        cases h
      · intro h
        obtain ⟨rfl, hok, _⟩ := h
        rw [hvalid] at hok
        cases hok
    | ok u =>
      dsimp only
      rw [guard_eq_ok, guard_eq_ok, not_not, not_not, Except.ok.injEq]
      constructor
      · intro h
        obtain ⟨hsig, hsigner, rfl⟩ := h
        exact ⟨rfl, hvalid, hsig, hsigner⟩
      · intro h
        obtain ⟨rfl, _, hsig, hsigner⟩ := h
        exact ⟨hsig, hsigner, rfl⟩

theorem decodeEnvelope_bytes (h : e.WellFormed L) :
    decodeEnvelope (unmarshalEnvelope L) e.bytes = .ok e.normal := by
  have hsig : e.sig.length < 2 ^ 64 := by
    have h' := h.sig
    omega
  have hsigner : e.signer.length < 2 ^ 64 := by
    have h' := h.signer
    omega
  have hitems : ∀ x ∈ [((1 : UInt64), e.record.canonicalBytes), (2, Cbor.bstr e.sig),
      (3, Cbor.bstr e.signer)], L.Item x.2 := by
    simp only [List.forall_mem_cons]
    exact ⟨item_record h.valid h.encodable, L.item_bstr _ hsig, L.item_bstr _ hsigner, by simp⟩
  have hfields := L.structFields_map _ hitems (show 3 < 2 ^ 64 by omega)
    (show ([1, 2, 3] : List UInt64).Nodup by decide)
  rw [decodeEnvelope_eq_ok_iff, unmarshalEnvelope_eq_some_iff]
  refine ⟨⟨_, e.record.canonicalBytes, hfields, rfl, L.null_map _,
    unmarshalRecord_canonicalBytes h.valid h.encodable, ⟨some e.sig, ?_, rfl⟩,
    some e.signer, ?_, rfl⟩, valid_normal h.valid, h.sig, h.signer⟩
  · exact expect_eq_ok.mpr (L.bytes_bstr _ hsig)
  · exact expect_eq_ok.mpr (L.bytes_bstr _ hsigner)

/-! ## What is accepted is well-formed -/

theorem short_of_bytes {x : Option Bytes} (h : L.bytes b = some x) :
    (x.getD []).length < 2 ^ 64 := by
  cases x with
  | none => exact Nat.two_pow_pos 64
  | some y => exact L.bytes_short b y h

theorem unmarshalRRset_short
    (h : unmarshalRRset L data = .ok rrset) : ∀ rr ∈ rrset, rr.rdata.length < 2 ^ 64 := by
  rw [unmarshalRRset, bind_eq_ok] at h
  obtain ⟨elems, _, hloop⟩ := h
  rw [mapError_eq_ok] at hloop
  intro rr hrr
  obtain ⟨elem, _, hread⟩ := exists_of_mem_mapM hloop hrr
  obtain ⟨_, _, _, _, content, _, _, _, hbytes, hcontent⟩ := unmarshalRR_eq_ok_iff.mp hread
  rw [← hcontent]
  exact short_of_bytes hbytes

theorem unmarshalKeys_short (h : unmarshalKeys L data = .ok keys) :
    keys.length < 2 ^ 64 ∧ ∀ k ∈ keys, k.length < 2 ^ 64 := by
  rw [unmarshalKeys, bind_eq_ok] at h
  obtain ⟨elems, harray, hloop⟩ := h
  constructor
  · rw [← mapM_length hloop]
    exact L.array_short data elems (expect_eq_ok.mp harray)
  · intro k hk
    obtain ⟨elem, _, hread⟩ := exists_of_mem_mapM hloop hk
    obtain ⟨x, hx, rfl⟩ := map_eq_ok.mp hread
    exact short_of_bytes (expect_eq_ok.mp hx)

theorem unmarshalPolicy_short (h : unmarshalPolicy L data = .ok p) :
    p.keys.length < 2 ^ 64 ∧ ∀ k ∈ p.keys, k.length < 2 ^ 64 := by
  simp only [unmarshalPolicy, bind_eq_ok, ifPresent_eq_ok, pure_eq_ok] at h
  obtain ⟨m, _, threshold, _, keys, hkeys, timelock, _, rfl⟩ := h
  rcases hkeys with ⟨_, rfl⟩ | ⟨v, _, hv⟩
  · exact ⟨Nat.two_pow_pos 64, fun k hk => absurd hk List.not_mem_nil⟩
  · exact unmarshalKeys_short hv

theorem encodable_of_unmarshalRecord (h : unmarshalRecord L data = .ok r) : r.Encodable L := by
  obtain ⟨m, hm, hr⟩ := unmarshalRecord_eq_ok_iff.mp h
  constructor
  case name =>
    obtain ⟨x, hx, hname⟩ := hr.name
    rw [← hname]
    exact short_of_bytes hx
  case rdata => exact unmarshalRRset_short hr.rrset
  case keys =>
    intro p hp
    rcases hr.recovery with ⟨_, hnone⟩ | ⟨v, _, q, hq, hsome⟩
    · rw [← hnone] at hp
      cases hp
    · rw [← hsome, Option.mem_some_iff] at hp
      subst hp
      exact unmarshalPolicy_short hq
  case claim =>
    rw [← hr.claim]
    -- the raw value of a map is an item
    cases hv : m 11 with
    | none => exact .inl rfl
    | some v => exact .inr (L.item_of_mapEntries data m hm 11 v hv)

/-- The decoded record is read off the raw fields of the input. -/
theorem readsRecord_of_decodeEnvelope (h : decodeEnvelope (unmarshalEnvelope L) b = .ok env) :
    ReadsRecord L (rawField L b) env.record := by
  obtain ⟨m, record, hm, hrecord, _, hread, _⟩ :=
    unmarshalEnvelope_eq_some_iff.mp (decodeEnvelope_eq_ok_iff.mp h).1
  obtain ⟨fields, hfields, hreads⟩ := unmarshalRecord_eq_ok_iff.mp hread
  have hraw : rawField L b = fields := by
    funext k
    simp only [rawField, hm, hrecord, hfields]
  rwa [hraw]

theorem wellFormed_of_decodeEnvelope
    (h : decodeEnvelope (unmarshalEnvelope L) b = .ok env) : env.WellFormed L := by
  obtain ⟨hread, hvalid, hsig, hsigner⟩ := decodeEnvelope_eq_ok_iff.mp h
  obtain ⟨_, _, _, _, _, hrecord, _⟩ := unmarshalEnvelope_eq_some_iff.mp hread
  exact ⟨hvalid, encodable_of_unmarshalRecord hrecord, hsig, hsigner⟩

/-! ## Content and identity -/

/-- **The same content**: absent, empty and false optional fields are not told
apart. -/
structure Record.SameContent (r r' : Record) : Prop where
  version : r.version = r'.version
  name : r.name = r'.name
  owner : r.owner = r'.owner
  sequence : r.sequence = r'.sequence
  created : r.created = r'.created
  expires : r.expires = r'.expires
  rrset : r.rrset = r'.rrset
  delegation : r.delegationBytes = r'.delegationBytes
  prevHash : r.prevHashBytes = r'.prevHashBytes
  recovery : r.recovery = r'.recovery
  claim : r.claim = r'.claim
  revoke : r.revoke = some true ↔ r'.revoke = some true

/-- The same record content, signature and signer. -/
structure SignedEnvelope.SameContent (e e' : SignedEnvelope) : Prop where
  record : e.record.SameContent e'.record
  sig : e.sig = e'.sig
  signer : e.signer = e'.signer

theorem Record.SameContent.canonicalBytes_eq {r' : Record} (h : r.SameContent r') :
    r.canonicalBytes = r'.canonicalBytes := by
  have hprev : r.hasPrevHash = r'.hasPrevHash := by
    rw [Record.hasPrevHash, Record.hasPrevHash, h.prevHash]
  have hrevoke : (if r.revoke = some true then [((12 : UInt64), Cbor.simpleTrue)] else []) =
      if r'.revoke = some true then [(12, Cbor.simpleTrue)] else [] := if_congr h.revoke rfl rfl
  rw [Record.canonicalBytes, Record.canonicalBytes, Record.fields, Record.fields, hprev, hrevoke,
    h.version, h.name, h.owner, h.sequence, h.created, h.expires, h.rrset, h.delegation,
    h.prevHash, h.recovery, h.claim]

theorem SignedEnvelope.SameContent.bytes_eq (h : e.SameContent e') : e.bytes = e'.bytes := by
  rw [SignedEnvelope.bytes, SignedEnvelope.bytes, h.record.canonicalBytes_eq, h.sig, h.signer]

theorem sameContent_normal (e : SignedEnvelope) : e.SameContent e.normal := by
  refine ⟨⟨rfl, rfl, rfl, rfl, rfl, rfl, rfl, rfl, rfl, rfl, rfl, ?_⟩, rfl, rfl⟩
  show e.record.revoke = some true ↔
    (if e.record.revoke = some true then some true else none) = some true
  by_cases h : e.record.revoke = some true
  · simp [h]
  · simp [h]

theorem sameContent_of_normal_eq (h : e.normal = e'.normal) : e.SameContent e' := by
  -- only the revocation is read back in another form
  have hrevoke := (sameContent_normal e).record.revoke
  rw [h] at hrevoke
  have hsame : ∀ {β : Type} (field : SignedEnvelope → β), field e.normal = field e'.normal :=
    fun field => congrArg field h
  exact ⟨⟨hsame (·.record.version), hsame (·.record.name), hsame (·.record.owner),
    hsame (·.record.sequence), hsame (·.record.created), hsame (·.record.expires),
    hsame (·.record.rrset), hsame (·.record.delegationBytes), hsame (·.record.prevHashBytes),
    hsame (·.record.recovery), hsame (·.record.claim),
    hrevoke.trans (sameContent_normal e').record.revoke.symm⟩, hsame (·.sig), hsame (·.signer)⟩

theorem bytes_eq_iff_sameContent (h : e.WellFormed L)
    (h' : e'.WellFormed L) : e.bytes = e'.bytes ↔ e.SameContent e' := by
  constructor
  · intro heq
    have hread := decodeEnvelope_bytes h
    rw [heq, decodeEnvelope_bytes h', Except.ok.injEq] at hread
    exact sameContent_of_normal_eq hread.symm
  · exact SignedEnvelope.SameContent.bytes_eq

variable {P : Primitives}

theorem SignedEnvelope.SameContent.recordHash_eq
    (h : e.SameContent e') : e.recordHash P = e'.recordHash P := by
  rw [SignedEnvelope.recordHash, SignedEnvelope.recordHash, h.bytes_eq]

theorem Record.SameContent.marshal_eq {r' : Record} (h : r.SameContent r') :
    r.marshal = r'.marshal := by
  rw [Record.marshal, Record.marshal, encodes_congr h.claim, h.canonicalBytes_eq]

theorem SignedEnvelope.SameContent.marshal_eq (h : e.SameContent e') : e.marshal = e'.marshal := by
  rw [SignedEnvelope.marshal, SignedEnvelope.marshal, encodes_congr h.record.claim, h.bytes_eq]

theorem SignedEnvelope.SameContent.verifySignature_eq
    (h : e.SameContent e') : e.verifySignature P = e'.verifySignature P := by
  rw [SignedEnvelope.verifySignature, SignedEnvelope.verifySignature, h.sig, h.signer,
    h.record.marshal_eq]

theorem marshal_eq_some_iff : e.marshal = some b ↔ e.record.encodes = true ∧ e.bytes = b := by
  unfold SignedEnvelope.marshal
  cases e.record.encodes with
  | false | true => simp

/-! ## What re-encodes -/

/-- **The claim of the input is embeddable**: under key 11 stands nothing, or an item the
encoder takes. -/
def ClaimEmbeds (L : CborReader) (data : Bytes) : Prop :=
  ∀ v ∈ rawField L data 11, 0 < v.length → Cbor.embeds v = true

/-- **An envelope survives its own encoding**: it has bytes, and they decode to the same
bytes, H_record and verdict. -/
def Recodes (P : Primitives) (L : CborReader) (env : SignedEnvelope) : Prop :=
  ∃ x env', env.marshal = some x ∧ decodeEnvelope (unmarshalEnvelope L) x = .ok env' ∧
    env'.marshal = some x ∧ env'.recordHash P = env.recordHash P ∧
    env'.verifySignature P = env.verifySignature P

/-- Whether the decoded record encodes is decided by field 11 of the input. -/
theorem encodes_iff_claimEmbeds (h : decodeEnvelope (unmarshalEnvelope L) b = .ok env) :
    env.record.encodes = true ↔ ClaimEmbeds L b := by
  have hclaim := (readsRecord_of_decodeEnvelope h).claim
  unfold ClaimEmbeds Record.encodes
  cases hraw : rawField L b 11 with
  | none =>
    rw [hraw, Option.getD_none] at hclaim
    simp [← hclaim]
  | some v =>
    rw [hraw, Option.getD_some] at hclaim
    rw [← hclaim]
    by_cases hpos : 0 < v.length <;> simp [hpos]

theorem recodes_of_encodes (hwf : env.WellFormed L) (h : env.record.encodes = true) :
    Recodes P L env := by
  have hsame := sameContent_normal env
  exact ⟨env.bytes, env.normal, marshal_eq_some_iff.mpr ⟨h, rfl⟩, decodeEnvelope_bytes hwf,
    hsame.marshal_eq.symm.trans (marshal_eq_some_iff.mpr ⟨h, rfl⟩), hsame.recordHash_eq.symm,
    hsame.verifySignature_eq.symm⟩

/-- **The envelope codec.** A well-formed envelope that encodes is read back. Accepted bytes
re-encode to one identity exactly when their claim is embeddable; otherwise there are no
bytes and no valid signature. Two are one envelope exactly when they have the same content. -/
theorem envelope_codec (P : Primitives) (L : CborReader) :
    (∀ e : SignedEnvelope, e.WellFormed L → e.record.encodes = true →
      ∃ x e', e.marshal = some x ∧ decodeEnvelope (unmarshalEnvelope L) x = .ok e' ∧
        e.SameContent e' ∧ e'.recordHash P = e.recordHash P ∧
        e'.record.marshal = e.record.marshal) ∧
    (∀ (b : Bytes) (env : SignedEnvelope), decodeEnvelope (unmarshalEnvelope L) b = .ok env →
      (Recodes P L env ↔ ClaimEmbeds L b) ∧
      (¬ ClaimEmbeds L b → env.marshal = none ∧ env.verifySignature P = false)) ∧
    (∀ (b b' : Bytes) (env env' : SignedEnvelope),
      decodeEnvelope (unmarshalEnvelope L) b = .ok env →
      decodeEnvelope (unmarshalEnvelope L) b' = .ok env' →
        ((∃ x, env.marshal = some x ∧ env'.marshal = some x) ↔
          env.SameContent env' ∧ ClaimEmbeds L b) ∧
        (env.SameContent env' → env.recordHash P = env'.recordHash P ∧
          env.verifySignature P = env'.verifySignature P)) := by
  refine ⟨?_, ?_, ?_⟩
  · intro e he hencodes
    have hsame := sameContent_normal e
    exact ⟨e.bytes, e.normal, marshal_eq_some_iff.mpr ⟨hencodes, rfl⟩, decodeEnvelope_bytes he,
      hsame, hsame.recordHash_eq.symm, hsame.record.marshal_eq.symm⟩
  · intro b env haccepted
    have hencodes := encodes_iff_claimEmbeds haccepted
    refine ⟨⟨?_, ?_⟩, ?_⟩
    · rintro ⟨x, _, hbytes, _⟩
      exact hencodes.mp (marshal_eq_some_iff.mp hbytes).1
    · intro h
      exact recodes_of_encodes (wellFormed_of_decodeEnvelope haccepted) (hencodes.mpr h)
    · intro h
      have hnot : ¬ env.record.encodes = true := fun henc => h (hencodes.mp henc)
      refine ⟨if_neg hnot, Bool.eq_false_iff.mpr fun hverify => ?_⟩
      exact hnot (encodes_of_verifySignature hverify)
  · intro b b' env env' haccepted haccepted'
    have hwf := wellFormed_of_decodeEnvelope haccepted
    have hwf' := wellFormed_of_decodeEnvelope haccepted'
    refine ⟨?_, fun hsame => ⟨hsame.recordHash_eq, hsame.verifySignature_eq⟩⟩
    constructor
    · rintro ⟨x, hx, hx'⟩
      obtain ⟨henc, hbytes⟩ := marshal_eq_some_iff.mp hx
      have heq : env.bytes = env'.bytes := hbytes.trans (marshal_eq_some_iff.mp hx').2.symm
      exact ⟨(bytes_eq_iff_sameContent hwf hwf').mp heq, (encodes_iff_claimEmbeds haccepted).mp henc⟩
    · rintro ⟨hsame, hembeds⟩
      have hx := marshal_eq_some_iff.mpr ⟨(encodes_iff_claimEmbeds haccepted).mpr hembeds, rfl⟩
      exact ⟨env.bytes, hx, hsame.marshal_eq.symm.trans hx⟩

/-- An envelope whose record carries these bytes as its claim. -/
def envelopeClaiming (claim : Bytes) : SignedEnvelope :=
  { record :=
      { version := 1, name := [1, 1, 0x61, 0], owner := List.replicate 32 7, sequence := 1,
        created := 10, expires := 20, rrset := [], delegation := none, prevHash := none,
        recovery := none, claim, revoke := none },
    sig := List.replicate 64 0, signer := List.replicate 32 7 }

/-- An array of definite length, empty: the bytes re-encode. -/
theorem definite_claim_recodes :
    decodeEnvelope (unmarshalEnvelope Cbor.lenientReader) (envelopeClaiming [0x80]).bytes
        = .ok (envelopeClaiming [0x80]) ∧
      Recodes Toy.primitives Cbor.lenientReader (envelopeClaiming [0x80]) := by
  have haccepted : decodeEnvelope (unmarshalEnvelope Cbor.lenientReader)
      (envelopeClaiming [0x80]).bytes = .ok (envelopeClaiming [0x80]) := by decide +kernel
  have hraw : rawField Cbor.lenientReader (envelopeClaiming [0x80]).bytes 11 = some [0x80] := by
    decide +kernel
  refine ⟨haccepted, ((envelope_codec Toy.primitives Cbor.lenientReader).2.1 _ _ haccepted).1.mpr ?_⟩
  intro v hv _
  rw [hraw, Option.mem_some_iff] at hv
  rw [← hv]
  decide +kernel

/-- **Accepted, and without an encoding**: the claim `9f ff`, an empty array of indefinite
length. -/
theorem indefinite_claim_not_encoded :
    decodeEnvelope (unmarshalEnvelope Cbor.lenientReader) (envelopeClaiming [0x9f, 0xff]).bytes
        = .ok (envelopeClaiming [0x9f, 0xff]) ∧
      rawField Cbor.lenientReader (envelopeClaiming [0x9f, 0xff]).bytes 11 = some [0x9f, 0xff] ∧
      (envelopeClaiming [0x9f, 0xff]).marshal = none ∧
      ∀ P, ¬ Recodes P Cbor.lenientReader (envelopeClaiming [0x9f, 0xff]) := by
  have hnone : (envelopeClaiming [0x9f, 0xff]).marshal = none := by decide +kernel
  refine ⟨by decide +kernel, by decide +kernel, hnone, ?_⟩
  rintro P ⟨x, _, hx, _⟩
  rw [hnone] at hx
  cases hx

end Freens.Wire
