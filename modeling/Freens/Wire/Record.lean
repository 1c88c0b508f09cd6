/-
**RECORDS AND ENVELOPES** (`wire/wire.go`): the canonical bytes, the record hash,
structural and signature checks, the §6.4 winner rule and the §8.3 chain link.

Encoding fails on a raw claim that the CBOR library does not embed
(`Record.encodes`); such an envelope has no bytes, no hash and no valid signature.
`canonicalBytes`, `bytes` and `recordHash` are the values where there are any. The
serialisation caches and the signature memo (`Freens.Crypto.VerifyMemo`) are
transparent and left out.
-/
import Freens.Library.CborReader
import Freens.Naming

namespace Freens.Wire

open Library

/-! ## Canonical CBOR -/

/-- `RR.MarshalCBOR`: the §4.3 array `[type, ttl, rdata]`. -/
def RR.marshal (rr : RR) : Bytes :=
  Cbor.array [Cbor.uint rr.type, Cbor.uint rr.ttl, Cbor.bstr rr.rdata]

/-- The canonical encoding of a policy. -/
def RecoveryPolicyWire.marshal (p : RecoveryPolicyWire) : Bytes :=
  Cbor.map [(1, Cbor.uint p.threshold), (2, Cbor.array (p.keys.map Cbor.bstr)),
    (3, Cbor.uint p.timelock)]

/-- Field 9 as the code measures it: nil has length zero. -/
def Record.prevHashBytes (r : Record) : Bytes := r.prevHash.getD []

/-- Field 8 likewise. -/
def Record.delegationBytes (r : Record) : Bytes := r.delegation.getD []

/-- `len(r.PrevHash) > 0`: the record asserts a predecessor. -/
def Record.hasPrevHash (r : Record) : Bool := 0 < r.prevHashBytes.length

/-- Fields 1-7 always, 8-11 when present, 12 only when it is true. -/
def Record.fields (r : Record) : List (UInt64 × Bytes) :=
  -- an absent optional field is left out, never encoded as null
  [(1, Cbor.uint r.version), (2, Cbor.bstr r.name), (3, Cbor.bstr r.owner),
   (4, Cbor.uint r.sequence), (5, Cbor.uint r.created), (6, Cbor.uint r.expires),
   (7, Cbor.array (r.rrset.map RR.marshal))]
  ++ (if 0 < r.delegationBytes.length then [(8, Cbor.bstr r.delegationBytes)] else [])
  ++ (if r.hasPrevHash then [(9, Cbor.bstr r.prevHashBytes)] else [])
  ++ (r.recovery.map (fun p => (10, p.marshal))).toList
  ++ (if 0 < r.claim.length then [(11, r.claim)] else [])
  ++ (if r.revoke = some true then [(12, Cbor.simpleTrue)] else [])

/-- The bytes of `Record.MarshalCBOR`, where it writes any. -/
def Record.canonicalBytes (r : Record) : Bytes := Cbor.map r.fields

/-- The record is embedded, not wrapped. -/
def SignedEnvelope.bytes (e : SignedEnvelope) : Bytes :=
  Cbor.map [(1, e.record.canonicalBytes), (2, Cbor.bstr e.sig), (3, Cbor.bstr e.signer)]

/-- The encoder takes the record: it embeds the raw claim, if there is one. -/
def Record.encodes (r : Record) : Bool := if 0 < r.claim.length then Cbor.embeds r.claim else true

/-- `CanonicalBytes`; `none` is the encoder's error. -/
def Record.marshal (r : Record) : Option Bytes :=
  if r.encodes then some r.canonicalBytes else none

/-- `SignedEnvelope.Bytes`; `none` is the encoder's error. -/
def SignedEnvelope.marshal (e : SignedEnvelope) : Option Bytes :=
  if e.record.encodes then some e.bytes else none

/-! ## Structural validity (§4.1, §4.4 rule 1) -/

/-- The errors of `Record.Validate`, with the arguments of their messages. -/
inductive RecordError where
  /-- "version must be 1, got %d" -/
  | version (got : UInt64)
  /-- "name (field 2) must be a non-empty byte string" -/
  | name
  /-- "owner (field 3) must be 32 bytes, got %d" -/
  | owner (got : Nat)
  /-- "sequence (field 4) must be a uint >= 1" -/
  | sequence
  /-- "created (field 5) must be <= expires (field 6)" -/
  | created
  /-- "rrset (field 7) exceeds 64 RRs" -/
  | rrset
  /-- "delegation (field 8) must be 32 bytes or nil" -/
  | delegation
  /-- "prev_hash (field 9) must be 32 bytes or nil" -/
  | prevHash
  deriving DecidableEq, Repr

/-- `Validate`: the checks of a record in order. -/
def Record.validate (r : Record) : Except RecordError Unit :=
  if r.version ≠ Constants.protoVersion then .error (.version r.version)
  else if r.name.length = 0 then .error .name
  else if r.owner.length ≠ Constants.ed25519PublicKeyLen then .error (.owner r.owner.length)
  else if r.sequence < 1 then .error .sequence
  -- equal times are allowed, although such a record is never valid
  else if r.created > r.expires then .error .created
  else if r.rrset.length > Constants.maxRRsPerRecord then .error .rrset
  else if r.delegation.any (·.length ≠ Constants.ed25519PublicKeyLen) then .error .delegation
  else if r.prevHash.any (·.length ≠ Constants.sha256Len) then .error .prevHash
  else .ok ()

/-- The required fields, validated, the optional ones absent. -/
def newRecord (name owner : Bytes) (sequence created expires : UInt64) :
    Except RecordError Record := do
  let r : Record :=
    { version := Constants.protoVersion, name, owner, sequence, created, expires, rrset := [],
      delegation := none, prevHash := none, recovery := none, claim := [], revoke := none }
  r.validate
  return r

/-! ## Hashes, signatures and the rules that compare envelopes -/

/-- `IsRevoked` (§8.5). -/
def SignedEnvelope.isRevoked (e : SignedEnvelope) : Bool := e.record.revoke = some true

section
variable (P : Primitives)

/-- `H_record`, SHA-256 of the envelope (§4.2), where it has bytes; hashes are compared of
verified ones, which have. -/
def SignedEnvelope.recordHash (e : SignedEnvelope) : Bytes := P.sha256 e.bytes

/-- `VerifySignature`: false also when the record does not encode. -/
def SignedEnvelope.verifySignature (e : SignedEnvelope) : Bool :=
  if e.sig.length ≠ Constants.ed25519SignatureLen then false
  else if e.signer.length ≠ Constants.ed25519PublicKeyLen then false
  else match e.record.marshal with
    | none => false
    | some canonical => Crypto.verify P e.signer e.sig canonical

/-- The record under a signature of the key over its canonical bytes. -/
def signedWith (r : Record) (kp : Crypto.Keypair) : SignedEnvelope :=
  { record := r, sig := kp.sign P r.canonicalBytes, signer := kp.publicKey P }

/-- `SignRecord`; `none` is the encoder's error. -/
def signRecord (r : Record) (kp : Crypto.Keypair) : Option SignedEnvelope :=
  r.marshal.map fun canonical =>
    { record := r, sig := kp.sign P canonical, signer := kp.publicKey P }

/-- `EnvelopeWins` (§6.4): greater sequence, then bytewise greater `H_record`. -/
def envelopeWins (newer older : SignedEnvelope) : Bool :=
  if newer.record.sequence > older.record.sequence then true
  -- a tie is broken by the hash, so that all nodes agree
  else if newer.record.sequence = older.record.sequence then
    decide (older.recordHash P < newer.recordHash P)
  else false

/-- `IsBasicValid` (§4.4 rules 1, 2, 4 in part, 5). -/
def isBasicValid (e : SignedEnvelope) (now : UInt64) : Bool :=
  if e.record.version ≠ Constants.protoVersion then false
  else if e.record.validate ≠ .ok () then false
  else if !e.verifySignature P then false
  else if e.record.sequence < 1 then false
  -- from created on, up to and without expires
  else if e.record.created > now ∨ now ≥ e.record.expires then false
  else true

/-- `VerifyChainLink` (§4.4 rule 4, §8.3). -/
def verifyChainLink (newer : SignedEnvelope) (older : Option SignedEnvelope) : Bool :=
  if newer.record.prevHashBytes.length = 0 then
    match older with
    | none => newer.record.sequence = 1
    | some older => newer.record.sequence > older.record.sequence
  else
    match older with
    | none => false
    | some older =>
      newer.record.prevHashBytes = older.recordHash P
        ∧ newer.record.sequence > older.record.sequence

end

/-! ## What each rule says -/

variable {P : Primitives}

@[simp] theorem recordHash_length (e : SignedEnvelope) : (e.recordHash P).length = 32 :=
  P.sha256_length _

variable {r : Record} {e : SignedEnvelope}

theorem hasPrevHash_eq_false : r.hasPrevHash = false ↔ r.prevHashBytes = [] := by
  simp [Record.hasPrevHash]

theorem hasPrevHash_of_eq_recordHash
    (h : r.prevHashBytes = e.recordHash P) : r.hasPrevHash = true := by
  simp [Record.hasPrevHash, h]

/-- Everything `Record.Validate` checks. -/
structure Record.Valid (r : Record) : Prop where
  version : r.version = 1
  name : r.name ≠ []
  owner : r.owner.length = 32
  sequence : 1 ≤ r.sequence
  created : r.created ≤ r.expires
  rrset : r.rrset.length ≤ 64
  delegation : ∀ d ∈ r.delegation, d.length = 32
  prevHash : ∀ h ∈ r.prevHash, h.length = 32

theorem validate_eq_ok_iff : r.validate = .ok () ↔ r.Valid := by
  simp only [Record.validate, guard_eq_ok, and_true, ne_eq, not_not, UInt64.not_lt,
    Nat.not_lt, gt_iff_lt, List.length_eq_zero_iff, Option.any_eq_true, decide_not,
    Bool.not_eq_true', decide_eq_false_iff_not, not_exists, not_and]
  constructor
  · intro h
    obtain ⟨h1, h2, h3, h4, h5, h6, h7, h8⟩ := h
    exact ⟨h1, h2, h3, h4, h5, h6, h7, h8⟩
  · intro h
    exact ⟨h.version, h.name, h.owner, h.sequence, h.created, h.rrset, h.delegation, h.prevHash⟩

theorem newRecord_eq_ok_iff {name owner : Bytes} {sequence created expires : UInt64} :
    newRecord name owner sequence created expires = .ok r ↔
      r.Valid ∧ r = Record.mk 1 name owner sequence created expires [] none none none [] none := by
  simp only [newRecord, bind_eq_ok, pure_eq_ok]
  constructor
  · intro h
    obtain ⟨_, hvalid, hr⟩ := h
    subst hr
    exact ⟨validate_eq_ok_iff.mp hvalid, rfl⟩
  · intro h
    obtain ⟨hvalid, hr⟩ := h
    subst hr
    exact ⟨(), validate_eq_ok_iff.mpr hvalid, rfl⟩

variable {n : UInt64} {a b : SignedEnvelope}

theorem sequence_succ (h : 1 ≤ n + 1) : (n + 1).toNat = n.toNat + 1 := by
  have hlt := n.toNat_lt
  have hle := UInt64.le_iff_toNat_le.mp h
  rw [UInt64.toNat_add] at hle ⊢
  have hone : (1 : UInt64).toNat = 1 := rfl
  rw [hone] at hle ⊢
  omega

theorem one_le_succ (h : n.toNat + 1 < 2 ^ 64) : 1 ≤ n + 1 := by
  have hone : (1 : UInt64).toNat = 1 := rfl
  rw [UInt64.le_iff_toNat_le, UInt64.toNat_add, hone]
  omega

theorem verifySignature_iff :
    e.verifySignature P = true ↔ e.sig.length = 64 ∧ e.signer.length = 32 ∧
      e.record.encodes = true ∧
      P.ed25519Verify e.signer e.sig e.record.canonicalBytes = true := by
  unfold SignedEnvelope.verifySignature Crypto.verify Record.marshal
  cases e.record.encodes with
  | false => simp
  | true => grind

theorem encodes_of_verifySignature (h : e.verifySignature P = true) : e.record.encodes = true :=
  (verifySignature_iff.mp h).2.2.1

/-- Only the claim decides. -/
theorem encodes_congr {r' : Record} (h : r.claim = r'.claim) : r.encodes = r'.encodes := by
  rw [Record.encodes, Record.encodes, h]

theorem signRecord_eq_some_iff {kp : Crypto.Keypair} :
    signRecord P r kp = some e ↔ r.encodes = true ∧ signedWith P r kp = e := by
  unfold signRecord Record.marshal
  cases r.encodes with
  | false => simp
  | true => simp [signedWith]

theorem signRecord_eq_none_iff {kp : Crypto.Keypair} :
    signRecord P r kp = none ↔ r.encodes = false := by
  unfold signRecord Record.marshal
  cases r.encodes with
  | false | true => simp

theorem verifySignature_signedWith {kp : Crypto.Keypair} (h : r.encodes = true) :
    (signedWith P r kp).verifySignature P = true := by
  rw [verifySignature_iff]
  exact ⟨P.sign_length _ _, P.public_length _, h, P.verify_sign _ _⟩

/-- A record that encodes is signed, and passes the check of its own signature. -/
theorem signed_of_encodes {ε : Type} {unencoded unverified : ε} {kp : Crypto.Keypair}
    (h : r.encodes = true) :
    (match signRecord P r kp with
      | none => .error unencoded
      | some env => if !env.verifySignature P then .error unverified else .ok env)
      = (.ok (signedWith P r kp) : Except ε SignedEnvelope) := by
  rw [signRecord_eq_some_iff.mpr ⟨h, rfl⟩]
  simp only [verifySignature_signedWith h, Bool.not_true, Bool.false_eq_true, if_false]

theorem verifySignature_signRecord {kp : Crypto.Keypair} (h : signRecord P r kp = some e) :
    e.verifySignature P = true := by
  obtain ⟨hencodes, rfl⟩ := signRecord_eq_some_iff.mp h
  exact verifySignature_signedWith hencodes

/-- `newer` is strictly greater in the lexicographic order on
(sequence, H_record). -/
def Outranks (P : Primitives) (newer older : SignedEnvelope) : Prop :=
  older.record.sequence < newer.record.sequence ∨
    (older.record.sequence = newer.record.sequence ∧ older.recordHash P < newer.recordHash P)

theorem envelopeWins_iff {newer older : SignedEnvelope} :
    envelopeWins P newer older = true ↔ Outranks P newer older := by
  unfold envelopeWins Outranks
  split
  next h => simp [gt_iff_lt.mp h]
  next h =>
    split
    next heq => simp [heq, gt_iff_lt] at h ⊢
    next hne => simp [gt_iff_lt] at h ⊢; grind

theorem envelopeWins_irrefl (e : SignedEnvelope) : envelopeWins P e e = false := by
  rw [Bool.eq_false_iff, ne_eq, envelopeWins_iff, Outranks]
  grind

theorem envelopeWins_trans {c : SignedEnvelope} (hab : envelopeWins P a b = true)
    (hbc : envelopeWins P b c = true) : envelopeWins P a c = true := by
  rw [envelopeWins_iff, Outranks] at *
  grind

theorem envelopeWins_asymm (hab : envelopeWins P a b = true) : envelopeWins P b a = false := by
  rw [Bool.eq_false_iff, ne_eq, envelopeWins_iff, Outranks]
  rw [envelopeWins_iff, Outranks] at hab
  grind

theorem isBasicValid_iff {now : UInt64} :
    isBasicValid P e now = true ↔ e.record.Valid ∧ e.verifySignature P = true ∧
      e.record.created ≤ now ∧ now < e.record.expires := by
  rw [← validate_eq_ok_iff]
  constructor
  · intro h
    unfold isBasicValid at h
    grind
  · intro h
    obtain ⟨hvalid, hsig, hcreated, hexpires⟩ := h
    have hv := validate_eq_ok_iff.mp hvalid
    have hversion := hv.version
    have hseq := hv.sequence
    unfold isBasicValid
    grind

theorem verifyChainLink_some_iff {newer older : SignedEnvelope} :
    verifyChainLink P newer (some older) = true ↔
      (newer.record.hasPrevHash = true → newer.record.prevHashBytes = older.recordHash P) ∧
        older.record.sequence < newer.record.sequence := by
  unfold verifyChainLink Record.hasPrevHash
  split
  next h => simp [h]
  next h => simp [Nat.pos_of_ne_zero h]

end Freens.Wire
