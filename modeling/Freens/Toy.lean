/-
**A SMALL INSTANCE OF THE PRIMITIVES**, so that the program can be run on concrete
inputs: a polynomial checksum for SHA-256, signatures that are checksums of key
and message, and CBOR readers for evidence and claims.
-/
import Freens.Claims.Verification
import Freens.Dht.Keys

namespace Freens.Toy

open Library Library.Cbor

/-- A 32-byte checksum in place of SHA-256. -/
def checksum (b : Bytes) : Bytes :=
  bigEndian 32 (b.foldl (fun acc x => (acc * 0x100000001b3 + x.toNat + 1) % 2 ^ 256) 0xcbf29ce4)

theorem checksum_length (b : Bytes) : (checksum b).length = 32 := bigEndian_length 32 _

/-- The signature of a message under a key. -/
def tag (pk msg : Bytes) : Bytes := checksum (pk ++ msg) ++ checksum (msg ++ pk)

/-- Recovery evidence read back from its encoding. -/
def unmarshalEvidence (b : Bytes) : Option Wire.RecoveryEvidence := do
  let (m, n, b) ← readHead b
  let (k₁, b) ← readUint b
  let (newOwnerPK, b) ← readSized 2 b
  let (k₂, b) ← readUint b
  let (m', count, b) ← readHead b
  let (signatures, b) := readBstrs b.length b
  let (k₃, b) ← readUint b
  let (notBefore, b) ← readUint b
  if (m, n, m') = (5, 3, 4) ∧ (k₁, k₂, k₃) = (1, 2, 3) ∧ count = signatures.length % 2 ^ 64
      ∧ b = [] then
    some { newOwnerPK, signatures, notBefore }
  else none

/-- One attestation read from the front. -/
def readAttestation (b : Bytes) : Option (Claims.WitnessAttestation × Bytes) := do
  let (m, n, b) ← readHead b
  let (k₁, b) ← readUint b
  let (nodeID, b) ← readSized 2 b
  let (k₂, b) ← readUint b
  let (nodePK, b) ← readSized 2 b
  let (k₃, b) ← readUint b
  let (ts, b) ← readUint b
  let (k₄, b) ← readUint b
  let (sig, b) ← readSized 2 b
  if (m, n) = (5, 4) ∧ [k₁, k₂, k₃, k₄] = [1, 2, 3, 4] then some ({ nodeID, nodePK, ts, sig }, b)
  else none

/-- `n` attestations read from the front. -/
def readAttestations : Nat → Bytes → Option (List Claims.WitnessAttestation × Bytes)
  | 0, b => some ([], b)
  | n + 1, b => do
    let (w, b) ← readAttestation b
    let (ws, b) ← readAttestations n b
    some (w :: ws, b)

/-- A claim with its witnesses read back. -/
def unmarshalClaim (b : Bytes) : Option Claims.AliasClaim := do
  let (m, n, b) ← readHead b
  let (k₁, b) ← readUint b
  let (aliasName, b) ← readSized 3 b
  let (k₂, b) ← readUint b
  let (tldID, b) ← readSized 2 b
  let (k₃, b) ← readUint b
  let (timestamp, b) ← readUint b
  let (k₄, b) ← readUint b
  let (nonce, b) ← readSized 2 b
  let (k₅, b) ← readUint b
  let (claimantPK, b) ← readSized 2 b
  let (k₆, b) ← readUint b
  let (powHash, b) ← readSized 2 b
  let (k₇, b) ← readUint b
  let (m', count, b) ← readHead b
  let (witnesses, b) ← readAttestations count b
  if (m, n, m') = (5, 7, 4) ∧ [k₁, k₂, k₃, k₄, k₅, k₆, k₇] = [1, 2, 3, 4, 5, 6, 7] ∧ b = [] then
    some { aliasName, tldID, timestamp, nonce, claimantPK, powHash, witnesses := witnesses.map some }
  else none

theorem length_le_flatten_bstr (items : List Bytes) :
    items.length ≤ (items.map bstr).flatten.length := by
  have hpos : ∀ x : Bytes, 1 ≤ (bstr x).length := by
    intro x
    unfold bstr head
    split
    · simp
    split
    · simp
    split
    · simp
    · split <;> simp
  induction items with
  | nil => simp
  | cons x items ih =>
    have := hpos x
    simp only [List.map_cons, List.flatten_cons, List.length_append, List.length_cons]
    omega

theorem unmarshalEvidence_marshal (ev : Wire.RecoveryEvidence) (hpk : ev.newOwnerPK.length = 32)
    (hsigs : ∀ s ∈ ev.signatures, s.length = 64) :
    unmarshalEvidence (Cbor.map [(1, bstr ev.newOwnerPK),
      (2, array (ev.signatures.map bstr)), (3, uint ev.notBefore)]) = some ev := by
  obtain ⟨pk, sigs, notBefore⟩ := ev
  replace hpk : pk.length = 32 := hpk
  replace hsigs : ∀ s ∈ sigs, s.length = 64 := hsigs
  have hshort : ∀ x ∈ sigs, x.length < 2 ^ 64 := by
    intro x hx
    rw [hsigs x hx]
    norm_num
  -- the array is followed by the key 3, which is no byte string
  have hend : readSized 2 (uint 3 ++ uint notBefore) = none := by
    rw [readSized, uint, readHead_head (by decide)]
    rfl
  have hrest : 0 < (uint 3 ++ uint notBefore).length := by
    rw [List.length_append]
    have : (uint 3).length = 1 := rfl
    omega
  have hrun := @readBstrs_flatten sigs ((sigs.map bstr).flatten ++ (uint 3 ++ uint notBefore)).length
    (uint 3 ++ uint notBefore)
    hshort hend (by have := length_le_flatten_bstr sigs; rw [List.length_append]; omega)
  have hnil : readUint (uint notBefore) = some (notBefore, []) := by
    have := readUint_uint notBefore []
    rwa [List.append_nil] at this
  simp only [Cbor.map, array, List.map_cons, List.map_nil, List.flatten_cons, List.flatten_nil,
    List.append_nil, List.append_assoc, unmarshalEvidence]
  simp only [readHead_head (show 5 < 8 by decide), readHead_head (show 4 < 8 by decide),
    readUint_uint, readSized_bstr (show pk.length < 2 ^ 64 by omega), hrun, hnil,
    Option.bind_eq_bind, Option.bind_some, List.length_map]
  simp

/-- Computable primitives that meet every law. -/
def primitives : Primitives where
  sha256 := checksum
  sha256_length := checksum_length
  ed25519Public := checksum
  ed25519Sign seed msg := tag (checksum seed) msg
  ed25519Verify pk sig msg := sig = tag pk msg
  public_length := checksum_length
  sign_length seed msg := by
    rw [tag, List.length_append, checksum_length, checksum_length]
  verify_sign seed msg := decide_eq_true rfl
  unmarshalEvidence := unmarshalEvidence
  unmarshalEvidence_marshal := unmarshalEvidence_marshal
  unmarshalClaim := unmarshalClaim
  unmarshalClaim_nil := rfl
  ownerCA _ _ _ := none
  sameCA _ _ _ := false
  toLowerUnicode s := s
  idnaNormalizer := none
  isDomainName _ := true

/-! Keys and records to run the program on. -/

/-- The keypair number `n`. -/
def keypair (n : UInt8) : Crypto.Keypair := ⟨[n]⟩

/-- Its public key. -/
def publicKey (n : UInt8) : Bytes := (keypair n).publicKey primitives

/-- The wire name of its TLD. -/
def tldName (n : UInt8) : Bytes := Naming.wireImage [] (checksum (publicKey n))

/-- A record of the TLD of key `origin`, owned by key `owner`, without any
optional field. -/
def tldRecord (origin owner : UInt8) (sequence created expires : UInt64) : Wire.Record :=
  { version := 1, name := tldName origin, owner := publicKey owner, sequence, created, expires,
    rrset := [], delegation := none, prevHash := none, recovery := none, claim := [],
    revoke := none }

/-- The encoded claim of TLD `n` on an alias. -/
def claim (n : UInt8) (aliasName : Bytes) : Bytes :=
  Cbor.map [(1, head 3 aliasName.length ++ aliasName), (2, bstr (checksum (publicKey n))),
    (3, uint 0), (4, bstr []), (5, bstr (publicKey n)), (6, bstr (checksum [])), (7, array [])]

/-- A record signed by keypair `signer`. -/
def signedBy (signer : UInt8) (r : Wire.Record) : Wire.SignedEnvelope :=
  Wire.signedWith primitives r (keypair signer)

/-! A second instance, whose hash starts with 24 zero bits: every nonce is a proof of work. -/

/-- The checksum behind 24 zero bits. -/
def minedChecksum (b : Bytes) : Bytes := [0, 0, 0] ++ (checksum b).drop 3

/-- Primitives under which every claim is mined. -/
def mined : Primitives :=
  { primitives with
    sha256 := minedChecksum
    sha256_length := by
      intro b
      rw [minedChecksum, List.length_append, List.length_drop, checksum_length]
      rfl }

/-- Key `n`'s claim of an alias at a time, attested then by the keys of
`witnesses`. -/
def minedClaim (n : UInt8) (aliasName : Bytes) (ts : UInt64) (witnesses : List UInt8) :
    Claims.AliasClaim :=
  let tldID := minedChecksum (publicKey n)
  let pre := Claims.buildPrefix aliasName tldID ts (publicKey n)
  { aliasName, tldID, timestamp := ts, nonce := [24], claimantPK := publicKey n,
    powHash := minedChecksum (pre ++ [24]),
    witnesses := witnesses.map (fun w =>
      Claims.newWitnessAttestation mined (keypair w) ts (minedChecksum pre)) }

/-- The claim's carrier: the TLD record of key `n`, signed by it. -/
def carrier (n : UInt8) (claim : Claims.AliasClaim) (created expires : UInt64) :
    Wire.SignedEnvelope :=
  Wire.signedWith mined
    { version := 1, name := Naming.wireImage [] claim.tldID, owner := publicKey n, sequence := 1,
      created, expires, rrset := [], delegation := none, prevHash := none, recovery := none,
      claim := claim.canonicalBytes, revoke := none }
    (keypair n)

/-- The alias `a`. -/
def aliasA : Bytes := [0x61]

/-- The claim key of `a`. -/
def keyA : Bytes := minedChecksum (Constants.dhtKeyPrefixClaim :: Naming.claimTag ++ aliasA)

theorem keyForClaim_aliasA : Dht.keyForClaim mined aliasA = .ok keyA := by decide +kernel

/-- Five witnesses. -/
def quorum : List UInt8 := [11, 12, 13, 14, 15]

end Freens.Toy
