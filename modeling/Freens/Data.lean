/-
**THE DATA MODEL** (`wire/wire.go`, `wire/recovery.go`, `claims/claims.go`), and
the primitives the program takes from outside its own source.

A Go byte slice whose nil-ness the code tells apart from emptiness is an
`Option Bytes`; a pointer that may be nil is an `Option`.
-/
import Freens.Library.Cbor
import Freens.Library.MachineInt

namespace Freens

open Library

/-! ## Protocol constants (`constants`) -/

namespace Constants

abbrev protoVersion : UInt64 := 1
abbrev maxLabels : Nat := 8
abbrev maxLabelLen : Nat := 63
abbrev recordDefaultTTL : Int := 86400
abbrev recordMaxTTL : UInt64 := 2592000
abbrev expiryGrace : Int := 86400
abbrev maxRRsPerRecord : Nat := 64
abbrev responseTTLCap : Int := 3600
abbrev nodeStorageMax : Nat := 256 * 1024 * 1024
abbrev ed25519PublicKeyLen : Nat := 32
abbrev ed25519SignatureLen : Nat := 64
abbrev sha256Len : Nat := 32
abbrev wireNameLabelMarker : UInt8 := 0x01
abbrev wireNameTerminator : UInt8 := 0x00
abbrev dhtKeyPrefixName : UInt8 := 0x02
abbrev dhtKeyPrefixClaim : UInt8 := 0x03
/-- `W`, the witness quorum. -/
abbrev w : Nat := 5
abbrev witnessSet : Nat := 8
abbrev witnessCooldown : Int := 3600
abbrev witnessPresentWindow : Int := 300
abbrev powDifficultyInit : Nat := 24
abbrev skewTolerance : Int := 60
abbrev contestWindow : Int := 172800
abbrev aliasReuseDelay : Int := 2592000
abbrev reAttestHold : Int := 86400
abbrev reAttestFresh : Int := contestWindow

end Constants

/-! ## Records and envelopes (`wire`) -/

namespace Wire

/-- A resource record (§4.3): `[type, ttl, rdata]`. -/
structure RR where
  type : UInt64
  ttl : UInt64
  rdata : Bytes
  deriving DecidableEq, Repr

/-- The §5.4 recovery policy carried in field 10. -/
structure RecoveryPolicyWire where
  threshold : UInt64
  keys : List Bytes
  timelock : UInt64
  deriving DecidableEq, Repr

/-- A freens record (§4.1), fields 1-12. -/
structure Record where
  version : UInt64
  name : Bytes
  owner : Bytes
  sequence : UInt64
  created : UInt64
  expires : UInt64
  rrset : List RR
  delegation : Option Bytes
  prevHash : Option Bytes
  recovery : Option RecoveryPolicyWire
  /-- Canonical CBOR of the embedded alias claim; empty when absent. -/
  claim : Bytes
  revoke : Option Bool
  deriving DecidableEq, Repr

/-- §4.1 `SignedEnvelope = { 1: record, 2: sig, 3: signer }`. -/
structure SignedEnvelope where
  record : Record
  sig : Bytes
  signer : Bytes
  deriving DecidableEq, Repr

/-- The §8.4 recovery declaration that travels outside the record. -/
structure RecoveryEvidence where
  newOwnerPK : Bytes
  signatures : List Bytes
  notBefore : UInt64
  deriving DecidableEq, Repr

end Wire

namespace Claims

/-- A witness's co-signature on a claim (§7.3). -/
structure WitnessAttestation where
  nodeID : Bytes
  nodePK : Bytes
  ts : UInt64
  sig : Bytes
  deriving DecidableEq, Repr

/-- An alias claim (§7.3). A CBOR null as witness is a nil pointer, hence the `Option`. -/
structure AliasClaim where
  aliasName : Bytes
  tldID : Bytes
  timestamp : UInt64
  nonce : Bytes
  claimantPK : Bytes
  powHash : Bytes
  witnesses : List (Option WitnessAttestation)
  deriving DecidableEq, Repr

end Claims

/-! ## What the program takes from outside -/

/-- **The external primitives**: hashing and signatures, the CBOR decoder, the owner CA and
the host-name test. No hash is assumed injective, no signature unforgeable. -/
structure Primitives where
  sha256 : Bytes → Bytes
  sha256_length : ∀ b, (sha256 b).length = Constants.sha256Len
  /-- The public key of a seed (`ed25519.NewKeyFromSeed`). -/
  ed25519Public : Bytes → Bytes
  ed25519Sign : Bytes → Bytes → Bytes
  /-- `ed25519Verify publicKey signature message`. -/
  ed25519Verify : Bytes → Bytes → Bytes → Bool
  public_length : ∀ seed, (ed25519Public seed).length = Constants.ed25519PublicKeyLen
  sign_length : ∀ seed msg, (ed25519Sign seed msg).length = Constants.ed25519SignatureLen
  verify_sign : ∀ seed msg,
    ed25519Verify (ed25519Public seed) (ed25519Sign seed msg) msg = true
  /-- `cbor.Unmarshal` of an evidence map: `none` when the data is no map, a
  key of 1-3 is missing or a value has another type. -/
  unmarshalEvidence : Bytes → Option Wire.RecoveryEvidence
  /-- The library decodes what the deterministic encoder wrote. -/
  unmarshalEvidence_marshal : ∀ ev : Wire.RecoveryEvidence, ev.newOwnerPK.length = 32 →
    (∀ s ∈ ev.signatures, s.length = 64) → unmarshalEvidence (Cbor.map [(1, Cbor.bstr ev.newOwnerPK),
      (2, Cbor.array (ev.signatures.map Cbor.bstr)), (3, Cbor.uint ev.notBefore)]) = some ev
  /-- `cbor.Unmarshal` into an `AliasClaim`. -/
  unmarshalClaim : Bytes → Option Claims.AliasClaim
  /-- Empty input is an unexpected end of data. -/
  unmarshalClaim_nil : unmarshalClaim [] = none
  /-- `tlsca.OwnerCA` followed by `tlsca.ParseCertDER`: the DER of the CA
  derived from a seed for an alias at a time, when both succeed. -/
  ownerCA : Bytes → Bytes → Int → Option Bytes
  /-- `tlsca.ParseCertDER` followed by `tlsca.SameCA existing fresh now`. -/
  sameCA : Bytes → Bytes → Int → Bool
  /-- `strings.ToLower` on a string with a non-ASCII byte. -/
  toLowerUnicode : Bytes → Bytes
  /-- `naming.IDNANormalizer`: nil unless `EnableIDNA` was called. -/
  idnaNormalizer : Option (Bytes → Option Bytes)
  /-- `dns.IsDomainName` on the bytes of a host name. -/
  isDomainName : Bytes → Bool

namespace Crypto

variable (P : Primitives)

/-- An Ed25519 keypair, reconstructed from its 32-byte seed. -/
structure Keypair where
  seed : Bytes
  deriving DecidableEq, Repr

/-- The public half of a keypair. -/
def Keypair.publicKey (kp : Keypair) : Bytes := P.ed25519Public kp.seed

/-- A message signed with the keypair. -/
def Keypair.sign (kp : Keypair) (msg : Bytes) : Bytes := P.ed25519Sign kp.seed msg

/-- A wrong key or signature length is simply invalid. -/
def verify (publicKey signature message : Bytes) : Bool :=
  if publicKey.length ≠ Constants.ed25519PublicKeyLen
      ∨ signature.length ≠ Constants.ed25519SignatureLen then false
  else P.ed25519Verify publicKey signature message

/-- `TLDID`: the hash of a public key of the right length. -/
def tldID (publicKey : Bytes) : Option Bytes :=
  if publicKey.length ≠ Constants.ed25519PublicKeyLen then none
  else some (P.sha256 publicKey)

@[simp] theorem Keypair.publicKey_length (kp : Keypair) : (kp.publicKey P).length = 32 :=
  P.public_length kp.seed

@[simp] theorem Keypair.sign_length (kp : Keypair) (msg : Bytes) :
    (kp.sign P msg).length = 64 := P.sign_length kp.seed msg

@[simp] theorem verify_sign (kp : Keypair) (msg : Bytes) :
    verify P (kp.publicKey P) (kp.sign P msg) msg = true := by
  have hv := P.verify_sign kp.seed msg
  simp only [verify, Keypair.publicKey_length, Keypair.sign_length, Constants.ed25519PublicKeyLen,
    Constants.ed25519SignatureLen, ne_eq, not_true_eq_false, or_self, if_false]
  exact hv

theorem length_of_verify {pk sig msg : Bytes} (h : verify P pk sig msg = true) :
    pk.length = 32 := by
  unfold verify at h
  split at h
  next => cases h
  next hlen =>
    rw [not_or, not_not, not_not] at hlen
    exact hlen.1

end Crypto

end Freens
