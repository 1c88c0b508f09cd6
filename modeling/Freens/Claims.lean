/-
**ALIAS CLAIMS** (`claims/claims.go`, §7.3): decoding a claim and
its structural constraints.
-/
import Freens.Naming

namespace Freens.Claims

open Library Naming

abbrev maxNonceLen : Nat := 128

abbrev nodeIDLen : Nat := 32

/-- Why a claim is refused. -/
inductive ClaimError where
  /-- "decode AliasClaim: …" -/
  | cbor
  | aliasName (e : NamingError)
  /-- "tld_id must be 32 bytes, got %d" -/
  | tldID (got : Nat)
  /-- "claimant_pk must be 32 bytes, got %d" -/
  | claimantPK (got : Nat)
  /-- "pow_hash must be 32 bytes, got %d" -/
  | powHash (got : Nat)
  /-- "nonce must be <=128 bytes, got %d" -/
  | nonce (got : Nat)
  /-- "node_id must be 32 bytes, got %d" -/
  | nodeID (got : Nat)
  /-- "node_pk must be 32 bytes, got %d" -/
  | nodePK (got : Nat)
  /-- "sig must be 64 bytes, got %d" -/
  | sig (got : Nat)
  /-- No error value: the method call on a nil witness panics. -/
  | nilWitness
  deriving DecidableEq, Repr

/-- `validate`: the three lengths. -/
def WitnessAttestation.validate (w : WitnessAttestation) : Except ClaimError Unit :=
  if w.nodeID.length ≠ nodeIDLen then .error (.nodeID w.nodeID.length)
  else if w.nodePK.length ≠ Constants.ed25519PublicKeyLen then .error (.nodePK w.nodePK.length)
  else if w.sig.length ≠ Constants.ed25519SignatureLen then .error (.sig w.sig.length)
  else .ok ()

section
variable (P : Primitives)

/-- `ValidateAlias` with its error wrapped. -/
def normalizedAlias (s : Bytes) : Except ClaimError Bytes :=
  match validateAlias P s with
  | .error e => .error (.aliasName e)
  | .ok a => .ok a

/-- `Validate`: the alias, the lengths and each witness. -/
def AliasClaim.validate (c : AliasClaim) : Except ClaimError Unit := do
  let _ ← normalizedAlias P c.aliasName
  if c.tldID.length ≠ Constants.sha256Len then .error (.tldID c.tldID.length)
  else if c.claimantPK.length ≠ Constants.ed25519PublicKeyLen then
    .error (.claimantPK c.claimantPK.length)
  else if c.powHash.length ≠ Constants.sha256Len then .error (.powHash c.powHash.length)
  else if c.nonce.length > maxNonceLen then .error (.nonce c.nonce.length)
  else c.witnesses.forM (fun w =>
    match w with
    | none => .error .nilWitness
    | some w => w.validate)

/-- `DecodeAliasClaim`: decoded, normalised and validated. -/
def decodeAliasClaim (data : Bytes) : Except ClaimError AliasClaim := do
  let c ← match P.unmarshalClaim data with
    | none => .error .cbor
    | some c => .ok c
  let a ← normalizedAlias P c.aliasName
  let c := { c with aliasName := a }
  c.validate P
  return c

end

theorem decodeAliasClaim_nil (P : Primitives) : decodeAliasClaim P [] = .error .cbor := by
  unfold decodeAliasClaim
  rw [P.unmarshalClaim_nil]
  rfl

end Freens.Claims
