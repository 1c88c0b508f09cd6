/-
**THE WITNESS** (`dht/transport.go`: `hWitness`, §7.3, §8.3).

A node co-signs an alias claim after it checked its identity, proof of work and
age and its own pool, and inside the cooldown only the same identity or the same
claimant again. The difficulty statistics are left out.
-/
import Freens.Dht.ClaimPool

namespace Freens.Dht

open Library Naming Wire Claims

/-! ## The node as a witness -/

/-- What was signed last for an alias. -/
structure WitnessSigned where
  prefixHash : Bytes
  claimant : Bytes
  signedAt : Int
  deriving DecidableEq, Repr

/-- A witness: its key, its last signatures, its pool. -/
structure WitnessNode where
  kp : Crypto.Keypair
  /-- By normalised alias. -/
  witnessLast : Table Bytes WitnessSigned
  pool : ClaimPool
  deriving DecidableEq

/-- The arguments of a witness RPC; an absent one is empty, a missing `ts` is `none`. -/
structure WitnessArgs where
  aliasName : Bytes
  tldID : Bytes
  claimant : Bytes
  prefixHash : Bytes
  nonce : Bytes
  powHash : Bytes
  ts : Option UInt64
  reattest : Bool
  deriving DecidableEq, Repr

/-- What the rest of the node answers. -/
structure WitnessGates where
  flagged : Bool
  allowRead : Bool
  /-- The table of public TLDs. -/
  reservedTLDs : Bytes → Bool
  allowReserved : Bool
  difficulty : UInt64

/-- The response; the attestation travels in its canonical encoding. -/
inductive WitnessReply where
  | attested (att : WitnessAttestation) (difficulty : UInt64)
  | error (code : Nat) (text : String)
  deriving DecidableEq, Repr

abbrev witnessLastPruneAt : Nat := 1024

/-- The cooldown (§7.3): another identity of another claimant, too soon. -/
def WitnessSigned.cools (last : WitnessSigned) (prefixHash claimant : Bytes) (now : Int) : Bool :=
  now - last.signedAt < Constants.witnessCooldown && last.prefixHash ≠ prefixHash
    && last.claimant ≠ claimant

/-- A large table is pruned of what the cooldown no longer covers. -/
def pruneSigned (last : Table Bytes WitnessSigned) (now : Int) : Table Bytes WitnessSigned :=
  if last.keys.length ≥ witnessLastPruneAt then
    last.reject (fun _ w => now - w.signedAt ≥ Constants.witnessCooldown)
  else last

/-- A signature recorded, old ones pruned. -/
def recordSigned (last : Table Bytes WitnessSigned) (aliasN : Bytes) (entry : WitnessSigned) :
    Table Bytes WitnessSigned :=
  pruneSigned (last.insert aliasN entry) entry.signedAt

/-! ## The handler -/

/-- A request that passed every check before the cooldown. -/
structure Presented where
  aliasN : Bytes
  want : Bytes
  /-- Whether the signature is kept as a re-attestation. -/
  reattest : Bool
  deriving DecidableEq, Repr

section
variable (P : Primitives)

/-- The claim a request presents. -/
def WitnessArgs.claim (m : WitnessArgs) (aliasN : Bytes) (ts : UInt64) : AliasClaim :=
  { aliasName := aliasN, tldID := m.tldID, timestamp := ts, nonce := m.nonce,
    claimantPK := m.claimant, powHash := m.powHash, witnesses := [] }

/-- The age gate: a claim past the present window is only re-attested. -/
def ageGate (p : ClaimPool) (m : WitnessArgs) (aliasN : Bytes) (ts nowU : UInt64) (now : Int) :
    Except (Nat × String) Bool :=
  if ts ≤ nowU ∧ nowU - ts > uint64 Constants.witnessPresentWindow then
    if !m.reattest then .error (305, "claim ts too old")
    else if reAttestRefusal P p aliasN m.prefixHash now ≠ "" then
      .error (305, "re-attest refused: " ++ reAttestRefusal P p aliasN m.prefixHash now)
    else .ok true
  -- a claim inside the window is signed as an ordinary one
  else .ok false

/-- The checks of `hWitness` on the pool and the clock. -/
def presentedInTime (p : ClaimPool) (m : WitnessArgs) (aliasN want : Bytes) (ts : UInt64)
    (nowU : UInt64) (now : Int) : Except (Nat × String) Presented :=
  if ts > nowU + uint64 Constants.skewTolerance then .error (305, "claim ts in the future")
  else if claimReuseRefusal P p aliasN m.prefixHash now > 0 then
    .error (301, "alias in reuse window")
  else if liveClaimConflict P p aliasN m.prefixHash now then
    .error (305, "alias already claimed")
  else match ageGate P p m aliasN ts nowU now with
    | .error refusal => .error refusal
    | .ok reattest => .ok { aliasN, want, reattest }

/-- What `hWitness` checks before the cooldown; a refusal is code and text, the clock is
read twice. -/
def presented (p : ClaimPool) (gates : WitnessGates) (m : WitnessArgs) (nowU now : Int) :
    Except (Nat × String) Presented :=
  if gates.flagged then .error (403, "blacklisted")
  else if !gates.allowRead then .error (301, "throttled")
  else match m.ts, validateAlias P m.aliasName with
    | some ts, .ok aliasN =>
      if m.nonce.length = 0 ∨ m.powHash.length ≠ Constants.sha256Len then
        .error (305, "bad witness args")
      else if isReservedTLD gates.reservedTLDs aliasN && !gates.allowReserved then
        .error (305, "reserved alias refused (spec §7.7)")
      else if m.tldID.length ≠ Constants.sha256Len
          ∨ m.claimant.length ≠ Constants.ed25519PublicKeyLen then
        .error (305, "bad tld_id/claimant length")
      else match (m.claim aliasN ts).prefixHash P with
        | .error _ => .error (305, "bad claim identity")
        | .ok want =>
          if m.prefixHash.length ≠ Constants.sha256Len ∨ m.prefixHash ≠ want then
            .error (305, "bad claim prefix hash")
          else if !(m.claim aliasN ts).verifyPoW P inferDifficulty then
            .error (305, "invalid proof-of-work")
          else presentedInTime P p m aliasN want ts (uint64 nowU) now
    | _, _ => .error (305, "bad witness args")

/-- `hWitness`: screened, checked against the last, signed. -/
def hWitness (n : WitnessNode) (gates : WitnessGates) (m : WitnessArgs) (nowU now : Int) :
    WitnessReply × WitnessNode :=
  match presented P n.pool gates m nowU now with
  | .error (code, text) => (.error code text, n)
  | .ok req =>
    if (n.witnessLast.lookup req.aliasN).any (·.cools m.prefixHash m.claimant now) then
      (.error 301 "cooldown", n)
    else
      let n := { n with witnessLast := recordSigned n.witnessLast req.aliasN
                          { prefixHash := m.prefixHash, claimant := m.claimant, signedAt := now } }
      match newWitnessAttestation P n.kp (uint64 now) req.want with
      | none => (.error 305 "attestation failed", n)
      | some att =>
        -- a re-attestation is evidence, so the node keeps what it signed
        (.attested att gates.difficulty,
          if req.reattest then
            { n with pool := n.pool.storeReAttests ((keyForClaim P req.aliasN).toOption.getD [])
                               m.prefixHash [att] }
          else n)

end

end Freens.Dht
