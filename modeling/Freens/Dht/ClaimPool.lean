/-
**THE CLAIM POOL** (`dht/claims_pool.go`, §7.4): per claim key, the two best
claims by the claim order, within a key and a byte budget; per identity, when it
was first seen and the re-attestations signed for it; and what a node concludes
from the claims it holds (`dht/claims_tombstone.go`).
-/
import Freens.Dht.ClaimEvidence
import Freens.Dht.Keys
import Freens.Library.Table

namespace Freens.Dht

open Library Naming Wire Claims

/-! ## The pool -/

/-- A pooled claim. -/
structure PooledClaim where
  env : SignedEnvelope
  claim : AliasClaim
  /-- `H_record`. -/
  h : Bytes
  size : Nat
  deriving DecidableEq, Repr

/-- The pool: its slots, its keys in order, its side tables. -/
structure ClaimPool where
  byKey : Table Bytes (List PooledClaim)
  /-- The keys in the order of their first insertion. -/
  order : List Bytes
  bytes : Int
  maxKeys : Int
  maxBytes : Int
  firstSeen : Table Bytes (Table Bytes Int)
  reattests : Table Bytes (Table Bytes (List WitnessAttestation))
  deriving DecidableEq

abbrev claimPoolMaxKeys : Int := 4096
abbrev claimPoolMaxBytes : Int := 16 * 2 ^ 20
abbrev reAttestMaxSets : Nat := 16

/-- `newClaimPool`. -/
def newClaimPool : ClaimPool :=
  { byKey := ∅, order := [], bytes := 0, maxKeys := claimPoolMaxKeys, maxBytes := claimPoolMaxBytes,
    firstSeen := ∅, reattests := ∅ }

/-- The claims pooled at a key. -/
def ClaimPool.members (p : ClaimPool) (k : Bytes) : List PooledClaim := (p.byKey.lookup k).getD []

/-- `Top2`: their envelopes. -/
def ClaimPool.top2 (p : ClaimPool) (key : Bytes) : List SignedEnvelope :=
  if key.length ≠ Constants.sha256Len then [] else (p.members key).map (·.env)

/-- `Contains`: by record hash. -/
def ClaimPool.contains (p : ClaimPool) (key h : Bytes) : Bool :=
  if key.length ≠ Constants.sha256Len ∨ h.length ≠ Constants.sha256Len then false
  else (p.members key).any (·.h = h)

/-! ## Offers -/

/-- The first-seen stamp is set once; an earlier restored one is taken. -/
def ClaimPool.stamp (p : ClaimPool) (k ph : Bytes) (now firstSeen : Int) : ClaimPool :=
  let seen := (p.firstSeen.lookup k).getD ∅
  let seen := if (seen.lookup ph).isSome then seen
    else seen.insert ph (if firstSeen > 0 ∧ firstSeen < now then firstSeen else now)
  { p with firstSeen := p.firstSeen.insert k seen }

/-- Whole-key removal: the claims, their bytes and the side tables. -/
def ClaimPool.dropKey (p : ClaimPool) (k : Bytes) : ClaimPool :=
  { p with
    bytes := p.bytes - ((p.members k).map (·.size)).sum
    byKey := p.byKey.erase k
    firstSeen := p.firstSeen.erase k
    reattests := p.reattests.erase k }

/-- Over one of the two bounds. -/
def ClaimPool.overBudget (p : ClaimPool) : Bool :=
  p.byKey.keys.length > p.maxKeys || p.bytes > p.maxBytes

/-- `evictOverBudgetLocked`: the loop runs over the insertion order. -/
def evictLoop (newest : Bytes) : (order : List Bytes) → ClaimPool → ClaimPool
  | [], p => { p with order := [] }
  | oldest :: rest, p =>
    if !p.overBudget then { p with order := oldest :: rest }
    -- a single key may exceed the budget
    else if oldest = newest ∧ rest = [] then { p with order := oldest :: rest }
    else evictLoop newest rest (p.dropKey oldest)

/-- The claims of a key with a newcomer among them, best first. -/
def place (cur : List PooledClaim) (pc : PooledClaim) : List PooledClaim :=
  match cur with
  | [a] => if lessOrderKey pc.claim a.claim then [pc, a] else [a, pc]
  | cur => cur ++ [pc]

/-- The locked part of `OfferSeen`: whether the pool changed, and the pool. -/
def ClaimPool.enter (p : ClaimPool) (k : Bytes) (pc : PooledClaim) : Bool × ClaimPool :=
  if (p.members k).any (·.h = pc.h) then (false, p)
  else match p.byKey.lookup k with
    | none =>
      let p := { p with byKey := p.byKey.insert k [pc], bytes := p.bytes + pc.size }
      -- only a new key makes room
      (true, evictLoop k (p.order ++ [k]) p)
    | some (best :: worst :: _) =>
      -- an equal tuple loses to the incumbent
      if !lessOrderKey pc.claim worst.claim then (false, p)
      else (true, { p with byKey := p.byKey.insert k (place [best] pc),
                           bytes := p.bytes - worst.size + pc.size })
    | some cur =>
      (true, { p with byKey := p.byKey.insert k (place cur pc), bytes := p.bytes + pc.size })

section
variable (P : Primitives)

/-- The screen of `OfferSeen`: the member an envelope makes, and its identity. Neither alias
nor quorum is looked at. -/
def poolScreen (env : SignedEnvelope) : Option (PooledClaim × Bytes) :=
  match decodeAliasClaim P env.record.claim with
  | .error _ => none
  | .ok claim =>
    if !claim.verifyClaimantConsistency P || !claim.verifyPoW P inferDifficulty then none
    else match claim.prefixHash P with
      | .error _ => none
      | .ok ph =>
        if !env.record.encodes then none
        else some ({ env, claim, h := env.recordHash P, size := env.bytes.length }, ph)

/-- `OfferSeen`: screened, placed, stamped and bounded. -/
def offerSeen (p : ClaimPool) (key : Bytes) (env : SignedEnvelope) (now firstSeen : Int) :
    Bool × ClaimPool :=
  if key.length ≠ Constants.sha256Len then (false, p)
  else match poolScreen P env with
    | none => (false, p)
    -- the stamp is set even when the claim is not kept
    | some (pc, ph) => (p.stamp key ph now firstSeen).enter key pc

/-- `Offer`: without a stamp of its own. -/
def offer (p : ClaimPool) (key : Bytes) (env : SignedEnvelope) (now : Int) : Bool × ClaimPool :=
  offerSeen P p key env now 0

end

/-! ## Re-attestations (§8.3) -/

/-- `IdentityFirstSeen`. -/
def ClaimPool.identityFirstSeen (p : ClaimPool) (key ph : Bytes) : Option Int :=
  if key.length ≠ Constants.sha256Len then none
  else ((p.firstSeen.lookup key).getD ∅).lookup ph

/-- Seen for the holding period. -/
def ClaimPool.reAttestEligible (p : ClaimPool) (key ph : Bytes) (now : Int) : Bool :=
  match p.identityFirstSeen key ph with
  | none => false
  | some fs => wrap64 (now - fs) ≥ Constants.reAttestHold

/-- The attestations kept for an identity. -/
def ClaimPool.reAttestsOf (p : ClaimPool) (key ph : Bytes) : List WitnessAttestation :=
  if key.length ≠ Constants.sha256Len then []
  else (((p.reattests.lookup key).getD ∅).lookup ph).getD []

/-- One round of `StoreReAttests`: an attestation that is already there is
dropped. -/
def addReAttest (cur : List WitnessAttestation) (a : WitnessAttestation) :
    List WitnessAttestation :=
  if cur.any (fun b => b.nodeID = a.nodeID && b.ts = a.ts && b.sig = a.sig) then cur else cur ++ [a]

/-- The newest sixteen are kept. -/
def ClaimPool.storeReAttests (p : ClaimPool) (key ph : Bytes) (atts : List WitnessAttestation) :
    ClaimPool :=
  if key.length ≠ Constants.sha256Len ∨ atts.length = 0 then p
  else
    let sets := (p.reattests.lookup key).getD ∅
    let cur := atts.foldl addReAttest ((sets.lookup ph).getD [])
    let cur := cur.drop (cur.length - reAttestMaxSets)
    { p with reattests := p.reattests.insert key (sets.insert ph cur) }

/-! ## What a node concludes from its pool -/

section
variable (P : Primitives)

/-- The alias and its claim key. -/
def normalizedKey (aliasName : Bytes) : Option (Bytes × Bytes) :=
  match validateAlias P aliasName with
  | .error _ => none
  | .ok aliasN =>
    match keyForClaim P aliasN with
    | .error _ => none
    | .ok kClaim => some (aliasN, kClaim)

/-- The end of the first open window of another identity, or zero. -/
def claimReuseRefusal (p : ClaimPool) (aliasName incomingPrefixHash : Bytes) (now : Int) : Int :=
  match normalizedKey P aliasName with
  | none => 0
  | some (aliasN, kClaim) =>
    -- the claim's own tombstone is continuity, not a refusal
    match (p.top2 kClaim).find? (fun cand => (reuseWindowEnd P cand aliasN now).1 ≠ 0 ∧
        (reuseWindowEnd P cand aliasN now).2 ≠ incomingPrefixHash) with
    | none => 0
    | some cand => (reuseWindowEnd P cand aliasN now).1

/-- Another live claim stands on the alias. -/
def liveClaimConflict (p : ClaimPool) (aliasName incomingPrefixHash : Bytes) (now : Int) : Bool :=
  match normalizedKey P aliasName with
  | none => false
  | some (aliasN, kClaim) => (p.top2 kClaim).any (fun cand =>
    (claimEvidence P cand aliasN now).any (fun (_, candPH) =>
      now < int64 cand.record.expires && candPH ≠ incomingPrefixHash))

/-- Why this node does not re-attest the identity, or the empty text. -/
def reAttestRefusal (p : ClaimPool) (aliasName prefixHash : Bytes) (now : Int) : String :=
  match normalizedKey P aliasName with
  | none => "bad alias"
  | some (aliasN, kClaim) =>
    -- a witness re-attests only what it holds
    if !(p.top2 kClaim).any (fun cand =>
        (claimEvidence P cand aliasN now).any (fun (_, candPH) => candPH = prefixHash)) then
      "identity not held here"
    else if !p.reAttestEligible kClaim prefixHash now then "holding period not met"
    else if liveClaimConflict P p aliasN prefixHash now then "live conflicting claim"
    else ""

end

end Freens.Dht
