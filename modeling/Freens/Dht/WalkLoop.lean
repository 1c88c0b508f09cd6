/-
**THE ITERATIVE WALK, ROUND BY ROUND** (`dht/transport.go`: `walkShortlist`,
`walkBatch`, `IterativeGetDetailed`; `dht/claims_lookup.go`: `collectClaims`).

The clock, the penalty table and the response of every contact are arguments of
each round. The log of a finished walk is what `Freens.Dht.Lookup` takes.
-/
import Freens.Dht.Lookup
import Freens.Library.Run

namespace Freens.Dht

open Library Wire

/-! ## Contacts and the routing table -/

/-- `NodeContact`, as far as a walk reads it. -/
structure NodeContact where
  nodeID : Bytes
  confirmedAt : Int
  lastSeen : Int
  firstSeen : Int
  deriving DecidableEq, Repr

/-- The contacts as a walk sees them. -/
structure RoutingTable where
  contacts : List NodeContact
  distinct : (contacts.map NodeContact.nodeID).Nodup

abbrev bucketSize : Nat := 20
abbrev getClosest : Nat := 4
abbrev lookupRoundWidth : Nat := 8
abbrev maxLookupRounds : Nat := 256
abbrev putCitizenMinAge : Int := 10 * 60
abbrev putConfirmMaxAge : Int := 30 * 60

/-- `CompareDistance(target, a, b) < 0`. -/
def closer (target a b : Bytes) : Bool :=
  -- identifiers of another length have no distance
  if target.length ≠ 32 ∨ a.length ≠ 32 ∨ b.length ≠ 32 then false
  else List.zipWith (· ^^^ ·) target a < List.zipWith (· ^^^ ·) target b

/-- Confirmed, fresh, and known for a while. -/
def citizenNow (now : Int) (c : NodeContact) : Bool :=
  if c.confirmedAt = 0 then false
  else if wrap64 (now - c.confirmedAt) > putConfirmMaxAge
      ∨ wrap64 (now - c.lastSeen) > putConfirmMaxAge then false
  else c.firstSeen = 0 ∨ wrap64 (now - c.firstSeen) ≥ putCitizenMinAge

/-- The id is in the list. -/
def contactIn (list : List NodeContact) (id : Bytes) : Bool := list.any (fun c => c.nodeID = id)

/-- Appended unless present. -/
def addContact (list : List NodeContact) (c : NodeContact) : List NodeContact :=
  if contactIn list c.nodeID then list else list ++ [c]

/-- The nearest `n`. -/
def closest (rt : RoutingTable) (target : Bytes) (n : Nat) : List NodeContact :=
  (rt.contacts.insertionSort (fun a b => closer target b.nodeID a.nodeID = false)).take n

/-- `walkShortlist`: the nearest, and every citizen. -/
def walkShortlist (rt : RoutingTable) (key : Bytes) (now : Int) : List NodeContact :=
  (rt.contacts.filter (citizenNow now)).foldl addContact (closest rt key bucketSize)

/-! ## A round -/

/-- How a peer answers a get. -/
inductive Response where
  /-- An answer with these decodable envelopes and closer contacts. -/
  | data (envs : List SignedEnvelope) (nodes : List NodeContact)
  /-- An error message with this code, if it has one. -/
  | error (code : Option Int)
  /-- Timeout, unreachable or malformed address. -/
  | failed
  /-- The parent context was cancelled or ran out. -/
  | cancelled
  deriving DecidableEq, Repr

/-- Code 301 is a withheld answer; any other error passes for an answer with
nothing in it. -/
def getFromPeer : Response → Probe
  | .data envs _ => .answered envs
  | .error code => if code = some 301 then .throttled else .answered []
  | .failed => .failed
  | .cancelled => .cancelled

/-- The contacts an answer brings. -/
def Response.nodes : Response → List NodeContact
  | .data _ nodes => nodes
  | _ => []

/-- What one round meets. -/
structure Round where
  now : Int
  deadUntil : Bytes → Option Int
  response : NodeContact → Response

/-- The peer is shunned for now. -/
def Round.penalized (r : Round) (id : Bytes) : Bool :=
  (r.deadUntil id).any (fun t => r.now < t)

/-- The state between rounds. -/
structure WalkState where
  shortlist : List NodeContact
  queried : List Bytes
  batchSize : Nat
  /-- The probes so far, in the order their results were merged. -/
  log : List (NodeContact × Response)
  /-- The loop was left because a round had nothing to ask. -/
  stopped : Bool

/-- Citizens first, then by distance. -/
def before (key : Bytes) (now : Int) (a b : NodeContact) : Bool :=
  if citizenNow now a ≠ citizenNow now b then citizenNow now a
  else closer key a.nodeID b.nodeID

/-- Who may be asked next. -/
def candidates (self : Bytes) (st : WalkState) (r : Round) : List NodeContact :=
  st.shortlist.filter (fun c =>
    !(st.queried.any (fun q => q = c.nodeID)) && c.nodeID ≠ self && !r.penalized c.nodeID)

/-- The best of them, a batch. -/
def walkBatch (self key : Bytes) (st : WalkState) (r : Round) : List NodeContact :=
  ((candidates self st r).insertionSort (fun a b => before key r.now b a = false)).take st.batchSize

/-- The peer was reached. -/
def Probe.reached : Probe → Bool
  | .answered _ => true
  | .throttled => true
  | _ => false

/-- One round: a batch asked, its answers merged. -/
def walkRound (self key : Bytes) (st : WalkState) (r : Round) : WalkState :=
  if st.stopped then st
  else
    let batch := walkBatch self key st r
    -- every known contact queried or penalized: the source takes this for convergence
    if batch = [] then { st with stopped := true }
    else
      { shortlist := (batch.flatMap (fun c => (r.response c).nodes)).foldl addContact st.shortlist
        queried := st.queried ++ batch.map NodeContact.nodeID
        -- a round nobody answered doubles the next one
        batchSize := if batch.any (fun c => (getFromPeer (r.response c)).reached) then st.batchSize
          else min (st.batchSize * 2) bucketSize
        log := st.log ++ batch.map (fun c => (c, r.response c))
        stopped := false }

/-- The probes of a walk. -/
def WalkState.probes (st : WalkState) : List Probe := st.log.map (fun e => getFromPeer e.2)

/-- The state before the first round. -/
def WalkState.start (shortlist : List NodeContact) : WalkState :=
  { shortlist, queried := [], batchSize := lookupRoundWidth, log := [], stopped := false }

/-- The rounds of a walk. -/
def roundList (rounds : Nat → Round) : List Round := (List.range maxLookupRounds).map rounds

/-- A whole walk. -/
def walk (self key : Bytes) (shortlist : List NodeContact) (rounds : Nat → Round) : WalkState :=
  (roundList rounds).foldl (walkRound self key) (.start shortlist)

/-! ## The two lookups on top of it -/

/-- What `IterativeGetDetailed` makes of its walk; `free` says that a walk slot
was free. -/
def walkOutcome (self key : Bytes) (shortlist : List NodeContact) (free : Bool)
    (rounds : Nat → Round) : Walk :=
  if shortlist = [] then .island
  else if !free then .busy
  else .probes (walk self key shortlist rounds).probes

/-- The contacts `collectClaims` asks once more: the closest ones it reached. -/
def reachable (key : Bytes) (st : WalkState) : List NodeContact :=
  (((st.log.filter (fun e => (getFromPeer e.2).reached)).map Prod.fst).insertionSort
    (fun a b => closer key b.nodeID a.nodeID = false)).take getClosest

/-- A probe of the final merge that did not answer, whatever the reason. -/
def Probe.unanswered : Probe → Bool
  | .answered _ => false
  | _ => true

/-- `Node.collectClaims`: `own` is the local offer set, `again` what the contacts answer to
the final merge. -/
def collectFromNetwork (P : Primitives) (self key : Bytes) (shortlist : List NodeContact)
    (free : Bool) (rounds : Nat → Round) (own : List SignedEnvelope)
    (again : NodeContact → Response) : Except WalkError (List SignedEnvelope) :=
  if shortlist = [] then .ok (sortedByRecordHash (own.foldl (addCollected P) ∅))
  else if !free then .error .walkBusy
  else
    let st := walk self key shortlist rounds
    let finals := (reachable key st).map (fun c => getFromPeer (again c))
    let offers := own ++ st.probes.flatMap Probe.envs ++ finals.flatMap Probe.envs
    let set := sortedByRecordHash (offers.foldl (addCollected P) ∅)
    if set = [] ∧ (st.probes.any Probe.degrades ∨ finals.any Probe.unanswered) then
      .error .degradedMiss
    else .ok set

end Freens.Dht
