/-
**READ-THROUGH LOOKUPS** (`dht/transport.go`: `IterativeGetDetailed`, `DHTLookup`;
`dht/claims_lookup.go`: `CollectClaimsWithWitnesses`).

A `Walk` lists the probes in the order their results are merged. A call is cut at
the walk, where other calls may interleave: its first half reads the store, its
second half (`finish…`) has the answers.
-/
import Freens.Dht.Store
import Freens.Library.Selection

namespace Freens.Dht

open Library Naming Wire

/-! ## The iterative walk -/

/-- How a probe of a walk ended. -/
inductive Probe where
  /-- The peer answered with these envelopes. -/
  | answered (envs : List SignedEnvelope)
  /-- The peer is alive but withheld its answer (§12). -/
  | throttled
  | failed
  /-- The parent context ended; not the peer's failure. -/
  | cancelled
  deriving DecidableEq, Repr

/-- What a walk toward a key meets. -/
inductive Walk where
  /-- No peer is known. -/
  | island
  /-- Every walk slot is taken. -/
  | busy
  | probes (results : List Probe)
  deriving DecidableEq, Repr

/-- Why a miss is not authoritative. -/
inductive WalkError where
  /-- `ErrDegradedMiss`: some probe failed, so the miss is not authoritative. -/
  | degradedMiss
  | walkBusy
  deriving DecidableEq, Repr

/-- The envelopes of a probe. -/
def Probe.envs : Probe → List SignedEnvelope
  | .answered envs => envs
  | _ => []

/-- The envelopes a walk was offered. -/
def Walk.offers : Walk → List SignedEnvelope
  | .probes results => results.flatMap Probe.envs
  | _ => []

/-- The probe leaves the miss in doubt. -/
def Probe.degrades : Probe → Bool
  | .throttled => true
  | .failed => true
  | _ => false

section
variable (P : Primitives)

/-- The merge step: a signature-valid envelope that wins replaces the best. -/
def mergeBest (best : Option SignedEnvelope) (e : SignedEnvelope) : Option SignedEnvelope :=
  if e.verifySignature P then challenge (envelopeWins P) best e else best

/-- The winner of what was offered, or how the walk missed. -/
def iterativeGetDetailed (w : Walk) : Option SignedEnvelope × Option WalkError :=
  match w with
  | .island => (none, none)
  | .busy => (none, some .walkBusy)
  | .probes results =>
    match (results.flatMap Probe.envs).foldl (mergeBest P) none with
    | some best => (some best, none)
    -- nothing valid was offered: authoritative unless a probe failed or was throttled
    | none => if results.any Probe.degrades then (none, some .degradedMiss) else (none, none)

/-- One more walk, whose result replaces the expired best only when it wins. -/
def expiredWinner (retry : Walk) (env : SignedEnvelope) (gerr : Option WalkError) :
    SignedEnvelope × Option WalkError :=
  match iterativeGetDetailed P retry with
  -- a retry that lost or failed leaves the expired envelope in place
  | (some e₂, none) => if envelopeWins P e₂ env then (e₂, none) else (env, gerr)
  | _ => (env, gerr)

/-- The best envelope of the walk, with one retry when it is already expired. -/
def walkResult (walk retry : Walk) (now : Int) : Option SignedEnvelope × Option WalkError :=
  match iterativeGetDetailed P walk with
  | (some env, gerr) =>
    if now ≥ int64 env.record.expires then
      let (env, gerr) := expiredWinner P retry env gerr
      (some env, gerr)
    else (some env, gerr)
  | (none, gerr) => (none, gerr)

end

/-! ## Freshness of the cache -/

/-- The store, the fetch stamps, and whether a node is attached. -/
structure DHTLookup where
  store : EnvelopeStore
  fetchedAt : Table Bytes Int
  hasNode : Bool
  deriving DecidableEq

abbrev fetchedAtCap : Nat := 4096

/-- How long a fetched copy counts as fresh. -/
def cacheFreshness (env : SignedEnvelope) : Int :=
  if env.isRevoked then 60
  else match env.record.rrset with
    | [] => Constants.recordDefaultTTL
    | rr :: rest =>
      let least := rest.foldl (fun m rr => if int64 rr.ttl < m then int64 rr.ttl else m)
        (int64 rr.ttl)
      -- the TTLs are the owner's: they are clamped on both sides
      let least := if least < 1 then 1 else least
      if least > Constants.responseTTLCap then Constants.responseTTLCap else least

/-- Unexpired, and never fetched or inside its window. -/
def DHTLookup.fresh (l : DHTLookup) (key : Bytes) (env : SignedEnvelope) (now : Int) : Bool :=
  if now ≥ int64 env.record.expires then false
  else match l.fetchedAt.lookup key with
    -- never fetched by this lookup: published here, or pushed by a peer
    | none => true
    | some fa => now < wrap64 (fa + cacheFreshness env)

/-- Past the cap, stamps of keys the store no longer holds are dropped. -/
def DHTLookup.stampFetchedAt (l : DHTLookup) (key : Bytes) (now : Int) : DHTLookup :=
  let stamps := l.fetchedAt.insert key now
  if stamps.keys.length < fetchedAtCap then { l with fetchedAt := stamps }
  else
    let dead := stamps.keys.filter (fun k => !has l.store k now)
    { l with fetchedAt := dead.foldl (fun t k => t.erase k) stamps }

/-- The members of the metadata object: each name decoded as hex, and its value. -/
abbrev FetchMeta := List (Option Bytes × Int)

/-- The stamps as `pruneFetchMeta` ranges over them. -/
def DHTLookup.fetchMeta (l : DHTLookup) : FetchMeta :=
  (l.fetchedAt.select (fun _ _ => true)).map (fun x => (some x.1, x.2))

/-- One member of the metadata; a malformed one is skipped. -/
def loadStamp (stamps : Table Bytes Int) (m : Option Bytes × Int) : Table Bytes Int :=
  match m.1 with
  | none => stamps
  | some k => if k.length ≠ Constants.sha256Len then stamps else stamps.insert k m.2

/-- `LoadFetchMetaJSON`, on what `json.Unmarshal` makes of the data. -/
def DHTLookup.loadFetchMeta (l : DHTLookup) (data : Option FetchMeta) : DHTLookup :=
  match data with
  | none => l
  | some members => { l with fetchedAt := members.foldl loadStamp l.fetchedAt }

/-! ## Lookup and LookupClaim -/

/-- Why a lookup fails. -/
inductive LookupError where
  | naming (e : NamingError)
  | walk (e : WalkError)
  deriving DecidableEq, Repr

/-- By name or by alias. -/
inductive LookupKind where
  | record
  | claim
  deriving DecidableEq, Repr

section
variable (P : Primitives)

/-- The key a lookup reads: K_tld or K_name of a wire name, K_claim of an alias. -/
def lookupKey (kind : LookupKind) (name : Bytes) : Except NamingError Bytes :=
  match kind with
  | .record => keyForWireName P name
  | .claim => keyForClaim P name

/-- The first half of both lookups; the flag says whether the copy is served without a walk. -/
def readLocal (l : DHTLookup) (key : Bytes) (now : Int) :
    (Option SignedEnvelope × Bool) × DHTLookup :=
  let (res, store) := get P l.store key now
  let cached := res.toOption.join
  ((cached, !l.hasNode || cached.any (fun env => l.fresh key env now)), { l with store })

/-- What is served when the walk found nothing. Only a claim lookup refuses a lapsed copy
after a failed walk. -/
def serveMiss (kind : LookupKind) (cached : Option SignedEnvelope) (gerr : Option WalkError)
    (now : Int) : Except LookupError (Option SignedEnvelope) :=
  let lapsed := cached.any (fun env => now ≥ int64 env.record.expires)
  -- a lapsed copy must not pass for an authoritative miss when the walk failed
  let withheld := kind = .claim && gerr.isSome && lapsed
  if cached.isSome && !withheld then .ok cached
  else match gerr with
    | some e => .error (.walk e)
    | none => .ok none

/-- The second half: adopt and cache what the walk found. -/
def finishLookup (kind : LookupKind) (l : DHTLookup) (key : Bytes)
    (cached : Option SignedEnvelope) (now : Int) (walk retry : Walk) :
    Except LookupError (Option SignedEnvelope) × DHTLookup :=
  match walkResult P walk retry now with
  | (some env, _) =>
    -- the put may refuse the envelope; it is returned all the same
    let l := { l with store := (put P l.store key env now true).2 }
    (.ok (some env), l.stampFetchedAt key now)
  | (none, gerr) => (serveMiss kind cached gerr now, l)

/-- A lookup under its key: the local copy, else the walk. -/
def lookupAt (kind : LookupKind) (l : DHTLookup) (key : Bytes) (now : Int) (walk retry : Walk) :
    Except LookupError (Option SignedEnvelope) × DHTLookup :=
  match readLocal P l key now with
  | ((cached, true), l) => (.ok cached, l)
  | ((cached, false), l) => finishLookup P kind l key cached now walk retry

/-- `Lookup`. -/
def lookup (l : DHTLookup) (wireName : Bytes) (now : Int) (walk retry : Walk) :
    Except LookupError (Option SignedEnvelope) × DHTLookup :=
  match lookupKey P .record wireName with
  | .error e => (.error (.naming e), l)
  | .ok key => lookupAt P .record l key now walk retry

/-- `LookupClaim`. -/
def lookupClaim (l : DHTLookup) (aliasName : Bytes) (now : Int) (walk retry : Walk) :
    Except LookupError (Option SignedEnvelope) × DHTLookup :=
  match lookupKey P .claim aliasName with
  | .error e => (.error (.naming e), l)
  | .ok key => lookupAt P .claim l key now walk retry

/-! ## Claim collection -/

/-- What `CollectClaimsWithReAttests` comes back with, apart from this node's
own store copy. -/
inductive ClaimWalk where
  /-- The offers of the claim pool and of the peers. -/
  | answered (envs : List SignedEnvelope)
  /-- `ErrDegradedMiss` or `ErrWalkBusy`. -/
  | degraded (e : WalkError)
  /-- Any other error. -/
  | broken
  deriving DecidableEq, Repr

/-- The envelopes a collection was offered. -/
def ClaimWalk.offers : ClaimWalk → List SignedEnvelope
  | .answered envs => envs
  | _ => []

/-- This node's copy and, unless the walk failed, the copy it read and the offers. -/
def ClaimWalk.candidates (own held : Option SignedEnvelope) : ClaimWalk → List SignedEnvelope
  | .answered envs => own.toList ++ (held.toList ++ envs)
  | _ => own.toList

/-- `add`: signature-valid envelopes, one for each H_record. -/
def addCollected (set : Table Bytes SignedEnvelope) (env : SignedEnvelope) :
    Table Bytes SignedEnvelope :=
  if env.verifySignature P then set.insert (env.recordHash P) env else set

/-- The envelopes of a set, by record hash. -/
def sortedByRecordHash (set : Table Bytes SignedEnvelope) : List SignedEnvelope :=
  ((set.select (fun _ _ => true)).insertionSort (fun a b => a.1 ≤ b.1)).map Prod.snd

/-- Why a collection fails. -/
inductive CollectError where
  | naming (e : NamingError)
  | walk (e : WalkError)
  | other
  deriving DecidableEq, Repr

/-- The merge of `CollectClaimsWithWitnesses`. -/
def mergeCollect (own held : Option SignedEnvelope) (walk : ClaimWalk) :
    Except CollectError (List SignedEnvelope) :=
  let set := sortedByRecordHash ((walk.candidates own held).foldl (addCollected P) ∅)
  match walk with
  | .broken => .error .other
  -- what this node holds is better than a failed walk
  | .degraded e => if set = [] then .error (.walk e) else .ok set
  | .answered _ => .ok set

/-- The cache-back is for empty slots only. -/
def cacheCandidate (l : DHTLookup) (key : Bytes) (set : List SignedEnvelope) (now : Int) :
    Option SignedEnvelope :=
  if has l.store key now then none else set.head?

/-- The copy put back into the store. -/
def cacheBack (l : DHTLookup) (key : Bytes) (env : SignedEnvelope) (now : Int) : DHTLookup :=
  { l with store := (put P l.store key env now true).2 }

/-- `CollectClaimsWithWitnesses`, undisturbed; the walk reads the store again at the node's
clock. -/
def collectClaims (l : DHTLookup) (aliasName : Bytes) (now nodeNow : Int) (walk : ClaimWalk) :
    Except CollectError (List SignedEnvelope) × DHTLookup :=
  match keyForClaim P aliasName with
  | .error e => (.error (.naming e), l)
  | .ok key =>
    let (res, store) := get P l.store key now
    let own := res.toOption.join
    if !l.hasNode then
      (.ok (sortedByRecordHash (own.toList.foldl (addCollected P) ∅)), { l with store })
    else
      -- the walk consults the store once more before it asks the peers
      let (res, store) := get P store key nodeNow
      let l := { l with store }
      match mergeCollect P own res.toOption.join walk with
      | .error e => (.error e, l)
      | .ok set =>
        match cacheCandidate l key set now with
        | none => (.ok set, l)
        | some first => (.ok set, cacheBack P l key first now)

end

end Freens.Dht
