/-
**THE ENVELOPE STORE** (`dht/store.go`, `dht/evidence.go`): one winning envelope
for each key, the history of superseded envelopes and the table of recovery
evidence, each with its running byte counter.

Every method takes the clock reading as an argument, as in the source. Iteration
over a Go map has no fixed order; here it follows the table's.
-/
import Freens.Dht.Keys
import Freens.Library.Table
import Freens.Wire.Recovery

namespace Freens.Dht

open Library Naming Wire

/-! ## State -/

abbrev historyMax : Nat := 4096
abbrev historyMaxBytes : Int := 16 * 1024 * 1024
abbrev evidenceMax : Nat := 4096
abbrev maxEvidenceBlobLen : Nat := 64 * 1024
abbrev evidenceMaxBytes : Int := 16 * 1024 * 1024

/-- An entry. -/
structure Entry where
  env : SignedEnvelope
  size : Int
  lastAccess : Int
  deriving DecidableEq, Repr

/-- The entry with its size filled in: a synthetic entry carries none. -/
def Entry.sized (e : Entry) : Entry :=
  if e.size = 0 then { e with size := e.env.bytes.length } else e

/-- The store: entries, history and evidence, with their bounds. -/
structure EnvelopeStore where
  maxBytes : Int
  entries : Table Bytes Entry
  bytes : Int
  history : Table Bytes Entry
  histMaxBytes : Int
  historyBytes : Int
  evidence : Table Bytes Bytes
  evidenceOrder : List Bytes
  evidMaxBytes : Int
  evidenceBytes : Int
  deriving DecidableEq

/-- `NewEnvelopeStore`. -/
def newEnvelopeStore (maxBytes : Int) : EnvelopeStore :=
  { maxBytes := if maxBytes ≤ 0 then Constants.nodeStorageMax else maxBytes
    entries := ∅, bytes := 0
    history := ∅, histMaxBytes := historyMaxBytes, historyBytes := 0
    evidence := ∅, evidenceOrder := [], evidMaxBytes := evidenceMaxBytes, evidenceBytes := 0 }

/-- Inside `expires + ExpiryGrace`, both signed 64-bit. -/
def alive (e : SignedEnvelope) (now : Int) : Bool :=
  now < wrap64 (int64 e.record.expires + Constants.expiryGrace)

/-! ## Eviction -/

/-- The eviction order: smaller last access first, then the smaller key. -/
def evictBefore (a b : Bytes × Entry) : Bool :=
  a.2.lastAccess < b.2.lastAccess ∨ (a.2.lastAccess = b.2.lastAccess ∧ a.1 < b.1)

/-- The min-scan: the first candidate in eviction order. -/
def oldest : List (Bytes × Entry) → Option (Bytes × Entry)
  | [] => none
  | c :: rest => some (rest.foldl (fun best c => if evictBefore c best then c else best) c)

/-- The history entry used longest ago dropped. -/
def evictHistoryOldest (s : EnvelopeStore) : EnvelopeStore :=
  match oldest (s.history.select (fun _ _ => true)) with
  | none => s
  | some (k, e) =>
    { s with historyBytes := s.historyBytes - e.size, history := s.history.erase k }

/-- The bounding loop of `retainHistoryLocked`; each round removes an entry. -/
def boundHistory : Nat → EnvelopeStore → EnvelopeStore
  | 0, s => s
  | fuel + 1, s =>
    if (s.history.keys.length > historyMax ∨ s.historyBytes > s.histMaxBytes)
        ∧ s.history.keys.length > 1 then
      boundHistory fuel (evictHistoryOldest s)
    else s

section
variable (P : Primitives)

/-- Keep a departing entry under its own H_record. -/
def retainHistory (s : EnvelopeStore) (e : Entry) : EnvelopeStore :=
  let h := e.env.recordHash P
  let e := e.sized
  -- the hash may be retained already: its old size is given back first
  let freed := match s.history.lookup h with
    | some old => old.size
    | none => 0
  let s := { s with
    history := s.history.insert h e
    historyBytes := s.historyBytes - freed + e.size }
  boundHistory s.history.keys.length s

/-- An entry moved to the history. -/
def evict (s : EnvelopeStore) (victim : Bytes × Entry) : EnvelopeStore :=
  let s := retainHistory P s victim.2
  { s with entries := s.entries.erase victim.1, bytes := s.bytes - victim.2.sized.size }

/-- Every expired entry evicted. -/
def evictExpired (s : EnvelopeStore) (now : Int) : EnvelopeStore :=
  (s.entries.select (fun _ e => !alive e.env now)).foldl (evict P) s

/-- The LRU loop of `enforceCapLocked`; a round removes one entry. -/
def shedLRU (protectedKey : Bytes) : Nat → EnvelopeStore → EnvelopeStore
  | 0, s => s
  | fuel + 1, s =>
    if s.bytes > s.maxBytes ∧ s.entries.keys.length > 1 then
      match oldest (s.entries.select (fun k _ => k ≠ protectedKey)) with
      | none => s
      | some victim => shedLRU protectedKey fuel (evict P s victim)
    else s

/-- An expired-first re-check, then LRU, never touching the protected key. -/
def enforceCap (s : EnvelopeStore) (now : Int) (protectedKey : Bytes) : EnvelopeStore :=
  -- dead entries go first, so that none survives a live one
  let s := (s.entries.select (fun k e => k ≠ protectedKey && !alive e.env now)).foldl (evict P) s
  shedLRU P protectedKey s.entries.keys.length s

/-! ## Rule 3: the newcomer against a live incumbent -/

/-- The placeholder alias `"x"`: wire names do not encode it. -/
def placeholderAlias : Bytes := [0x78]

/-- The key of the parent of a name: its most-specific label dropped. -/
def parentKey (name : Bytes) : Option Bytes :=
  match decodeWireName name with
  | .error _ => none
  | .ok ([], _) => none
  | .ok (_ :: labels, tldID) =>
    match encodeWireName P labels placeholderAlias tldID with
    | .error _ => none
    | .ok parentWire => (keyForWireName P parentWire).toOption

/-- The live entry under the parent's key names the newcomer's signer as owner
or delegate. -/
def parentAuthorizes (s : EnvelopeStore) (newcomer incumbent : SignedEnvelope) (now : Int) : Bool :=
  match parentKey P incumbent.record.name with
  | none => false
  | some pk =>
    match s.entries.lookup pk with
    | none => false
    | some parent =>
      if !alive parent.env now then false
      -- the owner of the parent, or whoever it delegated the subtree to
      else parent.env.record.owner = newcomer.signer
        ∨ parent.env.record.delegation = some newcomer.signer

/-- The evidence the recovery gate looks at: in band, else what is retained. -/
def evidenceFor (s : EnvelopeStore) (newEnv : SignedEnvelope) (evidence : Bytes) : Bytes :=
  if evidence.length = 0 then (s.evidence.lookup (newEnv.recordHash P)).getD [] else evidence

/-- Quorum evidence hands the incumbent over to the newcomer's self-signing owner. The gate
is asked at `ev.notBefore`, so the time never refuses. -/
def recoveryAcceptable (s : EnvelopeStore) (newEnv prevEnv : SignedEnvelope) (evidence : Bytes) :
    Bool :=
  if (evidenceFor P s newEnv evidence).length = 0 then false
  else match decodeRecoveryEvidence P (evidenceFor P s newEnv evidence) with
    | none => false
    | some ev =>
      if newEnv.signer ≠ newEnv.record.owner then false
      else if ev.newOwnerPK ≠ newEnv.signer then false
      -- the clock is the declaration's own start time: the store takes pending
      -- recoveries, readers wait
      else verifyRecovery P prevEnv.record.recovery ev (prevEnv.recordHash P)
        prevEnv.record.created ev.notBefore

/-- What a put does to its slot. -/
inductive Verdict where
  /-- The stored record is this one: report success, touch it. -/
  | refresh
  | refuse
  | install
  deriving DecidableEq, Repr

/-- Rule 3 against a live incumbent. -/
def judgeIncumbent (s : EnvelopeStore) (cur env : SignedEnvelope) (now : Int) (evidence : Bytes) :
    Verdict :=
  if env.recordHash P = cur.recordHash P then .refresh
  else if !envelopeWins P env cur then .refuse
  else if env.record.hasPrevHash && !verifyChainLink P env (some cur) then .refuse
  -- another signer with a link: a recovery, backed by evidence
  else if env.record.hasPrevHash && env.signer ≠ cur.record.owner
      && !recoveryAcceptable P s env cur evidence then .refuse
  -- another signer without a link: a subname re-delegated by its parent
  else if !env.record.hasPrevHash && env.signer ≠ cur.record.owner
      && !parentAuthorizes P s env cur now then .refuse
  else .install

/-- Rule 3: an absent or dead incumbent leaves the slot empty. -/
def judge (s : EnvelopeStore) (k : Bytes) (env : SignedEnvelope) (now : Int) (evidence : Bytes) :
    Verdict :=
  match s.entries.lookup k with
  | none => .install
  | some cur => if alive cur.env now then judgeIncumbent P s cur.env env now evidence else .install

/-! ## The public methods -/

/-- Why a put fails. -/
inductive StoreError where
  /-- "key must be 32 bytes, got %d" -/
  | keyLength (got : Nat)
  deriving DecidableEq, Repr

/-- The winner bound, the bytes adjusted. -/
def bindWinner (s : EnvelopeStore) (k : Bytes) (env : SignedEnvelope) (now prevSize : Int) :
    EnvelopeStore :=
  { s with
    entries := s.entries.insert k { env, size := env.bytes.length, lastAccess := now }
    bytes := s.bytes + (env.bytes.length - prevSize) }

/-- The displaced entry, live or dead, goes to the history. -/
def displace (s : EnvelopeStore) (k : Bytes) (env : SignedEnvelope) (now : Int) : EnvelopeStore :=
  match s.entries.lookup k with
  | some cur => bindWinner (retainHistory P s cur) k env now cur.size
  | none => bindWinner s k env now 0

/-- Install the new winner, then run the sweeps. -/
def install (s : EnvelopeStore) (k : Bytes) (env : SignedEnvelope) (now : Int) : EnvelopeStore :=
  enforceCap P (evictExpired P (displace P s k env now) now) now k

/-- An entry marked as used. -/
def touch (s : EnvelopeStore) (k : Bytes) (now : Int) : EnvelopeStore :=
  match s.entries.lookup k with
  | none => s
  | some e => { s with entries := s.entries.insert k { e with lastAccess := now } }

/-- What a put does on a verdict: the reported acceptance and the new state. -/
def enact (s : EnvelopeStore) (key : Bytes) (env : SignedEnvelope) (now : Int) :
    Verdict → Except StoreError Bool × EnvelopeStore
  | .refuse => (.ok false, s)
  | .refresh => (.ok true, touch s key now)
  | .install => (.ok true, install P s key env now)

/-- Whether the envelope is stored, and the state after; no evidence is empty. -/
def putWithEvidence (s : EnvelopeStore) (key : Bytes) (env : SignedEnvelope) (now : Int)
    (verifySignature : Bool) (evidence : Bytes) : Except StoreError Bool × EnvelopeStore :=
  if key.length ≠ Constants.sha256Len then (.error (.keyLength key.length), s)
  else if verifySignature && !env.verifySignature P then (.ok false, s)
  else enact P s key env now (judge P s key env now evidence)

/-- `Put`: without evidence. -/
def put (s : EnvelopeStore) (key : Bytes) (env : SignedEnvelope) (now : Int)
    (verifySignature : Bool) : Except StoreError Bool × EnvelopeStore :=
  putWithEvidence P s key env now verifySignature []

/-- A dead entry is dropped into the history on access. -/
def get (s : EnvelopeStore) (key : Bytes) (now : Int) :
    Except StoreError (Option SignedEnvelope) × EnvelopeStore :=
  if key.length ≠ Constants.sha256Len then (.error (.keyLength key.length), s)
  else match s.entries.lookup key with
    | none => (.ok none, s)
    | some e =>
      -- past the grace the entry is history, whether or not a sweep has run
      if !alive e.env now then (.ok none, evict P s (key, e))
      else (.ok (some e.env), touch s key now)

/-- `RetainHistory`, for persisted history files. Only here can an envelope without an
H_record turn up. -/
def retainHistoryEnv (s : EnvelopeStore) (env : SignedEnvelope) (now : Int) : EnvelopeStore :=
  if env.record.encodes then retainHistory P s { env, size := 0, lastAccess := now } else s

end

/-- `Has`: a live entry. -/
def has (s : EnvelopeStore) (key : Bytes) (now : Int) : Bool :=
  if key.length ≠ Constants.sha256Len then false
  else match s.entries.lookup key with
    | none => false
    | some e => alive e.env now

/-- `Remove`. -/
def remove (s : EnvelopeStore) (key : Bytes) : Bool × EnvelopeStore :=
  if key.length ≠ Constants.sha256Len then (false, s)
  else match s.entries.lookup key with
    | none => (false, s)
    | some e => (true, { s with entries := s.entries.erase key, bytes := s.bytes - e.size })

/-- `Entries`: the live entries, by ascending key. -/
def entriesAt (s : EnvelopeStore) (now : Int) : List (Bytes × SignedEnvelope) :=
  ((s.entries.select (fun _ e => alive e.env now)).map (fun x => (x.1, x.2.env))).insertionSort
    (fun a b => a.1 ≤ b.1)

/-- `GetHistory`. -/
def getHistory (s : EnvelopeStore) (h : Bytes) : Option SignedEnvelope :=
  if h.length ≠ Constants.sha256Len then none else (s.history.lookup h).map Entry.env

/-! ## Recovery evidence -/

/-- The bounding loop of `putEvidenceLocked`: drop the first inserted. -/
def boundEvidence : Nat → EnvelopeStore → EnvelopeStore
  | 0, s => s
  | fuel + 1, s =>
    if (s.evidence.keys.length > evidenceMax ∨ s.evidenceBytes > s.evidMaxBytes)
        ∧ s.evidence.keys.length > 1 then
      match s.evidenceOrder with
      | [] => s
      | first :: order =>
        boundEvidence fuel { s with
          evidenceOrder := order
          evidenceBytes := s.evidenceBytes - ((s.evidence.lookup first).getD []).length
          evidence := s.evidence.erase first }
    else s

/-- A blob entered, then the bounds. -/
def insertEvidence (s : EnvelopeStore) (k raw : Bytes) : EnvelopeStore :=
  -- a replaced blob keeps its place in the queue
  let s := match s.evidence.lookup k with
    | none => { s with evidenceOrder := s.evidenceOrder ++ [k] }
    | some old => { s with evidenceBytes := s.evidenceBytes - old.length }
  let s := { s with
    evidence := s.evidence.insert k raw
    evidenceBytes := s.evidenceBytes + raw.length }
  boundEvidence s.evidence.keys.length s

/-- `GetEvidence`. -/
def getEvidence (s : EnvelopeStore) (recordHash : Bytes) : Option Bytes :=
  if recordHash.length ≠ Constants.sha256Len then none else s.evidence.lookup recordHash

section
variable (P : Primitives)

/-- Errors leave the table as it was. -/
def putEvidence (s : EnvelopeStore) (recordHash raw : Bytes) : EnvelopeStore :=
  if recordHash.length ≠ Constants.sha256Len then s
  else if raw.length > maxEvidenceBlobLen then s
  else if (decodeRecoveryEvidence P raw).isNone then s
  else insertEvidence s recordHash raw

/-- Evidence travels under the H_record of its envelope. -/
def retainEvidence (s : EnvelopeStore) (env : SignedEnvelope) (evidence : Bytes) : EnvelopeStore :=
  if evidence.length = 0 then s else putEvidence P s (env.recordHash P) evidence

end

end Freens.Dht
