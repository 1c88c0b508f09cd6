/-
**ONE NODE, MANY CALLS** (`dht/transport.go`: `hPut`, `putKeyFor`).

The node serves inbound puts and its own lookups over one store. Each call takes
the store's lock several times: the machine `step` cuts every call at those points
and keeps what is in flight in `pending`.
-/
import Freens.Dht.LookupSpec
import Freens.Library.Run

namespace Freens.Dht

open Library Naming Wire

/-! ## The put handler -/

/-- The answers of the node's other components about one inbound put. -/
structure PutGates where
  flagged : Bool
  passive : Bool
  allowPut : Bool
  tokenVerifies : Bool
  verifyFull : Claims.AliasClaim → Bool
  inReuseWindow : Claims.AliasClaim → Bool
  poolKept : Bytes → SignedEnvelope → Bool

/-- The arguments of a put RPC, the envelope decoded; what is absent is empty. -/
structure PutArgs where
  key : Bytes
  envelope : Option SignedEnvelope
  evidence : Bytes
  deriving DecidableEq, Repr

/-- The reply to a put. -/
inductive PutReply where
  | ok
  | error (code : Nat) (text : String)
  deriving DecidableEq, Repr

/-- Why a put has no key. -/
inductive PutKeyError where
  | naming (e : NamingError)
  /-- "explicit put key given but envelope carries no alias claim" -/
  | noClaim (e : Claims.ClaimError)
  /-- "explicit put key is neither the name-derived key nor K_claim" -/
  | foreignKey
  deriving DecidableEq, Repr

section
variable (P : Primitives)

/-- The name's key, or the claim's when the sender asks for it. -/
def putKeyFor (explicit : Bytes) (env : SignedEnvelope) : Except PutKeyError Bytes :=
  match keyForWireName P env.record.name with
  | .error e => .error (.naming e)
  | .ok derived =>
    -- no key, or the one the name gives
    if explicit.length = 0 ∨ explicit = derived then .ok derived
    else match Claims.decodeAliasClaim P env.record.claim with
      | .error e => .error (.noClaim e)
      | .ok claim =>
        match keyForClaim P claim.aliasName with
        | .error e => .error (.naming e)
        -- the claim is the only other ground for a key
        | .ok kClaim => if explicit ≠ kClaim then .error .foreignKey else .ok kClaim

/-- The screen of a put that lands at K_claim (§7.4, §8.4); whether the pool
keeps the claim. -/
def claimScreen (gates : PutGates) (key : Bytes) (env : SignedEnvelope) : Except PutReply Bool :=
  match Claims.decodeAliasClaim P env.record.claim with
  | .error _ => .ok false
  | .ok claim =>
    match keyForClaim P claim.aliasName with
    | .error _ => .ok false
    | .ok kClaim =>
      -- a put under the name's own key is not screened
      if key ≠ kClaim then .ok false
      else if !gates.verifyFull claim then
        .error (.error 305 "claim fails the §7.4 filter (PoW/quorum)")
      else if gates.inReuseWindow claim then .error (.error 301 "alias in reuse window")
      else .ok (gates.poolKept key env)

/-- An admitted put: its key, its envelope, and whether the pool keeps it. -/
structure Admitted where
  key : Bytes
  env : SignedEnvelope
  poolKept : Bool
  deriving DecidableEq, Repr

/-- Everything `hPut` checks before it asks the store. -/
def admitPut (gates : PutGates) (m : PutArgs) : Except PutReply Admitted :=
  if gates.flagged then .error (.error 403 "blacklisted")
  else if gates.passive then .error (.error 301 "passive node")
  else if !gates.allowPut then .error (.error 301 "throttled")
  else if !gates.tokenVerifies then .error (.error 302 "invalid token")
  else match m.envelope with
    | none => .error (.error 305 "invalid record")
    | some env =>
      if !env.verifySignature P then .error (.error 303 "invalid signature")
      else match putKeyFor P m.key env with
        | .error _ => .error (.error 305 "bad record name or key")
        | .ok key =>
          match claimScreen P gates key env with
          | .error reply => .error reply
          | .ok poolKept => .ok { key, env, poolKept }

/-- The end of `hPut`: the evidence is retained, and a refused put told from a republication. -/
def replyPut (s : EnvelopeStore) (put : Admitted) (evidence : Bytes) (accepted : Bool)
    (now : Int) : PutReply × EnvelopeStore :=
  if accepted then (.ok, retainEvidence P s put.env evidence)
  else
    let (res, s) := get P s put.key now
    -- the winner itself, put again
    if res.toOption.join.any (fun inc => inc.recordHash P = put.env.recordHash P) then
      (.ok, retainEvidence P s put.env evidence)
    else if put.poolKept then (.ok, s)
    else (.error 304 "stale record", s)

/-- `hPut`, undisturbed between the store's operations. -/
def hPut (s : EnvelopeStore) (gates : PutGates) (m : PutArgs) (now now' : Int) :
    PutReply × EnvelopeStore :=
  match admitPut P gates m with
  | .error reply => (reply, s)
  | .ok put =>
    match putWithEvidence P s put.key put.env now false m.evidence with
    -- the signature was checked on admission, so the store does not check it
    | (.error _, s) => (.error 301 "store error", s)
    | (.ok accepted, s) => replyPut P s put m.evidence accepted now'

end

/-! ## The machine -/

/-- A call between its two halves. -/
inductive Pending where
  /-- `hPut` before its reply. -/
  | put (put : Admitted) (evidence : Bytes) (accepted : Bool)
  /-- `Lookup` or `LookupClaim` waiting for its walk. -/
  | lookup (kind : LookupKind) (key : Bytes) (cached : Option SignedEnvelope) (now : Int)
  /-- `CollectClaimsWithWitnesses` before its walk reads the store. -/
  | collect (key : Bytes) (own : Option SignedEnvelope) (now : Int)
  /-- `CollectClaimsWithWitnesses` waiting for its walk. -/
  | merge (key : Bytes) (own held : Option SignedEnvelope) (now : Int)
  /-- `CollectClaimsWithWitnesses` before its cache-back. -/
  | cacheBack (key : Bytes) (env : SignedEnvelope) (now : Int)
  deriving DecidableEq

/-- The node: its lookup state, with the store, and the calls in flight. -/
structure Node where
  lookup : DHTLookup
  pending : List Pending
  deriving DecidableEq

/-- What a resumed call gets from outside: the clock and the peers' answers. -/
structure Answers where
  now : Int
  walk : Walk
  retry : Walk
  claims : ClaimWalk
  deriving DecidableEq, Repr

/-- What can happen next. -/
inductive Action where
  | put (gates : PutGates) (m : PutArgs) (now : Int)
  | lookup (kind : LookupKind) (name : Bytes) (now : Int)
  | collect (aliasName : Bytes) (now : Int)
  /-- The pending call at this position goes on. -/
  | resume (i : Nat) (answers : Answers)

/-- A node with an empty store. -/
def Node.initial (maxBytes : Int) (hasNode : Bool) : Node :=
  { lookup := { store := newEnvelopeStore maxBytes, fetchedAt := ∅, hasNode }, pending := [] }

/-- The node after a call's first half. -/
def Node.next (n : Node) (l : DHTLookup) (rest : Option Pending) : Node :=
  { lookup := l, pending := rest.toList ++ n.pending }

section
variable (P : Primitives)

/-- The next critical section of a pending call. -/
def resume (l : DHTLookup) (answers : Answers) : Pending → DHTLookup × Option Pending
  | .put put evidence accepted =>
    ({ l with store := (replyPut P l.store put evidence accepted answers.now).2 }, none)
  | .lookup kind key cached now =>
    ((finishLookup P kind l key cached now answers.walk answers.retry).2, none)
  | .collect key own now =>
    let (res, store) := get P l.store key answers.now
    -- the own copy was read before, by the first section
    ({ l with store }, some (.merge key own res.toOption.join now))
  | .merge key own held now =>
    match mergeCollect P own held answers.claims with
    | .error _ => (l, none)
    | .ok set => (l, (cacheCandidate l key set now).map (fun first => .cacheBack key first now))
  | .cacheBack key env now => (cacheBack P l key env now, none)

/-- The first half of `hPut`. -/
def startPut (l : DHTLookup) (gates : PutGates) (m : PutArgs) (now : Int) :
    DHTLookup × Option Pending :=
  match admitPut P gates m with
  | .error _ => (l, none)
  | .ok put =>
    match putWithEvidence P l.store put.key put.env now false m.evidence with
    | (.error _, store) => ({ l with store }, none)
    | (.ok accepted, store) => ({ l with store }, some (.put put m.evidence accepted))

/-- The first half of a lookup. -/
def startLookup (l : DHTLookup) (kind : LookupKind) (name : Bytes) (now : Int) :
    DHTLookup × Option Pending :=
  match lookupKey P kind name with
  | .error _ => (l, none)
  | .ok key =>
    match readLocal P l key now with
    | ((_, true), l) => (l, none)
    | ((cached, false), l) => (l, some (.lookup kind key cached now))

/-- The first half of `CollectClaims`. -/
def startCollect (l : DHTLookup) (aliasName : Bytes) (now : Int) : DHTLookup × Option Pending :=
  match keyForClaim P aliasName with
  | .error _ => (l, none)
  | .ok key =>
    let (res, store) := get P l.store key now
    if !l.hasNode then ({ l with store }, none)
    else ({ l with store }, some (.collect key res.toOption.join now))

/-- One action. -/
def step (n : Node) : Action → Node
  | .put gates m now =>
    let (l, rest) := startPut P n.lookup gates m now
    n.next l rest
  | .lookup kind name now =>
    let (l, rest) := startLookup P n.lookup kind name now
    n.next l rest
  | .collect aliasName now =>
    let (l, rest) := startCollect P n.lookup aliasName now
    n.next l rest
  | .resume i answers =>
    match n.pending[i]? with
    | none => n
    | some call =>
      let (l, rest) := resume P n.lookup answers call
      -- the call leaves its place and comes back with what is left of it
      { n with pending := n.pending.eraseIdx i }.next l rest

end

/-! ## Undisturbed calls.

A call whose critical sections follow one another leaves the node as the
whole function does. -/

variable {P : Primitives}

@[simp] theorem step_resume_nil (l : DHTLookup) (i : Nat) (answers : Answers) :
    step P ⟨l, []⟩ (.resume i answers) = ⟨l, []⟩ := rfl

@[simp] theorem step_resume_one (l : DHTLookup) (call : Pending) (answers : Answers) :
    step P ⟨l, [call]⟩ (.resume 0 answers) =
      ⟨(resume P l answers call).1, (resume P l answers call).2.toList⟩ := by
  show Node.next ⟨l, []⟩ (resume P l answers call).1 (resume P l answers call).2 = _
  rw [Node.next, List.append_nil]

theorem hPut_eq_run (l : DHTLookup) (gates : PutGates) (m : PutArgs) (now : Int)
    (answers : Answers) :
    [Action.put gates m now, .resume 0 answers].foldl (step P) ⟨l, []⟩ =
      ⟨{ l with store := (hPut P l.store gates m now answers.now).2 }, []⟩ := by
  rw [List.foldl_cons, List.foldl_cons, List.foldl_nil]
  show step P ⟨(startPut P l gates m now).1, (startPut P l gates m now).2.toList ++ []⟩ _ = _
  unfold startPut hPut
  cases admitPut P gates m with
  | error reply => simp
  | ok put =>
    rcases hput : putWithEvidence P l.store put.key put.env now false m.evidence with ⟨res, store⟩
    cases res with
    | error e => simp [hput]
    | ok accepted => simp [hput, resume]

/-- Either lookup. -/
def lookupBy (P : Primitives) (kind : LookupKind) (l : DHTLookup) (name : Bytes) (now : Int)
    (walk retry : Walk) : Except LookupError (Option SignedEnvelope) × DHTLookup :=
  match kind with
  | .record => lookup P l name now walk retry
  | .claim => lookupClaim P l name now walk retry

theorem lookup_eq_run (l : DHTLookup) (kind : LookupKind) (name : Bytes) (now : Int)
    (answers : Answers) :
    [Action.lookup kind name now, .resume 0 answers].foldl (step P) ⟨l, []⟩ =
      ⟨(lookupBy P kind l name now answers.walk answers.retry).2, []⟩ := by
  rw [List.foldl_cons, List.foldl_cons, List.foldl_nil]
  show step P ⟨(startLookup P l kind name now).1,
    (startLookup P l kind name now).2.toList ++ []⟩ _ = _
  have hby : lookupBy P kind l name now answers.walk answers.retry =
      match lookupKey P kind name with
      | .error e => (.error (.naming e), l)
      | .ok key => lookupAt P kind l key now answers.walk answers.retry := by
    cases kind with
    | record | claim => rfl
  rw [hby]
  unfold startLookup lookupAt
  cases lookupKey P kind name with
  | error e => simp
  | ok key =>
    rcases hread : readLocal P l key now with ⟨⟨cached, served⟩, l'⟩
    cases served with
    | true => simp [hread]
    | false => simp [hread, resume]

theorem collectClaims_eq_run (l : DHTLookup) (aliasName : Bytes) (now : Int) (answers : Answers) :
    [Action.collect aliasName now, .resume 0 answers, .resume 0 answers,
        .resume 0 answers].foldl (step P) ⟨l, []⟩ =
      ⟨(collectClaims P l aliasName now answers.now answers.claims).2, []⟩ := by
  simp only [List.foldl_cons, List.foldl_nil]
  rw [show step P ⟨l, []⟩ (.collect aliasName now) =
    ⟨(startCollect P l aliasName now).1, (startCollect P l aliasName now).2.toList ++ []⟩ from rfl]
  unfold startCollect collectClaims
  cases keyForClaim P aliasName with
  | error e => simp
  | ok key =>
    cases hnode : l.hasNode with
    | false => simp
    | true =>
      simp only [Bool.not_true, Bool.false_eq_true, if_false, Option.toList_some, List.append_nil,
        step_resume_one, resume]
      cases mergeCollect P _ _ answers.claims with
      | error e => simp
      | ok set =>
        simp only
        cases cacheCandidate _ key set now with
        | none => simp
        | some first => simp [resume]

end Freens.Dht
