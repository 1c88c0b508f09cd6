/-
**HOW CONTACTS ENTER THE ROUTING TABLE** (`dht/transport.go`: `learnPeer`,
`learnContact`, `AddPeer`, `parseNodes`, the eviction loop).

The sender of a verified message and a configured peer are learned under the hash
of their key. The entries of a node list carry an id and a key of their own, and
the table takes over whatever key they name for an id.
-/
import Freens.Dht.RoutingTable

namespace Freens.Dht.Routing

open Library

/-! ## Node lists on the wire -/

/-- A decoded CBOR value, as far as node lists look at it. -/
inductive Value where
  | uint (n : UInt64)
  /-- A negative integer. -/
  | int (i : Int)
  /-- A float, as the number its conversion gives. -/
  | float (n : UInt64)
  | bytes (b : Bytes)
  | array (l : List Value)
  /-- Text, maps, booleans, null. -/
  | other

/-- `asUint64`. -/
def asUint64 : Value → Option UInt64
  | .uint n => some n
  | .int i => some (uint64 i)
  | .float n => some n
  | _ => none

/-- What package `net` answers: an address's text, an advertised literal, and whether an
address is viable. -/
structure Net where
  joinHostPort : Bytes → Nat → Bytes
  parseAdvertisedAddr : Bytes → Option Bytes
  viable : Bytes → Bool

/-- `IP.IsUnspecified`, on 4 or 16 bytes. -/
def isUnspecified (ip : Bytes) : Bool :=
  ip = List.replicate 4 0 ∨ ip = List.replicate 16 0 ∨
    ip = List.replicate 10 0 ++ [0xff, 0xff] ++ List.replicate 4 0

section
variable (net : Net)

/-- One entry of `parseNodes`: `[ip, port, node_id, pk]`. -/
def parseNode : Value → Option NodeContact
  | .array [.bytes ip, portValue, .bytes nodeID, .bytes pk] =>
    match asUint64 portValue with
    | none => none
    | some port =>
      if port = 0 ∨ port > 65535 then none
      else if ip.length ≠ 4 ∧ ip.length ≠ 16 then none
      else if isUnspecified ip then none
      -- lengths only: the id is not compared with the key
      else (newNodeContact nodeID pk (net.joinHostPort ip port.toNat) 0).toOption
  | _ => none

/-- `parseNodes`: the entries that parse. -/
def parseNodes : Value → List NodeContact
  | .array entries => entries.filterMap (parseNode net)
  | _ => []

end

/-! ## Learning -/

abbrev evictQueueCap : Nat := 64

/-- The node's contacts and its eviction queue. -/
structure ContactNode where
  id : Bytes
  rt : RoutingTable
  evictCh : List NodeContact
  /-- The buckets with a check queued or in flight. -/
  evictPending : List (Fin numBuckets)
  /-- The check in flight: the newcomer and the oldest contact being pinged. -/
  evicting : Option (NodeContact × NodeContact)

/-- One check per bucket; a full queue drops it. -/
def scheduleEviction (n : ContactNode) (c : NodeContact) : ContactNode :=
  match n.rt.bucketFor c.nodeID with
  | .error _ => n
  | .ok i =>
    if i ∈ n.evictPending ∨ n.evictCh.length ≥ evictQueueCap then n
    else { n with evictCh := n.evictCh ++ [c], evictPending := i :: n.evictPending }

/-- `learn`: a full bucket schedules a check. -/
def learn (n : ContactNode) (c : NodeContact) : ContactNode :=
  let (evict, rt) := n.rt.addOrIgnore c
  let n := { n with rt }
  if evict.isSome then scheduleEviction n c else n

/-- The birth stamp of a contact that is new to the table. -/
def bornAt (n : ContactNode) (c : NodeContact) : NodeContact :=
  if (n.rt.get c.nodeID).isNone then { c with firstSeen := c.lastSeen } else c

section
variable (P : Primitives) (net : Net)

/-- The id is the hash of the key. -/
def learnPeer (n : ContactNode) (pk raddr advertised : Bytes) (now : Int) : ContactNode :=
  match Crypto.tldID P pk with
  | none => n
  | some id =>
    if id = n.id then n
    else
      let addr := match net.parseAdvertisedAddr advertised with
        -- a viable advertised address wins over the observed one
        | some a => if net.viable a then a else raddr
        | none => raddr
      match newNodeContact id pk addr now with
      | .error _ => n
      | .ok c => learn n (bornAt n { c with confirmedAt := now })

/-- `AddPeer` and `AddPeerConfirmed`; `confirmedAt` is zero for the former. -/
def addPeer (n : ContactNode) (pk addr : Bytes) (now confirmedAt : Int) : ContactNode :=
  match Crypto.tldID P pk with
  | none => n
  | some id =>
    match newNodeContact id pk addr now with
    | .error _ => n
    | .ok c => learn n { c with confirmedAt }

/-- `learnContact`: never itself, never an unusable address. -/
def learnContact (now : Int) (n : ContactNode) (c : NodeContact) : ContactNode :=
  if c.nodeID = n.id then n
  else if !net.viable c.addr then n
  else learn n (bornAt n { c with lastSeen := now })

end

/-! ## The other users of the table -/

/-- How the check of an old contact ended. -/
inductive PingOutcome where
  /-- Answered, no usable address, or the node is shutting down. -/
  | keep
  | answeredAt (addr : Bytes)
  | silent
  deriving DecidableEq, Repr

/-- The bucket may be checked again. -/
def releaseEviction (n : ContactNode) (c : NodeContact) : ContactNode :=
  match n.rt.bucketFor c.nodeID with
  | .error _ => n
  | .ok i => { n with evictPending := n.evictPending.erase i }

/-- `evictCandidate` up to its ping. -/
def evictBegin (n : ContactNode) : ContactNode :=
  match n.evicting, n.evictCh with
  | none, c :: rest =>
    match n.rt.addOrIgnore c with
    -- the bucket got room while the newcomer was queued
    | (none, rt) => releaseEviction { n with rt, evictCh := rest } c
    | (some oldest, rt) => { n with rt, evictCh := rest, evicting := some (c, oldest) }
  | _, _ => n

/-- `evictCandidate` after its pings. -/
def evictEnd (n : ContactNode) (outcome : PingOutcome) : ContactNode :=
  match n.evicting with
  | none => n
  | some (c, oldest) =>
    let rt := match outcome with
      | .keep => n.rt
      | .answeredAt addr => n.rt.promoteAlt oldest.nodeID addr
      | .silent => ((n.rt.remove oldest.nodeID).addOrIgnore c).2
    releaseEviction { n with rt, evicting := none } c

/-- A zero TTL disables the sweep. -/
def probeFailed (n : ContactNode) (nodeID addr : Bytes) (now ttl : Int) : ContactNode :=
  match n.rt.get nodeID with
  | none => { n with rt := n.rt.remove nodeID }
  | some live =>
    match live.otherAddrs.find? (fun a =>
        a.addr ≠ addr ∧ (ttl ≤ 0 ∨ wrap64 (now - a.lastSeen) ≤ ttl)) with
    | some a => { n with rt := n.rt.promoteAlt nodeID a.addr }
    | none =>
      -- a confirmed contact keeps its slot on probation
      if live.confirmedAt > 0 then { n with rt := n.rt.demote nodeID }
      else { n with rt := n.rt.remove nodeID }

/-- `sweepIdleContacts`. -/
def sweepIdleContacts (n : ContactNode) (now ttl : Int) : ContactNode :=
  if ttl ≤ 0 then n
  else
    let idle := n.rt.allContacts.filter (fun c =>
      wrap64 (now - (if c.confirmedAt = 0 then c.lastSeen else c.confirmedAt)) > ttl)
    { n with rt := (idle.foldl (fun rt c => rt.remove c.nodeID) n.rt).pruneStaleAlts now (2 * ttl) }

/-- What changes the contacts. -/
inductive ContactAction where
  /-- `handle` of a datagram from an address, with what its arguments advertise;
  `waiting` says whether some query waits on its transaction id. -/
  | message (raw : Option Message) (waiting flagged : Bool) (raddr advertised : Bytes) (now : Int)
  /-- A bootstrap or peer-book entry. -/
  | addPeer (pk addr : Bytes) (now confirmedAt : Int)
  /-- The node list of an answer. -/
  | nodes (raw : Value) (now : Int)
  | evictBegin
  | evictEnd (outcome : PingOutcome)
  | probeFailed (nodeID addr : Bytes) (now ttl : Int)
  /-- `confirmContact`: the preferred address missed. -/
  | confirmMissed (nodeID addr : Bytes)
  | sweepIdle (now ttl : Int)

section
variable (P : Primitives) (net : Net)

/-- One action. -/
def contactStep (n : ContactNode) : ContactAction → ContactNode
  | .message raw waiting flagged raddr advertised now =>
    match decodeMessage P raw with
    | none => n
    | some m =>
      if m.y ≠ some .query ∧ !waiting then n
      -- a transient or blacklisted sender is not learned
      else if !m.verify P n.id || m.x || flagged then n
      else learnPeer P net n m.pk raddr advertised now
  | .addPeer pk addr now confirmedAt => addPeer P n pk addr now confirmedAt
  | .nodes raw now => (parseNodes net raw).foldl (learnContact net now) n
  | .evictBegin => evictBegin n
  | .evictEnd outcome => evictEnd n outcome
  | .probeFailed nodeID addr now ttl => probeFailed n nodeID addr now ttl
  | .confirmMissed nodeID addr => { n with rt := n.rt.promoteAlt nodeID addr }
  | .sweepIdle now ttl => sweepIdleContacts n now ttl

end

/-- A node that knows nobody. -/
def ContactNode.initial (id : Bytes) (capacity : Nat) : ContactNode :=
  { id, rt := newRoutingTable id capacity, evictCh := [], evictPending := [], evicting := none }

/-! ## Where a binding comes from -/

variable {P : Primitives} {net : Net}

/-- The node knows the binding: in its table, or waiting for a place. -/
def ContactNode.Knows (n : ContactNode) (b : Bytes × Bytes) : Prop :=
  n.rt.Binds b ∨ (∃ c ∈ n.evictCh, c.binding = b) ∨ ∃ c old, n.evicting = some (c, old) ∧ c.binding = b

/-- No contact is learned. -/
def ContactNode.NothingNew (n' n : ContactNode) : Prop := ∀ b, n'.Knows b → n.Knows b

variable {n : ContactNode} {b : Bytes × Bytes} {c : NodeContact} {now : Int} {pk : Bytes}

theorem nothingNew_of_rt {rt : RoutingTable} (h : rt.NoNewBinding n.rt) :
    ContactNode.NothingNew { n with rt } n := by
  intro b hb
  rcases hb with hrt | hqueue
  · exact .inl (h b hrt)
  · exact .inr hqueue

theorem knows_schedule (h : (scheduleEviction n c).Knows b) : n.Knows b ∨ c.binding = b := by
  unfold scheduleEviction at h
  split at h
  next => exact .inl h
  split at h
  next => exact .inl h
  rcases h with hrt | ⟨d, hd, hb⟩ | hflight
  · exact .inl (.inl hrt)
  · rcases List.mem_append.mp hd with hold | hnew
    · exact .inl (.inr (.inl ⟨d, hold, hb⟩))
    · rw [List.mem_singleton.mp hnew] at hb
      exact .inr hb
  · exact .inl (.inr (.inr hflight))

theorem knows_learn (h : (learn n c).Knows b) : n.Knows b ∨ c.binding = b := by
  have hadd : ContactNode.Knows { n with rt := (n.rt.addOrIgnore c).2 } b →
      n.Knows b ∨ c.binding = b := by
    rintro (hrt | hqueue)
    · exact (binds_add hrt).imp .inl id
    · exact .inl (.inr hqueue)
  unfold learn at h
  simp only at h
  split at h
  next => exact (knows_schedule h).elim hadd .inr
  next => exact hadd h

@[simp] theorem binding_bornAt (n : ContactNode) (c : NodeContact) :
    (bornAt n c).binding = c.binding := by
  unfold bornAt
  split <;> rfl

variable {addr : Bytes} {a : ContactAction}

theorem newNodeContact_binding {nodeID : Bytes}
    (h : newNodeContact nodeID pk addr now = .ok c) : c.binding = (nodeID, pk) := by
  unfold newNodeContact at h
  split at h
  next => cases h
  split at h
  next => cases h
  split at h
  next => cases h
  rw [Except.ok.injEq] at h
  rw [← h]
  rfl

theorem tldID_eq_some {id : Bytes} (h : Crypto.tldID P pk = some id) : id = P.sha256 pk := by
  unfold Crypto.tldID at h
  split at h
  next => cases h
  next => exact (Option.some.inj h).symm

theorem knows_learnPeer {raddr adv : Bytes}
    (h : (learnPeer P net n pk raddr adv now).Knows b) : n.Knows b ∨ b = (P.sha256 pk, pk) := by
  unfold learnPeer at h
  split at h
  next => exact .inl h
  next id hid =>
    split at h
    next => exact .inl h
    simp only at h
    split at h
    next => exact .inl h
    next c hc =>
      rcases knows_learn h with hold | hnew
      · exact .inl hold
      · right
        rw [binding_bornAt] at hnew
        rw [← tldID_eq_some hid, ← newNodeContact_binding hc]
        exact hnew.symm

theorem knows_addPeer {confirmedAt : Int} (h : (addPeer P n pk addr now confirmedAt).Knows b) :
    n.Knows b ∨ b = (P.sha256 pk, pk) := by
  unfold addPeer at h
  split at h
  next => exact .inl h
  next id hid =>
    split at h
    next => exact .inl h
    next c hc =>
      rcases knows_learn h with hold | hnew
      · exact .inl hold
      · right
        rw [← tldID_eq_some hid, ← newNodeContact_binding hc]
        exact hnew.symm

@[simp] theorem learn_id (n : ContactNode) (c : NodeContact) : (learn n c).id = n.id := by
  unfold learn scheduleEviction
  simp only
  split
  next =>
    split
    next => rfl
    split
    next => rfl
    next => rfl
  next => rfl

/-- The entry of a node list passes the filter of `learnContact`. -/
def Learned (net : Net) (own : Bytes) (c : NodeContact) : Prop :=
  c.nodeID ≠ own ∧ net.viable c.addr = true

theorem knows_learnContact (h : (learnContact net now n c).Knows b) :
    n.Knows b ∨ (Learned net n.id c ∧ c.binding = b) := by
  unfold learnContact at h
  split at h
  next => exact .inl h
  next hid =>
    split at h
    next => exact .inl h
    next hviable =>
      rcases knows_learn h with hold | hnew
      · exact .inl hold
      · rw [binding_bornAt] at hnew
        exact .inr ⟨⟨hid, by simpa using hviable⟩, hnew⟩

@[simp] theorem learnContact_id (n : ContactNode) (c : NodeContact) (now : Int) :
    (learnContact net now n c).id = n.id := by
  unfold learnContact
  split
  next => rfl
  split
  next => rfl
  next => exact learn_id _ _

theorem knows_learnAll {l : List NodeContact} {n : ContactNode}
    (h : (l.foldl (learnContact net now) n).Knows b) :
    n.Knows b ∨ ∃ c ∈ l, Learned net n.id c ∧ c.binding = b := by
  induction l generalizing n with
  | nil => exact .inl h
  | cons c l ih =>
    rcases ih h with hstep | ⟨d, hd, hlearned, hb⟩
    · rcases knows_learnContact hstep with hold | hnew
      · exact .inl hold
      · exact .inr ⟨c, List.mem_cons_self, hnew⟩
    · rw [learnContact_id] at hlearned
      exact .inr ⟨d, List.mem_cons_of_mem c hd, hlearned, hb⟩

@[simp] theorem knows_release (n : ContactNode) (c : NodeContact) (b : Bytes × Bytes) :
    (releaseEviction n c).Knows b ↔ n.Knows b := by
  unfold releaseEviction
  split <;> exact Iff.rfl

theorem nothingNew_evictBegin (n : ContactNode) : (evictBegin n).NothingNew n := by
  intro b h
  unfold evictBegin at h
  split at h
  next c rest hnone hqueue =>
    have hc : ∀ b, c.binding = b → n.Knows b := by
      intro b hb
      exact .inr (.inl ⟨c, by simp [hqueue], hb⟩)
    have hrest : ∀ b, (∃ d ∈ rest, d.binding = b) → n.Knows b := by
      rintro b ⟨d, hd, hb⟩
      exact .inr (.inl ⟨d, by simp [hqueue, hd], hb⟩)
    have hrt : ∀ evict rt, n.rt.addOrIgnore c = (evict, rt) → rt.Binds b → n.Knows b := by
      intro evict rt heq hb
      have hadd : (n.rt.addOrIgnore c).2.Binds b := by rwa [heq]
      exact (binds_add hadd).elim .inl (hc b)
    split at h
    next rt heq =>
      rw [knows_release] at h
      rcases h with hb | hq | ⟨d, old, hflight, _⟩
      · exact hrt _ _ heq hb
      · exact hrest b hq
      · exact absurd (hflight.symm.trans hnone) (by simp)
    next oldest rt heq =>
      rcases h with hb | hq | ⟨d, old, hflight, hb⟩
      · exact hrt _ _ heq hb
      · exact hrest b hq
      · rw [Option.some.injEq, Prod.mk.injEq] at hflight
        exact hc b (hflight.1 ▸ hb)
  next => exact h

theorem nothingNew_evictEnd (n : ContactNode) (outcome : PingOutcome) :
    (evictEnd n outcome).NothingNew n := by
  intro b h
  unfold evictEnd at h
  split at h
  next => exact h
  next c oldest hflight =>
    rw [knows_release] at h
    rcases h with hb | hq | ⟨d, old, hnone, _⟩
    · cases outcome with
      | keep => exact .inl hb
      | answeredAt addr => exact .inl (promoteAlt_noNewBinding _ _ _ b hb)
      | silent =>
        rcases binds_add hb with hold | hnew
        · exact .inl (remove_noNewBinding _ _ b hold)
        · exact .inr (.inr ⟨c, oldest, hflight, hnew⟩)
    · exact .inr (.inl hq)
    · cases hnone

theorem nothingNew_probeFailed (n : ContactNode) (nodeID addr : Bytes) (now ttl : Int) :
    (probeFailed n nodeID addr now ttl).NothingNew n := by
  unfold probeFailed
  split
  next => exact nothingNew_of_rt (remove_noNewBinding _ _)
  split
  next => exact nothingNew_of_rt (promoteAlt_noNewBinding _ _ _)
  split
  next => exact nothingNew_of_rt (demote_noNewBinding _ _)
  next => exact nothingNew_of_rt (remove_noNewBinding _ _)

theorem nothingNew_sweepIdle (n : ContactNode) (now ttl : Int) :
    (sweepIdleContacts n now ttl).NothingNew n := by
  unfold sweepIdleContacts
  split
  next => exact fun _ h => h
  refine nothingNew_of_rt ?_
  intro b h
  have hremoved := pruneStaleAlts_noNewBinding _ _ _ b h
  revert hremoved
  generalize (n.rt.allContacts.filter _) = idle
  generalize n.rt = rt
  induction idle generalizing rt with
  | nil => exact id
  | cons c idle ih =>
    intro hfold
    exact remove_noNewBinding _ _ b (ih _ hfold)

/-- The bindings an action can bring to a node. -/
def ContactAction.Brings (P : Primitives) (net : Net) (own : Bytes) (b : Bytes × Bytes) :
    ContactAction → Prop
  | .message raw _ _ _ _ _ => ∃ m, raw = some m ∧ b = (P.sha256 m.pk, m.pk)
  | .addPeer pk _ _ _ => b = (P.sha256 pk, pk)
  | .nodes raw _ => ∃ c ∈ parseNodes net raw, Learned net own c ∧ c.binding = b
  | _ => False

theorem knows_contactStep
    (h : (contactStep P net n a).Knows b) : n.Knows b ∨ a.Brings P net n.id b := by
  cases a with
  | message raw waiting flagged raddr advertised now =>
    unfold contactStep at h
    simp only at h
    split at h
    next => exact .inl h
    next m hm =>
      split at h
      next => exact .inl h
      split at h
      next => exact .inl h
      have hraw : raw = some m := (Option.filter_eq_some_iff.mp hm).1
      exact (knows_learnPeer h).imp id fun hb => ⟨m, hraw, hb⟩
  | addPeer pk addr now confirmedAt => exact knows_addPeer h
  | nodes raw now => exact knows_learnAll h
  | evictBegin => exact .inl (nothingNew_evictBegin n b h)
  | evictEnd outcome => exact .inl (nothingNew_evictEnd n outcome b h)
  | probeFailed nodeID addr now ttl => exact .inl (nothingNew_probeFailed n nodeID addr now ttl b h)
  | confirmMissed nodeID addr =>
    exact .inl (nothingNew_of_rt (promoteAlt_noNewBinding _ _ _) b h)
  | sweepIdle now ttl => exact .inl (nothingNew_sweepIdle n now ttl b h)

theorem contactStep_id (n : ContactNode) (a : ContactAction) :
    (contactStep P net n a).id = n.id := by
  have hrelease : ∀ (n : ContactNode) (c : NodeContact), (releaseEviction n c).id = n.id := by
    intro n c
    unfold releaseEviction
    split <;> rfl
  cases a with
  | message raw waiting flagged raddr advertised now =>
    unfold contactStep learnPeer
    simp only
    repeat' split
    all_goals simp
  | addPeer pk addr now confirmedAt =>
    unfold contactStep addPeer
    simp only
    repeat' split
    all_goals simp
  | nodes raw now =>
    unfold contactStep
    simp only
    generalize parseNodes net raw = l
    induction l generalizing n with
    | nil => rfl
    | cons c l ih => rw [List.foldl_cons, ih, learnContact_id]
  | evictBegin =>
    unfold contactStep evictBegin
    simp only
    repeat' split
    all_goals simp [hrelease]
  | evictEnd outcome =>
    unfold contactStep evictEnd
    simp only
    split
    next => rfl
    next => rw [hrelease]
  | probeFailed nodeID addr now ttl =>
    unfold contactStep probeFailed
    simp only
    repeat' split
    all_goals rfl
  | confirmMissed nodeID addr => rfl
  | sweepIdle now ttl =>
    unfold contactStep sweepIdleContacts
    simp only
    split <;> rfl

/-! ## Authentic contacts -/

/-- The list entries that are learned bind the hash of their key. -/
def ContactAction.Honest (P : Primitives) (net : Net) (own : Bytes) : ContactAction → Prop
  | .nodes raw _ => ∀ c ∈ parseNodes net raw, Learned net own c → c.nodeID = P.sha256 c.publicKey
  | _ => True

theorem ContactAction.Honest.hash {own : Bytes} (h : a.Honest P net own)
    (hb : a.Brings P net own b) : b.1 = P.sha256 b.2 := by
  cases a with
  | message raw waiting flagged raddr advertised now =>
    obtain ⟨m, _, heq⟩ := hb
    rw [heq]
  | addPeer pk addr now confirmedAt => rw [show b = _ from hb]
  | nodes raw now =>
    obtain ⟨c, hc, hlearned, heq⟩ := hb
    rw [← heq]
    exact h c hc hlearned
  | evictBegin => exact hb.elim
  | evictEnd outcome => exact hb.elim
  | probeFailed nodeID addr now ttl => exact hb.elim
  | confirmMissed nodeID addr => exact hb.elim
  | sweepIdle now ttl => exact hb.elim

/-- The node's id is fixed, and every known binding was brought by a past action. -/
structure Traced (P : Primitives) (net : Net) (own : Bytes) (past : List ContactAction)
    (n : ContactNode) : Prop where
  id : n.id = own
  brought : ∀ b, n.Knows b → ∃ a ∈ past, a.Brings P net own b

theorem Traced.initial (own : Bytes) (capacity : Nat) :
    Traced P net own [] (ContactNode.initial own capacity) := by
  refine ⟨rfl, ?_⟩
  rintro b (hrt | ⟨c, hc, _⟩ | ⟨c, old, hflight, _⟩)
  · exact absurd hrt newRoutingTable_binds
  · exact absurd hc List.not_mem_nil
  · exact absurd hflight (by simp [ContactNode.initial])

theorem Traced.step {own : Bytes} {past : List ContactAction} {n : ContactNode}
    (h : Traced P net own past n) (a : ContactAction) :
    Traced P net own (past ++ [a]) (contactStep P net n a) := by
  refine ⟨(contactStep_id n a).trans h.id, ?_⟩
  intro b hb
  rcases knows_contactStep hb with hold | hnew
  · obtain ⟨a', ha', hbrings⟩ := h.brought b hold
    exact ⟨a', List.mem_append_left _ ha', hbrings⟩
  · exact ⟨a, List.mem_append_right _ (List.mem_singleton_self a), h.id ▸ hnew⟩

theorem Traced.run (acts : List ContactAction) (own : Bytes) (capacity : Nat) :
    Traced P net own acts (acts.foldl (contactStep P net) (ContactNode.initial own capacity)) :=
  EachStep.history (fun _ _ a h _ => h.step a) (Traced.initial own capacity)
    (EachStep.of_forall_mem fun _ _ _ => trivial : EachStep _ (fun _ _ => True) _ _)

/-- **Authentic contacts**: in every run whose learned entries bind the hash of their key
every contact does, and a node list never changes a known id's key, as long as no two keys
collide. -/
theorem contacts_authentic (P : Primitives) (net : Net) (own : Bytes) (capacity : Nat)
    {acts : List ContactAction} (hhonest : ∀ a ∈ acts, a.Honest P net own)
    (hcollision : ∀ a ∈ acts, ∀ a' ∈ acts, ∀ b b', a.Brings P net own b → a'.Brings P net own b' →
      P.sha256 b.2 = P.sha256 b'.2 → b.2 = b'.2) :
    (∀ c ∈ (acts.foldl (contactStep P net) (ContactNode.initial own capacity)).rt.allContacts,
        c.nodeID = P.sha256 c.publicKey) ∧
      ∀ i raw now, acts[i]? = some (.nodes raw now) →
        ∀ c ∈ ((acts.take i).foldl (contactStep P net)
            (ContactNode.initial own capacity)).rt.allContacts,
          ∀ c' ∈ ((acts.take (i + 1)).foldl (contactStep P net)
              (ContactNode.initial own capacity)).rt.allContacts,
            c'.nodeID = c.nodeID → c'.publicKey = c.publicKey := by
  -- a contact after any part of the run
  have hbrought : ∀ i, ∀ c ∈ ((acts.take i).foldl (contactStep P net)
      (ContactNode.initial own capacity)).rt.allContacts,
      ∃ a ∈ acts, a.Brings P net own c.binding := by
    intro i c hc
    obtain ⟨a, ha, hbrings⟩ :=
      (Traced.run (acts.take i) own capacity).brought _ (.inl ⟨c, hc, rfl⟩)
    exact ⟨a, List.mem_of_mem_take ha, hbrings⟩
  refine ⟨?_, ?_⟩
  · intro c hc
    rw [← List.take_length (l := acts)] at hc
    obtain ⟨a, ha, hbrings⟩ := hbrought _ c hc
    exact (hhonest a ha).hash hbrings
  · intro i raw now _ c hc c' hc' hid
    obtain ⟨a, ha, hbrings⟩ := hbrought _ c hc
    obtain ⟨a', ha', hbrings'⟩ := hbrought _ c' hc'
    refine hcollision a' ha' a ha _ _ hbrings' hbrings ?_
    have hhash := (hhonest a ha).hash hbrings
    have hhash' := (hhonest a' ha').hash hbrings'
    exact hhash'.symm.trans (hid.trans hhash)

namespace ContactSample

open Sample

def plainNet : Net :=
  { joinHostPort := fun ip port => ip ++ [UInt8.ofNat port], parseAdvertisedAddr := fun _ => none,
    viable := fun _ => true }

def advertising (n k : UInt8) : Value :=
  .array [.array [.bytes [10, 0, 0, 7], .uint 53, .bytes (nodeID n), .bytes (Toy.publicKey k)]]

def told (n k : UInt8) : List ContactAction :=
  [.addPeer (Toy.publicKey 2) [9, 9] 1000 0, .nodes (advertising n k) 1001]

def table (acts : List ContactAction) : List (Bytes × Bytes) :=
  ((acts.foldl (contactStep Toy.primitives plainNet)
    (ContactNode.initial (nodeID 1) 20)).rt.allContacts).map
    NodeContact.binding

theorem parsed_binding {n k : UInt8}
    (hlist : (parseNodes plainNet (advertising n k)).map NodeContact.binding =
      [(nodeID n, Toy.publicKey k)]) (hc : c ∈ parseNodes plainNet (advertising n k)) :
    c.binding = (nodeID n, Toy.publicKey k) := by
  have hmem := List.mem_map_of_mem (f := NodeContact.binding) hc
  rw [hlist] at hmem
  exact List.mem_singleton.mp hmem

end ContactSample

section
open Sample ContactSample

theorem told_of_third_authentic :
    table (told 3 3) = [(nodeID 3, Toy.publicKey 3), (nodeID 2, Toy.publicKey 2)] ∧
      ∀ c ∈ ((told 3 3).foldl (contactStep Toy.primitives plainNet)
        (ContactNode.initial (nodeID 1) 20)).rt.allContacts,
        c.nodeID = Toy.primitives.sha256 c.publicKey := by
  have hlist : (parseNodes plainNet (advertising 3 3)).map NodeContact.binding =
      [(nodeID 3, Toy.publicKey 3)] := by
    decide +kernel
  -- the keys of the run
  have hkeys : ∀ a ∈ told 3 3, ∀ b, a.Brings Toy.primitives plainNet (nodeID 1) b →
      b.2 = Toy.publicKey 2 ∨ b.2 = Toy.publicKey 3 := by
    intro a ha b hb
    simp only [told, List.mem_cons, List.not_mem_nil, or_false] at ha
    rcases ha with rfl | rfl
    · exact .inl (congrArg Prod.snd hb)
    · obtain ⟨c, hc, _, heq⟩ := hb
      rw [← heq, parsed_binding hlist hc]
      exact .inr rfl
  have hdiffer : Toy.primitives.sha256 (Toy.publicKey 2) ≠
      Toy.primitives.sha256 (Toy.publicKey 3) := by
    decide +kernel
  refine ⟨by decide +kernel, (contacts_authentic Toy.primitives plainNet (nodeID 1) 20 ?_ ?_).1⟩
  · intro a ha
    simp only [told, List.mem_cons, List.not_mem_nil, or_false] at ha
    rcases ha with rfl | rfl
    · trivial
    · intro c hc _
      have hb := parsed_binding hlist hc
      rw [NodeContact.binding, Prod.mk.injEq] at hb
      rw [hb.1, hb.2]
      rfl
  · intro a ha a' ha' b b' hb hb' hsame
    rcases hkeys a ha b hb with h | h <;> rcases hkeys a' ha' b' hb' with h' | h'
    · rw [h, h']
    · rw [h, h'] at hsame
      exact absurd hsame hdiffer
    · rw [h, h'] at hsame
      exact absurd hsame.symm hdiffer
    · rw [h, h']

/-- **A known id gets another key** by a node list that names key 3 for the id of key 2. -/
theorem known_key_overwritten :
    table ((told 2 3).take 1) = [(nodeID 2, Toy.publicKey 2)] ∧
      table (told 2 3) = [(nodeID 2, Toy.publicKey 3)] ∧
      nodeID 2 ≠ Toy.primitives.sha256 (Toy.publicKey 3) := by
  decide +kernel

end

end Freens.Dht.Routing
