/-
**THE ROUTING TABLE** (`dht/routing.go`, §6.2): 256 buckets, one per length of the
common prefix with the node's own id, at most `K` contacts in each, oldest first.

A contact that is learned again is refreshed in place: its addresses are merged,
and its key is overwritten (`binds_add`).
-/
import Freens.Dht.Rpc
import Mathlib.Data.Fin.Basic
import Mathlib.Data.List.FinRange

namespace Freens.Dht.Routing

open Library

/-! ## Contacts -/

/-- An alternative address. -/
structure AddrState where
  addr : Bytes
  lastSeen : Int
  confirmedAt : Int
  deriving DecidableEq, Repr

/-- Zero is never confirmed, or no birth stamp. -/
structure NodeContact where
  nodeID : Bytes
  publicKey : Bytes
  addr : Bytes
  lastSeen : Int
  confirmedAt : Int
  firstSeen : Int
  alts : List AddrState
  deriving DecidableEq, Repr

/-- Why a contact is refused. -/
inductive ContactError where
  /-- "node_id must be %d bytes, got %d" -/
  | nodeID (got : Nat)
  /-- "public_key must be %d bytes, got %d" -/
  | publicKey (got : Nat)
  /-- "addr must be non-empty" -/
  | addr
  deriving DecidableEq, Repr

abbrev maxAddrsPerContact : Nat := 4
abbrev numBuckets : Nat := 256

/-- `NewNodeContact`. -/
def newNodeContact (nodeID publicKey addr : Bytes) (lastSeen : Int) :
    Except ContactError NodeContact :=
  if nodeID.length ≠ nodeIDLen then .error (.nodeID nodeID.length)
  else if publicKey.length ≠ Constants.ed25519PublicKeyLen then
    .error (.publicKey publicKey.length)
  else if addr = [] then .error .addr
  else .ok { nodeID, publicKey, addr, lastSeen, confirmedAt := 0, firstSeen := 0, alts := [] }

/-- A fresher confirmation, or a fresher learn when neither was ever confirmed.
-/
def addrOutranks (inConfirmed inLastSeen curConfirmed curLastSeen : Int) : Bool :=
  if inConfirmed > 0 ∨ curConfirmed > 0 then inConfirmed > curConfirmed
  else inLastSeen > curLastSeen

/-- `a` is the better address. -/
def AddrState.outranks (a b : AddrState) : Bool :=
  addrOutranks a.confirmedAt a.lastSeen b.confirmedAt b.lastSeen

/-- The contact's own address, as a state. -/
def NodeContact.preferred (c : NodeContact) : AddrState := ⟨c.addr, c.lastSeen, c.confirmedAt⟩

/-- The preferred address changes places with an alternate. -/
def NodeContact.prefer (c : NodeContact) (i : Nat) (a old : AddrState) : NodeContact :=
  { c with addr := a.addr, lastSeen := a.lastSeen, confirmedAt := a.confirmedAt,
           alts := c.alts.set i old }

/-- The best alternative takes the first place if it outranks it. -/
def NodeContact.repointPreferredIfNeeded (c : NodeContact) : NodeContact :=
  match (c.alts.zipIdx.filter (fun x => x.1.outranks c.preferred)).foldl
      (challenge (fun a b => a.1.outranks b.1)) none with
  | none => c
  | some (a, i) => c.prefer i a c.preferred

/-- The loop of `trimAlts`: the least recently seen goes. -/
def trimAlts : Nat → List AddrState → List AddrState
  | 0, alts => alts
  | fuel + 1, alts =>
    if alts.length > maxAddrsPerContact - 1 then
      match alts.zipIdx.foldl (challenge (fun a b => a.1.lastSeen < b.1.lastSeen)) none with
      | none => alts
      | some (_, i) => trimAlts fuel (alts.eraseIdx i)
    else alts

/-- `mergeAddr`: a known address refreshed, a new one added. -/
def NodeContact.mergeAddr (c : NodeContact) (addr : Bytes) (lastSeen confirmedAt : Int) :
    NodeContact :=
  if addr = c.addr then c
  else match c.alts.findIdx? (·.addr = addr) with
    | some i =>
      ({ c with alts := c.alts.modify i (fun a =>
          { a with lastSeen, confirmedAt := max confirmedAt a.confirmedAt }) }
        ).repointPreferredIfNeeded
    | none =>
      let alts := c.alts ++ [⟨addr, lastSeen, confirmedAt⟩]
      ({ c with alts := trimAlts alts.length alts }).repointPreferredIfNeeded

/-- Freshest first. -/
def NodeContact.otherAddrs (c : NodeContact) : List AddrState :=
  c.alts.insertionSort (fun a b => a.confirmedAt > b.confirmedAt ∨
    (a.confirmedAt = b.confirmedAt ∧ a.lastSeen ≥ b.lastSeen))

/-! ## Buckets -/

/-- The stored contact, refreshed by a newly learned one. -/
def NodeContact.refreshedBy (cur c : NodeContact) : NodeContact :=
  let cur := { cur with publicKey := c.publicKey }
  let cur := cur.mergeAddr c.addr c.lastSeen c.confirmedAt
  let cur := { cur with confirmedAt := max c.confirmedAt cur.confirmedAt }
  if c.confirmedAt > 0 then { cur with lastSeen := c.lastSeen } else cur

/-- The eviction candidate, and the bucket. -/
def addOrRefresh (capacity : Nat) (nodes : List NodeContact) (c : NodeContact) :
    Option NodeContact × List NodeContact :=
  match nodes.find? (·.nodeID = c.nodeID) with
  | some cur =>
    -- only a direct exchange moves the contact to the tail
    if c.confirmedAt > 0 then
      (none, nodes.eraseP (·.nodeID = c.nodeID) ++ [cur.refreshedBy c])
    else (none, nodes.modify (nodes.findIdx (·.nodeID = c.nodeID)) (·.refreshedBy c))
  | none => if nodes.length ≥ capacity then (nodes.head?, nodes) else (none, nodes ++ [c])

/-- The contact with an id, changed; the first one counts. -/
def modifyContact (nodes : List NodeContact) (nodeID : Bytes) (f : NodeContact → NodeContact) :
    List NodeContact :=
  nodes.modify (nodes.findIdx (·.nodeID = nodeID)) f

/-! ## The table -/

/-- The buckets around a node's own id. -/
structure RoutingTable where
  selfID : Bytes
  capacity : Nat
  buckets : Fin numBuckets → List NodeContact

/-- `NewRoutingTable`. -/
def newRoutingTable (selfID : Bytes) (capacity : Nat) : RoutingTable :=
  { selfID, capacity, buckets := fun _ => [] }

/-- `bits.Len8`. -/
def bitLenU8 (b : UInt8) : Nat := if b = 0 then 0 else b.toNat.log2 + 1

/-- The bits two ids share in front. -/
def commonPrefixLength : Bytes → Bytes → Nat
  | x :: xs, y :: ys => if x ^^^ y = 0 then 8 + commonPrefixLength xs ys else 8 - bitLenU8 (x ^^^ y)
  | _, _ => 0

/-- Why an id has no bucket. -/
inductive RoutingError where
  /-- "node_id must be %d bytes, got %d" -/
  | nodeID (got : Nat)
  /-- "a node does not route to itself" -/
  | self
  deriving DecidableEq, Repr

/-- `BucketFor`. -/
def RoutingTable.bucketFor (rt : RoutingTable) (nodeID : Bytes) :
    Except RoutingError (Fin numBuckets) :=
  if nodeID.length ≠ nodeIDLen then .error (.nodeID nodeID.length)
  else if nodeID = rt.selfID then .error .self
  else .ok (Fin.ofNat numBuckets (min (commonPrefixLength rt.selfID nodeID) (numBuckets - 1)))

/-- One bucket replaced. -/
def RoutingTable.setBucket (rt : RoutingTable) (i : Fin numBuckets) (nodes : List NodeContact) :
    RoutingTable :=
  { rt with buckets := fun j => if j = i then nodes else rt.buckets j }

/-- `Add`; an invalid id is ignored, as `rtAddOrIgnore` does. -/
def RoutingTable.addOrIgnore (rt : RoutingTable) (c : NodeContact) :
    Option NodeContact × RoutingTable :=
  match rt.bucketFor c.nodeID with
  | .error _ => (none, rt)
  | .ok i =>
    let (evict, nodes) := addOrRefresh rt.capacity (rt.buckets i) c
    (evict, rt.setBucket i nodes)

/-- `Remove`. -/
def RoutingTable.remove (rt : RoutingTable) (nodeID : Bytes) : RoutingTable :=
  match rt.bucketFor nodeID with
  | .error _ => rt
  | .ok i => rt.setBucket i ((rt.buckets i).eraseP (·.nodeID = nodeID))

/-- `Demote`: the confirmation is withdrawn. -/
def RoutingTable.demote (rt : RoutingTable) (nodeID : Bytes) : RoutingTable :=
  match rt.bucketFor nodeID with
  | .error _ => rt
  | .ok i => rt.setBucket i (modifyContact (rt.buckets i) nodeID ({ · with confirmedAt := 0 }))

/-- The outgoing address loses its confirmation. -/
def RoutingTable.promoteAlt (rt : RoutingTable) (nodeID addr : Bytes) : RoutingTable :=
  match rt.bucketFor nodeID with
  | .error _ => rt
  | .ok i => rt.setBucket i (modifyContact (rt.buckets i) nodeID (fun c =>
      match c.alts.zipIdx.find? (·.1.addr = addr) with
      | none => c
      | some (a, j) => c.prefer j a { c.preferred with confirmedAt := 0 }))

/-- `Get`. -/
def RoutingTable.get (rt : RoutingTable) (nodeID : Bytes) : Option NodeContact :=
  match rt.bucketFor nodeID with
  | .error _ => none
  | .ok i => (rt.buckets i).find? (·.nodeID = nodeID)

/-- `PruneStaleAlts`. -/
def RoutingTable.pruneStaleAlts (rt : RoutingTable) (now olderThan : Int) : RoutingTable :=
  { rt with buckets := fun i => (rt.buckets i).map (fun c =>
      { c with alts := c.alts.filter (fun a =>
          !(a.confirmedAt = 0 ∧ wrap64 (now - a.lastSeen) > olderThan)) }) }

/-- Every contact, bucket by bucket. -/
def RoutingTable.allContacts (rt : RoutingTable) : List NodeContact :=
  (List.finRange numBuckets).flatMap rt.buckets

variable {rt : RoutingTable} {c : NodeContact} {b : Bytes × Bytes} {i : Fin numBuckets}

theorem mem_allContacts : c ∈ rt.allContacts ↔ ∃ i, c ∈ rt.buckets i := by
  simp [RoutingTable.allContacts]

/-! ## Which keys are bound to which ids -/

/-- The id and its key. -/
def NodeContact.binding (c : NodeContact) : Bytes × Bytes := (c.nodeID, c.publicKey)

/-- The table has the pair. -/
def RoutingTable.Binds (rt : RoutingTable) (b : Bytes × Bytes) : Prop :=
  ∃ c ∈ rt.allContacts, c.binding = b

/-- The table gains no pair. -/
def RoutingTable.NoNewBinding (rt' rt : RoutingTable) : Prop := ∀ b, rt'.Binds b → rt.Binds b

theorem newRoutingTable_binds {selfID : Bytes} {capacity : Nat} :
    ¬ (newRoutingTable selfID capacity).Binds b := by
  rintro ⟨c, hc, _⟩
  obtain ⟨i, hi⟩ := mem_allContacts.mp hc
  exact absurd hi List.not_mem_nil

variable {nodes : List NodeContact} {f : NodeContact → NodeContact} {nodeID : Bytes}

theorem binds_setBucket (h : (rt.setBucket i nodes).Binds b) :
    rt.Binds b ∨ ∃ c ∈ nodes, c.binding = b := by
  obtain ⟨c, hc, hb⟩ := h
  obtain ⟨j, hj⟩ := mem_allContacts.mp hc
  unfold RoutingTable.setBucket at hj
  simp only at hj
  split at hj
  next => exact .inr ⟨c, hj, hb⟩
  next => exact .inl ⟨c, mem_allContacts.mpr ⟨j, hj⟩, hb⟩

theorem binds_of_mem_bucket (h : c ∈ rt.buckets i) : rt.Binds c.binding :=
  ⟨c, mem_allContacts.mpr ⟨i, h⟩, rfl⟩

@[simp] theorem binding_repoint (c : NodeContact) :
    c.repointPreferredIfNeeded.binding = c.binding := by
  unfold NodeContact.repointPreferredIfNeeded
  split <;> rfl

@[simp] theorem binding_mergeAddr (c : NodeContact) (addr : Bytes) (ls ca : Int) :
    (c.mergeAddr addr ls ca).binding = c.binding := by
  unfold NodeContact.mergeAddr
  split
  next => rfl
  split <;> exact binding_repoint _

theorem binding_refreshedBy (cur c : NodeContact) :
    (cur.refreshedBy c).binding = (cur.nodeID, c.publicKey) := by
  have hmerge := binding_mergeAddr { cur with publicKey := c.publicKey } c.addr c.lastSeen
    c.confirmedAt
  unfold NodeContact.refreshedBy
  simp only
  split <;> exact hmerge

theorem mem_modifyContact (h : c ∈ modifyContact nodes nodeID f) :
    c ∈ nodes ∨ ∃ d ∈ nodes, d.nodeID = nodeID ∧ c = f d := by
  rcases mem_modify h with hold | ⟨d, hd, heq⟩
  · exact .inl hold
  · refine .inr ⟨d, List.mem_of_getElem? hd, ?_, heq⟩
    obtain ⟨hlt, hget⟩ := List.getElem?_eq_some_iff.mp hd
    have hfound := List.findIdx_getElem (w := hlt)
    rw [hget] at hfound
    exact of_decide_eq_true hfound

theorem binds_add (h : (rt.addOrIgnore c).2.Binds b) : rt.Binds b ∨ c.binding = b := by
  unfold RoutingTable.addOrIgnore at h
  split at h
  next => exact .inl h
  next i _ =>
    simp only at h
    rcases binds_setBucket h with hold | ⟨d, hd, hb⟩
    · exact .inl hold
    · unfold addOrRefresh at hd
      split at hd
      next cur hcur =>
        have hid : cur.nodeID = c.nodeID := by simpa using List.find?_some hcur
        have hrefresh : (cur.refreshedBy c).binding = c.binding := by
          rw [binding_refreshedBy, hid]
          rfl
        split at hd
        next =>
          rcases List.mem_append.mp hd with hold | hnew
          · exact .inl (hb ▸ binds_of_mem_bucket (List.mem_of_mem_eraseP hold))
          · rw [List.mem_singleton.mp hnew, hrefresh] at hb
            exact .inr hb
        next =>
          rcases mem_modifyContact hd with hold | ⟨d', _, hd', heq⟩
          · exact .inl (hb ▸ binds_of_mem_bucket hold)
          · rw [heq, binding_refreshedBy, hd'] at hb
            exact .inr hb
      next =>
        split at hd
        next => exact .inl (hb ▸ binds_of_mem_bucket hd)
        rcases List.mem_append.mp hd with hold | hnew
        · exact .inl (hb ▸ binds_of_mem_bucket hold)
        · rw [List.mem_singleton.mp hnew] at hb
          exact .inr hb

theorem noNewBinding_modify (hf : ∀ c, (f c).binding = c.binding) :
    (rt.setBucket i (modifyContact (rt.buckets i) nodeID f)).NoNewBinding rt := by
  intro b h
  rcases binds_setBucket h with hold | ⟨c, hc, hb⟩
  · exact hold
  · rcases mem_modifyContact hc with hold | ⟨d, hd, _, heq⟩
    · exact hb ▸ binds_of_mem_bucket hold
    · rw [heq, hf] at hb
      exact hb ▸ binds_of_mem_bucket hd

theorem remove_noNewBinding (rt : RoutingTable) (nodeID : Bytes) :
    (rt.remove nodeID).NoNewBinding rt := by
  intro b h
  unfold RoutingTable.remove at h
  split at h
  next => exact h
  rcases binds_setBucket h with hold | ⟨c, hc, hb⟩
  · exact hold
  · exact hb ▸ binds_of_mem_bucket (List.mem_of_mem_eraseP hc)

theorem demote_noNewBinding (rt : RoutingTable) (nodeID : Bytes) :
    (rt.demote nodeID).NoNewBinding rt := by
  unfold RoutingTable.demote
  split
  next => exact fun _ h => h
  next => exact noNewBinding_modify fun _ => rfl

theorem promoteAlt_noNewBinding (rt : RoutingTable) (nodeID addr : Bytes) :
    (rt.promoteAlt nodeID addr).NoNewBinding rt := by
  unfold RoutingTable.promoteAlt
  split
  next => exact fun _ h => h
  refine noNewBinding_modify ?_
  intro c
  split <;> rfl

theorem pruneStaleAlts_noNewBinding (rt : RoutingTable) (now olderThan : Int) :
    (rt.pruneStaleAlts now olderThan).NoNewBinding rt := by
  rintro b ⟨c, hc, hb⟩
  obtain ⟨i, hi⟩ := mem_allContacts.mp hc
  obtain ⟨d, hd, heq⟩ := List.mem_map.mp hi
  refine ⟨d, mem_allContacts.mpr ⟨i, hd⟩, ?_⟩
  rw [← hb, ← heq]
  rfl

end Freens.Dht.Routing
