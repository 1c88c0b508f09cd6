/-
**WHAT A MERE ADVERTISEMENT CHANGES** (`dht/routing.go`: `AddOrRefresh`,
`mergeAddr`, `repointPreferredIfNeeded`): the stored times and the place in the
bucket stay, but the address is merged first, and the merge may re-point the
contact at an alternate, whose times are then the contact's.
-/
import Freens.Dht.TableInvariant

namespace Freens.Dht.Routing

open Library

/-! ## Merging, taken apart -/

/-- The alternates once an address is merged, before the preferred one is
reconsidered. -/
def NodeContact.mergedAlts (c : NodeContact) (addr : Bytes) (lastSeen confirmedAt : Int) :
    List AddrState :=
  match c.alts.findIdx? (·.addr = addr) with
  | some i => c.alts.modify i (fun a =>
      { a with lastSeen, confirmedAt := max confirmedAt a.confirmedAt })
  | none =>
    let alts := c.alts ++ [⟨addr, lastSeen, confirmedAt⟩]
    trimAlts alts.length alts

theorem mergeAddr_eq (c : NodeContact) (addr : Bytes) (lastSeen confirmedAt : Int) :
    c.mergeAddr addr lastSeen confirmedAt =
      if addr = c.addr then c
      else ({ c with alts := c.mergedAlts addr lastSeen confirmedAt }).repointPreferredIfNeeded := by
  unfold NodeContact.mergeAddr NodeContact.mergedAlts
  cases c.alts.findIdx? (·.addr = addr) <;> rfl

/-- No other address takes the first place. -/
def Unmoved (cur : NodeContact) (addr : Bytes) (lastSeen confirmedAt : Int) : Prop :=
  addr = cur.addr ∨
    ∀ a ∈ cur.mergedAlts addr lastSeen confirmedAt, a.outranks cur.preferred = false

theorem mergeAddr_cases (c : NodeContact) (addr : Bytes) (lastSeen confirmedAt : Int) :
    (Unmoved c addr lastSeen confirmedAt ∧
        (c.mergeAddr addr lastSeen confirmedAt).preferred = c.preferred) ∨
      (¬ Unmoved c addr lastSeen confirmedAt ∧
        (c.mergeAddr addr lastSeen confirmedAt).preferred.outranks c.preferred = true) := by
  rw [mergeAddr_eq]
  by_cases haddr : addr = c.addr
  · rw [if_pos haddr]
    exact .inl ⟨.inl haddr, rfl⟩
  · rw [if_neg haddr]
    rcases repoint_cases { c with alts := c.mergedAlts addr lastSeen confirmedAt } with
      ⟨hsame, hnone⟩ | ⟨i, a, ha, hbetter, hmoved⟩
    · rw [hsame]
      exact .inl ⟨.inr hnone, rfl⟩
    · rw [hmoved]
      refine .inr ⟨?_, hbetter⟩
      rintro (heq | hnone)
      · exact haddr heq
      · have hworse : a.outranks c.preferred = false := hnone a (List.mem_of_getElem? ha)
        exact absurd (hbetter.symm.trans hworse) (by decide)

theorem later_of_outranks {a b : AddrState} (h : a.outranks b = true) :
    b.confirmedAt < a.confirmedAt ∨ b.lastSeen < a.lastSeen := by
  simp only [AddrState.outranks, addrOutranks] at h
  split at h
  next => exact .inl (of_decide_eq_true h)
  next => exact .inr (of_decide_eq_true h)

variable {cur c : NodeContact} {rt : RoutingTable} {nodeID : Bytes}

theorem refreshedBy_times_iff (hhearsay : c.confirmedAt = 0) :
    ((cur.refreshedBy c).lastSeen ≤ cur.lastSeen ∧
        (cur.refreshedBy c).confirmedAt ≤ cur.confirmedAt) ↔
      0 ≤ cur.confirmedAt ∧ Unmoved cur c.addr c.lastSeen 0 := by
  have hcases := mergeAddr_cases { cur with publicKey := c.publicKey } c.addr c.lastSeen 0
  -- what the refresh does with the merged contact
  have htimes : ∀ m,
      NodeContact.mergeAddr { cur with publicKey := c.publicKey } c.addr c.lastSeen 0 = m →
      (cur.refreshedBy c).lastSeen = m.lastSeen ∧
        (cur.refreshedBy c).confirmedAt = max 0 m.confirmedAt := by
    intro m hm
    rw [NodeContact.refreshedBy]
    simp only [hhearsay, hm]
    exact ⟨rfl, rfl⟩
  obtain ⟨hseen, hconfirmed⟩ := htimes _ rfl
  rw [hseen, hconfirmed]
  generalize NodeContact.mergeAddr { cur with publicKey := c.publicKey } c.addr c.lastSeen 0 = m
    at hcases
  rcases hcases with ⟨hunmoved, hsame⟩ | ⟨hmoved, hbetter⟩
  · -- the contact's own times stand
    have hunmoved : Unmoved cur c.addr c.lastSeen 0 := hunmoved
    have hseen : m.lastSeen = cur.lastSeen := congrArg AddrState.lastSeen hsame
    have hconfirmed : m.confirmedAt = cur.confirmedAt := congrArg AddrState.confirmedAt hsame
    rw [hseen, hconfirmed, and_iff_left hunmoved]
    omega
  · -- re-pointed: one of the two times is later now
    have hmoved : ¬ Unmoved cur c.addr c.lastSeen 0 := hmoved
    have hlater : cur.confirmedAt < m.confirmedAt ∨ cur.lastSeen < m.lastSeen :=
      later_of_outranks hbetter
    have hraised : ¬ (m.lastSeen ≤ cur.lastSeen ∧ max 0 m.confirmedAt ≤ cur.confirmedAt) := by
      omega
    exact iff_of_false hraised (fun h => hmoved h.2)

theorem unmoved_of_confirmed (hconfirmed : 0 < cur.confirmedAt)
    (halts : ∀ a ∈ cur.alts, a.outranks cur.preferred = false) (addr : Bytes) (lastSeen : Int) :
    Unmoved cur addr lastSeen 0 := by
  -- against a confirmed address only the confirmation counts
  have hrank : ∀ a : AddrState, a.outranks cur.preferred = false ↔ a.confirmedAt ≤ cur.confirmedAt := by
    intro a
    have hpos : a.confirmedAt > 0 ∨ cur.preferred.confirmedAt > 0 := .inr hconfirmed
    rw [AddrState.outranks, addrOutranks, if_pos hpos, decide_eq_false_iff_not]
    exact Int.not_lt
  right
  intro a ha
  rw [hrank]
  unfold NodeContact.mergedAlts at ha
  split at ha
  next i hi =>
    rcases mem_modify ha with hold | ⟨b, hb, heq⟩
    · exact (hrank a).mp (halts a hold)
    · have hb := (hrank b).mp (halts b (List.mem_of_getElem? hb))
      rw [heq]
      exact Int.max_le.mpr ⟨Int.le_of_lt hconfirmed, hb⟩
  next =>
    rcases List.mem_append.mp ((trimAlts_sublist _ _).subset ha) with hold | hnew
    · exact (hrank a).mp (halts a hold)
    · rw [List.mem_singleton.mp hnew]
      exact Int.le_of_lt hconfirmed

/-! ## In the table -/

theorem get_setBucket_modify {i : Fin numBuckets} {f : NodeContact → NodeContact}
    (hid : ∀ c, (f c).nodeID = c.nodeID) (hi : rt.bucketFor nodeID = .ok i) :
    (rt.setBucket i (modifyContact (rt.buckets i) nodeID f)).get nodeID = (rt.get nodeID).map f ∧
      ∀ j, ((rt.setBucket i (modifyContact (rt.buckets i) nodeID f)).buckets j).map (·.nodeID)
        = (rt.buckets j).map (·.nodeID) := by
  have hi' : (rt.setBucket i (modifyContact (rt.buckets i) nodeID f)).bucketFor nodeID = .ok i := hi
  constructor
  · rw [RoutingTable.get, hi', RoutingTable.get, hi]
    show List.find? _ (if i = i then _ else _) = _
    rw [if_pos rfl]
    exact find?_modify_findIdx (fun c => by rw [hid]) (rt.buckets i)
  · intro j
    show List.map _ (if j = i then _ else _) = _
    split
    next hj =>
      rw [hj]
      exact ids_modifyContact hid _ _
    next => rfl

theorem bucketFor_of_get (h : rt.get nodeID = some cur) :
    ∃ i, rt.bucketFor nodeID = .ok i ∧ (rt.buckets i).find? (·.nodeID = nodeID) = some cur := by
  unfold RoutingTable.get at h
  split at h
  next => cases h
  next i hi => exact ⟨i, hi, h⟩

theorem get_add_hearsay (hhearsay : c.confirmedAt = 0) (hget : rt.get c.nodeID = some cur) :
    (rt.addOrIgnore c).2.get c.nodeID = some (cur.refreshedBy c) ∧
      ∀ j, ((rt.addOrIgnore c).2.buckets j).map (·.nodeID) = (rt.buckets j).map (·.nodeID) := by
  obtain ⟨i, hi, hfound⟩ := bucketFor_of_get hget
  have hadd : (rt.addOrIgnore c).2
      = rt.setBucket i (modifyContact (rt.buckets i) c.nodeID (·.refreshedBy c)) := by
    have hnot : ¬ c.confirmedAt > 0 := by omega
    rw [RoutingTable.addOrIgnore, hi]
    show rt.setBucket i (addOrRefresh rt.capacity (rt.buckets i) c).2 = _
    rw [addOrRefresh, hfound]
    simp only [if_neg hnot]
    rfl
  have hchanged := get_setBucket_modify (f := (·.refreshedBy c)) (fun d => nodeID_refreshedBy d c) hi
  rw [hget] at hchanged
  rw [hadd]
  exact hchanged

theorem get_demote (hget : rt.get nodeID = some cur) :
    (rt.demote nodeID).get nodeID = some { cur with confirmedAt := 0 } := by
  obtain ⟨i, hi, _⟩ := bucketFor_of_get hget
  have hchanged := (get_setBucket_modify (f := ({ · with confirmedAt := 0 }))
    (fun _ => rfl) hi).1
  rw [hget] at hchanged
  rw [RoutingTable.demote, hi]
  exact hchanged

/-- **Hearsay is ignored**: no time rises and no contact changes place. -/
def Ignored (rt : RoutingTable) (c : NodeContact) : Prop :=
  ∃ cur cur', rt.get c.nodeID = some cur ∧ (rt.addOrIgnore c).2.get c.nodeID = some cur' ∧
    cur'.lastSeen ≤ cur.lastSeen ∧ cur'.confirmedAt ≤ cur.confirmedAt ∧
    ∀ i, ((rt.addOrIgnore c).2.buckets i).map (·.nodeID) = (rt.buckets i).map (·.nodeID)

theorem ignored_iff_unmoved (hhearsay : c.confirmedAt = 0) (hget : rt.get c.nodeID = some cur) :
    Ignored rt c ↔ 0 ≤ cur.confirmedAt ∧ Unmoved cur c.addr c.lastSeen 0 := by
  obtain ⟨hafter, hplaces⟩ := get_add_hearsay hhearsay hget
  rw [← refreshedBy_times_iff hhearsay]
  constructor
  · rintro ⟨d, d', hd, hd', hseen, hconfirmed, _⟩
    rw [hget] at hd
    rw [hafter] at hd'
    rw [Option.some.inj hd', Option.some.inj hd]
    exact ⟨hseen, hconfirmed⟩
  · rintro ⟨hseen, hconfirmed⟩
    exact ⟨cur, _, hget, hafter, hseen, hconfirmed, hplaces⟩

/-- **When hearsay refreshes.** An advertisement leaves a known contact's times and place
alone exactly when it does not re-point it. -/
theorem hearsay_ignored_iff (rt : RoutingTable) (c cur : NodeContact) (hhearsay : c.confirmedAt = 0)
    (hget : rt.get c.nodeID = some cur) :
    (Ignored rt c ↔ 0 ≤ cur.confirmedAt ∧ Unmoved cur c.addr c.lastSeen 0) ∧
    (Ignored (rt.demote c.nodeID) c ↔
      Unmoved { cur with confirmedAt := 0 } c.addr c.lastSeen 0) ∧
    (0 < cur.confirmedAt → (∀ a ∈ cur.alts, a.outranks cur.preferred = false) → Ignored rt c) ∧
    ∀ i, ((rt.addOrIgnore c).2.buckets i).map (·.nodeID) = (rt.buckets i).map (·.nodeID) := by
  have hiff := ignored_iff_unmoved hhearsay hget
  refine ⟨hiff, ?_, ?_, (get_add_hearsay hhearsay hget).2⟩
  · rw [ignored_iff_unmoved hhearsay (get_demote hget)]
    exact and_iff_right (Int.le_refl 0)
  · intro hconfirmed halts
    exact hiff.mpr ⟨Int.le_of_lt hconfirmed, unmoved_of_confirmed hconfirmed halts _ _⟩

namespace Advertised

/-- A contact only heard of. -/
def heardAt (addr : Bytes) : NodeContact := TableRun.contact 0x80 addr 200 0

/-- The contact as the table holds it. -/
def stored (addr : Bytes) (lastSeen confirmedAt : Int) (alts : List AddrState) : NodeContact :=
  { TableRun.contact 0x80 addr lastSeen confirmedAt with alts }

/-- A table that heard of it. -/
def learned : RoutingTable := tableRun (TableRun.id 0) 8 [.add (TableRun.contact 0x80 [1] 100 0)]

/-- A table with two confirmed addresses. -/
def confirmed : RoutingTable :=
  tableRun (TableRun.id 0) 8
    [.add (TableRun.contact 0x80 [1] 90 90), .add (TableRun.contact 0x80 [2] 100 100)]

/-- The same after a demotion. -/
def demoted : RoutingTable := confirmed.demote (TableRun.id 0x80)

end Advertised

theorem confirmed_contact_ignored : Ignored Advertised.confirmed (Advertised.heardAt [3]) :=
  (hearsay_ignored_iff Advertised.confirmed (Advertised.heardAt [3])
    (Advertised.stored [2] 100 100 [⟨[1], 90, 90⟩]) rfl (by decide +kernel)).2.2.1
    (by decide) (by decide)

/-- A contact never confirmed gets a later last-seen time; a demoted one is confirmed again. -/
theorem hearsay_raises_times :
    ¬ Ignored Advertised.learned (Advertised.heardAt [2]) ∧
    ¬ Ignored Advertised.demoted (Advertised.heardAt [3]) := by
  have hlearned : Advertised.learned.get (Advertised.heardAt [2]).nodeID
      = some (Advertised.stored [1] 100 0 []) := by
    decide +kernel
  have hseen : (Advertised.learned.addOrIgnore (Advertised.heardAt [2])).2.get
      (Advertised.heardAt [2]).nodeID = some (Advertised.stored [2] 200 0 [⟨[1], 100, 0⟩]) := by
    decide +kernel
  have hdemoted : Advertised.demoted.get (Advertised.heardAt [3]).nodeID
      = some (Advertised.stored [2] 100 0 [⟨[1], 90, 90⟩]) := by
    decide +kernel
  have hrevived : (Advertised.demoted.addOrIgnore (Advertised.heardAt [3])).2.get
      (Advertised.heardAt [3]).nodeID
        = some (Advertised.stored [1] 90 90 [⟨[2], 100, 0⟩, ⟨[3], 200, 0⟩]) := by
    decide +kernel
  constructor
  · rintro ⟨cur, cur', hcur, hcur', hle, _⟩
    rw [← Option.some.inj (hlearned.symm.trans hcur),
      ← Option.some.inj (hseen.symm.trans hcur')] at hle
    exact absurd hle (by decide)
  · rintro ⟨cur, cur', hcur, hcur', _, hle, _⟩
    rw [← Option.some.inj (hdemoted.symm.trans hcur),
      ← Option.some.inj (hrevived.symm.trans hcur')] at hle
    exact absurd hle (by decide)

end Freens.Dht.Routing
