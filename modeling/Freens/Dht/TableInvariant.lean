/-
**THE ROUTING TABLE OVER WHOLE RUNS** (`dht/routing.go`: `AddOrRefresh`,
`mergeAddr`, `PromoteAlt`, `BucketFor`, `Add`, `Remove`, `Demote`,
`PruneStaleAlts`): a contact's addresses (`Housed`) and a bucket's ids
(`BucketOk`) are permuted, extended and cut.
-/
import Freens.Dht.RoutingTable

namespace Freens.Dht.Routing

open Library

/-! ## The ranking of addresses -/

theorem outranks_irrefl (a : AddrState) : a.outranks a = false := by
  simp [AddrState.outranks, addrOutranks]

theorem outranks_trans (a b c : AddrState) (hab : a.outranks b = true) (hbc : b.outranks c = true) :
    a.outranks c = true := by
  -- a confirmed address only loses to a confirmed one, so both comparisons agree
  simp only [AddrState.outranks, addrOutranks] at hab hbc ⊢
  split at hab <;> split at hbc <;> split <;> simp only [decide_eq_true_eq] at * <;> omega

/-- **Re-pointing**: an alternate that outranks the preferred address changes places with
it, or nothing happens. -/
theorem repoint_cases (c : NodeContact) :
    (c.repointPreferredIfNeeded = c ∧ ∀ a ∈ c.alts, a.outranks c.preferred = false) ∨
      ∃ i a, c.alts[i]? = some a ∧ a.outranks c.preferred = true ∧
        c.repointPreferredIfNeeded = c.prefer i a c.preferred := by
  have hchampion := foldl_challenge (fun x : AddrState × Nat => outranks_irrefl x.1)
    (fun x y z => outranks_trans x.1 y.1 z.1)
    (c.alts.zipIdx.filter (fun x => x.1.outranks c.preferred))
  unfold NodeContact.repointPreferredIfNeeded
  rcases hchampion with ⟨hnil, hnone⟩ | ⟨⟨a, i⟩, hsome, hbest⟩
  · rw [hnone]
    refine .inl ⟨rfl, ?_⟩
    intro a ha
    obtain ⟨i, hi⟩ := List.mem_iff_getElem?.mp ha
    have hmem : (a, i) ∈ c.alts.zipIdx := List.mem_zipIdx_iff_getElem?.mpr hi
    exact Bool.eq_false_iff.mpr (List.filter_eq_nil_iff.mp hnil (a, i) hmem)
  · rw [hsome]
    obtain ⟨hmem, hbetter⟩ := List.mem_filter.mp hbest.mem
    exact .inr ⟨i, a, List.mem_zipIdx_iff_getElem?.mp hmem, hbetter, rfl⟩

/-! ## The addresses of one contact -/

/-- Every address of a contact. -/
def NodeContact.addrs (c : NodeContact) : List Bytes := c.addr :: c.alts.map (·.addr)

/-- Pairwise distinct addresses, within the limit. -/
structure NodeContact.Housed (c : NodeContact) : Prop where
  distinct : c.addrs.Nodup
  few : c.addrs.length ≤ maxAddrsPerContact

instance (c : NodeContact) : Decidable c.Housed :=
  decidable_of_iff (c.addrs.Nodup ∧ c.addrs.length ≤ maxAddrsPerContact)
    ⟨fun h => ⟨h.1, h.2⟩, fun h => ⟨h.1, h.2⟩⟩

variable {c : NodeContact} {rt : RoutingTable} {d cur : NodeContact}

theorem NodeContact.Housed.of_perm (h : c.Housed) (hperm : d.addrs.Perm c.addrs) : d.Housed :=
  ⟨hperm.nodup_iff.mpr h.distinct, hperm.length_eq ▸ h.few⟩

theorem NodeContact.Housed.of_sublist (h : c.Housed) (hsub : d.addrs.Sublist c.addrs) : d.Housed :=
  ⟨h.distinct.sublist hsub, Nat.le_trans hsub.length_le h.few⟩

theorem addrs_prefer_perm {i : Nat} {a old : AddrState} (ha : c.alts[i]? = some a)
    (hold : old.addr = c.addr) : (c.prefer i a old).addrs.Perm c.addrs := by
  obtain ⟨hlt, hget⟩ := List.getElem?_eq_some_iff.mp ha
  -- both lists hold the preferred address, the alternate and the other alternates
  have hset : ((c.alts.set i old).map (·.addr)).Perm
      (c.addr :: (c.alts.eraseIdx i).map (·.addr)) := by
    rw [← hold]
    exact (List.set_perm_cons_eraseIdx hlt old).map (·.addr)
  have herase : (a.addr :: (c.alts.eraseIdx i).map (·.addr)).Perm (c.alts.map (·.addr)) := by
    rw [← hget]
    exact (List.getElem_cons_eraseIdx_perm hlt).map (·.addr)
  exact (hset.cons a.addr).trans ((List.Perm.swap _ _ _).trans (herase.cons c.addr))

theorem NodeContact.Housed.repoint (h : c.Housed) : c.repointPreferredIfNeeded.Housed := by
  rcases repoint_cases c with ⟨hsame, _⟩ | ⟨i, a, ha, _, hmoved⟩
  · rwa [hsame]
  · rw [hmoved]
    exact h.of_perm (addrs_prefer_perm ha rfl)

theorem trimAlts_sublist (fuel : Nat) (alts : List AddrState) :
    (trimAlts fuel alts).Sublist alts := by
  induction fuel generalizing alts with
  | zero => exact List.Sublist.refl _
  | succ fuel ih =>
    unfold trimAlts
    split
    next =>
      split
      next => exact List.Sublist.refl _
      next i _ => exact (ih _).trans (List.eraseIdx_sublist _ _)
    next => exact List.Sublist.refl _

theorem length_trimAlts_le {fuel : Nat} {alts : List AddrState}
    (h : alts.length ≤ fuel + (maxAddrsPerContact - 1)) :
    (trimAlts fuel alts).length ≤ maxAddrsPerContact - 1 := by
  induction fuel generalizing alts with
  | zero =>
    rw [Nat.zero_add] at h
    exact h
  | succ fuel ih =>
    unfold trimAlts
    split
    next hlong =>
      have hchampion := @foldl_challenge _
        (fun a b => decide (a.1.lastSeen < b.1.lastSeen)) (by simp)
        (fun a b c hab hbc => by
          simp only [decide_eq_true_eq] at hab hbc ⊢
          omega)
        alts.zipIdx
      rcases hchampion with ⟨hnil, _⟩ | ⟨⟨a, i⟩, hsome, hbest⟩
      · have hempty : alts = [] := List.zipIdx_eq_nil_iff.mp hnil
        rw [hempty] at hlong
        exact absurd hlong (by decide)
      · rw [hsome]
        apply ih
        have hi := List.getElem?_eq_some_iff.mp (List.mem_zipIdx_iff_getElem?.mp hbest.mem)
        rw [List.length_eraseIdx_of_lt hi.1]
        omega
    next hshort => exact Nat.le_of_not_lt hshort

theorem NodeContact.Housed.mergeAddr (h : c.Housed) (addr : Bytes)
    (lastSeen confirmedAt : Int) : (c.mergeAddr addr lastSeen confirmedAt).Housed := by
  unfold NodeContact.mergeAddr
  split
  next => exact h
  next hother =>
    split
    next i hi =>
      -- a known alternate: only its times change
      refine NodeContact.Housed.repoint (h.of_perm (List.Perm.of_eq ?_))
      exact congrArg (c.addr :: ·) (map_modify_of_eq (f := AddrState.addr) (by intro _; rfl) c.alts i)
    next hnone =>
      -- a new one joins, and the least recently seen go
      have hfresh : addr ∉ c.addrs := by
        intro hmem
        rcases List.mem_cons.mp hmem with heq | halt
        · exact hother heq
        · obtain ⟨a, ha, haddr⟩ := List.mem_map.mp halt
          have hdiffers := List.findIdx?_eq_none_iff.mp hnone a ha
          exact absurd haddr (of_decide_eq_false hdiffers)
      have hgrown : (c.addrs ++ [addr]).Nodup := by
        rw [← List.concat_eq_append]
        exact h.distinct.concat hfresh
      have hsub := trimAlts_sublist (c.alts ++ [AddrState.mk addr lastSeen confirmedAt]).length
        (c.alts ++ [AddrState.mk addr lastSeen confirmedAt])
      refine NodeContact.Housed.repoint ⟨hgrown.sublist ?_, ?_⟩
      · show (c.addr :: _).Sublist (c.addr :: (c.alts.map (·.addr) ++ [addr]))
        have hmap := hsub.map (·.addr)
        rw [List.map_append] at hmap
        exact hmap.cons_cons c.addr
      · show (c.addr :: _).length ≤ 3 + 1
        rw [List.length_cons, List.length_map]
        exact Nat.succ_le_succ (length_trimAlts_le (Nat.le_add_right _ _))

theorem NodeContact.Housed.refreshedBy (h : cur.Housed) (c : NodeContact) :
    (cur.refreshedBy c).Housed := by
  have hkey : NodeContact.Housed { cur with publicKey := c.publicKey } :=
    h.of_perm (List.Perm.refl _)
  have hmerged := hkey.mergeAddr c.addr c.lastSeen c.confirmedAt
  unfold NodeContact.refreshedBy
  simp only
  split <;> exact hmerged.of_perm (List.Perm.refl _)

theorem nodeID_refreshedBy (cur c : NodeContact) : (cur.refreshedBy c).nodeID = cur.nodeID :=
  congrArg Prod.fst (binding_refreshedBy cur c)

/-! ## Where an id belongs -/

theorem bitLenU8_pos {b : UInt8} (h : b ≠ 0) : 0 < bitLenU8 b := by
  rw [bitLenU8, if_neg h]
  exact Nat.succ_pos _

theorem commonPrefixLength_lt {a b : Bytes} (hlen : a.length = b.length) (hne : a ≠ b) :
    commonPrefixLength a b < 8 * a.length := by
  induction a generalizing b with
  | nil => exact absurd (List.length_eq_zero_iff.mp hlen.symm).symm hne
  | cons x xs ih =>
    cases b with
    | nil => exact absurd hlen (Nat.succ_ne_zero _)
    | cons y ys =>
      rw [commonPrefixLength, List.length_cons]
      split
      next hxor =>
        have htail : xs ≠ ys := by
          intro heq
          rw [UInt8.xor_eq_zero_iff.mp hxor, heq] at hne
          exact hne rfl
        have hrest := ih (Nat.succ.inj hlen) htail
        omega
      next hxor =>
        have hbits := bitLenU8_pos hxor
        omega

/-- A node id other than the local one, which shares exactly that many leading bits with it. -/
structure Located (selfID : Bytes) (i : Fin numBuckets) (nodeID : Bytes) : Prop where
  length : nodeID.length = nodeIDLen
  notSelf : nodeID ≠ selfID
  bits : commonPrefixLength selfID nodeID = i

theorem located_of_bucketFor {nodeID : Bytes} {i : Fin numBuckets}
    (hself : rt.selfID.length = nodeIDLen) (h : rt.bucketFor nodeID = .ok i) :
    Located rt.selfID i nodeID := by
  unfold RoutingTable.bucketFor at h
  split at h
  next => cases h
  next hlength =>
    split at h
    next => cases h
    next hnotSelf =>
      have hlength : nodeID.length = nodeIDLen := not_not.mp hlength
      have hbound := commonPrefixLength_lt (hself.trans hlength.symm) (Ne.symm hnotSelf)
      rw [hself] at hbound
      replace hbound : commonPrefixLength rt.selfID nodeID < 256 := hbound
      have hclamp : min (commonPrefixLength rt.selfID nodeID) (numBuckets - 1)
          = commonPrefixLength rt.selfID nodeID := Nat.min_eq_left (Nat.le_of_lt_succ hbound)
      rw [hclamp] at h
      refine ⟨hlength, hnotSelf, ?_⟩
      rw [← Except.ok.inj h]
      exact (Nat.mod_eq_of_lt hbound).symm

/-! ## One bucket -/

/-- What holds of a bucket. -/
structure BucketOk (selfID : Bytes) (capacity : Nat) (i : Fin numBuckets)
    (nodes : List NodeContact) : Prop where
  located : ∀ c ∈ nodes, Located selfID i c.nodeID
  unique : (nodes.map (·.nodeID)).Nodup
  bounded : nodes.length ≤ capacity
  housed : ∀ c ∈ nodes, c.Housed

section Bucket

variable {selfID : Bytes} {capacity : Nat} {i : Fin numBuckets} {nodes : List NodeContact}
  {f : NodeContact → NodeContact}

theorem ids_modifyContact (hid : ∀ c, (f c).nodeID = c.nodeID) (nodes : List NodeContact)
    (nodeID : Bytes) : (modifyContact nodes nodeID f).map (·.nodeID) = nodes.map (·.nodeID) :=
  map_modify_of_eq hid nodes _

section
variable (h : BucketOk selfID capacity i nodes)
include h

theorem BucketOk.modify (hid : ∀ c, (f c).nodeID = c.nodeID)
    (hf : ∀ c, c.Housed → (f c).Housed) (nodeID : Bytes) :
    BucketOk selfID capacity i (modifyContact nodes nodeID f) where
  located := by
    intro c hc
    rcases mem_modifyContact hc with hold | ⟨d, hd, _, heq⟩
    · exact h.located c hold
    · rw [heq, hid]
      exact h.located d hd
  unique := by
    rw [ids_modifyContact hid]
    exact h.unique
  bounded := by
    rw [modifyContact, List.length_modify]
    exact h.bounded
  housed := by
    intro c hc
    rcases mem_modifyContact hc with hold | ⟨d, hd, _, heq⟩
    · exact h.housed c hold
    · rw [heq]
      exact hf d (h.housed d hd)

theorem BucketOk.sublist {nodes' : List NodeContact}
    (hsub : nodes'.Sublist nodes) : BucketOk selfID capacity i nodes' where
  located := fun c hc => h.located c (hsub.subset hc)
  unique := h.unique.sublist (hsub.map _)
  bounded := Nat.le_trans hsub.length_le h.bounded
  housed := fun c hc => h.housed c (hsub.subset hc)

theorem BucketOk.append
    (hlocated : Located selfID i c.nodeID) (hnew : c.nodeID ∉ nodes.map (·.nodeID))
    (hroom : nodes.length < capacity) (hhoused : c.Housed) :
    BucketOk selfID capacity i (nodes ++ [c]) where
  located := by
    intro d hd
    rcases List.mem_append.mp hd with hold | hlast
    · exact h.located d hold
    · rw [List.mem_singleton.mp hlast]
      exact hlocated
  unique := by
    rw [List.map_append, List.map_singleton, ← List.concat_eq_append]
    exact h.unique.concat hnew
  bounded := by
    rw [List.length_append, List.length_singleton]
    exact hroom
  housed := by
    intro d hd
    rcases List.mem_append.mp hd with hold | hlast
    · exact h.housed d hold
    · rw [List.mem_singleton.mp hlast]
      exact hhoused

end

theorem eraseP_frees (hunique : (nodes.map (·.nodeID)).Nodup) (hcur : cur ∈ nodes) :
    cur.nodeID ∉ (nodes.eraseP (·.nodeID = cur.nodeID)).map (·.nodeID) ∧
      (nodes.eraseP (·.nodeID = cur.nodeID)).length < nodes.length := by
  obtain ⟨a, l₁, l₂, _, ha, hsplit, herase⟩ :=
    List.exists_of_eraseP (p := (·.nodeID = cur.nodeID)) hcur (by simp)
  have ha : a.nodeID = cur.nodeID := of_decide_eq_true ha
  rw [herase]
  constructor
  · rw [hsplit, List.map_append, List.map_cons, ha, List.nodup_middle, List.nodup_cons,
      ← List.map_append] at hunique
    exact hunique.1
  · rw [hsplit]
    simp

theorem BucketOk.addOrRefresh (h : BucketOk selfID capacity i nodes)
    (hlocated : Located selfID i c.nodeID) (hhoused : c.Housed) :
    BucketOk selfID capacity i (addOrRefresh capacity nodes c).2 := by
  unfold Routing.addOrRefresh
  split
  next cur hfound =>
    have hcur := List.mem_of_find?_eq_some hfound
    have hid : cur.nodeID = c.nodeID := by simpa using List.find?_some hfound
    split
    next =>
      obtain ⟨hgone, hroom⟩ := eraseP_frees h.unique hcur
      rw [← hid]
      apply (h.sublist List.eraseP_sublist).append
      · rw [nodeID_refreshedBy]
        exact h.located cur hcur
      · rw [nodeID_refreshedBy]
        exact hgone
      · exact Nat.lt_of_lt_of_le hroom h.bounded
      · exact (h.housed cur hcur).refreshedBy c
    next =>
      exact h.modify (fun d => nodeID_refreshedBy d c) (fun _ hd => hd.refreshedBy c) c.nodeID
  next hnone =>
    split
    next => exact h
    next hroom =>
      refine h.append hlocated ?_ (Nat.lt_of_not_le hroom) hhoused
      intro hmem
      obtain ⟨d, hd, hdid⟩ := List.mem_map.mp hmem
      have hdiffers := List.find?_eq_none.mp hnone d hd
      exact hdiffers (decide_eq_true hdid)

end Bucket

/-! ## The table -/

/-- What holds of a table. -/
structure RoutingTable.Valid (rt : RoutingTable) : Prop where
  self : rt.selfID.length = nodeIDLen
  bucket : ∀ i, BucketOk rt.selfID rt.capacity i (rt.buckets i)

theorem valid_newRoutingTable {selfID : Bytes} (hself : selfID.length = nodeIDLen) (capacity : Nat) :
    (newRoutingTable selfID capacity).Valid where
  self := hself
  bucket := fun _ =>
    ⟨fun _ hc => absurd hc List.not_mem_nil, List.nodup_nil, Nat.zero_le _,
      fun _ hc => absurd hc List.not_mem_nil⟩

theorem RoutingTable.Valid.setBucket (h : rt.Valid) {i : Fin numBuckets} {nodes : List NodeContact}
    (hnodes : BucketOk rt.selfID rt.capacity i nodes) :
    (rt.setBucket i nodes).Valid where
  self := h.self
  bucket := by
    intro j
    show BucketOk rt.selfID rt.capacity j (if j = i then nodes else rt.buckets j)
    split
    next heq =>
      rw [heq]
      exact hnodes
    next => exact h.bucket j

/-- The calls that change a table. -/
inductive TableEvent where
  | add (c : NodeContact)
  | remove (nodeID : Bytes)
  | demote (nodeID : Bytes)
  | promoteAlt (nodeID addr : Bytes)
  | pruneStaleAlts (now olderThan : Int)

/-- One call. -/
def tableStep (rt : RoutingTable) : TableEvent → RoutingTable
  | .add c => (rt.addOrIgnore c).2
  | .remove nodeID => rt.remove nodeID
  | .demote nodeID => rt.demote nodeID
  | .promoteAlt nodeID addr => rt.promoteAlt nodeID addr
  | .pruneStaleAlts now olderThan => rt.pruneStaleAlts now olderThan

/-- A run from the empty table. -/
def tableRun (selfID : Bytes) (capacity : Nat) (events : List TableEvent) : RoutingTable :=
  events.foldl tableStep (newRoutingTable selfID capacity)

/-- Added contacts have a full-length id. -/
def TableEvent.Proper : TableEvent → Prop
  | .add c => c.Housed
  | _ => True

instance (e : TableEvent) : Decidable e.Proper :=
  match e with
  | .add c => inferInstanceAs (Decidable c.Housed)
  | .remove _ | .demote _ | .promoteAlt _ _ | .pruneStaleAlts _ _ => isTrue trivial

theorem RoutingTable.Valid.add (h : rt.Valid) (hc : c.Housed) : (rt.addOrIgnore c).2.Valid := by
  unfold RoutingTable.addOrIgnore
  split
  next => exact h
  next i hi => exact h.setBucket ((h.bucket i).addOrRefresh (located_of_bucketFor h.self hi) hc)

theorem RoutingTable.Valid.remove {rt : RoutingTable} (h : rt.Valid) (nodeID : Bytes) :
    (rt.remove nodeID).Valid := by
  unfold RoutingTable.remove
  split
  next => exact h
  next i _ => exact h.setBucket ((h.bucket i).sublist List.eraseP_sublist)

theorem RoutingTable.Valid.demote (h : rt.Valid) (nodeID : Bytes) : (rt.demote nodeID).Valid := by
  unfold RoutingTable.demote
  split
  next => exact h
  next i _ =>
    refine h.setBucket ((h.bucket i).modify ?_ ?_ nodeID)
    · intro c
      rfl
    · intro c hc
      exact hc.of_perm (List.Perm.refl _)

theorem RoutingTable.Valid.promoteAlt (h : rt.Valid) (nodeID addr : Bytes) :
    (rt.promoteAlt nodeID addr).Valid := by
  unfold RoutingTable.promoteAlt
  split
  next => exact h
  next i _ =>
    refine h.setBucket ((h.bucket i).modify ?_ ?_ nodeID)
    · intro c
      split
      next => rfl
      next => rfl
    · intro c hc
      split
      next => exact hc
      next a j hfound =>
        -- the outgoing address takes the place of the promoted one
        have hj := List.mem_zipIdx_iff_getElem?.mp (List.mem_of_find?_eq_some hfound)
        exact hc.of_perm (addrs_prefer_perm hj rfl)

theorem RoutingTable.Valid.pruneStaleAlts (h : rt.Valid) (now olderThan : Int) :
    (rt.pruneStaleAlts now olderThan).Valid where
  self := h.self
  bucket := by
    intro i
    -- pruning keeps every id, in its place
    have hids : ((rt.pruneStaleAlts now olderThan).buckets i).map (·.nodeID)
        = (rt.buckets i).map (·.nodeID) := by
      rw [RoutingTable.pruneStaleAlts, List.map_map]
      rfl
    refine ⟨?_, hids ▸ (h.bucket i).unique, ?_, ?_⟩
    · intro c hc
      obtain ⟨d, hd, heq⟩ := List.mem_map.mp hc
      rw [← heq]
      exact (h.bucket i).located d hd
    · rw [RoutingTable.pruneStaleAlts, List.length_map]
      exact (h.bucket i).bounded
    · intro c hc
      obtain ⟨d, hd, heq⟩ := List.mem_map.mp hc
      rw [← heq]
      refine ((h.bucket i).housed d hd).of_sublist ?_
      exact (List.filter_sublist.map AddrState.addr).cons_cons d.addr

theorem RoutingTable.Valid.step {rt : RoutingTable} (h : rt.Valid) {e : TableEvent} (he : e.Proper) :
    (tableStep rt e).Valid := by
  cases e with
  | add c => exact h.add he
  | remove nodeID => exact h.remove nodeID
  | demote nodeID => exact h.demote nodeID
  | promoteAlt nodeID addr => exact h.promoteAlt nodeID addr
  | pruneStaleAlts now olderThan => exact h.pruneStaleAlts now olderThan

theorem tableStep_frame (rt : RoutingTable) (e : TableEvent) :
    (tableStep rt e).selfID = rt.selfID ∧ (tableStep rt e).capacity = rt.capacity := by
  cases e with
  | add c =>
    rw [tableStep, RoutingTable.addOrIgnore]
    split <;> exact ⟨rfl, rfl⟩
  | remove nodeID =>
    rw [tableStep, RoutingTable.remove]
    split <;> exact ⟨rfl, rfl⟩
  | demote nodeID =>
    rw [tableStep, RoutingTable.demote]
    split <;> exact ⟨rfl, rfl⟩
  | promoteAlt nodeID addr =>
    rw [tableStep, RoutingTable.promoteAlt]
    split <;> exact ⟨rfl, rfl⟩
  | pruneStaleAlts now olderThan => exact ⟨rfl, rfl⟩

theorem valid_tableRun {selfID : Bytes} {capacity : Nat} {events : List TableEvent}
    (hself : selfID.length = nodeIDLen) (hproper : ∀ e ∈ events, e.Proper) :
    (tableRun selfID capacity events).Valid :=
  @EachStep.invariant _ _ tableStep (fun _ e => e.Proper) RoutingTable.Valid
    (fun _ _ h he => h.step he) events _ (valid_newRoutingTable hself capacity)
    (EachStep.of_forall_mem fun e he _ => hproper e he)

theorem RoutingTable.Valid.nodup (h : rt.Valid) : (rt.allContacts.map (·.nodeID)).Nodup := by
  rw [RoutingTable.allContacts, List.map_flatMap, List.nodup_flatMap]
  refine ⟨fun i _ => (h.bucket i).unique, ?_⟩
  refine (List.nodup_finRange numBuckets).imp ?_
  intro i j hij id hi hj
  obtain ⟨c, hc, hcid⟩ := List.mem_map.mp hi
  obtain ⟨d, hd, hdid⟩ := List.mem_map.mp hj
  -- the id determines the bucket
  have hbits := ((h.bucket i).located c hc).bits
  have hbits' := ((h.bucket j).located d hd).bits
  rw [hcid] at hbits
  rw [hdid] at hbits'
  exact hij (Fin.ext (hbits.symm.trans hbits'))

/-- **The routing table's invariant**, over every run: contacts are in their buckets, no id
twice and never the local one, no bucket over capacity, and addresses distinct and at most
four. -/
theorem tableRun_keeps_invariant (selfID : Bytes) (capacity : Nat) (events : List TableEvent)
    (hself : selfID.length = nodeIDLen) (hproper : ∀ e ∈ events, e.Proper) :
    (∀ i, ∀ c ∈ (tableRun selfID capacity events).buckets i,
      commonPrefixLength selfID c.nodeID = i) ∧
    ((tableRun selfID capacity events).allContacts.map (·.nodeID)).Nodup ∧
    (∀ c ∈ (tableRun selfID capacity events).allContacts, c.nodeID ≠ selfID) ∧
    (∀ i, ((tableRun selfID capacity events).buckets i).length ≤ capacity) ∧
    ∀ c ∈ (tableRun selfID capacity events).allContacts,
      c.addrs.Nodup ∧ c.addrs.length ≤ maxAddrsPerContact := by
  have hvalid : (tableRun selfID capacity events).Valid := valid_tableRun hself hproper
  obtain ⟨hid, hcap⟩ : (tableRun selfID capacity events).selfID = selfID ∧
      (tableRun selfID capacity events).capacity = capacity := by
    refine @EachStep.invariant _ _ tableStep (fun _ _ => True)
      (fun rt => rt.selfID = selfID ∧ rt.capacity = capacity) ?_ events _ ⟨rfl, rfl⟩
      (EachStep.of_forall_mem fun _ _ _ => trivial)
    intro rt e h _
    rwa [(tableStep_frame rt e).1, (tableStep_frame rt e).2]
  have hbucket := hvalid.bucket
  rw [hid, hcap] at hbucket
  refine ⟨fun i c hc => ((hbucket i).located c hc).bits, hvalid.nodup, ?_,
    fun i => (hbucket i).bounded, ?_⟩
  · intro c hc
    obtain ⟨i, hi⟩ := mem_allContacts.mp hc
    exact ((hbucket i).located c hi).notSelf
  · intro c hc
    obtain ⟨i, hi⟩ := mem_allContacts.mp hc
    exact ⟨((hbucket i).housed c hi).distinct, ((hbucket i).housed c hi).few⟩

namespace TableRun

def id (b : UInt8) : Bytes := b :: List.replicate 31 0

def contact (b : UInt8) (addr : Bytes) (lastSeen confirmedAt : Int) : NodeContact :=
  ⟨id b, [b], addr, lastSeen, confirmedAt, 0, []⟩

/-- Additions to one bucket, then a promotion. -/
def events : List TableEvent :=
  [.add (contact 0x80 [1] 10 10), .add (contact 0x80 [2] 20 0), .add (contact 0x81 [3] 30 0),
    .add (contact 0x82 [4] 40 0), .add (contact 0 [5] 50 0), .promoteAlt (id 0x80) [2],
    .demote (id 0x80), .pruneStaleAlts 100 50, .remove (id 0x81)]

end TableRun

theorem tableRun_of_two_contacts :
    ((tableRun (TableRun.id 0) 2 TableRun.events).buckets 0).map (·.nodeID) = [TableRun.id 0x80] ∧
      ((tableRun (TableRun.id 0) 2 TableRun.events).allContacts.map (·.nodeID)).Nodup :=
  ⟨by decide +kernel,
    (tableRun_keeps_invariant (TableRun.id 0) 2 TableRun.events (by decide) (by decide)).2.1⟩

end Freens.Dht.Routing
