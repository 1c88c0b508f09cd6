/-
**WHEN A MISS IS AUTHORITATIVE.** A walk that found nothing reports a clean miss
unless it counted a failed or a throttled probe. Not counted are: a contact passed
over because it is penalised or is the walker itself, a probe that ends with the
parent context, an answer with another error code, an answer whose envelopes all
fail to verify, and whoever is left after the last round.
-/
import Freens.Dht.KeyBinding
import Freens.Dht.WalkLoop

namespace Freens.Dht

open Library Wire

variable {P : Primitives} {self key : Bytes}

/-! ## Shortlists -/

variable {list shortlist : List NodeContact} {c : NodeContact} {st : WalkState} {r : Round}

theorem contactIn_iff {id : Bytes} :
    contactIn list id = true ↔ id ∈ list.map NodeContact.nodeID := by
  rw [contactIn, List.any_eq_true, List.mem_map]
  simp only [decide_eq_true_eq]

variable {x : NodeContact} {resp : Response} {offers : List SignedEnvelope} {free : Bool}

theorem mem_addContact (h : x ∈ addContact list c) : x ∈ list ∨ x = c := by
  unfold addContact at h
  split at h
  · exact .inl h
  · exact (List.mem_append.mp h).imp id List.mem_singleton.mp

theorem subset_addContact (h : x ∈ list) : x ∈ addContact list c := by
  unfold addContact
  split
  · exact h
  · exact List.mem_append_left _ h

theorem nodup_addContact (h : (list.map NodeContact.nodeID).Nodup) :
    ((addContact list c).map NodeContact.nodeID).Nodup := by
  unfold addContact
  split
  · exact h
  · next hnew =>
    rw [contactIn_iff] at hnew
    rw [List.map_append, List.nodup_append]
    refine ⟨h, List.nodup_singleton _, ?_⟩
    intro a ha b hb heq
    rw [List.map_singleton, List.mem_singleton] at hb
    exact hnew (hb ▸ heq ▸ ha)

theorem foldl_addContact (nodes : List NodeContact) (list : List NodeContact) :
    (∀ c ∈ list, c ∈ nodes.foldl addContact list) ∧
      (∀ c ∈ nodes.foldl addContact list, c ∈ list ∨ c ∈ nodes) ∧
      ((list.map NodeContact.nodeID).Nodup →
      ((nodes.foldl addContact list).map NodeContact.nodeID).Nodup) := by
  induction nodes generalizing list with
  | nil => exact ⟨fun _ h => h, fun _ h => .inl h, fun h => h⟩
  | cons n nodes ih =>
    obtain ⟨hkeep, honly, hnodup⟩ := ih (addContact list n)
    refine ⟨fun c hc => hkeep c (subset_addContact hc), ?_, fun h => hnodup (nodup_addContact h)⟩
    intro c hc
    rcases honly c hc with hin | hin
    · rcases mem_addContact hin with hold | hnew
      · exact .inl hold
      · exact .inr (hnew ▸ List.mem_cons_self)
    · exact .inr (List.mem_cons_of_mem n hin)

/-- Whoever is named has its ID in the shortlist afterwards. -/
theorem nodeID_mem_foldl_addContact {nodes : List NodeContact} (h : c ∈ nodes) :
    c.nodeID ∈ (nodes.foldl addContact list).map NodeContact.nodeID := by
  induction nodes generalizing list with
  | nil => cases h
  | cons n nodes ih =>
    rcases List.mem_cons.mp h with rfl | hrest
    · have hnow : c.nodeID ∈ (addContact list c).map NodeContact.nodeID := by
        unfold addContact
        split
        next hin => exact contactIn_iff.mp hin
        next => simp
      obtain ⟨x, hx, hid⟩ := List.mem_map.mp hnow
      exact List.mem_map.mpr ⟨x, (foldl_addContact nodes _).1 x hx, hid⟩
    · exact ih hrest

theorem nodup_take_insertionSort (r : NodeContact → NodeContact → Prop) [DecidableRel r] (n : Nat)
    (h : (list.map NodeContact.nodeID).Nodup) :
    (((list.insertionSort r).take n).map NodeContact.nodeID).Nodup := by
  have hsorted : ((list.insertionSort r).map NodeContact.nodeID).Nodup :=
    ((List.perm_insertionSort r list).map _).nodup_iff.mpr h
  exact hsorted.sublist ((List.take_sublist n _).map _)

theorem nodup_walkShortlist (rt : RoutingTable) (key : Bytes) (now : Int) :
    ((walkShortlist rt key now).map NodeContact.nodeID).Nodup :=
  (foldl_addContact _ _).2.2 (nodup_take_insertionSort _ _ rt.distinct)

/-! ## A batch -/

theorem mem_walkBatch
    (h : c ∈ walkBatch self key st r) : c ∈ st.shortlist ∧ c.nodeID ∉ st.queried := by
  have hmem := List.mem_of_mem_filter ((List.mem_insertionSort _).mp (List.mem_of_mem_take h))
  have hcond := List.of_mem_filter ((List.mem_insertionSort _).mp (List.mem_of_mem_take h))
  refine ⟨hmem, ?_⟩
  intro hq
  simp only [Bool.and_eq_true, Bool.not_eq_true', List.any_eq_false, decide_eq_true_eq] at hcond
  exact hcond.1.1 c.nodeID hq rfl

theorem nodup_walkBatch (h : (st.shortlist.map NodeContact.nodeID).Nodup) :
    ((walkBatch self key st r).map NodeContact.nodeID).Nodup :=
  nodup_take_insertionSort _ _ (h.sublist (List.filter_sublist.map _))

theorem walkRound_asks (hgo : st.stopped = false) (hbatch : walkBatch self key st r ≠ []) :
    walkRound self key st r =
      { shortlist := ((walkBatch self key st r).flatMap (fun c => (r.response c).nodes)).foldl
          addContact st.shortlist
        queried := st.queried ++ (walkBatch self key st r).map NodeContact.nodeID
        batchSize := if (walkBatch self key st r).any
            (fun c => (getFromPeer (r.response c)).reached) then st.batchSize
          else min (st.batchSize * 2) bucketSize
        log := st.log ++ (walkBatch self key st r).map (fun c => (c, r.response c))
        stopped := false } := by
  unfold walkRound
  rw [if_neg (by rw [hgo]; exact Bool.false_ne_true)]
  exact if_neg hbatch

theorem walkRound_stops (hgo : st.stopped = false) (hbatch : walkBatch self key st r = []) :
    walkRound self key st r = { st with stopped := true } := by
  unfold walkRound
  rw [if_neg (by rw [hgo]; exact Bool.false_ne_true)]
  exact if_pos hbatch

theorem walkRound_stopped (h : st.stopped = true) : walkRound self key st r = st := by
  unfold walkRound
  rw [if_pos h]

/-! ## What every walk keeps -/

/-- The bookkeeping of a walk: each contact is asked at most once, and the log records the
questions. -/
structure Tracked (st : WalkState) : Prop where
  queried_eq : st.queried = st.log.map (fun e => e.1.nodeID)
  shortlist_nodup : (st.shortlist.map NodeContact.nodeID).Nodup
  queried_nodup : st.queried.Nodup
  asked : ∀ e ∈ st.log, e.1 ∈ st.shortlist

theorem Tracked.start (h : (shortlist.map NodeContact.nodeID).Nodup) : Tracked (.start shortlist) :=
  ⟨rfl, h, List.nodup_nil, fun _ he => absurd he List.not_mem_nil⟩

theorem Tracked.round {st : WalkState} (h : Tracked st) (r : Round) :
    Tracked (walkRound self key st r) := by
  cases hgo : st.stopped with
  | true => rwa [walkRound_stopped hgo]
  | false =>
    by_cases hbatch : walkBatch self key st r = []
    · rw [walkRound_stops hgo hbatch]
      exact ⟨h.queried_eq, h.shortlist_nodup, h.queried_nodup, h.asked⟩
    · rw [walkRound_asks hgo hbatch]
      obtain ⟨hkeep, _, hnodup⟩ := foldl_addContact
        ((walkBatch self key st r).flatMap (fun c => (r.response c).nodes)) st.shortlist
      refine ⟨?_, hnodup h.shortlist_nodup, ?_, ?_⟩
      · simp only [List.map_append, List.map_map, h.queried_eq]
        rfl
      · rw [List.nodup_append]
        refine ⟨h.queried_nodup, nodup_walkBatch h.shortlist_nodup, ?_⟩
        intro a ha b hb heq
        obtain ⟨c, hc, hid⟩ := List.mem_map.mp hb
        exact (mem_walkBatch hc).2 (hid ▸ heq ▸ ha)
      · intro e he
        rcases List.mem_append.mp he with hold | hnew
        · exact hkeep _ (h.asked e hold)
        · obtain ⟨c, hc, hce⟩ := List.mem_map.mp hnew
          rw [← hce]
          exact hkeep _ (mem_walkBatch hc).1

theorem Tracked.run {st : WalkState} (h : Tracked st) (rs : List Round) :
    Tracked (rs.foldl (walkRound self key) st) := by
  induction rs generalizing st with
  | nil => exact h
  | cons r rs ih => exact ih (h.round r)

theorem Tracked.unique (h : Tracked st) {e e' : NodeContact × Response} (he : e ∈ st.log)
    (he' : e' ∈ st.log) (hid : e.1.nodeID = e'.1.nodeID) : e = e' := by
  have hnodup := h.queried_nodup
  rw [h.queried_eq] at hnodup
  exact List.inj_on_of_nodup_map hnodup he he' hid

theorem walk_grows (rs : List Round) (st : WalkState) :
    (∀ c ∈ st.shortlist, c ∈ (rs.foldl (walkRound self key) st).shortlist) ∧
      (∀ e ∈ st.log, e ∈ (rs.foldl (walkRound self key) st).log) := by
  induction rs generalizing st with
  | nil => exact ⟨fun _ h => h, fun _ h => h⟩
  | cons r rs ih =>
    rw [List.foldl_cons]
    obtain ⟨hshort, hlog⟩ := ih (walkRound self key st r)
    cases hgo : st.stopped with
    | true =>
      rw [walkRound_stopped hgo] at hshort hlog ⊢
      exact ⟨hshort, hlog⟩
    | false =>
      by_cases hbatch : walkBatch self key st r = []
      · rw [walkRound_stops hgo hbatch] at hshort hlog ⊢
        exact ⟨hshort, hlog⟩
      · rw [walkRound_asks hgo hbatch] at hshort hlog ⊢
        exact ⟨fun c hc => hshort c ((foldl_addContact _ _).1 c hc),
          fun e he => hlog e (List.mem_append_left _ he)⟩

theorem walk_stopped (rs : List Round) (h : st.stopped = true) :
    rs.foldl (walkRound self key) st = st := by
  induction rs with
  | nil => rfl
  | cons r rs ih => rw [List.foldl_cons, walkRound_stopped h, ih]

/-! ## How much a walk asks -/

/-- Contacts come from the start or an answer; a round asks at most a bucket of them, never
the walker. -/
structure Frugal (walker : Bytes) (shortlist : List NodeContact) (past : List Round)
    (st : WalkState) : Prop where
  heard : ∀ c ∈ st.shortlist, c ∈ shortlist ∨ ∃ e ∈ st.log, c ∈ e.2.nodes
  others : ∀ e ∈ st.log, e.1.nodeID ≠ walker
  width : st.batchSize ≤ bucketSize
  count : st.log.length ≤ past.length * bucketSize

theorem ne_self_of_mem_walkBatch {c : NodeContact} (h : c ∈ walkBatch self key st r) :
    c.nodeID ≠ self := by
  have hcond := List.of_mem_filter ((List.mem_insertionSort _).mp (List.mem_of_mem_take h))
  simp only [Bool.and_eq_true, decide_eq_true_eq] at hcond
  exact hcond.1.2

theorem Frugal.round {past : List Round} (h : Frugal self shortlist past st) (r : Round) :
    Frugal self shortlist (past ++ [r]) (walkRound self key st r) := by
  have hcount : st.log.length ≤ (past ++ [r]).length * bucketSize := by
    rw [List.length_append, Nat.add_mul]
    exact Nat.le_add_right_of_le h.count
  cases hgo : st.stopped with
  | true =>
    rw [walkRound_stopped hgo]
    exact ⟨h.heard, h.others, h.width, hcount⟩
  | false =>
    by_cases hbatch : walkBatch self key st r = []
    · rw [walkRound_stops hgo hbatch]
      exact ⟨h.heard, h.others, h.width, hcount⟩
    · rw [walkRound_asks hgo hbatch]
      refine ⟨?_, ?_, ?_, ?_⟩
      · intro c hc
        obtain hold | hnew := (foldl_addContact _ _).2.1 c hc
        · exact (h.heard c hold).imp_right
            (fun ⟨e, he, hce⟩ => ⟨e, List.mem_append_left _ he, hce⟩)
        · obtain ⟨a, ha, hca⟩ := List.mem_flatMap.mp hnew
          exact .inr ⟨_, List.mem_append_right _ (List.mem_map_of_mem ha), hca⟩
      · intro e he
        obtain hold | hnew := List.mem_append.mp he
        · exact h.others e hold
        · obtain ⟨c, hc, rfl⟩ := List.mem_map.mp hnew
          exact ne_self_of_mem_walkBatch hc
      · dsimp only
        split
        next => exact h.width
        next => exact Nat.min_le_right _ _
      · have hlen : (walkBatch self key st r).length ≤ st.batchSize := List.length_take_le _ _
        have hwidth := h.width
        have hpast := h.count
        simp only [List.length_append, List.length_map, List.length_singleton, Nat.add_mul, Nat.one_mul]
        omega

/-- **A walk asks nobody twice**, never the walker, only whom the table or an answer names,
and ends after at most 5120 questions. -/
theorem walk_asks_once (self key : Bytes) (rt : RoutingTable) (now : Int) (rounds : Nat → Round) :
    let st := walk self key (walkShortlist rt key now) rounds
    (st.log.map (fun e => e.1.nodeID)).Nodup ∧
      (∀ e ∈ st.log, e.1.nodeID ≠ self ∧
        (e.1 ∈ walkShortlist rt key now ∨ ∃ e' ∈ st.log, e.1 ∈ e'.2.nodes)) ∧
      st.log.length ≤ maxLookupRounds * bucketSize := by
  have hstart : Frugal self (walkShortlist rt key now) [] (.start (walkShortlist rt key now)) :=
    ⟨fun _ h => .inl h, fun _ he => absurd he List.not_mem_nil, show 8 ≤ 20 by decide, Nat.zero_le _⟩
  have hend : Frugal self (walkShortlist rt key now) (roundList rounds)
      (walk self key (walkShortlist rt key now) rounds) :=
    @EachStep.history _ _ (walkRound self key) (fun _ _ => True) _
      (fun _ _ r h _ => h.round r) _ _ _ hstart (EachStep.of_forall_mem (fun _ _ _ => trivial))
  have htracked : Tracked (walk self key (walkShortlist rt key now) rounds) :=
    (Tracked.start (nodup_walkShortlist rt key now)).run _
  refine ⟨?_, fun e he => ⟨hend.others e he, hend.heard e.1 (htracked.asked e he)⟩, ?_⟩
  · rw [← htracked.queried_eq]
    exact htracked.queried_nodup
  · simpa [roundList] using hend.count

/-! ## The condition -/

/-- An empty answer. -/
def Response.holdsNothing : Response → Bool
  | .data [] _ => true
  | _ => false

/-- Counted against the miss, or a proper answer with nothing or something valid. -/
def Settles (P : Primitives) : Response → Prop
  | .data envs _ => envs = [] ∨ ∃ e ∈ envs, e.verifySignature P = true
  | .error code => code = some 301
  | .failed => True
  | .cancelled => False

/-- **A round that hides nothing**: with nobody to ask every contact was asked, and
everybody asked settles. -/
def Faithful (P : Primitives) (self key : Bytes) (st : WalkState) (r : Round) : Prop :=
  st.stopped = false →
    (walkBatch self key st r = [] → ∀ c ∈ st.shortlist, c.nodeID ∈ st.queried) ∧
    ∀ c ∈ walkBatch self key st r, Settles P (r.response c)

/-- **A last round that leaves nobody**: everyone on the shortlist or in its answers was or
is asked. -/
def LeavesNobody (self key : Bytes) (st : WalkState) (r : Round) : Prop :=
  st.stopped = false → walkBatch self key st r ≠ [] → ∀ c : NodeContact,
    (c ∈ st.shortlist ∨ ∃ a ∈ walkBatch self key st r, c ∈ (r.response a).nodes) →
      c.nodeID ∈ st.queried ++ (walkBatch self key st r).map NodeContact.nodeID

/-- The walk before its last round. -/
def beforeLast (self key : Bytes) (shortlist : List NodeContact) (rounds : Nat → Round) :
    WalkState :=
  ((List.range (maxLookupRounds - 1)).map rounds).foldl (walkRound self key) (.start shortlist)

/-- Every contact of the shortlist was asked and answered that it holds nothing. -/
def HeldByNone (st : WalkState) : Prop :=
  ∀ c ∈ st.shortlist, ∃ e ∈ st.log, e.1.nodeID = c.nodeID ∧ e.2.holdsNothing = true

theorem settles_of_holdsNothing (h : resp.holdsNothing = true) : Settles P resp := by
  cases resp with
  | data envs nodes =>
    cases envs with
    | nil => exact .inl rfl
    | cons e envs => exact absurd h (by simp [Response.holdsNothing])
  | error code => exact absurd h (by simp [Response.holdsNothing])
  | failed => trivial
  | cancelled => exact absurd h (by simp [Response.holdsNothing])

/-- **Necessity**: a walk whose every contact was asked and holds nothing hid nothing. -/
theorem faithful_of_heldByNone (rs : List Round) {st : WalkState} (hst : Tracked st)
    (hnone : HeldByNone (rs.foldl (walkRound self key) st)) :
    EachStep (walkRound self key) (Faithful P self key) st rs := by
  induction rs generalizing st with
  | nil => trivial
  | cons r rs ih =>
    refine ⟨?_, ih (hst.round r) hnone⟩
    intro hgo
    rw [List.foldl_cons] at hnone
    refine ⟨?_, ?_⟩
    · intro hbatch c hc
      rw [walkRound_stops hgo hbatch, walk_stopped rs rfl] at hnone
      obtain ⟨e, he, hid, _⟩ := hnone c hc
      rw [hst.queried_eq, ← hid]
      exact List.mem_map_of_mem he
    · intro c hc
      have hbatch : walkBatch self key st r ≠ [] := List.ne_nil_of_mem hc
      obtain ⟨hshort, hlog⟩ := walk_grows rs (walkRound self key st r)
      have hfinal := @Tracked.run self key _ (@Tracked.round self key st hst r) rs
      rw [walkRound_asks hgo hbatch] at hshort hlog hnone hfinal
      have hin := hshort c ((foldl_addContact _ _).1 c (mem_walkBatch hc).1)
      have hentry := hlog (c, r.response c) (List.mem_append_right _ (List.mem_map_of_mem hc))
      obtain ⟨e, he, hid, hholds⟩ := hnone c hin
      -- the entry that answered is the one this round made
      have heq := hfinal.unique he hentry hid
      rw [heq] at hholds
      exact settles_of_holdsNothing hholds

theorem walk_eq_walkRound (shortlist : List NodeContact) (rounds : Nat → Round) :
    walk self key shortlist rounds =
      walkRound self key (beforeLast self key shortlist rounds) (rounds (maxLookupRounds - 1)) := by
  have hlist : roundList rounds = (List.range (maxLookupRounds - 1)).map rounds ++
      [rounds (maxLookupRounds - 1)] := by
    show (List.range (255 + 1)).map rounds = (List.range 255).map rounds ++ [rounds 255]
    rw [List.range_succ, List.map_append, List.map_singleton]
  rw [walk, beforeLast, hlist, List.foldl_append, List.foldl_cons, List.foldl_nil]

theorem leavesNobody_of_heldByNone (htracked : Tracked (walkRound self key st r))
    (hnone : HeldByNone (walkRound self key st r)) : LeavesNobody self key st r := by
  intro hgo hbatch c hc
  rw [walkRound_asks hgo hbatch] at htracked hnone
  have hasked : ∀ x ∈ ((walkBatch self key st r).flatMap (fun c => (r.response c).nodes)).foldl
      addContact st.shortlist,
      x.nodeID ∈ st.queried ++ (walkBatch self key st r).map NodeContact.nodeID := by
    intro x hx
    obtain ⟨e, he, hid, _⟩ := hnone x hx
    have hqueried : st.queried ++ (walkBatch self key st r).map NodeContact.nodeID = _ :=
      htracked.queried_eq
    rw [hqueried, ← hid]
    exact List.mem_map_of_mem he
  rcases hc with hold | ⟨a, ha, hnamed⟩
  · exact hasked c ((foldl_addContact _ _).1 c hold)
  · -- its ID is on the shortlist, under this contact or an earlier one
    have hmem : c ∈ (walkBatch self key st r).flatMap (fun c => (r.response c).nodes) :=
      List.mem_flatMap.mpr ⟨a, ha, hnamed⟩
    obtain ⟨x, hx, hid⟩ := List.mem_map.mp (nodeID_mem_foldl_addContact hmem)
    exact hid ▸ hasked x hx

/-- What faithful rounds keep: the log is settled, and a stopped walk has asked
everybody. -/
structure Complete (P : Primitives) (st : WalkState) : Prop where
  tracked : Tracked st
  settled : ∀ e ∈ st.log, Settles P e.2
  stopped : st.stopped = true → ∀ c ∈ st.shortlist, c.nodeID ∈ st.queried

theorem Complete.round (h : Complete P st) (hok : Faithful P self key st r) :
    Complete P (walkRound self key st r) := by
  have htracked := @Tracked.round self key st h.tracked r
  cases hgo : st.stopped with
  | true => rwa [walkRound_stopped hgo]
  | false =>
    obtain ⟨hstop, hsettle⟩ := hok hgo
    by_cases hbatch : walkBatch self key st r = []
    · rw [walkRound_stops hgo hbatch] at htracked ⊢
      exact ⟨htracked, h.settled, fun _ => hstop hbatch⟩
    · rw [walkRound_asks hgo hbatch] at htracked ⊢
      refine ⟨htracked, ?_, fun hs => absurd hs (by simp)⟩
      intro e he
      rcases List.mem_append.mp he with hold | hnew
      · exact h.settled e hold
      · obtain ⟨c, hc, hce⟩ := List.mem_map.mp hnew
        rw [← hce]
        exact hsettle c hc

/-- **Sufficiency**: a walk that stopped has asked everybody, and so has one whose last
round leaves nobody. -/
theorem Complete.all_asked (h : Complete P (walkRound self key st r))
    (hlast : LeavesNobody self key st r) :
    ∀ c ∈ (walkRound self key st r).shortlist, c.nodeID ∈ (walkRound self key st r).queried := by
  cases hstopped : (walkRound self key st r).stopped with
  | true => exact h.stopped hstopped
  | false =>
    have hgo : st.stopped = false := by
      cases hgo : st.stopped with
      | true => rw [walkRound_stopped hgo, hgo] at hstopped; cases hstopped
      | false => rfl
    have hbatch : walkBatch self key st r ≠ [] := by
      intro hbatch
      rw [walkRound_stops hgo hbatch] at hstopped
      cases hstopped
    rw [walkRound_asks hgo hbatch]
    intro c hc
    refine hlast hgo hbatch c (((foldl_addContact _ _).2.1 c hc).imp_right fun hnew => ?_)
    exact List.mem_flatMap.mp hnew

/-! ## Misses -/

/-- Nothing a walk merged degrades the miss or verifies. -/
structure Silent (P : Primitives) (st : WalkState) : Prop where
  counted : ∀ e ∈ st.log, (getFromPeer e.2).degrades = false
  offers : ∀ e ∈ st.log, ∀ env ∈ (getFromPeer e.2).envs, env.verifySignature P = false

theorem holdsNothing_of_settles (h : Settles P resp)
    (hcounted : (getFromPeer resp).degrades = false)
    (hoffers : ∀ env ∈ (getFromPeer resp).envs, env.verifySignature P = false) :
    resp.holdsNothing = true := by
  cases resp with
  | data envs nodes =>
    rcases h with hnil | ⟨e, he, hvalid⟩
    · rw [hnil]
      rfl
    · have hinvalid := hoffers e he
      rw [hvalid] at hinvalid
      exact absurd hinvalid (by decide)
  | error code =>
    have hcode : code = some 301 := h
    simp [getFromPeer, hcode, Probe.degrades] at hcounted
  | failed => exact absurd hcounted (by simp [getFromPeer, Probe.degrades])
  | cancelled => exact absurd h id

theorem foldl_mergeBest_eq_none :
    offers.foldl (mergeBest P) none = none ↔ ∀ e ∈ offers, e.verifySignature P = false := by
  rw [foldl_mergeBest]
  rcases foldl_challenge (@envelopeWins_irrefl P) (fun _ _ _ => envelopeWins_trans)
    (offers.filter (fun e => e.verifySignature P)) with ⟨hnil, hnone⟩ | ⟨e, he, hbest⟩
  · simp only [hnone, true_iff]
    simpa [List.filter_eq_nil_iff] using hnil
  · constructor
    · intro hnone
      rw [he] at hnone
      cases hnone
    · intro hall
      have hmem := List.mem_filter.mp hbest.mem
      rw [hall e hmem.1] at hmem
      exact absurd hmem.2 (by decide)

theorem Silent.of_clean (hclean : ¬ st.probes.any Probe.degrades = true)
    (hinvalid : ∀ env ∈ st.probes.flatMap Probe.envs, env.verifySignature P = false) :
    Silent P st := by
  rw [Bool.not_eq_true, List.any_eq_false] at hclean
  refine ⟨?_, ?_⟩
  · intro e he
    exact Bool.eq_false_iff.mpr (hclean _ (List.mem_map_of_mem he))
  · intro e he env henv
    exact hinvalid env (List.mem_flatMap.mpr ⟨_, List.mem_map_of_mem he, henv⟩)

theorem silent_of_get {rounds : Nat → Round} (hne : shortlist ≠ [])
    (hmiss : iterativeGetDetailed P (walkOutcome self key shortlist free rounds) = (none, none)) :
    Silent P (walk self key shortlist rounds) := by
  unfold walkOutcome at hmiss
  rw [if_neg hne] at hmiss
  cases free with
  | false => exact absurd hmiss (by simp [iterativeGetDetailed])
  | true =>
    simp only [Bool.not_true, Bool.false_eq_true, if_false, iterativeGetDetailed] at hmiss
    split at hmiss
    · cases hmiss
    · next hnone =>
      rw [foldl_mergeBest_eq_none] at hnone
      split at hmiss
      · cases hmiss
      · next hcounted => exact .of_clean hcounted hnone

theorem sortedByRecordHash_eq_nil (h : sortedByRecordHash (offers.foldl (addCollected P) ∅) = []) :
    ∀ e ∈ offers, e.verifySignature P = false := by
  intro e he
  refine Bool.eq_false_iff.mpr ?_
  intro hvalid
  obtain ⟨e', he'⟩ := foldl_addCollected_mem offers (List.mem_filter.mpr ⟨he, hvalid⟩)
  have hsel : (e.recordHash P, e') ∈
      (offers.foldl (addCollected P) ∅).select (fun _ _ => true) :=
    Table.mem_select.mpr ⟨he', rfl⟩
  rw [sortedByRecordHash, List.map_eq_nil_iff] at h
  have hin := (List.mem_insertionSort (fun a b : Bytes × SignedEnvelope => a.1 ≤ b.1)).mpr hsel
  rw [h] at hin
  exact absurd hin List.not_mem_nil

theorem silent_of_collect {rounds : Nat → Round} {own : List SignedEnvelope}
    {again : NodeContact → Response} (hne : shortlist ≠ [])
    (hmiss : collectFromNetwork P self key shortlist free rounds own again = .ok []) :
    Silent P (walk self key shortlist rounds) := by
  unfold collectFromNetwork at hmiss
  rw [if_neg hne] at hmiss
  cases free with
  | false => cases hmiss
  | true =>
    simp only [Bool.not_true, Bool.false_eq_true, if_false] at hmiss
    split at hmiss
    · cases hmiss
    · next hcounted =>
      rw [Except.ok.injEq] at hmiss
      have hinvalid := sortedByRecordHash_eq_nil hmiss
      refine .of_clean (fun hbad => hcounted ⟨hmiss, .inl hbad⟩) fun env henv => ?_
      exact hinvalid env (List.mem_append_left _ (List.mem_append_right _ henv))

theorem heldByNone_iff {rounds : Nat → Round} (hnodup : (shortlist.map NodeContact.nodeID).Nodup)
    (hsilent : Silent P (walk self key shortlist rounds)) :
    HeldByNone (walk self key shortlist rounds) ↔
      EachStep (walkRound self key) (Faithful P self key) (.start shortlist) (roundList rounds) ∧
        LeavesNobody self key (beforeLast self key shortlist rounds)
          (rounds (maxLookupRounds - 1)) := by
  constructor
  · intro hnone
    have htracked := @Tracked.run self key _ (Tracked.start hnodup) (roundList rounds)
    refine ⟨faithful_of_heldByNone _ (.start hnodup) hnone, ?_⟩
    change Tracked (walk self key shortlist rounds) at htracked
    rw [walk_eq_walkRound] at htracked hnone
    exact leavesNobody_of_heldByNone htracked hnone
  · rintro ⟨hfaithful, hlast⟩ c hc
    have hinit : Complete P (.start shortlist) :=
      ⟨.start hnodup, fun _ he => absurd he List.not_mem_nil,
        fun hs => absurd hs (by simp [WalkState.start])⟩
    have hcomplete : Complete P (walk self key shortlist rounds) :=
      EachStep.invariant (fun _ _ hinv hok => hinv.round hok) hinit hfaithful
    have hall : ∀ c ∈ (walk self key shortlist rounds).shortlist,
        c.nodeID ∈ (walk self key shortlist rounds).queried := by
      rw [walk_eq_walkRound] at hcomplete ⊢
      exact hcomplete.all_asked hlast
    have hasked := hall c hc
    rw [hcomplete.tracked.queried_eq] at hasked
    obtain ⟨e, he, hid⟩ := List.mem_map.mp hasked
    exact ⟨e, he, hid, holdsNothing_of_settles (hcomplete.settled e he) (hsilent.counted e he)
      (hsilent.offers e he)⟩

namespace Sample

def stranger : NodeContact := { nodeID := [1], confirmedAt := 0, lastSeen := 0, firstSeen := 0 }

def oneContact : RoutingTable := ⟨[stranger], by decide⟩

def rounds (resp : Response) (_ : Nat) : Round :=
  { now := 100, deadUntil := fun id => if id = [9] then some 130 else none,
    response := fun _ => resp }

/-- The walk after that contact answered nothing. -/
def answeredState (stopped : Bool) : WalkState :=
  { shortlist := [stranger], queried := [[1]], batchSize := 8, log := [(stranger, .data [] [])],
    stopped }

theorem walk_answered (n : Nat) :
    EachStep (walkRound [0] [2]) (Faithful Toy.primitives [0] [2]) (answeredState true)
      (List.replicate n (rounds (.data [] []) 0)) := by
  induction n with
  | zero => trivial
  | succ n ih => exact ⟨fun hgo => absurd hgo (by decide), ih⟩

end Sample

end Freens.Dht
