/-
**SHEDDING THE LIMITER'S BUCKETS** (`dht/transport.go`:
`evictLRULocked`).

The loop compares `len(l.buckets)-dropped` with its target, and each deletion
changes both: it stops half-way.
-/
import Freens.Library.Cbor
import Freens.Library.Ledger

namespace Freens.Dht.Limiter

open Library

/-! ## The loop -/

/-- From the source address to the time of its last request, in nanoseconds. -/
abbrev Buckets := Table Bytes Int

/-- The loop: it stops once enough is dropped or the rest is in use. -/
def evictLoop (target cutoff : Int) : List (Bytes × Int) → Nat → Buckets → Buckets
  | [], _, buckets => buckets
  | e :: all, dropped, buckets =>
    if (buckets.keys.length : Int) - dropped ≤ target ∨ cutoff < e.2 then buckets
    else evictLoop target cutoff all (dropped + 1) (buckets.erase e.1)

/-- `all` is the listing of the table that `sort.Slice` left. -/
def evictLRULocked (all : List (Bytes × Int)) (target now : Int) (buckets : Buckets) : Buckets :=
  evictLoop target (now - 1000000000) all 0 buckets

/-- The listing has every bucket once. -/
structure Lists (all : List (Bytes × Int)) (buckets : Buckets) : Prop where
  mem : ∀ k t, (k, t) ∈ all ↔ buckets.lookup k = some t
  nodup : (all.map Prod.fst).Nodup
  length : buckets.keys.length = all.length

/-- In whichever order the map is walked and equal times are left. -/
structure Sorted (all : List (Bytes × Int)) (buckets : Buckets) : Prop extends
    Lists all buckets where
  ascending : all.Pairwise (fun a b => a.2 ≤ b.2)

/-! ## How far it gets -/

variable {target cutoff : Int} {all : List (Bytes × Int)} {buckets : Buckets}

theorem Lists.tail {e : Bytes × Int} (h : Lists (e :: all) buckets) :
    Lists all (buckets.erase e.1) := by
  obtain ⟨hnew, hnodup⟩ := List.nodup_cons.mp h.nodup
  have hcount := Table.count_erase ((h.mem e.1 e.2).mp List.mem_cons_self)
  refine ⟨?_, hnodup, ?_⟩
  · intro k t
    by_cases hk : k = e.1
    · rw [hk, AList.lookup_erase]
      constructor
      · exact fun hmem => absurd (List.mem_map_of_mem hmem) hnew
      · intro hnone
        cases hnone
    · rw [AList.lookup_erase_ne hk, ← h.mem, List.mem_cons, or_iff_right]
      exact fun heq => hk (congrArg Prod.fst heq)
  · rw [h.length] at hcount
    exact Nat.succ.inj hcount

/-- **What the loop drops**: the first `m` buckets, each idle and met while the table was
too large. -/
theorem evictLoop_spec {dropped : Nat} (h : Lists all buckets) :
    ∃ m ≤ all.length, Lists (all.drop m) (evictLoop target cutoff all dropped buckets) ∧
      (∀ e ∈ all.take m, e.2 ≤ cutoff) ∧
      (m ≠ 0 → target < (all.length : Int) - dropped - 2 * (m - 1)) ∧
      (all.drop m = [] ∨ (all.length : Int) - dropped - 2 * m ≤ target ∨
        ∃ e, (all.drop m).head? = some e ∧ cutoff < e.2) := by
  induction all generalizing dropped buckets with
  | nil => exact ⟨0, Nat.le_refl 0, h, by simp, fun hm => absurd rfl hm, Or.inl rfl⟩
  | cons e all ih =>
    rw [evictLoop]
    split
    next hstop =>
      refine ⟨0, Nat.zero_le _, h, by simp, fun hm => absurd rfl hm, Or.inr ?_⟩
      rw [h.length] at hstop
      exact hstop.imp (by omega) fun hfresh => ⟨e, rfl, hfresh⟩
    next hgo =>
      rw [not_or, h.length, List.length_cons] at hgo
      obtain ⟨m, hm, hlists, hidle, hlarge, hend⟩ := @ih _ (dropped + 1) h.tail
      refine ⟨m + 1, Nat.succ_le_succ hm, hlists, ?_, ?_, ?_⟩
      · intro x hx
        rcases List.mem_cons.mp hx with rfl | hx
        · exact Int.not_lt.mp hgo.2
        · exact hidle x hx
      · intro _
        rw [List.length_cons]
        by_cases hzero : m = 0
        · rw [hzero]
          omega
        · have := hlarge hzero
          omega
      · rw [List.length_cons]
        exact hend.imp id (Or.imp (by omega) id)

/-- How many buckets are idle. -/
def idle (cutoff : Int) (all : List (Bytes × Int)) : Nat := all.countP (fun e => e.2 ≤ cutoff)

/-- **When the eviction gets to its target**: exactly when at most one bucket was too many,
or no more than half of those too many, rounded up, were idle. -/
theorem evict_reaches_target_iff {now : Int} (h : Sorted all buckets) :
    (((evictLRULocked all target now buckets).keys.length : Int) ≤ target ∨
      ∀ k t, (evictLRULocked all target now buckets).lookup k = some t → now - 1000000000 < t) ↔
    (buckets.keys.length : Int) ≤ target + 1 ∨
      2 * (idle (now - 1000000000) all : Int) ≤ buckets.keys.length - target + 1 := by
  generalize hcut : now - 1000000000 = cutoff
  obtain ⟨m, hm, hlists, hidle, hlarge, hend⟩ :=
    @evictLoop_spec target cutoff all buckets 0 h.toLists
  rw [evictLRULocked, hcut, hlists.length, h.length, List.length_drop]
  -- the idle buckets are the `m` dropped ones and those among the rest
  have hcount : idle cutoff all = m + idle cutoff (all.drop m) := by
    have hfirst : (all.take m).countP (fun e => e.2 ≤ cutoff) = (all.take m).length :=
      List.countP_eq_length.mpr fun e he => decide_eq_true (hidle e he)
    rw [List.length_take_of_le hm] at hfirst
    have hsplit : (all.take m ++ all.drop m).countP (fun e => e.2 ≤ cutoff) = _ :=
      List.countP_append
    rwa [List.take_append_drop, hfirst] at hsplit
  have hfresh : (∀ k t, (evictLoop target cutoff all 0 buckets).lookup k = some t → cutoff < t) ↔
      idle cutoff (all.drop m) = 0 := by
    rw [idle, List.countP_eq_zero]
    constructor
    · rintro hall ⟨k, t⟩ hmem
      have := hall k t ((hlists.mem k t).mp hmem)
      simpa using this
    · intro hnone k t hlookup
      have := hnone (k, t) ((hlists.mem k t).mpr hlookup)
      simpa using this
  have hrest : (all.length : Int) - 2 * m ≤ target ∨ idle cutoff (all.drop m) = 0 := by
    rcases hend with hnil | hsmall | ⟨e, hhead, he⟩
    · exact Or.inr (by rw [hnil]; rfl)
    · exact Or.inl (by omega)
    rw [← hfresh]
    right
    intro k t hlookup
    -- the rest ascends from a bucket that is not idle
    have hmem := (hlists.mem k t).mpr hlookup
    have hascending := h.ascending.sublist (List.drop_sublist m all)
    obtain ⟨rest, hdrop⟩ := List.head?_eq_some_iff.mp hhead
    rw [hdrop] at hmem hascending
    rcases List.mem_cons.mp hmem with rfl | hmem
    · exact he
    · exact lt_of_lt_of_le he ((List.pairwise_cons.mp hascending).1 _ hmem)
  rw [hfresh]
  omega

/-- The buckets, least recently used first. -/
def listing (buckets : Buckets) : List (Bytes × Int) :=
  (buckets.select fun _ _ => true).insertionSort (fun a b => a.2 ≤ b.2)

theorem sorted_listing (buckets : Buckets) : Sorted (listing buckets) buckets where
  mem k t := by
    rw [listing, List.mem_insertionSort, Table.mem_select]
    simp
  nodup := ((List.perm_insertionSort _ _).map Prod.fst).nodup_iff.mpr (Table.select_nodup _ _)
  length := by
    rw [listing, (List.perm_insertionSort _ _).length_eq]
    simp [Table.select, AList.keys, List.keys]
  ascending := List.pairwise_insertionSort (fun a b : Bytes × Int => a.2 ≤ b.2) _

/-- Four buckets last used at time zero. -/
def fourIdle : Buckets := [1, 2, 3, 4].foldl (fun b k => b.insert [k] 0) ∅

theorem one_too_many_dropped :
    ((evictLRULocked (listing fourIdle) 3 2000000000 fourIdle).keys.length : Int) ≤ 3 := by
  have h := (@evict_reaches_target_iff 3 _ fourIdle 2000000000 (sorted_listing fourIdle)).mpr
    (Or.inl (by decide +kernel))
  exact h.resolve_right fun hfresh =>
    absurd (hfresh [1] 0 (by decide +kernel)) (by decide)

/-- A table of `n` buckets last used at time zero. -/
def idleBuckets : Nat → Buckets
  | 0 => ∅
  | n + 1 => (idleBuckets n).insert (List.replicate n 0) 0

theorem lookup_idleBuckets {n : Nat} {k : Bytes} {t : Int}
    (h : (idleBuckets n).lookup k = some t) : t = 0 ∧ k.length < n := by
  induction n with
  | zero => exact absurd h (by simp [idleBuckets])
  | succ n ih =>
    rcases Table.lookup_insert_cases h with ⟨rfl, rfl⟩ | ⟨_, hold⟩
    · exact ⟨rfl, by simp⟩
    · exact ⟨(ih hold).1, Nat.lt_succ_of_lt (ih hold).2⟩

theorem length_idleBuckets (n : Nat) : (idleBuckets n).keys.length = n := by
  induction n with
  | zero => rfl
  | succ n ih =>
    have hfree : (idleBuckets n).lookup (List.replicate n 0) = none :=
      Option.eq_none_iff_forall_ne_some.mpr fun t ht =>
        absurd (lookup_idleBuckets ht).2 (by simp)
    rw [idleBuckets, Table.length_keys_insert_of_free hfree, ih]

/-- **The call of the program stops half-way**: of 10000 idle buckets it is to leave
7500, and it leaves 8750. -/
theorem eviction_stops_halfway :
    Sorted (listing (idleBuckets 10000)) (idleBuckets 10000) ∧
      (idleBuckets 10000).keys.length = 10000 ∧
      (evictLRULocked (listing (idleBuckets 10000)) 7500 2000000000
        (idleBuckets 10000)).keys.length = 8750 ∧
      ∀ k t, (evictLRULocked (listing (idleBuckets 10000)) 7500 2000000000
        (idleBuckets 10000)).lookup k = some t → t = 0 := by
  have hsorted := sorted_listing (idleBuckets 10000)
  have hlength : (listing (idleBuckets 10000)).length = 10000 :=
    hsorted.length.symm.trans (length_idleBuckets 10000)
  have hidle : ∀ e ∈ listing (idleBuckets 10000), e.2 = 0 :=
    fun e he => (lookup_idleBuckets ((hsorted.mem e.1 e.2).mp he)).1
  obtain ⟨m, hm, hlists, _, hlarge, hend⟩ := @evictLoop_spec 7500 (2000000000 - 1000000000)
    (listing (idleBuckets 10000)) (idleBuckets 10000) 0 hsorted.toLists
  refine ⟨hsorted, length_idleBuckets 10000, ?_, ?_⟩
  · rw [evictLRULocked, hlists.length, List.length_drop]
    rw [hlength] at hm hlarge hend ⊢
    rcases hend with hnil | hsmall | ⟨e, hhead, hfresh⟩
    · have hgone := List.drop_eq_nil_iff.mp hnil
      omega
    · omega
    · have hzero := hidle e (List.mem_of_mem_drop (List.mem_of_mem_head? hhead))
      omega
  · intro k t hlookup
    exact hidle (k, t) (List.mem_of_mem_drop ((hlists.mem k t).mpr hlookup))

end Freens.Dht.Limiter
