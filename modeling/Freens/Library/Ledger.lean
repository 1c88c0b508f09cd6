/-
**RUNNING TOTALS OF A TABLE.** `total` is the sum that a counter beside a bounded
table stands for, `Lists` the queue of keys it is evicted by, `Within` the bound
an eviction loop enforces.
-/
import Freens.Library.Table

namespace Freens.Library

namespace Table

variable {κ ν : Type}

/-! ## Totals and queues -/

/-- The weight of everything the table holds. -/
def total (w : ν → Int) (t : Table κ ν) : Int := (t.entries.map (fun x => w x.2)).sum

theorem select_nodup (t : Table κ ν) (p : κ → ν → Bool) : ((t.select p).map Prod.fst).Nodup := by
  have hkeys : (t.select p).map Prod.fst = (t.entries.filter (fun x => p x.1 x.2)).keys := by
    rw [select, List.map_map]
    rfl
  rw [hkeys]
  exact t.nodupKeys.sublist List.filter_sublist

/-- The queue lists the keys of the table, once each. -/
structure Lists (order : List κ) (t : Table κ ν) : Prop where
  nodup : order.Nodup
  keys : ∀ k, k ∈ order ↔ k ∈ t

theorem Lists.empty : Lists [] (∅ : Table κ ν) := ⟨List.nodup_nil, fun k => by simp⟩

variable {order : List κ}

theorem Lists.length_eq {t : Table κ ν} (h : Lists order t) : order.length = t.keys.length := by
  refine List.Perm.length_eq ((List.perm_ext_iff_of_nodup h.nodup t.keys_nodup).mpr ?_)
  exact fun k => h.keys k

variable [DecidableEq κ]

/-- The weight bound to a key; 0 when it is free. -/
def weightAt (w : ν → Int) (t : Table κ ν) (k : κ) : Int := (t.lookup k).elim 0 w

variable {w : ν → Int} {t : Table κ ν} {k : κ} {v : ν}

theorem weightAt_of_lookup (h : t.lookup k = some v) : weightAt w t k = w v := by
  rw [weightAt, h, Option.elim_some]

theorem weightAt_of_free (h : t.lookup k = none) : weightAt w t k = 0 := by
  rw [weightAt, h, Option.elim_none]

theorem erase_of_free (h : t.lookup k = none) : t.erase k = t := by
  refine AList.ext ?_
  exact List.kerase_of_notMem_keys (AList.lookup_eq_none.mp h)

theorem total_erase (w : ν → Int) (t : Table κ ν) (k : κ) :
    total w (t.erase k) = total w t - weightAt w t k := by
  cases hk : t.lookup k with
  | none => rw [erase_of_free hk, weightAt_of_free hk, sub_zero]
  | some v =>
    have hmem : k ∈ t.entries.keys := AList.lookup_isSome.mp (by rw [hk]; rfl)
    -- the entry of the key splits the list in two
    obtain ⟨b, l₁, l₂, _, hsplit, hrest⟩ := List.exists_of_kerase hmem
    have hentry : (⟨k, b⟩ : Sigma fun _ : κ => ν) ∈ t.entries := by
      rw [hsplit]
      exact List.mem_append_right _ List.mem_cons_self
    have hb : t.lookup k = some b := AList.mem_lookup_iff.mpr hentry
    rw [hk, Option.some.injEq] at hb
    have herase : (t.erase k).entries = l₁ ++ l₂ := hrest
    rw [weightAt_of_lookup hk, total, total, herase, hsplit, hb]
    simp only [List.map_append, List.map_cons, List.sum_append, List.sum_cons]
    omega

theorem total_insert (w : ν → Int) (t : Table κ ν) (k : κ) (v : ν) :
    total w (t.insert k v) = total w t - weightAt w t k + w v := by
  have hcons : total w (t.insert k v) = w v + total w (t.erase k) := by
    rw [total, AList.entries_insert, List.map_cons, List.sum_cons]
    rfl
  rw [hcons, total_erase]
  omega

/-! ## Counts -/

theorem mem_of_lookup (h : t.lookup k = some v) : k ∈ t := by
  rw [← AList.lookup_isSome, h]
  rfl

theorem count_erase (h : t.lookup k = some v) : (t.erase k).keys.length + 1 = t.keys.length := by
  have hmem : k ∈ t.keys := mem_of_lookup h
  have hpos : 0 < t.keys.length := List.length_pos_of_mem hmem
  rw [AList.keys_erase, List.length_erase_of_mem hmem]
  omega

theorem count_erase_le (t : Table κ ν) (k : κ) : (t.erase k).keys.length ≤ t.keys.length := by
  rw [AList.keys_erase]
  exact List.length_erase_le

theorem exists_other_of_count (h : 1 < t.keys.length) (k : κ) :
    ∃ k' v, t.lookup k' = some v ∧ k' ≠ k := by
  have hother : ∃ k' ∈ t.keys, k' ≠ k := by
    by_contra hall
    push Not at hall
    have hle : t.keys.length ≤ [k].length :=
      (t.keys_nodup.subperm (fun k' hk' => List.mem_singleton.mpr (hall k' hk'))).length_le
    simp only [List.length_cons, List.length_nil] at hle
    omega
  obtain ⟨k', hk', hne⟩ := hother
  obtain ⟨v, hv⟩ := Option.isSome_iff_exists.mp (AList.lookup_isSome.mpr hk')
  exact ⟨k', v, hv, hne⟩

/-! ## Changes of a queue -/

theorem Lists.pop {first : κ} (h : Lists (first :: order) t) : Lists order (t.erase first) := by
  have hnodup := List.nodup_cons.mp h.nodup
  refine ⟨hnodup.2, ?_⟩
  intro k
  rw [AList.mem_erase, ← h.keys k, List.mem_cons]
  constructor
  · intro hk
    exact ⟨fun heq => hnodup.1 (heq ▸ hk), .inr hk⟩
  · intro hk
    exact hk.2.resolve_left hk.1

theorem Lists.push (h : Lists order t) (hk : k ∉ order) (v : ν) :
    Lists (order ++ [k]) (t.insert k v) := by
  refine ⟨List.concat_eq_append ▸ h.nodup.concat hk, ?_⟩
  intro k'
  rw [AList.mem_insert, ← h.keys k', List.mem_append, List.mem_singleton]
  exact or_comm

theorem Lists.update (h : Lists order t) (hk : k ∈ order) (v : ν) : Lists order (t.insert k v) := by
  refine ⟨h.nodup, ?_⟩
  intro k'
  rw [AList.mem_insert, ← h.keys k']
  exact ⟨.inr, fun hk' => hk'.elim (fun heq => heq ▸ hk) id⟩

theorem Lists.remove {order : List κ} (h : Lists order t) (k : κ) :
    Lists (order.filter (· ≠ k)) (t.erase k) := by
  refine ⟨h.nodup.filter _, ?_⟩
  intro k'
  rw [AList.mem_erase, ← h.keys k', List.mem_filter, decide_eq_true_eq]
  exact and_comm

end Table

/-- Both limits are met, or at most one element is left. -/
def Within (maxCount : Nat) (maxWeight : Int) (count : Nat) (weight : Int) : Prop :=
  (count ≤ maxCount ∧ weight ≤ maxWeight) ∨ count ≤ 1

theorem within_iff_not_over {maxCount count : Nat} {maxWeight weight : Int} :
    Within maxCount maxWeight count weight ↔
      ¬ ((count > maxCount ∨ weight > maxWeight) ∧ count > 1) := by
  unfold Within
  omega

end Freens.Library
