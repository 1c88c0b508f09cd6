/-
**COUNTING DISTINCT MEMBERS.** The loop that walks a list of keys, skips
what it has counted before and counts what passes a test. The count is
the number of distinct passing keys, so a threshold is reached exactly
when some set of that many keys passes.
-/
import Mathlib.Data.Finset.Card

namespace Freens.Library

variable {κ : Type} [DecidableEq κ]

/-- Count the keys that pass, each once; `seen` are those already counted. -/
def countDistinct (passes : κ → Bool) : (keys seen : List κ) → Nat
  | [], _ => 0
  | k :: keys, seen =>
    if k ∈ seen then countDistinct passes keys seen
    else if passes k then countDistinct passes keys (k :: seen) + 1
    else countDistinct passes keys seen

theorem countDistinct_eq_card (passes : κ → Bool) : ∀ (keys seen : List κ),
    countDistinct passes keys seen = ((keys.filter passes).toFinset \ seen.toFinset).card
  | [], _ => by simp [countDistinct]
  | k :: keys, seen => by
    unfold countDistinct
    by_cases hseen : k ∈ seen
    · -- a repeated key is in `seen`, so it leaves the difference unchanged
      rw [if_pos hseen, countDistinct_eq_card passes keys seen]
      congr 1
      ext x
      simp only [Finset.mem_sdiff, List.mem_toFinset, List.mem_filter, List.mem_cons]
      grind
    · rw [if_neg hseen]
      by_cases hpass : passes k = true
      · rw [if_pos hpass, countDistinct_eq_card passes keys (k :: seen)]
        have hnot : k ∉ (keys.filter passes).toFinset \ (k :: seen).toFinset := by
          simp
        rw [← Finset.card_insert_of_notMem hnot]
        congr 1
        ext x
        simp only [Finset.mem_insert, Finset.mem_sdiff, List.mem_toFinset, List.mem_filter,
          List.mem_cons]
        grind
      · rw [if_neg hpass, countDistinct_eq_card passes keys seen, List.filter_cons_of_neg hpass]

/-- **A threshold is met** exactly when some set of that many keys passes. -/
theorem le_countDistinct_iff {passes : κ → Bool} {keys : List κ} {threshold : Nat} :
    threshold ≤ countDistinct passes keys [] ↔
      ∃ signers : Finset κ, (∀ k ∈ signers, k ∈ keys ∧ passes k = true) ∧
        threshold ≤ signers.card := by
  rw [countDistinct_eq_card]
  simp only [List.toFinset_nil, Finset.sdiff_empty]
  constructor
  · intro h
    refine ⟨(keys.filter passes).toFinset, ?_, h⟩
    intro k hk
    rw [List.mem_toFinset, List.mem_filter] at hk
    exact hk
  · intro h
    obtain ⟨signers, hsub, hcard⟩ := h
    refine Nat.le_trans hcard (Finset.card_le_card ?_)
    intro k hk
    rw [List.mem_toFinset, List.mem_filter]
    exact hsub k hk

end Freens.Library
