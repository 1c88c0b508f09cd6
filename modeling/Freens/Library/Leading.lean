/-
**THE FIRST FEW OF A STREAM.** `Leading r n S l` says that `l` holds the `n` first
members of `S` by a total preorder `r`. Inserting a new member in its place and
cutting at `n` keeps this.
-/
import Mathlib.Data.List.Sort
import Mathlib.Data.List.Perm.Subperm

namespace Freens.Library

variable {α : Type}

/-- The `n` first members of `S`, in order. -/
structure Leading (r : α → α → Prop) (n : Nat) (S : α → Prop) (l : List α) : Prop where
  sorted : l.Pairwise r
  nodup : l.Nodup
  sound : ∀ a ∈ l, S a
  short : l.length ≤ n
  /-- Who is left out comes after a full list. -/
  rest : ∀ a, S a → a ∉ l → l.length = n ∧ ∀ b ∈ l, r b a

variable {r : α → α → Prop} {n : Nat} {S : α → Prop} {l l' : List α}

theorem Leading.nil : Leading r n (fun _ => False) [] :=
  ⟨List.Pairwise.nil, List.nodup_nil, by simp, by simp, fun _ h => h.elim⟩

theorem Leading.congr {T : α → Prop} (h : Leading r n S l) (hST : ∀ a, S a ↔ T a) :
    Leading r n T l :=
  ⟨h.sorted, h.nodup, fun a ha => (hST a).mp (h.sound a ha), h.short,
    fun a ha => h.rest a ((hST a).mpr ha)⟩

/-- **The beginning of a sorted list leads it.** -/
theorem leading_take (hsorted : l.Pairwise r) (hnodup : l.Nodup) :
    Leading r n (fun a => a ∈ l) (l.take n) where
  sorted := hsorted.sublist (List.take_sublist n l)
  nodup := hnodup.sublist (List.take_sublist n l)
  sound := fun _ ha => List.mem_of_mem_take ha
  short := List.length_take_le n l
  rest := by
    intro a ha hout
    have hsplit : l.take n ++ l.drop n = l := List.take_append_drop n l
    have hdrop : a ∈ l.drop n := by
      rw [← hsplit, List.mem_append] at ha
      exact ha.resolve_left hout
    have hlen : n < l.length := by
      have hpos := List.length_pos_of_mem hdrop
      rw [List.length_drop] at hpos
      omega
    refine ⟨by rw [List.length_take]; omega, ?_⟩
    intro b hb
    rw [← hsplit] at hsorted
    exact (List.pairwise_append.mp hsorted).2.2 b hb a hdrop

theorem Leading.insert [DecidableRel r] [Std.Total r] [IsTrans α r] {x : α} (h : Leading r n S l)
    (hnew : ¬ S x) : Leading r n (fun a => a = x ∨ S a) ((l.orderedInsert r x).take n) := by
  have hx : x ∉ l := fun hmem => hnew (h.sound x hmem)
  have hsorted : (l.orderedInsert r x).Pairwise r := h.sorted.orderedInsert x l
  have hnodup : (l.orderedInsert r x).Nodup :=
    (List.perm_orderedInsert r x l).nodup_iff.mpr (List.nodup_cons.mpr ⟨hx, h.nodup⟩)
  have htake := leading_take (n := n) hsorted hnodup
  refine ⟨htake.sorted, htake.nodup, ?_, htake.short, ?_⟩
  · intro a ha
    rcases List.mem_orderedInsert r |>.mp (htake.sound a ha) with heq | hmem
    · exact .inl heq
    · exact .inr (h.sound a hmem)
  · intro a ha hout
    by_cases hin : a ∈ l.orderedInsert r x
    · exact htake.rest a hin hout
    · -- left out before: the list was full, so its last member made room
      rw [List.mem_orderedInsert, not_or] at hin
      obtain ⟨hfull, hafter⟩ := h.rest a (ha.resolve_left hin.1) hin.2
      have hlen : (l.orderedInsert r x).length = n + 1 := by
        rw [List.orderedInsert_length, hfull]
      refine ⟨by rw [List.length_take, hlen]; omega, ?_⟩
      intro b hb
      rcases List.mem_orderedInsert r |>.mp (List.mem_of_mem_take hb) with heq | hmem
      · subst heq
        -- some old member stands behind the new one
        obtain ⟨c, hc⟩ : ∃ c, c ∈ (l.orderedInsert r b).drop n := by
          apply List.exists_mem_of_length_pos
          rw [List.length_drop, hlen]
          omega
        have hsplit := List.take_append_drop n (l.orderedInsert r b)
        rw [← hsplit] at hsorted hnodup
        have hbc : r b c := (List.pairwise_append.mp hsorted).2.2 b hb c hc
        have hne : b ≠ c := (List.nodup_append.mp hnodup).2.2 b hb c hc
        have hcl : c ∈ l :=
          (List.mem_orderedInsert r |>.mp (List.mem_of_mem_drop hc)).resolve_left hne.symm
        exact IsTrans.trans b c a hbc (hafter c hcl)
      · exact hafter b hmem

section
variable (hanti : ∀ a b, S a → S b → r a b → r b a → a = b) (h : Leading r n S l)
  (h' : Leading r n S l')
include hanti h h'

theorem Leading.subset : l ⊆ l' := by
  classical
  intro a ha
  by_contra hout
  obtain ⟨hfull, hafter⟩ := h'.rest a (h.sound a ha) hout
  -- the other list has a member that this one lacks, by counting
  obtain ⟨b, hb, hbout⟩ : ∃ b ∈ l', b ∉ l := by
    by_contra hno
    simp only [not_exists, not_and, not_not] at hno
    have hsub : l' ⊆ l.erase a := by
      intro b hb
      have hne : b ≠ a := fun heq => hout (heq ▸ hb)
      exact (List.mem_erase_of_ne hne).mpr (hno b hb)
    have hle := (h'.nodup.subperm hsub).length_le
    have hpos := List.length_pos_of_mem ha
    rw [List.length_erase_of_mem ha] at hle
    have := h.short
    omega
  have hab : r a b := (h.rest b (h'.sound b hb) hbout).2 a ha
  exact hbout (hanti a b (h.sound a ha) (h'.sound b hb) hab (hafter b hb) ▸ ha)

/-- **The leading list is determined** when no two members tie. -/
theorem Leading.unique : l = l' := by
  have hperm : l.Perm l' := (List.perm_ext_iff_of_nodup h.nodup h'.nodup).mpr
    fun a => ⟨fun ha => h.subset hanti h' ha, fun ha => h'.subset hanti h ha⟩
  exact hperm.eq_of_pairwise
    (fun a b ha hb => hanti a b (h.sound a ha) (h'.sound b hb)) h.sorted h'.sorted

end

end Freens.Library
