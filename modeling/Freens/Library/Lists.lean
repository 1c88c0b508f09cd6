/-
**LISTS.** One element of a list modified in place; lists sorted by a byte
key, which their elements determine when the keys are distinct; and the
hexadecimal text of bytes.
-/
import Freens.Library.Cbor
import Mathlib.Data.List.Sort

namespace Freens.Library

/-! ## Modified in place -/

section
variable {α β : Type}

theorem mem_modify {l : List α} {i : Nat} {f : α → α} {x : α} (h : x ∈ l.modify i f) :
    x ∈ l ∨ ∃ y, l[i]? = some y ∧ x = f y := by
  obtain ⟨j, hj⟩ := List.mem_iff_getElem?.mp h
  rw [List.getElem?_modify] at hj
  by_cases hij : i = j
  · subst hij
    simp only [if_true] at hj
    obtain ⟨y, hy, hfy⟩ := Option.map_eq_some_iff.mp hj
    exact .inr ⟨y, hy, hfy.symm⟩
  · simp only [if_neg hij, id_map'] at hj
    exact .inl (List.mem_iff_getElem?.mpr ⟨j, hj⟩)

theorem map_modify_of_eq {f : α → β} {g : α → α} (h : ∀ a, f (g a) = f a) (l : List α)
    (i : Nat) : (l.modify i g).map f = l.map f := by
  induction l generalizing i with
  | nil => simp
  | cons a l ih =>
    cases i with
    | zero => simp [h]
    | succ i => simp [ih]

theorem find?_modify_findIdx {p : α → Bool} {f : α → α} (hf : ∀ a, p (f a) = p a)
    (l : List α) : (l.modify (l.findIdx p) f).find? p = (l.find? p).map f := by
  induction l with
  | nil => rfl
  | cons a l ih =>
    cases hp : p a with
    | true => simp [List.findIdx_cons, hp, hf]
    | false => simp [List.findIdx_cons, hp, ih]

theorem forall_mem_iff_of_forall₂ {R : α → β → Prop} {p : α → Prop} {q : β → Prop}
    {l : List α} {l' : List β} (h : List.Forall₂ R l l') (hpq : ∀ a b, R a b → (p a ↔ q b)) :
    (∀ a ∈ l, p a) ↔ ∀ b ∈ l', q b := by
  induction h with
  | nil => simp
  | cons hab _ ih =>
    rw [List.forall_mem_cons, List.forall_mem_cons, hpq _ _ hab, ih]

/-! ## Sorted by a byte key -/

/-- **Strictly ascending lists with the same elements are equal.** -/
theorem eq_of_ascending {key : α → Bytes} {l l' : List α}
    (hl : l.Pairwise (fun a b => key a < key b)) (hl' : l'.Pairwise (fun a b => key a < key b))
    (h : ∀ a, a ∈ l ↔ a ∈ l') : l = l' := by
  have : Std.Irrefl (fun a b : α => key a < key b) := ⟨fun a => List.lt_irrefl (key a)⟩
  have : Std.Antisymm (fun a b : α => key a < key b) :=
    ⟨fun a b hab hba => absurd hba (List.lt_asymm hab)⟩
  exact hl.eq_of_mem_iff hl' h

/-- Sorting by distinct keys leaves them strictly ascending. -/
theorem pairwise_lt_insertionSort {l : List (Bytes × α)} (h : (l.map Prod.fst).Nodup) :
    (l.insertionSort (fun a b => a.1 ≤ b.1)).Pairwise (fun a b => a.1 < b.1) := by
  have hle := List.pairwise_insertionSort (fun a b : Bytes × α => a.1 ≤ b.1) l
  have hperm := List.perm_insertionSort (fun a b : Bytes × α => a.1 ≤ b.1) l
  have hne := List.pairwise_map.mp ((hperm.map Prod.fst).nodup_iff.mpr h)
  exact (hle.and hne).imp fun hab => Std.lt_of_le_of_ne hab.1 hab.2

end

/-! ## Hexadecimal -/

/-- `hex.EncodeToString`. -/
def hexEncode (b : Bytes) : Bytes :=
  let digit : UInt8 → UInt8 := fun d => if d < 10 then 0x30 + d else 0x57 + d
  b.flatMap (fun x => [digit (x / 16), digit (x % 16)])

end Freens.Library
