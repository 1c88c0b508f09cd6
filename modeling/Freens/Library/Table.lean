/-
**FINITE TABLES** over association lists with unique keys (`AList`): the selection
an eviction sweep iterates over, the removal of all entries that meet a test, and
the order `Sub` of what sweeps leave behind.
-/
import Mathlib.Data.List.AList
import Mathlib.Tactic

namespace Freens.Library

/-- Go's `map`. -/
abbrev Table (κ ν : Type) := AList (fun _ : κ => ν)

namespace Table

variable {κ ν : Type} [DecidableEq κ]

/-- The entries whose value (and key) satisfy `p`, in iteration order. -/
def select (t : Table κ ν) (p : κ → ν → Bool) : List (κ × ν) :=
  (t.entries.filter (fun x => p x.1 x.2)).map (fun x => (x.1, x.2))

variable {t : Table κ ν} {k : κ} {p : κ → ν → Bool} {v : ν}

theorem mem_select : (k, v) ∈ t.select p ↔ t.lookup k = some v ∧ p k v = true := by
  rw [← Option.mem_def, AList.mem_lookup_iff]
  simp only [select, List.mem_map, List.mem_filter, Prod.mk.injEq]
  constructor
  · intro h
    obtain ⟨⟨k', v'⟩, ⟨hmem, hp⟩, hk, hv⟩ := h
    subst hk hv
    exact ⟨hmem, hp⟩
  · intro h
    exact ⟨⟨k, v⟩, h, rfl, rfl⟩

theorem lookup_insert_cases {k' : κ} {v' : ν} (h : (t.insert k v).lookup k' = some v') :
    (k' = k ∧ v' = v) ∨ (k' ≠ k ∧ t.lookup k' = some v') := by
  by_cases hk : k' = k
  · rw [hk, AList.lookup_insert, Option.some.injEq] at h
    exact .inl ⟨hk, h.symm⟩
  · rw [AList.lookup_insert_ne hk] at h
    exact .inr ⟨hk, h⟩

/-- The table without the entries that satisfy `p`. -/
def reject (t : Table κ ν) (p : κ → ν → Bool) : Table κ ν :=
  ⟨t.entries.filter (fun x => !p x.1 x.2), t.nodupKeys.sublist List.filter_sublist⟩

theorem lookup_reject : (t.reject p).lookup k = some v ↔ t.lookup k = some v ∧ p k v = false := by
  rw [← Option.mem_def, ← Option.mem_def, AList.mem_lookup_iff, AList.mem_lookup_iff]
  simp only [reject, List.mem_filter, Bool.not_eq_eq_eq_not, Bool.not_true]

/-- Every binding of `t'` is one of `t`. -/
def Sub (t' t : Table κ ν) : Prop := ∀ k v, t'.lookup k = some v → t.lookup k = some v

theorem Sub.refl (t : Table κ ν) : Sub t t := fun _ _ h => h

theorem Sub.trans {t₁ t₂ t₃ : Table κ ν} (h₁₂ : Sub t₁ t₂) (h₂₃ : Sub t₂ t₃) : Sub t₁ t₃ :=
  fun k v h => h₂₃ k v (h₁₂ k v h)

theorem erase_sub (t : Table κ ν) (a : κ) : Sub (t.erase a) t := by
  intro k v h
  by_cases hk : k = a
  · subst hk
    rw [AList.lookup_erase] at h
    cases h
  · rwa [AList.lookup_erase_ne hk] at h

theorem length_keys_insert_le (t : Table κ ν) (k : κ) (v : ν) :
    (t.insert k v).keys.length ≤ t.keys.length + 1 := by
  rw [AList.keys_insert, List.length_cons]
  exact Nat.add_le_add_right List.length_erase_le 1

theorem length_keys_insert_of_free (h : t.lookup k = none) (v : ν) :
    (t.insert k v).keys.length = t.keys.length + 1 := by
  have hnew : k ∉ t.keys := AList.lookup_eq_none.mp h
  rw [AList.keys_insert, List.length_cons, List.erase_of_not_mem hnew]

end Table

end Freens.Library
