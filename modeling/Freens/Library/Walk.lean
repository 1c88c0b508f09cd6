/-
**BOUNDED BACKWARD WALKS.** A loop that follows a partial predecessor function
until a stop condition holds, within a budget of steps. `walkBack_eq_some_iff` is
the whole theory.
-/
import Mathlib.Data.List.Chain

namespace Freens.Library

variable {α : Type} (stop : α → Bool) (back : α → Option α)

/-- Follow `back` until `stop`; `none` when the budget runs out or `back` is undefined. -/
def walkBack : (budget : Nat) → α → Option α
  | 0, a => if stop a then some a else none
  | n + 1, a => if stop a then some a else (back a).bind (walkBack n)

/-- `back` leads from each element to the next, and the last is the first at which the walk
stops. -/
structure Trail (a z : α) (l : List α) : Prop where
  start : l.head? = some a
  finish : l.getLast? = some z
  steps : l.IsChain (fun x y => back x = some y)
  before : ∀ x ∈ l.dropLast, stop x = false
  stops : stop z = true

variable {stop back} {a z : α} {l : List α}

theorem Trail.single (h : stop a = true) : Trail stop back a a [a] :=
  ⟨rfl, rfl, List.isChain_singleton a, by simp, h⟩

theorem Trail.ne_nil (h : Trail stop back a z l) : l ≠ [] := by
  intro hnil
  have := h.start
  rw [hnil] at this
  exact absurd this (by simp)

theorem Trail.cons {a b z : α} {l : List α} (hstop : stop a = false) (hback : back a = some b)
    (h : Trail stop back b z l) : Trail stop back a z (a :: l) := by
  refine ⟨rfl, ?_, ?_, ?_, h.stops⟩
  · rw [List.getLast?_cons, h.finish]
    rfl
  · rw [List.isChain_cons]
    refine ⟨?_, h.steps⟩
    intro y hy
    rw [h.start, Option.mem_some_iff] at hy
    exact hy ▸ hback
  · intro x hx
    rw [List.dropLast_cons_of_ne_nil h.ne_nil, List.mem_cons] at hx
    rcases hx with hhead | htail
    · exact hhead ▸ hstop
    · exact h.before x htail

theorem Trail.cases (h : Trail stop back a z l) :
    (stop a = true ∧ a = z ∧ l = [a]) ∨
    ∃ b l', stop a = false ∧ back a = some b ∧ l = a :: l' ∧ Trail stop back b z l' := by
  match l, h with
  | [], h => exact absurd rfl h.ne_nil
  | [x], h =>
    have hx : x = a := by simpa using h.start
    have hz : x = z := by simpa using h.finish
    subst hx hz
    exact .inl ⟨h.stops, rfl, rfl⟩
  | x :: y :: l', h =>
    have hx : x = a := by simpa using h.start
    subst hx
    have hsteps := List.isChain_cons_cons.mp h.steps
    have hfinish := h.finish
    rw [List.getLast?_cons_cons] at hfinish
    have hbefore : ∀ w ∈ x :: (y :: l').dropLast, stop w = false := h.before
    exact .inr ⟨y, y :: l', hbefore x List.mem_cons_self, hsteps.1, rfl,
      ⟨rfl, hfinish, hsteps.2, fun w hw => hbefore w (List.mem_cons_of_mem x hw), h.stops⟩⟩

/-- **The walk is exact**: it ends at `z` when a trail of at most `budget` steps does. -/
theorem walkBack_eq_some_iff {budget : Nat} :
    walkBack stop back budget a = some z ↔
      ∃ l, l.length ≤ budget + 1 ∧ Trail stop back a z l := by
  induction budget generalizing a with
  | zero =>
    unfold walkBack
    constructor
    · intro h
      split at h
      next hstop =>
        injection h with h
        subst h
        exact ⟨[a], Nat.le_refl 1, Trail.single hstop⟩
      next => cases h
    · intro h
      obtain ⟨l, hlen, htrail⟩ := h
      rcases htrail.cases with hone | ⟨b, l', hmore⟩
      · rw [if_pos hone.1, hone.2.1]
      · -- a second element would exceed the empty budget
        have := List.length_pos_of_ne_nil hmore.2.2.2.ne_nil
        rw [hmore.2.2.1, List.length_cons] at hlen
        omega
  | succ n ih =>
    unfold walkBack
    by_cases hstop : stop a = true
    · rw [if_pos hstop]
      constructor
      · intro h
        injection h with h
        subst h
        exact ⟨[a], by simp, Trail.single hstop⟩
      · intro h
        obtain ⟨l, _, htrail⟩ := h
        rcases htrail.cases with hone | ⟨b, l', hmore⟩
        · rw [hone.2.1]
        · rw [hstop] at hmore
          exact absurd hmore.1 (by simp)
    · rw [if_neg hstop, Option.bind_eq_some_iff]
      constructor
      · intro h
        obtain ⟨b, hback, hwalk⟩ := h
        obtain ⟨l, hlen, htrail⟩ := ih.mp hwalk
        exact ⟨a :: l, Nat.succ_le_succ hlen,
          Trail.cons (Bool.eq_false_iff.mpr hstop) hback htrail⟩
      · intro h
        obtain ⟨l, hlen, htrail⟩ := h
        rcases htrail.cases with hone | ⟨b, l', hmore⟩
        · exact absurd hone.1 hstop
        · obtain ⟨_, hback, hl, htail⟩ := hmore
          rw [hl, List.length_cons] at hlen
          exact ⟨b, hback, ih.mpr ⟨l', Nat.le_of_succ_le_succ hlen, htail⟩⟩

theorem Trail.forall_mem {p : α → Prop}
    (hstep : ∀ x y, back x = some y → p x → p y) :
    ∀ {a z : α}, Trail stop back a z l → p a → ∀ x ∈ l, p x := by
  induction l with
  | nil =>
    intro a z h _
    exact absurd rfl h.ne_nil
  | cons y l ih =>
    intro a z h ha x hx
    rcases h.cases with hone | ⟨b, l', _, hback, hl, htail⟩
    · rw [hone.2.2, List.mem_singleton] at hx
      exact hx ▸ ha
    · injection hl with hy hl
      subst hy hl
      rcases List.mem_cons.mp hx with hhead | hmem
      · exact hhead ▸ ha
      · exact ih htail (hstep y b hback ha) x hmem

/-- **Extending the predecessor function** does not change a walk that succeeds. -/
theorem walkBack_isSome_of_extends {back' : α → Option α}
    (hext : ∀ x y, back x = some y → back' x = some y) {n m : Nat} {a : α}
    (h : (walkBack stop back n a).isSome = true) :
    (walkBack stop back' m a).isSome = (walkBack stop back m a).isSome := by
  induction m generalizing n a with
  | zero => rfl
  | succ m ih =>
    by_cases hstop : stop a = true
    · simp [walkBack, hstop]
    · cases n with
      | zero => simp [walkBack, hstop] at h
      | succ n =>
        -- the successful walk takes a step here, and so do the other two
        simp only [walkBack, if_neg hstop] at h ⊢
        cases hback : back a with
        | none =>
          rw [hback] at h
          cases h
        | some b =>
          rw [hback] at h
          rw [hext a b hback]
          exact ih h

end Freens.Library
