/-
**RULES FOR FALLIBLE CODE.** A function that returns early on errors is
an `Except` computation; these rules take the success of the whole apart
into the success of its steps.
-/
import Mathlib.Data.List.Forall2

namespace Freens.Library

variable {ε α β : Type}
  {f : α → Except ε β} {x : Except ε α} {b : β} {e : ε} {a : α} {l : List α} {l' : List β}

@[simp] theorem bind_eq_ok : (x >>= f) = .ok b ↔ ∃ a, x = .ok a ∧ f a = .ok b := by
  cases x with
  | error e | ok a => simp [bind, Except.bind]

variable {k : Except ε β} {c : Prop}

@[simp] theorem guard_eq_ok [Decidable c] :
    (if c then Except.error e else k) = .ok b ↔ ¬ c ∧ k = .ok b := by
  by_cases hc : c
  · simp [hc]
  · simp [hc]

@[simp] theorem pure_eq_ok {b : α} : (pure a : Except ε α) = .ok b ↔ a = b := by
  simp [pure, Except.pure]

/-- The value of an optional step, or the error its absence is reported as. -/
def expect (e : ε) : Option α → Except ε α
  | none => .error e
  | some a => .ok a

@[simp] theorem expect_eq_ok {x : Option α} : expect e x = .ok a ↔ x = some a := by
  cases x with
  | none | some b => simp [expect]

/-- A step taken only when its input is there; `absent` is the value otherwise. -/
def ifPresent (absent : β) (x : Option α) (f : α → Except ε β) : Except ε β :=
  match x with
  | none => .ok absent
  | some a => f a

@[simp] theorem ifPresent_eq_ok {absent : β} {x : Option α} :
    ifPresent absent x f = .ok b ↔ (x = none ∧ absent = b) ∨ ∃ a, x = some a ∧ f a = .ok b := by
  cases x with
  | none | some a => simp [ifPresent]

@[simp] theorem map_eq_ok {f : α → β} : f <$> x = .ok b ↔ ∃ a, x = .ok a ∧ f a = b := by
  cases x with
  | error e | ok a => simp [Functor.map, Except.map]

@[simp] theorem mapError_eq_ok {ε' : Type} {f : ε → ε'} : x.mapError f = .ok a ↔ x = .ok a := by
  cases x with
  | error e | ok b => simp [Except.mapError]

theorem bind_eq_error : (x >>= f) = .error e ↔ x = .error e ∨ ∃ a, x = .ok a ∧ f a = .error e := by
  cases x with
  | error e' => simp [bind, Except.bind]
  | ok a => simp [bind, Except.bind]

theorem guard_eq_error [Decidable c] {e' : ε} :
    (if c then Except.error e' else k) = .error e ↔ (c ∧ e' = e) ∨ (¬ c ∧ k = .error e) := by
  by_cases hc : c
  · simp [hc]
  · simp [hc]

theorem forM_eq_ok {f : α → Except ε Unit} : l.forM f = .ok () ↔ ∀ a ∈ l, f a = .ok () := by
  induction l with
  | nil => exact ⟨fun _ a ha => absurd ha List.not_mem_nil, fun _ => rfl⟩
  | cons a l ih =>
    show (f a >>= fun _ => l.forM f) = .ok () ↔ _
    rw [bind_eq_ok, List.forall_mem_cons, ih]
    exact ⟨fun ⟨_, ha, hl⟩ => ⟨ha, hl⟩, fun ⟨ha, hl⟩ => ⟨(), ha, hl⟩⟩

/-- **A checking loop fails** at the first element that does. -/
theorem forM_eq_error {f : α → Except ε Unit} :
    l.forM f = .error e ↔
      ∃ passed a rest, l = passed ++ a :: rest ∧ (∀ b ∈ passed, f b = .ok ()) ∧ f a = .error e := by
  induction l with
  | nil => simp [List.forM, pure, Except.pure]
  | cons x l ih =>
    show (f x >>= fun _ => l.forM f) = .error e ↔ _
    rw [bind_eq_error]
    constructor
    · rintro (hx | ⟨_, hx, hl⟩)
      · exact ⟨[], x, l, rfl, by simp, hx⟩
      · obtain ⟨passed, a, rest, hsplit, hpassed, ha⟩ := ih.mp hl
        refine ⟨x :: passed, a, rest, by rw [hsplit, List.cons_append], ?_, ha⟩
        exact List.forall_mem_cons.mpr ⟨hx, hpassed⟩
    · rintro ⟨passed, a, rest, hsplit, hpassed, ha⟩
      cases passed with
      | nil =>
        rw [List.nil_append, List.cons.injEq] at hsplit
        exact .inl (hsplit.1 ▸ ha)
      | cons y passed =>
        rw [List.cons_append, List.cons.injEq] at hsplit
        rw [List.forall_mem_cons] at hpassed
        exact .inr ⟨(), hsplit.1 ▸ hpassed.1, ih.mpr ⟨passed, a, rest, hsplit.2, hpassed.2, ha⟩⟩

theorem mapM_eq_ok : l.mapM f = .ok l' ↔ List.Forall₂ (fun a b => f a = .ok b) l l' := by
  induction l generalizing l' with
  | nil => rw [List.mapM_nil, pure_eq_ok, List.forall₂_nil_left_iff, eq_comm]
  | cons a l ih =>
    rw [List.mapM_cons, bind_eq_ok, List.forall₂_cons_left_iff]
    constructor
    · intro h
      obtain ⟨b, hb, hrest⟩ := h
      rw [bind_eq_ok] at hrest
      obtain ⟨bs, hbs, hl'⟩ := hrest
      exact ⟨b, bs, hb, ih.mp hbs, (pure_eq_ok.mp hl').symm⟩
    · intro h
      obtain ⟨b, bs, hb, hbs, hl'⟩ := h
      exact ⟨b, hb, bind_eq_ok.mpr ⟨bs, ih.mpr hbs, pure_eq_ok.mpr hl'.symm⟩⟩

theorem mapM_eq_ok_map {f : α → Except ε β} {g : α → β} {l : List α} :
    l.mapM f = .ok (l.map g) ↔ ∀ x ∈ l, f x = .ok (g x) := by
  rw [mapM_eq_ok, List.forall₂_map_right_iff, List.forall₂_same]

theorem eq_map_of_mapM {g : α → β} (h : l.mapM f = .ok l')
    (hg : ∀ a ∈ l, ∀ b, f a = .ok b → b = g a) : l' = l.map g := by
  induction mapM_eq_ok.mp h with
  | nil => rfl
  | @cons a b l l' hab htail ih =>
    have hrest := ih (mapM_eq_ok.mpr htail) (fun a' ha' => hg a' (List.mem_cons_of_mem a ha'))
    rw [List.map_cons, ← hg a List.mem_cons_self b hab, ← hrest]

/-- **A loop that undoes a map** undoes it at every element. -/
theorem mapM_map_eq_ok {g : β → α} {l : List β} :
    (l.map g).mapM f = .ok l ↔ ∀ x ∈ l, f (g x) = .ok x := by
  rw [mapM_eq_ok, List.forall₂_map_left_iff, List.forall₂_same]

theorem mapM_drop (n : Nat) (h : l.mapM f = .ok l') : (l.drop n).mapM f = .ok (l'.drop n) :=
  mapM_eq_ok.mpr (List.forall₂_drop n (mapM_eq_ok.mp h))

theorem mapM_length (h : l.mapM f = .ok l') : l.length = l'.length :=
  (mapM_eq_ok.mp h).length_eq

theorem exists_of_mem_mapM (h : l.mapM f = .ok l') (hb : b ∈ l') : ∃ a ∈ l, f a = .ok b := by
  induction mapM_eq_ok.mp h with
  | nil => exact absurd hb List.not_mem_nil
  | @cons a c l l' hac htail ih =>
    rcases List.mem_cons.mp hb with hhead | hmem
    · exact ⟨a, List.mem_cons_self, hhead ▸ hac⟩
    · obtain ⟨a', ha', hval⟩ := ih (mapM_eq_ok.mpr htail) hmem
      exact ⟨a', List.mem_cons_of_mem a ha', hval⟩

theorem forall₂_getElem? {R : α → β → Prop}
    (h : List.Forall₂ R l l') {i : Nat} {a : α} (hi : l[i]? = some a) :
    ∃ b, l'[i]? = some b ∧ R a b := by
  induction h generalizing i a with
  | nil => cases hi
  | @cons x y l l' hxy _ ih =>
    cases i with
    | zero =>
      rw [List.getElem?_cons_zero, Option.some.injEq] at hi
      exact ⟨y, rfl, hi ▸ hxy⟩
    | succ i => exact ih hi

end Freens.Library
