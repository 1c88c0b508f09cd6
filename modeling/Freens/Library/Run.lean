/-
**RUNS OF A DETERMINISTIC MACHINE.** A run is the fold of a step function over a
list of actions. `EachStep` says that every step meets a condition on its action
and the state it is taken in; `EachStep.invariant` turns a step lemma into a run
lemma, `EachStep.history` does so for an invariant that speaks of the past.
-/
import Mathlib.Data.List.TakeDrop

namespace Freens.Library

variable {σ α : Type} (step : σ → α → σ)

/-- Every step of the run from `s` meets `ok` in the state it is taken in. -/
def EachStep (ok : σ → α → Prop) : σ → List α → Prop
  | _, [] => True
  | s, a :: as => ok s a ∧ EachStep ok (step s a) as

instance EachStep.decidable {ok : σ → α → Prop} [∀ s a, Decidable (ok s a)] :
    ∀ (s : σ) (as : List α), Decidable (EachStep step ok s as)
  | _, [] => isTrue trivial
  | s, a :: as => @instDecidableAnd _ _ _ (EachStep.decidable (step s a) as)

variable {step} {ok : σ → α → Prop} {as : List α} {s : σ}

/-- **The run rule**: what every conforming step preserves holds after every conforming run. -/
theorem EachStep.invariant {ok : σ → α → Prop} {inv : σ → Prop}
    (hstep : ∀ s a, inv s → ok s a → inv (step s a)) {as : List α} {s : σ} (hs : inv s)
    (hok : EachStep step ok s as) : inv (as.foldl step s) := by
  induction as generalizing s with
  | nil => exact hs
  | cons a as ih => exact ih (hstep s a hs hok.1) hok.2

/-- **The run rule with history**: the invariant may speak of the actions so far. -/
theorem EachStep.history_mem {ok : σ → α → Prop} {inv : List α → σ → Prop} {as past : List α}
    {s : σ} (hstep : ∀ past s, ∀ a ∈ as, inv past s → ok s a → inv (past ++ [a]) (step s a))
    (hs : inv past s) (hok : EachStep step ok s as) : inv (past ++ as) (as.foldl step s) := by
  induction as generalizing past s with
  | nil => rwa [List.append_nil]
  | cons a as ih =>
    have hnext := ih (fun past s b hb => hstep past s b (List.mem_cons_of_mem a hb))
      (hstep past s a List.mem_cons_self hs hok.1) hok.2
    rwa [List.append_assoc] at hnext

theorem EachStep.history {ok : σ → α → Prop} {inv : List α → σ → Prop}
    (hstep : ∀ past s a, inv past s → ok s a → inv (past ++ [a]) (step s a)) {as : List α}
    {past : List α} {s : σ} (hs : inv past s) (hok : EachStep step ok s as) :
    inv (past ++ as) (as.foldl step s) :=
  EachStep.history_mem (fun past s a _ => hstep past s a) hs hok

/-- A run conforms exactly when its two parts do, the second from where the
first ends. -/
theorem EachStep.append_iff {bs : List α} : EachStep step ok s (as ++ bs) ↔
    EachStep step ok s as ∧ EachStep step ok (as.foldl step s) bs := by
  induction as generalizing s with
  | nil => exact ⟨fun h => ⟨trivial, h⟩, fun h => h.2⟩
  | cons a as ih =>
    show (ok s a ∧ EachStep step ok (step s a) (as ++ bs)) ↔ _
    rw [ih, ← and_assoc]
    rfl

theorem EachStep.take (i : Nat) (hok : EachStep step ok s as) :
    EachStep step ok s (as.take i) := by
  induction as generalizing s i with
  | nil =>
    rw [List.take_nil]
    trivial
  | cons a as ih =>
    cases i with
    | zero => trivial
    | succ i => exact ⟨hok.1, ih i hok.2⟩

/-- A condition on the actions alone holds in whatever state they are taken. -/
theorem EachStep.of_forall_mem (h : ∀ a ∈ as, ∀ s, ok s a) : EachStep step ok s as := by
  induction as generalizing s with
  | nil => trivial
  | cons a as ih =>
    exact ⟨h a List.mem_cons_self s, ih (fun b hb => h b (List.mem_cons_of_mem a hb))⟩

/-- Two conditions that an invariant makes the same. -/
theorem EachStep.iff_of_invariant {ok ok' : σ → α → Prop} {inv : σ → Prop}
    (hiff : ∀ s a, inv s → (ok s a ↔ ok' s a)) (hnext : ∀ s a, inv s → ok s a → inv (step s a))
    {as : List α} {s : σ} (hs : inv s) : EachStep step ok s as ↔ EachStep step ok' s as := by
  induction as generalizing s with
  | nil => exact Iff.rfl
  | cons a as ih =>
    have hrest := and_congr_right fun ha => ih (hnext s a hs ha)
    exact hrest.trans (and_congr_left' (hiff s a hs))

theorem EachStep.imp_of_mem {ok' : σ → α → Prop} (himp : ∀ s, ∀ a ∈ as, ok s a → ok' s a)
    (hok : EachStep step ok s as) : EachStep step ok' s as := by
  induction as generalizing s with
  | nil => trivial
  | cons a as ih =>
    exact ⟨himp s a List.mem_cons_self hok.1,
      ih (fun s b hb => himp s b (List.mem_cons_of_mem a hb)) hok.2⟩

theorem EachStep.imp {ok' : σ → α → Prop} (himp : ∀ s a, ok s a → ok' s a)
    (hok : EachStep step ok s as) : EachStep step ok' s as :=
  hok.imp_of_mem fun s a _ => himp s a

theorem EachStep.at {i : Nat} {a : α} (hok : EachStep step ok s as) (hi : as[i]? = some a) :
    ok ((as.take i).foldl step s) a := by
  induction as generalizing s i with
  | nil => cases hi
  | cons b as ih =>
    cases i with
    | zero =>
      rw [List.getElem?_cons_zero, Option.some.injEq] at hi
      subst hi
      exact hok.1
    | succ i =>
      rw [List.getElem?_cons_succ] at hi
      exact ih hok.2 hi

theorem EachStep.of_at (h : ∀ i a, as[i]? = some a → ok ((as.take i).foldl step s) a) :
    EachStep step ok s as := by
  induction as generalizing s with
  | nil => trivial
  | cons b as ih =>
    refine ⟨h 0 b rfl, ih ?_⟩
    intro i a hi
    exact h (i + 1) a hi

/-- **The rule for exact conditions**: what a step keeps exactly when it conforms holds
throughout exactly when every step conforms. -/
theorem EachStep.always_iff {ok : σ → α → Prop} {inv law : σ → Prop}
    (hinv : ∀ s a, inv s → inv (step s a))
    (hlaw : ∀ s a, inv s → law s → (law (step s a) ↔ ok s a)) {as : List α} {s : σ} (hs : inv s)
    (hstart : law s) : (∀ n, law ((as.take n).foldl step s)) ↔ EachStep step ok s as := by
  induction as generalizing s with
  | nil => exact iff_of_true (fun n => by rwa [List.take_nil]) trivial
  | cons a as ih =>
    have hrest := fun hnext => ih (hinv s a hs) hnext
    constructor
    · intro h
      have hnext : law (step s a) := h 1
      exact ⟨(hlaw s a hs hstart).mp hnext, (hrest hnext).mp (fun n => h (n + 1))⟩
    · rintro ⟨hok, htail⟩ n
      cases n with
      | zero => exact hstart
      | succ n => exact (hrest ((hlaw s a hs hstart).mpr hok)).mpr htail n

section
variable {κ ν : Type} [DecidableEq κ] (get : σ → κ → Option ν) (key : α → κ) (val : α → ν)

theorem get_foldl_of_not_mem {k : κ} (hwrites : EachStep step
      (fun s a => ∀ k, get (step s a) k = if k = key a then some (val a) else get s k) s as)
    (hk : k ∉ as.map key) : get (as.foldl step s) k = get s k := by
  induction as generalizing s with
  | nil => rfl
  | cons a as ih =>
    rw [List.map_cons, List.mem_cons, not_or] at hk
    rw [List.foldl_cons, ih hwrites.2 hk.2, hwrites.1, if_neg hk.1]

/-- **Writes to different keys** are all found at the end. -/
theorem get_foldl_of_writes (hwrites : EachStep step
      (fun s a => ∀ k, get (step s a) k = if k = key a then some (val a) else get s k) s as)
    (hnodup : (as.map key).Nodup) : ∀ a ∈ as, get (as.foldl step s) (key a) = some (val a) := by
  induction as generalizing s with
  | nil => exact fun a ha => absurd ha List.not_mem_nil
  | cons b as ih =>
    obtain ⟨hnew, hrest⟩ := List.nodup_cons.mp hnodup
    intro a ha
    rcases List.mem_cons.mp ha with rfl | ha
    · rw [List.foldl_cons, get_foldl_of_not_mem get key val hwrites.2 hnew, hwrites.1, if_pos rfl]
    · exact ih hwrites.2 hrest a ha

end

theorem foldl_take_succ {i : Nat} {a : α} (h : as[i]? = some a) :
    (as.take (i + 1)).foldl step s = step ((as.take i).foldl step s) a := by
  rw [List.take_add_one, h, Option.toList_some, List.foldl_append, List.foldl_cons,
    List.foldl_nil]

end Freens.Library
