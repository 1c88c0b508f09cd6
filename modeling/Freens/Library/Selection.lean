/-
**KEEPING THE BEST OF A STREAM.** `challenge` keeps the champion unless the
next candidate beats it. Over a transitive and irreflexive relation the
champion of a whole list is a candidate that no other one beats, and where
losing is transitive too it is the head of the stably sorted list.
-/
import Mathlib.Data.List.Induction
import Mathlib.Data.List.Sort

namespace Freens.Library

variable {α : Type} (beats : α → α → Bool)

/-- The champion after one more candidate. -/
def challenge (champion : Option α) (a : α) : Option α :=
  match champion with
  | none => some a
  | some b => if beats a b then some a else some b

/-- A member of the list that no member beats. -/
structure Unbeaten (l : List α) (a : α) : Prop where
  mem : a ∈ l
  top : ∀ b ∈ l, beats b a = false

/-- A scan that starts from the first candidate keeps the same champion. -/
theorem foldl_challenge_cons (x : α) (l : List α) :
    (x :: l).foldl (challenge beats) none =
      some (l.foldl (fun best a => if beats a best then a else best) x) := by
  show l.foldl (challenge beats) (some x) = _
  induction l generalizing x with
  | nil => rfl
  | cons a l ih =>
    rw [List.foldl_cons, List.foldl_cons, ← ih]
    cases h : beats a x <;> simp [challenge, h]

variable {beats} (hirrefl : ∀ a, beats a a = false)
  (htrans : ∀ a b c, beats a b = true → beats b c = true → beats a c = true)
include htrans

section
include hirrefl

/-- **The champion of a list**: none when the list is empty, else an unbeaten
member. -/
theorem foldl_challenge (l : List α) :
    (l = [] ∧ l.foldl (challenge beats) none = none) ∨
      ∃ a, l.foldl (challenge beats) none = some a ∧ Unbeaten beats l a := by
  -- the induction is on the candidates seen so far, so the list grows at its end
  induction l using List.reverseRecOn with
  | nil => exact .inl ⟨rfl, rfl⟩
  | append_singleton l x ih =>
    right
    rw [List.foldl_append, List.foldl_cons, List.foldl_nil]
    rcases ih with ⟨hnil, hnone⟩ | ⟨b, hb, hbest⟩
    · subst hnil
      refine ⟨x, by rw [hnone]; rfl, ⟨by simp, ?_⟩⟩
      intro c hc
      rw [List.nil_append, List.mem_singleton] at hc
      rw [hc]
      exact hirrefl x
    · rw [hb]
      by_cases hx : beats x b = true
      · refine ⟨x, by simp [challenge, hx], ⟨by simp, ?_⟩⟩
        intro c hc
        rcases List.mem_append.mp hc with hold | hnew
        · -- whoever beat the new champion would have beaten the old one
          by_contra hcx
          have := htrans c x b (by simpa using hcx) hx
          rw [hbest.top c hold] at this
          exact absurd this (by simp)
        · rw [List.mem_singleton.mp hnew]
          exact hirrefl x
      · refine ⟨b, by simp [challenge, hx], ⟨by simp [hbest.mem], ?_⟩⟩
        intro c hc
        rcases List.mem_append.mp hc with hold | hnew
        · exact hbest.top c hold
        · rw [List.mem_singleton.mp hnew]
          exact Bool.eq_false_iff.mpr hx

variable {l' l : List α}

theorem unbeaten_of_foldl {a : α} (h : l.foldl (challenge beats) none = some a) :
    Unbeaten beats l a := by
  rcases foldl_challenge hirrefl htrans l with ⟨_, hnone⟩ | ⟨b, hb, hbest⟩
  · rw [hnone] at h
    cases h
  · rw [hb, Option.some.injEq] at h
    exact h ▸ hbest

/-- **The champions of the same candidates** do not beat each other. -/
theorem champions_tie (hmem : ∀ a, a ∈ l ↔ a ∈ l') :
    (l.foldl (challenge beats) none = none ∧ l'.foldl (challenge beats) none = none) ∨
      ∃ a b, l.foldl (challenge beats) none = some a ∧ l'.foldl (challenge beats) none = some b ∧
        (a ∈ l ∧ b ∈ l) ∧ beats a b = false ∧ beats b a = false := by
  rcases foldl_challenge hirrefl htrans l with ⟨hnil, hnone⟩ | ⟨a, ha, hbest⟩
  · have hnil' : l' = [] := List.eq_nil_iff_forall_not_mem.mpr fun b hb =>
      absurd ((hmem b).mpr hb) (by simp [hnil])
    exact .inl ⟨hnone, by rw [hnil']; rfl⟩
  · rcases foldl_challenge hirrefl htrans l' with ⟨hnil', _⟩ | ⟨b, hb, hbest'⟩
    · exact absurd ((hmem a).mp hbest.mem) (by simp [hnil'])
    · have hb_mem := (hmem b).mpr hbest'.mem
      exact .inr ⟨a, b, ha, hb, ⟨hbest.mem, hb_mem⟩,
        hbest'.top a ((hmem a).mp hbest.mem), hbest.top b hb_mem⟩

/-- **Order and repetition do not matter** where of two members one beats the other. -/
theorem champion_congr (hmem : ∀ a, a ∈ l ↔ a ∈ l')
    (htotal : ∀ a ∈ l, ∀ b ∈ l, a = b ∨ beats a b = true ∨ beats b a = true) :
    l.foldl (challenge beats) none = l'.foldl (challenge beats) none := by
  rcases champions_tie hirrefl htrans hmem with
    ⟨hnone, hnone'⟩ | ⟨a, b, ha, hb, ⟨ha_mem, hb_mem⟩, hab, hba⟩
  · rw [hnone, hnone']
  · rcases htotal a ha_mem b hb_mem with heq | hbeats | hbeats
    · rw [ha, hb, heq]
    · rw [hab] at hbeats
      cases hbeats
    · rw [hba] at hbeats
      cases hbeats

end

variable (hnegTrans : ∀ a b c, beats a b = false → beats b c = false → beats a c = false)
include hnegTrans

theorem foldl_challenge_some (x : α) (l : List α) :
    l.foldl (challenge beats) (some x) =
      match l.foldl (challenge beats) none with
      | none => some x
      | some b => if beats b x then some b else some x := by
  induction l using List.reverseRecOn with
  | nil => rfl
  | append_singleton l y ih =>
    rw [List.foldl_append, List.foldl_append, ih]
    simp only [List.foldl_cons, List.foldl_nil]
    cases l.foldl (challenge beats) none with
    | none => rfl
    | some b =>
      show challenge beats (if beats b x then some b else some x) y =
        match (if beats y b then some y else some b) with
        | none => some x
        | some c => if beats c x then some c else some x
      cases hbx : beats b x with
      | true =>
        cases hyb : beats y b with
        | true => simp [challenge, hyb, htrans y b x hyb hbx]
        | false => simp [challenge, hyb, hbx]
      | false =>
        cases hyb : beats y b with
        | true => simp [challenge]
        | false => simp [challenge, hbx, hnegTrans y b x hyb hbx]

/-- **The champion heads the sorted list**: of equals, the first one in both. -/
theorem foldl_challenge_eq_head? (l : List α) :
    l.foldl (challenge beats) none = (l.insertionSort (fun a b => beats b a = false)).head? := by
  induction l with
  | nil => rfl
  | cons x l ih =>
    show l.foldl (challenge beats) (some x) = _
    rw [foldl_challenge_some htrans hnegTrans, ih, List.insertionSort_cons]
    cases l.insertionSort (fun a b => beats b a = false) with
    | nil => rfl
    | cons b rest =>
      rw [List.head?_cons, List.orderedInsert_cons]
      cases hbx : beats b x with
      | true | false => simp [hbx]

end Freens.Library
