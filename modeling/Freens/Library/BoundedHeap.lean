/-
**KEEPING THE `n` LEAST OF A STREAM** in a binary max-heap of bounded size.

The order along parents is a property of a function of the position, out of range
at the bottom (`rank`): a swap composes it with a transposition. `UpOrder` and
`DownOrder` say what a sift has left to repair.
-/
import Mathlib.Data.List.Sort
import Mathlib.Logic.Equiv.Basic
import Mathlib.Order.WithBot
import Mathlib.Tactic

namespace Freens.Library.Heap

/-! ## The order along parents -/

/-- The position above; zero is above itself. -/
def parent (i : Nat) : Nat := (i - 1) / 2

theorem parent_lt {i : Nat} (h : 0 < i) : parent i < i := by
  unfold parent
  omega

section Order

variable {β : Type} [LinearOrder β] {f : Nat → β} {i : Nat}

/-- No position exceeds the one above it. -/
def Ordered (f : Nat → β) : Prop := ∀ j, 0 < j → f j ≤ f (parent j)

theorem Ordered.le_root (h : Ordered f) (i : Nat) : f i ≤ f 0 := by
  -- up the path to the root
  induction i using Nat.strongRecOn with
  | ind i ih =>
    rcases Nat.eq_zero_or_pos i with hzero | hpos
    · rw [hzero]
    · exact (h i hpos).trans (ih (parent i) (parent_lt hpos))

/-- In order but for one position and the one above it. -/
structure UpOrder (f : Nat → β) (i : Nat) : Prop where
  others : ∀ j, 0 < j → j ≠ i → f j ≤ f (parent j)
  grand : 0 < i → ∀ c, 0 < c → parent c = i → f c ≤ f (parent i)

theorem UpOrder.move (h : UpOrder f i) (hi : 0 < i) (hlt : f (parent i) < f i) :
    UpOrder (f ∘ Equiv.swap (parent i) i) (parent i) where
  others := by
    intro j hj hne
    show f (Equiv.swap (parent i) i j) ≤ f (Equiv.swap (parent i) i (parent j))
    by_cases hji : j = i
    · -- the two that changed places
      rw [hji, Equiv.swap_apply_right, Equiv.swap_apply_left]
      exact hlt.le
    · rw [Equiv.swap_apply_of_ne_of_ne hne hji]
      by_cases hbelow : parent j = i
      · rw [hbelow, Equiv.swap_apply_right]
        exact h.grand hi j hj hbelow
      · by_cases hsibling : parent j = parent i
        · rw [hsibling, Equiv.swap_apply_left]
          have hside := h.others j hj hji
          rw [hsibling] at hside
          exact hside.trans hlt.le
        · rw [Equiv.swap_apply_of_ne_of_ne hsibling hbelow]
          exact h.others j hj hji
  grand := by
    intro hp c hc hcp
    have habove := parent_lt hp
    have hbelow := parent_lt hi
    show f (Equiv.swap (parent i) i c) ≤ f (Equiv.swap (parent i) i (parent (parent i)))
    rw [Equiv.swap_apply_of_ne_of_ne (by omega) (by omega : parent (parent i) ≠ i)]
    have hup := h.others (parent i) hp (by omega)
    by_cases hci : c = i
    · rw [hci, Equiv.swap_apply_right]
      exact hup
    · have hcne : c ≠ parent i := by
        have := parent_lt hc
        omega
      rw [Equiv.swap_apply_of_ne_of_ne hcne hci]
      have hside := h.others c hc hci
      rw [hcp] at hside
      exact hside.trans hup

theorem UpOrder.finish (h : UpOrder f i) (hstop : 0 < i → f i ≤ f (parent i)) : Ordered f := by
  intro j hj
  by_cases hji : j = i
  · rw [hji] at hj ⊢
    exact hstop hj
  · exact h.others j hj hji

/-- In order but for one position and those below it; those are in order with the
one above it. -/
structure DownOrder (f : Nat → β) (i : Nat) : Prop where
  others : ∀ j, 0 < j → parent j ≠ i → f j ≤ f (parent j)
  grand : 0 < i → ∀ c, 0 < c → parent c = i → f c ≤ f (parent i)

theorem DownOrder.move (h : DownOrder f i) {b : Nat} (hb : 0 < b) (hbi : parent b = i)
    (hlt : f i < f b) (hmax : ∀ c, 0 < c → parent c = i → f c ≤ f b) :
    DownOrder (f ∘ Equiv.swap b i) b where
  others := by
    intro j hj hne
    have hib := parent_lt hb
    have hjp := parent_lt hj
    show f (Equiv.swap b i j) ≤ f (Equiv.swap b i (parent j))
    by_cases hjb : j = b
    · -- the two that changed places
      rw [hjb, hbi, Equiv.swap_apply_left, Equiv.swap_apply_right]
      exact hlt.le
    · by_cases hji : j = i
      · rw [hji] at hj hjp ⊢
        rw [Equiv.swap_apply_right, Equiv.swap_apply_of_ne_of_ne (by omega) (by omega)]
        exact h.grand hj b hb hbi
      · rw [Equiv.swap_apply_of_ne_of_ne hjb hji]
        by_cases hbelow : parent j = i
        · rw [hbelow, Equiv.swap_apply_right]
          exact hmax j hj hbelow
        · rw [Equiv.swap_apply_of_ne_of_ne hne hbelow]
          exact h.others j hj hbelow
  grand := by
    intro _ c hc hcb
    have hib := parent_lt hb
    have hcp := parent_lt hc
    show f (Equiv.swap b i c) ≤ f (Equiv.swap b i (parent b))
    rw [hbi, Equiv.swap_apply_right, Equiv.swap_apply_of_ne_of_ne (by omega) (by omega)]
    have hbelow := h.others c hc (by omega)
    rwa [hcb] at hbelow

theorem DownOrder.finish (h : DownOrder f i) (hstop : ∀ c, 0 < c → parent c = i → f c ≤ f i) :
    Ordered f := by
  intro j hj
  by_cases hbelow : parent j = i
  · rw [hbelow]
    exact hstop j hj hbelow
  · exact h.others j hj hbelow

end Order

/-! ## The sifts -/

section Sift

variable {α : Type} (cmp : α → α → Int)

/-- The item at `i` compares greater than the one at `j`. -/
def farther (l : List α) (i j : Nat) : Bool :=
  match l[i]?, l[j]? with
  | some a, some b => cmp a b > 0
  | _, _ => false

/-- Two places exchanged; an index outside leaves the list. -/
def swap (l : List α) (i j : Nat) : List α :=
  match l[i]?, l[j]? with
  | some a, some b => (l.set i b).set j a
  | _, _ => l

/-- Sift up: while the item exceeds the one above it. -/
def up : Nat → List α → Nat → List α
  | 0, l, _ => l
  | fuel + 1, l, i =>
    if i = 0 then l
    else if farther cmp l i (parent i) then up fuel (swap l (parent i) i) (parent i)
    else l

/-- The greater of a candidate, if there is one, and the greatest so far. -/
def bigger (l : List α) (c big : Nat) : Nat :=
  if c < l.length ∧ farther cmp l c big then c else big

/-- Sift down: while one of the two items below exceeds the item. -/
def down : Nat → List α → Nat → List α
  | 0, l, _ => l
  | fuel + 1, l, i =>
    let big := bigger cmp l (2 * i + 2) (bigger cmp l (2 * i + 1) i)
    if big = i then l else down fuel (swap l big i) big

/-- One more item: it joins while there is room, else it replaces the greatest
if it is less. -/
def offer (cap : Nat) (l : List α) (a : α) : List α :=
  if l.length < cap then up cmp l.length (l ++ [a]) l.length
  else match l with
    | [] => []
    | root :: rest => if cmp a root < 0 then down cmp l.length (a :: rest) 0 else l

variable {cmp} {l : List α} {i j : Nat}

theorem getElem?_swap (hi : i < l.length) (hj : j < l.length) (k : Nat) :
    (swap l i j)[k]? = l[Equiv.swap i j k]? := by
  have hswap : swap l i j = (l.set i l[j]).set j l[i] := by
    rw [swap, List.getElem?_eq_getElem hi, List.getElem?_eq_getElem hj]
  rw [hswap]
  by_cases hkj : k = j
  · rw [hkj, Equiv.swap_apply_right, List.getElem?_set_self (by simpa using hj),
      List.getElem?_eq_getElem hi]
  · rw [List.getElem?_set_ne (Ne.symm hkj)]
    by_cases hki : k = i
    · rw [hki, Equiv.swap_apply_left, List.getElem?_set_self hi, List.getElem?_eq_getElem hj]
    · rw [List.getElem?_set_ne (Ne.symm hki), Equiv.swap_apply_of_ne_of_ne hki hkj]

theorem swap_perm (l : List α) (i j : Nat) : (swap l i j).Perm l := by
  unfold swap
  split
  next a b ha hb =>
    obtain ⟨hi, hget⟩ := List.getElem?_eq_some_iff.mp ha
    obtain ⟨hj, hget'⟩ := List.getElem?_eq_some_iff.mp hb
    rw [← hget, ← hget']
    exact List.set_set_perm hi hj
  next => exact List.Perm.refl _

theorem up_perm (fuel : Nat) : ∀ (l : List α) (i : Nat), (up cmp fuel l i).Perm l := by
  induction fuel with
  | zero => exact fun l _ => List.Perm.refl l
  | succ fuel ih =>
    intro l i
    unfold up
    split
    next => exact List.Perm.refl l
    split
    next => exact (ih _ _).trans (swap_perm _ _ _)
    next => exact List.Perm.refl l

theorem down_perm (fuel : Nat) : ∀ (l : List α) (i : Nat), (down cmp fuel l i).Perm l := by
  induction fuel with
  | zero => exact fun l _ => List.Perm.refl l
  | succ fuel ih =>
    intro l i
    unfold down
    simp only
    split
    next => exact List.Perm.refl l
    next => exact (ih _ _).trans (swap_perm _ _ _)

variable {κ : Type} {key : α → κ}

/-- The key at a position, and the bottom out of range. -/
def rank (key : α → κ) (l : List α) (i : Nat) : WithBot κ :=
  match l[i]? with
  | some a => (key a : WithBot κ)
  | none => ⊥

theorem rank_of_le (h : l.length ≤ i) : rank key l i = ⊥ := by
  rw [rank, List.getElem?_eq_none h]

variable {a : α} {cap : Nat}

theorem rank_of_getElem? (h : l[i]? = some a) : rank key l i = (key a : WithBot κ) := by
  rw [rank, h]

variable {l' : List α}

theorem rank_congr (h : l[i]? = l'[i]?) : rank key l i = rank key l' i := by
  rw [rank, rank, h]

theorem rank_swap (hi : i < l.length) (hj : j < l.length) :
    rank key (swap l i j) = rank key l ∘ Equiv.swap i j := by
  funext k
  show rank key (swap l i j) k = rank key l (Equiv.swap i j k)
  rw [rank, rank, getElem?_swap hi hj]

variable [LinearOrder κ]

/-- On these items the comparison is that of their keys. -/
structure Agrees (cmp : α → α → Int) (key : α → κ) (l : List α) : Prop where
  lt : ∀ a ∈ l, ∀ b ∈ l, (cmp a b < 0 ↔ key a < key b)
  gt : ∀ a ∈ l, ∀ b ∈ l, (cmp a b > 0 ↔ key b < key a)

theorem Agrees.mono (h : Agrees cmp key l) (hsub : l' ⊆ l) : Agrees cmp key l' where
  lt := fun a ha b hb => h.lt a (hsub ha) b (hsub hb)
  gt := fun a ha b hb => h.gt a (hsub ha) b (hsub hb)

/-- **What the sifts compare**: the ranks, as long as the second position holds
an item. -/
theorem farther_iff (h : Agrees cmp key l) (hj : j < l.length) :
    farther cmp l i j = true ↔ rank key l j < rank key l i := by
  have hb := List.getElem?_eq_getElem hj
  rw [farther, hb, rank_of_getElem? hb]
  by_cases hi : i < l.length
  · have ha := List.getElem?_eq_getElem hi
    rw [ha, rank_of_getElem? ha, WithBot.coe_lt_coe]
    exact decide_eq_true_iff.trans (h.gt _ (List.getElem_mem hi) _ (List.getElem_mem hj))
  · rw [List.getElem?_eq_none (Nat.le_of_not_lt hi), rank_of_le (Nat.le_of_not_lt hi)]
    simp

theorem up_ordered (fuel : Nat) {l : List α} {i : Nat} (hagree : Agrees cmp key l)
    (hi : i < l.length) (hfuel : i ≤ fuel) (h : UpOrder (rank key l) i) :
    Ordered (rank key (up cmp fuel l i)) := by
  induction fuel generalizing l i with
  | zero => exact h.finish (fun hi => absurd hi (by omega))
  | succ fuel ih =>
    unfold up
    split
    next hzero => exact h.finish (fun hpos => absurd hzero (by omega))
    next hne =>
      have hpos : 0 < i := Nat.pos_of_ne_zero hne
      have hlt := parent_lt hpos
      have hp : parent i < l.length := by omega
      split
      next hfar =>
        have hmove := h.move hpos ((farther_iff hagree hp).mp hfar)
        rw [← rank_swap hp hi] at hmove
        have hlen := (swap_perm l (parent i) i).length_eq
        exact ih (hagree.mono (swap_perm l (parent i) i).subset) (by omega) (by omega) hmove
      next hnear =>
        exact h.finish (fun _ => not_lt.mp (fun hgt => hnear ((farther_iff hagree hp).mpr hgt)))

/-- `b` is the larger of place `i` and its children. -/
structure Biggest (key : α → κ) (l : List α) (i b : Nat) : Prop where
  inside : b < l.length
  place : b = i ∨ 0 < b ∧ parent b = i
  top : rank key l i ≤ rank key l b
  below : ∀ c, 0 < c → parent c = i → rank key l c ≤ rank key l b
  strict : b ≠ i → rank key l i < rank key l b

theorem bigger_spec (hagree : Agrees cmp key l) {c b : Nat} (hb : b < l.length) :
    bigger cmp l c b < l.length ∧ rank key l b ≤ rank key l (bigger cmp l c b) ∧
      rank key l c ≤ rank key l (bigger cmp l c b) ∧
      (bigger cmp l c b = b ∨ bigger cmp l c b = c ∧ rank key l b < rank key l c) := by
  unfold bigger
  split
  next h =>
    have hlt := (farther_iff hagree hb).mp h.2
    exact ⟨h.1, hlt.le, le_refl _, .inr ⟨rfl, hlt⟩⟩
  next h =>
    refine ⟨hb, le_refl _, ?_, .inl rfl⟩
    -- out of range, or not greater
    by_cases hc : c < l.length
    · exact not_lt.mp (fun hgt => h ⟨hc, (farther_iff hagree hb).mpr hgt⟩)
    · rw [rank_of_le (Nat.le_of_not_lt hc)]
      exact bot_le

theorem biggest (hagree : Agrees cmp key l) (hi : i < l.length) :
    Biggest key l i (bigger cmp l (2 * i + 2) (bigger cmp l (2 * i + 1) i)) := by
  obtain ⟨hin, hle, hleft, hcase⟩ := bigger_spec (c := 2 * i + 1) hagree hi
  obtain ⟨hin', hle', hright, hcase'⟩ := bigger_spec (c := 2 * i + 2) hagree hin
  generalize bigger cmp l (2 * i + 1) i = b at *
  generalize bigger cmp l (2 * i + 2) b = b' at *
  refine ⟨hin', ?_, hle.trans hle', ?_, ?_⟩
  · have : parent (2 * i + 1) = i ∧ parent (2 * i + 2) = i := by
      unfold parent
      omega
    rcases hcase' with heq | ⟨heq, _⟩
    · rcases hcase with heq' | ⟨heq', _⟩
      · exact .inl (heq.trans heq')
      · rw [heq, heq']
        exact .inr ⟨by omega, this.1⟩
    · rw [heq]
      exact .inr ⟨by omega, this.2⟩
  · intro c hc hci
    have hchild : c = 2 * i + 1 ∨ c = 2 * i + 2 := by
      unfold parent at hci
      omega
    rcases hchild with heq | heq
    · rw [heq]
      exact hleft.trans hle'
    · rw [heq]
      exact hright
  · intro hne
    rcases hcase' with heq | ⟨heq, hlt⟩
    · rcases hcase with heq' | ⟨heq', hlt⟩
      · exact absurd (heq.trans heq') hne
      · rw [heq, heq']
        exact hlt
    · rw [heq]
      exact lt_of_le_of_lt hle hlt

theorem down_ordered (fuel : Nat) {l : List α} {i : Nat} (hagree : Agrees cmp key l)
    (hi : i < l.length) (hfuel : l.length ≤ fuel + i) (h : DownOrder (rank key l) i) :
    Ordered (rank key (down cmp fuel l i)) := by
  induction fuel generalizing l i with
  | zero => omega
  | succ fuel ih =>
    have hbig := biggest hagree hi
    unfold down
    simp only
    generalize bigger cmp l (2 * i + 2) (bigger cmp l (2 * i + 1) i) = b at hbig
    split
    next heq =>
      rw [heq] at hbig
      exact h.finish hbig.below
    next hne =>
      obtain ⟨hb, hbi⟩ := hbig.place.resolve_left hne
      have hlt := parent_lt hb
      have hmove := h.move hb hbi (hbig.strict hne) hbig.below
      rw [← rank_swap hbig.inside hi] at hmove
      have hlen := (swap_perm l b i).length_eq
      have hin := hbig.inside
      exact ih (hagree.mono (swap_perm l b i).subset) (by omega) (by omega) hmove

/-! ## The stream -/

/-- **The least members of a stream**: the heap is in order, full, and exceeds nothing left out. -/
structure Selected (key : α → κ) (cap : Nat) (seen l : List α) : Prop where
  ordered : Ordered (rank key l)
  full : l.length = min cap seen.length
  split : ∃ dropped, (l ++ dropped).Perm seen ∧ ∀ a ∈ l, ∀ d ∈ dropped, key a ≤ key d

theorem selected_nil (cap : Nat) : Selected key cap [] [] where
  ordered := by
    intro j _
    rw [rank_of_le (Nat.zero_le j)]
    exact bot_le
  full := by simp
  split := ⟨[], by simp, by simp⟩

theorem upOrder_append (h : Ordered (rank key l)) (a : α) : UpOrder (rank key (l ++ [a])) l.length where
  others := by
    intro j hj hne
    have hlt := parent_lt hj
    by_cases hin : j < l.length
    · rw [rank_congr (List.getElem?_append_left hin),
        rank_congr (List.getElem?_append_left (by omega : parent j < l.length))]
      exact h j hj
    · rw [rank_of_le (by simp; omega)]
      exact bot_le
  grand := by
    intro _ c hc hcl
    have hlt := parent_lt hc
    rw [rank_of_le (by simp; omega)]
    exact bot_le

theorem downOrder_root {root : α} {rest : List α} (h : Ordered (rank key (root :: rest))) (a : α) :
    DownOrder (rank key (a :: rest)) 0 where
  others := by
    intro j hj hp
    have hsame : ∀ k, 0 < k → rank key (a :: rest) k = rank key (root :: rest) k := by
      intro k hk
      apply rank_congr
      cases k with
      | zero => exact absurd hk (Nat.lt_irrefl 0)
      | succ k => rfl
    rw [hsame j hj, hsame (parent j) (Nat.pos_of_ne_zero hp)]
    exact h j hj
  grand := fun h => absurd h (Nat.lt_irrefl 0)

theorem key_le_root {root : α} {rest : List α} (h : Ordered (rank key (root :: rest)))
    (ha : a ∈ root :: rest) : key a ≤ key root := by
  obtain ⟨i, hi⟩ := List.mem_iff_getElem?.mp ha
  have hle := h.le_root i
  rw [rank_of_getElem? hi, rank_of_getElem? (rfl : (root :: rest)[0]? = some root)] at hle
  exact WithBot.coe_le_coe.mp hle

section
variable {seen rest : List α} {root : α}

theorem Selected.push (h : Selected key cap seen l) (hroom : l.length < cap)
    (hagree : Agrees cmp key (seen ++ [a])) :
    Selected key cap (seen ++ [a]) (up cmp l.length (l ++ [a]) l.length) := by
  obtain ⟨dropped, hperm, _⟩ := h.split
  have hlen := hperm.length_eq
  have hfull := h.full
  rw [List.length_append] at hlen
  have hnone : dropped = [] := List.length_eq_zero_iff.mp (by omega)
  rw [hnone, List.append_nil] at hperm
  have hup : (up cmp l.length (l ++ [a]) l.length).Perm (seen ++ [a]) :=
    (up_perm _ _ _).trans (hperm.append_right [a])
  have hin : l ++ [a] ⊆ seen ++ [a] := (hperm.append_right [a]).subset
  refine ⟨up_ordered l.length (hagree.mono hin) (by simp) le_rfl (upOrder_append h.ordered a), ?_,
    [], by rwa [List.append_nil], by simp⟩
  rw [hup.length_eq, List.length_append, List.length_singleton]
  omega

section
variable (h : Selected key cap seen (root :: rest)) (hfull : cap ≤ (root :: rest).length)
include h hfull

theorem Selected.exchange (hless : key a < key root) (hagree : Agrees cmp key (seen ++ [a])) :
    Selected key cap (seen ++ [a]) (down cmp (root :: rest).length (a :: rest) 0) := by
  obtain ⟨dropped, hperm, hle⟩ := h.split
  have hsize := h.full
  have hdown : (down cmp (root :: rest).length (a :: rest) 0).Perm (a :: rest) := down_perm _ _ _
  -- the root goes, the newcomer takes its place
  have hswap : (a :: rest ++ root :: dropped).Perm (seen ++ [a]) :=
    ((List.perm_middle.cons a).trans (List.perm_append_singleton a _).symm).trans
      (hperm.append_right [a])
  have hin : a :: rest ⊆ seen ++ [a] := fun x hx => hswap.subset (List.mem_append_left _ hx)
  refine ⟨down_ordered _ (hagree.mono hin) (by simp) (by simp) (downOrder_root h.ordered a), ?_,
    root :: dropped, (hdown.append_right _).trans hswap, ?_⟩
  · rw [hdown.length_eq, List.length_append]
    simp only [List.length_cons, List.length_nil] at hsize hfull ⊢
    omega
  · intro x hx d hd
    have hroot : key x ≤ key root := by
      rcases List.mem_cons.mp (hdown.subset hx) with heq | hrest
      · rw [heq]
        exact hless.le
      · exact key_le_root h.ordered (List.mem_cons_of_mem _ hrest)
    rcases List.mem_cons.mp hd with heq | hold
    · rw [heq]
      exact hroot
    · exact hroot.trans (hle root List.mem_cons_self d hold)

theorem Selected.pass (hmore : key root ≤ key a) :
    Selected key cap (seen ++ [a]) (root :: rest) := by
  obtain ⟨dropped, hperm, hle⟩ := h.split
  have hsize := h.full
  refine ⟨h.ordered, ?_, a :: dropped, ?_, ?_⟩
  · rw [List.length_append]
    omega
  · exact List.perm_middle.trans ((hperm.cons a).trans (List.perm_append_singleton a seen).symm)
  · intro x hx d hd
    rcases List.mem_cons.mp hd with heq | hold
    · rw [heq]
      exact (key_le_root h.ordered hx).trans hmore
    · exact hle x hx d hold

end

theorem Selected.offer (h : Selected key cap seen l) (hcap : 0 < cap)
    (hagree : Agrees cmp key (seen ++ [a])) :
    Selected key cap (seen ++ [a]) (offer cmp cap l a) := by
  unfold Heap.offer
  split
  next hroom => exact h.push hroom hagree
  next hroom =>
    split
    next => exact absurd hcap hroom
    next root rest =>
      obtain ⟨dropped, hperm, _⟩ := h.split
      have hroot : root ∈ seen ++ [a] :=
        List.mem_append_left _ (hperm.subset (List.mem_append_left _ List.mem_cons_self))
      have hlast : a ∈ seen ++ [a] := List.mem_append_right _ (List.mem_singleton_self a)
      split
      next hless =>
        exact h.exchange (not_lt.mp hroom) ((hagree.lt a hlast root hroot).mp hless) hagree
      next hmore =>
        exact h.pass (not_lt.mp hroom)
          (not_lt.mp (fun hlt => hmore ((hagree.lt a hlast root hroot).mpr hlt)))

end

/-- **The run lemma**: after a stream the heap holds least members of it. -/
theorem Selected.foldl_offer (hcap : 0 < cap) (rest : List α) {seen l : List α}
    (h : Selected key cap seen l) (hagree : Agrees cmp key (seen ++ rest)) :
    Selected key cap (seen ++ rest) (rest.foldl (Heap.offer cmp cap) l) := by
  induction rest generalizing seen l with
  | nil => rwa [List.append_nil]
  | cons a rest ih =>
    rw [List.append_cons] at hagree ⊢
    exact ih (h.offer hcap (hagree.mono (List.subset_append_left _ _))) hagree

/-- **The prefix of the sorted stream** is what the heap holds, when keys are distinct. -/
theorem Selected.eq_take {seen out sorted : List α} (h : Selected key cap seen l)
    (hinj : ∀ a ∈ seen, ∀ b ∈ seen, key a = key b → a = b) (hout : out.Perm l)
    (hascending : out.Pairwise (fun a b => key a ≤ key b)) (hsorted : sorted.Perm seen)
    (hascending' : sorted.Pairwise (fun a b => key a ≤ key b)) : out = sorted.take cap := by
  obtain ⟨dropped, hperm, hle⟩ := h.split
  have hdropped := List.perm_insertionSort (fun a b => key a ≤ key b) dropped
  have hrest := List.pairwise_insertionSort (fun a b => key a ≤ key b) dropped
  generalize dropped.insertionSort (fun a b => key a ≤ key b) = rest at hdropped hrest
  -- the two parts in order, one after the other, are the sorted stream
  have hall : (out ++ rest).Perm seen := (hout.append hdropped).trans hperm
  have hwhole : out ++ rest = sorted := by
    refine List.Perm.eq_of_pairwise ?_ ?_ hascending' (hall.trans hsorted.symm)
    · intro a b ha hb hab hba
      exact hinj a (hall.subset ha) b (hsorted.subset hb) (le_antisymm hab hba)
    · refine List.pairwise_append.mpr ⟨hascending, hrest, ?_⟩
      intro a ha b hb
      exact hle a (hout.subset ha) b (hdropped.subset hb)
  have hlen : out.length = min cap sorted.length := by
    rw [hout.length_eq, h.full, hsorted.length_eq]
  rw [List.take_eq_take_min, ← hlen, ← hwhole, List.take_left]

end Sift

end Freens.Library.Heap
