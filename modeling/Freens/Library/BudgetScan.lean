/-
**A SCAN WITH A BUDGET.** The loop skips the keys it has accepted before, pays one
unit for each element it looks at and stops when it cannot pay. At least as many
keys are accepted as the budget leaves after every bad element was paid for, and
with the bad elements in front no more.
-/
import Mathlib.Data.Finset.Card
import Mathlib.Data.List.Nodup
import Mathlib.Tactic

namespace Freens.Library

variable {α κ : Type} {key : α → κ} {good : α → Bool}

/-- The number of bad elements, repetitions counted. -/
def badCount (good : α → Bool) (l : List α) : Nat := (l.filter (fun x => !good x)).length

variable {l : List α} {x : α} {seen : List κ} {budget : Nat}

theorem badCount_cons_of_good (h : good x = true) : badCount good (x :: l) = badCount good l := by
  simp [badCount, h]

theorem badCount_cons_of_bad (h : good x = false) :
    badCount good (x :: l) = badCount good l + 1 := by
  simp [badCount, h]

variable {l' : List α}

theorem badCount_perm (h : l.Perm l') : badCount good l = badCount good l' :=
  (h.filter _).length_eq

theorem card_filter_bool (wanted : κ → Bool) (s : Finset κ) :
    (s.filter (fun k => wanted k = true)).card + (s.filter (fun k => wanted k = false)).card =
      s.card := by
  have h := @Finset.card_filter_add_card_filter_not _ s (fun k => wanted k = true) _ _
  simpa using h

variable [DecidableEq κ]

/-- Accept good elements, one per key; `seen` are the keys accepted before. -/
def budgetScan (key : α → κ) (good : α → Bool) :
    (l : List α) → (seen : List κ) → (budget : Nat) → List α
  | [], _, _ => []
  | x :: l, seen, budget =>
    if seen.any (· = key x) then budgetScan key good l seen budget
    else match budget with
      | 0 => []
      | budget + 1 =>
        if good x then x :: budgetScan key good l (key x :: seen) budget
        else budgetScan key good l seen budget

/-- The distinct keys of the good elements. -/
def goodKeys (key : α → κ) (good : α → Bool) (l : List α) : Finset κ :=
  ((l.filter good).map key).toFinset

/-! ## The equations of the scan -/

@[simp] theorem budgetScan_nil :
    budgetScan key good [] seen budget = [] := rfl

theorem budgetScan_skip (h : key x ∈ seen) :
    budgetScan key good (x :: l) seen budget = budgetScan key good l seen budget := by
  have hany : seen.any (· = key x) = true := by simpa using h
  rw [budgetScan.eq_def]
  exact if_pos hany

theorem budgetScan_accept (h : key x ∉ seen)
    (hgood : good x = true) : budgetScan key good (x :: l) seen (budget + 1) =
      x :: budgetScan key good l (key x :: seen) budget := by
  have hany : ¬ seen.any (· = key x) = true := by simpa using h
  rw [budgetScan, if_neg hany]
  simp [hgood]

theorem budgetScan_reject (h : key x ∉ seen)
    (hbad : good x = false) : budgetScan key good (x :: l) seen (budget + 1) =
      budgetScan key good l seen budget := by
  have hany : ¬ seen.any (· = key x) = true := by simpa using h
  rw [budgetScan, if_neg hany]
  simp [hbad]

@[simp] theorem budgetScan_zero : budgetScan key good l seen 0 = [] := by
  induction l with
  | nil => rfl
  | cons x l ih =>
    unfold budgetScan
    split
    · exact ih
    · rfl

theorem goodKeys_cons_of_good (h : good x = true) :
    goodKeys key good (x :: l) = insert (key x) (goodKeys key good l) := by
  simp [goodKeys, h]

theorem goodKeys_cons_of_bad (h : good x = false) :
    goodKeys key good (x :: l) = goodKeys key good l := by
  simp [goodKeys, h]

theorem mem_goodKeys {k : κ} : k ∈ goodKeys key good l ↔ ∃ x ∈ l, good x = true ∧ key x = k := by
  simp [goodKeys, and_assoc]

theorem goodKeys_perm (h : l.Perm l') : goodKeys key good l = goodKeys key good l' :=
  List.toFinset_eq_of_perm _ _ ((h.filter _).map _)

theorem badCount_add_card_goodKeys_le (l : List α) :
    badCount good l + (goodKeys key good l).card ≤ l.length := by
  have hkeys : (goodKeys key good l).card ≤ (l.filter good).length := by
    rw [← List.length_map (f := key)]
    exact List.toFinset_card_le _
  have hsplit := List.length_eq_length_filter_add (l := l) good
  unfold badCount
  omega

/-! ## What is accepted -/

theorem of_mem_budgetScan (h : x ∈ budgetScan key good l seen budget) :
    x ∈ l ∧ good x = true ∧ key x ∉ seen := by
  fun_induction budgetScan key good l seen budget with
  | case1 => exact absurd h List.not_mem_nil
  | case2 y l seen budget _ ih => exact (ih h).imp_left (List.mem_cons_of_mem y)
  | case3 => exact absurd h List.not_mem_nil
  | case4 y l seen hseen budget hgood ih =>
    rcases List.mem_cons.mp h with rfl | hmem
    · exact ⟨List.mem_cons_self, hgood, by simpa using hseen⟩
    · obtain ⟨hl, hg, hnew⟩ := ih hmem
      exact ⟨List.mem_cons_of_mem y hl, hg, fun hk => hnew (List.mem_cons_of_mem _ hk)⟩
  | case5 y l seen _ budget _ ih => exact (ih h).imp_left (List.mem_cons_of_mem y)

theorem nodup_budgetScan (l : List α) (seen : List κ) (budget : Nat) :
    ((budgetScan key good l seen budget).map key).Nodup := by
  fun_induction budgetScan key good l seen budget with
  | case1 => exact List.nodup_nil
  | case2 _ _ _ _ _ ih => exact ih
  | case3 => exact List.nodup_nil
  | case4 y l seen _ budget _ ih =>
    rw [List.map_cons, List.nodup_cons]
    refine ⟨?_, ih⟩
    intro hmem
    obtain ⟨x, hx, hkey⟩ := List.mem_map.mp hmem
    exact (of_mem_budgetScan hx).2.2 (hkey ▸ List.mem_cons_self)
  | case5 _ _ _ _ _ _ ih => exact ih

theorem length_budgetScan_le (l : List α) (seen : List κ) (budget : Nat) :
    (budgetScan key good l seen budget).length ≤ budget := by
  fun_induction budgetScan key good l seen budget with
  | case1 => exact Nat.zero_le _
  | case2 _ _ _ _ _ ih => exact ih
  | case3 => exact Nat.zero_le _
  | case4 _ _ _ _ _ _ ih => exact Nat.succ_le_succ ih
  | case5 _ _ _ _ _ _ ih => exact Nat.le_succ_of_le ih

/-- **The budget lost to bad elements bounds the loss**: every good key is accepted, or as
many as it leaves. -/
theorem le_length_budgetScan (l : List α) (seen : List κ) (budget : Nat) :
    min (goodKeys key good l \ seen.toFinset).card (budget - badCount good l) ≤
      (budgetScan key good l seen budget).length := by
  fun_induction budgetScan key good l seen budget with
  | case1 => simp [goodKeys]
  | case2 y l seen budget hseen ih =>
    -- a skipped element is free, good or bad
    refine le_trans ?_ ih
    have hkeys : goodKeys key good (y :: l) \ seen.toFinset ⊆ goodKeys key good l \ seen.toFinset := by
      intro k hk
      rw [Finset.mem_sdiff, mem_goodKeys] at hk
      obtain ⟨⟨x, hx, hgood, rfl⟩, hnew⟩ := hk
      rcases List.mem_cons.mp hx with rfl | hmem
      · exact absurd (List.mem_toFinset.mpr (by simpa using hseen)) hnew
      · exact Finset.mem_sdiff.mpr ⟨mem_goodKeys.mpr ⟨x, hmem, hgood, rfl⟩, hnew⟩
    have hcard := Finset.card_le_card hkeys
    have hbad : badCount good l ≤ badCount good (y :: l) := by
      cases hgood : good y with
      | false => rw [badCount_cons_of_bad hgood]; exact Nat.le_succ _
      | true => rw [badCount_cons_of_good hgood]
    omega
  | case3 => simp
  | case4 y l seen _ budget hgood ih =>
    rw [badCount_cons_of_good hgood, List.length_cons]
    have hkeys : goodKeys key good (y :: l) \ seen.toFinset ⊆
        insert (key y) (goodKeys key good l \ (key y :: seen).toFinset) := by
      rw [goodKeys_cons_of_good hgood]
      intro k hk
      simp only [Finset.mem_sdiff, Finset.mem_insert, List.toFinset_cons] at hk ⊢
      tauto
    have hcard := le_trans (Finset.card_le_card hkeys) (Finset.card_insert_le _ _)
    omega
  | case5 y l seen _ budget hbad ih =>
    rw [Bool.not_eq_true] at hbad
    rw [goodKeys_cons_of_bad hbad, badCount_cons_of_bad hbad, Nat.succ_sub_succ]
    exact ih

theorem key_mem_budgetScan (hgood : good x = true) {before after : List α}
    (hbudget : before.length < budget) :
    key x ∈ seen ∨ key x ∈ (budgetScan key good (before ++ x :: after) seen budget).map key := by
  induction before generalizing seen budget with
  | nil =>
    obtain ⟨budget, rfl⟩ := Nat.exists_eq_succ_of_ne_zero (Nat.ne_of_gt hbudget)
    by_cases hseen : key x ∈ seen
    · exact .inl hseen
    · right
      rw [List.nil_append, budgetScan_accept hseen hgood]
      exact List.mem_cons_self
  | cons y before ih =>
    rw [List.length_cons] at hbudget
    obtain ⟨budget, rfl⟩ := Nat.exists_eq_succ_of_ne_zero (show budget ≠ 0 by omega)
    by_cases hseen : key y ∈ seen
    · rw [List.cons_append, budgetScan_skip hseen]
      exact ih (by omega)
    · cases hy : good y with
      | false =>
        rw [List.cons_append, budgetScan_reject hseen hy]
        exact ih (by omega)
      | true =>
        rw [List.cons_append, budgetScan_accept hseen hy, List.map_cons, List.mem_cons]
        rcases @ih (key y :: seen) budget (by omega) with hmem | hmem
        · rcases List.mem_cons.mp hmem with heq | hold
          · exact .inr (.inl heq)
          · exact .inl hold
        · exact .inr (.inr hmem)

/-! ## The worst order -/

theorem budgetScan_append_of_bad {rest bads : List α} (hbad : ∀ x ∈ bads, good x = false) :
    budgetScan key good (bads ++ rest) [] budget
      = budgetScan key good rest [] (budget - bads.length) := by
  induction bads generalizing budget with
  | nil => rfl
  | cons x bads ih =>
    rw [List.forall_mem_cons] at hbad
    cases budget with
    | zero => simp
    | succ budget =>
      rw [List.cons_append, budgetScan_reject List.not_mem_nil hbad.1, ih hbad.2, List.length_cons,
        Nat.succ_sub_succ]

theorem budgetScan_append_of_good {rest goods : List α} {seen : List κ} {budget : Nat}
    (hgood : ∀ x ∈ goods, good x = true) : ∃ seen',
    budgetScan key good (goods ++ rest) seen budget = budgetScan key good goods seen budget ++
      budgetScan key good rest seen' (budget - (budgetScan key good goods seen budget).length) := by
  induction goods generalizing seen budget with
  | nil => exact ⟨seen, rfl⟩
  | cons x goods ih =>
    rw [List.forall_mem_cons] at hgood
    by_cases hseen : key x ∈ seen
    · rw [List.cons_append, budgetScan_skip hseen, budgetScan_skip hseen]
      exact ih hgood.2
    · cases budget with
      | zero => exact ⟨seen, by simp⟩
      | succ budget =>
        obtain ⟨seen', hrest⟩ := @ih (key x :: seen) budget hgood.2
        refine ⟨seen', ?_⟩
        rw [List.cons_append, budgetScan_accept hseen hgood.1, budgetScan_accept hseen hgood.1, hrest,
          List.length_cons, Nat.succ_sub_succ, List.cons_append]

theorem badCount_eq_zero (h : ∀ x ∈ l, good x = true) : badCount good l = 0 := by
  rw [badCount, List.length_eq_zero_iff, List.filter_eq_nil_iff]
  intro x hx
  simp [h x hx]

theorem filter_goodKeys (wanted : κ → Bool) (l : List α) :
    (goodKeys key good l).filter (fun k => wanted k = false) =
      goodKeys key good ((l.filter good).filter (fun x => !wanted (key x))) := by
  ext k
  rw [Finset.mem_filter, mem_goodKeys, mem_goodKeys]
  constructor
  · rintro ⟨⟨x, hx, hgood, rfl⟩, hout⟩
    exact ⟨x, List.mem_filter.mpr ⟨List.mem_filter.mpr ⟨hx, hgood⟩, by simp [hout]⟩, hgood, rfl⟩
  · rintro ⟨x, hx, hgood, rfl⟩
    obtain ⟨hx', hout⟩ := List.mem_filter.mp hx
    exact ⟨⟨x, (List.mem_filter.mp hx').1, hgood, rfl⟩, by simpa using hout⟩

/-- **The wanted keys in the worst order**: bad elements first, then good ones nobody wants. -/
theorem exists_perm_wanted_le (wanted : κ → Bool) (l : List α) (budget : Nat) :
    ∃ l', l'.Perm l ∧
      (((budgetScan key good l' [] budget).map key).filter wanted).length ≤
        budget - badCount good l - ((goodKeys key good l).filter (fun k => wanted k = false)).card := by
  classical
  let bads := l.filter (fun x => !good x)
  let outs := (l.filter good).filter (fun x => !wanted (key x))
  let ins := (l.filter good).filter (fun x => wanted (key x))
  have hsplit : (outs ++ ins).Perm (l.filter good) :=
    List.perm_append_comm.trans (List.filter_append_perm (fun x => wanted (key x)) (l.filter good))
  have hperm : (bads ++ (outs ++ ins)).Perm l :=
    ((List.Perm.refl bads).append hsplit).trans
      (List.perm_append_comm.trans (List.filter_append_perm good l))
  refine ⟨bads ++ (outs ++ ins), hperm, ?_⟩
  have hbads : ∀ x ∈ bads, good x = false := by
    intro x hx
    simpa using (List.mem_filter.mp hx).2
  have houts : ∀ x ∈ outs, good x = true := by
    intro x hx
    exact (List.mem_filter.mp (List.mem_filter.mp hx).1).2
  obtain ⟨seen', hscan⟩ := @budgetScan_append_of_good α κ key good _ ins outs []
    (budget - bads.length) houts
  rw [budgetScan_append_of_bad hbads, hscan, List.map_append, List.filter_append]
  -- what is accepted among the unwanted is unwanted
  have hnone : (((budgetScan key good outs [] (budget - bads.length)).map key).filter wanted) = [] := by
    rw [List.filter_eq_nil_iff]
    intro k hk
    obtain ⟨x, hx, rfl⟩ := List.mem_map.mp hk
    have hout := (List.mem_filter.mp (of_mem_budgetScan hx).1).2
    simpa using hout
  -- and every unwanted key is accepted while the budget lasts
  have hkeys : (goodKeys key good l).filter (fun k => wanted k = false) = goodKeys key good outs :=
    filter_goodKeys wanted l
  have hzero : badCount good outs = 0 := badCount_eq_zero houts
  have hfirst := @le_length_budgetScan α κ key good _ outs [] (budget - bads.length)
  rw [List.toFinset_nil, Finset.sdiff_empty, hzero, ← hkeys] at hfirst
  have hlast := @length_budgetScan_le α κ key good _ ins seen'
    (budget - bads.length - (budgetScan key good outs [] (budget - bads.length)).length)
  rw [hnone, List.nil_append]
  have hfilter := List.length_filter_le wanted ((budgetScan key good ins seen'
    (budget - bads.length - (budgetScan key good outs [] (budget - bads.length)).length)).map key)
  rw [List.length_map] at hfilter
  have hbadCount : badCount good l = bads.length := rfl
  omega

/-- **The wanted keys in any order.** -/
theorem le_wanted_budgetScan (wanted : κ → Bool) (l : List α) (budget : Nat) :
    min ((goodKeys key good l).filter (fun k => wanted k = true)).card
        (budget - badCount good l - ((goodKeys key good l).filter (fun k => wanted k = false)).card) ≤
      (((budgetScan key good l [] budget).map key).filter wanted).length := by
  have hall := @le_length_budgetScan α κ key good _ l [] budget
  rw [List.toFinset_nil, Finset.sdiff_empty] at hall
  have hcard := card_filter_bool wanted (goodKeys key good l)
  -- the accepted unwanted keys are among the unwanted good ones
  have hout : (((budgetScan key good l [] budget).map key).filter (fun k => !wanted k)).length ≤
      ((goodKeys key good l).filter (fun k => wanted k = false)).card := by
    rw [← List.toFinset_card_of_nodup ((nodup_budgetScan l [] budget).filter _)]
    refine Finset.card_le_card ?_
    intro k hk
    obtain ⟨hk, hwant⟩ := List.mem_filter.mp (List.mem_toFinset.mp hk)
    obtain ⟨x, hx, rfl⟩ := List.mem_map.mp hk
    obtain ⟨hmem, hgood, _⟩ := of_mem_budgetScan hx
    exact Finset.mem_filter.mpr ⟨mem_goodKeys.mpr ⟨x, hmem, hgood, rfl⟩, by simpa using hwant⟩
  have hsum := List.length_eq_length_filter_add (l := (budgetScan key good l [] budget).map key) wanted
  rw [List.length_map] at hsum
  omega

end Freens.Library
