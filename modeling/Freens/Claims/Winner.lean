/-
**THE DETERMINISTIC WINNER** (`claims/claims.go`: `LessOrderKey`,
`SelectWinner`, `OrderClaims`, §7.4 step 3): the minimum of the valid claims in
one pass, and the sorted list of them.
-/
import Freens.Toy

namespace Freens.Claims

open Library

variable {P : Primitives}

/-! ## The two functions on one list -/

theorem selectWinner_eq_foldl (claims : List AliasClaim) :
    selectWinner P claims =
      (claims.filter (structurallyAndPoWValid P)).foldl (challenge lessOrderKey) none := by
  rw [List.foldl_filter]
  unfold selectWinner
  congr 1
  funext best c
  cases structurallyAndPoWValid P c <;> rfl

theorem selectWinner_eq_head? (claims : List AliasClaim) :
    selectWinner P claims = (orderClaims P claims).head? := by
  rw [selectWinner_eq_foldl]
  exact foldl_challenge_eq_head? lessOrderKey_trans
    (fun _ _ _ hab hbc => lessOrderKey_negTrans hbc hab) _

theorem orderClaims_perm (claims : List AliasClaim) :
    (orderClaims P claims).Perm (claims.filter (structurallyAndPoWValid P)) :=
  List.perm_insertionSort _ _

instance : IsTrans AliasClaim (fun a b => lessOrderKey b a = false) :=
  ⟨fun _ _ _ hab hbc => lessOrderKey_negTrans hab hbc⟩

instance : Std.Total (fun a b : AliasClaim => lessOrderKey b a = false) := by
  refine ⟨fun a b => ?_⟩
  cases hba : lessOrderKey b a with
  | false => exact .inl rfl
  | true => exact .inr (lessOrderKey_asymm hba)

theorem orderClaims_sorted (claims : List AliasClaim) :
    (orderClaims P claims).Pairwise (fun a b => lessOrderKey b a = false) :=
  List.pairwise_insertionSort _ _

/-! ## Two lists of the same claims -/

theorem lessOrderKey_total {a b : AliasClaim} (h : a.orderKey ≠ b.orderKey) :
    lessOrderKey a b = true ∨ lessOrderKey b a = true := by
  by_contra hno
  rw [not_or, Bool.not_eq_true, Bool.not_eq_true] at hno
  exact h (orderKey_eq_of_not_less hno.1 hno.2)

theorem selectWinner_orderKey_congr {claims claims' : List AliasClaim}
    (h : ∀ c, c ∈ claims ↔ c ∈ claims') :
    (selectWinner P claims).map AliasClaim.orderKey =
      (selectWinner P claims').map AliasClaim.orderKey := by
  have hvalid : ∀ c, c ∈ claims.filter (structurallyAndPoWValid P) ↔
      c ∈ claims'.filter (structurallyAndPoWValid P) := by
    intro c
    rw [List.mem_filter, List.mem_filter, h c]
  rw [selectWinner_eq_foldl, selectWinner_eq_foldl]
  rcases champions_tie lessOrderKey_irrefl lessOrderKey_trans hvalid with
    ⟨hnone, hnone'⟩ | ⟨a, b, ha, hb, _, hab, hba⟩
  · rw [hnone, hnone']
  · rw [ha, hb, Option.map_some, Option.map_some, orderKey_eq_of_not_less hab hba]

/-- **Deterministic winner.** The order is strict and total on claims with different tuples,
and whoever sees the same claims, in whatever order, finds the same tld_id. -/
theorem winner_deterministic (P : Primitives) :
    ((∀ a, lessOrderKey a a = false) ∧
      (∀ a b c, lessOrderKey a b = true → lessOrderKey b c = true → lessOrderKey a c = true) ∧
      ∀ a b : AliasClaim, a.orderKey ≠ b.orderKey →
        lessOrderKey a b = true ∨ lessOrderKey b a = true) ∧
    (∀ claims, selectWinner P claims = (orderClaims P claims).head? ∧
      (orderClaims P claims).Perm (claims.filter (fun c =>
        c.verifyClaimantConsistency P && c.verifyPoW P inferDifficulty)) ∧
      (orderClaims P claims).Pairwise (fun a b => lessOrderKey b a = false)) ∧
    ∀ claims claims' : List AliasClaim, (∀ c, c ∈ claims ↔ c ∈ claims') →
      (selectWinner P claims).map AliasClaim.tldID =
        (selectWinner P claims').map AliasClaim.tldID := by
  refine ⟨⟨lessOrderKey_irrefl, lessOrderKey_trans, fun _ _ => lessOrderKey_total⟩, ?_, ?_⟩
  · intro claims
    exact ⟨selectWinner_eq_head? claims, orderClaims_perm claims, orderClaims_sorted claims⟩
  · intro claims claims' hmem
    have hkey := congrArg (Option.map (fun k : UInt64 × Bytes × Bytes => k.2.2))
      (selectWinner_orderKey_congr (P := P) hmem)
    rw [Option.map_map, Option.map_map] at hkey
    exact hkey

theorem winner_deterministic_repeated :
    (selectWinner Toy.mined [Toy.minedClaim 2 Toy.aliasA 500 [],
        Toy.minedClaim 1 Toy.aliasA 200 []]).map AliasClaim.tldID =
      (selectWinner Toy.mined [Toy.minedClaim 1 Toy.aliasA 200 [],
        Toy.minedClaim 2 Toy.aliasA 500 [], Toy.minedClaim 1 Toy.aliasA 200 []]).map
          AliasClaim.tldID := by
  refine (winner_deterministic Toy.mined).2.2 _ _ ?_
  intro c
  simp only [List.mem_cons, List.not_mem_nil, or_false]
  tauto

end Freens.Claims
