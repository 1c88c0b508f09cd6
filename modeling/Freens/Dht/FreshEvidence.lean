/-
**WHEN FRESHNESS EVIDENCE STANDS** (`claims/claims.go`: `FreshAttestations`,
`HasFreshQuorum`; `dht/claims_pool.go`: `StoreReAttests`, `ReAttestsOf`, §8.3).

The verifier evaluates sixteen attestations and stops. Those that fail, and those
of nodes outside the witness set, use up evaluations like the others; `wasted` is
what they cost in the worst order.
-/
import Freens.Dht.ClaimPool
import Freens.Library.BudgetScan
import Freens.Toy

namespace Freens.Dht

open Library Naming Wire Claims

variable {P : Primitives}

/-! ## The loop as a scan with a budget -/

/-- What the loop accepts from a new node: a valid attestation inside the window. -/
def isFresh (P : Primitives) (ph : Bytes) (lo hi : Int) (w : WitnessAttestation) : Bool :=
  w.verify P ph && decide (lo ≤ int64 w.ts ∧ int64 w.ts ≤ hi)

theorem isFresh_iff {ph : Bytes} {lo hi : Int} {w : WitnessAttestation} :
    isFresh P ph lo hi w = true ↔ w.verify P ph = true ∧ lo ≤ int64 w.ts ∧ int64 w.ts ≤ hi := by
  rw [isFresh, Bool.and_eq_true, decide_eq_true_eq]

theorem freshLoop_eq_budgetScan {ph : Bytes} {lo hi : Int} (atts : List WitnessAttestation)
    (seen : List Bytes) (evaluated : Nat) :
    freshLoop P ph lo hi atts seen evaluated =
      budgetScan WitnessAttestation.nodeID (isFresh P ph lo hi) atts seen (16 - evaluated) := by
  induction atts generalizing seen evaluated with
  | nil => rfl
  | cons w atts ih =>
    by_cases hseen : w.nodeID ∈ seen
    · have hany : seen.any (· = w.nodeID) = true := by simpa using hseen
      rw [budgetScan_skip hseen, ← ih, freshLoop, if_pos hany]
    · have hany : ¬ seen.any (· = w.nodeID) = true := by simpa using hseen
      by_cases hcap : evaluated ≥ maxWitnessEvaluations
      · have hspent : 16 - evaluated = 0 := Nat.sub_eq_zero_of_le hcap
        rw [freshLoop, if_neg hany, if_pos hcap, hspent, budgetScan_zero]
      · have hbudget : 16 - evaluated = 16 - (evaluated + 1) + 1 := by
          have : ¬ 16 ≤ evaluated := hcap
          omega
        rw [freshLoop, if_neg hany, if_neg hcap, hbudget]
        cases hverify : w.verify P ph with
        | false =>
          have hbad : isFresh P ph lo hi w = false := by simp [isFresh, hverify]
          rw [budgetScan_reject hseen hbad, ← ih]
          rfl
        | true =>
          by_cases hwindow : lo ≤ int64 w.ts ∧ int64 w.ts ≤ hi
          · have hgood := isFresh_iff.mpr ⟨hverify, hwindow⟩
            rw [budgetScan_accept hseen hgood, ← ih]
            simp [hwindow]
          · have hbad : isFresh P ph lo hi w = false := by simp [isFresh, hwindow]
            rw [budgetScan_reject hseen hbad, ← ih]
            simp [hwindow]

/-! ## What a list is worth -/

/-- The nodes that attest within the window. -/
def freshNodes (P : Primitives) (ph : Bytes) (lo hi : Int) (atts : List WitnessAttestation) :
    Finset Bytes :=
  goodKeys WitnessAttestation.nodeID (isFresh P ph lo hi) atts

/-- **Wasted evaluations**, in the worst order: the attestations that are not fresh and the
fresh nodes outside the set. -/
def wasted (P : Primitives) (ph : Bytes) (lo hi : Int) (ids : Option (List Bytes))
    (atts : List WitnessAttestation) : Nat :=
  badCount (isFresh P ph lo hi) atts +
    ((freshNodes P ph lo hi atts).filter (fun id => inWitnessSet ids id = false)).card

section
variable {ph : Bytes} {lo hi now window : Int} {ids : Option (List Bytes)} {quorum : Nat}
  {atts : List WitnessAttestation}

theorem freshQuorum_iff_card :
    FreshQuorum P atts ph lo hi ids quorum ↔
      quorum ≤ ((freshNodes P ph lo hi atts).filter (fun id => inWitnessSet ids id = true)).card := by
  have hmem : ∀ id, id ∈ (freshNodes P ph lo hi atts).filter (fun id => inWitnessSet ids id = true) ↔
      (∃ w ∈ atts, w.nodeID = id ∧ w.verify P ph = true ∧ lo ≤ int64 w.ts ∧ int64 w.ts ≤ hi) ∧
        ∀ set, ids = some set → id ∈ set := by
    intro id
    rw [Finset.mem_filter, freshNodes, mem_goodKeys, inWitnessSet_iff]
    refine and_congr_left fun _ => exists_congr fun w => and_congr_right fun _ => ?_
    rw [isFresh_iff, and_comm]
  constructor
  · rintro ⟨nodes, hcard, hnodes⟩
    exact hcard.trans (Finset.card_le_card fun id hid => (hmem id).mpr (hnodes id hid))
  · intro hcard
    exact ⟨_, hcard, fun id hid => (hmem id).mp hid⟩

variable {atts' : List WitnessAttestation}

theorem freshQuorum_mono (hsub : atts ⊆ atts')
    (h : FreshQuorum P atts ph lo hi ids quorum) : FreshQuorum P atts' ph lo hi ids quorum := by
  obtain ⟨nodes, hcard, hnodes⟩ := h
  refine ⟨nodes, hcard, ?_⟩
  intro id hid
  obtain ⟨⟨w, hw, hfresh⟩, hset⟩ := hnodes id hid
  exact ⟨⟨w, hsub hw, hfresh⟩, hset⟩

theorem wasted_perm (h : atts.Perm atts') :
    wasted P ph lo hi ids atts = wasted P ph lo hi ids atts' := by
  unfold wasted freshNodes
  rw [badCount_perm h, goodKeys_perm h]

theorem hasFreshQuorum_iff_length :
    hasFreshQuorum P atts ph now window ids quorum = true ↔
      quorum ≤ (((budgetScan WitnessAttestation.nodeID
        (isFresh P ph (wrap64 (now - window)) (wrap64 (now + 60))) atts [] 16).map
          WitnessAttestation.nodeID).filter (inWitnessSet ids)).length := by
  unfold hasFreshQuorum distinctNodes freshAttestations
  rw [decide_eq_true_eq, freshLoop_eq_budgetScan, countDistinct_eq_card, List.toFinset_nil,
    Finset.sdiff_empty, List.toFinset_card_of_nodup ((nodup_budgetScan _ _ _).filter _)]

theorem hasFreshQuorum_of_wasted
    (h : FreshQuorum P atts ph (wrap64 (now - window)) (wrap64 (now + 60)) ids quorum)
    (hroom : wasted P ph (wrap64 (now - window)) (wrap64 (now + 60)) ids atts + quorum ≤ 16) :
    hasFreshQuorum P atts ph now window ids quorum = true := by
  rw [hasFreshQuorum_iff_length]
  refine le_trans (le_min (freshQuorum_iff_card.mp h) ?_)
    (le_wanted_budgetScan (inWitnessSet ids) atts 16)
  unfold wasted freshNodes at hroom
  omega

theorem exists_perm_suppressed (hquorum : 0 < quorum)
    (hroom : 16 < wasted P ph (wrap64 (now - window)) (wrap64 (now + 60)) ids atts + quorum) :
    ∃ atts', atts'.Perm atts ∧ hasFreshQuorum P atts' ph now window ids quorum = false := by
  obtain ⟨atts', hperm, hcount⟩ := @exists_perm_wanted_le _ _ WitnessAttestation.nodeID
    (isFresh P ph (wrap64 (now - window)) (wrap64 (now + 60))) _ (inWitnessSet ids) atts 16
  refine ⟨atts', hperm, ?_⟩
  rw [Bool.eq_false_iff, ne_eq, hasFreshQuorum_iff_length]
  unfold wasted freshNodes at hroom
  omega

theorem hasFreshQuorum_iff_of_length_le (hlen : atts.length ≤ 16) :
    hasFreshQuorum P atts ph now window ids quorum = true ↔
      FreshQuorum P atts ph (wrap64 (now - window)) (wrap64 (now + 60)) ids quorum := by
  refine ⟨freshQuorum_of_hasFreshQuorum, ?_⟩
  intro h
  rw [hasFreshQuorum_iff_length]
  refine le_trans (le_min (freshQuorum_iff_card.mp h) ?_)
    (le_wanted_budgetScan (inWitnessSet ids) atts 16)
  -- the fresh nodes and the bad attestations are together no more than the list
  have hcost := @badCount_add_card_goodKeys_le _ _ WitnessAttestation.nodeID
    (isFresh P ph (wrap64 (now - window)) (wrap64 (now + 60))) _ atts
  have hcard := freshQuorum_iff_card.mp h
  have hsplit := card_filter_bool (inWitnessSet ids)
    (goodKeys WitnessAttestation.nodeID (isFresh P ph (wrap64 (now - window)) (wrap64 (now + 60))) atts)
  unfold freshNodes at hcard
  omega

end

/-- What is kept after a merge. -/
def ClaimPool.mergedReAttests (p : ClaimPool) (key ph : Bytes) (atts : List WitnessAttestation) :
    List WitnessAttestation :=
  atts.foldl addReAttest (p.reAttestsOf key ph)

theorem reAttestsOf_storeReAttests {p : ClaimPool} {key ph : Bytes} (hkey : key.length = 32)
    {atts : List WitnessAttestation} (hatts : atts ≠ []) :
    (p.storeReAttests key ph atts).reAttestsOf key ph =
      (p.mergedReAttests key ph atts).drop ((p.mergedReAttests key ph atts).length - 16) := by
  have hguard : ¬ (key.length ≠ Constants.sha256Len ∨ atts.length = 0) := by
    rw [not_or, not_not, List.length_eq_zero_iff]
    exact ⟨hkey, hatts⟩
  have hlen : ¬ key.length ≠ Constants.sha256Len := not_not.mpr hkey
  unfold ClaimPool.storeReAttests ClaimPool.mergedReAttests ClaimPool.reAttestsOf
  rw [if_neg hguard, if_neg hlen, if_neg hlen]
  simp only [AList.lookup_insert, Option.getD_some]

theorem subset_foldl_addReAttest (atts cur : List WitnessAttestation) :
    cur ⊆ atts.foldl addReAttest cur := by
  induction atts generalizing cur with
  | nil => exact List.Subset.refl cur
  | cons a atts ih =>
    have hstep : cur ⊆ addReAttest cur a := by
      unfold addReAttest
      split
      · exact List.Subset.refl cur
      · exact List.subset_append_left cur [a]
    exact List.Subset.trans hstep (ih (addReAttest cur a))

/-! ## The evidence -/

/-- **Freshness evidence stands** in every order exactly when sixteen evaluations cover what
is wasted and the quorum; what the pool returns after a merge, exactly when the newest
sixteen hold the quorum. -/
theorem fresh_evidence_stands_iff (P : Primitives) (ph : Bytes) (now window : Int)
    (ids : Option (List Bytes)) {quorum : Nat} (hquorum : 0 < quorum) :
    (∀ atts extra : List WitnessAttestation,
      FreshQuorum P atts ph (wrap64 (now - window)) (wrap64 (now + 60)) ids quorum →
      ((∀ atts', atts'.Perm (atts ++ extra) →
          hasFreshQuorum P atts' ph now window ids quorum = true) ↔
        wasted P ph (wrap64 (now - window)) (wrap64 (now + 60)) ids (atts ++ extra) + quorum ≤ 16)) ∧
    ∀ (p : ClaimPool) (key : Bytes) (extra : List WitnessAttestation),
      key.length = 32 → extra ≠ [] →
      FreshQuorum P (p.reAttestsOf key ph) ph (wrap64 (now - window)) (wrap64 (now + 60)) ids quorum →
      (hasFreshQuorum P ((p.storeReAttests key ph extra).reAttestsOf key ph) ph now window ids quorum
          = true ↔
        FreshQuorum P ((p.mergedReAttests key ph extra).drop
          ((p.mergedReAttests key ph extra).length - 16)) ph (wrap64 (now - window))
            (wrap64 (now + 60)) ids quorum) ∧
      ((p.mergedReAttests key ph extra).length ≤ 16 →
        hasFreshQuorum P ((p.storeReAttests key ph extra).reAttestsOf key ph) ph now window ids quorum
          = true) := by
  constructor
  · intro atts extra hfresh
    constructor
    · intro hall
      by_contra hroom
      obtain ⟨atts', hperm, hhidden⟩ := exists_perm_suppressed hquorum (not_le.mp hroom)
      rw [hall atts' hperm] at hhidden
      cases hhidden
    · intro hroom atts' hperm
      have hsub : atts ⊆ atts' := fun w hw => hperm.mem_iff.mpr (List.mem_append_left extra hw)
      exact hasFreshQuorum_of_wasted (freshQuorum_mono hsub hfresh) (by rwa [wasted_perm hperm])
  · intro p key extra hkey hextra hfresh
    have hshort : ((p.mergedReAttests key ph extra).drop
        ((p.mergedReAttests key ph extra).length - 16)).length ≤ 16 := by
      rw [List.length_drop]
      omega
    rw [reAttestsOf_storeReAttests hkey hextra, hasFreshQuorum_iff_of_length_le hshort]
    refine ⟨Iff.rfl, ?_⟩
    intro hlen
    rw [Nat.sub_eq_zero_of_le hlen, List.drop_zero]
    exact freshQuorum_mono (subset_foldl_addReAttest extra _) hfresh

namespace FreshSample

open Toy

def identity : Bytes :=
  minedChecksum (buildPrefix aliasA (minedChecksum (publicKey 1)) 200 (publicKey 1))

def attestedBy (keys : List UInt8) : List WitnessAttestation :=
  keys.filterMap (fun n => newWitnessAttestation mined (keypair n) 200 identity)

def witnessSet : Option (List Bytes) := some ((attestedBy quorum).map (·.nodeID))

def outsiders : List UInt8 := [21, 22, 23, 24, 25, 26, 27, 28, 29, 30, 31, 32]

/-- A pool with the quorum's attestations. -/
def pool : ClaimPool := newClaimPool.storeReAttests keyA identity (attestedBy quorum)

end FreshSample

section
open FreshSample Toy

theorem quorum_stands_against_eleven :
    wasted mined identity (300 - 172800) 360 witnessSet
        (attestedBy quorum ++ attestedBy (outsiders.take 11)) + 5 ≤ 16 ∧
      hasFreshQuorum mined (attestedBy (outsiders.take 11) ++ attestedBy quorum) identity 300 172800
        witnessSet 5 = true := by
  have hroom : wasted mined identity (300 - 172800) 360 witnessSet
      (attestedBy quorum ++ attestedBy (outsiders.take 11)) + 5 ≤ 16 := by
    decide +kernel
  have hstands := ((fresh_evidence_stands_iff mined identity 300 172800 witnessSet (by decide)).1
    (attestedBy quorum) (attestedBy (outsiders.take 11))
    (freshQuorum_of_hasFreshQuorum (by decide +kernel))).mpr hroom
  exact ⟨hroom, hstands _ List.perm_append_comm⟩

/-- **Twelve outsiders hide it**: in front of the quorum they use up its evaluations, after
it they push a member out. -/
theorem quorum_hidden_by_twelve :
    hasFreshQuorum mined (attestedBy quorum) identity 300 172800 witnessSet 5 = true ∧
      (attestedBy outsiders).all (isFresh mined identity (300 - 172800) 360) = true ∧
      hasFreshQuorum mined (attestedBy outsiders ++ attestedBy quorum) identity 300 172800
        witnessSet 5 = false ∧
      hasFreshQuorum mined (pool.reAttestsOf keyA identity) identity 300 172800 witnessSet 5 = true ∧
      hasFreshQuorum mined ((pool.storeReAttests keyA identity (attestedBy outsiders)).reAttestsOf
        keyA identity) identity 300 172800 witnessSet 5 = false := by
  decide +kernel

end

end Freens.Dht
