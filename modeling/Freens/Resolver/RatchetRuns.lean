/-
**RUNS OF ONE RESOLVER** and what its past-horizon ledger does for an alias over
time. As long as the aliases that enter it fit, the ledger records exactly the
identities that were kept past their horizon (`has_ledgerAt_iff`).
-/
import Freens.Library.Run
import Freens.Resolver.ReuseWindow

namespace Freens.Resolver

open Library Wire Claims

/-! ## Runs -/

/-- One resolution: the alias, the clock and what the source answered. -/
structure Resolution where
  aliasName : Bytes
  now : Int
  collected : Collected

section
variable (P : Primitives)

/-- The ledger after a resolution. -/
def resolveStep (l : PastHorizonLedger) (r : Resolution) : PastHorizonLedger :=
  (resolveClaimSet P l r.aliasName r.now r.collected).2

/-- The claims it finds live. -/
def Resolution.live (r : Resolution) : List (LiveClaim P) :=
  (scan P r.collected r.aliasName r.now r.collected.offered).liveClaims

/-- The claims it keeps. -/
def Resolution.kept (r : Resolution) (l : PastHorizonLedger) : List (LiveClaim P) :=
  keptClaims P l r.aliasName r.now r.collected

/-- The ledger before resolution `i`. -/
def ledgerAt (run : List Resolution) (i : Nat) : PastHorizonLedger :=
  (run.take i).foldl (resolveStep P) ∅

/-- **Established before position `i`**: kept past its horizon earlier. -/
def EstablishedBefore (run : List Resolution) (i : Nat) (aliasName ph : Bytes) : Prop :=
  ∃ j r, j < i ∧ run[j]? = some r ∧ r.aliasName = aliasName ∧
    ∃ lc ∈ r.kept P (ledgerAt P run j), lc.pastHorizon r.now = true ∧ lc.ph = ph

end

variable {P : Primitives} {run : List Resolution} {i : Nat} {ph : Bytes} {S : Finset Bytes}
  {r : Resolution} {a : Bytes} {lc : LiveClaim P} {now : Int}

theorem ledgerAt_succ (h : run[i]? = some r) :
    ledgerAt P run (i + 1) = resolveStep P (ledgerAt P run i) r :=
  foldl_take_succ h

theorem ledgerAt_succ_of_none (h : run[i]? = none) : ledgerAt P run (i + 1) = ledgerAt P run i := by
  rw [ledgerAt, List.take_add_one, h, Option.toList_none, List.append_nil]
  rfl

theorem has_ledgerAt_succ {S : Finset Bytes} (hS : S.card < maxRatchetAliases)
    {run : List Resolution} (hwithin : ∀ i, (ledgerAt P run i).Within S) {i : Nat} {r : Resolution}
    (hr : run[i]? = some r) {a ph : Bytes} :
    (ledgerAt P run (i + 1)).Has a ph ↔ (ledgerAt P run i).Has a ph ∨ (r.aliasName = a ∧
      ∃ lc ∈ r.kept P (ledgerAt P run i), lc.pastHorizon r.now = true ∧ lc.ph = ph) := by
  have hafter := hwithin (i + 1)
  rw [ledgerAt_succ hr, resolveStep, resolveClaimSet_snd] at hafter ⊢
  rw [has_filterPastHorizonNewcomers hS (hwithin i) hafter, eq_comm]
  rfl

/-! ## The ledger is the history -/

theorem establishedBefore_succ :
    EstablishedBefore P run (i + 1) a ph ↔ EstablishedBefore P run i a ph ∨
      ∃ r, run[i]? = some r ∧ r.aliasName = a ∧
        ∃ lc ∈ r.kept P (ledgerAt P run i), lc.pastHorizon r.now = true ∧ lc.ph = ph := by
  constructor
  · rintro ⟨j, r, hj, hr, hkept⟩
    rcases Nat.lt_succ_iff_lt_or_eq.mp hj with hlt | heq
    · exact .inl ⟨j, r, hlt, hr, hkept⟩
    · subst heq
      exact .inr ⟨r, hr, hkept⟩
  · rintro (⟨j, r, hj, hr, hkept⟩ | ⟨r, hr, hkept⟩)
    · exact ⟨j, r, by omega, hr, hkept⟩
    · exact ⟨i, r, by omega, hr, hkept⟩

/-- **The ledger is the history of the run**, while its aliases fit. -/
theorem has_ledgerAt_iff (hS : S.card < maxRatchetAliases)
    (hwithin : ∀ i, (ledgerAt P run i).Within S) :
    (ledgerAt P run i).Has a ph ↔ EstablishedBefore P run i a ph := by
  induction i with
  | zero =>
    refine iff_of_false PastHorizonLedger.not_has_empty ?_
    rintro ⟨j, _, hj, _⟩
    omega
  | succ i ih =>
    rw [establishedBefore_succ, ← ih]
    cases hr : run[i]? with
    | none =>
      rw [ledgerAt_succ_of_none hr]
      simp
    | some r =>
      rw [has_ledgerAt_succ hS hwithin hr]
      refine or_congr_right ⟨fun hkept => ⟨r, rfl, hkept⟩, ?_⟩
      rintro ⟨r', hr', hkept⟩
      rw [Option.some.injEq] at hr'
      rw [hr']
      exact hkept

theorem ledgerAt_within (hS : S.card < maxRatchetAliases) (hrun : ∀ r ∈ run, r.aliasName ∈ S)
    (i : Nat) : (ledgerAt P run i).Within S := by
  induction i with
  | zero =>
    intro a ha
    exact absurd ha (AList.notMem_empty a)
  | succ i ih =>
    cases hr : run[i]? with
    | none =>
      rw [ledgerAt_succ_of_none hr]
      exact ih
    | some r =>
      rw [ledgerAt_succ hr, resolveStep, resolveClaimSet_snd]
      exact filterPastHorizonNewcomers_within hS ih (hrun r (List.mem_of_getElem? hr))

/-! ## Newcomers -/

theorem pastHorizon_of_le (hnow : now < 2 ^ 63)
    (h : (lc.claim.timestamp.toNat : Int) ≤ now - 172800) : lc.pastHorizon now = true := by
  have hint : int64 lc.claim.timestamp = lc.claim.timestamp.toNat := int64_of_lt (by omega)
  have hwrap : wrap64 (now - Constants.contestWindow) = now - 172800 :=
    wrap64_of_range (by show _ ≤ now - 172800; omega) (by show now - 172800 < _; omega)
  rw [LiveClaim.pastHorizon, decide_eq_true_eq, hint, hwrap]
  exact h

theorem freshQuorum_of_freshlyAttested {ws : Option (List Bytes)}
    {sets : Table Bytes (List WitnessAttestation)} (hlo : 172800 ≤ now) (hhi : now < 2 ^ 63)
    (h : freshlyAttested P ws sets now ph = true) :
    FreshQuorum P ((sets.lookup ph).getD []) ph (now - 172800) (now + 60) ws 5 := by
  obtain ⟨nodes, hcard, hnodes⟩ := freshQuorum_of_hasFreshQuorum h
  refine ⟨nodes, hcard, ?_⟩
  intro id hid
  obtain ⟨⟨w, hw, hnode, hverify, hfrom, hto⟩, hset⟩ := hnodes id hid
  have hstart : wrap64 (now - Constants.reAttestFresh) = now - 172800 :=
    wrap64_of_range (by show _ ≤ now - 172800; omega) (by show now - 172800 < _; omega)
  have hend : wrap64 (now + 60) ≤ now + 60 := wrap64_le (by omega)
  exact ⟨⟨w, hw, hnode, hverify, by rw [← hstart]; exact hfrom, le_trans hto hend⟩, hset⟩

/-- **Ratchet safety**: below 4096 aliases, once an alias has an established identity a
claim past the horizon is kept only if its identity was established, or five admissible
nodes re-attested it. -/
theorem ratchet_admits_established_or_fresh {S : Finset Bytes} (hS : S.card < 4096)
    {run : List Resolution} (hwithin : ∀ i, (ledgerAt P run i).Within S) {i : Nat} {r : Resolution}
    (hnow : r.now < 2 ^ 63) {ph : Bytes}
    (hestablished : EstablishedBefore P run i r.aliasName ph) {lc : LiveClaim P}
    (hkept : lc ∈ r.kept P (ledgerAt P run i))
    (hpast : (lc.claim.timestamp.toNat : Int) ≤ r.now - 172800) :
    EstablishedBefore P run i r.aliasName lc.ph ∨
      FreshQuorum P ((r.collected.reAttestSets.lookup lc.ph).getD []) lc.ph (r.now - 172800)
        (r.now + 60) r.collected.witnessSet 5 := by
  rw [← has_ledgerAt_iff hS hwithin] at hestablished ⊢
  obtain ⟨_, hin | hfresh | ⟨_, hhas | hnone⟩⟩ := mem_filterPastHorizonNewcomers.mp hkept
  · rw [pastHorizon_of_le hnow hpast] at hin
    cases hin
  · exact .inr (freshQuorum_of_freshlyAttested (by omega) hnow hfresh)
  · exact .inl hhas
  · -- the bootstrap case: the alias has an identity already
    exact absurd hestablished (hnone ph)

namespace RatchetSample

open Freens.Toy ReuseSample

def phOf (n : UInt8) (ts : UInt64) : Bytes :=
  minedChecksum (buildPrefix aliasA (minedChecksum (publicKey n)) ts (publicKey n))

def firstSeen : Resolution :=
  ⟨aliasA, 180000, offers [carrier 2 (minedClaim 2 aliasA 1000 quorum) 1000 200000]⟩

/-- Owner 1's older claim, freshly re-attested. -/
def reAttested : Resolution :=
  ⟨aliasA, 180100,
    { offers [carrier 1 (minedClaim 1 aliasA 500 quorum) 500 200000] with
      reAttestSets := AList.singleton (phOf 1 500)
        (quorum.filterMap (fun w => newWitnessAttestation mined (keypair w) 180000 (phOf 1 500))) }⟩

def challenged : List Resolution := [firstSeen, reAttested]

theorem within_aliasA (h : ∀ r ∈ run, r.aliasName = aliasA) (i : Nat) :
    (ledgerAt mined run i).Within {aliasA} :=
  ledgerAt_within (by decide) (fun r hr => Finset.mem_singleton.mpr (h r hr)) i

end RatchetSample

section
open RatchetSample

theorem reAttested_newcomer_kept :
    ∃ lc ∈ reAttested.kept Toy.mined (ledgerAt Toy.mined challenged 1),
      EstablishedBefore Toy.mined challenged 1 Toy.aliasA (phOf 2 1000) ∧
      (EstablishedBefore Toy.mined challenged 1 Toy.aliasA lc.ph ∨
        FreshQuorum Toy.mined ((reAttested.collected.reAttestSets.lookup lc.ph).getD []) lc.ph
          7300 180160 none 5) := by
  have hestablished : EstablishedBefore Toy.mined challenged 1 Toy.aliasA (phOf 2 1000) :=
    ⟨0, firstSeen, by decide, rfl, rfl, by decide +kernel⟩
  have hkept : ∃ lc ∈ reAttested.kept Toy.mined (ledgerAt Toy.mined challenged 1),
      (lc.claim.timestamp.toNat : Int) ≤ reAttested.now - 172800 := by
    decide +kernel
  obtain ⟨lc, hlc, hpast⟩ := hkept
  have hwithin := within_aliasA (show ∀ r ∈ challenged, r.aliasName = Toy.aliasA by decide)
  exact ⟨lc, hlc, hestablished,
    ratchet_admits_established_or_fresh (by decide) hwithin (by decide) hestablished hlc hpast⟩

end

/-! ## Maturation -/

/-- The resolution finds the identity past its horizon. -/
def Resolution.CollectsPast (P : Primitives) (r : Resolution) (ph : Bytes) : Prop :=
  ∃ lc ∈ r.live P, lc.pastHorizon r.now = true ∧ lc.ph = ph

/-- **No other past-horizon claim has fresh evidence**, in any resolution of the
alias. -/
def NoRivalEvidence (P : Primitives) (run : List Resolution) (aliasName ph : Bytes) : Prop :=
  ∀ r ∈ run, r.aliasName = aliasName → ∀ x ∈ r.live P, x.pastHorizon r.now = true → x.ph ≠ ph →
    freshlyAttested P r.collected.witnessSet r.collected.reAttestSets r.now x.ph = false

/-- **The identity matures undisturbed**: no other is collected past its horizon sooner. -/
def Undisturbed (P : Primitives) (run : List Resolution) (aliasName ph : Bytes) : Prop :=
  ∀ (j : Nat) (r : Resolution), run[j]? = some r → r.aliasName = aliasName →
    ∀ q ≠ ph, r.CollectsPast P q →
      ∃ (k : Nat) (r' : Resolution), k ≤ j ∧ run[k]? = some r' ∧ r'.aliasName = aliasName ∧
        r'.CollectsPast P ph

theorem mem_kept_of_recorded {l : PastHorizonLedger}
    (hledger : l.Has r.aliasName ph ∨ ∀ q, ¬ l.Has r.aliasName q)
    (hrival : ∀ x ∈ r.live P, x.pastHorizon r.now = true → x.ph ≠ ph →
      freshlyAttested P r.collected.witnessSet r.collected.reAttestSets r.now x.ph = false)
    (hlc : lc ∈ r.live P) (hph : lc.ph = ph) : lc ∈ r.kept P l := by
  refine mem_filterPastHorizonNewcomers.mpr ⟨hlc, ?_⟩
  cases hfresh : freshlyAttested P r.collected.witnessSet r.collected.reAttestSets r.now ph with
  | true =>
    rw [hph, hfresh]
    exact .inr (.inl rfl)
  | false =>
    refine .inr (.inr ⟨?_, by rw [hph]; exact hledger⟩)
    intro x hx hpast
    by_cases heq : x.ph = ph
    · rw [heq]
      exact hfresh
    · exact hrival x hx hpast heq

/-- The identity is recorded, or the alias has no record and it was never collected past its
horizon. -/
def Matures (P : Primitives) (run : List Resolution) (aliasName ph : Bytes) (i : Nat) : Prop :=
  (ledgerAt P run i).Has aliasName ph ∨
    ((∀ q, ¬ (ledgerAt P run i).Has aliasName q) ∧
      ∀ j r, j < i → run[j]? = some r → r.aliasName = aliasName → ¬ r.CollectsPast P ph)

theorem matures_at (hS : S.card < maxRatchetAliases) (hrun : ∀ r ∈ run, r.aliasName ∈ S)
    {aliasName : Bytes} (hrival : NoRivalEvidence P run aliasName ph)
    (halone : Undisturbed P run aliasName ph) (i : Nat) : Matures P run aliasName ph i := by
  induction i with
  | zero =>
    refine .inr ⟨fun q => PastHorizonLedger.not_has_empty, ?_⟩
    intro j r hj
    omega
  | succ i ih =>
    cases hr : run[i]? with
    | none =>
      unfold Matures at ih ⊢
      rw [ledgerAt_succ_of_none hr]
      refine ih.imp_right (And.imp_right ?_)
      intro hbefore j r hj hjr
      rcases Nat.lt_succ_iff_lt_or_eq.mp hj with hlt | heq
      · exact hbefore j r hlt hjr
      · rw [heq, hr] at hjr
        cases hjr
    | some r =>
      have hhas : ∀ {q}, _ := @has_ledgerAt_succ P S hS run (ledgerAt_within hS hrun) i r hr aliasName
      rcases ih with hrecorded | ⟨hnone, hbefore⟩
      · exact .inl (hhas.mpr (.inl hrecorded))
      · by_cases hcollects : r.aliasName = aliasName ∧ r.CollectsPast P ph
        · -- the identity crosses its horizon here: it is kept, so it is recorded
          obtain ⟨ha, lc, hlc, hpast, hph⟩ := hcollects
          subst ha
          have hkept := mem_kept_of_recorded (.inr hnone)
            (hrival r (List.mem_of_getElem? hr) rfl) hlc hph
          exact .inl (hhas.mpr (.inr ⟨rfl, lc, hkept, hpast, hph⟩))
        · have hbefore' : ∀ j (r' : Resolution), j < i + 1 → run[j]? = some r' →
              r'.aliasName = aliasName → ¬ r'.CollectsPast P ph := by
            intro j r' hj hr' ha hpast
            rcases Nat.lt_succ_iff_lt_or_eq.mp hj with hlt | heq
            · exact hbefore j r' hlt hr' ha hpast
            · rw [heq, hr, Option.some.injEq] at hr'
              subst hr'
              exact hcollects ⟨ha, hpast⟩
          -- nothing past its horizon is collected for the alias, so nothing is recorded
          refine .inr ⟨?_, hbefore'⟩
          intro q hq
          rcases hhas.mp hq with hold | ⟨ha, lc, hkept, hpast, hph⟩
          · exact hnone q hold
          · have hcollected : r.CollectsPast P q :=
              ⟨lc, mem_scan_of_mem_keptClaims hkept, hpast, hph⟩
            have hne : q ≠ ph := by
              rintro rfl
              exact hcollects ⟨ha, hcollected⟩
            obtain ⟨k, r', hk, hr', ha', hearlier⟩ := halone i r hr ha q hne hcollected
            exact hbefore' k r' (by omega) hr' ha' hearlier

/-- **Maturation continuity**: where the identity matures undisturbed and no rival has fresh
evidence, every live claim of it is kept. -/
theorem matures_undisturbed {S : Finset Bytes} (hS : S.card ≤ 4000) {run : List Resolution}
    (hrun : ∀ r ∈ run, r.aliasName ∈ S) {aliasName ph : Bytes}
    (hrival : NoRivalEvidence P run aliasName ph) (halone : Undisturbed P run aliasName ph)
    {i : Nat} {r : Resolution} (hr : run[i]? = some r) (ha : r.aliasName = aliasName)
    {lc : LiveClaim P} (hlc : lc ∈ r.live P) (hph : lc.ph = ph) :
    lc ∈ r.kept P (ledgerAt P run i) := by
  have hledger := matures_at (show S.card < 4096 by omega) hrun hrival halone i
  subst ha
  exact mem_kept_of_recorded (hledger.imp_right And.left)
    (hrival r (List.mem_of_getElem? hr) rfl) hlc hph

namespace RatchetSample

open Freens.Toy ReuseSample

def newOwner (now : Int) : Resolution :=
  ⟨aliasA, now, offers [carrier 1 (minedClaim 1 aliasA 2800000 quorum) 2800000 9000000]⟩

def undisputed : List Resolution := [newOwner 2800100, newOwner 2973000]

def remembered : List Resolution := firstSeen :: undisputed

theorem no_rival_evidence (h : ∀ r ∈ run, r.collected.reAttestSets.entries.isEmpty = true) :
    NoRivalEvidence mined run aliasA ph := by
  intro r hr _ x _ _ _
  have hnone : r.collected.reAttestSets = ∅ := AList.ext (List.isEmpty_iff.mp (h r hr))
  rw [hnone]
  exact freshlyAttested_empty

end RatchetSample

section
open RatchetSample

theorem undisputed_identity_kept :
    ∃ lc ∈ (newOwner 2973000).live Toy.mined,
      lc.pastHorizon 2973000 = true ∧ lc.ph = phOf 1 2800000 ∧
      lc ∈ (newOwner 2973000).kept Toy.mined (ledgerAt Toy.mined undisputed 1) := by
  have hlive : (∀ r ∈ undisputed, ∀ lc ∈ r.live Toy.mined, lc.ph = phOf 1 2800000) ∧
      ∃ lc ∈ (newOwner 2973000).live Toy.mined, lc.pastHorizon 2973000 = true := by
    decide +kernel
  obtain ⟨honly, lc, hlc, hpast⟩ := hlive
  have halone : Undisturbed Toy.mined undisputed Toy.aliasA (phOf 1 2800000) := by
    rintro j r hr _ q hq ⟨lc, hlc, _, hph⟩
    exact absurd (hph.symm.trans (honly r (List.mem_of_getElem? hr) lc hlc)) hq
  have hph := honly (newOwner 2973000) (by simp [undisputed]) lc hlc
  have hkept := matures_undisturbed (S := {Toy.aliasA}) (by decide)
    (show ∀ r ∈ undisputed, r.aliasName ∈ ({Toy.aliasA} : Finset Bytes) by decide)
    (no_rival_evidence (by decide)) halone (i := 1) rfl rfl hlc hph
  exact ⟨lc, hlc, hpast, hph, hkept⟩

/-- **A maturing identity is dropped**, because the ledger remembers the owner before. -/
theorem matured_identity_dropped :
    (remembered.map (·.now)).Pairwise (· ≤ ·) ∧
      (∀ r ∈ remembered, r.aliasName ∈ ({Toy.aliasA} : Finset Bytes)) ∧
      NoRivalEvidence Toy.mined remembered Toy.aliasA (phOf 1 2800000) ∧
      (∃ lc ∈ (newOwner 2800100).kept Toy.mined (ledgerAt Toy.mined remembered 1),
        lc.pastHorizon 2800100 = false ∧ lc.ph = phOf 1 2800000) ∧
      (∃ lc ∈ (newOwner 2973000).live Toy.mined, lc.ph = phOf 1 2800000) ∧
      ∀ lc ∈ (newOwner 2973000).kept Toy.mined (ledgerAt Toy.mined remembered 2),
        lc.ph ≠ phOf 1 2800000 := by
  refine ⟨by decide, by decide, no_rival_evidence (by decide), ?_⟩
  decide +kernel

end

end Freens.Resolver
