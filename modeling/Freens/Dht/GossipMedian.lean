/-
**THE DIFFICULTY A CLAIMANT MINES AT** (`dht/gossip.go`: `observe`,
`medianObserved`, `NetworkDifficulty`): the lower median of the last eight
acceptable difficulties that peers advertised. Which peers lie is a mark on an
observation that only the statements read.
-/
import Freens.Dht.Difficulty
import Mathlib.Data.List.Sort

namespace Freens.Dht

open Library

/-! ## The median -/

/-- `MedianObserved`: the lower median of the ring. -/
def DifficultyState.medianObserved (d : DifficultyState) : Option Int :=
  if d.observed.length = 0 then none
  else (d.observed.insertionSort (· ≤ ·))[(d.observed.length - 1) / 2]?

/-- An island resolver has no node. -/
def networkDifficulty (node : Option DifficultyState) : Int :=
  match node with
  | none => powDifficultyInit
  | some d =>
    match d.medianObserved with
    | some med => med
    | none => d.current

section Ranks
variable {l : List Int} {k : Nat} {m : Int}

theorem lt_countP_le (hsorted : l.Pairwise (· ≤ ·)) (hm : l[k]? = some m) :
    k < l.countP (· ≤ m) := by
  obtain ⟨hk, rfl⟩ := List.getElem?_eq_some_iff.mp hm
  have hall : (l.take (k + 1)).countP (· ≤ l[k]) = (l.take (k + 1)).length := by
    rw [List.countP_eq_length]
    intro x hx
    obtain ⟨i, hi, rfl⟩ := List.mem_take_iff_getElem.mp hx
    rw [decide_eq_true_eq]
    exact hsorted.rel_get_of_le (show (⟨i, by omega⟩ : Fin l.length) ≤ ⟨k, hk⟩ from by
      rw [Fin.mk_le_mk]
      omega)
  have hle := (List.take_sublist (k + 1) l).countP_le (p := (· ≤ l[k]))
  rw [hall, List.length_take] at hle
  omega

theorem le_countP_ge (hsorted : l.Pairwise (· ≤ ·)) (hm : l[k]? = some m) :
    l.length - k ≤ l.countP (m ≤ ·) := by
  obtain ⟨hk, rfl⟩ := List.getElem?_eq_some_iff.mp hm
  have hall : (l.drop k).countP (l[k] ≤ ·) = (l.drop k).length := by
    rw [List.countP_eq_length]
    intro x hx
    obtain ⟨i, hi, rfl⟩ := List.mem_drop_iff_getElem.mp hx
    rw [decide_eq_true_eq]
    exact hsorted.rel_get_of_le (show (⟨k, hk⟩ : Fin l.length) ≤ ⟨k + i, by omega⟩ from by
      rw [Fin.mk_le_mk]
      omega)
  have hle := (List.drop_sublist k l).countP_le (p := (l[k] ≤ ·))
  rwa [hall, List.length_drop] at hle

end Ranks

/-! ## The ring -/

/-- A value heard, and whether its sender lies. -/
structure Observation where
  value : Int
  lying : Bool
  deriving DecidableEq, Repr

/-- A claim accepted or a value heard. -/
inductive GossipEvent where
  | accept (now rounded : Int)
  | hear (o : Observation)
  deriving DecidableEq, Repr

/-- One event. -/
def gossipStep (d : DifficultyState) : GossipEvent → DifficultyState
  | .accept now rounded => d.recordAccepted now rounded
  | .hear o => d.observe o.value

/-- A run from the start. -/
def gossipRun (now : Int) (events : List GossipEvent) : DifficultyState :=
  events.foldl gossipStep (newDifficultyState now)

/-- The observation the ring takes. -/
def GossipEvent.heard : GossipEvent → Option Observation
  | .accept _ _ => none
  | .hear o => if plausibleDifficulty o.value then some o else none

/-- The last eight acceptable observations of a run. -/
def ringOf (events : List GossipEvent) : List Observation :=
  let acceptable := events.filterMap GossipEvent.heard
  acceptable.drop (acceptable.length - difficultyRingSize)

theorem lastObserved_concat (l : List Int) (v : Int) :
    lastObserved (lastObserved l ++ [v]) = lastObserved (l ++ [v]) := by
  simp only [lastObserved, List.length_append, List.length_drop, List.length_singleton]
  rw [← List.drop_append_of_le_length (Nat.sub_le _ _), List.drop_drop]
  congr 1
  omega

theorem observed_gossipRun (now : Int) (events : List GossipEvent) :
    (gossipRun now events).observed = (ringOf events).map Observation.value := by
  have hring : ∀ events, (ringOf events).map Observation.value
      = lastObserved ((events.filterMap GossipEvent.heard).map Observation.value) := by
    intro events
    rw [ringOf, lastObserved, List.map_drop, List.length_map]
  induction events using List.reverseRecOn with
  | nil => rfl
  | append_singleton events e ih =>
    rw [gossipRun] at ih ⊢
    rw [hring, List.foldl_append, List.filterMap_append, List.map_append]
    rw [hring] at ih
    cases e with
    | accept now' rounded =>
      have hkeeps : ∀ d : DifficultyState, (d.recordAccepted now' rounded).observed = d.observed := by
        intro d
        rcases recordAccepted_cases d now' rounded with ⟨_, heq⟩ | ⟨_, heq⟩ <;> rw [heq]
      rw [show [GossipEvent.accept now' rounded].filterMap GossipEvent.heard = [] from rfl,
        List.map_nil, List.append_nil, ← ih]
      exact hkeeps _
    | hear o =>
      by_cases hacceptable : plausibleDifficulty o.value = true
      · simp [gossipStep, GossipEvent.heard, DifficultyState.observe, hacceptable, ih,
          lastObserved_concat]
      · simpa [gossipStep, GossipEvent.heard, DifficultyState.observe, hacceptable] using ih

/-! ## The median of a ring -/

section
variable {ring : List Observation} {p : Int → Bool}

theorem exists_honest (h : ring.countP Observation.lying < (ring.map Observation.value).countP p) :
    ∃ o ∈ ring, o.lying = false ∧ p o.value = true := by
  by_contra hnone
  push Not at hnone
  rw [List.countP_map] at h
  refine absurd (List.countP_mono_left ?_) (Nat.not_le.mpr h)
  intro o ho hp
  by_contra hhonest
  exact hnone o ho (Bool.eq_false_iff.mpr hhonest) hp

end

theorem networkDifficulty_rank {d : DifficultyState} (h : d.observed ≠ []) :
    (d.observed.insertionSort (· ≤ ·))[(d.observed.length - 1) / 2]?
      = some (networkDifficulty (some d)) := by
  have hpos : 0 < d.observed.length := List.length_pos_iff.mpr h
  have hmiddle : (d.observed.length - 1) / 2 < (d.observed.insertionSort (· ≤ ·)).length := by
    rw [List.length_insertionSort]
    omega
  rw [List.getElem?_eq_getElem hmiddle, networkDifficulty, DifficultyState.medianObserved,
    if_neg hpos.ne', List.getElem?_eq_getElem hmiddle]

/-- **A lying minority does not matter.** While at most `⌊(n - 1) / 2⌋` of the ring's `n`
values are lies, the reported one lies between two honest ones; it always is one of the last
eight acceptable values. -/
theorem gossip_median_robust (now : Int) (events : List GossipEvent)
    (hheard : (gossipRun now events).observed ≠ []) :
    ((ringOf events).countP Observation.lying ≤ ((ringOf events).length - 1) / 2 →
      ∃ low ∈ ringOf events, ∃ high ∈ ringOf events, low.lying = false ∧ high.lying = false ∧
        low.value ≤ networkDifficulty (some (gossipRun now events)) ∧
        networkDifficulty (some (gossipRun now events)) ≤ high.value) ∧
    (∃ o ∈ ringOf events, o.value = networkDifficulty (some (gossipRun now events))) ∧
    24 ≤ networkDifficulty (some (gossipRun now events)) ∧
    networkDifficulty (some (gossipRun now events)) ≤ 256 := by
  have hrank := networkDifficulty_rank hheard
  generalize networkDifficulty (some (gossipRun now events)) = reported at hrank ⊢
  rw [observed_gossipRun] at hrank hheard
  have hperm := List.perm_insertionSort (· ≤ ·) ((ringOf events).map Observation.value)
  have hsorted : (((ringOf events).map Observation.value).insertionSort (· ≤ ·)).Pairwise (· ≤ ·) :=
    List.pairwise_insertionSort (· ≤ ·) _
  have hlow := lt_countP_le hsorted hrank
  have hhigh := le_countP_ge hsorted hrank
  have hpos : 0 < (ringOf events).length := by
    rw [List.length_pos_iff]
    exact fun hnil => hheard (by rw [hnil]; rfl)
  have hmember := hperm.mem_iff.mp (List.mem_of_getElem? hrank)
  rw [hperm.countP_eq] at hlow hhigh
  rw [List.length_map] at hlow
  rw [List.length_insertionSort, List.length_map] at hhigh
  refine ⟨?_, List.mem_map.mp hmember, ?_⟩
  · intro hfew
    obtain ⟨low, hlowMem, hlowHonest, hle⟩ := exists_honest (Nat.lt_of_le_of_lt hfew hlow)
    obtain ⟨high, hhighMem, hhighHonest, hge⟩ :=
      @exists_honest (ringOf events) (reported ≤ ·) (by omega)
    exact ⟨low, hlowMem, high, hhighMem, hlowHonest, hhighHonest, by simpa using hle,
      by simpa using hge⟩
  · -- only acceptable values enter the ring
    obtain ⟨o, ho, heq⟩ := List.mem_map.mp hmember
    obtain ⟨e, _, he⟩ := List.mem_filterMap.mp (List.mem_of_mem_drop ho)
    cases e with
    | accept now' rounded => cases he
    | hear o' =>
      rw [GossipEvent.heard, Option.ite_none_right_eq_some, Option.some.injEq] at he
      rw [← heq, ← he.2]
      simpa [plausibleDifficulty] using he.1

namespace Gossip

/-- Two honest values and a lie. -/
def events : List GossipEvent := [.hear ⟨24, false⟩, .hear ⟨256, true⟩, .hear ⟨30, false⟩]

end Gossip

theorem liar_outvoted :
    networkDifficulty (some (gossipRun 0 Gossip.events)) = 30 ∧
      ∃ high ∈ ringOf Gossip.events, high.lying = false ∧
        networkDifficulty (some (gossipRun 0 Gossip.events)) ≤ high.value := by
  refine ⟨by decide +kernel, ?_⟩
  obtain ⟨low, _, high, hmem, _, hhonest, _, hle⟩ :=
    (gossip_median_robust 0 Gossip.events (by decide +kernel)).1 (by decide +kernel)
  exact ⟨high, hmem, hhonest, hle⟩

end Freens.Dht
