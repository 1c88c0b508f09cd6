/-
**A NODE'S OWN DIFFICULTY** (`dht/gossip.go`: `difficultyState`; `constants.go`:
`RetargetDifficulty`).

Every 256 accepted claims the difficulty moves by at most two bits, not below 24
and without a cap, while `restore` starts again at 24 above 256. The rounded
logarithm is an argument of each acceptance.
-/
import Freens.Data
import Freens.Library.Run

namespace Freens.Dht

open Library

/-! ## The state -/

abbrev powDifficultyInit : Int := Constants.powDifficultyInit
abbrev powRetargetBlock : Int := 256
abbrev powTargetInterval : Int := 600
abbrev maxObservedDifficulty : Int := 256
abbrev difficultyRingSize : Nat := 8

/-- The difficulty and what it is computed from. -/
structure DifficultyState where
  current : Int
  accepted : Int
  blockStart : Int
  /-- Oldest first. -/
  observed : List Int
  deriving DecidableEq, Repr

/-- Its saved form. -/
structure DifficultyStateJSON where
  current : Int
  accepted : Int
  blockStart : Int
  observed : List Int
  deriving DecidableEq, Repr

/-- `NewDifficultyState`. -/
def newDifficultyState (now : Int) : DifficultyState :=
  { current := powDifficultyInit, accepted := 0, blockStart := now, observed := [] }

/-- The step of `RetargetDifficulty`: the rounded logarithm of the spans' ratio, at most two
either way. -/
def retargetStep (rounded actualBlockSpan : Int) : Int :=
  if actualBlockSpan ≤ 0 then 2
  else if rounded < -2 then -2
  else if rounded > 2 then 2
  else rounded

/-- `RetargetDifficulty`: never below the initial one. -/
def retargetDifficulty (rounded dOld actualBlockSpan targetBlockSpan : Int) : Int :=
  if targetBlockSpan ≤ 0 then max dOld powDifficultyInit
  else
    let dNew := wrap64 (dOld + retargetStep rounded actualBlockSpan)
    if dNew < powDifficultyInit then powDifficultyInit else dNew

/-- `RecordAccepted`: the end of a block retargets. -/
def DifficultyState.recordAccepted (d : DifficultyState) (now rounded : Int) : DifficultyState :=
  let accepted := d.accepted + 1
  if accepted ≥ powRetargetBlock then
    { d with
      current := retargetDifficulty rounded d.current (wrap64 (now - d.blockStart))
        (powRetargetBlock * powTargetInterval)
      blockStart := now
      accepted := 0 }
  else { d with accepted }

/-- The ring keeps the latest. -/
def lastObserved (observed : List Int) : List Int :=
  observed.drop (observed.length - difficultyRingSize)

/-- `plausibleDifficulty`. -/
def plausibleDifficulty (v : Int) : Bool := powDifficultyInit ≤ v ∧ v ≤ maxObservedDifficulty

/-- `Observe`: implausible values are dropped. -/
def DifficultyState.observe (d : DifficultyState) (v : Int) : DifficultyState :=
  if plausibleDifficulty v then { d with observed := lastObserved (d.observed ++ [v]) } else d

/-- `Snapshot`. -/
def DifficultyState.snapshot (d : DifficultyState) : DifficultyStateJSON :=
  { current := d.current, accepted := d.accepted, blockStart := d.blockStart, observed := d.observed }

/-- `Restore`: implausible values are clamped or dropped. -/
def DifficultyState.restore (d : DifficultyState) (j : DifficultyStateJSON) : DifficultyState :=
  { current := if j.current < powDifficultyInit ∨ j.current > maxObservedDifficulty then
      powDifficultyInit else j.current
    accepted := if j.accepted < 0 ∨ j.accepted ≥ powRetargetBlock then 0 else j.accepted
    blockStart := j.blockStart
    observed := if 0 < j.observed.length then lastObserved (j.observed.filter plausibleDifficulty)
      else d.observed }

/-! ## A node over time -/

/-- The live state and the saved one. -/
structure DifficultyNode where
  live : DifficultyState
  saved : Option DifficultyStateJSON

/-- What can happen next. -/
inductive DifficultyEvent where
  /-- A claim was co-signed; `rounded` is the logarithm should the block end. -/
  | accept (now rounded : Int)
  | observe (v : Int)
  | save
  /-- A new process that loads the file if there is one. -/
  | restart (now : Int)
  deriving DecidableEq, Repr

/-- One event. -/
def difficultyStep (s : DifficultyNode) : DifficultyEvent → DifficultyNode
  | .accept now rounded => { s with live := s.live.recordAccepted now rounded }
  | .observe v => { s with live := s.live.observe v }
  | .save => { s with saved := some s.live.snapshot }
  | .restart now =>
    { s with live := match s.saved with
        | none => newDifficultyState now
        | some j => (newDifficultyState now).restore j }

/-- A first start. -/
def DifficultyNode.boot (now : Int) : DifficultyNode := ⟨newDifficultyState now, none⟩

/-- A run from the first start. -/
def difficultyRun (now : Int) (events : List DifficultyEvent) : DifficultyNode :=
  events.foldl difficultyStep (DifficultyNode.boot now)

/-! ## What every state keeps -/

/-- At or above the floor, and within a block. -/
structure SoundState (d : DifficultyState) : Prop where
  floor : powDifficultyInit ≤ d.current
  started : 0 ≤ d.accepted
  unfinished : d.accepted < powRetargetBlock

theorem soundState_new (now : Int) : SoundState (newDifficultyState now) where
  floor := Int.le_refl _
  started := Int.le_refl 0
  unfinished := by
    show (0 : Int) < 256
    decide

theorem floor_le_retarget (rounded dOld actual target : Int) :
    powDifficultyInit ≤ retargetDifficulty rounded dOld actual target := by
  unfold retargetDifficulty
  split
  next => exact le_max_right _ _
  simp only
  split
  next => exact Int.le_refl _
  next h => exact Int.not_lt.mp h

theorem retargetStep_range (rounded actual : Int) :
    -2 ≤ retargetStep rounded actual ∧ retargetStep rounded actual ≤ 2 := by
  unfold retargetStep
  split
  next => decide
  split
  next => decide
  next hlow =>
    split
    next => decide
    next hhigh => exact ⟨Int.not_lt.mp hlow, Int.not_lt.mp hhigh⟩

theorem retarget_eq {rounded dOld actual : Int} (hlo : powDifficultyInit ≤ dOld)
    (hhi : dOld ≤ maxObservedDifficulty) :
    retargetDifficulty rounded dOld actual (powRetargetBlock * powTargetInterval)
      = max powDifficultyInit (dOld + retargetStep rounded actual) := by
  have hstep := retargetStep_range rounded actual
  replace hlo : (24 : Int) ≤ dOld := hlo
  replace hhi : dOld ≤ (256 : Int) := hhi
  -- far from the ends of the machine word
  have hwrap : wrap64 (dOld + retargetStep rounded actual) = dOld + retargetStep rounded actual :=
    wrap64_of_range (by omega) (by omega)
  rw [retargetDifficulty, if_neg (by decide), hwrap]
  show (if dOld + retargetStep rounded actual < (24 : Int) then (24 : Int) else _) = max 24 _
  split
  next h => exact (max_eq_left (Int.le_of_lt h)).symm
  next h => exact (max_eq_right (Int.not_lt.mp h)).symm

theorem recordAccepted_cases (d : DifficultyState) (now rounded : Int) :
    (d.accepted + 1 < powRetargetBlock ∧
        d.recordAccepted now rounded = { d with accepted := d.accepted + 1 }) ∨
      (powRetargetBlock ≤ d.accepted + 1 ∧
        d.recordAccepted now rounded =
          { d with
            current := retargetDifficulty rounded d.current (wrap64 (now - d.blockStart))
              (powRetargetBlock * powTargetInterval)
            blockStart := now
            accepted := 0 }) := by
  unfold DifficultyState.recordAccepted
  simp only
  split
  next hends => exact .inr ⟨hends, rfl⟩
  next hshort => exact .inl ⟨Int.not_le.mp hshort, rfl⟩

variable {d : DifficultyState} {current : Int} {n : Nat}

theorem SoundState.recordAccepted (h : SoundState d) (now rounded : Int) :
    SoundState (d.recordAccepted now rounded) := by
  rcases recordAccepted_cases d now rounded with ⟨hshort, heq⟩ | ⟨_, heq⟩
  · rw [heq]
    exact ⟨h.floor, Int.le_add_one h.started, hshort⟩
  · rw [heq]
    refine ⟨?_, Int.le_refl 0, ?_⟩
    · dsimp only
      exact floor_le_retarget _ _ _ _
    · show (0 : Int) < 256
      decide

theorem SoundState.observe (h : SoundState d) (v : Int) : SoundState (d.observe v) := by
  unfold DifficultyState.observe
  split
  next => exact ⟨h.floor, h.started, h.unfinished⟩
  next => exact h

theorem kept_restore (d : DifficultyState) (j : DifficultyStateJSON) :
    SoundState (d.restore j) ∧ (d.restore j).current ≤ maxObservedDifficulty := by
  have hcurrent : powDifficultyInit ≤ (d.restore j).current ∧
      (d.restore j).current ≤ maxObservedDifficulty := by
    unfold DifficultyState.restore
    simp only
    split
    next => exact ⟨Int.le_refl _, by decide⟩
    next h =>
      rw [not_or] at h
      exact ⟨Int.not_lt.mp h.1, Int.not_lt.mp h.2⟩
  have haccepted : 0 ≤ (d.restore j).accepted ∧ (d.restore j).accepted < powRetargetBlock := by
    unfold DifficultyState.restore
    simp only
    split
    next => exact ⟨Int.le_refl 0, by decide⟩
    next h =>
      rw [not_or] at h
      exact ⟨Int.not_lt.mp h.1, Int.not_le.mp h.2⟩
  exact ⟨⟨hcurrent.1, haccepted.1, haccepted.2⟩, hcurrent.2⟩

theorem SoundState.step {s : DifficultyNode} (h : SoundState s.live) (e : DifficultyEvent) :
    SoundState (difficultyStep s e).live := by
  cases e with
  | accept now rounded => exact h.recordAccepted now rounded
  | observe v => exact h.observe v
  | save => exact h
  | restart now =>
    rw [difficultyStep]
    cases s.saved with
    | none => exact soundState_new now
    | some j => exact (kept_restore _ j).1

theorem soundState_run (now : Int) (events : List DifficultyEvent) :
    SoundState (difficultyRun now events).live :=
  @EachStep.invariant _ _ difficultyStep (fun _ _ => True) (fun s => SoundState s.live)
    (fun _ e h _ => h.step e) events _ (soundState_new now)
    (EachStep.of_forall_mem fun _ _ _ => trivial)

/-! ## Restorable states -/

/-- In range, and restored from its snapshot with the same difficulty and block
progress. -/
def Restorable (d : DifficultyState) : Prop :=
  (powDifficultyInit ≤ d.current ∧ d.current ≤ maxObservedDifficulty) ∧
    ∀ fresh : DifficultyState, (fresh.restore d.snapshot).current = d.current ∧
      (fresh.restore d.snapshot).accepted = d.accepted ∧
      (fresh.restore d.snapshot).blockStart = d.blockStart

theorem restorable_iff (h : SoundState d) : Restorable d ↔ d.current ≤ maxObservedDifficulty := by
  constructor
  · intro hrestorable
    exact hrestorable.1.2
  · intro hhi
    refine ⟨⟨h.floor, hhi⟩, ?_⟩
    intro fresh
    have hcurrent : ¬ (d.current < powDifficultyInit ∨ d.current > maxObservedDifficulty) := by
      rintro (hlow | hhigh)
      · exact Int.not_lt.mpr h.floor hlow
      · exact Int.not_lt.mpr hhi hhigh
    have haccepted : ¬ (d.accepted < 0 ∨ d.accepted ≥ powRetargetBlock) := by
      rintro (hneg | hfull)
      · exact Int.not_lt.mpr h.started hneg
      · exact Int.not_le.mpr h.unfinished hfull
    exact ⟨if_neg hcurrent, if_neg haccepted, rfl⟩

/-- The acceptance does not end the block, or the step does not lead above 256. -/
def StaysBelow (s : DifficultyNode) : DifficultyEvent → Prop
  | .accept now rounded =>
    s.live.accepted + 1 < powRetargetBlock ∨
      s.live.current + retargetStep rounded (wrap64 (now - s.live.blockStart)) ≤ maxObservedDifficulty
  | _ => True

theorem recordAccepted_le_iff (h : SoundState d) (hhi : d.current ≤ maxObservedDifficulty)
    (now rounded : Int) :
    (d.recordAccepted now rounded).current ≤ maxObservedDifficulty ↔
      (d.accepted + 1 < powRetargetBlock ∨
        d.current + retargetStep rounded (wrap64 (now - d.blockStart)) ≤ maxObservedDifficulty) := by
  rcases recordAccepted_cases d now rounded with ⟨hshort, heq⟩ | ⟨hends, heq⟩
  · rw [heq]
    exact iff_of_true hhi (.inl hshort)
  · rw [heq]
    dsimp only
    rw [retarget_eq h.floor hhi, max_le_iff, and_iff_right (by decide),
      or_iff_right (Int.not_lt.mpr hends)]

theorem step_le_iff {s : DifficultyNode} (h : SoundState s.live)
    (hhi : s.live.current ≤ maxObservedDifficulty) (e : DifficultyEvent) :
    (difficultyStep s e).live.current ≤ maxObservedDifficulty ↔ StaysBelow s e := by
  cases e with
  | accept now rounded => exact recordAccepted_le_iff h hhi now rounded
  | observe v =>
    refine iff_of_true ?_ trivial
    show (s.live.observe v).current ≤ maxObservedDifficulty
    unfold DifficultyState.observe
    split <;> exact hhi
  | save => exact iff_of_true hhi trivial
  | restart now =>
    refine iff_of_true ?_ trivial
    rw [difficultyStep]
    cases s.saved with
    | none =>
      show (24 : Int) ≤ 256
      decide
    | some j => exact (kept_restore _ j).2

/-! ## How far a run can climb -/

/-- The event accepts a claim. -/
def DifficultyEvent.isAccept : DifficultyEvent → Bool
  | .accept _ _ => true
  | _ => false

/-- How many claims a run accepts. -/
def acceptances (events : List DifficultyEvent) : Nat := events.countP DifficultyEvent.isAccept

theorem acceptances_concat (events : List DifficultyEvent) (e : DifficultyEvent) :
    acceptances (events ++ [e]) = acceptances events + (if e.isAccept then 1 else 0) := by
  rw [acceptances, List.countP_append, List.countP_singleton]
  rfl

/-- Two bits for each full block among so many acceptances. -/
def Climbed (n : Nat) (current accepted : Int) : Prop :=
  ∃ blocks : Nat, current ≤ powDifficultyInit + 2 * blocks ∧ 0 ≤ accepted ∧
    256 * blocks + accepted ≤ n

theorem climbed_new (n : Nat) : Climbed n powDifficultyInit 0 :=
  ⟨0, by simp, Int.le_refl 0, by simp⟩

theorem Climbed.mono {accepted current' accepted' : Int} (h : Climbed n current accepted)
    (hcurrent : current' ≤ current ∨ current' = powDifficultyInit)
    (haccepted : accepted' = accepted ∨ accepted' = 0) : Climbed n current' accepted' := by
  obtain ⟨blocks, hc, ha, hn⟩ := h
  refine ⟨blocks, ?_, ?_, ?_⟩
  · rcases hcurrent with hle | heq <;> omega
  · rcases haccepted with heq | heq <;> omega
  · rcases haccepted with heq | heq <;> omega

theorem retarget_le {rounded dOld actual target : Int} (hlo : powDifficultyInit ≤ dOld) :
    retargetDifficulty rounded dOld actual target ≤ dOld + 2 := by
  have hstep := retargetStep_range rounded actual
  replace hlo : (24 : Int) ≤ dOld := hlo
  unfold retargetDifficulty
  split
  next =>
    show max dOld (24 : Int) ≤ _
    omega
  next =>
    simp only
    split
    next =>
      show (24 : Int) ≤ _
      omega
    next hfloor =>
      -- a step that left the machine word would have come out below the floor
      have hwrap := wrap64_le (show -(2 ^ 63) ≤ dOld + retargetStep rounded actual by omega)
      omega

theorem Climbed.accept (h : Climbed n d.current d.accepted) (hkept : SoundState d)
    (now rounded : Int) :
    Climbed (n + 1) (d.recordAccepted now rounded).current (d.recordAccepted now rounded).accepted := by
  obtain ⟨blocks, hc, ha, hn⟩ := h
  rcases recordAccepted_cases d now rounded with ⟨_, heq⟩ | ⟨hends, heq⟩
  · rw [heq]
    refine ⟨blocks, hc, Int.le_add_one ha, ?_⟩
    show 256 * (blocks : Int) + (d.accepted + 1) ≤ ((n + 1 : Nat) : Int)
    omega
  · -- the block is paid for by its 256 acceptances
    have hretarget := @retarget_le rounded d.current (wrap64 (now - d.blockStart))
      (powRetargetBlock * powTargetInterval) hkept.floor
    replace hends : (256 : Int) ≤ d.accepted + 1 := hends
    replace hc : d.current ≤ (24 : Int) + 2 * blocks := hc
    rw [heq]
    refine ⟨blocks + 1, ?_, Int.le_refl 0, ?_⟩
    · show _ ≤ (24 : Int) + 2 * ((blocks + 1 : Nat) : Int)
      dsimp only
      omega
    · show 256 * ((blocks + 1 : Nat) : Int) + 0 ≤ ((n + 1 : Nat) : Int)
      omega

theorem Climbed.le_succ {accepted : Int} (h : Climbed n current accepted) :
    Climbed (n + 1) current accepted := by
  obtain ⟨blocks, hc, ha, hn⟩ := h
  refine ⟨blocks, hc, ha, ?_⟩
  push_cast
  omega

theorem Climbed.restore {j : DifficultyStateJSON} (h : Climbed n j.current j.accepted)
    (fresh : DifficultyState) : Climbed n (fresh.restore j).current (fresh.restore j).accepted := by
  apply h.mono
  · unfold DifficultyState.restore
    simp only
    split
    next => exact .inr rfl
    next => exact .inl (Int.le_refl _)
  · unfold DifficultyState.restore
    simp only
    split
    next => exact .inr rfl
    next => exact .inl rfl

/-- Memory and file have climbed as far as so many acceptances allow. -/
structure Paid (n : Nat) (s : DifficultyNode) : Prop where
  kept : SoundState s.live
  live : Climbed n s.live.current s.live.accepted
  saved : ∀ j ∈ s.saved, Climbed n j.current j.accepted

theorem Paid.step {n : Nat} {s : DifficultyNode} (h : Paid n s) (e : DifficultyEvent) :
    Paid (n + (if e.isAccept then 1 else 0)) (difficultyStep s e) := by
  have hkept := h.kept.step e
  cases e with
  | accept now rounded =>
    exact ⟨hkept, h.live.accept h.kept now rounded, fun j hj => (h.saved j hj).le_succ⟩
  | observe v =>
    refine ⟨hkept, ?_, h.saved⟩
    show Climbed n (s.live.observe v).current (s.live.observe v).accepted
    unfold DifficultyState.observe
    split <;> exact h.live
  | save =>
    refine ⟨hkept, h.live, ?_⟩
    intro j hj
    rw [← Option.some.inj hj]
    exact h.live
  | restart now =>
    refine ⟨hkept, ?_, h.saved⟩
    have hsaved := h.saved
    rw [difficultyStep]
    cases hfile : s.saved with
    | none => exact climbed_new n
    | some j => exact (hsaved j hfile).restore (newDifficultyState now)

theorem paid_run (now : Int) (events : List DifficultyEvent) :
    Paid (acceptances events) (difficultyRun now events) := by
  refine @EachStep.history _ _ difficultyStep (fun _ _ => True)
    (fun past s => Paid (acceptances past) s) ?_ events [] (DifficultyNode.boot now) ?_
    (EachStep.of_forall_mem fun _ _ _ => trivial)
  · intro past s e h _
    rw [acceptances_concat]
    exact h.step e
  · refine ⟨soundState_new now, climbed_new 0, ?_⟩
    intro j hj
    cases hj

theorem acceptances_take_le (events : List DifficultyEvent) (k : Nat) :
    acceptances (events.take k) ≤ acceptances events :=
  (List.take_sublist k events).countP_le

/-- **Difficulty stays restorable** in every state of a run exactly when no retarget leads
above 256 bits, which takes 29952 acceptances. Floor and block bounds always hold. -/
theorem difficulty_restorable_iff (now : Int) (events : List DifficultyEvent) :
    ((∀ k, Restorable (difficultyRun now (events.take k)).live) ↔
      EachStep difficultyStep StaysBelow (DifficultyNode.boot now) events) ∧
    (acceptances events < 29952 → ∀ k, Restorable (difficultyRun now (events.take k)).live) ∧
    ∀ k, powDifficultyInit ≤ (difficultyRun now (events.take k)).live.current ∧
      0 ≤ (difficultyRun now (events.take k)).live.accepted ∧
      (difficultyRun now (events.take k)).live.accepted < powRetargetBlock := by
  refine ⟨?_, ?_, ?_⟩
  · simp only [restorable_iff (soundState_run now _)]
    exact @EachStep.always_iff _ _ difficultyStep StaysBelow (fun s => SoundState s.live)
      (fun s => s.live.current ≤ maxObservedDifficulty) (fun s e h => h.step e)
      (fun s e h hhi => step_le_iff h hhi e) events _ (soundState_new now)
      (show (24 : Int) ≤ 256 by decide)
  · intro hfew k
    rw [restorable_iff (soundState_run now _)]
    obtain ⟨blocks, hc, ha, hn⟩ := (paid_run now (events.take k)).live
    have hle := acceptances_take_le events k
    show _ ≤ (256 : Int)
    replace hc : _ ≤ (24 : Int) + 2 * blocks := hc
    omega
  · intro k
    have hkept := soundState_run now (events.take k)
    exact ⟨hkept.floor, hkept.started, hkept.unfinished⟩

/-! ## A flood -/

namespace Flood

/-- `n` claims at once. -/
def claims (n : Nat) : List DifficultyEvent := List.replicate n (.accept 0 0)

/-- A node at a difficulty, some claims into its block. -/
def node (current accepted : Int) : DifficultyNode := ⟨⟨current, accepted, 0, []⟩, none⟩

theorem foldl_claims (current : Int) (n : Nat) (h : n < 256) :
    (claims n).foldl difficultyStep (node current 0) = node current n := by
  induction n with
  | zero => rfl
  | succ n ih =>
    rw [claims, List.replicate_succ', List.foldl_append]
    rw [claims] at ih
    rw [ih (by omega)]
    have hshort : ¬ ((n : Int) + 1 ≥ powRetargetBlock) := by
      show ¬ ((n : Int) + 1 ≥ 256)
      omega
    show (⟨(DifficultyState.mk current n 0 []).recordAccepted 0 0, none⟩ : DifficultyNode) = _
    rw [DifficultyState.recordAccepted]
    simp only [if_neg hshort]
    rfl

theorem foldl_block (hlo : 24 ≤ current) (hhi : current ≤ 256) :
    (claims 256).foldl difficultyStep (node current 0) = node (current + 2) 0 := by
  rw [claims, List.replicate_succ', List.foldl_append]
  have hcounted := foldl_claims current 255 (by decide)
  rw [claims] at hcounted
  rw [hcounted]
  have hretarget := @retarget_eq 0 current 0 hlo hhi
  have hup : max powDifficultyInit (current + retargetStep 0 0) = current + 2 := by
    show max (24 : Int) (current + 2) = current + 2
    omega
  show (⟨⟨retargetDifficulty 0 current 0 (powRetargetBlock * powTargetInterval), 0, 0, []⟩, none⟩ :
    DifficultyNode) = _
  rw [hretarget, hup]
  rfl

theorem foldl_blocks (n : Nat) (h : n ≤ 117) :
    (claims (256 * n)).foldl difficultyStep (node 24 0) = node (24 + 2 * n) 0 := by
  induction n with
  | zero => rfl
  | succ n ih =>
    have hsplit : claims (256 * (n + 1)) = claims (256 * n) ++ claims 256 := by
      rw [claims, claims, claims, List.replicate_append_replicate, Nat.mul_succ]
    rw [hsplit, List.foldl_append, ih (by omega), foldl_block (by omega) (by omega)]
    push_cast
    rw [Int.mul_add, Int.add_assoc]
    rfl

end Flood

/-- 29952 acceptances in one second: the difficulty is 258, and after a restart
it is 24 again. -/
theorem flood_lost_on_restart :
    (difficultyRun 0 (Flood.claims 29952)).live.current = 258 ∧
      ¬ Restorable (difficultyRun 0 (Flood.claims 29952)).live ∧
      (difficultyRun 0 (Flood.claims 29952 ++ [.save, .restart 1])).live.current = 24 := by
  have hboot : DifficultyNode.boot 0 = Flood.node 24 0 := rfl
  have hrun : difficultyRun 0 (Flood.claims 29952) = Flood.node 258 0 := by
    rw [difficultyRun, hboot, show (29952 : Nat) = 256 * 117 from rfl,
      Flood.foldl_blocks 117 (by decide)]
    rfl
  refine ⟨by rw [hrun]; rfl, ?_, ?_⟩
  · intro h
    have hle := h.1.2
    rw [hrun] at hle
    exact absurd hle (by decide)
  · have hrestart : difficultyRun 0 (Flood.claims 29952 ++ [.save, .restart 1])
        = [DifficultyEvent.save, .restart 1].foldl difficultyStep (Flood.node 258 0) := by
      rw [difficultyRun] at hrun ⊢
      rw [List.foldl_append, hrun]
    rw [hrestart]
    decide

end Freens.Dht
