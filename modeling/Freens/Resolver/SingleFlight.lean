/-
**LEADERS, FOLLOWERS AND REAPED FLIGHTS** (`resolver/resolver.go`: `resolveShared`,
`reapCorpseFlight`; `cache.go`: `putAnswer`).

Callers of one question share a flight. A follower whose context ends takes the
flight out of the table, so that the next caller leads a new one beside the old
leader. What the code does under a lock or on a channel is one step; a step that is
not enabled leaves the state as it is. The warning at saturation is left out.
-/
import Freens.Resolver.PoolAssignment
import Freens.Resolver.Refresh

namespace Freens.Resolver

open Library Naming

/-! ## The machine -/

/-- The two semaphores. -/
inductive Pool where
  /-- `resSem` -/
  | walk
  /-- `fwdSem` -/
  | forward
  deriving DecidableEq, Repr

/-- `MaxConcurrentResolutions` and `MaxConcurrentForwards`. -/
structure Limits where
  resolutions : Int
  forwards : Int

/-- The capacity of a semaphore; there is none for a negative limit. -/
def poolCapacity (limit : Int) (default : Nat) : Option Nat :=
  if limit < 0 then none
  else if limit = 0 then some default
  else some limit.toNat

abbrev defaultForwardConcurrency : Nat := 256

/-- The capacity of a pool, none when unlimited. -/
def Limits.capacity (limits : Limits) : Pool → Option Nat
  | .walk => poolCapacity limits.resolutions 64
  | .forward => poolCapacity limits.forwards defaultForwardConcurrency

/-- Where a leader stands. -/
inductive Stage where
  /-- in `ResolveQuestion` -/
  | resolving
  /-- the fields of the flight are set -/
  | resolved
  /-- the outcome is put, or the resolution panicked -/
  | leaving
  /-- the slot is given back -/
  | released
  /-- the flight is out of the table -/
  | removed
  /-- `done` is closed -/
  | closed
  deriving DecidableEq, Repr

/-- The slot is held. -/
def Stage.holding : Stage → Bool
  | .resolving | .resolved | .leaving => true
  | _ => false

/-- The cache is not written yet. -/
def Stage.unstored : Stage → Bool
  | .resolving | .resolved => true
  | _ => false

/-- `resFlight`, with its leader. -/
structure Flight where
  key : CacheKey
  /-- The semaphore the leader sent to; nil when it has no limit. -/
  slot : Option Pool
  stage : Stage
  /-- What the leader returns; nothing when it panicked. -/
  result : Option Outcome
  deriving DecidableEq

/-- The flight holds a slot of `p`. -/
def Flight.holds (p : Pool) (f : Flight) : Bool := f.slot = some p && f.stage.holding

/-- The fields of a flight before they are set. -/
def zeroOutcome : Outcome := ⟨⟨[], rcodeSuccess, false⟩, false⟩

/-- What followers read: zero before it is set. -/
def Flight.outcome (f : Flight) : Outcome := f.result.getD zeroOutcome

/-- Where a follower stands. -/
inductive FollowerState where
  | waiting
  | returned (outcome : Outcome)
  /-- `errFlightStale` -/
  | timedOut
  deriving DecidableEq

/-- A caller that waits on a flight. -/
structure Follower where
  key : CacheKey
  flight : Nat
  state : FollowerState
  deriving DecidableEq

/-- A put that stored something: whose it was, and the stamp it got. -/
structure StoredPut where
  key : CacheKey
  leader : Nat
  stamp : Nat
  deriving DecidableEq

/-- The resolver as `resolveShared` sees it; flights in the order of their leaders. -/
structure FlightState where
  flights : List Flight
  /-- `r.flights` -/
  table : Table CacheKey Nat
  occupied : Pool → Nat
  followers : List Follower
  cache : Option ResponseCache
  stored : List StoredPut

/-- Nothing in flight. -/
def FlightState.initial (cache : Option ResponseCache) : FlightState :=
  { flights := [], table := ∅, occupied := fun _ => 0, followers := [], cache, stored := [] }

/-- What can happen next. -/
inductive FlightEvent where
  /-- A call up to the point where it waits, resolves or is refused. -/
  | call (q : ClassedQuestion)
  | resolve (leader : Nat) (outcome : Outcome)
  | panic (leader : Nat)
  | put (leader : Nat) (now : Int)
  | release (leader : Nat)
  | remove (leader : Nat)
  | close (leader : Nat)
  /-- A follower finds `done` closed. -/
  | wake (follower : Nat)
  /-- A follower's context ends. -/
  | expire (follower : Nat)
  | read (key : CacheKey) (now : Int)

/-- The leader of flight `i`, if it is at the stage. -/
def FlightState.leaderAt (s : FlightState) (i : Nat) (stage : Stage) : Option Flight :=
  s.flights[i]?.filter (fun f => f.stage = stage)

/-- The `n`-th follower, if it waits. -/
def FlightState.waiting (s : FlightState) (n : Nat) : Option Follower :=
  s.followers[n]?.filter (fun w => w.state = .waiting)

/-- A flight replaced. -/
def FlightState.setFlight (s : FlightState) (i : Nat) (f : Flight) : FlightState :=
  { s with flights := s.flights.set i f }

/-- The flight leaves the table, when it is still the one in it. -/
def FlightState.dropFlight (s : FlightState) (key : CacheKey) (i : Nat) : FlightState :=
  if s.table.lookup key = some i then { s with table := s.table.erase key } else s

/-- A new flight, registered under its key. -/
def FlightState.install (s : FlightState) (key : CacheKey) (slot : Option Pool) : FlightState :=
  { s with
    flights := s.flights ++ [{ key, slot, stage := .resolving, result := none }]
    table := s.table.insert key s.flights.length
    occupied := fun p => if slot = some p then s.occupied p + 1 else s.occupied p }

/-- The leader's path into the flight: without a slot the call is refused. -/
def FlightState.lead (s : FlightState) (limits : Limits) (key : CacheKey) (p : Pool) :
    FlightState :=
  match limits.capacity p with
  | none => s.install key none
  | some n => if s.occupied p < n then s.install key (some p) else s

/-- `resolveShared` up to the flight. -/
def FlightState.call (P : Primitives) (r : RoutingResolver) (limits : Limits) (s : FlightState)
    (q : ClassedQuestion) : FlightState :=
  let key := cacheKeyFor P q
  match s.table.lookup key with
  | some i => { s with followers := s.followers ++ [⟨key, i, .waiting⟩] }
  | none => s.lead limits key (if canWalkFreens P r q then .walk else .forward)

/-- `r.Cache.putAnswer`; a put that stores something is written down. -/
def FlightState.putOutcome (s : FlightState) (i : Nat) (key : CacheKey) (o : Outcome)
    (now : Int) : FlightState :=
  match s.cache with
  | none => s
  | some c =>
    { s with
      cache := some (putAnswer c key o.rrs o.rcode o.aa now)
      stored := if entryFor o.rrs o.rcode o.aa now = none then s.stored
        else s.stored ++ [⟨key, i, c.nextStamp + 1⟩] }

/-- One receive from the semaphore; it would wait on an empty one. -/
def FlightState.releaseSlot (s : FlightState) (i : Nat) (f : Flight) : FlightState :=
  match f.slot with
  | none => s.setFlight i { f with stage := .released }
  | some p =>
    if s.occupied p = 0 then s
    else
      { s.setFlight i { f with stage := .released } with
        occupied := fun p' => if p' = p then s.occupied p' - 1 else s.occupied p' }

section
variable (P : Primitives) (r : RoutingResolver) (limits : Limits)

/-- **One step of one caller.** -/
def flightStep (s : FlightState) : FlightEvent → FlightState
  | .call q => s.call P r limits q
  | .resolve i o =>
    match s.leaderAt i .resolving with
    | none => s
    | some f => s.setFlight i { f with stage := .resolved, result := some o }
  | .panic i =>
    match s.leaderAt i .resolving with
    | none => s
    | some f => s.setFlight i { f with stage := .leaving }
  | .put i now =>
    match s.leaderAt i .resolved with
    | none => s
    | some f => (s.putOutcome i f.key f.outcome now).setFlight i { f with stage := .leaving }
  | .release i =>
    match s.leaderAt i .leaving with
    | none => s
    | some f => s.releaseSlot i f
  | .remove i =>
    match s.leaderAt i .released with
    | none => s
    | some f => (s.dropFlight f.key i).setFlight i { f with stage := .removed }
  | .close i =>
    match s.leaderAt i .removed with
    | none => s
    | some f => s.setFlight i { f with stage := .closed }
  | .wake n =>
    match s.waiting n with
    | none => s
    | some w =>
      match s.leaderAt w.flight .closed with
      | none => s
      | some f => { s with followers := s.followers.set n { w with state := .returned f.outcome } }
  | .expire n =>
    match s.waiting n with
    | none => s
    | some w =>
      { s.dropFlight w.key w.flight with
        followers := s.followers.set n { w with state := .timedOut } }
  | .read key now => { s with cache := s.cache.map (fun c => (get2 c key now).2) }

end

/-! ## What one step can do -/

/-- The leader moves on with its flight as it was, and keeps its slot. -/
structure Flight.Next (f f' : Flight) : Prop where
  key : f'.key = f.key
  slot : f'.slot = f.slot
  running : f.stage ≠ .closed
  unstored : f'.stage.unstored = true → f.stage.unstored = true
  holding : f'.stage.holding = f.stage.holding

/-- **What a step can do**, with what it found. -/
inductive Acts (P : Primitives) (limits : Limits) : FlightState → FlightEvent → FlightState → Prop
  | idle {s : FlightState} {a : FlightEvent} : Acts P limits s a s
  | lead {s : FlightState} {q : ClassedQuestion} {slot : Option Pool}
      (hfree : s.table.lookup (cacheKeyFor P q) = none)
      (hslot : ∀ p, slot = some p → ∃ n, limits.capacity p = some n ∧ s.occupied p < n) :
      Acts P limits s (.call q) (s.install (cacheKeyFor P q) slot)
  | join {s : FlightState} {q : ClassedQuestion} {i : Nat} :
      Acts P limits s (.call q)
        { s with followers := s.followers ++ [⟨cacheKeyFor P q, i, .waiting⟩] }
  | advance {s : FlightState} {a : FlightEvent} {i : Nat} {f f' : Flight}
      (hf : s.flights[i]? = some f) (hnext : f.Next f') :
      Acts P limits s a (s.setFlight i f')
  | put {s : FlightState} {i : Nat} {f : Flight} {now : Int} (hf : s.flights[i]? = some f)
      (hstage : f.stage = .resolved) :
      Acts P limits s (.put i now)
        ((s.putOutcome i f.key f.outcome now).setFlight i { f with stage := .leaving })
  | release {s : FlightState} {i : Nat} {f : Flight} (hf : s.flights[i]? = some f)
      (hstage : f.stage = .leaving) (hslot : ∀ p, f.slot = some p → s.occupied p ≠ 0) :
      Acts P limits s (.release i)
        { s.setFlight i { f with stage := .released } with
          occupied := fun p => if f.slot = some p then s.occupied p - 1 else s.occupied p }
  | remove {s : FlightState} {i : Nat} {f : Flight} (hf : s.flights[i]? = some f)
      (hstage : f.stage = .released) :
      Acts P limits s (.remove i)
        ((s.dropFlight f.key i).setFlight i { f with stage := .removed })
  | wake {s : FlightState} {n : Nat} {w : Follower} {f : Flight}
      (hf : s.flights[w.flight]? = some f) (hstage : f.stage = .closed) :
      Acts P limits s (.wake n)
        { s with followers := s.followers.set n { w with state := .returned f.outcome } }
  | expire {s : FlightState} {n : Nat} {w : Follower} (hw : s.waiting n = some w) :
      Acts P limits s (.expire n)
        { s.dropFlight w.key w.flight with
          followers := s.followers.set n { w with state := .timedOut } }
  | read {s : FlightState} {key : CacheKey} {now : Int} :
      Acts P limits s (.read key now) { s with cache := s.cache.map (fun c => (get2 c key now).2) }

variable {f : Flight} {flights : List Flight}

theorem leaderAt_eq_some {s : FlightState} {i : Nat} {stage : Stage} :
    s.leaderAt i stage = some f ↔ s.flights[i]? = some f ∧ f.stage = stage := by
  rw [FlightState.leaderAt, Option.filter_eq_some_iff, decide_eq_true_eq]

variable {P : Primitives} {r : RoutingResolver} {limits : Limits} {s s' : FlightState}
  {a : FlightEvent} {p : Pool} {slot : Option Pool} {g : Flight} {j : Nat}

theorem lead_acts {q : ClassedQuestion} (hfree : s.table.lookup (cacheKeyFor P q) = none) :
    Acts P limits s (.call q) (s.lead limits (cacheKeyFor P q) p) := by
  unfold FlightState.lead
  cases hcap : limits.capacity p with
  | none =>
    refine Acts.lead hfree ?_
    intro p' hp'
    cases hp'
  | some n =>
    dsimp only
    split
    next hroom =>
      refine Acts.lead hfree ?_
      intro p' hp'
      cases hp'
      exact ⟨n, hcap, hroom⟩
    next => exact Acts.idle

theorem releaseSlot_acts {i : Nat} (hf : s.flights[i]? = some f)
    (hstage : f.stage = .leaving) : Acts P limits s (.release i) (s.releaseSlot i f) := by
  unfold FlightState.releaseSlot
  cases hslot : f.slot with
  | none =>
    have hacts := @Acts.release P limits s i f hf hstage (by simp [hslot])
    simp only [hslot, reduceCtorEq, if_false] at hacts
    exact hacts
  | some p =>
    dsimp only
    split
    next => exact Acts.idle
    next hpos =>
      have hnonempty : ∀ p', f.slot = some p' → s.occupied p' ≠ 0 := by
        intro p' hp'
        rw [hslot, Option.some.injEq] at hp'
        rwa [← hp']
      have hacts := @Acts.release P limits s i f hf hstage hnonempty
      simpa [hslot, eq_comm] using hacts

theorem advance_acts {i : Nat} {stage : Stage} {f' : Flight} (hf : s.leaderAt i stage = some f)
    (hnext : f.stage = stage → f.Next f') : Acts P limits s a (s.setFlight i f') :=
  (leaderAt_eq_some.mp hf).elim fun hf hstage => Acts.advance hf (hnext hstage)

theorem flightStep_acts (s : FlightState) (a : FlightEvent) :
    Acts P limits s a (flightStep P r limits s a) := by
  cases a with
  | call q =>
    show Acts P limits s (.call q) (s.call P r limits q)
    unfold FlightState.call
    dsimp only
    cases hopen : s.table.lookup (cacheKeyFor P q) with
    | none => exact lead_acts hopen
    | some i => exact Acts.join
  | resolve i o | panic i | close i =>
    rw [flightStep]
    split
    next => exact Acts.idle
    next hf =>
      refine advance_acts hf fun hstage => ?_
      exact ⟨rfl, rfl, by simp [hstage], by simp [hstage, Stage.unstored],
        by simp [hstage, Stage.holding]⟩
  | put i now =>
    rw [flightStep]
    split
    next => exact Acts.idle
    next hf => exact (leaderAt_eq_some.mp hf).elim Acts.put
  | release i =>
    rw [flightStep]
    split
    next => exact Acts.idle
    next hf => exact (leaderAt_eq_some.mp hf).elim releaseSlot_acts
  | remove i =>
    rw [flightStep]
    split
    next => exact Acts.idle
    next hf => exact (leaderAt_eq_some.mp hf).elim Acts.remove
  | wake n =>
    rw [flightStep]
    cases s.waiting n with
    | none => exact Acts.idle
    | some w =>
      dsimp only
      split
      next => exact Acts.idle
      next hf => exact (leaderAt_eq_some.mp hf).elim Acts.wake
  | expire n =>
    rw [flightStep]
    cases hw : s.waiting n with
    | none => exact Acts.idle
    | some w => exact Acts.expire hw
  | read key now => exact Acts.read

/-! The fields a helper leaves alone. -/

theorem dropFlight_eq (key : CacheKey) (i : Nat) : s.dropFlight key i =
    { s with table := if s.table.lookup key = some i then s.table.erase key else s.table } := by
  unfold FlightState.dropFlight
  split <;> rfl

theorem putOutcome_eq (i : Nat) (key : CacheKey) (o : Outcome) (now : Int) :
    s.putOutcome i key o now =
      { s with
        cache := (s.putOutcome i key o now).cache
        stored := (s.putOutcome i key o now).stored } := by
  unfold FlightState.putOutcome
  split <;> rfl

/-! ## Slots -/

/-- **Slots**: as many occupied as leaders hold, never more than there are. -/
def SlotsExact (limits : Limits) (s : FlightState) : Prop :=
  ∀ p, s.occupied p = s.flights.countP (Flight.holds p) ∧
    ∀ n, limits.capacity p = some n → s.occupied p ≤ n

theorem countP_set_add {p : Flight → Bool} {flights : List Flight} {i : Nat} {f f' : Flight}
    (hf : flights[i]? = some f) :
    (flights.set i f').countP p + (if p f then 1 else 0) =
      flights.countP p + (if p f' then 1 else 0) := by
  obtain ⟨hi, hget⟩ := List.getElem?_eq_some_iff.mp hf
  have hset := @List.countP_set Flight p flights i f' hi
  rw [hget] at hset
  -- the old flight is counted, so nothing is cut off
  have hcounted : (if p f then 1 else 0) ≤ flights.countP p := by
    split
    next hp => exact List.countP_pos_iff.mpr ⟨f, List.mem_of_getElem? hf, hp⟩
    next => exact Nat.zero_le _
  omega

theorem countP_set_same {i : Nat} {f' : Flight} (hf : flights[i]? = some f)
    (hslot : f'.slot = f.slot) (hholding : f'.stage.holding = f.stage.holding) :
    (flights.set i f').countP (Flight.holds p) = flights.countP (Flight.holds p) := by
  have hsame : f'.holds p = f.holds p := by
    rw [Flight.holds, Flight.holds, hslot, hholding]
  have hadd := @countP_set_add (Flight.holds p) flights i f f' hf
  rw [hsame] at hadd
  omega

section
variable (h : SlotsExact limits s)
include h

theorem SlotsExact.frame (hoccupied : s'.occupied = s.occupied)
    (hholders : ∀ p, s'.flights.countP (Flight.holds p) = s.flights.countP (Flight.holds p)) :
    SlotsExact limits s' := by
  intro p
  rw [hoccupied, hholders]
  exact h p

theorem SlotsExact.install {key : CacheKey}
    (hslot : ∀ p, slot = some p → ∃ n, limits.capacity p = some n ∧ s.occupied p < n) :
    SlotsExact limits (s.install key slot) := by
  intro p
  obtain ⟨hcount, hcap⟩ := h p
  show (if slot = some p then s.occupied p + 1 else s.occupied p) =
      (s.flights ++ [_]).countP (Flight.holds p) ∧
    ∀ n, _ → (if slot = some p then s.occupied p + 1 else s.occupied p) ≤ n
  rw [List.countP_append, List.countP_singleton]
  by_cases hp : slot = some p
  · have hholds : Flight.holds p ⟨key, slot, .resolving, none⟩ = true := by
      simp [Flight.holds, hp, Stage.holding]
    rw [if_pos hp, if_pos hholds, hcount]
    refine ⟨rfl, ?_⟩
    intro n hn
    obtain ⟨n', hn', hroom⟩ := hslot p hp
    rw [hn, Option.some.injEq] at hn'
    omega
  · have hholds : ¬ Flight.holds p ⟨key, slot, .resolving, none⟩ = true := by
      simp [Flight.holds, hp]
    rw [if_neg hp, if_neg hholds, hcount]
    refine ⟨rfl, ?_⟩
    intro n hn
    have hle := hcap n hn
    omega

theorem SlotsExact.release {i : Nat} {f : Flight}
    (hf : s.flights[i]? = some f) (hstage : f.stage = .leaving)
    (hslot : ∀ p, f.slot = some p → s.occupied p ≠ 0) :
    SlotsExact limits
      { s.setFlight i { f with stage := .released } with
        occupied := fun p => if f.slot = some p then s.occupied p - 1 else s.occupied p } := by
  intro p
  obtain ⟨hcount, hcap⟩ := h p
  show (if f.slot = some p then s.occupied p - 1 else s.occupied p) =
      (s.flights.set i _).countP (Flight.holds p) ∧
    ∀ n, _ → (if f.slot = some p then s.occupied p - 1 else s.occupied p) ≤ n
  have hadd := @countP_set_add (Flight.holds p) s.flights i f { f with stage := .released } hf
  have hafter : ¬ Flight.holds p { f with stage := .released } = true := by
    simp [Flight.holds, Stage.holding]
  rw [if_neg hafter] at hadd
  by_cases hp : f.slot = some p
  · have hbefore : Flight.holds p f = true := by
      simp [Flight.holds, hp, hstage, Stage.holding]
    have hpos := hslot p hp
    rw [if_pos hbefore] at hadd
    rw [if_pos hp]
    refine ⟨by omega, ?_⟩
    intro n hn
    have hle := hcap n hn
    omega
  · have hbefore : ¬ Flight.holds p f = true := by
      simp [Flight.holds, hp]
    rw [if_neg hbefore] at hadd
    rw [if_neg hp]
    exact ⟨by omega, hcap⟩

theorem SlotsExact.step (hacts : Acts P limits s a s') :
    SlotsExact limits s' := by
  cases hacts with
  | idle => exact h
  | lead hfree hslot => exact h.install hslot
  | join => exact h
  | advance hf hnext =>
    exact h.frame rfl (fun p => countP_set_same hf hnext.slot hnext.holding)
  | put hf hstage =>
    rw [putOutcome_eq]
    exact h.frame rfl (fun p => countP_set_same hf rfl (by rw [hstage]; rfl))
  | release hf hstage hslot => exact h.release hf hstage hslot
  | remove hf hstage =>
    rw [dropFlight_eq]
    exact h.frame rfl (fun p => countP_set_same hf rfl (by rw [hstage]; rfl))
  | wake => exact h
  | expire =>
    rw [dropFlight_eq]
    exact h
  | read => exact h

end

/-! ## Followers -/

/-- **Followers**: one that did not time out has its leader's result, or unset fields after
a panic. -/
def FollowersShare (s : FlightState) : Prop :=
  ∀ w ∈ s.followers, ∀ o, w.state = .returned o →
    ∃ f, s.flights[w.flight]? = some f ∧ f.stage = .closed ∧
      (f.result = some o ∨ (f.result = none ∧ o = zeroOutcome))

section
variable (hacts : Acts P limits s a s')
include hacts

/-- **What a step does to the flights**: nothing, one starts, or a leader moves on under its key. -/
theorem Acts.moves :
    s'.flights = s.flights ∨ (∃ g, s'.flights = s.flights ++ [g]) ∨
      ∃ (j : Nat) (g g' : Flight), s.flights[j]? = some g ∧ g.stage ≠ .closed ∧
        s'.flights = s.flights.set j g' ∧ g'.key = g.key := by
  cases hacts with
  | idle => exact .inl rfl
  | lead => exact .inr (.inl ⟨_, rfl⟩)
  | join => exact .inl rfl
  | advance hg hnext => exact .inr (.inr ⟨_, _, _, hg, hnext.running, rfl, hnext.key⟩)
  | put hg hstage =>
    rw [putOutcome_eq]
    exact .inr (.inr ⟨_, _, _, hg, by simp [hstage], rfl, rfl⟩)
  | release hg hstage _ => exact .inr (.inr ⟨_, _, _, hg, by simp [hstage], rfl, rfl⟩)
  | remove hg hstage =>
    rw [dropFlight_eq]
    exact .inr (.inr ⟨_, _, _, hg, by simp [hstage], rfl, rfl⟩)
  | wake => exact .inl rfl
  | expire =>
    rw [dropFlight_eq]
    exact .inl rfl
  | read => exact .inl rfl

theorem Acts.closed {i : Nat} (hf : s.flights[i]? = some f)
    (hclosed : f.stage = .closed) : s'.flights[i]? = some f := by
  obtain ⟨hi, _⟩ := List.getElem?_eq_some_iff.mp hf
  rcases hacts.moves with h | ⟨g, h⟩ | ⟨j, g, g', hg, hrunning, h, _⟩
  · rwa [h]
  · rwa [h, List.getElem?_append_left hi]
  · -- the leader that moves is another one
    have hne : j ≠ i := by
      intro heq
      rw [heq, hf, Option.some.injEq] at hg
      exact hrunning (hg ▸ hclosed)
    rwa [h, List.getElem?_set_ne hne]

theorem Acts.follower {w : Follower} (hw : w ∈ s'.followers) :
    w ∈ s.followers ∨ (∀ o, w.state ≠ .returned o) ∨
      ∃ f, s.flights[w.flight]? = some f ∧ f.stage = .closed ∧ w.state = .returned f.outcome := by
  cases hacts with
  | idle | lead => exact .inl hw
  | join =>
    rcases List.mem_append.mp hw with hold | hnew
    · exact .inl hold
    · rw [List.mem_singleton.mp hnew]
      exact .inr (.inl (by simp))
  | advance => exact .inl hw
  | put =>
    rw [putOutcome_eq] at hw
    exact .inl hw
  | release => exact .inl hw
  | remove =>
    rw [dropFlight_eq] at hw
    exact .inl hw
  | @wake n v f hf hstage =>
    rcases List.mem_or_eq_of_mem_set hw with hold | hnew
    · exact .inl hold
    · subst hnew
      exact .inr (.inr ⟨f, hf, hstage, rfl⟩)
  | expire =>
    rcases List.mem_or_eq_of_mem_set hw with hold | hnew
    · exact .inl hold
    · rw [hnew]
      exact .inr (.inl (by simp))
  | read => exact .inl hw

end

theorem FollowersShare.step (h : FollowersShare s) (hacts : Acts P limits s a s') :
    FollowersShare s' := by
  intro w hw o ho
  rcases hacts.follower hw with hold | hnot | ⟨f, hf, hclosed, hstate⟩
  · obtain ⟨f, hf, hclosed, hresult⟩ := h w hold o ho
    exact ⟨f, hacts.closed hf hclosed, hclosed, hresult⟩
  · exact absurd ho (hnot o)
  · refine ⟨f, hacts.closed hf hclosed, hclosed, ?_⟩
    rw [hstate, FollowerState.returned.injEq] at ho
    subst ho
    unfold Flight.outcome
    cases f.result with
    | none => exact .inr ⟨rfl, rfl⟩
    | some o => exact .inl rfl

/-! ## The order of the puts -/

/-- The cache holds what flight `i` stored. -/
def Holding (s : FlightState) (key : CacheKey) (i : Nat) : Prop :=
  ∃ c ∈ s.cache, ∃ e, c.entries.lookup key = some e ∧ ⟨key, i, e.stamp⟩ ∈ s.stored

/-- **The newest outcome is kept**: the cache holds no outcome of a leader older than one
already stored. -/
def NewestKept (s : FlightState) : Prop :=
  ∀ key i, Holding s key i → ∀ x ∈ s.stored, x.key = key → x.leader ≤ i

/-- A follower times out when its flight is out of the table, or stored. -/
def LeaderStored (s : FlightState) : FlightEvent → Prop
  | .expire n => ∀ w, s.waiting n = some w → s.table.lookup w.key = some w.flight →
      ∀ f : Flight, s.flights[w.flight]? = some f → f.stage.unstored = false
  | _ => True

/-- A leader that has not put its outcome is in the table, and the last one of
its key. -/
structure Installed (s : FlightState) : Prop where
  table : ∀ (i : Nat) (f : Flight), s.flights[i]? = some f → f.stage.unstored = true →
    s.table.lookup f.key = some i
  newest : ∀ (i : Nat) (f : Flight) (j : Nat) (g : Flight), s.flights[i]? = some f →
    f.stage.unstored = true → s.flights[j]? = some g → g.key = f.key → j ≤ i

/-- What was stored: by leaders of the key, in their order, and the cache holds
nothing older. -/
structure Ordered (s : FlightState) : Prop where
  leaders : ∀ x ∈ s.stored, ∃ g, s.flights[x.leader]? = some g ∧ g.key = x.key
  order : ∀ x ∈ s.stored, ∀ y ∈ s.stored, x.key = y.key → x.stamp ≤ y.stamp →
    x.leader ≤ y.leader
  stamps : ∀ c ∈ s.cache, ∀ x ∈ s.stored, x.stamp ≤ c.nextStamp
  held : ∀ c ∈ s.cache, ∀ k e, c.entries.lookup k = some e → ∀ x ∈ s.stored, x.key = k →
    x.stamp ≤ e.stamp

theorem Ordered.newestKept (h : Ordered s) : NewestKept s := by
  intro key i hholding x hx hkey
  obtain ⟨c, hc, e, he, hmem⟩ := hholding
  exact h.order x hx _ hmem hkey (h.held c hc key e he x hx hkey)

/-! ### Leaders in the table. -/

theorem getElem?_set_cases {i : Nat}
    (h : (flights.set i f)[j]? = some g) : (j = i ∧ g = f) ∨ flights[j]? = some g := by
  rw [List.getElem?_set] at h
  split at h
  next heq =>
    split at h
    next =>
      rw [Option.some.injEq] at h
      exact .inl ⟨heq.symm, h.symm⟩
    next => cases h
  next => exact .inr h

theorem getElem?_concat_cases (h : (flights ++ [f])[j]? = some g) :
    (j = flights.length ∧ g = f) ∨ (j < flights.length ∧ flights[j]? = some g) := by
  rw [List.getElem?_append] at h
  split at h
  next hlt => exact .inr ⟨hlt, h⟩
  next hge =>
    obtain ⟨hzero, hg⟩ := List.getElem?_eq_some_iff.mp h
    rw [List.length_singleton] at hzero
    have hindex : j - flights.length = 0 := by omega
    simp only [hindex, List.getElem_cons_zero] at hg
    exact .inl ⟨by omega, hg.symm⟩

theorem Installed.set (h : Installed s) {i : Nat} (f' : Flight) (hf : s.flights[i]? = some f)
    (hkey : f'.key = f.key) (hunstored : f'.stage.unstored = true → f.stage.unstored = true)
    (hflights : s'.flights = s.flights.set i f')
    (htable : ∀ (j : Nat) (g : Flight), s.flights[j]? = some g → g.stage.unstored = true →
      s'.table.lookup g.key = some j) : Installed s' := by
  have hold : ∀ {j : Nat} {g : Flight}, s'.flights[j]? = some g →
      ∃ g₀, s.flights[j]? = some g₀ ∧ g₀.key = g.key ∧
        (g.stage.unstored = true → g₀.stage.unstored = true) := by
    intro j g hg
    rw [hflights] at hg
    rcases getElem?_set_cases hg with ⟨rfl, rfl⟩ | hg
    · exact ⟨f, hf, hkey.symm, hunstored⟩
    · exact ⟨g, hg, rfl, id⟩
  constructor
  · intro j g hg hu
    obtain ⟨g₀, hg₀, hkey₀, hback⟩ := hold hg
    rw [← hkey₀]
    exact htable j g₀ hg₀ (hback hu)
  · intro j g k g' hg hu hg' hkeys
    obtain ⟨g₀, hg₀, hkey₀, hback⟩ := hold hg
    obtain ⟨g₁, hg₁, hkey₁, _⟩ := hold hg'
    exact h.newest j g₀ k g₁ hg₀ (hback hu) hg₁ (by rw [hkey₀, hkey₁, hkeys])

theorem Installed.dropFlight (h : Installed s) {key : CacheKey} {i : Nat}
    (hstored : s.table.lookup key = some i → ∀ f : Flight, s.flights[i]? = some f →
      f.stage.unstored = false) :
    ∀ (j : Nat) (g : Flight), s.flights[j]? = some g → g.stage.unstored = true →
      (s.dropFlight key i).table.lookup g.key = some j := by
  intro j g hg hu
  have hentry := h.table j g hg hu
  unfold FlightState.dropFlight
  split
  next hown =>
    have hne : g.key ≠ key := by
      intro heq
      rw [heq, hown, Option.some.injEq] at hentry
      subst hentry
      rw [hstored hown g hg] at hu
      cases hu
    show (s.table.erase key).lookup g.key = some j
    rw [AList.lookup_erase_ne hne]
    exact hentry
  next => exact hentry

theorem Installed.install (h : Installed s) {key : CacheKey}
    (hfree : s.table.lookup key = none) : Installed (s.install key slot) := by
  -- every leader of the key has put its outcome, or it would be in the table
  have hnone : ∀ (i : Nat) (f : Flight), s.flights[i]? = some f → f.stage.unstored = true →
      f.key ≠ key := by
    intro i f hf hu heq
    have hentry := h.table i f hf hu
    rw [heq, hfree] at hentry
    cases hentry
  constructor
  · intro i f hf hu
    show (s.table.insert key s.flights.length).lookup f.key = some i
    rcases getElem?_concat_cases hf with ⟨rfl, rfl⟩ | ⟨_, hold⟩
    · exact AList.lookup_insert _
    · rw [AList.lookup_insert_ne (hnone i f hold hu)]
      exact h.table i f hold hu
  · intro i f j g hf hu hg hkeys
    rcases getElem?_concat_cases hf with ⟨rfl, rfl⟩ | ⟨_, hold⟩
    · rcases getElem?_concat_cases hg with ⟨rfl, _⟩ | ⟨hlt, _⟩
      · exact Nat.le_refl _
      · omega
    · rcases getElem?_concat_cases hg with ⟨_, rfl⟩ | ⟨_, hold'⟩
      · exact absurd hkeys.symm (hnone i f hold hu)
      · exact h.newest i f j g hold hu hold' hkeys

theorem Installed.step (h : Installed s) (hacts : Acts P limits s a s')
    (hok : LeaderStored s a) : Installed s' := by
  cases hacts with
  | idle => exact h
  | lead hfree hslot => exact h.install hfree
  | join => exact ⟨h.table, h.newest⟩
  | advance hf hnext =>
    exact h.set _ hf hnext.key hnext.unstored rfl h.table
  | @put i f now hf hstage =>
    rw [putOutcome_eq]
    exact h.set { f with stage := .leaving } hf rfl (by simp [Stage.unstored]) rfl h.table
  | @release i f hf hstage _ =>
    exact h.set { f with stage := .released } hf rfl (by simp [Stage.unstored]) rfl h.table
  | @remove i f hf hstage =>
    have hstored : s.table.lookup f.key = some i → ∀ g : Flight, s.flights[i]? = some g →
        g.stage.unstored = false := by
      intro _ g hg
      rw [hf, Option.some.injEq] at hg
      rw [← hg, hstage]
      rfl
    have hkept := h.dropFlight hstored
    rw [dropFlight_eq] at hkept ⊢
    exact h.set { f with stage := .removed } hf rfl (by simp [Stage.unstored]) rfl hkept
  | wake => exact ⟨h.table, h.newest⟩
  | @expire n w hw =>
    have hkept := h.dropFlight (hok w hw)
    rw [dropFlight_eq] at hkept ⊢
    exact ⟨hkept, h.newest⟩
  | read => exact ⟨h.table, h.newest⟩

/-! ### Puts in order. -/

theorem Acts.key (hacts : Acts P limits s a s') {i : Nat}
    (hf : s.flights[i]? = some f) : ∃ f', s'.flights[i]? = some f' ∧ f'.key = f.key := by
  obtain ⟨hi, _⟩ := List.getElem?_eq_some_iff.mp hf
  rcases hacts.moves with h | ⟨g, h⟩ | ⟨j, g, g', hg, _, h, hkey⟩
  · exact ⟨f, by rwa [h], rfl⟩
  · exact ⟨f, by rwa [h, List.getElem?_append_left hi], rfl⟩
  · rw [h]
    by_cases hj : j = i
    · subst hj
      rw [hf, Option.some.injEq] at hg
      exact ⟨g', List.getElem?_set_self hi, by rw [hkey, hg]⟩
    · exact ⟨f, by rwa [List.getElem?_set_ne hj], rfl⟩

theorem Ordered.frame (h : Ordered s) (hkeys : ∀ (i : Nat) (f : Flight), s.flights[i]? = some f →
      ∃ f', s'.flights[i]? = some f' ∧ f'.key = f.key)
    (hstored : s'.stored = s.stored) (hcache : s'.cache = s.cache) : Ordered s' := by
  constructor
  · intro x hx
    rw [hstored] at hx
    obtain ⟨g, hg, hkey⟩ := h.leaders x hx
    obtain ⟨g', hg', hkey'⟩ := hkeys x.leader g hg
    exact ⟨g', hg', hkey'.trans hkey⟩
  · rw [hstored]
    exact h.order
  · rw [hstored, hcache]
    exact h.stamps
  · rw [hstored, hcache]
    exact h.held

theorem Ordered.store (h : Ordered s) {c : ResponseCache} (hc : c ∈ s.cache) {i : Nat}
    {key : CacheKey} {e : CacheEntry} {now : Int}
    (hlast : ∀ x ∈ s.stored, x.key = key → x.leader ≤ i)
    (hleader : ∃ g, s.flights[i]? = some g ∧ g.key = key) :
    Ordered { s with
      cache := some (storeEntry c key e now)
      stored := s.stored ++ [⟨key, i, c.nextStamp + 1⟩] } := by
  -- the new stamp is above all others
  have hstamps : ∀ x ∈ s.stored ++ [⟨key, i, c.nextStamp + 1⟩], x.stamp ≤ c.nextStamp + 1 := by
    intro x hx
    rcases List.mem_append.mp hx with hold | hnew
    · have hle := h.stamps c hc x hold
      omega
    · rw [List.mem_singleton.mp hnew]
  constructor
  · intro x hx
    rcases List.mem_append.mp hx with hold | hnew
    · exact h.leaders x hold
    · rw [List.mem_singleton.mp hnew]
      exact hleader
  · intro x hx y hy hkeys hle
    rcases List.mem_append.mp hx with hold | hnew
    · rcases List.mem_append.mp hy with hold' | hnew'
      · exact h.order x hold y hold' hkeys hle
      · rw [List.mem_singleton.mp hnew'] at hkeys ⊢
        exact hlast x hold hkeys
    · rcases List.mem_append.mp hy with hold' | hnew'
      · have hbound := h.stamps c hc y hold'
        rw [List.mem_singleton.mp hnew] at hle
        change c.nextStamp + 1 ≤ y.stamp at hle
        omega
      · rw [List.mem_singleton.mp hnew, List.mem_singleton.mp hnew']
  · intro c' hc' x hx
    cases hc'
    rw [storeEntry_nextStamp]
    exact hstamps x hx
  · intro c' hc' k e' he' x hx hk
    cases hc'
    by_cases hkey : k = key
    · subst hkey
      obtain ⟨lastHit, hself⟩ := storeEntry_lookup_self c k e now
      rw [hself, Option.some.injEq] at he'
      subst he'
      exact hstamps x hx
    · rcases List.mem_append.mp hx with hold | hnew
      · exact h.held c hc k e' (lookup_of_storeEntry_ne hkey he') x hold hk
      · rw [List.mem_singleton.mp hnew] at hk
        exact absurd hk.symm hkey

theorem Ordered.putOutcome (h : Ordered s) {i : Nat} {key : CacheKey} {o : Outcome} {now : Int}
    (hlast : ∀ x ∈ s.stored, x.key = key → x.leader ≤ i)
    (hleader : ∃ g, s.flights[i]? = some g ∧ g.key = key) : Ordered (s.putOutcome i key o now) := by
  unfold FlightState.putOutcome
  cases hcache : s.cache with
  | none => exact h
  | some c =>
    dsimp only
    cases hentry : entryFor o.rrs o.rcode o.aa now with
    | none =>
      rw [putAnswer_of_none hentry, if_pos rfl]
      exact ⟨h.leaders, h.order, by rw [← hcache]; exact h.stamps, by rw [← hcache]; exact h.held⟩
    | some e =>
      rw [putAnswer_of_some hentry, if_neg (by simp)]
      exact h.store hcache hlast hleader

theorem Ordered.step (h : Ordered s) (hinstalled : Installed s) (hacts : Acts P limits s a s') :
    Ordered s' := by
  have hkeys : ∀ (i : Nat) (f : Flight), s.flights[i]? = some f →
      ∃ f', s'.flights[i]? = some f' ∧ f'.key = f.key := fun _ _ hf => hacts.key hf
  cases hacts with
  | idle => exact h
  | lead => exact h.frame hkeys rfl rfl
  | join => exact ⟨h.leaders, h.order, h.stamps, h.held⟩
  | advance => exact h.frame hkeys rfl rfl
  | @put i f now hf hstage =>
    have hu : f.stage.unstored = true := by
      rw [hstage]
      rfl
    have hlast : ∀ x ∈ s.stored, x.key = f.key → x.leader ≤ i := by
      intro x hx hkey
      obtain ⟨g, hg, hgkey⟩ := h.leaders x hx
      exact hinstalled.newest i f x.leader g hf hu hg (hgkey.trans hkey)
    have hput := @Ordered.putOutcome s h i f.key f.outcome now hlast ⟨f, hf, rfl⟩
    -- the leader then only changes its stage
    refine hput.frame ?_ rfl rfl
    intro j g hg
    rw [putOutcome_eq] at hg
    exact hkeys j g hg
  | release => exact h.frame hkeys rfl rfl
  | remove => exact h.frame hkeys (by rw [dropFlight_eq]; rfl) (by rw [dropFlight_eq]; rfl)
  | wake => exact ⟨h.leaders, h.order, h.stamps, h.held⟩
  | expire => exact h.frame hkeys (by rw [dropFlight_eq]) (by rw [dropFlight_eq])
  | @read key now =>
    refine ⟨h.leaders, h.order, ?_, ?_⟩
    · intro c' hc' x hx
      obtain ⟨c, hc, rfl⟩ := Option.map_eq_some_iff.mp hc'
      rw [(get2_frame _ _ _).2]
      exact h.stamps c hc x hx
    · intro c' hc' k e he x hx hk
      obtain ⟨c, hc, rfl⟩ := Option.map_eq_some_iff.mp hc'
      obtain ⟨e₀, he₀, heq⟩ := lookup_get2 he
      rw [heq]
      exact h.held c hc k e₀ he₀ x hx hk

/-! ## Every run -/

section
variable (cache : Option ResponseCache)

theorem slotsExact_initial :
    SlotsExact limits (FlightState.initial cache) :=
  fun _ => ⟨rfl, fun _ _ => Nat.zero_le _⟩

theorem followersShare_initial :
    FollowersShare (FlightState.initial cache) :=
  fun _ hw => absurd hw List.not_mem_nil

theorem installed_initial : Installed (FlightState.initial cache) :=
  ⟨fun _ _ hf => (by cases hf), fun _ _ _ _ hf => (by cases hf)⟩

theorem ordered_initial : Ordered (FlightState.initial cache) :=
  ⟨fun _ hx => absurd hx List.not_mem_nil, fun _ hx => absurd hx List.not_mem_nil,
    fun _ _ _ hx => absurd hx List.not_mem_nil,
    fun _ _ _ _ _ _ hx => absurd hx List.not_mem_nil⟩

end

/-- **Single flight**, for every interleaving: slots are exact, followers have their
leader's result, and the cache keeps the newest outcome when no flight is reaped before it
is stored. -/
theorem single_flight (P : Primitives) (r : RoutingResolver) (limits : Limits)
    (cache : Option ResponseCache) (events : List FlightEvent) :
    SlotsExact limits (events.foldl (flightStep P r limits) (.initial cache)) ∧
    FollowersShare (events.foldl (flightStep P r limits) (.initial cache)) ∧
    (EachStep (flightStep P r limits) LeaderStored (.initial cache) events →
      NewestKept (events.foldl (flightStep P r limits) (.initial cache))) := by
  have hany : EachStep (flightStep P r limits) (fun _ _ => True) (.initial cache) events :=
    EachStep.of_forall_mem (fun _ _ _ => trivial)
  refine ⟨?_, ?_, ?_⟩
  · exact EachStep.invariant (fun s a h _ => h.step (flightStep_acts s a))
      (slotsExact_initial cache) hany
  · exact EachStep.invariant (fun s a h _ => h.step (flightStep_acts s a))
      (followersShare_initial cache) hany
  · intro hok
    have hinv : Installed (events.foldl (flightStep P r limits) (.initial cache)) ∧
        Ordered (events.foldl (flightStep P r limits) (.initial cache)) := by
      refine @EachStep.invariant _ _ _ _ (fun s => Installed s ∧ Ordered s) ?_ _ _
        ⟨installed_initial cache, ordered_initial cache⟩ hok
      intro s a h hstored
      have hacts : Acts P limits s a (flightStep P r limits s a) := flightStep_acts s a
      exact ⟨h.1.step hacts hstored, h.2.step h.1 hacts⟩
    exact hinv.2.newestKept

namespace FlightSample

open AssignmentSample

def answer (address : UInt8) : Outcome :=
  ⟨⟨[.upstream 300 [address]], rcodeSuccess, false⟩, false⟩

def question : ClassedQuestion := address myhost lan

/-- The first leader is slow and reaped; the next caller resolves and stores, then the first
stores. -/
def reapedRun : List FlightEvent :=
  [.call question, .call question, .expire 0, .call question, .resolve 1 (answer 2), .put 1 100,
   .resolve 0 (answer 1), .put 0 101]

def afterReap : FlightState :=
  reapedRun.foldl (flightStep Toy.primitives upstreamOnly ⟨0, 0⟩)
    (.initial (some (newResponseCache 0)))

def key : CacheKey := cacheKeyFor Toy.primitives question

/-- The first leader has stored when its follower times out; the next one stores later. -/
def orderlyRun : List FlightEvent :=
  [.call question, .call question, .resolve 0 (answer 1), .put 0 100, .expire 0, .call question,
   .resolve 1 (answer 2), .put 1 101]

def afterOrderly : FlightState :=
  orderlyRun.foldl (flightStep Toy.primitives upstreamOnly ⟨0, 0⟩)
    (.initial (some (newResponseCache 0)))

end FlightSample

section
open FlightSample AssignmentSample

theorem orderly_run_keeps_newest :
    afterOrderly.stored = [⟨key, 0, 1⟩, ⟨key, 1, 2⟩] ∧ Holding afterOrderly key 1 ∧
      NewestKept afterOrderly := by
  have hstored : afterOrderly.stored = [⟨key, 0, 1⟩, ⟨key, 1, 2⟩] := by decide +kernel
  have hentry : (afterOrderly.cache.bind (fun c => c.entries.lookup key)).map CacheEntry.stamp
      = some 2 := by decide +kernel
  obtain ⟨e, he, hstamp⟩ := Option.map_eq_some_iff.mp hentry
  obtain ⟨c, hc, hlookup⟩ := Option.bind_eq_some_iff.mp he
  refine ⟨hstored, ⟨c, hc, e, hlookup, ?_⟩, ?_⟩
  · rw [hstored, hstamp]
    exact List.mem_cons_of_mem _ List.mem_cons_self
  refine (single_flight Toy.primitives upstreamOnly ⟨0, 0⟩ (some (newResponseCache 0))
    orderlyRun).2.2 ⟨trivial, trivial, trivial, trivial, ?_, trivial, trivial, trivial, trivial⟩
  intro w hw _ f hf
  have hstage : ((orderlyRun.take 4).foldl (flightStep Toy.primitives upstreamOnly ⟨0, 0⟩)
      (.initial (some (newResponseCache 0)))).flights.map Flight.stage = [.leaving] := by
    decide +kernel
  have hmem : f.stage ∈ [Stage.leaving] := hstage ▸ List.mem_map_of_mem (List.mem_of_getElem? hf)
  rw [List.mem_singleton.mp hmem]
  rfl

/-- **An older leader overwrites a newer outcome** in the cache. -/
theorem older_leader_overwrites :
    afterReap.stored = [⟨key, 1, 1⟩, ⟨key, 0, 2⟩] ∧
      (∃ c ∈ afterReap.cache, ∃ e, c.entries.lookup key = some e ∧ e.rrs = (answer 1).rrs) ∧
      ¬ NewestKept afterReap := by
  have hstored : afterReap.stored = [⟨key, 1, 1⟩, ⟨key, 0, 2⟩] := by decide +kernel
  have hentry : (afterReap.cache.bind (fun c => c.entries.lookup key)).map
      (fun e => (e.rrs, e.stamp)) = some ((answer 1).rrs, 2) := by decide +kernel
  obtain ⟨e, he, heq⟩ := Option.map_eq_some_iff.mp hentry
  obtain ⟨c, hc, hlookup⟩ := Option.bind_eq_some_iff.mp he
  rw [Prod.mk.injEq] at heq
  refine ⟨hstored, ⟨c, hc, e, hlookup, heq.1⟩, ?_⟩
  intro hkept
  have hheld : Holding afterReap key 0 := by
    refine ⟨c, hc, e, hlookup, ?_⟩
    rw [hstored, heq.2]
    exact List.mem_cons_of_mem _ List.mem_cons_self
  have hle := hkept key 0 hheld ⟨key, 1, 1⟩ (by rw [hstored]; exact List.mem_cons_self) rfl
  exact absurd hle (by decide)

end

end Freens.Resolver
