/-
**HOW LONG A POSITIVE ANSWER STAYS** (`resolver/cache.go`): for `staleServeSecs`
past its expiry, unless a put of its key replaces it, a full cache evicts it, or
the periodic sweep, which goes by `expiresAt` alone, takes it.
-/
import Freens.Resolver.Cache

namespace Freens.Resolver

open Library Naming

/-! ## The ways out of the cache -/

/-- The call writes the cache. -/
def CacheCall.Stores : CacheCall → Prop
  | .get _ _ => False
  | .put _ rrs rcode aa now => (entryFor rrs rcode aa now).isSome

/-- The call writes this key. -/
def CacheCall.Replaces (key : CacheKey) : CacheCall → Prop
  | .get _ _ => False
  | .put k rrs rcode aa now => k = key ∧ (entryFor rrs rcode aa now).isSome

instance : DecidablePred CacheCall.Stores
  | .get _ _ => inferInstanceAs (Decidable False)
  | .put _ _ _ _ _ => inferInstanceAs (Decidable (_ = true))

instance (key : CacheKey) : DecidablePred (CacheCall.Replaces key)
  | .get _ _ => inferInstanceAs (Decidable False)
  | .put _ _ _ _ _ => inferInstanceAs (Decidable (_ ∧ _))

/-- The entry a store evicts. -/
def victim (c : ResponseCache) : Option CacheKey :=
  if c.entries.keys.length ≥ c.maxEntries then
    (oldestStamp (c.entries.select (fun _ _ => true))).map Prod.fst
  else none

/-- The call removes the key because the cache is at its limit. -/
def EvictsAtLimit (key : CacheKey) (s : ClockedCache) (call : CacheCall) : Prop :=
  call.Stores ∧ victim (countPut s.cache call.now) = some key

/-- The call sweeps. -/
def Sweeps (s : ClockedCache) (call : CacheCall) : Prop :=
  call.Stores ∧ cacheSweepEvery ≤ s.cache.sinceSweep + 1

/-- The call does not sweep in the stale window of an answer that expires at
`expiry`. -/
def SparesStale (expiry : Int) (s : ClockedCache) (call : CacheCall) : Prop :=
  Sweeps s call → call.now < expiry ∨ expiry + staleServeSecs ≤ call.now

instance (key : CacheKey) (s : ClockedCache) (call : CacheCall) :
    Decidable (EvictsAtLimit key s call) := inferInstanceAs (Decidable (_ ∧ _))

instance (expiry : Int) (s : ClockedCache) (call : CacheCall) :
    Decidable (SparesStale expiry s call) :=
  inferInstanceAs (Decidable (_ ∧ _ → _ ∨ _))

variable {c : ResponseCache} {key : CacheKey} {now : Int}

theorem makeRoom_lookup (h : victim c ≠ some key) :
    (makeRoom c).entries.lookup key = c.entries.lookup key := by
  unfold victim at h
  unfold makeRoom evictOldest
  split
  next hfull =>
    rw [if_pos hfull] at h
    cases hold : oldestStamp (c.entries.select (fun _ _ => true)) with
    | none => rfl
    | some x =>
      rw [hold, Option.map_some, ne_eq, Option.some.injEq] at h
      exact AList.lookup_erase_ne (fun hx => h hx.symm)
  next => rfl

theorem countPut_lookup {e : CacheEntry} (h : c.entries.lookup key = some e)
    (hsweep : cacheSweepEvery ≤ c.sinceSweep + 1 → now < e.expiresAt) :
    (countPut c now).entries.lookup key = some e := by
  unfold countPut
  dsimp only
  split
  next hdue => exact Table.lookup_reject.mpr ⟨h, by simpa using hsweep hdue⟩
  next => exact h

/-! ## One step -/

/-- The entry is in its place, up to the last hit, or its window is over. -/
def Retained (key : CacheKey) (e : CacheEntry) (s : ClockedCache) : Prop :=
  (∃ lastHit, s.cache.entries.lookup key = some { e with lastHit }) ∨ e.staleUntil ≤ s.clock

theorem Retained.get {key k : CacheKey} {e : CacheEntry} {s : ClockedCache} {now : Int}
    (h : Retained key e s) (hpos : 0 < e.rrs.length) (hclock : s.clock ≤ now) :
    Retained key e (cacheStep s (.get k now)) := by
  rcases h with ⟨lastHit, hlookup⟩ | hover
  · by_cases hk : key = k
    · subst hk
      by_cases hserve : now < e.staleUntil
      · left
        have hservable : CacheEntry.ServableAt { e with lastHit } now := .inr ⟨hpos, hserve⟩
        refine ⟨now, ?_⟩
        show (get2 s.cache key now).2.entries.lookup key = _
        rw [get2_of_servable hlookup hservable, AList.lookup_insert]
      · exact .inr (not_lt.mp hserve)
    · left
      refine ⟨lastHit, ?_⟩
      show (get2 s.cache k now).2.entries.lookup key = _
      rw [get2_lookup_ne hk, hlookup]
  · exact .inr (le_trans hover hclock)

theorem Retained.store {k : CacheKey} {e e' : CacheEntry} {clock : Int}
    (h : Retained key e ⟨c, clock⟩) (hk : key ≠ k) (hclock : clock ≤ now)
    (hroom : victim (countPut c now) ≠ some key)
    (hsweep : cacheSweepEvery ≤ c.sinceSweep + 1 → now < e.expiresAt ∨ e.staleUntil ≤ now) :
    Retained key e ⟨storeEntry c k e' now, now⟩ := by
  by_cases hover : e.staleUntil ≤ now
  · exact .inr hover
  · rcases h with ⟨lastHit, hlookup⟩ | hpast
    · left
      refine ⟨lastHit, ?_⟩
      have hlive : cacheSweepEvery ≤ c.sinceSweep + 1 → now < e.expiresAt :=
        fun hdue => (hsweep hdue).resolve_right hover
      show (storeEntry c k e' now).entries.lookup key = _
      rw [storeEntry_lookup_ne hk, makeRoom_lookup hroom, countPut_lookup hlookup hlive]
    · exact absurd (le_trans hpast hclock) hover

/-- What each step of the run must respect. -/
structure Spares (key : CacheKey) (expiry : Int) (s : ClockedCache) (call : CacheCall) : Prop where
  inOrder : InOrder s call
  keeps : ¬ call.Replaces key
  room : ¬ EvictsAtLimit key s call
  unswept : SparesStale expiry s call

instance (key : CacheKey) (expiry : Int) (s : ClockedCache) (call : CacheCall) :
    Decidable (Spares key expiry s call) :=
  decidable_of_iff
    (InOrder s call ∧ ¬ call.Replaces key ∧ ¬ EvictsAtLimit key s call ∧ SparesStale expiry s call)
    ⟨fun h => ⟨h.1, h.2.1, h.2.2.1, h.2.2.2⟩, fun h => ⟨h.inOrder, h.keeps, h.room, h.unswept⟩⟩

theorem Retained.step {key : CacheKey} {e : CacheEntry} (hpos : 0 < e.rrs.length)
    (hwindow : e.staleUntil = e.expiresAt + staleServeSecs) (s : ClockedCache) (call : CacheCall)
    (h : Retained key e s) (hok : Spares key e.expiresAt s call) :
    Retained key e (cacheStep s call) := by
  cases call with
  | get k now => exact h.get hpos hok.inOrder
  | put k rrs rcode aa now =>
    have hclock : s.clock ≤ now := hok.inOrder
    cases hentry : entryFor rrs rcode aa now with
    | none =>
      -- nothing is stored, so nothing moves but the clock
      have hsame : cacheStep s (.put k rrs rcode aa now) = ⟨s.cache, now⟩ := by
        rw [cacheStep, putAnswer_of_none hentry]
      rw [hsame]
      exact h.imp_right (fun hover => le_trans hover hclock)
    | some e' =>
      have hstores : (CacheCall.put k rrs rcode aa now).Stores := by
        show (entryFor rrs rcode aa now).isSome
        rw [hentry]
        rfl
      have hk : key ≠ k := fun hk => hok.keeps ⟨hk.symm, hstores⟩
      have hstep : cacheStep s (.put k rrs rcode aa now) = ⟨storeEntry s.cache k e' now, now⟩ := by
        rw [cacheStep, putAnswer_of_some hentry]
      rw [hstep]
      refine Retained.store h hk hclock (fun hv => hok.room ⟨hstores, hv⟩) ?_
      intro hdue
      rw [hwindow]
      exact hok.unswept ⟨hstores, hdue⟩

/-! ## Every run -/

theorem Retained.read {key : CacheKey} {e : CacheEntry} {s : ClockedCache} {t : Int}
    (h : Retained key e s) (hpos : 0 < e.rrs.length) (hclock : s.clock ≤ t)
    (ht : t < e.staleUntil) : (get2 s.cache key t).1 = e.answer t := by
  rcases h with ⟨lastHit, hlookup⟩ | hover
  · rw [get2_of_servable hlookup (.inr ⟨hpos, ht⟩)]
    rfl
  · omega

theorem entryFor_positive {rrs : List AnswerRR} {aa : Bool} (hpos : 0 < rrs.length)
    (httl : 0 < storedTTL rrs) :
    entryFor rrs rcodeSuccess aa now =
      some { rrs, rcode := rcodeSuccess, aa, expiresAt := wrap64 (now + storedTTL rrs)
             lastHit := now, stamp := 0 } := by
  have hne : rrs.length ≠ 0 := by omega
  have hcached : ¬ storedTTL rrs ≤ 0 := by omega
  simp [entryFor, hne, hpos, hcached]

theorem putAnswer_positive {c : ResponseCache} {key : CacheKey} {rrs : List AnswerRR} {aa : Bool}
    {now : Int} (hpos : 0 < rrs.length) (httl : 0 < storedTTL rrs) :
    ∃ e, (putAnswer c key rrs rcodeSuccess aa now).entries.lookup key = some e ∧
      e.rrs = rrs ∧ e.rcode = rcodeSuccess ∧ e.aa = aa ∧
      e.expiresAt = wrap64 (now + storedTTL rrs) := by
  rw [putAnswer_of_some (entryFor_positive hpos httl)]
  obtain ⟨lastHit, hlookup⟩ := storeEntry_lookup_self c key _ now
  exact ⟨_, hlookup, rfl, rfl, rfl, rfl⟩

/-- **Serve-stale retention.** While no put replaces a positive answer, no full cache evicts
it and no sweep falls into its stale window, every read is answered from it: fresh before
`t₀ + storedTTL`, stale after. -/
theorem served_until_stale (c : ResponseCache) (key : CacheKey) (rrs : List AnswerRR) (aa : Bool)
    (t₀ t : Int) (run : List CacheCall) (hpos : 0 < rrs.length) (httl : 0 < storedTTL rrs)
    (hlow : -(2 ^ 63) ≤ t₀) (hhigh : t₀ + storedTTL rrs + 21600 < 2 ^ 63)
    (hrun : EachStep cacheStep (Spares key (t₀ + storedTTL rrs))
      ⟨putAnswer c key rrs rcodeSuccess aa t₀, t₀⟩ run)
    (hclock : (run.foldl cacheStep ⟨putAnswer c key rrs rcodeSuccess aa t₀, t₀⟩).clock ≤ t)
    (ht : t < t₀ + storedTTL rrs + 21600) :
    (get2 (run.foldl cacheStep ⟨putAnswer c key rrs rcodeSuccess aa t₀, t₀⟩).cache key t).1 =
      if t < t₀ + storedTTL rrs then
        ⟨copyWithTTL rrs (uint32 (t₀ + storedTTL rrs - t)), rcodeSuccess, aa, .fresh⟩
      else
        ⟨copyWithTTL rrs (min (uint32 (t₀ + storedTTL rrs + 21600 - t)) 30), rcodeSuccess, aa,
          .stale⟩ := by
  obtain ⟨e, hlookup, hrrs, hrcode, haa, hexpires⟩ :=
    @putAnswer_positive c key rrs aa t₀ hpos httl
  -- the entry's times do not wrap
  have hexpiry : e.expiresAt = t₀ + storedTTL rrs := by
    rw [hexpires]
    exact wrap64_of_range (by omega) (by omega)
  have hwindow : e.staleUntil = t₀ + storedTTL rrs + 21600 := by
    rw [CacheEntry.staleUntil, hexpiry]
    show wrap64 (t₀ + storedTTL rrs + 21600) = t₀ + storedTTL rrs + 21600
    exact wrap64_of_range (by omega) (by omega)
  have hpositive : 0 < e.rrs.length := by rwa [hrrs]
  have hkept : Retained key e
      (run.foldl cacheStep ⟨putAnswer c key rrs rcodeSuccess aa t₀, t₀⟩) := by
    rw [← hexpiry] at hrun
    exact hrun.invariant (Retained.step hpositive (by rw [hwindow, hexpiry]))
      (.inl ⟨e.lastHit, hlookup⟩)
  have hread := hkept.read hpositive hclock (by rw [hwindow]; exact ht)
  rw [hread, CacheEntry.answer, CacheEntry.remainingStale, hexpiry, hwindow, hrrs, hrcode, haa,
    Nat.min_def]
  grind

/-! ## A sweep inside and outside the window -/

namespace StaleSample

def keyA : CacheKey := { name := [0x61, 0x2e], qtype := 1, qclass := 1 }

def keyB : CacheKey := { name := [0x62, 0x2e], qtype := 1, qclass := 1 }

def address : AnswerRR := .freens { name := [0x61, 0x2e], ttl := 10, rdata := .a [10, 0, 0, 1] }

def start : ClockedCache :=
  ⟨putAnswer (newResponseCache 0) keyA [address] rcodeSuccess true 0, 0⟩

def traffic (now : Int) : List CacheCall :=
  List.replicate 63 (.put keyB [address] rcodeSuccess true now)

end StaleSample

theorem served_until_stale_swept_early :
    EachStep cacheStep (Spares StaleSample.keyA (0 + storedTTL [StaleSample.address]))
      StaleSample.start (StaleSample.traffic 9) ∧
    (get2 ((StaleSample.traffic 9).foldl cacheStep StaleSample.start).cache StaleSample.keyA 20).1 =
      if (20 : Int) < 0 + storedTTL [StaleSample.address] then
        ⟨copyWithTTL [StaleSample.address] (uint32 (0 + storedTTL [StaleSample.address] - 20)),
          rcodeSuccess, true, .fresh⟩
      else
        ⟨copyWithTTL [StaleSample.address]
          (min (uint32 (0 + storedTTL [StaleSample.address] + 21600 - 20)) 30), rcodeSuccess, true,
          .stale⟩ := by
  have hrun : EachStep cacheStep (Spares StaleSample.keyA (0 + storedTTL [StaleSample.address]))
      StaleSample.start (StaleSample.traffic 9) := by decide +kernel
  refine ⟨hrun, ?_⟩
  exact served_until_stale (newResponseCache 0) StaleSample.keyA [StaleSample.address] true 0 20
    (StaleSample.traffic 9) (by decide) (by decide) (by decide) (by decide) hrun
    (by decide +kernel) (by decide)

/-- **Swept in its stale window**: swept at 10, the moment it expires, the answer is gone at 11. -/
theorem swept_in_stale_window :
    EachStep cacheStep (fun s call => InOrder s call ∧ ¬ call.Replaces StaleSample.keyA ∧
      ¬ EvictsAtLimit StaleSample.keyA s call) StaleSample.start (StaleSample.traffic 10) ∧
    (11 : Int) < 0 + storedTTL [StaleSample.address] + 21600 ∧
    (get2 ((StaleSample.traffic 10).foldl cacheStep StaleSample.start).cache StaleSample.keyA 11).1 =
      .missed := by
  refine ⟨by decide +kernel, by decide +kernel, by decide +kernel⟩

end Freens.Resolver
