/-
**WHAT A PUT DOES TO THE OTHER KEYS** (`resolver/cache.go`: `putAnswer`,
`sweepExpiredLocked`, `evictOldestLocked`).

`putAnswer` makes room before it looks whether the key already has an entry, so a
refresh in a full cache drops the entry with the smallest stamp.
-/
import Freens.Library.Selection
import Freens.Library.Ledger
import Freens.Resolver.StaleRetention

namespace Freens.Resolver

open Library

/-! ## The victim -/

/-- Used longer ago. -/
def older (x y : CacheKey × CacheEntry) : Bool := x.2.stamp < y.2.stamp

theorem oldestStamp_eq (l : List (CacheKey × CacheEntry)) :
    oldestStamp l = l.foldl (challenge older) none := by
  cases l with
  | nil => rfl
  | cons x rest =>
    rw [foldl_challenge_cons]
    simp only [older, decide_eq_true_eq]
    rfl

/-- No entry was used longer ago. -/
def Oldest (c : ResponseCache) (k : CacheKey) : Prop :=
  ∃ e, c.entries.lookup k = some e ∧
    ∀ k' e', c.entries.lookup k' = some e' → e.stamp ≤ e'.stamp

/-- The bound is reached. -/
def Full (c : ResponseCache) : Prop :=
  0 < c.entries.keys.length ∧ c.maxEntries ≤ c.entries.keys.length

variable {c : ResponseCache} {k key : CacheKey} {now : Int} {e : CacheEntry}

theorem victim_spec (h : victim c = some k) : Full c ∧ Oldest c k := by
  unfold victim at h
  split at h
  next hlimit =>
    rw [Option.map_eq_some_iff] at h
    obtain ⟨⟨k', e⟩, hold, hk⟩ := h
    have hk : k' = k := hk
    subst hk
    rw [oldestStamp_eq] at hold
    have hunbeaten := unbeaten_of_foldl (fun x => by simp [older])
      (fun x y z hxy hyz => by simp only [older, decide_eq_true_eq] at *; omega) hold
    have hlookup := (Table.mem_select.mp hunbeaten.mem).1
    refine ⟨⟨List.length_pos_of_mem (Table.mem_of_lookup hlookup), hlimit⟩, e, hlookup, ?_⟩
    intro k'' e'' h''
    have hlost := hunbeaten.top (k'', e'') (Table.mem_select.mpr ⟨h'', rfl⟩)
    simp only [older, decide_eq_false_iff_not] at hlost
    omega
  next => cases h

theorem Full.victim (h : Full c) : ∃ k, victim c = some k := by
  obtain ⟨k, hk⟩ := List.exists_mem_of_length_pos h.1
  obtain ⟨e, he⟩ := Option.isSome_iff_exists.mp (AList.lookup_isSome.mpr hk)
  have hmem : (k, e) ∈ c.entries.select (fun _ _ => true) := Table.mem_select.mpr ⟨he, rfl⟩
  unfold Resolver.victim
  rw [if_pos h.2]
  cases hall : c.entries.select (fun _ _ => true) with
  | nil =>
    rw [hall] at hmem
    cases hmem
  | cons x rest => exact ⟨_, rfl⟩

theorem makeRoom_lookup_victim (h : victim c = some k) : (makeRoom c).entries.lookup k = none := by
  unfold victim at h
  unfold makeRoom evictOldest
  split at h
  next hfull =>
    rw [if_pos hfull]
    rw [Option.map_eq_some_iff] at h
    obtain ⟨⟨k', e⟩, hold, hk⟩ := h
    have hk : k' = k := hk
    subst hk
    rw [hold]
    show (c.entries.erase k').lookup k' = none
    rw [AList.lookup_erase]
  next => cases h

/-- The put is one of those that sweep, and the key's entry is expired. -/
def SweptAt (c : ResponseCache) (now : Int) (k : CacheKey) : Prop :=
  cacheSweepEvery ≤ c.sinceSweep + 1 ∧ ∃ e, c.entries.lookup k = some e ∧ e.expiresAt ≤ now

theorem countPut_lookup_of_not_swept
    (h : ¬ SweptAt c now k) : (countPut c now).entries.lookup k = c.entries.lookup k := by
  cases hk : c.entries.lookup k with
  | none =>
    cases hcount : (countPut c now).entries.lookup k with
    | none => rfl
    | some e =>
      rw [countPut_sub c now k e hcount] at hk
      cases hk
  | some e =>
    apply countPut_lookup hk
    intro hdue
    by_contra hexpired
    exact h ⟨hdue, e, hk, not_lt.mp hexpired⟩

theorem not_swept_of_lookup
    (h : (countPut c now).entries.lookup k = some e) : ¬ SweptAt c now k := by
  rintro ⟨hdue, e', he', hexpired⟩
  have hsame : c.entries.lookup k = some e := countPut_sub c now k e h
  rw [he', Option.some.injEq] at hsame
  subst hsame
  unfold countPut at h
  dsimp only at h
  rw [if_pos hdue] at h
  have hlive := (Table.lookup_reject.mp h).2
  simp only [decide_eq_false_iff_not] at hlive
  omega

/-! ## The frame of a put -/

/-- **The other keys.** What a put of an outcome under `key` may do to them. -/
structure RefreshFrame (c : ResponseCache) (key : CacheKey) (rrs : List AnswerRR) (rcode : Nat)
    (aa : Bool) (now : Int) : Prop where
  /-- Another key keeps its entry, unless that is expired and swept, or the put
  key is new, the cache full, and the entry one with the smallest stamp. -/
  keeps : ∀ k, k ≠ key →
    (putAnswer c key rrs rcode aa now).entries.lookup k = c.entries.lookup k ∨
      SweptAt c now k ∨
      (key ∉ c.entries ∧ Full (countPut c now) ∧ Oldest (countPut c now) k)
  /-- A new key stored in a full cache costs exactly one entry, one with the
  smallest stamp. -/
  drops : (entryFor rrs rcode aa now).isSome → key ∉ c.entries → Full (countPut c now) →
    ∃ k, k ≠ key ∧ Oldest (countPut c now) k ∧
      (putAnswer c key rrs rcode aa now).entries.lookup k = none ∧
      ∀ k', k' ≠ key → k' ≠ k → ¬ SweptAt c now k' →
        (putAnswer c key rrs rcode aa now).entries.lookup k' = c.entries.lookup k'

/-- The put replaces an entry of a full cache whose smallest stamp is another key's. -/
def RefreshEvicts (c : ResponseCache) (key : CacheKey) (rrs : List AnswerRR) (rcode : Nat)
    (aa : Bool) (now : Int) : Prop :=
  (entryFor rrs rcode aa now).isSome ∧ key ∈ c.entries ∧
    ∃ k, victim (countPut c now) = some k ∧ k ≠ key

theorem storeEntry_lookup_other (hk : k ≠ key) (hswept : ¬ SweptAt c now k)
    (hvictim : victim (countPut c now) ≠ some k) :
    (storeEntry c key e now).entries.lookup k = c.entries.lookup k := by
  rw [storeEntry_lookup_ne hk, makeRoom_lookup hvictim, countPut_lookup_of_not_swept hswept]

theorem storeEntry_lookup_victim (hk : k ≠ key) (hvictim : victim (countPut c now) = some k) :
    (storeEntry c key e now).entries.lookup k = none := by
  rw [storeEntry_lookup_ne hk, makeRoom_lookup_victim hvictim]

variable {rrs : List AnswerRR} {rcode : Nat} {aa : Bool}

theorem refreshFrame_of_new (hentry : entryFor rrs rcode aa now = some e)
    (hnew : key ∉ c.entries) : RefreshFrame c key rrs rcode aa now := by
  -- the victim was there before, so it is not the new key
  have hother : ∀ k, victim (countPut c now) = some k → k ≠ key := by
    rintro k hvictim rfl
    obtain ⟨e', he', _⟩ := (victim_spec hvictim).2
    exact hnew (Table.mem_of_lookup (countPut_sub c now k e' he'))
  constructor
  · intro k hk
    rw [putAnswer_of_some hentry]
    by_cases hswept : SweptAt c now k
    · exact .inr (.inl hswept)
    · by_cases hvictim : victim (countPut c now) = some k
      · exact .inr (.inr ⟨hnew, victim_spec hvictim⟩)
      · exact .inl (storeEntry_lookup_other hk hswept hvictim)
  · intro _ _ hfull
    obtain ⟨k, hvictim⟩ := hfull.victim
    rw [putAnswer_of_some hentry]
    refine ⟨k, hother k hvictim, (victim_spec hvictim).2,
      storeEntry_lookup_victim (hother k hvictim) hvictim, ?_⟩
    intro k' hk' hne hswept
    refine storeEntry_lookup_other hk' hswept ?_
    rw [hvictim, ne_eq, Option.some.injEq]
    exact fun h => hne h.symm

theorem refreshFrame_of_replaced (hentry : entryFor rrs rcode aa now = some e)
    (hold : key ∈ c.entries) (hspared : ∀ k, victim (countPut c now) = some k → k = key) :
    RefreshFrame c key rrs rcode aa now := by
  constructor
  · intro k hk
    rw [putAnswer_of_some hentry]
    by_cases hswept : SweptAt c now k
    · exact .inr (.inl hswept)
    · exact .inl (storeEntry_lookup_other hk hswept (fun h => hk (hspared k h)))
  · intro _ hnew
    exact absurd hold hnew

/-- **Refreshing an entry.** The other keys keep their entries, but for swept ones and the
eviction a new key needs, exactly when the put does not replace an entry of a full cache
whose smallest stamp is another's. -/
theorem refresh_frame_iff (c : ResponseCache) (key : CacheKey) (rrs : List AnswerRR) (rcode : Nat)
    (aa : Bool) (now : Int) :
    RefreshFrame c key rrs rcode aa now ↔ ¬ RefreshEvicts c key rrs rcode aa now := by
  constructor
  · rintro hframe ⟨hstores, hold, k, hvictim, hk⟩
    obtain ⟨e, hentry⟩ := Option.isSome_iff_exists.mp hstores
    obtain ⟨e', he', _⟩ := (victim_spec hvictim).2
    rcases hframe.keeps k hk with hkept | hswept | ⟨hnew, _⟩
    · -- the victim had an entry and has none now
      rw [putAnswer_of_some hentry, storeEntry_lookup_victim hk hvictim,
        countPut_sub c now k e' he'] at hkept
      cases hkept
    · exact not_swept_of_lookup he' hswept
    · exact hnew hold
  · intro hspared
    cases hentry : entryFor rrs rcode aa now with
    | none =>
      constructor
      · intro k _
        rw [putAnswer_of_none hentry]
        exact .inl rfl
      · intro hstores
        rw [hentry] at hstores
        cases hstores
    | some e =>
      by_cases hold : key ∈ c.entries
      · apply refreshFrame_of_replaced hentry hold
        intro k hvictim
        by_contra hk
        exact hspared ⟨by rw [hentry]; rfl, hold, k, hvictim, hk⟩
      · exact refreshFrame_of_new hentry hold

namespace FrameSample

def twoEntries : ResponseCache :=
  putAnswer (putAnswer (newResponseCache 2) StaleSample.keyA [StaleSample.address] rcodeSuccess
    true 0) StaleSample.keyB [StaleSample.address] rcodeSuccess true 0

end FrameSample

/-- **The refresh of `b.` drops `a.`**, live for nine more seconds, within the limit. -/
theorem refresh_drops_live_entry :
    FrameSample.twoEntries.entries.keys.length ≤ FrameSample.twoEntries.maxEntries ∧
    StaleSample.keyB ∈ FrameSample.twoEntries.entries ∧
    (FrameSample.twoEntries.entries.lookup StaleSample.keyA).map CacheEntry.expiresAt = some 10 ∧
    (putAnswer FrameSample.twoEntries StaleSample.keyB [StaleSample.address] rcodeSuccess true
      1).entries.keys = [StaleSample.keyB] ∧
    ¬ RefreshFrame FrameSample.twoEntries StaleSample.keyB [StaleSample.address] rcodeSuccess true
      1 := by
  refine ⟨by decide +kernel, by decide +kernel, by decide +kernel, by decide +kernel, ?_⟩
  intro hframe
  rcases hframe.keeps StaleSample.keyA (by decide) with hkept | ⟨hdue, _⟩ | ⟨hnew, _⟩
  · exact absurd hkept (by decide +kernel)
  · exact absurd hdue (by decide +kernel)
  · exact hnew (by decide +kernel)

end Freens.Resolver
