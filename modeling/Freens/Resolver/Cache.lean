/-
**THE RESPONSE CACHE** (`resolver/cache.go`: `get2`, `putAnswer`,
`sweepExpiredLocked`, `evictOldestLocked`).

An expired positive answer may be served for six hours more; negatives never are.
The counters of `SetMetrics` are left out.
-/
import Freens.Library.Run
import Freens.Library.Table
import Freens.Resolver.FreensResolve

namespace Freens.Resolver

open Library Naming

/-! ## Answers -/

abbrev rcodeSuccess : Nat := 0

abbrev rcodeServerFailure : Nat := 2

abbrev rcodeNameError : Nat := 3

abbrev rcodeRefused : Nat := 5

/-- One the freens route mapped, or one of the upstream, of which only the TTL is looked at. -/
inductive AnswerRR where
  | freens (rr : DnsRR)
  | upstream (ttl : Nat) (rest : Bytes)
  deriving DecidableEq, Repr

/-- The TTL of a record. -/
def AnswerRR.ttl : AnswerRR → Nat
  | .freens rr => rr.ttl
  | .upstream ttl _ => ttl

/-- The record with another TTL. -/
def AnswerRR.withTTL (ttl : Nat) : AnswerRR → AnswerRR
  | .freens rr => .freens { rr with ttl }
  | .upstream _ rest => .upstream ttl rest

/-- `copyWithTTL`: every record with one TTL. -/
def copyWithTTL (rrs : List AnswerRR) (ttl : Nat) : List AnswerRR := rrs.map (AnswerRR.withTTL ttl)

/-- `dns.Question`. -/
structure ClassedQuestion extends Question where
  qclass : UInt16
  deriving DecidableEq, Repr

/-- Name, type and class. -/
structure CacheKey where
  name : Bytes
  qtype : UInt16
  qclass : UInt16
  deriving DecidableEq, Repr

/-- The name is folded to lower case. -/
def cacheKeyFor (P : Primitives) (q : ClassedQuestion) : CacheKey :=
  { name := toLower P q.name, qtype := q.qtype, qclass := q.qclass }

/-! ## The cache -/

abbrev staleServeSecs : Int := 21600

abbrev negTTL : Int := 60

abbrev staleTTL : Nat := 30

abbrev cacheSweepEvery : Nat := 64

abbrev defaultCacheMaxEntries : Nat := 4096

/-- A negative entry has no records. -/
structure CacheEntry where
  rrs : List AnswerRR
  rcode : Nat
  aa : Bool
  expiresAt : Int
  lastHit : Int
  stamp : Nat
  deriving DecidableEq, Repr

/-- The cache: its entries, LRU clock and sweep counter. -/
structure ResponseCache where
  entries : Table CacheKey CacheEntry
  maxEntries : Nat
  nextStamp : Nat
  sinceSweep : Nat

/-- `newResponseCache`, with the default bound. -/
def newResponseCache (maxEntries : Int) : ResponseCache :=
  { entries := ∅
    maxEntries := if maxEntries ≤ 0 then defaultCacheMaxEntries else maxEntries.toNat
    nextStamp := 0, sinceSweep := 0 }

/-- How a lookup ended. -/
inductive CacheStatus where
  | miss
  | fresh
  | stale
  deriving DecidableEq, Repr

/-- What a lookup returns. -/
structure CacheAnswer where
  rrs : List AnswerRR
  rcode : Nat
  aa : Bool
  status : CacheStatus
  deriving DecidableEq, Repr

/-- Nothing found. -/
def CacheAnswer.missed : CacheAnswer := ⟨[], 0, false, .miss⟩

/-- `uint32`. -/
def uint32 (i : Int) : Nat := (i % 2 ^ 32).toNat

/-- The end of the window in which an expired positive entry is still served. -/
def CacheEntry.staleUntil (e : CacheEntry) : Int := wrap64 (e.expiresAt + staleServeSecs)

/-- The TTL of a stale answer. -/
def CacheEntry.remainingStale (e : CacheEntry) (now : Int) : Nat :=
  if uint32 (e.staleUntil - now) > staleTTL then staleTTL else uint32 (e.staleUntil - now)

/-- `get2`: a hit is answered and becomes the newest. -/
def get2 (c : ResponseCache) (key : CacheKey) (now : Int) : CacheAnswer × ResponseCache :=
  match c.entries.lookup key with
  | none => (.missed, c)
  | some e =>
    let touched := { c with entries := c.entries.insert key { e with lastHit := now } }
    if now < e.expiresAt then
      (⟨copyWithTTL e.rrs (uint32 (e.expiresAt - now)), e.rcode, e.aa, .fresh⟩, touched)
    else if e.rrs.length > 0 ∧ now < e.staleUntil then
      (⟨copyWithTTL e.rrs (e.remainingStale now), e.rcode, e.aa, .stale⟩, touched)
    else (.missed, { c with entries := c.entries.erase key })

/-- The TTL a positive answer is stored for: the least of its records, capped. -/
def storedTTL (rrs : List AnswerRR) : Int :=
  let least : Int := rrs.foldl (fun ttl rr => if rr.ttl < ttl then rr.ttl else ttl) 2147483647
  if least > Constants.responseTTLCap then Constants.responseTTLCap else least

/-- The switch of `putAnswer`: the entry an outcome is stored as, or nothing. -/
def entryFor (rrs : List AnswerRR) (rcode : Nat) (aa : Bool) (now : Int) : Option CacheEntry :=
  let entry (rrs : List AnswerRR) (ttl : Int) : CacheEntry :=
    { rrs, rcode, aa, expiresAt := wrap64 (now + ttl), lastHit := now, stamp := 0 }
  -- no data from the upstream
  if !aa ∧ rcode = rcodeSuccess ∧ rrs.length = 0 then some (entry [] negTTL)
  else if rcode = rcodeSuccess ∧ rrs.length > 0 then
    -- TTL 0 answers are not cached
    if storedTTL rrs ≤ 0 then none else some (entry rrs (storedTTL rrs))
  else if aa ∧ (rcode = rcodeNameError ∨ (rcode = rcodeSuccess ∧ rrs.length = 0)) then
    some (entry [] negTTL)
  -- the upstream's NXDOMAIN, and every failure
  else none

/-- Expired entries dropped. -/
def sweepExpired (c : ResponseCache) (now : Int) : ResponseCache :=
  { c with entries := c.entries.reject (fun _ e => now ≥ e.expiresAt) }

/-- The min-scan of `evictOldestLocked`. -/
def oldestStamp : List (CacheKey × CacheEntry) → Option (CacheKey × CacheEntry)
  | [] => none
  | x :: rest => some (rest.foldl (fun best x => if x.2.stamp < best.2.stamp then x else best) x)

/-- The entry used longest ago dropped. -/
def evictOldest (c : ResponseCache) : ResponseCache :=
  match oldestStamp (c.entries.select (fun _ _ => true)) with
  | none => c
  | some (key, _) => { c with entries := c.entries.erase key }

/-- A stored put takes a stamp and counts towards the sweep, which every 64th
of them runs. -/
def countPut (c : ResponseCache) (now : Int) : ResponseCache :=
  let c := { c with nextStamp := c.nextStamp + 1, sinceSweep := c.sinceSweep + 1 }
  if c.sinceSweep ≥ cacheSweepEvery then { sweepExpired c now with sinceSweep := 0 } else c

/-- Room for one more entry. -/
def makeRoom (c : ResponseCache) : ResponseCache :=
  if c.entries.keys.length ≥ c.maxEntries then evictOldest c else c

/-- The second half of `putAnswer`. A replaced entry hands on its last client hit. -/
def storeEntry (c : ResponseCache) (key : CacheKey) (e : CacheEntry) (now : Int) : ResponseCache :=
  let lastHit := match c.entries.lookup key with
    | some old => old.lastHit
    | none => e.lastHit
  let room := makeRoom (countPut c now)
  { room with entries := room.entries.insert key { e with lastHit, stamp := c.nextStamp + 1 } }

/-- `put`: what is not cacheable leaves the cache. -/
def putAnswer (c : ResponseCache) (key : CacheKey) (rrs : List AnswerRR) (rcode : Nat) (aa : Bool)
    (now : Int) : ResponseCache :=
  match entryFor rrs rcode aa now with
  | none => c
  | some e => storeEntry c key e now

/-! ## What a read answers from -/

/-- Live at `now`, or a positive answer in its stale window. -/
def CacheEntry.ServableAt (e : CacheEntry) (now : Int) : Prop :=
  now < e.expiresAt ∨ (0 < e.rrs.length ∧ now < e.staleUntil)

instance (e : CacheEntry) (now : Int) : Decidable (e.ServableAt now) :=
  inferInstanceAs (Decidable (_ ∨ _))

variable {e : CacheEntry} {c : ResponseCache} {key k : CacheKey}

theorem CacheEntry.ServableAt.earlier {now later : Int} (h : e.ServableAt later)
    (hle : now ≤ later) : e.ServableAt now := by
  rcases h with hlive | ⟨hpos, hstale⟩
  · exact .inl (by omega)
  · exact .inr ⟨hpos, by omega⟩

/-- What the least TTL and the cap leave. -/
theorem le_storedTTL_iff {rrs : List AnswerRR} {x : Int} :
    x ≤ storedTTL rrs ↔ x ≤ 3600 ∧ ∀ rr ∈ rrs, x ≤ rr.ttl := by
  have hfold : ∀ (l : List AnswerRR) (init : Int),
      x ≤ l.foldl (fun ttl rr => if rr.ttl < ttl then (rr.ttl : Int) else ttl) init ↔
        x ≤ init ∧ ∀ rr ∈ l, x ≤ rr.ttl := by
    intro l
    induction l with
    | nil => simp
    | cons rr l ih =>
      intro init
      rw [List.foldl_cons, ih, List.forall_mem_cons, ← and_assoc]
      refine and_congr_left fun _ => ?_
      split <;> omega
  have hleast := hfold rrs 2147483647
  unfold storedTTL
  simp only [Constants.responseTTLCap]
  split
  next hcap =>
    constructor
    · intro hx
      exact ⟨hx, (hleast.mp (by omega)).2⟩
    · exact fun h => h.1
  next hcap =>
    constructor
    · intro hx
      exact ⟨by omega, (hleast.mp hx).2⟩
    · exact fun h => hleast.mpr ⟨by omega, h.2⟩

/-- What an entry answers. -/
def CacheEntry.answer (e : CacheEntry) (now : Int) : CacheAnswer :=
  if now < e.expiresAt then
    ⟨copyWithTTL e.rrs (uint32 (e.expiresAt - now)), e.rcode, e.aa, .fresh⟩
  else ⟨copyWithTTL e.rrs (e.remainingStale now), e.rcode, e.aa, .stale⟩

section
variable {now : Int}

theorem CacheEntry.answer_ne_missed : e.answer now ≠ .missed := by
  intro h
  have hstatus : (e.answer now).status = .miss := by
    rw [h]
    rfl
  unfold CacheEntry.answer at hstatus
  split at hstatus <;> cases hstatus

theorem get2_of_free (h : c.entries.lookup key = none) : get2 c key now = (.missed, c) := by
  unfold get2
  rw [h]

theorem get2_of_servable (h : c.entries.lookup key = some e) (hserve : e.ServableAt now) :
    get2 c key now =
      (e.answer now, { c with entries := c.entries.insert key { e with lastHit := now } }) := by
  unfold get2 CacheEntry.answer
  rw [h]
  dsimp only
  by_cases hlive : now < e.expiresAt
  · rw [if_pos hlive, if_pos hlive]
  · have hstale : e.rrs.length > 0 ∧ now < e.staleUntil := hserve.resolve_left hlive
    rw [if_neg hlive, if_pos hstale, if_neg hlive]

theorem get2_of_not_servable (h : c.entries.lookup key = some e) (hserve : ¬ e.ServableAt now) :
    get2 c key now = (.missed, { c with entries := c.entries.erase key }) := by
  have hlive : ¬ now < e.expiresAt := fun h => hserve (.inl h)
  have hstale : ¬ (e.rrs.length > 0 ∧ now < e.staleUntil) := fun h => hserve (.inr h)
  unfold get2
  rw [h]
  dsimp only
  rw [if_neg hlive, if_neg hstale]

/-- A read changes the entries only. -/
theorem get2_frame (c : ResponseCache) (key : CacheKey) (now : Int) :
    (get2 c key now).2.maxEntries = c.maxEntries ∧ (get2 c key now).2.nextStamp = c.nextStamp := by
  cases hkey : c.entries.lookup key with
  | none => simp [get2_of_free hkey]
  | some e =>
    by_cases hserve : e.ServableAt now
    · simp [get2_of_servable hkey hserve]
    · simp [get2_of_not_servable hkey hserve]

theorem get2_lookup_ne (hk : k ≠ key) :
    (get2 c key now).2.entries.lookup k = c.entries.lookup k := by
  cases hkey : c.entries.lookup key with
  | none => rw [get2_of_free hkey]
  | some e =>
    by_cases hserve : e.ServableAt now
    · rw [get2_of_servable hkey hserve]
      exact AList.lookup_insert_ne hk
    · rw [get2_of_not_servable hkey hserve]
      exact AList.lookup_erase_ne hk

theorem lookup_get2 (h : (get2 c key now).2.entries.lookup k = some e) :
    ∃ e₀, c.entries.lookup k = some e₀ ∧ e = { e₀ with lastHit := e.lastHit } := by
  by_cases hk : k = key
  · subst hk
    cases hkey : c.entries.lookup k with
    | none =>
      rw [get2_of_free hkey, hkey] at h
      cases h
    | some e₀ =>
      by_cases hserve : e₀.ServableAt now
      · rw [get2_of_servable hkey hserve, AList.lookup_insert, Option.some.injEq] at h
        subst h
        exact ⟨e₀, rfl, rfl⟩
      · rw [get2_of_not_servable hkey hserve, AList.lookup_erase] at h
        cases h
  · rw [get2_lookup_ne hk] at h
    exact ⟨e, h, rfl⟩

end

/-! ## What a put leaves -/

variable {rrs : List AnswerRR} {rcode : Nat} {aa : Bool}

theorem putAnswer_of_none {now : Int} (h : entryFor rrs rcode aa now = none) :
    putAnswer c key rrs rcode aa now = c := by
  unfold putAnswer
  rw [h]

theorem putAnswer_of_some {now : Int} (h : entryFor rrs rcode aa now = some e) :
    putAnswer c key rrs rcode aa now = storeEntry c key e now := by
  unfold putAnswer
  rw [h]

@[simp] theorem countPut_nextStamp (c : ResponseCache) (now : Int) :
    (countPut c now).nextStamp = c.nextStamp + 1 := by
  unfold countPut
  dsimp only
  split <;> rfl

@[simp] theorem makeRoom_nextStamp (c : ResponseCache) : (makeRoom c).nextStamp = c.nextStamp := by
  unfold makeRoom evictOldest
  split
  · split <;> rfl
  · rfl

@[simp] theorem storeEntry_nextStamp (c : ResponseCache) (key : CacheKey) (e : CacheEntry)
    (now : Int) : (storeEntry c key e now).nextStamp = c.nextStamp + 1 := by
  show (makeRoom (countPut c now)).nextStamp = c.nextStamp + 1
  rw [makeRoom_nextStamp, countPut_nextStamp]

theorem countPut_sub (c : ResponseCache) (now : Int) :
    Table.Sub (countPut c now).entries c.entries := by
  unfold countPut
  dsimp only
  split
  · intro k e h
    exact (Table.lookup_reject.mp h).1
  · exact Table.Sub.refl _

theorem makeRoom_sub (c : ResponseCache) : Table.Sub (makeRoom c).entries c.entries := by
  unfold makeRoom evictOldest
  split
  · split
    · exact Table.Sub.refl _
    · exact Table.erase_sub _ _
  · exact Table.Sub.refl _

theorem storeEntry_lookup_self (c : ResponseCache) (key : CacheKey) (e : CacheEntry) (now : Int) :
    ∃ lastHit, (storeEntry c key e now).entries.lookup key =
      some { e with lastHit, stamp := c.nextStamp + 1 } :=
  ⟨_, AList.lookup_insert _⟩

theorem storeEntry_lookup_ne {now : Int} (h : k ≠ key) :
    (storeEntry c key e now).entries.lookup k = (makeRoom (countPut c now)).entries.lookup k :=
  AList.lookup_insert_ne h

theorem lookup_of_storeEntry_ne {e' : CacheEntry} {now : Int} (hk : k ≠ key)
    (h : (storeEntry c key e now).entries.lookup k = some e') : c.entries.lookup k = some e' := by
  rw [storeEntry_lookup_ne hk] at h
  exact countPut_sub c now _ _ (makeRoom_sub _ _ _ h)

/-! ## Runs -/

/-- The calls of the cache. -/
inductive CacheCall where
  | get (key : CacheKey) (now : Int)
  | put (key : CacheKey) (rrs : List AnswerRR) (rcode : Nat) (aa : Bool) (now : Int)

/-- When the call is made. -/
def CacheCall.now : CacheCall → Int
  | .get _ now => now
  | .put _ _ _ _ now => now

/-- The cache and the time of its last call. -/
structure ClockedCache where
  cache : ResponseCache
  clock : Int

/-- One call. -/
def cacheStep (s : ClockedCache) (call : CacheCall) : ClockedCache :=
  match call with
  | .get key now => ⟨(get2 s.cache key now).2, now⟩
  | .put key rrs rcode aa now => ⟨putAnswer s.cache key rrs rcode aa now, now⟩

/-- Time does not run back. -/
def InOrder (s : ClockedCache) (call : CacheCall) : Prop := s.clock ≤ call.now

instance (s : ClockedCache) (call : CacheCall) : Decidable (InOrder s call) :=
  inferInstanceAs (Decidable (_ ≤ _))

end Freens.Resolver
