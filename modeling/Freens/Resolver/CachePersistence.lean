/-
**THE CACHE ACROSS RESTARTS** (`resolver/cache.go`: `SaveIfDirty`, `LoadFrom`, over
`get2` and `putAnswer`).

Records that do not pack are left out of the file, an entry with a record that
does not unpack is skipped, and the text of a name is what the JSON decoder makes
of it.
-/
import Mathlib.Logic.Relation
import Freens.Resolver.CacheFrame
import Freens.Toy

namespace Freens.Resolver

open Library Naming

/-! ## The file -/

/-- How records and strings pass through the file. -/
structure FileCodec where
  packRR : AnswerRR → Option Bytes
  unpackRR : Bytes → Option AnswerRR
  /-- A string after `json.Marshal` and `json.Unmarshal`: what is not UTF-8 is
  replaced. -/
  jsonText : Bytes → Bytes

/-- An entry in the file. -/
structure PersistedEntry where
  name : Bytes
  qtype : UInt16
  qclass : UInt16
  rcode : Nat
  aa : Bool
  expiresAt : Int
  rrs : List Bytes
  deriving DecidableEq, Repr

/-- The file. -/
structure PersistedCache where
  savedAt : Int
  entries : List PersistedEntry
  deriving DecidableEq, Repr

variable (P : Primitives) (C : FileCodec)

/-- The entry as `SaveIfDirty` writes it; a record that does not pack is left
out. -/
def persistEntry (x : CacheKey × CacheEntry) : PersistedEntry :=
  { name := C.jsonText x.1.name, qtype := x.1.qtype, qclass := x.1.qclass, rcode := x.2.rcode
    aa := x.2.aa, expiresAt := x.2.expiresAt, rrs := x.2.rrs.filterMap C.packRR }

/-- The key an entry is loaded under. -/
def PersistedEntry.key (pe : PersistedEntry) : CacheKey :=
  { name := toLower P pe.name, qtype := pe.qtype, qclass := pe.qclass }

/-- The entry `LoadFrom` restores: all records unpack, and an authoritative success has some. -/
def restoreEntry (savedAt : Int) (pe : PersistedEntry) : Option CacheEntry :=
  match pe.rrs.mapM C.unpackRR with
  | none => none
  | some rrs =>
    if pe.aa ∧ pe.rcode = rcodeSuccess ∧ rrs.length = 0 then none
    else some { rrs, rcode := pe.rcode, aa := pe.aa, expiresAt := pe.expiresAt
                lastHit := savedAt, stamp := 0 }

/-- The loop of `LoadFrom`, with the count of what it restored. -/
def loadEntries (savedAt : Int) : List PersistedEntry → Nat → ResponseCache → ResponseCache
  | [], _, c => c
  | pe :: rest, restored, c =>
    if restored ≥ c.maxEntries then c
    else match restoreEntry C savedAt pe with
      | none => loadEntries savedAt rest restored c
      | some e =>
        loadEntries savedAt rest (restored + 1)
          { c with
            nextStamp := c.nextStamp + 1
            entries := c.entries.insert (pe.key P) { e with stamp := c.nextStamp + 1 } }

/-- `loadFrom`. -/
def loadFrom (file : PersistedCache) (c : ResponseCache) : ResponseCache :=
  loadEntries P C file.savedAt file.entries 0 c

/-! ## Runs -/

/-- The cache, its dirty flag, the file and the clock. -/
structure SavedCache where
  cache : ResponseCache
  dirty : Bool
  file : Option PersistedCache
  clock : Int

/-- What happens to them. A save visits the entries in the map's order and may
fail to write. -/
inductive SavedCall where
  | cache (call : CacheCall)
  | save (frozen : List (CacheKey × CacheEntry)) (written : Bool) (now : Int)
  | restart (maxEntries : Int)
  | load

/-- `SaveIfDirty`. After a failed write the cache is dirty again. -/
def saveIfDirty (s : SavedCache) (frozen : List (CacheKey × CacheEntry)) (written : Bool)
    (now : Int) : SavedCache :=
  if !s.dirty then { s with clock := now }
  else if written then
    { s with dirty := false, file := some ⟨now, frozen.map (persistEntry C)⟩, clock := now }
  else { s with clock := now }

/-- One call, save, load or restart. -/
def savedStep (s : SavedCache) (call : SavedCall) : SavedCache :=
  match call with
  | .cache (.get key now) => { s with cache := (get2 s.cache key now).2, clock := now }
  | .cache (.put key rrs rcode aa now) =>
    { s with
      cache := putAnswer s.cache key rrs rcode aa now
      dirty := s.dirty || (entryFor rrs rcode aa now).isSome
      clock := now }
  | .save frozen written now => saveIfDirty C s frozen written now
  | .restart maxEntries => { s with cache := newResponseCache maxEntries, dirty := false }
  | .load =>
    match s.file with
    | none => s
    | some file => { s with cache := loadFrom P C file s.cache }

/-- A reading of the clock, which is an int64 and does not run backwards. -/
def ReadsClock (s : SavedCache) (now : Int) : Prop :=
  s.clock ≤ now ∧ -(2 ^ 63) ≤ now ∧ now < 2 ^ 63

/-- The clock does not run back, a save visits every entry once, a load goes into an empty cache. -/
def SavedOk (s : SavedCache) : SavedCall → Prop
  | .cache call => ReadsClock s call.now
  | .save frozen _ now =>
    frozen.Perm (s.cache.entries.select (fun _ _ => true)) ∧ ReadsClock s now
  | .restart _ => True
  | .load => s.cache.entries.keys = []

instance (s : SavedCache) (now : Int) : Decidable (ReadsClock s now) :=
  inferInstanceAs (Decidable (_ ∧ _))

instance (s : SavedCache) : DecidablePred (SavedOk s)
  | .cache _ => inferInstanceAs (Decidable (ReadsClock _ _))
  | .save _ _ _ => inferInstanceAs (Decidable (_ ∧ _))
  | .restart _ => inferInstanceAs (Decidable True)
  | .load => inferInstanceAs (Decidable (_ = _))

/-- A fresh process, no file. -/
def startup (maxEntries clock : Int) : SavedCache := ⟨newResponseCache maxEntries, false, none, clock⟩

/-! ## Where an entry comes from -/

/-- What an entry answers with, and until when. -/
structure Content where
  key : CacheKey
  rrs : List AnswerRR
  rcode : Nat
  aa : Bool
  expiresAt : Int

/-- What an entry answers with, and under which key. -/
def CacheEntry.content (e : CacheEntry) (key : CacheKey) : Content :=
  ⟨key, e.rrs, e.rcode, e.aa, e.expiresAt⟩

/-- The file entry carries the content. -/
def PersistedEntry.Holds (pe : PersistedEntry) (x : Content) : Prop :=
  pe = { name := C.jsonText x.key.name, qtype := x.key.qtype, qclass := x.key.qclass
         rcode := x.rcode, aa := x.aa, expiresAt := x.expiresAt, rrs := x.rrs.filterMap C.packRR }

/-- The second content is the first one saved and loaded again. -/
def Reloads (x y : Content) : Prop :=
  ∃ pe, PersistedEntry.Holds C pe x ∧ y.key = pe.key P ∧ pe.rrs.mapM C.unpackRR = some y.rrs ∧
    y.rcode = pe.rcode ∧ y.aa = pe.aa ∧ y.expiresAt = pe.expiresAt

/-- A put of an answer. -/
structure AnswerPut where
  key : CacheKey
  rrs : List AnswerRR
  rcode : Nat
  aa : Bool
  now : Int

namespace AnswerPut

/-- As a call. -/
def call (p : AnswerPut) : SavedCall := .cache (.put p.key p.rrs p.rcode p.aa p.now)

/-- How long the outcome is cached: the least TTL of its records, capped, or the
negative TTL. -/
def ttl (p : AnswerPut) : Int :=
  if p.rcode = rcodeSuccess ∧ p.rrs.length > 0 then storedTTL p.rrs else negTTL

/-- When the answer expires. -/
def expiry (p : AnswerPut) : Int := p.now + p.ttl

/-- The content goes back to the put, through any number of restarts. -/
def Yields (p : AnswerPut) (x : Content) : Prop :=
  ∃ e, entryFor p.rrs p.rcode p.aa p.now = some e ∧
    Relation.ReflTransGen (Reloads P C) (e.content p.key) x

end AnswerPut

variable {P C} {rrs : List AnswerRR} {x : Content}

variable {e : CacheEntry} {p : AnswerPut} {savedAt now : Int} {k : CacheKey} {c : ResponseCache}
  {past : List SavedCall} {s : SavedCache}

theorem entryFor_spec (h : entryFor p.rrs p.rcode p.aa p.now = some e) :
    e.expiresAt = wrap64 p.expiry ∧ (e.rrs ≠ [] → p.ttl = storedTTL p.rrs) := by
  unfold entryFor at h
  unfold AnswerPut.expiry AnswerPut.ttl
  dsimp only at h
  split at h
  next hno =>
    cases h
    simp [hno.2.2]
  next =>
    split at h
    next hsome =>
      rw [if_pos hsome]
      split at h
      · cases h
      · cases h
        exact ⟨rfl, fun _ => rfl⟩
    next hnone =>
      rw [if_neg hnone]
      split at h
      · cases h
        exact ⟨rfl, fun hne => absurd rfl hne⟩
      · cases h

theorem AnswerPut.ttl_le (p : AnswerPut) : p.ttl ≤ 3600 := by
  unfold AnswerPut.ttl
  split
  · exact (le_storedTTL_iff.mp (le_refl (storedTTL p.rrs))).1
  · decide

theorem Reloads.keeps {y : Content} (h : Reloads P C x y) :
    y.expiresAt = x.expiresAt ∧ (x.rrs = [] → y.rrs = []) := by
  obtain ⟨pe, rfl, _, hrrs, _, _, hexpires⟩ := h
  refine ⟨hexpires, ?_⟩
  intro hnil
  dsimp only at hrrs
  rw [hnil, List.filterMap_nil, List.mapM_nil] at hrrs
  exact (Option.some.inj hrrs).symm

theorem AnswerPut.Yields.spec (h : p.Yields P C x) :
    x.expiresAt = wrap64 p.expiry ∧ (x.rrs ≠ [] → p.ttl = storedTTL p.rrs) := by
  obtain ⟨e, hentry, hreloads⟩ := h
  obtain ⟨hexpires, hpositive⟩ := entryFor_spec hentry
  have hkeeps : x.expiresAt = e.expiresAt ∧ (e.rrs = [] → x.rrs = []) := by
    induction hreloads with
    | refl => exact ⟨rfl, fun h => h⟩
    | tail _ hlast ih =>
      exact ⟨hlast.keeps.1.trans ih.1, fun h => hlast.keeps.2 (ih.2 h)⟩
  exact ⟨hkeeps.1.trans hexpires, fun hne => hpositive (fun hnil => hne (hkeeps.2 hnil))⟩

theorem restoreEntry_spec {pe : PersistedEntry} (h : restoreEntry C savedAt pe = some e) :
    pe.rrs.mapM C.unpackRR = some e.rrs ∧ e.rcode = pe.rcode ∧ e.aa = pe.aa ∧
      e.expiresAt = pe.expiresAt := by
  unfold restoreEntry at h
  split at h
  next => cases h
  next rrs hrrs =>
    split at h
    next => cases h
    cases h
    exact ⟨hrrs, rfl, rfl, rfl⟩

theorem lookup_loadEntries {pes : List PersistedEntry} {restored : Nat} {c : ResponseCache}
    (h : (loadEntries P C savedAt pes restored c).entries.lookup k = some e) :
    c.entries.lookup k = some e ∨
      ∃ pe ∈ pes, ∃ e₀, restoreEntry C savedAt pe = some e₀ ∧ k = pe.key P ∧
      e = { e₀ with stamp := e.stamp } := by
  induction pes generalizing restored c with
  | nil => exact .inl h
  | cons pe rest ih =>
    unfold loadEntries at h
    split at h
    next => exact .inl h
    cases hrestore : restoreEntry C savedAt pe with
    | none =>
      rw [hrestore] at h
      rcases ih h with hbefore | ⟨pe', hmem, hrest⟩
      · exact .inl hbefore
      · exact .inr ⟨pe', List.mem_cons_of_mem pe hmem, hrest⟩
    | some e₀ =>
      rw [hrestore] at h
      rcases ih h with hbefore | ⟨pe', hmem, hrest⟩
      · rcases Table.lookup_insert_cases hbefore with ⟨rfl, rfl⟩ | ⟨_, hold⟩
        · exact .inr ⟨pe, List.mem_cons_self, e₀, hrestore, rfl, rfl⟩
        · exact .inl hold
      · exact .inr ⟨pe', List.mem_cons_of_mem pe hmem, hrest⟩

/-! ## The size -/

/-- The bound holds. -/
structure Bounded (c : ResponseCache) : Prop where
  pos : 0 < c.maxEntries
  within : c.entries.keys.length ≤ c.maxEntries

theorem bounded_newResponseCache (maxEntries : Int) : Bounded (newResponseCache maxEntries) := by
  constructor
  · unfold newResponseCache
    dsimp only
    split
    · decide
    · omega
  · exact Nat.zero_le _

theorem Bounded.get2 (h : Bounded c) (key : CacheKey) (now : Int) : Bounded (get2 c key now).2 := by
  have hcap := (get2_frame c key now).1
  refine ⟨hcap ▸ h.pos, ?_⟩
  rw [hcap]
  cases hkey : c.entries.lookup key with
  | none =>
    rw [get2_of_free hkey]
    exact h.within
  | some e =>
    by_cases hserve : e.ServableAt now
    · -- the entry is touched in its place
      rw [get2_of_servable hkey hserve]
      have hmem : key ∈ c.entries.keys := Table.mem_of_lookup hkey
      have hpos := List.length_pos_of_mem hmem
      dsimp only
      rw [AList.keys_insert, List.length_cons, List.length_erase_of_mem hmem]
      have := h.within
      omega
    · rw [get2_of_not_servable hkey hserve]
      exact le_trans (Table.count_erase_le _ _) h.within

theorem count_countPut_le (c : ResponseCache) (now : Int) :
    (countPut c now).entries.keys.length ≤ c.entries.keys.length := by
  have hsub : (countPut c now).entries.keys ⊆ c.entries.keys := by
    intro k hk
    obtain ⟨e, he⟩ := Option.isSome_iff_exists.mp (AList.lookup_isSome.mpr hk)
    exact Table.mem_of_lookup (countPut_sub c now k e he)
  exact ((countPut c now).entries.keys_nodup.subperm hsub).length_le

@[simp] theorem countPut_maxEntries (c : ResponseCache) (now : Int) :
    (countPut c now).maxEntries = c.maxEntries := by
  unfold countPut
  dsimp only
  split <;> rfl

@[simp] theorem makeRoom_maxEntries (c : ResponseCache) :
    (makeRoom c).maxEntries = c.maxEntries := by
  unfold makeRoom evictOldest
  split
  · split <;> rfl
  · rfl

theorem makeRoom_lt (h : Bounded c) : (makeRoom c).entries.keys.length < c.maxEntries := by
  by_cases hfull : c.maxEntries ≤ c.entries.keys.length
  · have hpos := h.pos
    obtain ⟨k, hvictim⟩ := Full.victim ⟨lt_of_lt_of_le hpos hfull, hfull⟩
    obtain ⟨e, he, _⟩ := (victim_spec hvictim).2
    -- the victim's binding is gone and no other came
    have hsub : (makeRoom c).entries.keys ⊆ (c.entries.erase k).keys := by
      intro k' hk'
      obtain ⟨e', he'⟩ := Option.isSome_iff_exists.mp (AList.lookup_isSome.mpr hk')
      refine AList.mem_erase.mpr ⟨?_, Table.mem_of_lookup (makeRoom_sub c k' e' he')⟩
      rintro rfl
      rw [makeRoom_lookup_victim hvictim] at he'
      cases he'
    have hle := ((makeRoom c).entries.keys_nodup.subperm hsub).length_le
    have herase := Table.count_erase he
    have hwithin := h.within
    omega
  · have hsame : makeRoom c = c := if_neg hfull
    rw [hsame]
    omega

theorem Bounded.putAnswer (h : Bounded c) (key : CacheKey) (rrs : List AnswerRR) (rcode : Nat)
    (aa : Bool) (now : Int) : Bounded (putAnswer c key rrs rcode aa now) := by
  cases hentry : entryFor rrs rcode aa now with
  | none => rwa [putAnswer_of_none hentry]
  | some e =>
    rw [putAnswer_of_some hentry]
    have hcount : Bounded (countPut c now) := by
      refine ⟨by rw [countPut_maxEntries]; exact h.pos, ?_⟩
      rw [countPut_maxEntries]
      exact le_trans (count_countPut_le c now) h.within
    have hroom := makeRoom_lt hcount
    rw [countPut_maxEntries] at hroom
    have hmax : (storeEntry c key e now).maxEntries = c.maxEntries := by
      show (makeRoom (countPut c now)).maxEntries = c.maxEntries
      rw [makeRoom_maxEntries, countPut_maxEntries]
    refine ⟨by rw [hmax]; exact h.pos, ?_⟩
    rw [hmax]
    exact le_trans (Table.length_keys_insert_le _ _ _) hroom

theorem loadEntries_bounded {pes : List PersistedEntry} {restored : Nat} {c : ResponseCache}
    (h : Bounded c) (hcount : c.entries.keys.length ≤ restored) :
    Bounded (loadEntries P C savedAt pes restored c) := by
  induction pes generalizing restored c with
  | nil => exact h
  | cons pe rest ih =>
    unfold loadEntries
    split
    next => exact h
    next hmore =>
      cases restoreEntry C savedAt pe with
      | none => exact ih h hcount
      | some e =>
        have hinsert := Table.length_keys_insert_le c.entries (pe.key P)
          { e with stamp := c.nextStamp + 1 }
        refine ih ⟨h.pos, ?_⟩ ?_
        · show (c.entries.insert _ _).keys.length ≤ c.maxEntries
          omega
        · show (c.entries.insert _ _).keys.length ≤ restored + 1
          omega

/-! ## One step -/

/-- **The invariant.** The cache is bounded, and every entry of it and of the file goes back
to a put at a passed time. -/
structure Traced (P : Primitives) (C : FileCodec) (past : List SavedCall) (s : SavedCache) :
    Prop where
  bounded : Bounded s.cache
  entries : ∀ k e, s.cache.entries.lookup k = some e → ∃ p : AnswerPut,
    p.call ∈ past ∧ p.now ≤ s.clock ∧ -(2 ^ 63) ≤ p.now ∧ p.Yields P C (e.content k)
  file : ∀ file, s.file = some file → ∀ pe ∈ file.entries, ∃ (p : AnswerPut) (x : Content),
    p.call ∈ past ∧ p.now ≤ s.clock ∧ -(2 ^ 63) ≤ p.now ∧ p.Yields P C x ∧
      PersistedEntry.Holds C pe x

theorem Traced.startup (maxEntries clock : Int) : Traced P C [] (startup maxEntries clock) := by
  constructor
  · exact bounded_newResponseCache maxEntries
  · intro k e he
    cases he
  · intro file hfile
    cases hfile

theorem Traced.entries_later (h : Traced P C past s) (he : s.cache.entries.lookup k = some e)
    (hclock : s.clock ≤ now) (call : SavedCall) : ∃ p : AnswerPut,
      p.call ∈ past ++ [call] ∧ p.now ≤ now ∧ -(2 ^ 63) ≤ p.now ∧ p.Yields P C (e.content k) := by
  obtain ⟨p, hmem, hnow, hlow, hyields⟩ := h.entries k e he
  exact ⟨p, List.mem_append_left _ hmem, le_trans hnow hclock, hlow, hyields⟩

theorem Traced.file_later (h : Traced P C past s) (hclock : s.clock ≤ now)
    (call : SavedCall) : ∀ file, s.file = some file →
      ∀ pe ∈ file.entries, ∃ (p : AnswerPut) (x : Content),
        p.call ∈ past ++ [call] ∧ p.now ≤ now ∧ -(2 ^ 63) ≤ p.now ∧ p.Yields P C x ∧
          PersistedEntry.Holds C pe x := by
  intro file hfile pe hpe
  obtain ⟨p, x, hmem, hnow, hlow, hyields, hholds⟩ := h.file file hfile pe hpe
  exact ⟨p, x, List.mem_append_left _ hmem, le_trans hnow hclock, hlow, hyields, hholds⟩

theorem Traced.get {past : List SavedCall} {s : SavedCache} (h : Traced P C past s)
    {key : CacheKey} {now : Int} (hclock : ReadsClock s now) :
    Traced P C (past ++ [.cache (.get key now)]) (savedStep P C s (.cache (.get key now))) := by
  refine ⟨h.bounded.get2 key now, ?_, h.file_later hclock.1 _⟩
  intro k e he
  obtain ⟨e₀, he₀, heq⟩ := lookup_get2 he
  have hcontent : e.content k = e₀.content k := by rw [heq]; rfl
  rw [hcontent]
  exact h.entries_later he₀ hclock.1 _

theorem Traced.put {past : List SavedCall} {s : SavedCache} (h : Traced P C past s)
    {p : AnswerPut} (hclock : ReadsClock s p.now) :
    Traced P C (past ++ [p.call]) (savedStep P C s p.call) := by
  refine ⟨h.bounded.putAnswer _ _ _ _ _, ?_, h.file_later hclock.1 _⟩
  intro k e he
  have he : (putAnswer s.cache p.key p.rrs p.rcode p.aa p.now).entries.lookup k = some e := he
  cases hentry : entryFor p.rrs p.rcode p.aa p.now with
  | none =>
    rw [putAnswer_of_none hentry] at he
    exact h.entries_later he hclock.1 _
  | some e₁ =>
    rw [putAnswer_of_some hentry] at he
    by_cases hk : k = p.key
    · -- the entry just stored
      subst hk
      obtain ⟨lastHit, hself⟩ := storeEntry_lookup_self s.cache p.key e₁ p.now
      rw [hself, Option.some.injEq] at he
      subst he
      exact ⟨p, by simp, le_refl _, hclock.2.1, e₁, hentry, Relation.ReflTransGen.refl⟩
    · exact h.entries_later (lookup_of_storeEntry_ne hk he) hclock.1 _

theorem Traced.save (h : Traced P C past s) {frozen : List (CacheKey × CacheEntry)} {written : Bool}
    (hperm : frozen.Perm (s.cache.entries.select (fun _ _ => true))) (hclock : ReadsClock s now) :
    Traced P C (past ++ [.save frozen written now])
      (savedStep P C s (.save frozen written now)) := by
  show Traced P C _ (saveIfDirty C s frozen written now)
  have hsame : Traced P C (past ++ [.save frozen written now]) { s with clock := now } :=
    ⟨h.bounded, fun k e he => h.entries_later he hclock.1 _, h.file_later hclock.1 _⟩
  unfold saveIfDirty
  split
  · exact hsame
  split
  · refine ⟨h.bounded, hsame.entries, ?_⟩
    intro file hfile pe hpe
    cases hfile
    obtain ⟨⟨k, e⟩, hx, rfl⟩ := List.mem_map.mp hpe
    have he := (Table.mem_select.mp (hperm.mem_iff.mp hx)).1
    obtain ⟨p, hmem, hnow, hlow, hyields⟩ := hsame.entries k e he
    exact ⟨p, e.content k, hmem, hnow, hlow, hyields, rfl⟩
  · exact hsame

theorem Traced.load (h : Traced P C past s) (hempty : s.cache.entries.keys = []) :
    Traced P C (past ++ [.load]) (savedStep P C s .load) := by
  have hsame : Traced P C (past ++ [.load]) s :=
    ⟨h.bounded, fun k e he => h.entries_later he (le_refl _) _, h.file_later (le_refl _) _⟩
  unfold savedStep
  dsimp only
  cases hfile : s.file with
  | none => exact hsame
  | some file =>
    refine ⟨loadEntries_bounded h.bounded (by rw [hempty]; exact Nat.le_refl 0), ?_, ?_⟩
    · intro k e he
      rcases lookup_loadEntries he with hbefore | ⟨pe, hpe, e₀, hrestore, hk, heq⟩
      · exact hsame.entries k e hbefore
      · -- one more reload after those the file's entry went through
        obtain ⟨p, x, hmem, hnow, hlow, ⟨e₁, hentry, hreloads⟩, hholds⟩ :=
          hsame.file file hfile pe hpe
        obtain ⟨hrrs, hrcode, haa, hexpires⟩ := restoreEntry_spec hrestore
        have hcontent : e.content k = e₀.content (pe.key P) := by rw [heq, hk]; rfl
        refine ⟨p, hmem, hnow, hlow, e₁, hentry, hreloads.tail ?_⟩
        rw [hcontent]
        exact ⟨pe, hholds, rfl, hrrs, hrcode, haa, hexpires⟩
    · intro file' hfile'
      exact hsame.file file' (hfile.trans hfile')

theorem Traced.step (past : List SavedCall) (s : SavedCache) (call : SavedCall)
    (h : Traced P C past s) (hok : SavedOk s call) :
    Traced P C (past ++ [call]) (savedStep P C s call) := by
  cases call with
  | cache call =>
    cases call with
    | get key now => exact h.get hok
    | put key rrs rcode aa now => exact @Traced.put P C past s h ⟨key, rrs, rcode, aa, now⟩ hok
  | save frozen written now => exact h.save hok.1 hok.2
  | restart maxEntries =>
    refine ⟨bounded_newResponseCache maxEntries, ?_, h.file_later (le_refl _) _⟩
    intro k e he
    cases he
  | load => exact h.load hok

/-! ## Every run -/

/-- **What a read may serve**: the records of a put of the run, with TTLs within the put's own. -/
structure ServedFrom (P : Primitives) (C : FileCodec) (run : List SavedCall) (key : CacheKey)
    (now : Int) (a : CacheAnswer) (p : AnswerPut) : Prop where
  put : p.call ∈ run
  before : p.now ≤ now
  content : ∃ rrs ttl expiresAt, p.Yields P C ⟨key, rrs, a.rcode, a.aa, expiresAt⟩ ∧
    a.rrs = copyWithTTL rrs ttl
  fresh : a.status = .fresh → ∀ rr ∈ a.rrs, rr.ttl ≤ 3600 ∧
    ∀ rr₀ ∈ p.rrs, (rr.ttl : Int) ≤ rr₀.ttl - (now - p.now)
  stale : a.status = .stale → (∀ rr ∈ a.rrs, rr.ttl ≤ 30) ∧ now < p.expiry + 21600
  negative : a.rrs = [] → now < p.expiry

theorem ttl_of_mem_copyWithTTL {ttl : Nat} : ∀ rr ∈ copyWithTTL rrs ttl, rr.ttl = ttl := by
  intro rr hrr
  obtain ⟨rr₀, _, rfl⟩ := List.mem_map.mp hrr
  cases rr₀ <;> rfl

theorem remainingStale_le (e : CacheEntry) (now : Int) : e.remainingStale now ≤ 30 := by
  unfold CacheEntry.remainingStale
  split
  · exact Nat.le_refl _
  next h => exact not_lt.mp h

theorem expiresAt_le (hlow : -(2 ^ 63) ≤ p.now) (h : p.Yields P C (e.content k)) :
    e.expiresAt ≤ p.expiry ∧ e.staleUntil ≤ p.expiry + 21600 := by
  have hexpires : e.expiresAt = wrap64 p.expiry := h.spec.1
  have httl : 0 ≤ p.ttl := by
    unfold AnswerPut.ttl
    split
    · exact le_storedTTL_iff.mpr ⟨by decide, fun rr _ => Int.natCast_nonneg rr.ttl⟩
    · decide
  have hexpiry : -(2 ^ 63) ≤ p.expiry := by
    unfold AnswerPut.expiry
    omega
  have hle : e.expiresAt ≤ p.expiry := by
    rw [hexpires]
    exact wrap64_le hexpiry
  have hge : -(2 ^ 63) ≤ e.expiresAt := by
    rw [hexpires]
    exact wrap64_ge _
  have hstale : e.staleUntil ≤ e.expiresAt + 21600 := by
    show wrap64 (e.expiresAt + 21600) ≤ e.expiresAt + 21600
    exact wrap64_le (by omega)
  exact ⟨hle, by omega⟩

theorem fresh_ttl (hlow : -(2 ^ 63) ≤ p.now) (hnow : p.now ≤ now) (h : p.Yields P C (e.content k))
    (hlive : now < e.expiresAt) (hpos : e.rrs ≠ []) :
    uint32 (e.expiresAt - now) ≤ 3600 ∧
      ∀ rr₀ ∈ p.rrs, (uint32 (e.expiresAt - now) : Int) ≤ rr₀.ttl - (now - p.now) := by
  have hle := (expiresAt_le hlow h).1
  have hcap := p.ttl_le
  have hstored : p.ttl = storedTTL p.rrs := h.spec.2 hpos
  have hexact : (uint32 (e.expiresAt - now) : Int) = e.expiresAt - now := by
    unfold uint32
    unfold AnswerPut.expiry at hle
    omega
  unfold AnswerPut.expiry at hle
  refine ⟨by omega, ?_⟩
  intro rr₀ hrr₀
  have hmin := (le_storedTTL_iff.mp (le_refl _)).2 rr₀ hrr₀
  omega

theorem Traced.served {run : List SavedCall} (h : Traced P C run s) {key : CacheKey}
    (hkey : s.cache.entries.lookup key = some e) (hserve : e.ServableAt now)
    (hclock : ReadsClock s now) : ∃ p, ServedFrom P C run key now (e.answer now) p := by
  obtain ⟨p, hmem, hbefore, hlow, hyields⟩ := h.entries key e hkey
  have hbefore : p.now ≤ now := le_trans hbefore hclock.1
  obtain ⟨hexpiry, hwindow⟩ := expiresAt_le hlow hyields
  refine ⟨p, ?_⟩
  by_cases hlive : now < e.expiresAt
  · have hanswer : e.answer now =
        ⟨copyWithTTL e.rrs (uint32 (e.expiresAt - now)), e.rcode, e.aa, .fresh⟩ := if_pos hlive
    rw [hanswer]
    refine ⟨hmem, hbefore, ⟨e.rrs, _, e.expiresAt, hyields, rfl⟩, ?_, ?_, ?_⟩
    · intro _ rr hrr
      have hpos : e.rrs ≠ [] := by
        intro hnil
        rw [hnil] at hrr
        cases hrr
      rw [ttl_of_mem_copyWithTTL rr hrr]
      exact fresh_ttl hlow hbefore hyields hlive hpos
    · intro h
      cases h
    · intro _
      omega
  · have hstale := hserve.resolve_left hlive
    have hanswer : e.answer now =
        ⟨copyWithTTL e.rrs (e.remainingStale now), e.rcode, e.aa, .stale⟩ := if_neg hlive
    rw [hanswer]
    refine ⟨hmem, hbefore, ⟨e.rrs, _, e.expiresAt, hyields, rfl⟩, ?_, ?_, ?_⟩
    · intro h
      cases h
    · intro _
      refine ⟨?_, by omega⟩
      intro rr hrr
      rw [ttl_of_mem_copyWithTTL rr hrr]
      exact remainingStale_le e now
    · intro hnil
      have hlen := congrArg List.length hnil
      simp only [copyWithTTL, List.length_map, List.length_nil] at hlen
      omega

/-- **Cache time and size safety.** Over every run the cache stays within its limit, and a
read misses or is answered from a put: fresh with at most the rest of its least TTL and
3600, stale with at most 30 and less than 21600 seconds late. -/
theorem cache_time_and_size_safe (P : Primitives) (C : FileCodec) (maxEntries clock : Int)
    (run : List SavedCall) (hrun : EachStep (savedStep P C) SavedOk (startup maxEntries clock) run) :
    (run.foldl (savedStep P C) (startup maxEntries clock)).cache.entries.keys.length ≤
        (run.foldl (savedStep P C) (startup maxEntries clock)).cache.maxEntries ∧
      ∀ key now, ReadsClock (run.foldl (savedStep P C) (startup maxEntries clock)) now →
        (get2 (run.foldl (savedStep P C) (startup maxEntries clock)).cache key now).1 = .missed ∨
          ∃ p, ServedFrom P C run key now
            (get2 (run.foldl (savedStep P C) (startup maxEntries clock)).cache key now).1 p := by
  have htraced : Traced P C ([] ++ run) (run.foldl (savedStep P C) (startup maxEntries clock)) :=
    EachStep.history Traced.step (Traced.startup maxEntries clock) hrun
  rw [List.nil_append] at htraced
  refine ⟨htraced.bounded.within, ?_⟩
  intro key now hclock
  cases hkey : (run.foldl (savedStep P C) (startup maxEntries clock)).cache.entries.lookup key with
  | none =>
    rw [get2_of_free hkey]
    exact .inl rfl
  | some e =>
    by_cases hserve : e.ServableAt now
    · right
      rw [get2_of_servable hkey hserve]
      exact htraced.served hkey hserve hclock
    · rw [get2_of_not_servable hkey hserve]
      exact .inl rfl

namespace PersistenceSample

def codec : FileCodec where
  packRR
    | .upstream ttl rest => if ttl < 256 then some (ttl.toUInt8 :: rest) else none
    | .freens _ => none
  unpackRR
    | [] => none
    | ttl :: rest => some (.upstream ttl.toNat rest)
  jsonText := id

def record : AnswerRR := .upstream 10 [1, 2, 3]

def entry : CacheEntry :=
  { rrs := [record], rcode := rcodeSuccess, aa := false, expiresAt := 10, lastHit := 0, stamp := 1 }

def restarted : List SavedCall :=
  [.cache (.put StaleSample.keyA [record] rcodeSuccess false 0),
   .save [(StaleSample.keyA, entry)] true 4, .restart 1, .load]

end PersistenceSample

section
open PersistenceSample

theorem safe_after_restart :
    EachStep (savedStep Toy.primitives codec) SavedOk (startup 2 0) restarted ∧
    (get2 (restarted.foldl (savedStep Toy.primitives codec) (startup 2 0)).cache StaleSample.keyA
      4).1 = ⟨[.upstream 6 [1, 2, 3]], rcodeSuccess, false, .fresh⟩ ∧
    (restarted.foldl (savedStep Toy.primitives codec) (startup 2 0)).cache.entries.keys.length ≤
      (restarted.foldl (savedStep Toy.primitives codec) (startup 2 0)).cache.maxEntries ∧
    ((get2 (restarted.foldl (savedStep Toy.primitives codec) (startup 2 0)).cache StaleSample.keyA
      4).1 = .missed ∨
      ∃ p, ServedFrom Toy.primitives codec restarted StaleSample.keyA 4
        (get2 (restarted.foldl (savedStep Toy.primitives codec) (startup 2 0)).cache
          StaleSample.keyA 4).1 p) := by
  have hrun : EachStep (savedStep Toy.primitives codec) SavedOk (startup 2 0) restarted := by
    decide +kernel
  have hsafe := cache_time_and_size_safe Toy.primitives codec 2 0 restarted hrun
  exact ⟨hrun, by decide +kernel, hsafe.1, hsafe.2 StaleSample.keyA 4 (by decide +kernel)⟩

end

end Freens.Resolver
