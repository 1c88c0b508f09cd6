/-
**THE STORE'S BOOKS** (`dht/store.go`, `dht/evidence.go`): three tables next to
running byte counters that no method ever recounts.
-/
import Freens.Dht.StoreSpec
import Freens.Library.Ledger
import Freens.Library.Run

namespace Freens.Dht

open Library Naming Wire

variable {P : Primitives}

/-! ## A table of entries and its counter -/

/-- What an entry weighs. -/
def Entry.weight (e : Entry) : Int := e.env.bytes.length

/-- The cached sizes are the real ones, and the counter is their sum. -/
structure Balanced (t : Table Bytes Entry) (counter : Int) : Prop where
  cached : ∀ k e, t.lookup k = some e → e.size = e.weight
  counter_eq : counter = t.total Entry.weight

theorem Balanced.empty : Balanced ∅ 0 := ⟨fun _ _ h => absurd h (by simp), rfl⟩

variable {e : Entry} {t : Table Bytes Entry} {k : Bytes} {c m : Int} {s : EnvelopeStore}
  {fuel : Nat}

theorem Balanced.weightAt_eq (h : Balanced t c)
    (hk : t.lookup k = some e) : t.weightAt Entry.weight k = e.size := by
  rw [Table.weightAt_of_lookup hk, h.cached k e hk]

theorem Balanced.erase (h : Balanced t c)
    (hk : t.lookup k = some e) : Balanced (t.erase k) (c - e.size) := by
  refine ⟨fun k' e' hk' => h.cached k' e' (Table.erase_sub t k k' e' hk'), ?_⟩
  rw [Table.total_erase, h.weightAt_eq hk, h.counter_eq]

theorem Balanced.insert (h : Balanced t c) (he : e.size = e.weight) :
    Balanced (t.insert k e) (c - t.weightAt Entry.weight k + e.size) := by
  refine ⟨?_, by rw [Table.total_insert, h.counter_eq, he]⟩
  intro k' e' hk'
  rcases Table.lookup_insert_cases hk' with ⟨_, rfl⟩ | ⟨_, hold⟩
  · exact he
  · exact h.cached k' e' hold

theorem Entry.sized_weight (h : e.size = e.weight ∨ e.size = 0) :
    e.sized.size = e.sized.weight := by
  unfold Entry.sized
  split
  · rfl
  · next hne => exact h.resolve_right hne

theorem Entry.sized_of_cached (h : e.size = e.weight) : e.sized = e := by
  unfold Entry.sized
  split
  · obtain ⟨env, size, lastAccess⟩ := e
    exact congrArg (fun n => Entry.mk env n lastAccess) h.symm
  · rfl

/-! ## The history -/

theorem evictHistoryOldest_balanced (h : Balanced s.history s.historyBytes)
    (hpos : 0 < s.history.keys.length) :
    ∃ t b, evictHistoryOldest s = { s with history := t, historyBytes := b } ∧ Balanced t b ∧
      t.keys.length + 1 = s.history.keys.length := by
  unfold evictHistoryOldest
  cases hold : oldest (s.history.select (fun _ _ => true)) with
  | none =>
    obtain ⟨k, hk⟩ := List.exists_mem_of_length_pos hpos
    obtain ⟨e, he⟩ := Option.isSome_iff_exists.mp (AList.lookup_isSome.mpr hk)
    have hmem : (k, e) ∈ s.history.select (fun _ _ => true) := Table.mem_select.mpr ⟨he, rfl⟩
    exact absurd hold (oldest_ne_none hmem)
  | some victim =>
    obtain ⟨k, e⟩ := victim
    have hk : s.history.lookup k = some e := (Table.mem_select.mp (oldest_unbeaten hold).mem).1
    exact ⟨s.history.erase k, s.historyBytes - e.size, rfl, h.erase hk, Table.count_erase hk⟩

theorem boundHistory_balanced {s : EnvelopeStore} (h : Balanced s.history s.historyBytes)
    (hfuel : s.history.keys.length ≤ fuel + 1) :
    ∃ t b, boundHistory fuel s = { s with history := t, historyBytes := b } ∧ Balanced t b ∧
      Within historyMax s.histMaxBytes t.keys.length b := by
  induction fuel generalizing s with
  | zero => exact ⟨s.history, s.historyBytes, rfl, h, .inr (by omega)⟩
  | succ fuel ih =>
    unfold boundHistory
    by_cases hover : (s.history.keys.length > historyMax ∨ s.historyBytes > s.histMaxBytes)
        ∧ s.history.keys.length > 1
    · rw [if_pos hover]
      obtain ⟨t, b, heq, hbal, hcount⟩ := evictHistoryOldest_balanced h (by omega)
      have hfuel' : t.keys.length ≤ fuel + 1 := by omega
      obtain ⟨t', b', heq', hbal', hwithin⟩ :=
        ih (s := { s with history := t, historyBytes := b }) hbal hfuel'
      exact ⟨t', b', by rw [heq, heq'], hbal', hwithin⟩
    · rw [if_neg hover]
      exact ⟨s.history, s.historyBytes, rfl, h, within_iff_not_over.mpr hover⟩

theorem insertHistory_balanced (h : Balanced s.history s.historyBytes)
    (he : e.size = e.weight ∨ e.size = 0) :
    Balanced (insertHistory P s e).history (insertHistory P s e).historyBytes := by
  have hins := h.insert (k := e.env.recordHash P) (Entry.sized_weight he)
  unfold insertHistory
  cases hk : s.history.lookup (e.env.recordHash P) with
  | none =>
    rw [Table.weightAt_of_free hk] at hins
    exact hins
  | some old =>
    rw [h.weightAt_eq hk] at hins
    exact hins

theorem retainHistory_balanced {s : EnvelopeStore} {e : Entry}
    (h : Balanced s.history s.historyBytes) (he : e.size = e.weight ∨ e.size = 0) :
    ∃ t b, retainHistory P s e = { s with history := t, historyBytes := b } ∧ Balanced t b ∧
      Within historyMax s.histMaxBytes t.keys.length b :=
  boundHistory_balanced (s := insertHistory P s e) (insertHistory_balanced h he) (Nat.le_succ _)

/-! ## The evidence -/

/-- What a blob weighs. -/
def blobWeight (raw : Bytes) : Int := raw.length

/-- The counter is the sum of the blobs, and the queue lists the keys once each. -/
structure Queued (t : Table Bytes Bytes) (order : List Bytes) (counter : Int) : Prop where
  counter_eq : counter = t.total blobWeight
  nodup : order.Nodup
  keys : ∀ k, k ∈ order ↔ k ∈ t

theorem Queued.empty : Queued ∅ [] 0 :=
  ⟨rfl, List.nodup_nil, fun k => by simp⟩

variable {order : List Bytes} {victims : List (Bytes × Entry)}

theorem Queued.pop {t : Table Bytes Bytes} {first : Bytes} (h : Queued t (first :: order) c) :
    Queued (t.erase first) order (c - ((t.lookup first).getD []).length) ∧
      (t.erase first).keys.length + 1 = t.keys.length := by
  have hmem : first ∈ t := (h.keys first).mp List.mem_cons_self
  obtain ⟨raw, hraw⟩ := Option.isSome_iff_exists.mp (AList.lookup_isSome.mpr hmem)
  have hlists : Table.Lists order (t.erase first) := Table.Lists.pop ⟨h.nodup, h.keys⟩
  refine ⟨⟨?_, hlists.nodup, hlists.keys⟩, Table.count_erase hraw⟩
  rw [Table.total_erase, Table.weightAt_of_lookup hraw, h.counter_eq, hraw]
  rfl

theorem Queued.insert {t : Table Bytes Bytes} (h : Queued t order c) (k raw : Bytes) :
    Queued (t.insert k raw) (if k ∈ order then order else order ++ [k])
      (c - t.weightAt blobWeight k + raw.length) := by
  have hold : Table.Lists order t := ⟨h.nodup, h.keys⟩
  have hlists : Table.Lists (if k ∈ order then order else order ++ [k]) (t.insert k raw) := by
    split
    · next hk => exact hold.update hk raw
    · next hk => exact hold.push hk raw
  refine ⟨?_, hlists.nodup, hlists.keys⟩
  rw [Table.total_insert, h.counter_eq]
  rfl

theorem boundEvidence_queued {s : EnvelopeStore}
    (h : Queued s.evidence s.evidenceOrder s.evidenceBytes)
    (hfuel : s.evidence.keys.length ≤ fuel + 1) :
    ∃ t order b, boundEvidence fuel s =
      { s with evidence := t, evidenceOrder := order, evidenceBytes := b } ∧
      Queued t order b ∧ Within evidenceMax s.evidMaxBytes t.keys.length b := by
  induction fuel generalizing s with
  | zero => exact ⟨s.evidence, s.evidenceOrder, s.evidenceBytes, rfl, h, .inr hfuel⟩
  | succ fuel ih =>
    unfold boundEvidence
    by_cases hover : (s.evidence.keys.length > evidenceMax ∨ s.evidenceBytes > s.evidMaxBytes)
        ∧ s.evidence.keys.length > 1
    · rw [if_pos hover]
      cases horder : s.evidenceOrder with
      | nil =>
        -- the queue lists the keys, of which there are two
        obtain ⟨k, hk⟩ := List.exists_mem_of_length_pos (Nat.lt_of_succ_lt hover.2)
        have hqueued := (h.keys k).mpr hk
        rw [horder] at hqueued
        exact absurd hqueued List.not_mem_nil
      | cons first order =>
        rw [horder] at h
        obtain ⟨hpop, hcount⟩ := h.pop
        have hfuel' : (s.evidence.erase first).keys.length ≤ fuel + 1 := by omega
        exact ih (s := { s with
          evidenceOrder := order
          evidenceBytes := s.evidenceBytes - ((s.evidence.lookup first).getD []).length
          evidence := s.evidence.erase first }) hpop hfuel'
    · rw [if_neg hover]
      exact ⟨s.evidence, s.evidenceOrder, s.evidenceBytes, rfl, h, within_iff_not_over.mpr hover⟩

theorem insertEvidence_queued (k raw : Bytes)
    (h : Queued s.evidence s.evidenceOrder s.evidenceBytes) :
    ∃ t order b, insertEvidence s k raw =
        { s with evidence := t, evidenceOrder := order, evidenceBytes := b } ∧
      Queued t order b ∧ Within evidenceMax s.evidMaxBytes t.keys.length b := by
  have hins := h.insert k raw
  unfold insertEvidence
  cases hk : s.evidence.lookup k with
  | none =>
    have hnew : k ∉ s.evidenceOrder := fun hmem => AList.lookup_eq_none.mp hk ((h.keys k).mp hmem)
    rw [if_neg hnew, Table.weightAt_of_free hk, sub_zero] at hins
    exact boundEvidence_queued (s := { s with
      evidenceOrder := s.evidenceOrder ++ [k]
      evidence := s.evidence.insert k raw
      evidenceBytes := s.evidenceBytes + raw.length }) hins (Nat.le_succ _)
  | some old =>
    have hknown : k ∈ s.evidenceOrder := (h.keys k).mpr (Table.mem_of_lookup hk)
    rw [if_pos hknown, Table.weightAt_of_lookup hk] at hins
    exact boundEvidence_queued (s := { s with
      evidence := s.evidence.insert k raw
      evidenceBytes := s.evidenceBytes - old.length + raw.length }) hins (Nat.le_succ _)

/-! ## The books as a whole -/

/-- The counters are sums of what is held, the queue lists the evidence keys once each, the
side tables are bounded. -/
structure Accounted (maxBytes : Int) (s : EnvelopeStore) : Prop where
  limits : s.maxBytes = maxBytes ∧ s.histMaxBytes = historyMaxBytes ∧
    s.evidMaxBytes = evidenceMaxBytes
  entries : Balanced s.entries s.bytes
  history : Balanced s.history s.historyBytes
  history_within : Within historyMax s.histMaxBytes s.history.keys.length s.historyBytes
  evidence : Queued s.evidence s.evidenceOrder s.evidenceBytes
  evidence_within : Within evidenceMax s.evidMaxBytes s.evidence.keys.length s.evidenceBytes

/-- The slots are within the byte cap, or at most one is bound. -/
def Capped (s : EnvelopeStore) : Prop := s.bytes ≤ s.maxBytes ∨ s.entries.keys.length ≤ 1

theorem Accounted.retainHistory (h : Accounted m s)
    (he : e.size = e.weight ∨ e.size = 0) : Accounted m (retainHistory P s e) := by
  obtain ⟨t, b, heq, hbal, hwithin⟩ := retainHistory_balanced (P := P) h.history he
  rw [heq]
  exact ⟨h.limits, h.entries, hbal, hwithin, h.evidence, h.evidence_within⟩

theorem Accounted.withEntries {b : Int} (h : Accounted m s)
    (ht : Balanced t b) : Accounted m { s with entries := t, bytes := b } :=
  ⟨h.limits, ht, h.history, h.history_within, h.evidence, h.evidence_within⟩

/-! ## Leaving the slots -/

theorem evict_bytes (h : Accounted m s)
    (hk : s.entries.lookup k = some e) : (evict P s (k, e)).bytes = s.bytes - e.size := by
  show (Dht.retainHistory P s e).bytes - e.sized.size = s.bytes - e.size
  rw [retainHistory_bytes, Entry.sized_of_cached (h.entries.cached k e hk)]

theorem Accounted.evict (h : Accounted m s)
    (hk : s.entries.lookup k = some e) : Accounted m (evict P s (k, e)) := by
  have hcached := h.entries.cached k e hk
  refine (h.retainHistory (P := P) (.inl hcached)).withEntries ?_
  rw [retainHistory_entries, retainHistory_bytes, Entry.sized_of_cached hcached]
  exact h.entries.erase hk

theorem evict_bound (hnotin : k ∉ victims.map Prod.fst)
    (hbound : ∀ k' e', (k', e') ∈ (k, e) :: victims → s.entries.lookup k' = some e') :
    ∀ k' e', (k', e') ∈ victims → (Dht.evict P s (k, e)).entries.lookup k' = some e' := by
  intro k' e' hmem
  have hne : k' ≠ k := fun heq => hnotin (List.mem_map.mpr ⟨(k', e'), hmem, heq⟩)
  rw [evict_entries, AList.lookup_erase_ne hne]
  exact hbound k' e' (List.mem_cons_of_mem _ hmem)

theorem Accounted.foldl_evict :
    ∀ {s : EnvelopeStore}, Accounted m s → (victims.map Prod.fst).Nodup →
      (∀ k e, (k, e) ∈ victims → s.entries.lookup k = some e) →
      Accounted m (victims.foldl (Dht.evict P) s) := by
  induction victims with
  | nil => exact fun h _ _ => h
  | cons v victims ih =>
    intro s h hnodup hbound
    rw [List.map_cons, List.nodup_cons] at hnodup
    obtain ⟨k, e⟩ := v
    exact ih (h.evict (hbound k e List.mem_cons_self)) hnodup.2 (evict_bound hnodup.1 hbound)

theorem Accounted.sweep (h : Accounted m s)
    (p : Bytes → Entry → Bool) : Accounted m ((s.entries.select p).foldl (Dht.evict P) s) :=
  h.foldl_evict (Table.select_nodup s.entries p) (fun _ _ hmem => (Table.mem_select.mp hmem).1)

theorem Accounted.shedLRU {protectedKey : Bytes} :
    ∀ {s : EnvelopeStore}, Accounted m s → s.entries.keys.length ≤ fuel + 1 →
      Accounted m (shedLRU P protectedKey fuel s) ∧ Capped (Dht.shedLRU P protectedKey fuel s) := by
  induction fuel with
  | zero => exact fun h hfuel => ⟨h, .inr hfuel⟩
  | succ fuel ih =>
    intro s h hfuel
    unfold Dht.shedLRU
    by_cases hover : s.bytes > s.maxBytes ∧ s.entries.keys.length > 1
    · rw [if_pos hover]
      cases hold : oldest (s.entries.select (fun k _ => k ≠ protectedKey)) with
      | none =>
        -- two entries are bound, so one of them is not protected
        obtain ⟨k, e, hk, hne⟩ := Table.exists_other_of_count hover.2 protectedKey
        have hmem : (k, e) ∈ s.entries.select (fun k _ => k ≠ protectedKey) :=
          Table.mem_select.mpr ⟨hk, by simpa using hne⟩
        exact absurd hold (oldest_ne_none hmem)
      | some victim =>
        obtain ⟨k, e⟩ := victim
        have hk : s.entries.lookup k = some e := (Table.mem_select.mp (oldest_unbeaten hold).mem).1
        have hcount := Table.count_erase hk
        refine ih (h.evict hk) ?_
        rw [evict_entries]
        show (s.entries.erase k).keys.length ≤ fuel + 1
        omega
    · rw [if_neg hover]
      refine ⟨h, ?_⟩
      unfold Capped
      omega

theorem Accounted.enforceCap (h : Accounted m s) (now : Int) (protectedKey : Bytes) :
    Accounted m (enforceCap P s now protectedKey) ∧ Capped (Dht.enforceCap P s now protectedKey) :=
  (h.sweep _).shedLRU (Nat.le_succ _)

/-! ## Installing -/

theorem Accounted.bindWinner {env : SignedEnvelope} {now prevSize : Int} (h : Accounted m s)
    (hprev : prevSize = s.entries.weightAt Entry.weight k) :
    Accounted m (bindWinner s k env now prevSize) := by
  refine h.withEntries ?_
  have hins := h.entries.insert (k := k)
    (e := { env, size := env.bytes.length, lastAccess := now }) rfl
  rw [← hprev] at hins
  have hsum : s.bytes + ((env.bytes.length : Int) - prevSize) =
      s.bytes - prevSize + env.bytes.length := by omega
  rw [hsum]
  exact hins

theorem Accounted.displace (h : Accounted m s) (k : Bytes) (env : SignedEnvelope)
    (now : Int) : Accounted m (displace P s k env now) := by
  unfold Dht.displace
  cases hk : s.entries.lookup k with
  | none => exact h.bindWinner (Table.weightAt_of_free hk).symm
  | some cur =>
    have hcached := h.entries.cached k cur hk
    refine (h.retainHistory (P := P) (.inl hcached)).bindWinner ?_
    rw [retainHistory_entries, h.entries.weightAt_eq hk]

theorem Accounted.install (h : Accounted m s) (k : Bytes) (env : SignedEnvelope) (now : Int) :
    Accounted m (install P s k env now) ∧ Capped (Dht.install P s k env now) :=
  ((h.displace k env now).sweep _).enforceCap now k

theorem touch_balanced {s : EnvelopeStore} {k : Bytes} {now : Int}
    (h : Balanced s.entries s.bytes) :
    ∃ t, touch s k now = { s with entries := t } ∧ Balanced t s.bytes ∧
      t.keys.length = s.entries.keys.length := by
  unfold touch
  cases hk : s.entries.lookup k with
  | none => exact ⟨s.entries, rfl, h, rfl⟩
  | some e =>
    refine ⟨s.entries.insert k { e with lastAccess := now }, rfl, ?_, ?_⟩
    · have hins := h.insert (k := k) (e := { e with lastAccess := now }) (h.cached k e hk)
      rw [h.weightAt_eq hk, sub_add_cancel] at hins
      exact hins
    · rw [AList.keys_insert, List.length_cons, ← AList.keys_erase]
      exact Table.count_erase hk

/-- The books balance and the bounds hold. -/
def Kept (m : Int) (s : EnvelopeStore) : Prop := Accounted m s ∧ Capped s

theorem Kept.touch (h : Kept m s) (k : Bytes) (now : Int) : Kept m (touch s k now) := by
  obtain ⟨t, heq, hbal, hcount⟩ := @touch_balanced s k now h.1.entries
  rw [heq]
  refine ⟨h.1.withEntries hbal, ?_⟩
  unfold Capped
  rw [hcount]
  exact h.2

/-! ## The methods, and runs of them -/

theorem Kept.putWithEvidence (h : Kept m s) (key : Bytes) (env : SignedEnvelope) (now : Int)
    (verify : Bool) (evidence : Bytes) :
    Kept m (putWithEvidence P s key env now verify evidence).2 := by
  unfold Dht.putWithEvidence
  split
  · exact h
  split
  · exact h
  · cases judge P s key env now evidence with
    | refuse => exact h
    | refresh => exact h.touch key now
    | install => exact h.1.install key env now

theorem Capped.erase {s' : EnvelopeStore} (h : Kept m s) (hk : s.entries.lookup k = some e)
    (hentries : s'.entries = s.entries.erase k) (hbytes : s'.bytes = s.bytes - e.size)
    (hmax : s'.maxBytes = s.maxBytes) : Capped s' := by
  have hcount := Table.count_erase_le s.entries k
  have hsize : 0 ≤ e.size := by
    rw [h.1.entries.cached k e hk]
    exact Int.natCast_nonneg _
  unfold Capped
  rw [hentries, hbytes, hmax]
  rcases h.2 with hunder | hone
  · exact .inl (by omega)
  · exact .inr (by omega)

theorem Kept.evict (h : Kept m s)
    (hk : s.entries.lookup k = some e) : Kept m (evict P s (k, e)) := by
  have hafter := h.1.evict (P := P) hk
  refine ⟨hafter, Capped.erase h hk (evict_entries s (k, e)) (evict_bytes h.1 hk) ?_⟩
  rw [hafter.limits.1, h.1.limits.1]

theorem Kept.get {m : Int} {s : EnvelopeStore} (h : Kept m s) (key : Bytes) (now : Int) :
    Kept m (get P s key now).2 := by
  unfold Dht.get
  split
  · exact h
  · cases hk : s.entries.lookup key with
    | none => exact h
    | some e =>
      dsimp only
      split
      · exact h.evict hk
      · exact h.touch key now

theorem Kept.remove {m : Int} {s : EnvelopeStore} (h : Kept m s) (key : Bytes) :
    Kept m (remove s key).2 := by
  unfold Dht.remove
  split
  · exact h
  · cases hk : s.entries.lookup key with
    | none => exact h
    | some e => exact ⟨h.1.withEntries (h.1.entries.erase hk), Capped.erase h hk rfl rfl rfl⟩

theorem Kept.retainHistory (h : Kept m s)
    (he : e.size = e.weight ∨ e.size = 0) : Kept m (retainHistory P s e) := by
  have hafter := h.1.retainHistory (P := P) he
  refine ⟨hafter, ?_⟩
  unfold Capped
  rw [retainHistory_bytes, retainHistory_entries, hafter.limits.1, ← h.1.limits.1]
  exact h.2

theorem Kept.putEvidence (h : Kept m s) (recordHash raw : Bytes) :
    Kept m (putEvidence P s recordHash raw) := by
  rw [putEvidence_eq]
  split
  next =>
    obtain ⟨t, order, b, heq, hqueued, hwithin⟩ :=
      insertEvidence_queued recordHash raw h.1.evidence
    rw [heq]
    exact ⟨⟨h.1.limits, h.1.entries, h.1.history, h.1.history_within, hqueued, hwithin⟩, h.2⟩
  next => exact h

/-- The calls of the store. -/
inductive StoreCall where
  | put (key : Bytes) (env : SignedEnvelope) (now : Int) (verifySignature : Bool)
  | putWithEvidence (key : Bytes) (env : SignedEnvelope) (now : Int) (verifySignature : Bool)
      (evidence : Bytes)
  | get (key : Bytes) (now : Int)
  | remove (key : Bytes)
  /-- The clock is the store's own. -/
  | retainHistory (env : SignedEnvelope) (now : Int)
  | putEvidence (recordHash evidence : Bytes)

/-- One call. -/
def storeStep (P : Primitives) (s : EnvelopeStore) : StoreCall → EnvelopeStore
  | .put key env now verify => (put P s key env now verify).2
  | .putWithEvidence key env now verify evidence =>
    (putWithEvidence P s key env now verify evidence).2
  | .get key now => (get P s key now).2
  | .remove key => (remove s key).2
  | .retainHistory env now => retainHistoryEnv P s env now
  | .putEvidence recordHash evidence => putEvidence P s recordHash evidence

theorem Kept.step {m : Int} {s : EnvelopeStore} (h : Kept m s) (call : StoreCall) :
    Kept m (storeStep P s call) := by
  cases call with
  | put key env now verify => exact h.putWithEvidence key env now verify []
  | putWithEvidence key env now verify evidence =>
    exact h.putWithEvidence key env now verify evidence
  | get key now => exact h.get key now
  | remove key => exact h.remove key
  | retainHistory env now =>
    show Kept m (retainHistoryEnv P s env now)
    unfold retainHistoryEnv
    split
    · exact h.retainHistory (.inr rfl)
    · exact h
  | putEvidence recordHash evidence => exact h.putEvidence recordHash evidence

theorem Kept.new (maxBytes : Int) :
    Kept (newEnvelopeStore maxBytes).maxBytes (newEnvelopeStore maxBytes) :=
  ⟨⟨⟨rfl, rfl, rfl⟩, Balanced.empty, Balanced.empty, .inr (Nat.zero_le 1), Queued.empty,
    .inr (Nat.zero_le 1)⟩, .inr (Nat.zero_le 1)⟩

theorem Kept.run (maxBytes : Int) (calls : List StoreCall) :
    Kept (newEnvelopeStore maxBytes).maxBytes
      (calls.foldl (storeStep P) (newEnvelopeStore maxBytes)) :=
  @EachStep.invariant _ _ (storeStep P) (fun _ _ => True) (Kept (newEnvelopeStore maxBytes).maxBytes)
    (fun _ call h _ => h.step call) _ _ (Kept.new maxBytes)
    (EachStep.of_forall_mem (fun _ _ _ => trivial))

/-- **Store accounting.** In every run the counters are the sums of what the tables hold,
the queue lists the evidence keys, and each table is within its limits or holds at most one
element. -/
theorem store_accounting (maxBytes : Int) (calls : List StoreCall) :
    let s := calls.foldl (storeStep P) (newEnvelopeStore maxBytes)
    s.bytes = s.entries.total (fun e => (e.env.bytes.length : Int)) ∧
    s.historyBytes = s.history.total (fun e => (e.env.bytes.length : Int)) ∧
    s.evidenceBytes = s.evidence.total (fun raw => (raw.length : Int)) ∧
    s.evidenceOrder.Nodup ∧ (∀ k, k ∈ s.evidenceOrder ↔ k ∈ s.evidence) ∧
    (s.bytes ≤ (newEnvelopeStore maxBytes).maxBytes ∨ s.entries.keys.length ≤ 1) ∧
    Within historyMax historyMaxBytes s.history.keys.length s.historyBytes ∧
    Within evidenceMax evidenceMaxBytes s.evidence.keys.length s.evidenceBytes := by
  intro s
  obtain ⟨hbooks, hcapped⟩ : Kept (newEnvelopeStore maxBytes).maxBytes s := Kept.run maxBytes calls
  obtain ⟨hmax, hhist, hevid⟩ := hbooks.limits
  refine ⟨hbooks.entries.counter_eq, hbooks.history.counter_eq, hbooks.evidence.counter_eq,
    hbooks.evidence.nodup, hbooks.evidence.keys, ?_, ?_, ?_⟩
  · rw [← hmax]
    exact hcapped
  · rw [← hhist]
    exact hbooks.history_within
  · rw [← hevid]
    exact hbooks.evidence_within

end Freens.Dht
