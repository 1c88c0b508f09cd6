/-
**NETWORK CACHES AND THEIR FETCH STAMPS** (`dht/transport.go`: `Lookup`,
`LookupClaim`, `stampFetchedAt`, `LoadFetchMetaJSON`; `dht/claims_lookup.go`).

A key without a stamp counts as published here and is served without
re-validation. Both lookups stamp what they cache; the cache-back of a claim
collection stamps nothing.
-/
import Freens.Dht.KeyBinding
import Freens.Library.Ledger

namespace Freens.Dht

open Library Naming Wire

/-! ## Calls on one lookup -/

/-- A call, with what the network answers to it. -/
inductive ReadCall where
  | lookup (kind : LookupKind) (name : Bytes) (now : Int) (walk retry : Walk)
  | collect (aliasName : Bytes) (now nodeNow : Int) (walk : ClaimWalk)
  /-- `FetchMetaJSON`: the lookup is read only. -/
  | saveMeta
  | loadMeta (data : Option FetchMeta)

/-- The lookup, the time of its last call, and the log of what was fetched and stored, by key. -/
structure CachingLookup where
  lookup : DHTLookup
  clock : Int
  fetched : List (Bytes × SignedEnvelope)

section
variable (P : Primitives)

/-- What a lookup fetches from the network. -/
def lookupFetch (l : DHTLookup) (key : Bytes) (now : Int) (walk retry : Walk) :
    Option SignedEnvelope :=
  if (readLocal P l key now).1.2 then none else (walkResult P walk retry now).1

/-- The lookup as the cache-back of a collection finds it. -/
def collectRead (l : DHTLookup) (key : Bytes) (now nodeNow : Int) : DHTLookup :=
  { l with store := (get P (get P l.store key now).2 key nodeNow).2 }

/-- What a collection caches. -/
def collectCached (l : DHTLookup) (key : Bytes) (now nodeNow : Int) (walk : ClaimWalk) :
    Option SignedEnvelope :=
  if !l.hasNode then none
  else match mergeCollect P (get P l.store key now).1.toOption.join
      (get P (get P l.store key now).2 key nodeNow).1.toOption.join walk with
    | .error _ => none
    | .ok set => cacheCandidate (collectRead P l key now nodeNow) key set now

/-- What a collection fetched and cached back; other candidates are this store's own. -/
def collectFetch (l : DHTLookup) (key : Bytes) (now nodeNow : Int) (walk : ClaimWalk) :
    Option SignedEnvelope :=
  (collectCached P l key now nodeNow walk).filter (fun env => env ∈ walk.offers)

/-- The key a call reads. -/
def ReadCall.key : ReadCall → Option Bytes
  | .lookup kind name _ _ _ => (lookupKey P kind name).toOption
  | .collect aliasName _ _ _ => (keyForClaim P aliasName).toOption
  | _ => none

/-- What a call fetches. -/
def ReadCall.fetch (l : DHTLookup) (key : Bytes) : ReadCall → Option SignedEnvelope
  | .lookup _ _ now walk retry => lookupFetch P l key now walk retry
  | .collect _ now nodeNow walk => collectFetch P l key now nodeNow walk
  | _ => none

/-- What a call does to the lookup. -/
def ReadCall.run (l : DHTLookup) : ReadCall → DHTLookup
  | .lookup kind name now walk retry => (lookupBy P kind l name now walk retry).2
  | .collect aliasName now nodeNow walk => (collectClaims P l aliasName now nodeNow walk).2
  | .saveMeta => l
  | .loadMeta data => l.loadFetchMeta data

/-- When a call is made. -/
def ReadCall.time (clock : Int) : ReadCall → Int
  | .lookup _ _ now _ _ => now
  | .collect _ now _ _ => now
  | _ => clock

/-- One call, with its fetch logged. -/
def readStep (s : CachingLookup) (call : ReadCall) : CachingLookup :=
  { lookup := call.run P s.lookup
    clock := call.time s.clock
    fetched := ((call.key P).bind (fun key => (call.fetch P s.lookup key).map (key, ·))).toList
      ++ s.fetched }

end

/-- **The link**: every live entry that was fetched has a stamp. -/
def Stamped (s : CachingLookup) : Prop :=
  ∀ k e, s.lookup.store.entries.lookup k = some e → alive e.env s.clock = true →
    (k, e.env) ∈ s.fetched → (s.lookup.fetchedAt.lookup k).isSome

variable {P : Primitives}

/-! ## The stamp table -/

variable {env : SignedEnvelope} {t now nodeNow : Int} {k key aliasName name : Bytes}
  {l : DHTLookup} {s : CachingLookup} {kind : LookupKind} {retry : Walk} {walk : ClaimWalk}

theorem alive_antitone {t' : Int} (h : t ≤ t')
    (halive : alive env t' = true) : alive env t = true := by
  unfold alive at *
  simp only [decide_eq_true_eq] at *
  omega

theorem has_of_alive {s : EnvelopeStore} {e : Entry} (hk : k.length = 32)
    (he : s.entries.lookup k = some e) (halive : alive e.env now = true) : has s k now = true := by
  unfold has
  rw [if_neg (by simp [hk]), he]
  exact halive

theorem lookup_foldl_erase {dead : List Bytes} (hk : k ∉ dead) :
    ∀ (t : Table Bytes Int), (dead.foldl (fun t k => t.erase k) t).lookup k = t.lookup k := by
  induction dead with
  | nil => exact fun t => rfl
  | cons d dead ih =>
    intro t
    rw [List.mem_cons, not_or] at hk
    rw [List.foldl_cons, ih hk.2, AList.lookup_erase_ne hk.1]

theorem stampFetchedAt_lookup (h : has l.store k now = true) :
    (l.stampFetchedAt key now).fetchedAt.lookup k = (l.fetchedAt.insert key now).lookup k := by
  unfold DHTLookup.stampFetchedAt
  dsimp only
  split
  · rfl
  · refine lookup_foldl_erase ?_ _
    intro hmem
    have hdead := (List.mem_filter.mp hmem).2
    rw [h] at hdead
    cases hdead

theorem insert_isSome {t : Table Bytes Int} {v : Int}
    (h : (t.lookup k).isSome) : ((t.insert key v).lookup k).isSome := by
  by_cases hk : k = key
  · rw [hk, AList.lookup_insert]
    rfl
  · rwa [AList.lookup_insert_ne hk]

theorem loadFetchMeta_isSome {data : Option FetchMeta}
    (h : (l.fetchedAt.lookup k).isSome) : ((l.loadFetchMeta data).fetchedAt.lookup k).isSome := by
  have hfold : ∀ (members : FetchMeta) (t : Table Bytes Int), (t.lookup k).isSome →
      ((members.foldl loadStamp t).lookup k).isSome := by
    intro members
    induction members with
    | nil => exact fun t ht => ht
    | cons m members ih =>
      intro t ht
      refine ih _ ?_
      unfold loadStamp
      split
      · exact ht
      split
      · exact ht
      · exact insert_isSome ht
  cases data with
  | none => exact h
  | some members => exact hfold members l.fetchedAt h

theorem foldl_loadStamp_of_notMem {members : List (Bytes × Int)}
    (hk : k ∉ members.map Prod.fst) : ∀ (t : Table Bytes Int),
    ((members.map (fun x => (some x.1, x.2))).foldl loadStamp t).lookup k = t.lookup k := by
  induction members with
  | nil => exact fun t => rfl
  | cons m members ih =>
    intro t
    rw [List.map_cons, List.mem_cons, not_or] at hk
    rw [List.map_cons, List.foldl_cons, ih hk.2, loadStamp]
    dsimp only
    split
    · rfl
    · exact AList.lookup_insert_ne hk.1

/-- **What was saved is restored**: the stamp of every proper key. -/
theorem loadFetchMeta_fetchMeta {l' : DHTLookup} {v : Int} (hk : k.length = 32)
    (h : l.fetchedAt.lookup k = some v) :
    (l'.loadFetchMeta (some l.fetchMeta)).fetchedAt.lookup k = some v := by
  have hfold : ∀ (members : List (Bytes × Int)) (t : Table Bytes Int),
      (members.map Prod.fst).Nodup → (k, v) ∈ members →
      ((members.map (fun x => (some x.1, x.2))).foldl loadStamp t).lookup k = some v := by
    intro members
    induction members with
    | nil => exact fun t _ hmem => absurd hmem List.not_mem_nil
    | cons m members ih =>
      intro t hnodup hmem
      rw [List.map_cons, List.nodup_cons] at hnodup
      rcases List.mem_cons.mp hmem with hhead | htail
      · -- the only member for the key
        subst hhead
        rw [List.map_cons, List.foldl_cons, foldl_loadStamp_of_notMem hnodup.1, loadStamp]
        dsimp only
        rw [if_neg (by simp [hk]), AList.lookup_insert]
      · exact ih _ hnodup.2 htail
  exact hfold _ _ (Table.select_nodup _ _) (Table.mem_select.mpr ⟨h, rfl⟩)

theorem readLocal_lookup (l : DHTLookup) (key : Bytes) (now : Int) :
    (readLocal P l key now).2 = { l with store := (get P l.store key now).2 } := rfl

theorem lookupAt_snd (kind : LookupKind) (l : DHTLookup) (key : Bytes) (now : Int)
    (walk retry : Walk) :
    (lookupAt P kind l key now walk retry).2 =
      match lookupFetch P l key now walk retry with
      | none => { l with store := (get P l.store key now).2 }
      | some env =>
        { l with store := (put P (get P l.store key now).2 key env now true).2 }.stampFetchedAt
          key now := by
  rcases hread : readLocal P l key now with ⟨⟨cached, served⟩, l'⟩
  have hl' : l' = { l with store := (get P l.store key now).2 } := by
    rw [← readLocal_lookup, hread]
  unfold lookupAt lookupFetch
  rw [hread]
  cases served with
  | true => exact hl'
  | false =>
    simp only [Bool.false_eq_true, if_false]
    unfold finishLookup
    rcases hwalk : walkResult P walk retry now with ⟨env, gerr⟩
    cases env with
    | none => exact hl'
    | some env => rw [hl']

theorem collectClaims_snd (hkey : keyForClaim P aliasName = .ok key) (now nodeNow : Int)
    (walk : ClaimWalk) :
    (collectClaims P l aliasName now nodeNow walk).2 =
      match collectCached P l key now nodeNow walk with
      | some env => cacheBack P (collectRead P l key now nodeNow) key env now
      | none =>
        if l.hasNode then collectRead P l key now nodeNow
        else { l with store := (get P l.store key now).2 } := by
  obtain ⟨store, stamps, hasNode⟩ := l
  unfold collectClaims collectCached
  rw [hkey]
  cases hasNode with
  | false => rfl
  | true =>
    dsimp only [Bool.not_true, Bool.false_eq_true, if_false]
    cases mergeCollect P (get P store key now).1.toOption.join
        (get P (get P store key now).2 key nodeNow).1.toOption.join walk with
    | error e => rfl
    | ok set =>
      show (match cacheCandidate (collectRead P ⟨store, stamps, true⟩ key now nodeNow) key set now with
        | none => (.ok set, collectRead P ⟨store, stamps, true⟩ key now nodeNow)
        | some first =>
          (.ok set, cacheBack P (collectRead P ⟨store, stamps, true⟩ key now nodeNow) key first now) :
            Except CollectError (List SignedEnvelope) × DHTLookup).2 = _
      dsimp only
      cases cacheCandidate (collectRead P ⟨store, stamps, true⟩ key now nodeNow) key set now with
      | none | some first => rfl

/-! ## One call keeps the link -/

/-- A collection that cannot launder: its slot is live at both clocks, or stamped, or
nothing valid is offered. -/
def ReadCall.KeepsStamps (P : Primitives) (l : DHTLookup) : ReadCall → Prop
  | .collect aliasName now nodeNow walk => ∀ key, keyForClaim P aliasName = .ok key →
      l.hasNode = true →
      (has l.store key now = true ∧ has l.store key nodeNow = true) ∨
      (l.fetchedAt.lookup key).isSome ∨ ∀ env ∈ walk.offers, env.verifySignature P = false
  | _ => True

/-- The link, with what its proof needs: fetched keys are proper ones. -/
structure Linked (s : CachingLookup) : Prop where
  keys : ∀ k env, (k, env) ∈ s.fetched → k.length = 32
  stamped : Stamped s

/-- **What keeps the link**: what is held was held or just fetched, live entries keep their
stamps, and the fetched one has one. -/
theorem Linked.next (new : Option (Bytes × SignedEnvelope)) (h : Linked s) (ht : s.clock ≤ t)
    (hkeys : ∀ k env, new = some (k, env) → k.length = 32)
    (hheld : ∀ k env, Holds l.store k env → Holds s.lookup.store k env ∨ new = some (k, env))
    (hkept : ∀ k e, k.length = 32 → l.store.entries.lookup k = some e → alive e.env t = true →
      (s.lookup.fetchedAt.lookup k).isSome → (l.fetchedAt.lookup k).isSome)
    (hnew : ∀ k env e, new = some (k, env) → l.store.entries.lookup k = some e →
      alive e.env t = true → (l.fetchedAt.lookup k).isSome) :
    Linked ⟨l, t, new.toList ++ s.fetched⟩ := by
  have hlog : ∀ k env, (k, env) ∈ new.toList ++ s.fetched →
      new = some (k, env) ∨ (k, env) ∈ s.fetched := by
    intro k env hmem
    rw [List.mem_append, Option.mem_toList] at hmem
    exact hmem
  refine ⟨fun k env hmem => (hlog k env hmem).elim (hkeys k env) (h.keys k env), ?_⟩
  intro k e he halive hmem
  have hentry : Holds l.store k e.env := by
    rw [Holds, show l.store.entries.lookup k = some e from he]
    rfl
  rcases hlog k e.env hmem with hfetched | hold
  · exact hnew k e.env e hfetched he halive
  · rcases hheld k e.env hentry with hbefore | hfetched
    · -- held and fetched before this call: its stamp is still there
      obtain ⟨e₀, he₀, henv⟩ := Option.map_eq_some_iff.mp hbefore
      have hstamp := h.stamped k e₀ he₀ (by rw [henv]; exact alive_antitone ht halive)
        (by rw [henv]; exact hold)
      exact hkept k e (h.keys k e.env hold) he halive hstamp
    · exact hnew k e.env e hfetched he halive

theorem lookupKey_length (h : lookupKey P kind name = .ok key) : key.length = 32 := by
  cases kind with
  | record => exact keyForWireName_length h
  | claim => exact keyForClaim_length h

theorem lookupBy_of_key {walk : Walk} (h : lookupKey P kind name = .ok key) :
    lookupBy P kind l name now walk retry = lookupAt P kind l key now walk retry := by
  cases kind with
  | record => rw [lookupBy, Dht.lookup, h]
  | claim => rw [lookupBy, lookupClaim, h]

theorem lookupBy_of_error {walk : Walk} {e : NamingError} (h : lookupKey P kind name = .error e) :
    lookupBy P kind l name now walk retry = (.error (.naming e), l) := by
  cases kind with
  | record => rw [lookupBy, Dht.lookup, h]
  | claim => rw [lookupBy, lookupClaim, h]

theorem Linked.idle (h : Linked s) (ht : s.clock ≤ t) : Linked ⟨s.lookup, t, s.fetched⟩ :=
  h.next none ht (fun _ _ hnew => by cases hnew) (fun _ _ hheld => .inl hheld)
    (fun _ _ _ _ _ hstamp => hstamp) (fun _ _ _ hnew => by cases hnew)

theorem Linked.lookup {walk : Walk} (h : Linked s) (ht : s.clock ≤ now) :
    Linked (readStep P s (.lookup kind name now walk retry)) := by
  show Linked ⟨(lookupBy P kind s.lookup name now walk retry).2, now,
    ((lookupKey P kind name).toOption.bind (fun key =>
      (lookupFetch P s.lookup key now walk retry).map (key, ·))).toList ++ s.fetched⟩
  cases hkey : lookupKey P kind name with
  | error e =>
    rw [lookupBy_of_error hkey]
    exact h.idle ht
  | ok key =>
    rw [lookupBy_of_key hkey, lookupAt_snd]
    show Linked ⟨_, now, ((lookupFetch P s.lookup key now walk retry).map (key, ·)).toList ++ s.fetched⟩
    cases lookupFetch P s.lookup key now walk retry with
    | none =>
      exact h.next none ht (fun _ _ hnew => by cases hnew)
        (fun _ _ hheld => .inl (holds_get hheld)) (fun _ _ _ _ _ hstamp => hstamp)
        (fun _ _ _ hnew => by cases hnew)
    | some env =>
      refine h.next (some (key, env)) ht ?_ ?_ ?_ ?_
      · intro k e hnew
        rw [← (Prod.mk.inj (Option.some.inj hnew)).1]
        exact lookupKey_length hkey
      · intro k e hheld
        rw [stampFetchedAt_store] at hheld
        rcases holds_putWithEvidence hheld with hbefore | ⟨hk, he, _⟩
        · exact .inl (holds_get hbefore)
        · exact .inr (by rw [hk, he])
      · -- a live entry's stamp survives the pruning
        intro k e hlen he halive hstamp
        rw [stampFetchedAt_store] at he
        rw [stampFetchedAt_lookup (has_of_alive hlen he halive)]
        exact insert_isSome hstamp
      · intro k e entry hnew he halive
        rw [← (Prod.mk.inj (Option.some.inj hnew)).1] at he ⊢
        rw [stampFetchedAt_store] at he
        rw [stampFetchedAt_lookup (has_of_alive (lookupKey_length hkey) he halive),
          AList.lookup_insert]
        rfl

theorem collectCached_cases (h : collectCached P l key now nodeNow walk = some env) :
    env.verifySignature P = true ∧ l.hasNode = true ∧
      has (collectRead P l key now nodeNow).store key now = false ∧
      (env ∈ walk.offers ∨ Holds l.store key env) := by
  unfold collectCached at h
  split at h
  · cases h
  · next hnode =>
    split at h
    · cases h
    · next set hset =>
      unfold cacheCandidate at h
      split at h
      · cases h
      · next hempty =>
        have hleast := least_of_mergeCollect hset h
        obtain ⟨hcand, hsig⟩ := List.mem_filter.mp hleast.1
        refine ⟨hsig, by simpa using hnode, by simpa using hempty, ?_⟩
        rcases mem_candidates hcand with hown | hoffer
        · right
          -- both of the collection's own copies were read under the key
          rcases List.mem_append.mp hown with hfirst | hsecond
          · exact holds_of_get (Option.mem_toList.mp hfirst)
          · exact holds_get (holds_of_get (Option.mem_toList.mp hsecond))
        · exact .inl hoffer

theorem get_holds {s : EnvelopeStore} {e : SignedEnvelope} (h : Holds s key e)
    (halive : alive e now = true) : Holds (get P s key now).2 key e := by
  obtain ⟨entry, hentry, henv⟩ := Option.map_eq_some_iff.mp h
  unfold get
  split
  · exact h
  · rw [hentry]
    dsimp only
    rw [henv, halive]
    exact (touch_lookup_env s key key now).trans h

theorem has_iff_holds {s : EnvelopeStore} (hkey : key.length = 32) :
    has s key now = true ↔ ∃ e, Holds s key e ∧ alive e now = true := by
  unfold has Holds
  rw [if_neg (by simp [hkey])]
  cases s.entries.lookup key with
  | none | some e => simp

theorem has_collectRead (hkey : key.length = 32) (h : has l.store key now = true)
    (hnode : has l.store key nodeNow = true) :
    has (collectRead P l key now nodeNow).store key now = true := by
  obtain ⟨e, hheld, halive⟩ := (has_iff_holds hkey).mp h
  obtain ⟨e', hheld', halive'⟩ := (has_iff_holds hkey).mp hnode
  have hsame : e' = e := Option.some.inj (hheld'.symm.trans hheld)
  rw [hsame] at halive'
  exact (has_iff_holds hkey).mpr ⟨e, get_holds (get_holds hheld halive) halive', halive⟩

theorem collectFetch_stamped (hkey : keyForClaim P aliasName = .ok key)
    (hkeeps : (ReadCall.collect aliasName now nodeNow walk).KeepsStamps P l)
    (h : collectFetch P l key now nodeNow walk = some env) : (l.fetchedAt.lookup key).isSome := by
  obtain ⟨hcached, hoffer⟩ := Option.filter_eq_some_iff.mp h
  obtain ⟨hsig, hnode, hempty, _⟩ := collectCached_cases hcached
  rcases hkeeps key hkey hnode with ⟨hlive, hliveNode⟩ | hstamp | hinvalid
  · rw [has_collectRead (keyForClaim_length hkey) hlive hliveNode] at hempty
    cases hempty
  · exact hstamp
  · rw [hinvalid env (of_decide_eq_true hoffer)] at hsig
    cases hsig

theorem Linked.collect (h : Linked s) (ht : s.clock ≤ now)
    (hkeeps : (ReadCall.collect aliasName now nodeNow walk).KeepsStamps P s.lookup) :
    Linked (readStep P s (.collect aliasName now nodeNow walk)) := by
  show Linked ⟨(collectClaims P s.lookup aliasName now nodeNow walk).2, now,
    ((keyForClaim P aliasName).toOption.bind (fun key =>
      (collectFetch P s.lookup key now nodeNow walk).map (key, ·))).toList ++ s.fetched⟩
  cases hkey : keyForClaim P aliasName with
  | error e =>
    rw [show (collectClaims P s.lookup aliasName now nodeNow walk).2 = s.lookup by
      rw [collectClaims, hkey]]
    exact h.idle ht
  | ok key =>
    have hstamps : (collectClaims P s.lookup aliasName now nodeNow walk).2.fetchedAt =
        s.lookup.fetchedAt := by
      rw [collectClaims_snd hkey]
      split
      · rfl
      · split <;> rfl
    refine h.next ((collectFetch P s.lookup key now nodeNow walk).map (key, ·)) ht ?_ ?_ ?_ ?_
    · intro k env hnew
      obtain ⟨env', _, hpair⟩ := Option.map_eq_some_iff.mp hnew
      rw [← (Prod.mk.inj hpair).1]
      exact keyForClaim_length hkey
    · intro k env hheld
      rw [collectClaims_snd hkey] at hheld
      cases hcached : collectCached P s.lookup key now nodeNow walk with
      | none =>
        rw [hcached] at hheld
        dsimp only at hheld
        split at hheld
        · exact .inl (holds_get (holds_get hheld))
        · exact .inl (holds_get hheld)
      | some cached =>
        rw [hcached] at hheld
        rcases holds_putWithEvidence hheld with hbefore | ⟨hk, henv, _⟩
        · exact .inl (holds_get (holds_get hbefore))
        · -- the cached envelope is an offer or the store's own copy
          rw [hk, henv]
          rcases (collectCached_cases hcached).2.2.2 with hoffer | hown
          · right
            rw [collectFetch, hcached, Option.filter_some, if_pos (decide_eq_true hoffer)]
            rfl
          · exact .inl hown
    · intro k e _ _ _ hstamp
      rw [hstamps]
      exact hstamp
    · intro k env e hnew _ _
      obtain ⟨env', hfetch, hpair⟩ := Option.map_eq_some_iff.mp hnew
      rw [hstamps, ← (Prod.mk.inj hpair).1]
      exact collectFetch_stamped hkey hkeeps hfetch

/-! ## Runs -/

/-- The condition on a step: the clock does not run backwards, and a collection
cannot launder. -/
def KeepsLink (P : Primitives) (s : CachingLookup) (call : ReadCall) : Prop :=
  s.clock ≤ call.time s.clock ∧ call.KeepsStamps P s.lookup

theorem Linked.step {s : CachingLookup} {call : ReadCall} (h : Linked s)
    (hok : KeepsLink P s call) : Linked (readStep P s call) := by
  cases call with
  | lookup kind name now walk retry => exact h.lookup hok.1
  | collect aliasName now nodeNow walk => exact h.collect hok.1 hok.2
  | saveMeta => exact h.idle le_rfl
  | loadMeta data =>
    have hstore : (s.lookup.loadFetchMeta data).store = s.lookup.store := by
      cases data <;> rfl
    refine h.next (l := s.lookup.loadFetchMeta data) none le_rfl
      (fun _ _ hnew => by cases hnew) ?_ (fun _ _ _ _ _ hstamp => loadFetchMeta_isSome hstamp)
      (fun _ _ _ hnew => by cases hnew)
    intro k env hheld
    rw [hstore] at hheld
    exact .inl hheld

/-- **Network caches are stamped.** While the clock does not run back and no collection
fills an empty unstamped slot, every live entry that was fetched has a stamp. -/
theorem fetched_stamped (l : DHTLookup) (start : Int) (calls : List ReadCall)
    (h : EachStep (readStep P) (KeepsLink P) ⟨l, start, []⟩ calls) :
    Stamped (calls.foldl (readStep P) ⟨l, start, []⟩) := by
  have hstart : Linked ⟨l, start, []⟩ :=
    ⟨fun _ _ hmem => absurd hmem List.not_mem_nil, fun _ _ _ _ hmem => absurd hmem List.not_mem_nil⟩
  exact (EachStep.invariant (fun _ _ hlinked hok => hlinked.step hok) hstart h).stamped

/-! ## A claim read twice, and a claim collected -/

namespace StampSample

open Toy

def offered : SignedEnvelope := carrier 1 (minedClaim 1 aliasA 1000 quorum) 1000 100000

def fresh : CachingLookup := ⟨⟨newEnvelopeStore 0, ∅, true⟩, 2000, []⟩

def lookedUp : List ReadCall :=
  [.lookup .claim aliasA 2000 (.probes [.answered [offered]]) .island,
    .collect aliasA 2100 2100 (.answered [offered])]

def collected : List ReadCall := [.collect aliasA 2000 2000 (.answered [offered])]

end StampSample

theorem lookup_then_collect_stamped :
    Stamped (StampSample.lookedUp.foldl (readStep Toy.mined) StampSample.fresh) := by
  refine fetched_stamped ⟨newEnvelopeStore 0, ∅, true⟩ 2000 StampSample.lookedUp ?_
  refine ⟨⟨by decide, trivial⟩, ⟨by decide, ?_⟩, trivial⟩
  intro key hkey _
  rw [Toy.keyForClaim_aliasA, Except.ok.injEq] at hkey
  rw [← hkey]
  exact .inl ⟨by decide +kernel, by decide +kernel⟩

/-- **A collected claim is laundered**: cached without a stamp, it is served past its day
without asking the network. -/
theorem collect_unstamped :
    ¬ Stamped (StampSample.collected.foldl (readStep Toy.mined) StampSample.fresh) ∧
    (StampSample.collected.foldl (readStep Toy.mined) StampSample.fresh).lookup.fresh Toy.keyA
      StampSample.offered 90000 = true ∧
    2000 + cacheFreshness StampSample.offered < 90000 := by
  refine ⟨?_, by decide +kernel, by decide +kernel⟩
  intro h
  have hstamp := h Toy.keyA ⟨StampSample.offered, StampSample.offered.bytes.length, 2000⟩
    (by decide +kernel) (by decide +kernel) (by decide +kernel)
  exact absurd hstamp (by decide +kernel)

end Freens.Dht
