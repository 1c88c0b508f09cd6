/-
**THE SIDE TABLES OF THE CLAIM POOL** (`dht/claims_pool.go`: `OfferSeen`,
`StoreReAttests`, `bindRetainedMeta`, `Sweep`; `dht/claims_lookup.go`).

The first-seen stamps and the re-attestations go with an evicted key, and the
sweep prunes them, but it walks the pooled keys only. A slot is what is held at a
key: the claims and both side tables.
-/
import Freens.Dht.FreshEvidence
import Freens.Dht.PoolBudget

namespace Freens.Dht

open Library Naming Wire Claims

variable {P : Primitives}

/-! ## Slots -/

/-- All a pool holds at a key. -/
def ClaimPool.slotAt (p : ClaimPool) (k : Bytes) :
    Option (List PooledClaim) × Option (Table Bytes Int) ×
      Option (Table Bytes (List WitnessAttestation)) :=
  (p.byKey.lookup k, p.firstSeen.lookup k, p.reattests.lookup k)

/-- A side table follows the claims: pooled keys only, and their identities. -/
def SideFollows {ν : Type} (P : Primitives) (claims : Option (List PooledClaim))
    (side : Option (Table Bytes ν)) : Prop :=
  ∀ ids, side = some ids → ∃ members, claims = some members ∧
    ∀ ph ∈ ids, ∃ m ∈ members, m.claim.prefixHash P = .ok ph

/-- **The side tables follow the pool** at a key. -/
def FollowsAt (P : Primitives) (p : ClaimPool) (k : Bytes) : Prop :=
  SideFollows P (p.byKey.lookup k) (p.firstSeen.lookup k) ∧
    SideFollows P (p.byKey.lookup k) (p.reattests.lookup k)

/-- **Anchored at a key**: the side tables hold it only when it is pooled. -/
def AnchoredAt (p : ClaimPool) (k : Bytes) : Prop :=
  p.byKey.lookup k = none → p.firstSeen.lookup k = none ∧ p.reattests.lookup k = none

variable {ν : Type} {claims : Option (List PooledClaim)} {side : Option (Table Bytes ν)}
  {p : ClaimPool} {k key : Bytes} {live : List Bytes} {now : Int}

theorem sideFollows_of_none (h : side = none) : SideFollows P claims side := by
  intro ids hids
  rw [h] at hids
  cases hids

theorem SideFollows.eq_none (h : SideFollows P claims side) (hfree : claims = none) :
    side = none := by
  cases hside : side with
  | none => rfl
  | some ids =>
    obtain ⟨members, hmembers, _⟩ := h ids hside
    exact absurd (hfree.symm.trans hmembers) (by simp)

theorem FollowsAt.anchored (h : FollowsAt P p k) : AnchoredAt p k :=
  fun hfree => ⟨h.1.eq_none hfree, h.2.eq_none hfree⟩

theorem slotAt_fields {seen : Option (Table Bytes Int)}
    {re : Option (Table Bytes (List WitnessAttestation))} (h : p.slotAt k = (claims, seen, re)) :
    p.byKey.lookup k = claims ∧ p.firstSeen.lookup k = seen ∧ p.reattests.lookup k = re := by
  rwa [ClaimPool.slotAt, Prod.mk.injEq, Prod.mk.injEq] at h

variable {p' : ClaimPool} {t : Table Bytes (Table Bytes ν)} {k' ph : Bytes} {ids : Table Bytes ν}
  {unmarshal : Bytes → Option SignedEnvelope}

theorem anchoredAt_congr (h : p'.slotAt k = p.slotAt k) : AnchoredAt p' k ↔ AnchoredAt p k := by
  obtain ⟨hclaims, hseen, hre⟩ := slotAt_fields h
  unfold AnchoredAt
  rw [hclaims, hseen, hre]

theorem followsAt_congr (h : p'.slotAt k = p.slotAt k) : FollowsAt P p' k ↔ FollowsAt P p k := by
  obtain ⟨hclaims, hseen, hre⟩ := slotAt_fields h
  unfold FollowsAt
  rw [hclaims, hseen, hre]

theorem anchoredAt_of_gone (h : p.slotAt k = (none, none, none)) :
    AnchoredAt p k := fun _ => (slotAt_fields h).2

theorem anchoredAt_of_pooled (h : p.byKey.lookup k ≠ none) :
    AnchoredAt p k := fun hfree => absurd hfree h

/-! ## Evictions and offers -/

theorem slotAt_dropKey (p : ClaimPool) (oldest k : Bytes) :
    (p.dropKey oldest).slotAt k = if k = oldest then (none, none, none) else p.slotAt k := by
  show ((p.byKey.erase oldest).lookup k, (p.firstSeen.erase oldest).lookup k,
    (p.reattests.erase oldest).lookup k) = _
  split
  next heq => rw [heq, AList.lookup_erase, AList.lookup_erase, AList.lookup_erase]
  next hne =>
    rw [AList.lookup_erase_ne hne, AList.lookup_erase_ne hne, AList.lookup_erase_ne hne]
    rfl

theorem slotAt_evictLoop {newest k : Bytes} {order : List Bytes} {p : ClaimPool} :
    (evictLoop newest order p).slotAt k = p.slotAt k ∨
      (evictLoop newest order p).slotAt k = (none, none, none) := by
  induction order generalizing p with
  | nil => exact .inl rfl
  | cons oldest rest ih =>
    unfold evictLoop
    split
    next => exact .inl rfl
    split
    next => exact .inl rfl
    rcases @ih (p.dropKey oldest) with hkept | hgone
    · rw [hkept, slotAt_dropKey]
      split
      next => exact .inr rfl
      next => exact .inl rfl
    · exact .inr hgone

theorem lookup_evictLoop_newest {newest : Bytes} {front : List Bytes} {p : ClaimPool}
    (hqueue : Table.Lists (front ++ [newest]) p.byKey) :
    (evictLoop newest (front ++ [newest]) p).byKey.lookup newest = p.byKey.lookup newest := by
  induction front generalizing p with
  | nil =>
    rw [List.nil_append, evictLoop]
    split
    next => rfl
    next => rw [if_pos ⟨rfl, rfl⟩]
  | cons oldest front ih =>
    have hne : newest ≠ oldest := by
      intro heq
      have hnodup := (List.nodup_cons.mp hqueue.nodup).1
      exact hnodup (List.mem_append_right front (List.mem_singleton.mpr heq.symm))
    rw [List.cons_append, evictLoop]
    split
    next => rfl
    rw [if_neg (by simp)]
    rw [ih hqueue.pop]
    exact AList.lookup_erase_ne hne

theorem slotAt_insert_ne (p : ClaimPool) (hk : k ≠ key) (l : List PooledClaim) (bytes : Int) :
    ({ p with byKey := p.byKey.insert key l, bytes } : ClaimPool).slotAt k = p.slotAt k := by
  show ((p.byKey.insert key l).lookup k, _, _) = _
  rw [AList.lookup_insert_ne hk]
  rfl

theorem slotAt_enter (h : BookKept p p.order) (key : Bytes) (pc : PooledClaim) :
    ((p.enter key pc).2.byKey.lookup key = some (admitTo (p.members key) pc) ∧
      (p.enter key pc).2.firstSeen.lookup key = p.firstSeen.lookup key ∧
      (p.enter key pc).2.reattests.lookup key = p.reattests.lookup key) ∧
    ∀ k, k ≠ key → (p.enter key pc).2.slotAt k = p.slotAt k ∨
      (p.enter key pc).2.slotAt k = (none, none, none) := by
  rcases enter_cases p key pc with ⟨hfree, hnew⟩ | ⟨cur, hcur, hcases⟩
  · have hqueue : Table.Lists (p.order ++ [key]) (p.byKey.insert key (place [] pc)) :=
      h.queue.push (fun hk => AList.lookup_eq_none.mp hfree ((h.queue.keys key).mp hk)) _
    rw [hnew]
    have hpooled := @lookup_evictLoop_newest key p.order
      { p with byKey := p.byKey.insert key (place [] pc), bytes := p.bytes + pc.size } hqueue
    have hlookup : (p.byKey.insert key (place [] pc)).lookup key =
        some (admitTo (p.members key) pc) := by
      rw [AList.lookup_insert, members_of_free hfree]
      rfl
    refine ⟨⟨hpooled.trans hlookup, ?_⟩, ?_⟩
    · rcases @slotAt_evictLoop key key (p.order ++ [key])
        { p with byKey := p.byKey.insert key (place [] pc), bytes := p.bytes + pc.size } with
      hkept | hgone
      · exact (slotAt_fields hkept).2
      · exact absurd ((slotAt_fields hgone).1.symm.trans (hpooled.trans hlookup)) (by simp)
    · intro k hk
      rw [← slotAt_insert_ne p hk (place [] pc) (p.bytes + pc.size)]
      exact slotAt_evictLoop
  · have hmembers : p.members key = cur := by rw [ClaimPool.members, hcur, Option.getD_some]
    rw [hmembers, admitTo_eq]
    rcases hcases with ⟨hrefused, hsame⟩ | ⟨htakes, hgrown⟩
    · rw [hsame, if_neg hrefused]
      exact ⟨⟨hcur, rfl, rfl⟩, fun k _ => .inl rfl⟩
    · rw [hgrown, if_pos htakes]
      refine ⟨⟨AList.lookup_insert _, rfl, rfl⟩, ?_⟩
      intro k hk
      exact .inl (slotAt_insert_ne p hk _ _)

section
variable {p : ClaimPool} (h : BookKept p p.order)
include h

/-- **What an offer does to the slots**: nothing; or its key is pooled and stamped, and
another slot stays or goes. -/
theorem slotAt_offerSeen (key : Bytes) (env : SignedEnvelope) (now firstSeen : Int) :
    ((offerSeen P p key env now firstSeen).2 = p ∧
        (key.length ≠ 32 ∨ poolScreen P env = none)) ∨
      ∃ pc ph, poolScreen P env = some (pc, ph) ∧ key.length = 32 ∧
        (offerSeen P p key env now firstSeen).2.byKey.lookup key =
          some (admitTo (p.members key) pc) ∧
        (offerSeen P p key env now firstSeen).2.firstSeen.lookup key =
          (p.stamp key ph now firstSeen).firstSeen.lookup key ∧
        (offerSeen P p key env now firstSeen).2.reattests.lookup key = p.reattests.lookup key ∧
        ∀ k, k ≠ key → (offerSeen P p key env now firstSeen).2.slotAt k = p.slotAt k ∨
          (offerSeen P p key env now firstSeen).2.slotAt k = (none, none, none) := by
  rcases @offerSeen_cases P p key env now firstSeen with hsame | ⟨pc, ph, hscreen, hlen, henter⟩
  · exact .inl hsame
  · right
    rw [henter]
    obtain ⟨⟨hpooled, hstamp, hre⟩, hothers⟩ := slotAt_enter (h.stamp key ph now firstSeen) key pc
    refine ⟨pc, ph, hscreen, hlen, hpooled, hstamp, hre, ?_⟩
    intro k hk
    have hslot : (p.stamp key ph now firstSeen).slotAt k = p.slotAt k := by
      show (_, (p.firstSeen.insert key _).lookup k, _) = _
      rw [AList.lookup_insert_ne hk]
      rfl
    rw [← hslot]
    exact hothers k hk

theorem slotAt_offerSeen_ne {key k : Bytes} (hk : k ≠ key)
    (env : SignedEnvelope) (now firstSeen : Int) :
    (offerSeen P p key env now firstSeen).2.slotAt k = p.slotAt k ∨
      (offerSeen P p key env now firstSeen).2.slotAt k = (none, none, none) := by
  rcases @slotAt_offerSeen P p h key env now firstSeen with
    ⟨hsame, _⟩ | ⟨_, _, _, _, _, _, _, hothers⟩
  · rw [hsame]
    exact .inl rfl
  · exact hothers k hk

theorem AnchoredAt.offerSeen {key : Bytes}
    {env : SignedEnvelope} {now firstSeen : Int} {k : Bytes} (hk : AnchoredAt p k) :
    AnchoredAt (offerSeen P p key env now firstSeen).2 k := by
  by_cases heq : k = key
  · subst heq
    rcases @slotAt_offerSeen P p h k env now firstSeen with ⟨hsame, _⟩ | ⟨_, _, _, _, hpooled, _⟩
    · rwa [hsame]
    · exact anchoredAt_of_pooled (by simp [hpooled])
  · rcases @slotAt_offerSeen_ne P p h key k heq env now firstSeen with hkept | hgone
    · exact (anchoredAt_congr hkept).mpr hk
    · exact anchoredAt_of_gone hgone

end

/-! ## The sweep -/

theorem lookup_pruneIdentities_ne
    (hne : k' ≠ k) : (pruneIdentities t k live).lookup k' = t.lookup k' := by
  unfold pruneIdentities
  simp only
  split
  next => exact AList.lookup_erase_ne hne
  next => exact AList.lookup_insert_ne hne

theorem of_lookup_pruneIdentities (h : (pruneIdentities t k live).lookup k = some ids) :
    ids = ((t.lookup k).getD ∅).reject (fun ph _ => !live.contains ph) := by
  unfold pruneIdentities at h
  simp only at h
  split at h
  next =>
    rw [AList.lookup_erase] at h
    cases h
  next =>
    rw [AList.lookup_insert, Option.some.injEq] at h
    exact h.symm

theorem mem_live_of_mem_reject {t : Table Bytes ν}
    (h : ph ∈ t.reject (fun ph _ => !live.contains ph)) : ph ∈ live := by
  obtain ⟨v, hv⟩ := Option.isSome_iff_exists.mp (AList.lookup_isSome.mpr h)
  have hlive := (Table.lookup_reject.mp hv).2
  simpa using hlive

theorem slotAt_sweepKey_ne (hne : k' ≠ k) : (sweepKey P now p k).slotAt k' = p.slotAt k' := by
  unfold sweepKey
  simp only
  split
  next =>
    show ((p.byKey.erase k).lookup k', (p.firstSeen.erase k).lookup k',
      (p.reattests.erase k).lookup k') = _
    rw [AList.lookup_erase_ne hne, AList.lookup_erase_ne hne, AList.lookup_erase_ne hne]
    rfl
  next =>
    show ((p.byKey.insert k _).lookup k', (pruneIdentities p.firstSeen k _).lookup k',
      (pruneIdentities p.reattests k _).lookup k') = _
    rw [AList.lookup_insert_ne hne, lookup_pruneIdentities_ne hne, lookup_pruneIdentities_ne hne]
    rfl

theorem exists_of_mem_live {kept : List PooledClaim}
    (h : ph ∈ kept.filterMap (fun m => (m.claim.prefixHash P).toOption)) :
    ∃ m ∈ kept, m.claim.prefixHash P = .ok ph := by
  obtain ⟨m, hm, hval⟩ := List.mem_filterMap.mp h
  refine ⟨m, hm, ?_⟩
  cases hhash : m.claim.prefixHash P with
  | error e => simp [hhash, Except.toOption] at hval
  | ok ph' => simpa [hhash, Except.toOption] using hval

theorem sideFollows_pruneIdentities (t : Table Bytes (Table Bytes ν)) (k : Bytes)
    (kept : List PooledClaim) :
    SideFollows P (some kept) ((pruneIdentities t k
      (kept.filterMap (fun m => (m.claim.prefixHash P).toOption))).lookup k) := by
  intro ids hids
  refine ⟨kept, rfl, ?_⟩
  intro ph hph
  rw [of_lookup_pruneIdentities hids] at hph
  exact exists_of_mem_live (mem_live_of_mem_reject hph)

theorem followsAt_sweepKey (p : ClaimPool) (now : Int) (k : Bytes) :
    FollowsAt P (sweepKey P now p k) k := by
  unfold sweepKey
  simp only
  split
  next =>
    exact ⟨sideFollows_of_none (AList.lookup_erase _ _), sideFollows_of_none (AList.lookup_erase _ _)⟩
  next =>
    show SideFollows P ((p.byKey.insert k _).lookup k) _ ∧
      SideFollows P ((p.byKey.insert k _).lookup k) _
    rw [AList.lookup_insert]
    exact ⟨sideFollows_pruneIdentities _ _ _, sideFollows_pruneIdentities _ _ _⟩

theorem sweep_slots {now : Int} {k : Bytes} {keys : List Bytes} {p : ClaimPool} :
    (FollowsAt P p k ∨ k ∈ keys → FollowsAt P (keys.foldl (sweepKey P now) p) k) ∧
      (k ∉ keys → (keys.foldl (sweepKey P now) p).slotAt k = p.slotAt k) := by
  induction keys generalizing p with
  | nil => exact ⟨fun h => h.resolve_right List.not_mem_nil, fun _ => rfl⟩
  | cons k₀ keys ih =>
    obtain ⟨hfollows, hslot⟩ := @ih (sweepKey P now p k₀)
    constructor
    · intro h
      refine hfollows ?_
      by_cases heq : k = k₀
      · subst heq
        exact .inl (followsAt_sweepKey p now k)
      · rcases h with hbefore | hmem
        · exact .inl ((followsAt_congr (slotAt_sweepKey_ne heq)).mpr hbefore)
        · exact .inr ((List.mem_cons.mp hmem).resolve_left heq)
    · intro hk
      rw [List.mem_cons, not_or] at hk
      rw [List.foldl_cons, hslot hk.2, slotAt_sweepKey_ne hk.1]

theorem followsAt_sweep_iff : FollowsAt P (sweep P p now) k ↔ AnchoredAt p k := by
  unfold sweep
  by_cases hk : k ∈ p.byKey.keys
  · have hpooled : p.byKey.lookup k ≠ none := fun hfree => AList.lookup_eq_none.mp hfree hk
    exact ⟨fun _ => anchoredAt_of_pooled hpooled, fun _ => sweep_slots.1 (.inr hk)⟩
  · have hslot := (@sweep_slots P now k p.byKey.keys p).2 hk
    have hfree : p.byKey.lookup k = none := AList.lookup_eq_none.mpr hk
    rw [followsAt_congr hslot]
    refine ⟨FollowsAt.anchored, ?_⟩
    intro hanchored
    obtain ⟨hseen, hre⟩ := hanchored hfree
    exact ⟨sideFollows_of_none hseen, sideFollows_of_none hre⟩

/-! ## Stores and reloads -/

/-- **Tended**: the books are kept and every key is anchored. -/
def Tended (p : ClaimPool) : Prop := BookKept p p.order ∧ ∀ k, AnchoredAt p k

theorem tended_newClaimPool : Tended newClaimPool :=
  ⟨budgeted_kept (by decide) (by decide), fun _ _ => ⟨rfl, rfl⟩⟩

@[simp] theorem storeReAttests_byKey (p : ClaimPool) (key ph : Bytes)
    (atts : List WitnessAttestation) : (p.storeReAttests key ph atts).byKey = p.byKey := by
  unfold ClaimPool.storeReAttests
  split <;> rfl

section
variable (h : Tended p) (hpooled : p.byKey.lookup key ≠ none)
include h hpooled

theorem Tended.of_side {firstSeen : Table Bytes (Table Bytes Int)}
    {reattests : Table Bytes (Table Bytes (List WitnessAttestation))}
    (hseen : ∀ k, k ≠ key → firstSeen.lookup k = p.firstSeen.lookup k)
    (hre : ∀ k, k ≠ key → reattests.lookup k = p.reattests.lookup k) :
    Tended { p with firstSeen, reattests } := by
  refine ⟨⟨h.1.topTwo, h.1.queue, h.1.bytes, h.1.maxKeys, h.1.maxBytes⟩, ?_⟩
  intro k hfree
  by_cases heq : k = key
  · subst heq
    exact absurd hfree hpooled
  · show firstSeen.lookup k = none ∧ reattests.lookup k = none
    rw [hseen k heq, hre k heq]
    exact h.2 k hfree

theorem Tended.storeReAttests (ph : Bytes)
    (atts : List WitnessAttestation) : Tended (p.storeReAttests key ph atts) := by
  unfold ClaimPool.storeReAttests
  split
  next => exact h
  next => exact h.of_side hpooled (fun _ _ => rfl) (fun _ hk => AList.lookup_insert_ne hk)

theorem Tended.restoreStamp (ph : Bytes) (fs now : Int) : Tended (p.restoreStamp key ph fs now) :=
  h.of_side hpooled (fun _ hk => AList.lookup_insert_ne hk) (fun _ _ => rfl)

theorem Tended.bindRetainedMeta (ph : Bytes)
    (m : IdentityMeta) (now : Int) : Tended (bindRetainedMeta P p key ph m now) := by
  unfold Dht.bindRetainedMeta
  have hstamped := h.restoreStamp hpooled ph m.fs now
  replace hpooled : (p.restoreStamp key ph m.fs now).byKey.lookup key ≠ none := hpooled
  generalize p.restoreStamp key ph m.fs now = q at hstamped hpooled
  generalize m.att.filter (fun a => a.verify P ph) = atts
  induction atts generalizing q with
  | nil => exact hstamped
  | cons a atts ih =>
    refine ih _ (hstamped.storeReAttests hpooled ph [a]) ?_
    rwa [storeReAttests_byKey]

end

theorem Tended.offerSeen {p : ClaimPool} (h : Tended p) (key : Bytes) (env : SignedEnvelope)
    (now firstSeen : Int) : Tended (offerSeen P p key env now firstSeen).2 :=
  ⟨(h.1.offerSeen key env now firstSeen).1, fun k => (h.2 k).offerSeen h.1⟩

theorem Tended.sweep (h : Tended p) (now : Int) : Tended (sweep P p now) :=
  ⟨(h.1.sweep now).1, fun k => (followsAt_sweep_iff.mpr (h.2 k)).anchored⟩

/-- A file with a meta entry holds a claim that passes the pool's screen. -/
def MetaScreened (P : Primitives) (unmarshal : Bytes → Option SignedEnvelope)
    (metas : List IdentityMeta) (now : Int) (data : Bytes) : Prop :=
  ∀ env kClaim ph, retainable P unmarshal data now = some (env, kClaim, ph) →
    metas.reverse.find? (·.ph = ph) ≠ none → poolScreen P env ≠ none

theorem Tended.retainFile (h : Tended p) {metas : List IdentityMeta} {data : Bytes}
    (hscreened : MetaScreened P unmarshal metas now data) :
    Tended (retainFile P unmarshal metas now p data) := by
  unfold Dht.retainFile
  split
  next => exact h
  next env kClaim ph hretain =>
    split
    next => exact h.offerSeen kClaim env now 0
    next m hmeta =>
      refine (h.offerSeen kClaim env now m.fs).bindRetainedMeta ?_ ph m now
      -- the claim passed the screen, so its key is pooled
      have hscreen := hscreened env kClaim ph hretain (by simp [hmeta])
      obtain ⟨claim, _, hkey⟩ := retainable_key hretain
      rcases @slotAt_offerSeen P p h.1 kClaim env now m.fs with
        ⟨_, hlen | hnone⟩ | ⟨_, _, _, _, hpooled, _⟩
      · exact absurd (keyForClaim_length hkey) hlen
      · exact absurd hnone hscreen
      · simp [hpooled]

theorem Tended.retainClaimPool {dir : PoolDir}
    (hscreened : ∀ data ∈ dir.files.files.map (·.2), MetaScreened P unmarshal dir.metas now data) :
    Tended (retainClaimPool P unmarshal newClaimPool dir now) := by
  unfold Dht.retainClaimPool
  generalize dir.files.files.map (·.2) = files at hscreened
  have hpool := tended_newClaimPool
  generalize newClaimPool = p at hpool
  induction files generalizing p with
  | nil => exact hpool
  | cons data files ih =>
    rw [List.forall_mem_cons] at hscreened
    exact ih hscreened.2 _ (hpool.retainFile hscreened.1)

/-! ## Runs -/

/-- **The side tables are fed for pooled keys**: re-attestations for a pooled key, meta
entries for a screened file. -/
def FedForPooled (P : Primitives) (unmarshal : Bytes → Option SignedEnvelope) (n : PoolNode) :
    PoolAction → Prop
  | .storeReAttests key _ _ => n.pool.byKey.lookup key ≠ none
  | .restart now => ∀ data ∈ n.dir.files.files.map (·.2),
      MetaScreened P unmarshal n.dir.metas now data
  | _ => True

theorem Tended.step {unmarshal : Bytes → Option SignedEnvelope} {n : PoolNode} (h : Tended n.pool)
    {a : PoolAction} (hfed : FedForPooled P unmarshal n a) :
    Tended (poolNodeStep P unmarshal n a).pool := by
  cases a with
  | offer a =>
    show Tended (poolStep P n.pool a)
    unfold poolStep
    split
    next => exact h
    next key env _ => exact h.offerSeen key env a.now 0
  | storeReAttests key ph atts => exact h.storeReAttests hfed ph atts
  | sweep now | persist now => exact h.sweep now
  | restart now => exact Tended.retainClaimPool hfed

theorem SideFollows.length_le (h : SideFollows P claims side)
    (hids : side = some ids) : ids.keys.length ≤ (claims.getD []).length := by
  obtain ⟨members, hmembers, hall⟩ := h ids hids
  rw [hmembers, Option.getD_some]
  have hsub : ids.keys ⊆ members.filterMap (fun m => (m.claim.prefixHash P).toOption) := by
    intro ph hph
    obtain ⟨m, hm, hhash⟩ := hall ph hph
    exact List.mem_filterMap.mpr ⟨m, hm, by rw [hhash]; rfl⟩
  exact (ids.keys_nodup.subperm hsub).length_le.trans (List.length_filterMap_le _ _)

theorem keys_length_le_of_anchored {t : Table Bytes ν}
    (h : ∀ k, p.byKey.lookup k = none → t.lookup k = none) :
    t.keys.length ≤ p.byKey.keys.length := by
  refine (t.keys_nodup.subperm ?_).length_le
  intro k hk
  by_contra hnot
  exact AList.lookup_eq_none.mp (h k (AList.lookup_eq_none.mpr hnot)) hk

/-- The side tables are no larger than the pool. -/
structure SideBounded (p : ClaimPool) : Prop where
  stampedKeys : p.firstSeen.keys.length ≤ p.byKey.keys.length
  attestedKeys : p.reattests.keys.length ≤ p.byKey.keys.length
  stamps : ∀ k ids, p.firstSeen.lookup k = some ids → ids.keys.length ≤ (p.members k).length
  attested : ∀ k ids, p.reattests.lookup k = some ids → ids.keys.length ≤ (p.members k).length

theorem sideBounded_of_follows (h : ∀ k, FollowsAt P p k) : SideBounded p :=
  ⟨keys_length_le_of_anchored fun k hfree => ((h k).anchored hfree).1,
    keys_length_le_of_anchored fun k hfree => ((h k).anchored hfree).2,
    fun k _ hids => (h k).1.length_le hids, fun k _ hids => (h k).2.length_le hids⟩

/-- **The side tables follow the pool.** After a sweep every identity in them is of a claim
pooled under its key, exactly when before it every key of theirs was pooled; and so in every
run that feeds them for pooled keys only. -/
theorem side_tables_follow (P : Primitives) (unmarshal : Bytes → Option SignedEnvelope) :
    (∀ (p : ClaimPool) (now : Int),
      (∀ k, FollowsAt P (sweep P p now) k) ↔ ∀ k, AnchoredAt p k) ∧
    ∀ (dir : PoolDir) (acts : List PoolAction) (now : Int),
      EachStep (poolNodeStep P unmarshal) (FedForPooled P unmarshal) ⟨newClaimPool, dir⟩ acts →
      (∀ k, FollowsAt P (sweep P
        (acts.foldl (poolNodeStep P unmarshal) ⟨newClaimPool, dir⟩).pool now) k) ∧
      SideBounded (sweep P (acts.foldl (poolNodeStep P unmarshal) ⟨newClaimPool, dir⟩).pool now) := by
  constructor
  · intro p now
    exact forall_congr' fun k => followsAt_sweep_iff
  · intro dir acts now hrun
    have htended : Tended (acts.foldl (poolNodeStep P unmarshal) ⟨newClaimPool, dir⟩).pool :=
      @EachStep.invariant _ _ _ _ (fun n => Tended n.pool) (fun n a hn ha => hn.step ha) _ _
        tended_newClaimPool hrun
    have hfollows : ∀ k, FollowsAt P (Dht.sweep P
        (acts.foldl (poolNodeStep P unmarshal) ⟨newClaimPool, dir⟩).pool now) k :=
      fun k => followsAt_sweep_iff.mpr (htended.2 k)
    exact ⟨hfollows, sideBounded_of_follows hfollows⟩

section
open Toy PoolSample FreshSample

/-- Collected, then re-attested. -/
def attestedAfterCollect : List PoolAction :=
  [.offer (.collected aliasA (forged 1 200) 100000), .storeReAttests keyA identity (attestedBy quorum)]

theorem attested_after_collect_follows :
    FollowsAt mined (sweep mined
        (attestedAfterCollect.foldl (poolNodeStep mined readLapsed) ⟨newClaimPool, ⟨∅, []⟩⟩).pool
        100000) keyA ∧
      SideBounded (sweep mined
        (attestedAfterCollect.foldl (poolNodeStep mined readLapsed) ⟨newClaimPool, ⟨∅, []⟩⟩).pool
        100000) := by
  obtain ⟨hfollows, hbounded⟩ := (side_tables_follow mined readLapsed).2 ⟨∅, []⟩ attestedAfterCollect
    100000 ⟨trivial, by show AList.lookup keyA _ ≠ none; decide +kernel, trivial⟩
  exact ⟨hfollows keyA, hbounded⟩

/-- **A store for a key that is not pooled stays**, sweep or not, and the pool is empty. -/
theorem unpooled_reattests_stay :
    (([.storeReAttests keyA identity (attestedBy quorum), .sweep 1000] : List PoolAction).foldl
        (poolNodeStep mined readLapsed) ⟨newClaimPool, ⟨∅, []⟩⟩).pool.byKey.keys = [] ∧
      (([.storeReAttests keyA identity (attestedBy quorum), .sweep 1000] : List PoolAction).foldl
        (poolNodeStep mined readLapsed) ⟨newClaimPool, ⟨∅, []⟩⟩).pool.reattests.keys = [keyA] ∧
      hasFreshQuorum mined (attestedBy quorum) identity 1000 172800 none 5 = true := by
  decide +kernel

end

end Freens.Dht
