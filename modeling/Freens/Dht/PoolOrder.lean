/-
**THE TWO BEST CLAIMS, IN ANY ORDER OF ARRIVAL** (`dht/claims_pool.go`:
`OfferSeen`, `Top2`, §7.4).

When no key is evicted, the claims of the offer's key become `admitTo` of them: on
claims with distinct tuples this is insertion in order, cut at two.
-/
import Freens.Dht.PoolRetention
import Freens.Library.Leading

namespace Freens.Dht

open Library Naming Wire Claims

/-! ## One offer, key by key -/

/-- A key's claims after an offer: the best two. -/
def admitTo (cur : List PooledClaim) (pc : PooledClaim) : List PooledClaim :=
  if cur.any (·.h = pc.h) then cur
  else match cur with
    | best :: worst :: _ => if lessOrderKey pc.claim worst.claim then place [best] pc else cur
    | cur => place cur pc

/-- A new key pushes nothing out. -/
def NoEviction (p : ClaimPool) (k : Bytes) (pc : PooledClaim) : Prop :=
  p.byKey.lookup k = none → (p.enter k pc).2.byKey = p.byKey.insert k [pc]

variable {pc m : PooledClaim} {p : ClaimPool} {cur : List PooledClaim}
  {envs : List SignedEnvelope} {key : Bytes} {k : Bytes}

theorem NoEviction.of_fits (h : p.byKey.lookup k = none → p.Fits pc) : NoEviction p k pc :=
  fun hnew => enter_byKey_of_fits hnew (h hnew)

theorem admitTo_eq (cur : List PooledClaim) (pc : PooledClaim) :
    admitTo cur pc = if Takes cur pc then place (cur.take 1) pc else cur := by
  unfold admitTo
  split
  next hdup =>
    obtain ⟨m, hm, hh⟩ := List.any_eq_true.mp hdup
    rw [if_neg fun htakes => htakes.1 m hm (of_decide_eq_true hh)]
  next hdup =>
    have hnew : ∀ m ∈ cur, m.h ≠ pc.h := by simpa using hdup
    rcases cur with _ | ⟨a, _ | ⟨b, rest⟩⟩
    · rw [if_pos ⟨hnew, by simp⟩]
      rfl
    · rw [if_pos ⟨hnew, by simp⟩]
      rfl
    · exact if_congr ⟨fun hless => ⟨hnew, by simpa using hless⟩, fun htakes => htakes.2 b rfl⟩ rfl rfl

theorem members_enter (hroom : NoEviction p k pc) (k' : Bytes) :
    (p.enter k pc).2.members k' = if k' = k then admitTo (p.members k) pc else p.members k' := by
  rcases enter_cases p k pc with ⟨hfree, _⟩ | ⟨cur, hcur, hcases⟩
  · rw [members_of_insert (hroom hfree), members_of_free hfree]
    rfl
  · have hmembers : p.members k = cur := by rw [ClaimPool.members, hcur, Option.getD_some]
    rw [hmembers, admitTo_eq]
    rcases hcases with ⟨hrefused, hsame⟩ | ⟨htakes, hgrown⟩
    · rw [hsame, if_neg hrefused]
      split
      next heq => rw [heq, hmembers]
      next => rfl
    · rw [hgrown, if_pos htakes]
      exact members_of_insert rfl k'

/-! ## In the order of the tuples -/

/-- `b` does not come before `a`. -/
def NotAfter (a b : PooledClaim) : Prop := lessOrderKey b.claim a.claim = false

instance : DecidableRel NotAfter := fun a b =>
  inferInstanceAs (Decidable (lessOrderKey b.claim a.claim = false))

instance : Std.Total NotAfter where
  total := by
    intro a b
    unfold NotAfter
    cases hba : lessOrderKey b.claim a.claim with
    | false => exact .inl rfl
    | true => exact .inr (lessOrderKey_asymm hba)

instance : IsTrans PooledClaim NotAfter where
  trans := by
    intro a b c hab hbc
    exact lessOrderKey_negTrans hab hbc

theorem admitTo_eq_orderedInsert (hsorted : cur.Pairwise NotAfter) (hshort : cur.length ≤ 2)
    (hh : ∀ m ∈ cur, m.h ≠ pc.h) (htuple : ∀ m ∈ cur, m.claim.orderKey ≠ pc.claim.orderKey) :
    admitTo cur pc = (cur.orderedInsert NotAfter pc).take 2 := by
  have hdup : ¬ cur.any (fun m => decide (m.h = pc.h)) = true := by
    simpa using hh
  -- without ties, not after is before
  have hflip : ∀ m ∈ cur, (NotAfter pc m ↔ lessOrderKey pc.claim m.claim = true) := by
    intro m hm
    constructor
    · intro hafter
      by_contra hno
      rw [Bool.not_eq_true] at hno
      exact htuple m hm (orderKey_eq_of_not_less hafter hno)
    · intro hless
      exact lessOrderKey_asymm hless
  unfold admitTo
  rw [if_neg hdup]
  match cur, hsorted, hshort, hflip with
  | [], _, _, _ => rfl
  | [a], _, _, hflip =>
    have ha := hflip a (by simp)
    show (if lessOrderKey pc.claim a.claim then [pc, a] else [a, pc]) = _
    by_cases hless : NotAfter pc a
    · rw [List.orderedInsert_cons_of_le _ _ hless, if_pos (ha.mp hless)]
      rfl
    · rw [List.orderedInsert_of_not_le _ _ hless, if_neg (fun h => hless (ha.mpr h))]
      rfl
  | [a, b], hsorted, _, hflip =>
    have ha := hflip a (by simp)
    have hb := hflip b (by simp)
    have hab : NotAfter a b := (List.pairwise_cons.mp hsorted).1 b (by simp)
    show (if lessOrderKey pc.claim b.claim then
      (if lessOrderKey pc.claim a.claim then [pc, a] else [a, pc]) else [a, b]) = _
    by_cases hfirst : NotAfter pc a
    · have hsecond : NotAfter pc b := IsTrans.trans pc a b hfirst hab
      rw [List.orderedInsert_cons_of_le _ _ hfirst, if_pos (hb.mp hsecond),
        if_pos (ha.mp hfirst)]
      rfl
    · rw [List.orderedInsert_of_not_le _ _ hfirst]
      by_cases hsecond : NotAfter pc b
      · rw [List.orderedInsert_cons_of_le _ _ hsecond, if_pos (hb.mp hsecond),
          if_neg (fun h => hfirst (ha.mpr h))]
        rfl
      · rw [List.orderedInsert_of_not_le _ _ hsecond, if_neg (fun h => hsecond (hb.mpr h))]
        rfl

theorem admitTo_of_full_notAfter (hfull : cur.length = 2)
    (hafter : ∀ m ∈ cur, NotAfter m pc) : admitTo cur pc = cur := by
  match cur, hfull, hafter with
  | [a, b], _, hafter =>
    have hb : lessOrderKey pc.claim b.claim = false := hafter b (by simp)
    unfold admitTo
    split
    next => rfl
    show (if lessOrderKey pc.claim b.claim then place [a] pc else [a, b]) = _
    rw [hb]
    rfl

theorem leading_admitTo {S : PooledClaim → Prop} (h : Leading NotAfter 2 S cur)
    (hdistinct : ∀ m ∈ cur, m.claim.orderKey = pc.claim.orderKey ∨ m.h = pc.h → m = pc) :
    Leading NotAfter 2 (fun m => S m ∨ m = pc) (admitTo cur pc) := by
  by_cases hold : S pc
  · -- offered before: held already, or behind two better ones
    have hsame : admitTo cur pc = cur := by
      by_cases hmem : pc ∈ cur
      · unfold admitTo
        rw [if_pos]
        simp only [List.any_eq_true, decide_eq_true_eq]
        exact ⟨pc, hmem, rfl⟩
      · obtain ⟨hfull, hafter⟩ := h.rest pc hold hmem
        exact admitTo_of_full_notAfter hfull hafter
    rw [hsame]
    exact h.congr fun m => ⟨.inl, fun hor => hor.elim id (fun heq => heq ▸ hold)⟩
  · have hne : ∀ m ∈ cur, m ≠ pc := by
      intro m hm heq
      exact hold (heq ▸ h.sound m hm)
    rw [admitTo_eq_orderedInsert h.sorted h.short
      (fun m hm heq => hne m hm (hdistinct m hm (.inr heq)))
      (fun m hm heq => hne m hm (hdistinct m hm (.inl heq)))]
    exact (h.insert hold).congr fun m => or_comm

/-! ## Runs of offers -/

/-- An offer. -/
structure Offering where
  key : Bytes
  env : SignedEnvelope
  now : Int
  firstSeen : Int

section
variable (P : Primitives)

/-- One offer. -/
def offerStep (p : ClaimPool) (a : Offering) : ClaimPool :=
  (offerSeen P p a.key a.env a.now a.firstSeen).2

/-- No offer of the run pushes a key out. -/
def NothingEvicted : ClaimPool → List Offering → Prop :=
  EachStep (offerStep P) fun p a => ∀ pc ph, poolScreen P a.env = some (pc, ph) →
    NoEviction (p.stamp a.key ph a.now a.firstSeen) a.key pc

/-- The claims that pass the screen. -/
def pooled (envs : List SignedEnvelope) : List PooledClaim :=
  envs.filterMap (fun env => (poolScreen P env).map (·.1))

end

variable {P : Primitives}

theorem poolScreen_fields {env : SignedEnvelope} {ph : Bytes}
    (h : poolScreen P env = some (pc, ph)) :
    pc.env = env ∧ pc.h = env.recordHash P ∧
      decodeAliasClaim P env.record.claim = .ok pc.claim ∧ pc.claim.prefixHash P = .ok ph := by
  unfold poolScreen at h
  split at h
  next => cases h
  next claim hclaim =>
    split at h
    next => cases h
    split at h
    next => cases h
    next ph' hph =>
      split at h
      next => cases h
      rw [Option.some.injEq, Prod.mk.injEq] at h
      rw [← h.1, ← h.2]
      exact ⟨rfl, rfl, hclaim, hph⟩

theorem mem_pooled :
    m ∈ pooled P envs ↔ m.env ∈ envs ∧ ∃ ph, poolScreen P m.env = some (m, ph) := by
  simp only [pooled, List.mem_filterMap, Option.map_eq_some_iff, Prod.exists, exists_and_right,
    exists_eq_right]
  constructor
  · rintro ⟨env, henv, ph, hscreen⟩
    have hfield := (poolScreen_fields hscreen).1
    rw [hfield]
    exact ⟨henv, ph, hscreen⟩
  · rintro ⟨henv, ph, hscreen⟩
    exact ⟨m.env, henv, ph, hscreen⟩

/-- The claim was offered at the key. -/
def OfferedTo (P : Primitives) (key : Bytes) (offers : List Offering) (m : PooledClaim) : Prop :=
  ∃ a ∈ offers, a.key = key ∧ ∃ ph, poolScreen P a.env = some (m, ph)

variable {past : List Offering} {a : Offering}

theorem offeredTo_append :
    OfferedTo P key (past ++ [a]) m ↔
      OfferedTo P key past m ∨ (a.key = key ∧ ∃ ph, poolScreen P a.env = some (m, ph)) := by
  simp only [OfferedTo, List.mem_append, List.mem_singleton, or_and_right, exists_or,
    exists_eq_left]

theorem leading_offerStep (hkey : key.length = 32)
    (hdistinct : ∀ m m', OfferedTo P key (past ++ [a]) m → OfferedTo P key (past ++ [a]) m' →
      m.claim.orderKey = m'.claim.orderKey ∨ m.h = m'.h → m = m')
    (hroom : ∀ pc ph, poolScreen P a.env = some (pc, ph) →
      NoEviction (p.stamp a.key ph a.now a.firstSeen) a.key pc)
    (h : Leading NotAfter 2 (OfferedTo P key past) (p.members key)) :
    Leading NotAfter 2 (OfferedTo P key (past ++ [a])) ((offerStep P p a).members key) := by
  -- an offer that brings no new member
  have hstill : (∀ m, a.key = key → (∃ ph, poolScreen P a.env = some (m, ph)) →
      OfferedTo P key past m) → Leading NotAfter 2 (OfferedTo P key (past ++ [a]))
        (p.members key) := by
    intro hold
    refine h.congr ?_
    intro m
    rw [offeredTo_append]
    exact ⟨.inl, fun hor => hor.elim id fun hnew => hold m hnew.1 hnew.2⟩
  unfold offerStep offerSeen
  by_cases hlen : a.key.length = 32
  · rw [if_neg (by simp [hlen])]
    cases hscreen : poolScreen P a.env with
    | none =>
      refine hstill ?_
      rintro m _ ⟨ph, hm⟩
      rw [hscreen] at hm
      cases hm
    | some screened =>
      obtain ⟨pc, ph⟩ := screened
      show Leading NotAfter 2 _ ((ClaimPool.enter _ _ _).2.members key)
      rw [members_enter (hroom pc ph hscreen), stamp_members, stamp_members]
      split
      next hk =>
        subst hk
        refine (leading_admitTo h ?_).congr ?_
        · intro m hm
          exact hdistinct m pc (offeredTo_append.mpr (.inl (h.sound m hm)))
            (offeredTo_append.mpr (.inr ⟨rfl, ph, hscreen⟩))
        · intro m
          rw [offeredTo_append, hscreen]
          simp [eq_comm]
      next hk =>
        refine hstill ?_
        intro m heq _
        exact absurd heq.symm hk
  · rw [if_pos hlen]
    refine hstill ?_
    intro m heq _
    rw [heq] at hlen
    exact absurd hkey hlen

variable {offers : List Offering}

theorem leading_run (hkey : key.length = 32) (hempty : p.members key = [])
    (hdistinct : ∀ m m', OfferedTo P key offers m → OfferedTo P key offers m' →
      m.claim.orderKey = m'.claim.orderKey ∨ m.h = m'.h → m = m')
    (hrun : NothingEvicted P p offers) :
    Leading NotAfter 2 (OfferedTo P key offers) ((offers.foldl (offerStep P) p).members key) := by
  have hstart : Leading NotAfter 2 (OfferedTo P key []) (p.members key) := by
    rw [hempty]
    exact Leading.nil.congr fun m => ⟨False.elim, fun ⟨_, ha, _⟩ => absurd ha (by simp)⟩
  -- the invariant speaks of the offers made so far, which are among all of them
  refine (@EachStep.history_mem ClaimPool Offering (offerStep P) _
    (fun past p => (∀ b ∈ past, b ∈ offers) ∧
      Leading NotAfter 2 (OfferedTo P key past) (p.members key)) offers [] p ?_ ⟨by simp, hstart⟩
    hrun).2
  rintro past s a ha ⟨hpast, hlead⟩ hroom
  have hpast' : ∀ b ∈ past ++ [a], b ∈ offers := by
    intro b hb
    rcases List.mem_append.mp hb with hold | hnew
    · exact hpast b hold
    · rw [List.mem_singleton.mp hnew]
      exact ha
  have hamong : ∀ m, OfferedTo P key (past ++ [a]) m → OfferedTo P key offers m := by
    rintro m ⟨b, hb, hrest⟩
    exact ⟨b, hpast' b hb, hrest⟩
  exact ⟨hpast', leading_offerStep hkey
    (fun m m' hm hm' => hdistinct m m' (hamong m hm) (hamong m' hm')) hroom hlead⟩

theorem offeredTo_iff_mem_pooled
    (hoffered : ∀ e, (∃ a ∈ offers, a.key = key ∧ a.env = e) ↔ e ∈ envs)
    (m : PooledClaim) : OfferedTo P key offers m ↔ m ∈ pooled P envs := by
  rw [mem_pooled, ← hoffered m.env]
  constructor
  · rintro ⟨a, ha, hk, ph, hscreen⟩
    have henv := (poolScreen_fields hscreen).1
    exact ⟨⟨a, ha, hk, henv.symm⟩, ph, henv ▸ hscreen⟩
  · rintro ⟨⟨a, ha, hk, henv⟩, ph, hscreen⟩
    exact ⟨a, ha, hk, ph, henv ▸ hscreen⟩

theorem pooled_eq_of_hash
    (hhashes : ∀ e ∈ envs, ∀ e' ∈ envs, e.recordHash P = e'.recordHash P → e = e')
    {m' : PooledClaim} (hm : m ∈ pooled P envs) (hm' : m' ∈ pooled P envs) (hh : m.h = m'.h) :
    m = m' := by
  obtain ⟨henv, ph, hscreen⟩ := mem_pooled.mp hm
  obtain ⟨henv', ph', hscreen'⟩ := mem_pooled.mp hm'
  rw [(poolScreen_fields hscreen).2.1, (poolScreen_fields hscreen').2.1] at hh
  rw [hhashes _ henv _ henv' hh, hscreen', Option.some.injEq, Prod.mk.injEq] at hscreen
  exact hscreen.1.symm

/-- **Top 2, in any order.** After offers that evict nothing, `Top2` of a key that was empty
is the two least of the claims offered, when tuples and hashes tell them apart. -/
theorem top2_eq_two_least (P : Primitives) {p : ClaimPool} {key : Bytes} (hkey : key.length = 32)
    (hempty : p.members key = []) {envs : List SignedEnvelope}
    (htuples : ((pooled P envs).map (fun m => m.claim.orderKey)).Nodup)
    (hhashes : ∀ e ∈ envs, ∀ e' ∈ envs, e.recordHash P = e'.recordHash P → e = e')
    {offers : List Offering} (hoffered : ∀ e, (∃ a ∈ offers, a.key = key ∧ a.env = e) ↔ e ∈ envs)
    (hrun : NothingEvicted P p offers) :
    (offers.foldl (offerStep P) p).top2 key =
      (((pooled P envs).insertionSort NotAfter).take 2).map (·.env) := by
  have hsame : ∀ m, OfferedTo P key offers m ↔ m ∈ pooled P envs :=
    offeredTo_iff_mem_pooled hoffered
  have htie : ∀ m ∈ pooled P envs, ∀ m' ∈ pooled P envs,
      m.claim.orderKey = m'.claim.orderKey → m = m' :=
    fun m hm m' hm' => List.inj_on_of_nodup_map htuples hm hm'
  have hleads := leading_run hkey hempty (fun m m' hm hm' hor => hor.elim
    (htie m ((hsame m).mp hm) m' ((hsame m').mp hm'))
    (pooled_eq_of_hash hhashes ((hsame m).mp hm) ((hsame m').mp hm'))) hrun
  have hsorted : Leading NotAfter 2 (OfferedTo P key offers)
      (((pooled P envs).insertionSort NotAfter).take 2) := by
    refine (leading_take (List.pairwise_insertionSort NotAfter _) ?_).congr ?_
    · exact (List.perm_insertionSort NotAfter _).nodup_iff.mpr (List.Nodup.of_map _ htuples)
    · intro m
      rw [List.mem_insertionSort, hsame m]
  rw [ClaimPool.top2, if_neg (by simp [hkey])]
  congr 1
  refine hleads.unique ?_ hsorted
  intro m m' hm hm' hle hle'
  exact htie m ((hsame m).mp hm) m' ((hsame m').mp hm') (orderKey_eq_of_not_less hle' hle)

/-- The key is held, or it fits: what a run asks for to evict nothing. -/
def HasRoom (P : Primitives) (p : ClaimPool) (a : Offering) : Prop :=
  (p.byKey.lookup a.key).isSome = true ∨
    ∀ screened ∈ poolScreen P a.env, (p.byKey.keys.length : Int) + 1 ≤ p.maxKeys ∧
      p.bytes + screened.1.size ≤ p.maxBytes

instance (P : Primitives) (p : ClaimPool) (a : Offering) : Decidable (HasRoom P p a) :=
  inferInstanceAs (Decidable (_ ∨ _))

theorem NothingEvicted.of_room
    (h : EachStep (offerStep P) (HasRoom P) p offers) : NothingEvicted P p offers := by
  refine h.imp ?_
  intro p a hroom pc ph hscreen
  refine NoEviction.of_fits ?_
  intro hnew
  rcases hroom with hheld | hfits
  · rw [show p.byKey.lookup a.key = none from hnew] at hheld
    cases hheld
  · exact hfits (pc, ph) hscreen

section
open Toy PoolSample

/-- Three claims, worst first. -/
def PoolSample.triple : List SignedEnvelope := [forged 1 1000, forged 2 500, forged 3 200]

/-- An envelope offered at `a`. -/
def PoolSample.offering (env : SignedEnvelope) : Offering :=
  { key := keyA, env, now := 100000, firstSeen := 0 }

theorem two_least_of_three :
    (((triple ++ triple.reverse).map offering).foldl (offerStep mined) newClaimPool).top2 keyA =
      [forged 3 200, forged 2 500] := by
  have hleast := @top2_eq_two_least mined newClaimPool keyA (by decide +kernel) rfl triple
    (by decide +kernel) (by decide +kernel) ((triple ++ triple.reverse).map offering) ?_ ?_
  · rw [hleast]
    decide +kernel
  · intro e
    simp only [List.mem_map, List.mem_append, List.mem_reverse, or_self]
    constructor
    · rintro ⟨a, ⟨env, henv, rfl⟩, _, rfl⟩
      exact henv
    · intro he
      exact ⟨offering e, ⟨e, he, rfl⟩, rfl, rfl⟩
  · exact NothingEvicted.of_room (by decide +kernel)

end

end Freens.Dht
