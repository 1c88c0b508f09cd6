/-
**THE HOLDING PERIOD OF RE-ATTESTATIONS** (`dht/claims_pool.go`: `OfferSeen`,
`ReAttestEligible`; `dht/transport.go`: `reAttestRefusal`, §7.3).

The day is measured from a stamp that the first offer of the identity sets, before
it is decided whether the claim is kept, and that a displaced identity leaves
behind until the next sweep.
-/
import Freens.Dht.PoolSideTables

namespace Freens.Dht

open Library Naming Wire Claims

variable {P : Primitives}

/-! ## Stamps -/

/-- When an identity was first seen. -/
def ClaimPool.stampOf (p : ClaimPool) (k ph : Bytes) : Option Int :=
  ((p.firstSeen.lookup k).getD ∅).lookup ph

/-- A pooled claim has the identity. -/
def Pooled (P : Primitives) (p : ClaimPool) (k ph : Bytes) : Prop :=
  ∃ m ∈ p.members k, m.claim.prefixHash P = .ok ph

/-- Every stamp at `k` belongs to a pooled claim. -/
def StampsHeldAt (P : Primitives) (p : ClaimPool) (k : Bytes) : Prop :=
  ∀ ph fs, p.stampOf k ph = some fs → Pooled P p k ph

variable {p p' : ClaimPool} {ph key k : Bytes} {now v : Int} {calls : List PoolCall}

theorem identityFirstSeen_eq :
    p.identityFirstSeen key ph = if key.length = 32 then p.stampOf key ph else none := by
  unfold ClaimPool.identityFirstSeen
  by_cases hlen : key.length = 32
  · rw [if_neg (not_not.mpr hlen), if_pos hlen]
    rfl
  · rw [if_pos hlen, if_neg hlen]

theorem reAttestEligible_iff :
    p.reAttestEligible key ph now = true ↔
      key.length = 32 ∧ ∃ fs, p.stampOf key ph = some fs ∧ 86400 ≤ wrap64 (now - fs) := by
  unfold ClaimPool.reAttestEligible
  rw [identityFirstSeen_eq]
  by_cases hlen : key.length = 32
  · rw [if_pos hlen]
    cases p.stampOf key ph with
    | none => simp
    | some fs => simp [hlen]
  · rw [if_neg hlen]
    simp [hlen]

section
variable (h : p'.slotAt k = p.slotAt k)
include h

theorem stampOf_congr (ph : Bytes) :
    p'.stampOf k ph = p.stampOf k ph := by
  unfold ClaimPool.stampOf
  rw [(slotAt_fields h).2.1]

theorem members_congr : p'.members k = p.members k := by
  unfold ClaimPool.members
  rw [(slotAt_fields h).1]

theorem stampsHeldAt_congr :
    StampsHeldAt P p' k ↔ StampsHeldAt P p k := by
  unfold StampsHeldAt Pooled
  rw [members_congr h]
  exact forall_congr' fun ph => by rw [stampOf_congr h]

end

theorem stampOf_of_gone (h : p.slotAt k = (none, none, none))
    (ph : Bytes) : p.stampOf k ph = none := by
  rw [ClaimPool.stampOf, (slotAt_fields h).2.1]
  rfl

theorem stampsHeldAt_of_gone (h : p.slotAt k = (none, none, none)) : StampsHeldAt P p k := by
  intro ph fs hstamp
  rw [stampOf_of_gone h] at hstamp
  cases hstamp

theorem FollowsAt.stampsHeldAt (h : FollowsAt P p k) : StampsHeldAt P p k := by
  intro ph fs hstamp
  unfold ClaimPool.stampOf at hstamp
  cases hids : p.firstSeen.lookup k with
  | none =>
    rw [hids] at hstamp
    cases hstamp
  | some ids =>
    rw [hids, Option.getD_some] at hstamp
    obtain ⟨members, hmembers, hall⟩ := h.1 ids hids
    obtain ⟨m, hm, hhash⟩ := hall ph (Table.mem_of_lookup hstamp)
    refine ⟨m, ?_, hhash⟩
    rw [ClaimPool.members, hmembers]
    exact hm

/-! ## What a call does to the stamps -/

/-- The stamp an offer sets. -/
def stampTime (now firstSeen : Int) : Int := if firstSeen > 0 ∧ firstSeen < now then firstSeen else now

variable {firstSeen : Int} {call : PoolCall} {past : List PoolCall}

theorem stampOf_stamp {ph' : Bytes} (h : (p.stamp key ph now firstSeen).stampOf key ph' = some v) :
    p.stampOf key ph' = some v ∨ (ph' = ph ∧ v = stampTime now firstSeen) := by
  unfold ClaimPool.stampOf ClaimPool.stamp at h
  simp only [AList.lookup_insert, Option.getD_some] at h
  split at h
  next => exact .inl h
  next => exact (Table.lookup_insert_cases h).symm.imp And.right id

theorem stampOf_stamp_self : (p.stamp key ph now firstSeen).stampOf key ph ≠ none := by
  unfold ClaimPool.stampOf ClaimPool.stamp
  simp only [AList.lookup_insert, Option.getD_some]
  split
  next hset => exact Option.isSome_iff_ne_none.mp hset
  rw [AList.lookup_insert]
  simp

theorem stampOf_stamp_kept {ph' : Bytes} (h : p.stampOf key ph' ≠ none) :
    (p.stamp key ph now firstSeen).stampOf key ph' ≠ none := by
  by_cases heq : ph' = ph
  · rw [heq]
    exact stampOf_stamp_self
  · unfold ClaimPool.stampOf at h
    unfold ClaimPool.stampOf ClaimPool.stamp
    simp only [AList.lookup_insert, Option.getD_some]
    split
    next => exact h
    rw [AList.lookup_insert_ne heq]
    exact h

theorem stampOf_offerSeen (h : BookKept p p.order) {env : SignedEnvelope}
    (hstamp : (offerSeen P p key env now firstSeen).2.stampOf k ph = some v) :
    p.stampOf k ph = some v ∨ (k = key ∧ key.length = 32 ∧
      (∃ pc, poolScreen P env = some (pc, ph)) ∧ v = stampTime now firstSeen) := by
  by_cases heq : k = key
  · subst heq
    rcases @slotAt_offerSeen P p h k env now firstSeen with
      ⟨hsame, _⟩ | ⟨pc, ph₀, hscreen, hlen, _, hseen, _, _⟩
    · rw [hsame] at hstamp
      exact .inl hstamp
    · have hset : (p.stamp k ph₀ now firstSeen).stampOf k ph = some v := by
        rw [ClaimPool.stampOf, ← hseen]
        exact hstamp
      rcases stampOf_stamp hset with hold | ⟨hph, hv⟩
      · exact .inl hold
      · exact .inr ⟨rfl, hlen, ⟨pc, hph ▸ hscreen⟩, hv⟩
  · rcases @slotAt_offerSeen_ne P p h key k heq env now firstSeen with hkept | hgone
    · rw [stampOf_congr hkept] at hstamp
      exact .inl hstamp
    · rw [stampOf_of_gone hgone] at hstamp
      cases hstamp

theorem stampOf_sweepKey {k₀ : Bytes}
    (h : (sweepKey P now p k₀).stampOf k ph = some v) : p.stampOf k ph = some v := by
  by_cases heq : k = k₀
  · subst heq
    unfold ClaimPool.stampOf at h
    cases hids : (sweepKey P now p k).firstSeen.lookup k with
    | none =>
      rw [hids] at h
      cases h
    | some ids =>
      rw [hids, Option.getD_some] at h
      unfold sweepKey at hids
      simp only at hids
      split at hids
      next =>
        rw [AList.lookup_erase] at hids
        cases hids
      next =>
        rw [of_lookup_pruneIdentities hids] at h
        exact (Table.lookup_reject.mp h).1
  · rwa [stampOf_congr (slotAt_sweepKey_ne heq)] at h

theorem stampOf_sweep (h : (sweep P p now).stampOf k ph = some v) : p.stampOf k ph = some v := by
  unfold sweep at h
  generalize p.byKey.keys = keys at h
  induction keys generalizing p with
  | nil => exact h
  | cons k₀ keys ih => exact stampOf_sweepKey (ih h)

theorem stampOf_step (h : BookKept p p.order)
    (hstamp : (poolCallStep P p call).stampOf k ph = some v) :
    p.stampOf k ph = some v ∨ ∃ env now firstSeen pc, call = .offerSeen k env now firstSeen ∧
      k.length = 32 ∧ poolScreen P env = some (pc, ph) ∧ v = stampTime now firstSeen := by
  cases call with
  | offerSeen key env now firstSeen =>
    rcases stampOf_offerSeen h hstamp with hold | ⟨rfl, hlen, ⟨pc, hscreen⟩, hv⟩
    · exact .inl hold
    · exact .inr ⟨env, now, firstSeen, pc, rfl, hlen, hscreen, hv⟩
  | storeReAttests key ph' atts =>
    obtain ⟨reattests, hframe⟩ := storeReAttests_frame p key ph' atts
    replace hstamp : (p.storeReAttests key ph' atts).stampOf k ph = some v := hstamp
    rw [hframe] at hstamp
    exact .inl hstamp
  | sweep now => exact .inl (stampOf_sweep hstamp)

/-! ## Stamps outlived by nothing -/

/-- **The stamps are kept**: a claim turned away has an identity pooled there, and one that
makes way leaves no stamp, or the newcomer or the best claim has its identity. -/
def StampsKept (P : Primitives) (p : ClaimPool) : PoolCall → Prop
  | .offerSeen key env _ _ => key.length = 32 → ∀ x ∈ poolScreen P env,
      if Takes (p.members key) x.1 then
        ∀ worst ∈ (p.members key)[1]?, ∀ ph ∈ (worst.claim.prefixHash P).toOption,
          p.stampOf key ph = none ∨ ph = x.2 ∨
            ∃ best ∈ (p.members key)[0]?, best.claim.prefixHash P = .ok ph
      else Pooled P p key x.2
  | _ => True

theorem members_length_le (hbooks : BookKept p p.order) (k : Bytes) : (p.members k).length ≤ 2 := by
  unfold ClaimPool.members
  cases hlookup : p.byKey.lookup k with
  | none => simp
  | some l => exact (hbooks.topTwo k l hlookup).length

/-- The identities pooled under a key that took a newcomer. -/
theorem pooled_place_iff {cur : List PooledClaim} {pc : PooledClaim} {ph' : Bytes}
    (hph : pc.claim.prefixHash P = .ok ph) :
    (∃ m ∈ place (cur.take 1) pc, m.claim.prefixHash P = .ok ph') ↔
      ph' = ph ∨ ∃ best ∈ cur[0]?, best.claim.prefixHash P = .ok ph' := by
  have hfirst : ∀ m, m ∈ cur.take 1 ↔ m ∈ cur[0]? := by
    intro m
    cases cur with
    | nil => simp
    | cons a cur => simp [eq_comm]
  constructor
  · rintro ⟨m, hm, hhash⟩
    rcases mem_place.mp hm with hold | rfl
    · exact .inr ⟨m, (hfirst m).mp hold, hhash⟩
    · exact .inl (Except.ok.inj (hhash.symm.trans hph))
  · rintro (rfl | ⟨best, hbest, hhash⟩)
    · exact ⟨pc, mem_place.mpr (.inr rfl), hph⟩
    · exact ⟨best, mem_place.mpr (.inl ((hfirst best).mpr hbest)), hhash⟩

/-- **One offer**: stamps stay those of pooled identities exactly when they are kept. -/
theorem stampsHeldAt_offerSeen_iff (hbooks : BookKept p p.order) (hheld : StampsHeldAt P p key)
    (env : SignedEnvelope) (now firstSeen : Int) :
    StampsHeldAt P (offerSeen P p key env now firstSeen).2 key ↔
      StampsKept P p (.offerSeen key env now firstSeen) := by
  rcases @slotAt_offerSeen P p hbooks key env now firstSeen with
    ⟨hsame, hrefused⟩ | ⟨pc, ph, hscreen, hlen, hclaims, hseen, _, _⟩
  · rw [hsame]
    refine iff_of_true hheld fun hlen x hx => ?_
    rcases hrefused with hshort | hnone
    · exact absurd hlen hshort
    · rw [hnone] at hx
      cases hx
  · have hstamps : ∀ ph', (offerSeen P p key env now firstSeen).2.stampOf key ph' =
        (p.stamp key ph now firstSeen).stampOf key ph' := by
      intro ph'
      rw [ClaimPool.stampOf, hseen]
      rfl
    have hmembers : (offerSeen P p key env now firstSeen).2.members key =
        admitTo (p.members key) pc := by
      rw [ClaimPool.members, hclaims, Option.getD_some]
    have hph := (poolScreen_fields hscreen).2.2.2
    unfold StampsHeldAt Pooled
    rw [hmembers, admitTo_eq]
    constructor
    · intro hafter _ x hx
      obtain rfl : x = (pc, ph) := (Option.mem_some_iff.mp (hscreen ▸ hx)).symm
      split
      next htakes =>
        intro worst _ ph' _
        rw [if_pos htakes] at hafter
        by_cases hstamp : p.stampOf key ph' = none
        · exact .inl hstamp
        · obtain ⟨fs, hfs⟩ := Option.ne_none_iff_exists'.mp
            ((hstamps ph').symm ▸ @stampOf_stamp_kept p ph key now firstSeen ph' hstamp)
          exact .inr ((pooled_place_iff hph).mp (hafter ph' fs hfs))
      next hturned =>
        rw [if_neg hturned] at hafter
        obtain ⟨fs, hfs⟩ := Option.ne_none_iff_exists'.mp
          ((hstamps ph).symm ▸ @stampOf_stamp_self p ph key now firstSeen)
        exact hafter ph fs hfs
    · intro hkept ph' fs hstamp
      have hkept := hkept hlen (pc, ph) hscreen
      rw [hstamps] at hstamp
      rcases stampOf_stamp hstamp with hold | ⟨rfl, _⟩
      · split
        next htakes =>
          rw [if_pos htakes] at hkept
          refine (pooled_place_iff hph).mpr ?_
          -- the claim that had the identity is the best one, or the one that makes way
          obtain ⟨m, hm, hhash⟩ := hheld ph' fs hold
          obtain ⟨i, hi⟩ := List.mem_iff_getElem?.mp hm
          have hlt := (List.getElem?_eq_some_iff.mp hi).1
          have hshort := members_length_le hbooks key
          obtain rfl | rfl : i = 0 ∨ i = 1 := by omega
          · exact .inr ⟨m, hi, hhash⟩
          · rcases hkept m hi ph' (by rw [hhash]; rfl) with hnone | hfound
            · exact absurd (hold.symm.trans hnone) (by simp)
            · exact hfound
        next hturned => exact hheld ph' fs hold
      · split
        next htakes => exact (pooled_place_iff hph).mpr (.inl rfl)
        next hturned =>
          rw [if_neg hturned] at hkept
          exact hkept

theorem StampsHeldAt.sweep (h : StampsHeldAt P p k) (now : Int) :
    StampsHeldAt P (sweep P p now) k := by
  unfold Dht.sweep
  by_cases hk : k ∈ p.byKey.keys
  · exact (sweep_slots.1 (.inr hk)).stampsHeldAt
  · exact (stampsHeldAt_congr (sweep_slots.2 hk)).mpr h

theorem StampsHeldAt.step {p : ClaimPool} (hbooks : BookKept p p.order)
    (h : ∀ k, StampsHeldAt P p k) {call : PoolCall} (hkept : StampsKept P p call) (k : Bytes) :
    StampsHeldAt P (poolCallStep P p call) k := by
  cases call with
  | offerSeen key env now firstSeen =>
    by_cases heq : k = key
    · subst heq
      exact (stampsHeldAt_offerSeen_iff hbooks (h k) env now firstSeen).mpr hkept
    · rcases @slotAt_offerSeen_ne P p hbooks key k heq env now firstSeen with hslot | hgone
      · exact (stampsHeldAt_congr hslot).mpr (h k)
      · exact stampsHeldAt_of_gone hgone
  | storeReAttests key ph atts =>
    obtain ⟨reattests, hframe⟩ := storeReAttests_frame p key ph atts
    show StampsHeldAt P (p.storeReAttests key ph atts) k
    rw [hframe]
    exact h k
  | sweep now => exact (h k).sweep now

/-! ## Runs -/

/-- No stamp is restored, and a day after the clock's time is in the signed range. -/
def PoolCall.Clocked : PoolCall → Prop
  | .offerSeen _ _ now firstSeen => firstSeen = 0 ∧ 0 ≤ now ∧ now + 86400 < 2 ^ 63
  | _ => True

/-- The pool after `j` calls. -/
def poolAfter (P : Primitives) (calls : List PoolCall) (j : Nat) : ClaimPool :=
  (calls.take j).foldl (poolCallStep P) newClaimPool

/-- **Held continuously**: an offer of the identity by `since` is followed only by pools
that hold it. -/
def HeldSince (P : Primitives) (calls : List PoolCall) (key ph : Bytes) (since : Int) : Prop :=
  ∃ i env t pc, calls[i]? = some (.offerSeen key env t 0) ∧ poolScreen P env = some (pc, ph) ∧
    t ≤ since ∧ ∀ j, i < j → j ≤ calls.length → Pooled P (poolAfter P calls j) key ph

/-- Stamped at `v` and pooled ever since. -/
def StampedSince (P : Primitives) (calls : List PoolCall) (key ph : Bytes) (v : Int) : Prop :=
  ∃ i env pc, calls[i]? = some (.offerSeen key env v 0) ∧ poolScreen P env = some (pc, ph) ∧
    ∀ j, i < j → j ≤ calls.length → (poolAfter P calls j).stampOf key ph = some v

theorem poolAfter_take (calls : List PoolCall) (n : Nat) :
    poolAfter P (calls.take n) (calls.take n).length = poolAfter P calls n := by
  rw [poolAfter, List.take_length]
  rfl

theorem poolAfter_append_of_le {rest : List PoolCall} {j : Nat} (h : j ≤ past.length) :
    poolAfter P (past ++ rest) j = poolAfter P past j := by
  rw [poolAfter, List.take_append_of_le_length h]
  rfl

theorem poolAfter_snoc (past : List PoolCall) (call : PoolCall) :
    poolAfter P (past ++ [call]) (past.length + 1) =
      poolCallStep P (poolAfter P past past.length) call := by
  rw [poolAfter, poolAfter, List.take_of_length_le (by simp), List.take_length,
    List.foldl_append, List.foldl_cons, List.foldl_nil]

theorem bookKept_poolAfter (calls : List PoolCall) (j : Nat) :
    BookKept (poolAfter P calls j) (poolAfter P calls j).order := by
  have hany : EachStep (poolCallStep P) (fun _ _ => True) newClaimPool (calls.take j) :=
    EachStep.of_forall_mem fun _ _ _ => trivial
  exact @EachStep.invariant _ _ _ _ (fun p => BookKept p p.order) (fun p call h _ => h.step call) _ _
    tended_newClaimPool.1 hany

theorem StampedSince.snoc (h : StampedSince P past key ph v)
    (hlast : (poolAfter P (past ++ [call]) (past.length + 1)).stampOf key ph = some v) :
    StampedSince P (past ++ [call]) key ph v := by
  obtain ⟨i, env, pc, hi, hscreen, hsince⟩ := h
  have hilt : i < past.length := (List.getElem?_eq_some_iff.mp hi).1
  refine ⟨i, env, pc, by rw [List.getElem?_append_left hilt, hi], hscreen, ?_⟩
  intro j hij hj
  rw [List.length_append, List.length_singleton] at hj
  rcases Nat.lt_or_ge past.length j with hend | hbefore
  · obtain rfl : j = past.length + 1 := by omega
    exact hlast
  · rw [poolAfter_append_of_le hbefore]
    exact hsince j hij hbefore

section
variable (hclocks : ∀ c ∈ calls, c.Clocked)
  (h : (poolAfter P calls calls.length).stampOf key ph = some v)
include hclocks h

/-- **Every stamp goes back to an offer** at its time, and was there ever since. -/
theorem stamp_origin :
    key.length = 32 ∧ StampedSince P calls key ph v := by
  -- by induction from the end: the last call set the stamp, or it was there before
  induction calls using List.reverseRecOn with
  | nil => exact absurd h (by simp [poolAfter, ClaimPool.stampOf, newClaimPool])
  | append_singleton past call ih =>
    rw [List.length_append, List.length_singleton] at h
    have hstep := h
    rw [poolAfter_snoc] at hstep
    rcases stampOf_step (bookKept_poolAfter past past.length) hstep with
      hold | ⟨env, now, firstSeen, pc, rfl, hlen, hscreen, hv⟩
    · obtain ⟨hlen, hsince⟩ := ih (fun c hc => hclocks c (List.mem_append_left _ hc)) hold
      exact ⟨hlen, hsince.snoc h⟩
    · obtain ⟨rfl, _⟩ := hclocks _ (List.mem_append_right past List.mem_cons_self)
      obtain rfl : v = now := by rw [hv, stampTime, if_neg (by omega)]
      refine ⟨hlen, past.length, env, pc, by simp, hscreen, ?_⟩
      intro j hij hj
      rw [List.length_append, List.length_singleton] at hj
      obtain rfl : j = past.length + 1 := by omega
      exact h

theorem stamp_range :
    0 ≤ v ∧ v + 86400 < 2 ^ 63 := by
  obtain ⟨_, i, env, pc, hi, _, _⟩ := stamp_origin hclocks h
  exact (hclocks _ (List.mem_of_getElem? hi)).2

theorem eligible_of_stamp :
    (poolAfter P calls calls.length).reAttestEligible key ph (v + 86400) = true := by
  refine reAttestEligible_iff.mpr ⟨(stamp_origin hclocks h).1, v, h, ?_⟩
  rw [show v + 86400 - v = 86400 by ring, wrap64_of_range (by norm_num) (by norm_num)]

end

theorem stampsHeld_of_kept (hkept : EachStep (poolCallStep P) (StampsKept P) newClaimPool calls)
    (j : Nat) (k : Bytes) : StampsHeldAt P (poolAfter P calls j) k := by
  have hinv := @EachStep.invariant _ _ _ _
    (fun p => BookKept p p.order ∧ ∀ k, StampsHeldAt P p k)
    (fun p call h hcall => ⟨h.1.step call, StampsHeldAt.step h.1 h.2 hcall⟩) _ _
    ⟨tended_newClaimPool.1, fun k ph fs h => absurd h (by simp [ClaimPool.stampOf, newClaimPool])⟩
    (hkept.take j)
  exact hinv.2 k

theorem heldSince_of_eligible (hclocks : ∀ c ∈ calls, c.Clocked)
    (hkept : EachStep (poolCallStep P) (StampsKept P) newClaimPool calls) (hnow : 0 ≤ now)
    (hmax : now < 2 ^ 63)
    (h : (poolAfter P calls calls.length).reAttestEligible key ph now = true) :
    HeldSince P calls key ph (now - 86400) := by
  obtain ⟨_, fs, hstamp, hday⟩ := reAttestEligible_iff.mp h
  obtain ⟨hlo, hhi⟩ := stamp_range hclocks hstamp
  rw [wrap64_of_range (by omega) (by omega)] at hday
  obtain ⟨_, i, env, pc, hi, hscreen, hsince⟩ := stamp_origin hclocks hstamp
  refine ⟨i, env, fs, pc, hi, hscreen, by omega, ?_⟩
  intro j hij hj
  exact stampsHeld_of_kept hkept j key ph fs (hsince j hij hj)

theorem HeldSince.pooled {since : Int}
    (h : HeldSince P calls key ph since) : Pooled P (poolAfter P calls calls.length) key ph := by
  obtain ⟨i, _, _, _, hi, _, _, hpooled⟩ := h
  exact hpooled _ (List.getElem?_eq_some_iff.mp hi).1 le_rfl

/-- **The holding period is real** exactly while every offer keeps the stamps: what
`ReAttestEligible` accepts has been pooled since an offer a day before, if and only if no
claim is turned away unpooled and none leaves its stamp behind. -/
theorem holding_period_real_iff (P : Primitives) {calls : List PoolCall}
    (hclocks : ∀ c ∈ calls, c.Clocked) :
    (∀ n key ph now, n ≤ calls.length → 0 ≤ now → now < 2 ^ 63 →
      (poolAfter P calls n).reAttestEligible key ph now = true →
      HeldSince P (calls.take n) key ph (now - 86400)) ↔
    EachStep (poolCallStep P) (StampsKept P) newClaimPool calls := by
  have hclocksTake : ∀ n, ∀ c ∈ calls.take n, c.Clocked :=
    fun n c hc => hclocks c (List.mem_of_mem_take hc)
  constructor
  · intro hreal
    -- an identity is eligible a day after its stamp, so it is held
    have hheld : ∀ n ≤ calls.length, ∀ k, StampsHeldAt P (poolAfter P calls n) k := by
      intro n hn k
      rw [← poolAfter_take]
      intro ph fs hstamp
      obtain ⟨hlo, hhi⟩ := stamp_range (hclocksTake n) hstamp
      have heligible := eligible_of_stamp (hclocksTake n) hstamp
      rw [poolAfter_take] at heligible
      exact (hreal n k ph (fs + 86400) hn (by omega) hhi heligible).pooled
    refine EachStep.of_at ?_
    intro i call hi
    cases call with
    | storeReAttests key ph atts | sweep now => trivial
    | offerSeen key env t firstSeen =>
      have hilt : i < calls.length := (List.getElem?_eq_some_iff.mp hi).1
      have hnext : poolAfter P calls (i + 1) =
          (offerSeen P (poolAfter P calls i) key env t firstSeen).2 := foldl_take_succ hi
      refine (stampsHeldAt_offerSeen_iff (bookKept_poolAfter calls i) (hheld i hilt.le key)
        env t firstSeen).mp ?_
      rw [← hnext]
      exact hheld (i + 1) hilt key
  · intro hkept n key ph now _ hnow hmax heligible
    rw [← poolAfter_take] at heligible
    exact heldSince_of_eligible (hclocksTake n) (hkept.take n) hnow hmax heligible

/-! ## A key that is full -/

instance (P : Primitives) (p : ClaimPool) (k ph : Bytes) : Decidable (Pooled P p k ph) :=
  inferInstanceAs (Decidable (∃ m ∈ p.members k, _))

namespace HoldingSample

open Freens.Toy PoolSample

def crowd : List PoolCall :=
  [.offerSeen keyA (forged 3 200) 2000 0, .offerSeen keyA (forged 2 500) 2000 0,
    .offerSeen keyA (forged 1 1000) 2000 0]

def identityAt (n : UInt8) (ts : UInt64) : Bytes :=
  minedChecksum (buildPrefix aliasA (minedClaim n aliasA ts []).tldID ts
    (minedClaim n aliasA ts []).claimantPK)

theorem crowd_clocked : ∀ c ∈ crowd, c.Clocked := by
  intro c hc
  simp only [crowd, List.mem_cons, List.not_mem_nil, or_false] at hc
  rcases hc with rfl | rfl | rfl
  · exact ⟨rfl, by norm_num, by norm_num⟩
  · exact ⟨rfl, by norm_num, by norm_num⟩
  · exact ⟨rfl, by norm_num, by norm_num⟩

end HoldingSample

section
open Toy HoldingSample

theorem second_claim_held : HeldSince mined (crowd.take 2) keyA (identityAt 2 500) (88400 - 86400) := by
  have hkept : EachStep (poolCallStep mined) (StampsKept mined) newClaimPool (crowd.take 2) :=
    ⟨by show _ = 32 → _; decide +kernel, by show _ = 32 → _; decide +kernel, trivial⟩
  have hreal := (holding_period_real_iff mined
    (fun c hc => crowd_clocked c (List.mem_of_mem_take hc))).mpr hkept
  exact hreal 2 keyA (identityAt 2 500) 88400 (by decide) (by norm_num) (by norm_num)
    (by decide +kernel)

/-- **The third is eligible and was never pooled**: turned away from the full key, its stamp
is a day old. -/
theorem turned_away_eligible :
    (poolAfter mined crowd 3).reAttestEligible keyA (identityAt 1 1000) 88400 = true ∧
      (∀ n ≤ 3, ¬ Pooled mined (poolAfter mined crowd n) keyA (identityAt 1 1000)) ∧
      ¬ HeldSince mined crowd keyA (identityAt 1 1000) (88400 - 86400) := by
  have hnever : ∀ n ≤ 3, ¬ Pooled mined (poolAfter mined crowd n) keyA (identityAt 1 1000) := by
    decide +kernel
  exact ⟨by decide +kernel, hnever, fun h => hnever 3 le_rfl h.pooled⟩

end

end Freens.Dht
