/-
**WHAT THE CLAIM POOL GIVES UP.** Claims reach the pool from inbound puts (`hPut`)
and from the answers of peers (`CollectClaimsWithWitnesses`). An offer can drop the
worse claim of a full key, when the newcomer precedes it, and whole keys, when a
new key exceeds a budget (`mem_members_enter`).
-/
import Freens.Dht.ClaimPool
import Freens.Dht.Node

namespace Freens.Dht

open Library Naming Wire Claims

/-! ## The two ways into the pool -/

/-- The two ways a claim reaches the pool. -/
inductive ClaimOffer where
  /-- An inbound put; the other components answer `gates`. -/
  | put (gates : PutGates) (m : PutArgs) (now : Int)
  /-- One envelope of the set collected for the alias. -/
  | collected (aliasName : Bytes) (env : SignedEnvelope) (now : Int)

/-- When it does. -/
def ClaimOffer.now : ClaimOffer → Int
  | .put _ _ now => now
  | .collected _ _ now => now

section
variable (P : Primitives)

/-- The screens of `hPut` that read the claim and the pool, the claim offered first. -/
def poolGates (p : ClaimPool) (gates : PutGates) (now : Int) : PutGates :=
  { gates with
    verifyFull := fun claim => verifyFull P claim inferDifficulty none Constants.w
    inReuseWindow := fun claim =>
      match claim.prefixHash P with
      | .error _ => false
      | .ok inPH => claimReuseRefusal P p claim.aliasName inPH now > 0
    poolKept := fun key env => (offer P p key env now).2.contains key (env.recordHash P) }

/-- What is offered to the pool, if anything. -/
def ClaimOffer.offered (p : ClaimPool) : ClaimOffer → Option (Bytes × SignedEnvelope)
  | .put gates m now =>
    match admitPut P (poolGates P p gates now) m with
    | .error _ => none
    -- a put under the name's own key does not go to the pool
    | .ok adm => if claimKey P adm.env = some adm.key then some (adm.key, adm.env) else none
  | .collected aliasName env _ =>
    match keyForClaim P aliasName with
    | .error _ => none
    | .ok key => if !env.verifySignature P then none else some (key, env)

/-- One offer. -/
def poolStep (p : ClaimPool) (a : ClaimOffer) : ClaimPool :=
  match a.offered P p with
  | none => p
  | some (key, env) => (offer P p key env a.now).2

end

/-! ## What an offer can drop -/

variable {P : Primitives}

@[simp] theorem stamp_members (p : ClaimPool) (k ph : Bytes) (now fs : Int) (k' : Bytes) :
    (p.stamp k ph now fs).members k' = p.members k' := rfl

variable {p : ClaimPool} {pc : PooledClaim} {k key : Bytes} {env : SignedEnvelope} {now : Int}

theorem evictLoop_of_not_overBudget {newest : Bytes} {order : List Bytes}
    (h : p.overBudget = false) : (evictLoop newest order p).byKey = p.byKey := by
  cases order with
  | nil => rfl
  | cons oldest rest =>
    rw [evictLoop, h]
    rfl

/-- The key fits: one more key and its bytes are within the budgets. -/
def ClaimPool.Fits (p : ClaimPool) (pc : PooledClaim) : Prop :=
  (p.byKey.keys.length : Int) + 1 ≤ p.maxKeys ∧ p.bytes + pc.size ≤ p.maxBytes

theorem enter_byKey_of_fits (hnew : p.byKey.lookup k = none) (hfits : p.Fits pc) :
    (p.enter k pc).2.byKey = p.byKey.insert k [pc] := by
  have hmem : k ∉ p.byKey := AList.lookup_eq_none.mp hnew
  have hno : (p.members k).any (fun m => decide (m.h = pc.h)) = false := by
    rw [ClaimPool.members, hnew]
    rfl
  have hkeys : (p.byKey.insert k [pc]).keys.length = p.byKey.keys.length + 1 := by
    show (p.byKey.insert k [pc]).entries.keys.length = _
    rw [AList.entries_insert_of_notMem hmem]
    rfl
  have hbudget : ClaimPool.overBudget
      { p with byKey := p.byKey.insert k [pc], bytes := p.bytes + pc.size } = false := by
    obtain ⟨hcount, hbytes⟩ := hfits
    rw [ClaimPool.overBudget, Bool.or_eq_false_iff, decide_eq_false_iff_not,
      decide_eq_false_iff_not]
    refine ⟨?_, ?_⟩
    · show ¬ ((p.byKey.insert k [pc]).keys.length : Int) > p.maxKeys
      rw [hkeys]
      omega
    · show ¬ p.bytes + pc.size > p.maxBytes
      omega
  unfold ClaimPool.enter
  rw [hno, hnew]
  exact evictLoop_of_not_overBudget hbudget

theorem members_of_insert {p' : ClaimPool} {l : List PooledClaim}
    (h : p'.byKey = p.byKey.insert k l) (k' : Bytes) :
    p'.members k' = if k' = k then l else p.members k' := by
  unfold ClaimPool.members
  rw [h]
  split
  next heq => rw [heq, AList.lookup_insert, Option.getD_some]
  next hne => rw [AList.lookup_insert_ne hne]

theorem mem_place {cur : List PooledClaim} {m : PooledClaim} :
    m ∈ place cur pc ↔ m ∈ cur ∨ m = pc := by
  unfold place
  split
  next a =>
    split
    next => simp [or_comm]
    next => simp
  next => simp

theorem members_of_free (h : p.byKey.lookup k = none) : p.members k = [] := by
  rw [ClaimPool.members, h]
  rfl

/-- **A key takes a newcomer**: its H_record is new, and it comes before the second claim,
if any. -/
def Takes (cur : List PooledClaim) (pc : PooledClaim) : Prop :=
  (∀ m ∈ cur, m.h ≠ pc.h) ∧ ∀ worst ∈ cur[1]?, lessOrderKey pc.claim worst.claim = true

instance (cur : List PooledClaim) (pc : PooledClaim) : Decidable (Takes cur pc) :=
  inferInstanceAs (Decidable (_ ∧ _))

/-- The bytes of the second claim, which makes way for a newcomer. -/
def displacedBytes (cur : List PooledClaim) : Int := ((cur[1]?.map PooledClaim.size).getD 0 : Nat)

/-- **What entering a claim can do**: a new key, then eviction; under a pooled key nothing,
or one more beside the best. -/
theorem enter_cases (p : ClaimPool) (k : Bytes) (pc : PooledClaim) :
    (p.byKey.lookup k = none ∧ (p.enter k pc).2 = evictLoop k (p.order ++ [k])
        { p with byKey := p.byKey.insert k (place [] pc), bytes := p.bytes + pc.size }) ∨
      ∃ cur, p.byKey.lookup k = some cur ∧
        ((¬ Takes cur pc ∧ (p.enter k pc).2 = p) ∨
          (Takes cur pc ∧ (p.enter k pc).2 = { p with
            byKey := p.byKey.insert k (place (cur.take 1) pc)
            bytes := p.bytes - displacedBytes cur + pc.size })) := by
  unfold ClaimPool.enter ClaimPool.members
  cases hlookup : p.byKey.lookup k with
  | none => exact .inl ⟨rfl, rfl⟩
  | some cur =>
    refine .inr ⟨cur, rfl, ?_⟩
    rw [Option.getD_some]
    split
    next hdup =>
      refine .inl ⟨fun htakes => ?_, rfl⟩
      obtain ⟨m, hm, hh⟩ := List.any_eq_true.mp hdup
      exact htakes.1 m hm (of_decide_eq_true hh)
    next hdup =>
      have hnew : ∀ m ∈ cur, m.h ≠ pc.h := by simpa using hdup
      rcases cur with _ | ⟨a, _ | ⟨b, rest⟩⟩
      · exact .inr ⟨⟨hnew, by simp⟩, by simp [displacedBytes]⟩
      · exact .inr ⟨⟨hnew, by simp⟩, by simp [displacedBytes]⟩
      · simp only
        split
        next hless =>
          refine .inl ⟨fun htakes => ?_, rfl⟩
          simp [htakes.2 b rfl] at hless
        next hless =>
          exact .inr ⟨⟨hnew, by simpa using hless⟩, by simp [displacedBytes]⟩

/-- **Everything an offer can drop**: what stood behind the best of a full key, or, for a
new key that does not fit, anything. -/
theorem mem_members_enter {p : ClaimPool} {k k' : Bytes} {pc m : PooledClaim}
    (hm : m ∈ p.members k') :
    m ∈ (p.enter k pc).2.members k' ∨
      (k' = k ∧ ∃ best worst rest, p.byKey.lookup k = some (best :: worst :: rest) ∧
        lessOrderKey pc.claim worst.claim = true ∧ m ∈ worst :: rest) ∨
      (p.byKey.lookup k = none ∧ ¬ p.Fits pc) := by
  rcases enter_cases p k pc with ⟨hfree, _⟩ | ⟨cur, hcur, ⟨_, hsame⟩ | ⟨htakes, hgrown⟩⟩
  · by_cases hfits : p.Fits pc
    · left
      rw [members_of_insert (enter_byKey_of_fits hfree hfits)]
      split
      next heq =>
        rw [heq, members_of_free hfree] at hm
        exact absurd hm List.not_mem_nil
      next => exact hm
    · exact .inr (.inr ⟨hfree, hfits⟩)
  · left
    rw [hsame]
    exact hm
  · rw [hgrown, members_of_insert rfl]
    split
    next heq =>
      rw [heq, ClaimPool.members, hcur, Option.getD_some] at hm
      rw [mem_place]
      -- the claims behind the best one make way
      rcases cur with _ | ⟨best, _ | ⟨worst, rest⟩⟩
      · exact absurd hm List.not_mem_nil
      · exact .inl (.inl hm)
      · rcases List.mem_cons.mp hm with rfl | hrest
        · exact .inl (.inl List.mem_cons_self)
        · exact .inr (.inl ⟨heq, best, worst, rest, hcur, htakes.2 worst rfl, hrest⟩)
    next => exact .inl hm

theorem mem_top2 : env ∈ p.top2 k ↔ k.length = 32 ∧ ∃ m ∈ p.members k, m.env = env := by
  unfold ClaimPool.top2
  split
  next h => simp [show k.length ≠ 32 from h]
  next h =>
    rw [not_not] at h
    simp [show k.length = 32 from h, List.mem_map]

/-! ## Evidence in the pool -/

/-- The envelope is evidence for the alias of the key. -/
def EvidenceAt (P : Primitives) (key : Bytes) (env : SignedEnvelope) (now : Int) : Prop :=
  ∃ aliasName claim ph, keyForClaim P aliasName = .ok key ∧
    claimEvidence P env aliasName now = some (claim, ph)

/-- **Open evidence**: alive, or dead and inside its reuse window. -/
def OpenEvidence (P : Primitives) (key : Bytes) (env : SignedEnvelope) (now : Int) : Prop :=
  EvidenceAt P key env now ∧ now < env.record.expires.toNat + 2592000

/-- The newcomer spares open evidence: a new key fits, and a full key has none behind the
best, or does not take it. -/
structure Spares (P : Primitives) (p : ClaimPool) (key : Bytes) (pc : PooledClaim) (now : Int) :
    Prop where
  fits : p.byKey.lookup key = none → p.Fits pc
  behind : ∀ best worst rest, p.byKey.lookup key = some (best :: worst :: rest) →
    lessOrderKey pc.claim worst.claim = true → ∀ m ∈ worst :: rest, ¬ OpenEvidence P key m.env now

theorem offer_eq_enter {ph : Bytes} (hkey : key.length = 32)
    (hscreen : poolScreen P env = some (pc, ph)) :
    offer P p key env now = (p.stamp key ph now 0).enter key pc := by
  unfold offer offerSeen
  rw [if_neg (by simp [hkey]), hscreen]

theorem mem_top2_offer {held : SignedEnvelope}
    (hspares : ∀ pc ph, poolScreen P env = some (pc, ph) → Spares P p key pc now)
    (hheld : held ∈ p.top2 k) (hopen : OpenEvidence P k held now) :
    held ∈ (offer P p key env now).2.top2 k := by
  by_cases hkey : key.length = 32
  · cases hscreen : poolScreen P env with
    | none =>
      unfold offer offerSeen
      rw [hscreen]
      split <;> exact hheld
    | some screened =>
      obtain ⟨pc, ph⟩ := screened
      rw [offer_eq_enter hkey hscreen]
      obtain ⟨hlen, m, hm, hmenv⟩ := mem_top2.mp hheld
      have hroom := hspares pc ph hscreen
      have hm' : m ∈ (p.stamp key ph now 0).members k := by
        rw [stamp_members]
        exact hm
      rw [mem_top2]
      refine ⟨hlen, m, ?_, hmenv⟩
      rcases @mem_members_enter _ key k pc m hm' with
        hstay | ⟨hk, best, worst, rest, hfull, hless, hmem⟩ | ⟨hnew, hnofit⟩
      · exact hstay
      · rw [hk, ← hmenv] at hopen
        exact absurd hopen (hroom.behind best worst rest hfull hless m hmem)
      · exact absurd (hroom.fits hnew) hnofit
  · unfold offer offerSeen
    rw [if_pos hkey]
    exact hheld

/-- **Evidence is not crowded out** in a run whose offers, unless evidence themselves, spare
the open evidence. -/
theorem evidence_not_crowded_out (P : Primitives) {p : ClaimPool} {offers : List ClaimOffer}
    (hrun : EachStep (poolStep P) (fun p a => ∀ key env pc ph, a.offered P p = some (key, env) →
      poolScreen P env = some (pc, ph) → ¬ EvidenceAt P key env a.now →
      Spares P p key pc a.now) p offers)
    {i : Nat} {a : ClaimOffer} (hi : offers[i]? = some a) {k : Bytes} {held : SignedEnvelope}
    (hheld : held ∈ ((offers.take i).foldl (poolStep P) p).top2 k)
    (hopen : OpenEvidence P k held a.now)
    (hdropped : held ∉ ((offers.take (i + 1)).foldl (poolStep P) p).top2 k) :
    ∃ key env, a.offered P ((offers.take i).foldl (poolStep P) p) = some (key, env) ∧
      EvidenceAt P key env a.now := by
  have hok := hrun.at hi
  rw [foldl_take_succ hi] at hdropped
  generalize (offers.take i).foldl (poolStep P) p = pool at *
  cases hoffered : a.offered P pool with
  | none =>
    rw [poolStep, hoffered] at hdropped
    exact absurd hheld hdropped
  | some offered =>
    obtain ⟨key, env⟩ := offered
    refine ⟨key, env, rfl, ?_⟩
    by_contra hno
    rw [poolStep, hoffered] at hdropped
    refine hdropped (mem_top2_offer ?_ hheld hopen)
    intro pc ph hscreen
    exact hok key env pc ph hoffered hscreen hno

theorem EvidenceAt.of_isSome {aliasName : Bytes} (hkey : keyForClaim P aliasName = .ok key)
    (h : (claimEvidence P env aliasName now).isSome = true) : EvidenceAt P key env now := by
  obtain ⟨⟨claim, ph⟩, hev⟩ := Option.isSome_iff_exists.mp h
  exact ⟨aliasName, claim, ph, hkey, hev⟩

theorem not_evidenceAt_of_verifyFull
    (h : (decodeAliasClaim P env.record.claim).toOption.all
      (fun c => !verifyFull P c inferDifficulty none 5) = true) : ¬ EvidenceAt P key env now := by
  intro hev
  obtain ⟨aliasName, claim, ph, _, hev⟩ := hev
  have hevidence := claimEvidence_eq_some_iff.mp hev
  rw [(isBound_of_boundClaim hevidence.bound).decodes] at h
  have hfull := hevidence.full
  simp [Except.toOption] at h
  rw [h] at hfull
  cases hfull

namespace PoolSample

open Toy

def lapsed : SignedEnvelope := carrier 1 (minedClaim 1 aliasA 1000 quorum) 1000 87400

def forged (n : UInt8) (ts : UInt64) : SignedEnvelope :=
  carrier n (minedClaim n aliasA ts []) 1000 87400

def pool : ClaimPool := (offer mined newClaimPool keyA lapsed 100000).2

def collectedForgery (n : UInt8) (ts : UInt64) : ClaimOffer := .collected aliasA (forged n ts) 100000

theorem lapsed_open : OpenEvidence mined keyA lapsed 100000 :=
  ⟨.of_isSome keyForClaim_aliasA (by decide +kernel), by decide +kernel⟩

def fullPool : ClaimPool := poolStep mined pool (collectedForgery 2 1)

def rival : SignedEnvelope := carrier 4 (minedClaim 4 aliasA 500 quorum) 500 200000

def collectedRival : ClaimOffer := .collected aliasA rival 100000

theorem collectedRival_offered (p : ClaimPool) :
    collectedRival.offered mined p = some (keyA, rival) := by
  show (match keyForClaim mined aliasA with
    | .error _ => none
    | .ok key => if !rival.verifySignature mined then none else some (key, rival)) = _
  rw [keyForClaim_aliasA]
  exact if_neg (by decide +kernel)

theorem rival_evidence : EvidenceAt mined keyA rival 100000 :=
  .of_isSome keyForClaim_aliasA (by decide +kernel)

end PoolSample

section
open Toy PoolSample

theorem tombstone_dropped_for_evidence :
    lapsed ∈ fullPool.top2 keyA ∧
      lapsed ∉ (([collectedRival].take 1).foldl (poolStep Toy.mined) fullPool).top2 keyA ∧
      ∃ key env, collectedRival.offered Toy.mined fullPool = some (key, env) ∧
        EvidenceAt Toy.mined key env collectedRival.now := by
  have hheld : lapsed ∈
      (([collectedRival].take 0).foldl (poolStep Toy.mined) fullPool).top2 keyA := by decide +kernel
  have hdropped : lapsed ∉
      (([collectedRival].take 1).foldl (poolStep Toy.mined) fullPool).top2 keyA := by decide +kernel
  have hrun : EachStep (poolStep Toy.mined) (fun p a => ∀ key env pc ph,
      a.offered Toy.mined p = some (key, env) → poolScreen Toy.mined env = some (pc, ph) →
      ¬ EvidenceAt Toy.mined key env a.now → Spares Toy.mined p key pc a.now) fullPool
      [collectedRival] := by
    refine ⟨?_, trivial⟩
    intro key env pc ph hoffered _ hno
    rw [collectedRival_offered, Option.some.injEq, Prod.mk.injEq] at hoffered
    rw [← hoffered.1, ← hoffered.2] at hno
    exact absurd rival_evidence hno
  have hdrop := @evidence_not_crowded_out Toy.mined fullPool [collectedRival] hrun 0 collectedRival
    rfl keyA lapsed hheld lapsed_open hdropped
  rw [List.take_zero, List.foldl_nil] at hheld hdrop
  exact ⟨hheld, hdropped, hdrop⟩

/-- **The tombstone is crowded out** by two collected claims without a witness. -/
theorem tombstone_crowded_out :
    lapsed ∈ ([collectedForgery 2 1].foldl (poolStep Toy.mined) pool).top2 keyA ∧
      OpenEvidence Toy.mined keyA lapsed 100000 ∧
      lapsed ∉ ([collectedForgery 2 1, collectedForgery 3 2].foldl (poolStep Toy.mined) pool).top2
        keyA ∧
      ¬ EvidenceAt Toy.mined keyA (forged 3 2) 100000 := by
  have hpools : lapsed ∈ ([collectedForgery 2 1].foldl (poolStep Toy.mined) pool).top2 keyA ∧
      lapsed ∉ ([collectedForgery 2 1, collectedForgery 3 2].foldl (poolStep Toy.mined) pool).top2
        keyA := by
    decide +kernel
  exact ⟨hpools.1, lapsed_open, hpools.2, not_evidenceAt_of_verifyFull (by decide +kernel)⟩

end

end Freens.Dht
