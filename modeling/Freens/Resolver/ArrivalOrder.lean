/-
**RESOLUTION DOES NOT DEPEND ON THE ORDER OF ARRIVAL** (`resolver/resolver.go`:
`resolveClaimSet`, over `dht/claims_lookup.go`: `CollectClaimsWithWitnesses`).

Of several leases that died at the same time the scan remembers the first it
meets. But the collector files the valid carriers by H_record and sorts them, so
the arrivals decide which carriers there are and nothing else.
-/
import Freens.Dht.KeyBinding
import Freens.Resolver.ClaimSet
import Freens.Toy
import Freens.Wire.EnvelopeCodec

namespace Freens.Resolver

open Library Wire Claims Dht

/-! ## The collected list -/

/-- The same envelopes, up to order and repetition. -/
def SameCarriers (envs envs' : List SignedEnvelope) : Prop := ∀ env, env ∈ envs ↔ env ∈ envs'

/-- What `collectClaims` merges: the store's copy and, with a node, the walk's copy and the
offers. -/
def arrivals (P : Primitives) (l : DHTLookup) (aliasName : Bytes) (now nodeNow : Int)
    (walk : ClaimWalk) : List SignedEnvelope :=
  match keyForClaim P aliasName with
  | .error _ => []
  | .ok key =>
    let (res, store) := get P l.store key now
    if !l.hasNode then res.toOption.join.toList
    else walk.candidates res.toOption.join (get P store key nodeNow).1.toOption.join

/-- **One carrier for each H_record**: valid envelopes with the same hash read alike. -/
def HashesApart (P : Primitives) (envs : List SignedEnvelope) : Prop :=
  ∀ e ∈ envs, ∀ e' ∈ envs, e.verifySignature P = true → e'.verifySignature P = true →
    e.recordHash P = e'.recordHash P → e.normal = e'.normal

/-- The valid ones of `envs`, one for each H_record, in the order of their hashes. -/
def collected (P : Primitives) (envs : List SignedEnvelope) : List SignedEnvelope :=
  sortedByRecordHash (envs.foldl (addCollected P) ∅)

variable {P : Primitives} {e : SignedEnvelope} {envs envs' arrived arrived' : List SignedEnvelope}

/-- The sorted entries behind the list: each under its own hash, and valid. -/
theorem entry_of_sorted {x : Bytes × SignedEnvelope}
    (h : x ∈ ((envs.foldl (addCollected P) ∅).select (fun _ _ => true)).insertionSort
      (fun a b => a.1 ≤ b.1)) :
    x.1 = x.2.recordHash P ∧ x.2 ∈ envs ∧ x.2.verifySignature P = true := by
  rw [List.mem_insertionSort, Table.mem_select] at h
  obtain ⟨hmem, hhash⟩ := foldl_addCollected_lookup envs h.1
  exact ⟨hhash, List.mem_filter.mp hmem⟩

theorem mem_of_mem_collected (h : e ∈ collected P envs) :
    e ∈ envs ∧ e.verifySignature P = true := by
  obtain ⟨x, hx, rfl⟩ := List.mem_map.mp h
  exact (entry_of_sorted hx).2

theorem map_recordHash_collected (envs : List SignedEnvelope) :
    (collected P envs).map (·.recordHash P) =
      (((envs.foldl (addCollected P) ∅).select (fun _ _ => true)).insertionSort
        (fun a b => a.1 ≤ b.1)).map Prod.fst := by
  rw [collected, sortedByRecordHash, List.map_map]
  exact List.map_congr_left fun x hx => (entry_of_sorted hx).1.symm

/-- **The hashes are strictly increasing.** -/
theorem recordHash_collected_sorted (envs : List SignedEnvelope) :
    ((collected P envs).map (·.recordHash P)).Pairwise (· < ·) := by
  rw [map_recordHash_collected, List.pairwise_map]
  exact pairwise_lt_insertionSort (Table.select_nodup _ _)

theorem mem_recordHash_collected {h : Bytes} :
    h ∈ (collected P envs).map (·.recordHash P) ↔
      ∃ e ∈ envs, e.verifySignature P = true ∧ e.recordHash P = h := by
  constructor
  · intro hmem
    obtain ⟨e, he, rfl⟩ := List.mem_map.mp hmem
    exact ⟨e, (mem_of_mem_collected he).1, (mem_of_mem_collected he).2, rfl⟩
  · rintro ⟨e, he, hvalid, rfl⟩
    obtain ⟨o, ho⟩ := foldl_addCollected_mem envs (List.mem_filter.mpr ⟨he, hvalid⟩)
    rw [map_recordHash_collected, List.mem_map]
    refine ⟨(e.recordHash P, o), ?_, rfl⟩
    rw [List.mem_insertionSort, Table.mem_select]
    exact ⟨ho, rfl⟩

theorem recordHash_collected_congr (h : SameCarriers arrived arrived') :
    (collected P arrived).map (·.recordHash P) = (collected P arrived').map (·.recordHash P) := by
  refine (recordHash_collected_sorted arrived).eq_of_mem_iff (recordHash_collected_sorted arrived')
    fun x => ?_
  rw [mem_recordHash_collected, mem_recordHash_collected]
  simp only [h _]

/-- **Two collected lists with the same envelopes are one list.** -/
theorem collected_eq_of_sameCarriers
    (h : SameCarriers (collected P arrived) (collected P arrived')) :
    collected P arrived = collected P arrived' :=
  eq_of_ascending (List.pairwise_map.mp (recordHash_collected_sorted arrived))
    (List.pairwise_map.mp (recordHash_collected_sorted arrived')) h

/-- What does not tell envelopes of one hash apart is the same along both lists. -/
theorem map_collected_congr {β : Type} {f : SignedEnvelope → β} (h : SameCarriers arrived arrived')
    (hf : ∀ e ∈ arrived, ∀ e' ∈ arrived, e.verifySignature P = true →
      e'.verifySignature P = true → e.recordHash P = e'.recordHash P → f e = f e') :
    (collected P arrived).map f = (collected P arrived').map f := by
  have hhashes := @recordHash_collected_congr P arrived arrived' h
  have hlen : (collected P arrived).length = (collected P arrived').length := by
    simpa using congrArg List.length hhashes
  refine List.ext_getElem (by simpa using hlen) fun i hi hi' => ?_
  rw [List.getElem_map, List.getElem_map]
  rw [List.length_map] at hi hi'
  obtain ⟨he, hvalid⟩ := mem_of_mem_collected (List.getElem_mem hi)
  obtain ⟨he', hvalid'⟩ := mem_of_mem_collected (List.getElem_mem hi')
  have heq := List.getElem_of_eq hhashes (by simpa using hi)
  rw [List.getElem_map, List.getElem_map] at heq
  exact hf _ he _ ((h _).mpr he') hvalid hvalid' heq

/-- **What is handed over** is the collected list of the arrivals. -/
theorem collectClaims_eq_ok {l : DHTLookup} {aliasName : Bytes} {now nodeNow : Int}
    {walk : ClaimWalk} (h : (collectClaims P l aliasName now nodeNow walk).1 = .ok envs) :
    envs = collected P (arrivals P l aliasName now nodeNow walk) := by
  unfold collectClaims at h
  unfold arrivals
  cases hkey : keyForClaim P aliasName with
  | error e =>
    rw [hkey] at h
    cases h
  | ok key =>
    rw [hkey] at h
    simp only at h ⊢
    split at h
    next hnode =>
      rw [if_pos hnode]
      exact (Except.ok.inj h).symm
    next hnode =>
      rw [if_neg hnode]
      split at h
      next => cases h
      next set hmerge =>
        have hset := mergeCollect_eq_ok hmerge
        split at h <;> exact (Except.ok.inj h).symm.trans hset

/-! ## The resolution -/

/-- The answers of the source, with this claim set. -/
def Collected.withEnvs (c : Collected) (envs : List SignedEnvelope) : Collected :=
  { c with envs := .ok envs }

variable {c : Collected} {l : PastHorizonLedger} {aliasName : Bytes} {now : Int}

/-- The screen reads an envelope's content and signature, not its form. -/
theorem screenEnvelope_normal (env : SignedEnvelope) :
    screenEnvelope P c aliasName now env.normal = screenEnvelope P c aliasName now env := by
  have hsig : env.normal.verifySignature P = env.verifySignature P :=
    (sameContent_normal env).verifySignature_eq.symm
  have hrevoked : env.normal.isRevoked = env.isRevoked :=
    decide_eq_decide.mpr (sameContent_normal env).record.revoke.symm
  have hvalid : env.normal.record.validate = env.record.validate := rfl
  have hbound : boundClaim P env.normal aliasName now = boundClaim P env aliasName now := rfl
  have hlive : verifyClaimEnvelope P env.normal aliasName now c.oracle c.witnessSet =
      verifyClaimEnvelope P env aliasName now c.oracle c.witnessSet := by
    unfold verifyClaimEnvelope verifyClaimContents isBasicValid
    rw [hsig, hvalid, hbound]
    rfl
  have hdead : tombstoneOf P env.normal aliasName now = tombstoneOf P env aliasName now := by
    unfold tombstoneOf claimEvidence
    rw [hsig, hrevoked, hvalid, hbound]
    rfl
  unfold screenEnvelope
  rw [hlive, hdead]
  rfl

theorem resolveClaimSet_congr (h : envs.map (screenEnvelope P c aliasName now) =
      envs'.map (screenEnvelope P c aliasName now)) :
    resolveClaimSet P l aliasName now (c.withEnvs envs) =
      resolveClaimSet P l aliasName now (c.withEnvs envs') := by
  have hscan : scan P (c.withEnvs envs) aliasName now envs =
      scan P (c.withEnvs envs') aliasName now envs' := by
    show scan P c aliasName now envs = scan P c aliasName now envs'
    unfold scan
    rw [← @List.foldl_map _ _ _ (screenEnvelope P c aliasName now) ClaimScan.add,
      ← @List.foldl_map _ _ _ (screenEnvelope P c aliasName now) ClaimScan.add, h]
  have hempty : envs.isEmpty = envs'.isEmpty := by
    have hlen := congrArg List.length h
    rw [List.length_map, List.length_map] at hlen
    rw [Bool.eq_iff_iff, List.isEmpty_iff_length_eq_zero, List.isEmpty_iff_length_eq_zero, hlen]
  show (if envs.isEmpty then _ else _) = (if envs'.isEmpty then _ else _)
  rw [hempty, hscan]
  rfl

/-- **Resolution does not depend on the order of arrival.** Lists with the same envelopes
resolve alike, and so do collections whose arrivals are the same up to order and repetition. -/
theorem arrival_order_irrelevant (P : Primitives) (l : PastHorizonLedger) (aliasName : Bytes)
    (now nodeNow nodeNow' : Int) (c : Collected) (source source' : DHTLookup)
    (walk walk' : ClaimWalk) (envs envs' : List SignedEnvelope)
    (hcollect : (collectClaims P source aliasName now nodeNow walk).1 = .ok envs)
    (hcollect' : (collectClaims P source' aliasName now nodeNow' walk').1 = .ok envs')
    (hsame : SameCarriers envs envs' ∨
      (SameCarriers (arrivals P source aliasName now nodeNow walk)
          (arrivals P source' aliasName now nodeNow' walk') ∧
        HashesApart P (arrivals P source aliasName now nodeNow walk))) :
    resolveClaimSet P l aliasName now (c.withEnvs envs) =
      resolveClaimSet P l aliasName now (c.withEnvs envs') := by
  rw [collectClaims_eq_ok hcollect, collectClaims_eq_ok hcollect'] at hsame ⊢
  rcases hsame with hsame | ⟨harrived, hapart⟩
  · rw [collected_eq_of_sameCarriers hsame]
  · refine resolveClaimSet_congr (map_collected_congr harrived ?_)
    intro e he e' he' hvalid hvalid' hhash
    rw [← screenEnvelope_normal e, ← screenEnvelope_normal e',
      hapart e he e' he' hvalid hvalid' hhash]

namespace OrderSample

open Toy

def mine : AliasClaim := minedClaim 1 aliasA 1000 quorum

def mineLapsed : SignedEnvelope := carrier 1 mine 1000 5000

def mineResumed : SignedEnvelope := carrier 1 mine 6000 1000000

def theirsLapsed : SignedEnvelope := carrier 2 (minedClaim 2 aliasA 1100 quorum) 1100 5000

def holdsNothing : DHTLookup := { store := newEnvelopeStore 0, fetchedAt := ∅, hasNode := true }

def asked (arrived : List SignedEnvelope) : Except CollectError (List SignedEnvelope) :=
  (collectClaims mined holdsNothing aliasA 20000 20000 (.answered arrived)).1

def answers : Collected :=
  { envs := .ok [], witnessSet := none, oracle := none, reAttestSets := ∅ }

end OrderSample

section
open OrderSample

/-- **Two leases that died together.** Whichever arrives first, the claimant who came back
is served. -/
theorem tied_tombstones_alike :
    ∃ envs envs', asked [mineLapsed, theirsLapsed, mineResumed] = .ok envs ∧
      asked [theirsLapsed, mineResumed, mineLapsed, theirsLapsed] = .ok envs' ∧
      resolveClaimSet Toy.mined ∅ Toy.aliasA 20000 (answers.withEnvs envs) =
        resolveClaimSet Toy.mined ∅ Toy.aliasA 20000 (answers.withEnvs envs') ∧
      (resolveClaimSet Toy.mined ∅ Toy.aliasA 20000 (answers.withEnvs envs)).1.tldID =
        mine.tldID := by
  have hfirst : asked [mineLapsed, theirsLapsed, mineResumed] =
      .ok [mineLapsed, theirsLapsed, mineResumed] := by decide +kernel
  have hsecond : asked [theirsLapsed, mineResumed, mineLapsed, theirsLapsed] =
      .ok [mineLapsed, theirsLapsed, mineResumed] := by decide +kernel
  have harrived : ∀ arrived, arrivals Toy.mined holdsNothing Toy.aliasA 20000 20000
      (.answered arrived) = arrived := fun _ => rfl
  have happart : ∀ e ∈ [mineLapsed, theirsLapsed, mineResumed],
      ∀ e' ∈ [mineLapsed, theirsLapsed, mineResumed],
        e.recordHash Toy.mined = e'.recordHash Toy.mined → e = e' := by decide +kernel
  have hthere : ∀ e ∈ [mineLapsed, theirsLapsed, mineResumed],
      e ∈ [theirsLapsed, mineResumed, mineLapsed, theirsLapsed] := by decide +kernel
  have hback : ∀ e ∈ [theirsLapsed, mineResumed, mineLapsed, theirsLapsed],
      e ∈ [mineLapsed, theirsLapsed, mineResumed] := by decide +kernel
  refine ⟨_, _, hfirst, hsecond, arrival_order_irrelevant Toy.mined ∅ Toy.aliasA 20000 20000 20000
    answers holdsNothing holdsNothing _ _ _ _ hfirst hsecond (.inr ⟨?_, ?_⟩), by decide +kernel⟩
  · rw [harrived, harrived]
    exact fun env => ⟨hthere env, hback env⟩
  · rw [harrived]
    exact fun e he e' he' _ _ hhash => congrArg _ (happart e he e' he' hhash)

end

end Freens.Resolver
