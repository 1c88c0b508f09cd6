/-
**THE POOL THROUGH SWEEPS AND RESTARTS, AND THE KEYS ITS CLAIMS ARE UNDER**
(`dht/claims_pool.go`: `Sweep`, `PersistClaimPoolTo`, `RetainClaimPool`;
`dht/claims_lookup.go`: `CollectClaimsWithWitnesses`).

A put and the reload derive the key from the claim; the collect path offers every
answer under the key that was asked for.
-/
import Freens.Dht.PoolOrder
import Freens.Wire.Files

namespace Freens.Dht

open Library Naming Wire Claims

/-! ## The sweep -/

/-- The carrier can neither win nor open the reuse window any more. -/
def windowClosed (env : SignedEnvelope) (now : Int) : Bool :=
  now ≥ wrap64 (int64 env.record.expires + Constants.aliasReuseDelay)

/-- A side table without the identities that are not pooled; an empty one is
dropped. -/
def pruneIdentities {ν : Type} (t : Table Bytes (Table Bytes ν)) (k : Bytes) (live : List Bytes) :
    Table Bytes (Table Bytes ν) :=
  let sets := ((t.lookup k).getD ∅).reject (fun ph _ => !live.contains ph)
  if sets.entries.isEmpty then t.erase k else t.insert k sets

section
variable (P : Primitives)

/-- One round of `Sweep`. -/
def sweepKey (now : Int) (p : ClaimPool) (k : Bytes) : ClaimPool :=
  let keep := (p.members k).filter (fun m => !windowClosed m.env now)
  let gone := (p.members k).filter (fun m => windowClosed m.env now)
  let p := { p with bytes := p.bytes - (gone.map PooledClaim.size).sum }
  if keep = [] then
    { p with
      byKey := p.byKey.erase k
      firstSeen := p.firstSeen.erase k
      reattests := p.reattests.erase k
      order := p.order.filter (· ≠ k) }
  else
    let live := keep.filterMap (fun m => (m.claim.prefixHash P).toOption)
    { p with
      byKey := p.byKey.insert k keep
      reattests := pruneIdentities p.reattests k live
      firstSeen := pruneIdentities p.firstSeen k live }

/-- `sweep`: each key in turn. -/
def sweep (p : ClaimPool) (now : Int) : ClaimPool := p.byKey.keys.foldl (sweepKey P now) p

/-! ## Persistence -/

/-- The saved stamp and attestations of an identity. -/
structure IdentityMeta where
  ph : Bytes
  fs : Int
  att : List WitnessAttestation
  deriving DecidableEq, Repr

/-- The pool's directory: one file per envelope, and the meta file. -/
structure PoolDir where
  files : Directory
  metas : List IdentityMeta
  deriving DecidableEq

/-- `Entries`: the pooled envelopes under their hashes. -/
def poolEntries (p : ClaimPool) : List (Bytes × SignedEnvelope) :=
  (p.byKey.select (fun _ _ => true)).flatMap (fun x => x.2.map (fun m => (m.env.recordHash P, m.env)))

/-- `persistClaimPoolMeta`. -/
def persistClaimPoolMeta (p : ClaimPool) : List IdentityMeta :=
  ((p.firstSeen.select (fun _ _ => true)).flatMap (fun x =>
    (x.2.select (fun _ _ => true)).map (fun y =>
      { ph := y.1, fs := y.2, att := (((p.reattests.lookup x.1).getD ∅).lookup y.1).getD [] }))
    ).insertionSort (fun a b => a.ph ≤ b.ph)

/-- Files of an earlier persist stay. -/
def persistClaimPoolTo (p : ClaimPool) (dir : PoolDir) (now : Int) : ClaimPool × PoolDir :=
  let p := sweep P p now
  (p, { files := dir.files.writeAll ((poolEntries P p).map (fun e => (e.1, e.2.bytes)))
        metas := persistClaimPoolMeta p })

/-- The stamp of the meta file, for an identity that has none. -/
def ClaimPool.restoreStamp (p : ClaimPool) (k ph : Bytes) (fs now : Int) : ClaimPool :=
  let seen := (p.firstSeen.lookup k).getD ∅
  let seen := if (seen.lookup ph).isNone ∧ fs > 0 ∧ fs ≤ now then seen.insert ph fs else seen
  { p with firstSeen := p.firstSeen.insert k seen }

/-- Re-attestations are verified once more. -/
def bindRetainedMeta (p : ClaimPool) (key ph : Bytes) (m : IdentityMeta) (now : Int) : ClaimPool :=
  (m.att.filter (fun a => a.verify P ph)).foldl (fun p a => p.storeReAttests key ph [a])
    (p.restoreStamp key ph m.fs now)

variable (unmarshal : Bytes → Option SignedEnvelope)

/-- The checks of `RetainClaimPool` on one file. -/
def retainable (data : Bytes) (now : Int) : Option (SignedEnvelope × Bytes × Bytes) :=
  match decodeEnvelope unmarshal data with
  | .error _ => none
  | .ok env =>
    if env.record.claim.length = 0 ∨ !env.verifySignature P then none
    else match decodeAliasClaim P env.record.claim with
      | .error _ => none
      | .ok claim =>
        match keyForClaim P claim.aliasName with
        | .error _ => none
        | .ok kClaim =>
          -- a closed window is not worth a slot
          if windowClosed env now then none
          else match claim.prefixHash P with
            | .error _ => none
            | .ok ph => some (env, kClaim, ph)

/-- One file of `RetainClaimPool`; of two stamps for an identity the later entry counts. -/
def retainFile (metas : List IdentityMeta) (now : Int) (p : ClaimPool) (data : Bytes) : ClaimPool :=
  match retainable P unmarshal data now with
  | none => p
  | some (env, kClaim, ph) =>
    match metas.reverse.find? (·.ph = ph) with
    | none => (offerSeen P p kClaim env now 0).2
    | some m => bindRetainedMeta P (offerSeen P p kClaim env now m.fs).2 kClaim ph m now

/-- `retainClaimPool`: the saved claims offered again. -/
def retainClaimPool (p : ClaimPool) (dir : PoolDir) (now : Int) : ClaimPool :=
  (dir.files.files.map (·.2)).foldl (retainFile P unmarshal dir.metas now) p

/-- The pool and its directory. -/
structure PoolNode where
  pool : ClaimPool
  dir : PoolDir

/-- What can happen next. -/
inductive PoolAction where
  | offer (a : ClaimOffer)
  | storeReAttests (key ph : Bytes) (atts : List WitnessAttestation)
  | sweep (now : Int)
  | persist (now : Int)
  | restart (now : Int)

/-- One action. -/
def poolNodeStep (n : PoolNode) : PoolAction → PoolNode
  | .offer a => { n with pool := poolStep P n.pool a }
  | .storeReAttests key ph atts => { n with pool := n.pool.storeReAttests key ph atts }
  | .sweep now => { n with pool := sweep P n.pool now }
  | .persist now =>
    let (pool, dir) := persistClaimPoolTo P n.pool n.dir now
    { pool, dir }
  | .restart now => { n with pool := retainClaimPool P unmarshal newClaimPool n.dir now }

end

/-! ## Where a member comes from -/

variable {P : Primitives}
  {p : ClaimPool} {k : Bytes} {m : PooledClaim} {env : SignedEnvelope} {now : Int}

theorem members_erase {p' : ClaimPool} (h : p'.byKey = p.byKey.erase k)
    (k' : Bytes) : p'.members k' = if k' = k then [] else p.members k' := by
  unfold ClaimPool.members
  rw [h]
  split
  next heq => rw [heq, AList.lookup_erase, Option.getD_none]
  next hne => rw [AList.lookup_erase_ne hne]

theorem mem_of_mem_evictLoop {newest : Bytes} {order : List Bytes} {p : ClaimPool}
    (hm : m ∈ (evictLoop newest order p).members k) : m ∈ p.members k := by
  induction order generalizing p with
  | nil => exact hm
  | cons oldest rest ih =>
    unfold evictLoop at hm
    split at hm
    next => exact hm
    split at hm
    next => exact hm
    have hdropped := ih hm
    rw [members_erase (show (p.dropKey oldest).byKey = p.byKey.erase oldest from rfl)] at hdropped
    split at hdropped
    next => exact absurd hdropped List.not_mem_nil
    next => exact hdropped

theorem mem_members_of_enter {k' : Bytes} {pc : PooledClaim}
    (h : m ∈ (p.enter k pc).2.members k') : m ∈ p.members k' ∨ (k' = k ∧ m = pc) := by
  -- a key whose claims were rewritten
  have hinsert : ∀ {p' : ClaimPool} {l : List PooledClaim}, p'.byKey = p.byKey.insert k (place l pc) →
      (∀ m ∈ l, m ∈ p.members k) → m ∈ p'.members k' → m ∈ p.members k' ∨ (k' = k ∧ m = pc) := by
    intro p' l hp' hl hm
    rw [members_of_insert hp'] at hm
    split at hm
    next heq =>
      rcases mem_place.mp hm with hold | hnew
      · exact .inl (heq ▸ hl m hold)
      · exact .inr ⟨heq, hnew⟩
    next => exact .inl hm
  rcases enter_cases p k pc with ⟨_, hnew⟩ | ⟨cur, hcur, ⟨_, hsame⟩ | ⟨_, hgrown⟩⟩
  · rw [hnew] at h
    exact hinsert rfl (fun m hm => absurd hm List.not_mem_nil) (mem_of_mem_evictLoop h)
  · rw [hsame] at h
    exact .inl h
  · rw [hgrown] at h
    refine hinsert rfl (fun m hm => ?_) h
    rw [ClaimPool.members, hcur]
    exact List.mem_of_mem_take hm

theorem mem_members_of_offerSeen {key : Bytes} {fs : Int}
    (h : m ∈ (offerSeen P p key env now fs).2.members k) :
    m ∈ p.members k ∨ (k = key ∧ ∃ ph, poolScreen P env = some (m, ph)) := by
  unfold offerSeen at h
  split at h
  next => exact .inl h
  split at h
  next => exact .inl h
  next pc ph hscreen =>
    rcases mem_members_of_enter h with hold | ⟨hk, hm⟩
    · exact .inl hold
    · exact .inr ⟨hk, ph, hm ▸ hscreen⟩

theorem mem_members_of_sweep (h : m ∈ (sweep P p now).members k) : m ∈ p.members k := by
  unfold sweep at h
  generalize p.byKey.keys = keys at h
  induction keys generalizing p with
  | nil => exact h
  | cons k₀ keys ih =>
    have hround := ih h
    unfold sweepKey at hround
    simp only at hround
    split at hround
    next =>
      rw [members_erase (p := p) rfl] at hround
      split at hround
      next => exact absurd hround List.not_mem_nil
      next => exact hround
    next =>
      rw [members_of_insert (p := p) rfl] at hround
      split at hround
      next heq => exact heq ▸ List.mem_of_mem_filter hround
      next => exact hround

@[simp] theorem storeReAttests_members (p : ClaimPool) (key ph : Bytes)
    (atts : List WitnessAttestation) (k : Bytes) :
    (p.storeReAttests key ph atts).members k = p.members k := by
  unfold ClaimPool.storeReAttests
  split <;> rfl

@[simp] theorem bindRetainedMeta_members (p : ClaimPool) (key ph : Bytes) (m : IdentityMeta)
    (now : Int) (k : Bytes) : (bindRetainedMeta P p key ph m now).members k = p.members k := by
  unfold bindRetainedMeta
  suffices h : ∀ (atts : List WitnessAttestation) (q : ClaimPool),
      (atts.foldl (fun p a => p.storeReAttests key ph [a]) q).members k = q.members k from
    h _ _
  intro atts
  induction atts with
  | nil =>
    intro q
    rfl
  | cons a atts ih =>
    intro q
    rw [List.foldl_cons, ih, storeReAttests_members]

/-! ## Every claim under its own key -/

/-- The member is its envelope's claim, and the key is that of its alias. -/
def Keyed (P : Primitives) (k : Bytes) (m : PooledClaim) : Prop :=
  decodeAliasClaim P m.env.record.claim = .ok m.claim ∧ keyForClaim P m.claim.aliasName = .ok k

/-- **Every claim is pooled under the key of its alias.** -/
def ClaimPool.KeyedByClaim (P : Primitives) (p : ClaimPool) : Prop :=
  ∀ k, ∀ m ∈ p.members k, Keyed P k m

theorem ClaimPool.KeyedByClaim.offerSeen {p : ClaimPool} (h : p.KeyedByClaim P) {key : Bytes}
    {env : SignedEnvelope} {now fs : Int}
    (hkey : ∀ pc ph, poolScreen P env = some (pc, ph) → keyForClaim P pc.claim.aliasName = .ok key) :
    (offerSeen P p key env now fs).2.KeyedByClaim P := by
  intro k m hm
  rcases mem_members_of_offerSeen hm with hold | ⟨hk, ph, hscreen⟩
  · exact h k m hold
  · obtain ⟨henv, _, hdecode, _⟩ := poolScreen_fields hscreen
    rw [hk]
    exact ⟨henv ▸ hdecode, hkey m ph hscreen⟩

theorem keyForClaim_of_claimKey {claim : AliasClaim}
    (hclaim : decodeAliasClaim P env.record.claim = .ok claim) (h : claimKey P env = some k) :
    keyForClaim P claim.aliasName = .ok k := by
  obtain ⟨claim', hclaim', hk⟩ := claimKey_eq_some h
  rw [hclaim, Except.ok.injEq] at hclaim'
  rw [hclaim']
  exact hk

/-- The collected claim is for the alias that was asked for. -/
def ClaimOffer.Asked (P : Primitives) : ClaimOffer → Prop
  | .put _ _ _ => True
  | .collected aliasName env _ => ∀ pc ph, poolScreen P env = some (pc, ph) →
    keyForClaim P pc.claim.aliasName = keyForClaim P aliasName

theorem ClaimPool.KeyedByClaim.poolStep (h : p.KeyedByClaim P) {a : ClaimOffer}
    (hasked : a.Asked P) : (poolStep P p a).KeyedByClaim P := by
  unfold Freens.Dht.poolStep
  split
  next => exact h
  next key env hoffered =>
    refine h.offerSeen ?_
    intro pc ph hscreen
    cases a with
    | put gates m now =>
      unfold ClaimOffer.offered at hoffered
      simp only at hoffered
      split at hoffered
      next => cases hoffered
      next adm _ =>
        split at hoffered
        next hck =>
          rw [Option.some.injEq, Prod.mk.injEq] at hoffered
          rw [hoffered.1, hoffered.2] at hck
          exact keyForClaim_of_claimKey (poolScreen_fields hscreen).2.2.1 hck
        next => cases hoffered
    | collected aliasName env' now =>
      unfold ClaimOffer.offered at hoffered
      simp only at hoffered
      split at hoffered
      next => cases hoffered
      next key' hkey' =>
        split at hoffered
        next => cases hoffered
        rw [Option.some.injEq, Prod.mk.injEq] at hoffered
        rw [← hoffered.2] at hscreen
        rw [hasked pc ph hscreen, hkey', hoffered.1]

variable {data : Bytes}

theorem retainable_key {unmarshal : Bytes → Option SignedEnvelope} {kClaim ph : Bytes}
    (h : retainable P unmarshal data now = some (env, kClaim, ph)) :
    ∃ claim, decodeAliasClaim P env.record.claim = .ok claim ∧
      keyForClaim P claim.aliasName = .ok kClaim := by
  unfold retainable at h
  split at h
  next => cases h
  next env' _ =>
    split at h
    next => cases h
    split at h
    next => cases h
    next claim hclaim =>
      split at h
      next => cases h
      next k hk =>
        split at h
        next => cases h
        split at h
        next => cases h
        rw [Option.some.injEq, Prod.mk.injEq, Prod.mk.injEq] at h
        rw [← h.1, ← h.2.1]
        exact ⟨claim, hclaim, hk⟩

theorem ClaimPool.KeyedByClaim.retainFile (h : p.KeyedByClaim P)
    {unmarshal : Bytes → Option SignedEnvelope}
    {metas : List IdentityMeta} : (retainFile P unmarshal metas now p data).KeyedByClaim P := by
  unfold Freens.Dht.retainFile
  split
  next => exact h
  next env kClaim ph hretain =>
    have hoffer : ∀ fs, (Freens.Dht.offerSeen P p kClaim env now fs).2.KeyedByClaim P := by
      intro fs
      refine h.offerSeen ?_
      intro pc ph' hscreen
      obtain ⟨claim, hclaim, hkey⟩ := retainable_key hretain
      have hdecode := (poolScreen_fields hscreen).2.2.1
      rw [hclaim, Except.ok.injEq] at hdecode
      rw [← hdecode]
      exact hkey
    split
    next => exact hoffer 0
    next m _ =>
      intro k pc hpc
      rw [bindRetainedMeta_members] at hpc
      exact hoffer m.fs k pc hpc

theorem newClaimPool_keyed : newClaimPool.KeyedByClaim P :=
  fun _ _ hm => absurd hm List.not_mem_nil

theorem retainClaimPool_keyed {unmarshal : Bytes → Option SignedEnvelope}
    {dir : PoolDir} : (retainClaimPool P unmarshal newClaimPool dir now).KeyedByClaim P := by
  unfold retainClaimPool
  suffices hfold : ∀ (files : List Bytes) (p : ClaimPool), p.KeyedByClaim P →
      (files.foldl (retainFile P unmarshal dir.metas now) p).KeyedByClaim P from
    hfold _ _ newClaimPool_keyed
  intro files
  induction files with
  | nil =>
    intro p hp
    exact hp
  | cons data files ih =>
    intro p hp
    exact ih _ hp.retainFile

/-- A collected envelope answers the alias asked for. -/
def PoolAction.Asked (P : Primitives) : PoolAction → Prop
  | .offer a => a.Asked P
  | _ => True

theorem ClaimPool.KeyedByClaim.step {unmarshal : Bytes → Option SignedEnvelope} {n : PoolNode}
    (h : n.pool.KeyedByClaim P) {a : PoolAction} (hasked : a.Asked P) :
    (poolNodeStep P unmarshal n a).pool.KeyedByClaim P := by
  cases a with
  | offer a => exact h.poolStep hasked
  | storeReAttests key ph atts =>
    intro k m hm
    exact h k m (by simpa [poolNodeStep] using hm)
  | sweep now =>
    intro k m hm
    exact h k m (mem_members_of_sweep hm)
  | persist now =>
    intro k m hm
    exact h k m (mem_members_of_sweep hm)
  | restart now => exact retainClaimPool_keyed

/-- **Pool admission is by key** in every run whose collected claims are for the alias asked for. -/
theorem pool_keyed_by_claim (P : Primitives) (unmarshal : Bytes → Option SignedEnvelope)
    {dir : PoolDir} {acts : List PoolAction} (hasked : ∀ a ∈ acts, a.Asked P) {k : Bytes}
    {m : PooledClaim}
    (hm : m ∈ (acts.foldl (poolNodeStep P unmarshal) ⟨newClaimPool, dir⟩).pool.members k) :
    decodeAliasClaim P m.env.record.claim = .ok m.claim ∧
      keyForClaim P m.claim.aliasName = .ok k := by
  have hrun : EachStep (poolNodeStep P unmarshal) (fun _ a => a.Asked P) ⟨newClaimPool, dir⟩ acts :=
    EachStep.of_forall_mem fun a ha _ => hasked a ha
  have hinv : (acts.foldl (poolNodeStep P unmarshal) ⟨newClaimPool, dir⟩).pool.KeyedByClaim P :=
    @EachStep.invariant _ _ _ _ (fun n => n.pool.KeyedByClaim P)
      (fun n a hn ha => hn.step ha) _ _ newClaimPool_keyed hrun
  exact hinv k m hm

namespace PoolSample

open Toy

def lapsedMember : PooledClaim :=
  { env := lapsed, claim := minedClaim 1 aliasA 1000 quorum, h := lapsed.recordHash mined,
    size := lapsed.bytes.length }

def readLapsed (data : Bytes) : Option SignedEnvelope :=
  if data = lapsed.bytes then some lapsed else none

def lapsedThroughRestart : List PoolAction :=
  [.offer (.collected aliasA lapsed 100000), .persist 100000, .restart 100001]

def aliasB : Bytes := [0x62]

def foreign (n : UInt8) (ts : UInt64) : SignedEnvelope :=
  carrier n (minedClaim n aliasB ts quorum) 1000 200000

/-- Two such claims collected before `a`'s. -/
def crowdedOut : List PoolAction :=
  [foreign 2 1, foreign 3 2, lapsed].map (fun env => .offer (.collected aliasA env 100000))

end PoolSample

section
open Toy PoolSample

theorem lapsed_keyed_after_restart :
    lapsedMember ∈ (lapsedThroughRestart.foldl (poolNodeStep mined readLapsed)
        ⟨newClaimPool, ⟨∅, []⟩⟩).pool.members keyA ∧
      keyForClaim mined lapsedMember.claim.aliasName = .ok keyA := by
  have hheld : lapsedMember ∈ (lapsedThroughRestart.foldl (poolNodeStep mined readLapsed)
      ⟨newClaimPool, ⟨∅, []⟩⟩).pool.members keyA := by
    decide +kernel
  refine ⟨hheld, (pool_keyed_by_claim mined readLapsed ?_ hheld).2⟩
  intro a ha
  simp only [lapsedThroughRestart, List.mem_cons, List.not_mem_nil, or_false] at ha
  rcases ha with rfl | rfl | rfl
  · intro pc ph hscreen
    have hdecode := (poolScreen_fields hscreen).2.2.1
    have hclaim : decodeAliasClaim mined lapsed.record.claim = .ok lapsedMember.claim := by
      decide +kernel
    rw [hclaim, Except.ok.injEq] at hdecode
    rw [← hdecode]
    rfl
  · trivial
  · trivial

/-- **Claims of another alias fill the key**: two early claims of `b` take the slots of `a`. -/
theorem slots_filled_by_foreign_claims :
    (crowdedOut.foldl (poolNodeStep mined readLapsed) ⟨newClaimPool, ⟨∅, []⟩⟩).pool.top2 keyA =
        [foreign 2 1, foreign 3 2] ∧
      claimKey mined (foreign 2 1) ≠ some keyA ∧ claimKey mined (foreign 3 2) ≠ some keyA ∧
      claimKey mined lapsed = some keyA := by
  decide +kernel

end

end Freens.Dht
