/-
**THE WINNER OF A CLAIM SET** (`resolver/resolver.go`: `resolveClaimSet`,
`verifyClaimEnvelope`, `effectivePoWDifficulty`).

The carriers that pass the full screen today are live claims; the dead one that
still proves a lease and died last is remembered. The ratchet filters the live
claims; while a reuse window is open one of those left must continue the dead
lease; then the order of claims picks the winner.
-/
import Freens.Dht.ClaimEvidence
import Freens.Dht.Lookup
import Freens.Resolver.FreensResolve
import Freens.Resolver.Ratchet

namespace Freens.Resolver

open Library Wire Claims Dht

/-! ## The screen of one carrier -/

/-- The nonce's difficulty, no lower than the network's and the baseline. Without an oracle
it is inferred. -/
def effectivePoWDifficulty (c : AliasClaim) (oracle : Option Int) : Int :=
  match oracle with
  | none => inferDifficulty
  | some networkDifficulty =>
    let baseline : Int := Constants.powDifficultyInit
    let floor := if networkDifficulty < baseline then baseline else networkDifficulty
    if floor > inferDifficultyOf c then floor else inferDifficultyOf c

/-- What the record source answers in one resolution. -/
structure Collected where
  /-- `CollectClaims` or `CollectClaimsWithWitnesses`. -/
  envs : Except CollectError (List SignedEnvelope)
  /-- The converged witness set; none leaves membership unenforced. -/
  witnessSet : Option (List Bytes)
  /-- `NetworkDifficulty`, of a source that is a `DifficultyOracle`. -/
  oracle : Option Int
  /-- `ReAttestSets`; empty when the source has none or fails. -/
  reAttestSets : Table Bytes (List WitnessAttestation)

/-- Past the contest window the witness set of today is not asked. -/
def membershipAt (claim : AliasClaim) (witnessSet : Option (List Bytes)) (now : Int) :
    Option (List Bytes) :=
  if wrap64 (now - int64 claim.timestamp) ≥ Constants.contestWindow then none else witnessSet

section
variable (P : Primitives)

/-- `verifyClaimContents`: bound, difficult enough and witnessed. -/
def verifyClaimContents (env : SignedEnvelope) (aliasName : Bytes) (now : Int)
    (oracle : Option Int) (witnessSet : Option (List Bytes)) : Option AliasClaim :=
  match boundClaim P env aliasName now with
  | none => none
  | some claim =>
    if !verifyFull P claim (effectivePoWDifficulty claim oracle) (membershipAt claim witnessSet now)
      Constants.w then none
    else some claim

/-- `verifyClaimEnvelope`: the signature first. -/
def verifyClaimEnvelope (env : SignedEnvelope) (aliasName : Bytes) (now : Int)
    (oracle : Option Int) (witnessSet : Option (List Bytes)) : Option AliasClaim :=
  if !isBasicValid P env (uint64 now) then none
  else verifyClaimContents P env aliasName now oracle witnessSet

/-- What the scan makes of an envelope. -/
inductive Screened where
  | live (lc : LiveClaim P)
  /-- A tombstone: when it died and whose claim it was. -/
  | dead (expires : Int) (ph : Bytes)
  | ignored

/-- A claim with its prefix hash; without one it is ignored. -/
def liveClaimOf (claim : AliasClaim) (created : Int) : Screened P :=
  match h : claim.prefixHash P with
  | .error _ => .ignored
  | .ok ph => .live ⟨claim, created, ph, h⟩

/-- A carrier that failed the screen is a tombstone while its window is
open. -/
def tombstoneOf (env : SignedEnvelope) (aliasName : Bytes) (now : Int) : Screened P :=
  if env.isRevoked then .ignored
  else match claimEvidence P env aliasName now with
    | none => .ignored
    | some (_, deadPH) =>
      if uint64 now ≥ env.record.expires ∧
          wrap64 (int64 env.record.expires + Constants.aliasReuseDelay) > now then
        .dead (int64 env.record.expires) deadPH
      else .ignored

/-- The body of the loop over the collected set, up to its accumulators. -/
def screenEnvelope (c : Collected) (aliasName : Bytes) (now : Int) (env : SignedEnvelope) :
    Screened P :=
  match verifyClaimEnvelope P env aliasName now c.oracle c.witnessSet with
  | some claim => liveClaimOf P claim (int64 env.record.created)
  | none => tombstoneOf P env aliasName now

/-! ## The pass over the set, and the choice -/

/-- The accumulators of the loop: the strongest tombstone and the live
claims. -/
structure ClaimScan where
  maxDeadExpires : Int
  maxDeadPH : Bytes
  liveClaims : List (LiveClaim P)

variable {P} in
/-- One envelope counted. -/
def ClaimScan.add (s : ClaimScan P) : Screened P → ClaimScan P
  | .live lc => { s with liveClaims := s.liveClaims ++ [lc] }
  | .dead expires ph =>
    if expires > s.maxDeadExpires then { s with maxDeadExpires := expires, maxDeadPH := ph } else s
  | .ignored => s

/-- The loop over the collected envelopes. -/
def scan (c : Collected) (aliasName : Bytes) (now : Int) (envs : List SignedEnvelope) :
    ClaimScan P :=
  envs.foldl (fun s env => s.add (screenEnvelope P c aliasName now env)) ⟨0, [], []⟩

/-- A claim that continues the strongest tombstone's lease. -/
def ClaimScan.continues (s : ClaimScan P) (lc : LiveClaim P) : Bool :=
  lc.created < s.maxDeadExpires || (s.maxDeadPH.length > 0 && lc.ph = s.maxDeadPH)

/-- No TLD. -/
def ClaimOutcome.miss : ClaimOutcome := ⟨[], false, false⟩

/-- The winner of what was kept, under the reuse window. -/
def chooseClaim (s : ClaimScan P) (kept : List (LiveClaim P)) (now : Int) : ClaimOutcome :=
  if kept.isEmpty then .miss
  -- the reuse window is open and every claim left is a new one
  else if s.maxDeadExpires > 0 ∧ kept.any (s.continues P) = false then .miss
  else match selectWinner P (orderClaims P (kept.map (·.claim))) with
    | none => .miss
    | some winner =>
      ⟨winner.tldID, wrap64 (now - int64 winner.timestamp) < Constants.contestWindow, false⟩

/-- `resolveClaimSet`, with the ledger it reads and leaves. -/
def resolveClaimSet (l : PastHorizonLedger) (aliasName : Bytes) (now : Int) (c : Collected) :
    ClaimOutcome × PastHorizonLedger :=
  match c.envs with
  | .error (.walk _) => (⟨[], false, true⟩, l)
  | .error _ => (.miss, l)
  | .ok envs =>
    if envs.isEmpty then (.miss, l)
    else if (scan P c aliasName now envs).liveClaims.isEmpty then (.miss, l)
    else
      let kept := filterPastHorizonNewcomers l aliasName (scan P c aliasName now envs).liveClaims
        c.witnessSet c.reAttestSets now
      (chooseClaim P (scan P c aliasName now envs) kept.1 now, kept.2)

/-- The envelopes collected, none after an error. -/
def Collected.offered (c : Collected) : List SignedEnvelope :=
  match c.envs with
  | .error _ => []
  | .ok envs => envs

/-- The live claims the ratchet keeps. -/
def keptClaims (l : PastHorizonLedger) (aliasName : Bytes) (now : Int) (c : Collected) :
    List (LiveClaim P) :=
  (filterPastHorizonNewcomers l aliasName (scan P c aliasName now c.offered).liveClaims c.witnessSet
    c.reAttestSets now).1

end

variable {P : Primitives}

/-! ## What the screen decides -/

variable {oracle : Option Int} {aliasName : Bytes} {c : Collected} {env : SignedEnvelope}
  {now : Int} {lc : LiveClaim P} {claim : AliasClaim} {l : PastHorizonLedger}

theorem inferDifficultyOf_le_effective {c : AliasClaim} :
    (inferDifficultyOf c : Int) ≤ difficultyFor c (effectivePoWDifficulty c oracle) := by
  cases oracle with
  | none => simp [effectivePoWDifficulty, difficultyFor]
  | some networkDifficulty =>
    have hle : (inferDifficultyOf c : Int) ≤ effectivePoWDifficulty c (some networkDifficulty) := by
      simp only [effectivePoWDifficulty]
      split_ifs <;> omega
    have hnonneg : ¬ effectivePoWDifficulty c (some networkDifficulty) < 0 := by omega
    rw [difficultyFor, if_neg hnonneg]
    exact hle

theorem liveClaimOf_cases (claim : AliasClaim) (created : Int) :
    liveClaimOf P claim created = .ignored ∨
      ∃ lc, liveClaimOf P claim created = .live lc ∧ lc.claim = claim ∧ lc.created = created := by
  unfold liveClaimOf
  split
  next => exact .inl rfl
  next ph hph => exact .inr ⟨⟨claim, created, ph, hph⟩, rfl, rfl, rfl⟩

theorem tombstoneOf_cases (env : SignedEnvelope) (aliasName : Bytes) (now : Int) :
    tombstoneOf P env aliasName now = .ignored ∨
      ∃ claim ph, tombstoneOf P env aliasName now = .dead (int64 env.record.expires) ph ∧
        IsEvidence P env aliasName now claim ph ∧ env.record.expires ≤ uint64 now ∧
        now < wrap64 (int64 env.record.expires + Constants.aliasReuseDelay) := by
  unfold tombstoneOf
  split
  next => exact .inl rfl
  split
  next => exact .inl rfl
  next claim ph hevidence =>
    split
    next hwindow =>
      exact .inr ⟨claim, ph, rfl, claimEvidence_eq_some_iff.mp hevidence, hwindow.1, hwindow.2⟩
    next => exact .inl rfl

theorem screenEnvelope_eq_live (h : screenEnvelope P c aliasName now env = .live lc) :
    verifyClaimEnvelope P env aliasName now c.oracle c.witnessSet = some lc.claim ∧
      lc.created = int64 env.record.created := by
  unfold screenEnvelope at h
  split at h
  next claim hverify =>
    rcases liveClaimOf_cases (P := P) claim (int64 env.record.created) with
      hnone | ⟨lc', hlive, hclaim, hcreated⟩
    · rw [hnone] at h
      cases h
    · rw [hlive, Screened.live.injEq] at h
      rw [← h, hclaim]
      exact ⟨hverify, hcreated⟩
  next =>
    rcases tombstoneOf_cases (P := P) env aliasName now with hnone | ⟨_, _, hdead, _⟩
    · rw [hnone] at h
      cases h
    · rw [hdead] at h
      cases h

variable {witnessSet : Option (List Bytes)} {ph : Bytes}

theorem structurallyAndPoWValid_of_verifyClaimEnvelope
    (h : verifyClaimEnvelope P env aliasName now oracle witnessSet = some claim) :
    structurallyAndPoWValid P claim = true := by
  unfold verifyClaimEnvelope verifyClaimContents at h
  split at h
  next => cases h
  split at h
  next => cases h
  next bound hbound =>
    split at h
    next => cases h
    next hfull =>
      rw [Option.some.injEq] at h
      subst h
      exact structurallyAndPoWValid_of_verifyFull inferDifficultyOf_le_effective
        (by simpa using hfull)

theorem verifyClaimEnvelope_of_expired (h : env.record.expires ≤ uint64 now) :
    verifyClaimEnvelope P env aliasName now oracle witnessSet = none := by
  have hinvalid : isBasicValid P env (uint64 now) = false := by
    rw [Bool.eq_false_iff, ne_eq, isBasicValid_iff]
    intro hvalid
    exact absurd hvalid.2.2.2 (UInt64.not_lt.mpr h)
  rw [verifyClaimEnvelope, hinvalid]
  rfl

theorem screenEnvelope_of_evidence (h : IsEvidence P env aliasName now claim ph)
    (hexp : (env.record.expires.toNat : Int) + 2592000 < 2 ^ 63)
    (hdead : (env.record.expires.toNat : Int) ≤ now)
    (hopen : now < env.record.expires.toNat + 2592000) :
    screenEnvelope P c aliasName now env = .dead env.record.expires.toNat ph := by
  have hpast : env.record.expires ≤ uint64 now := by
    rw [UInt64.le_iff_toNat_le, uint64_toNat (by omega) (by omega)]
    omega
  rw [screenEnvelope, verifyClaimEnvelope_of_expired hpast]
  show tombstoneOf P env aliasName now = _
  rw [tombstoneOf, if_neg (by simp [h.notRevoked]), claimEvidence_eq_some_iff.mpr h]
  show (if uint64 now ≥ env.record.expires ∧
      wrap64 (int64 env.record.expires + Constants.aliasReuseDelay) > now then
    Screened.dead (int64 env.record.expires) ph else .ignored) = _
  rw [if_pos ⟨hpast, by rw [windowEnd_of_lt hexp]; omega⟩, int64_of_lt (by omega)]

theorem evidence_of_screenEnvelope {expires : Int}
    (h : screenEnvelope P c aliasName now env = .dead expires ph) :
    expires = int64 env.record.expires ∧ env.record.expires ≤ uint64 now ∧
      now < wrap64 (int64 env.record.expires + Constants.aliasReuseDelay) ∧
      ∃ claim, IsEvidence P env aliasName now claim ph := by
  unfold screenEnvelope at h
  split at h
  next claim _ =>
    rcases liveClaimOf_cases (P := P) claim (int64 env.record.created) with hnone | ⟨_, hlive, _⟩
    · rw [hnone] at h
      cases h
    · rw [hlive] at h
      cases h
  next =>
    rcases tombstoneOf_cases (P := P) env aliasName now with
      hnone | ⟨claim, ph', hdead, hevidence, hpast, hopen⟩
    · rw [hnone] at h
      cases h
    · rw [hdead, Screened.dead.injEq] at h
      obtain ⟨hexpires, hph⟩ := h
      rw [← hph]
      exact ⟨hexpires.symm, hpast, hopen, claim, hevidence⟩

/-! ## What the pass accumulates -/

/-- The accumulators after a list of screened carriers. -/
structure ScanSpec (screened : List (Screened P)) (s : ClaimScan P) : Prop where
  live : ∀ lc, lc ∈ s.liveClaims ↔ .live lc ∈ screened
  nonneg : 0 ≤ s.maxDeadExpires
  /-- No tombstone died later than the one remembered. -/
  latest : ∀ expires ph, .dead expires ph ∈ screened → expires ≤ s.maxDeadExpires
  /-- The one remembered is among them. -/
  found : 0 < s.maxDeadExpires → .dead s.maxDeadExpires s.maxDeadPH ∈ screened

theorem ScanSpec.add {screened : List (Screened P)} {s : ClaimScan P} (h : ScanSpec screened s)
    (x : Screened P) : ScanSpec (screened ++ [x]) (s.add x) := by
  cases x with
  | live lc =>
    refine ⟨?_, h.nonneg, ?_, ?_⟩
    · intro y
      simp [ClaimScan.add, h.live]
    · intro expires ph hmem
      exact h.latest expires ph (by simpa using hmem)
    · intro hpos
      exact List.mem_append_left _ (h.found hpos)
  | dead expires ph =>
    by_cases hlater : expires > s.maxDeadExpires
    · -- a later death takes the place of the one remembered
      have hadd : s.add (.dead expires ph) =
          { s with maxDeadExpires := expires, maxDeadPH := ph } := if_pos hlater
      rw [hadd]
      have hnonneg := h.nonneg
      refine ⟨?_, ?_, ?_, ?_⟩
      · intro y
        simp [h.live]
      · show 0 ≤ expires
        omega
      · intro e q hmem
        show e ≤ expires
        rcases List.mem_append.mp hmem with hold | hnew
        · have hle := h.latest e q hold
          omega
        · rw [List.mem_singleton, Screened.dead.injEq] at hnew
          omega
      · intro _
        simp
    · have hadd : s.add (.dead expires ph) = s := if_neg hlater
      rw [hadd]
      refine ⟨?_, h.nonneg, ?_, ?_⟩
      · intro y
        simp [h.live]
      · intro e q hmem
        rcases List.mem_append.mp hmem with hold | hnew
        · exact h.latest e q hold
        · rw [List.mem_singleton, Screened.dead.injEq] at hnew
          omega
      · intro hpos
        exact List.mem_append_left _ (h.found hpos)
  | ignored =>
    refine ⟨?_, h.nonneg, ?_, ?_⟩
    · intro y
      simp [ClaimScan.add, h.live]
    · intro e q hmem
      exact h.latest e q (by simpa using hmem)
    · intro hpos
      exact List.mem_append_left _ (h.found hpos)

theorem scan_spec (c : Collected) (aliasName : Bytes) (now : Int) (envs : List SignedEnvelope) :
    ScanSpec (envs.map (screenEnvelope P c aliasName now)) (scan P c aliasName now envs) := by
  -- the induction is on the carriers seen so far
  induction envs using List.reverseRecOn with
  | nil => exact ⟨by simp [scan], by simp [scan], by simp, by simp [scan]⟩
  | append_singleton envs env ih =>
    rw [scan, List.foldl_append, List.map_append]
    exact ih.add _

theorem mem_liveClaims {envs : List SignedEnvelope}
    (h : lc ∈ (scan P c aliasName now envs).liveClaims) :
    ∃ env ∈ envs, verifyClaimEnvelope P env aliasName now c.oracle c.witnessSet = some lc.claim ∧
      lc.created = int64 env.record.created := by
  rw [(scan_spec c aliasName now envs).live, List.mem_map] at h
  obtain ⟨env, henv, hlive⟩ := h
  exact ⟨env, henv, screenEnvelope_eq_live hlive⟩

/-! ## The ledger and the winner -/

theorem resolveClaimSet_snd :
    (resolveClaimSet P l aliasName now c).2 =
      (filterPastHorizonNewcomers l aliasName (scan P c aliasName now c.offered).liveClaims
        c.witnessSet c.reAttestSets now).2 := by
  have hnone : ∀ {lives : List (LiveClaim P)}, lives.isEmpty = true →
      (filterPastHorizonNewcomers l aliasName lives c.witnessSet c.reAttestSets now).2 = l := by
    intro lives h
    rw [filterPastHorizonNewcomers, if_pos h]
  unfold resolveClaimSet Collected.offered
  cases c.envs with
  | error e =>
    cases e <;> exact (hnone rfl).symm
  | ok envs =>
    show (if envs.isEmpty then _ else _ : ClaimOutcome × PastHorizonLedger).2 = _
    split
    next hnil =>
      rw [List.isEmpty_iff.mp hnil]
      exact (hnone rfl).symm
    next =>
      split
      next hlives => exact (hnone hlives).symm
      next => rfl

theorem mem_scan_of_mem_keptClaims (h : lc ∈ keptClaims P l aliasName now c) :
    lc ∈ (scan P c aliasName now c.offered).liveClaims :=
  (mem_filterPastHorizonNewcomers.mp h).1

theorem valid_of_mem_keptClaims (h : lc ∈ keptClaims P l aliasName now c) :
    structurallyAndPoWValid P lc.claim = true := by
  obtain ⟨env, _, hverify, _⟩ := mem_liveClaims (mem_scan_of_mem_keptClaims h)
  exact structurallyAndPoWValid_of_verifyClaimEnvelope hverify

theorem claims_of_keptClaims_valid : ∀ x ∈ (keptClaims P l aliasName now c).map (·.claim),
    structurallyAndPoWValid P x = true := by
  intro x hx
  obtain ⟨lc, hlc, heq⟩ := List.mem_map.mp hx
  rw [← heq]
  exact valid_of_mem_keptClaims hlc

theorem tldID_ne_nil_of_valid (h : structurallyAndPoWValid P claim = true) : claim.tldID ≠ [] := by
  rw [structurallyAndPoWValid, Bool.and_eq_true] at h
  have hclaimant := h.1
  unfold AliasClaim.verifyClaimantConsistency Crypto.tldID at hclaimant
  split at hclaimant
  next => cases hclaimant
  next got hgot =>
    split at hgot
    next => cases hgot
    rw [Option.some.injEq] at hgot
    rw [decide_eq_true_eq] at hclaimant
    rw [← hclaimant, ← hgot]
    intro hnil
    have hlen := P.sha256_length claim.claimantPK
    rw [hnil] at hlen
    exact absurd hlen (by decide)

theorem resolveClaimSet_fst (h : (resolveClaimSet P l aliasName now c).1.tldID ≠ []) :
    (resolveClaimSet P l aliasName now c).1 =
      chooseClaim P (scan P c aliasName now c.offered) (keptClaims P l aliasName now c) now := by
  unfold resolveClaimSet keptClaims Collected.offered at *
  cases henvs : c.envs with
  | error e =>
    rw [henvs] at h
    cases e <;> exact absurd rfl h
  | ok envs =>
    simp only [henvs] at h ⊢
    split at h
    next => exact absurd rfl h
    next hnil =>
      split at h
      next => exact absurd rfl h
      next hlives => rw [if_neg hnil, if_neg hlives]

/-- **The winner** is a kept claim which no kept claim precedes; with a tombstone some kept
claim continues its lease. -/
theorem winner_of_resolveClaimSet (h : (resolveClaimSet P l aliasName now c).1.tldID ≠ []) :
    ∃ w ∈ keptClaims P l aliasName now c,
      (resolveClaimSet P l aliasName now c).1.tldID = w.claim.tldID ∧
      (∀ lc ∈ keptClaims P l aliasName now c, lessOrderKey lc.claim w.claim = false) ∧
      (0 < (scan P c aliasName now c.offered).maxDeadExpires →
        ∃ lc ∈ keptClaims P l aliasName now c,
          (scan P c aliasName now c.offered).continues P lc = true) := by
  have hvalid : ∀ x ∈ (keptClaims P l aliasName now c).map (·.claim),
      structurallyAndPoWValid P x = true := claims_of_keptClaims_valid
  have hchosen := resolveClaimSet_fst h
  rw [hchosen] at h ⊢
  generalize keptClaims P l aliasName now c = kept at *
  unfold chooseClaim at h ⊢
  split at h
  next => exact absurd rfl h
  next hkept =>
    split at h
    next => exact absurd rfl h
    next hwindow =>
      rw [if_neg hkept, if_neg hwindow]
      rcases selectWinner_orderClaims hvalid with ⟨hnil, _⟩ | ⟨winner, hwin, hbest⟩
      · exact absurd (by simpa using hnil) hkept
      · obtain ⟨w, hw, heq⟩ := List.mem_map.mp hbest.mem
        rw [hwin]
        refine ⟨w, hw, by rw [heq], ?_, ?_⟩
        · intro lc hlc
          rw [heq]
          exact hbest.top lc.claim (List.mem_map_of_mem hlc)
        · intro hdead
          rw [not_and, Bool.not_eq_false] at hwindow
          exact List.any_eq_true.mp (hwindow hdead)

end Freens.Resolver
