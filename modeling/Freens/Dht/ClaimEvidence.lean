/-
**CLAIM EVIDENCE** (`dht/claims_tombstone.go`, §8.4): when a carried claim proves
that an alias was held, alive or dead. A dead carrier that passes is a tombstone
until its reuse window closes.
-/
import Freens.Claims.Verification
import Freens.Wire.Record

namespace Freens.Dht

open Library Naming Wire Claims

section
variable (P : Primitives)

/-- The checks that bind a claim to its carrier, in the order of both callers. -/
def boundClaim (env : SignedEnvelope) (aliasName : Bytes) (now : Int) : Option AliasClaim :=
  match decodeAliasClaim P env.record.claim, validateAlias P aliasName with
  | .ok claim, .ok aliasN =>
    if claim.aliasName ≠ aliasN then none
    -- the signed reading of the timestamp is compared
    else if int64 claim.timestamp > wrap64 (now + Constants.skewTolerance) then none
    else if env.signer ≠ claim.claimantPK then none
    else match decodeWireName env.record.name with
      | .error _ => none
      | .ok (labels, tldID) =>
        if labels.length ≠ 0 ∨ tldID ≠ claim.tldID then none else some claim
  | _, _ => none

/-- `claimEvidence`: the claim of a live carrier and its prefix hash. -/
def claimEvidence (env : SignedEnvelope) (aliasName : Bytes) (now : Int) :
    Option (AliasClaim × Bytes) :=
  -- a deliberate death is no evidence
  if env.isRevoked then none
  else if env.record.version ≠ Constants.protoVersion ∨ env.record.sequence < 1 then none
  else if env.record.validate ≠ .ok () ∨ env.verifySignature P = false then none
  else match boundClaim P env aliasName now with
    | none => none
    | some claim =>
      -- the witness set of today says nothing about an old claim
      if !verifyFull P claim inferDifficulty none Constants.w then none
      else match claim.prefixHash P with
        | .error _ => none
        | .ok ph => some (claim, ph)

/-- The end of the carrier's open reuse window and its identity, or zero. -/
def reuseWindowEnd (env : SignedEnvelope) (aliasName : Bytes) (now : Int) : Int × Bytes :=
  match claimEvidence P env aliasName now with
  | none => (0, [])
  | some (_, ph) =>
    let exp := int64 env.record.expires
    -- alive, or claimable again
    if now < exp then (0, [])
    else if now ≥ wrap64 (exp + Constants.aliasReuseDelay) then (0, [])
    else (wrap64 (exp + Constants.aliasReuseDelay), ph)

end

variable {P : Primitives}

/-- What makes a carrier's claim count for the alias. -/
structure IsBound (P : Primitives) (env : SignedEnvelope) (aliasName : Bytes) (now : Int)
    (claim : AliasClaim) : Prop where
  decodes : decodeAliasClaim P env.record.claim = .ok claim
  aliasMatch : validateAlias P aliasName = .ok claim.aliasName
  notFuture : int64 claim.timestamp ≤ wrap64 (now + Constants.skewTolerance)
  signer : env.signer = claim.claimantPK
  name : decodeWireName env.record.name = .ok ([], claim.tldID)

variable {env : SignedEnvelope} {aliasName : Bytes} {claim : AliasClaim} {now : Int}

theorem isBound_of_boundClaim (h : boundClaim P env aliasName now = some claim) :
    IsBound P env aliasName now claim := by
  unfold boundClaim at h
  split at h
  next c aliasN hdecode halias =>
    split at h
    next => cases h
    next hmatch =>
      split at h
      next => cases h
      next hts =>
        split at h
        next => cases h
        next hsigner =>
          split at h
          next => cases h
          next labels tldID hname =>
            split at h
            next => cases h
            next hroot =>
              rw [Option.some.injEq] at h
              subst h
              rw [not_not] at hmatch hsigner
              rw [not_or, not_not, not_not, List.length_eq_zero_iff] at hroot
              refine ⟨hdecode, ?_, not_lt.mp hts, hsigner, ?_⟩
              · rw [hmatch]
                exact halias
              · rw [hname, hroot.1, hroot.2]
  next => cases h

/-- What makes a carrier evidence. -/
structure IsEvidence (P : Primitives) (env : SignedEnvelope) (aliasName : Bytes) (now : Int)
    (claim : AliasClaim) (ph : Bytes) : Prop where
  notRevoked : env.isRevoked = false
  valid : env.record.Valid
  signature : env.verifySignature P = true
  bound : boundClaim P env aliasName now = some claim
  full : verifyFull P claim inferDifficulty none 5 = true
  identity : claim.prefixHash P = .ok ph

variable {ph : Bytes}

theorem claimEvidence_eq_some_iff :
    claimEvidence P env aliasName now = some (claim, ph) ↔
      IsEvidence P env aliasName now claim ph := by
  unfold claimEvidence
  constructor
  · intro h
    split at h
    next => cases h
    next hrevoked =>
      split at h
      next => cases h
      split at h
      next => cases h
      next hsigned =>
        rw [not_or, not_not, Bool.not_eq_false] at hsigned
        split at h
        next => cases h
        next c hbound =>
          split at h
          next => cases h
          next hfull =>
            split at h
            next => cases h
            next ph' hph =>
              rw [Option.some.injEq, Prod.mk.injEq] at h
              obtain ⟨hc, hp⟩ := h
              subst hc hp
              exact ⟨by simpa using hrevoked, validate_eq_ok_iff.mp hsigned.1, hsigned.2, hbound,
                by simpa using hfull, hph⟩
  · intro h
    have hvalid := h.valid
    have hversion : ¬ (env.record.version ≠ Constants.protoVersion ∨ env.record.sequence < 1) := by
      rw [not_or, not_not, UInt64.not_lt]
      exact ⟨hvalid.version, hvalid.sequence⟩
    have hsigned : ¬ (env.record.validate ≠ .ok () ∨ env.verifySignature P = false) := by
      rw [not_or, not_not, Bool.not_eq_false]
      exact ⟨validate_eq_ok_iff.mpr hvalid, h.signature⟩
    rw [if_neg (by simp [h.notRevoked]), if_neg hversion, if_neg hsigned, h.bound]
    simp only [h.full, h.identity, Bool.not_true, Bool.false_eq_true, if_false]

theorem windowEnd_of_lt {expires : UInt64} (h : (expires.toNat : Int) + 2592000 < 2 ^ 63) :
    wrap64 (int64 expires + Constants.aliasReuseDelay) = expires.toNat + 2592000 := by
  show wrap64 (int64 expires + 2592000) = _
  rw [int64_of_lt (by omega)]
  exact wrap64_of_range (by omega) (by omega)

theorem reuseWindowEnd_of_evidence (h : IsEvidence P env aliasName now claim ph)
    (hexp : (env.record.expires.toNat : Int) + 2592000 < 2 ^ 63)
    (hdead : (env.record.expires.toNat : Int) ≤ now)
    (hopen : now < env.record.expires.toNat + 2592000) :
    reuseWindowEnd P env aliasName now = ((env.record.expires.toNat : Int) + 2592000, ph) := by
  have hint : int64 env.record.expires = env.record.expires.toNat := int64_of_lt (by omega)
  unfold reuseWindowEnd
  rw [claimEvidence_eq_some_iff.mpr h]
  simp only [windowEnd_of_lt hexp]
  rw [if_neg (by omega), if_neg (by omega)]

theorem lt_reuseWindowEnd (h : (reuseWindowEnd P env aliasName now).1 ≠ 0) :
    now < (reuseWindowEnd P env aliasName now).1 := by
  unfold reuseWindowEnd at h ⊢
  cases hev : claimEvidence P env aliasName now with
  | none => simp [hev] at h
  | some evidence =>
    simp only [hev] at h ⊢
    generalize wrap64 (int64 env.record.expires + Constants.aliasReuseDelay) = windowEnd at h ⊢
    by_cases halive : now < int64 env.record.expires
    · simp [halive] at h
    · by_cases hclosed : now ≥ windowEnd
      · simp [halive, hclosed] at h
      · rw [if_neg halive, if_neg hclosed]
        exact Int.not_le.mp hclosed

end Freens.Dht
