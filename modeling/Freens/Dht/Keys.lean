/-
**STORAGE KEYS** (`dht/lookup.go`, `dht/claims_lookup.go`,
§3.3). A record lives under the key of its own name, and under the claim
key of the alias it carries a claim for.
-/
import Freens.Claims
import Freens.Wire.Record

namespace Freens.Dht

open Library Naming Wire

section
variable (P : Primitives)

/-- K_tld for a root, K_name below it. -/
def keyForWireName (wireName : Bytes) : Except NamingError Bytes := do
  let (labels, tldID) ← decodeWireName wireName
  if labels.length = 0 then return tldID else return dhtKeyName P wireName

/-- `KeyForClaim`. -/
def keyForClaim (aliasName : Bytes) : Except NamingError Bytes := dhtKeyClaim P aliasName

/-- The claim key of an envelope, when it carries a claim that decodes. -/
def claimKey (env : SignedEnvelope) : Option Bytes :=
  if 0 < env.record.claim.length then
    match Claims.decodeAliasClaim P env.record.claim with
    | .error _ => none
    | .ok claim =>
      match keyForClaim P claim.aliasName with
      | .error _ => none
      | .ok ck => some ck
  else none

/-- `StorageKeys`: the name's key, and the claim's if there is one. -/
def storageKeys (env : SignedEnvelope) : Except NamingError (List Bytes) := do
  let nameKey ← keyForWireName P env.record.name
  return nameKey :: (claimKey P env).toList

end

variable {P : Primitives} {k : Bytes} {w : Bytes} {env : SignedEnvelope}

theorem keyForWireName_eq_ok_iff :
    keyForWireName P w = .ok k ↔ ∃ labels tldID, decodeWireName w = .ok (labels, tldID) ∧
      k = if labels = [] then tldID else dhtKeyName P w := by
  simp only [keyForWireName, bind_eq_ok, Prod.exists, List.length_eq_zero_iff]
  constructor
  · intro h
    obtain ⟨labels, tldID, hdecode, h⟩ := h
    refine ⟨labels, tldID, hdecode, ?_⟩
    split at h
    next hnil => rw [if_pos hnil]; exact (pure_eq_ok.mp h).symm
    next hnil => rw [if_neg hnil]; exact (pure_eq_ok.mp h).symm
  · intro h
    obtain ⟨labels, tldID, hdecode, hk⟩ := h
    refine ⟨labels, tldID, hdecode, ?_⟩
    split
    next hnil => rw [hk, if_pos hnil]; rfl
    next hnil => rw [hk, if_neg hnil]; rfl

theorem keyForWireName_length (h : keyForWireName P w = .ok k) : k.length = 32 := by
  obtain ⟨labels, tldID, hdecode, hk⟩ := keyForWireName_eq_ok_iff.mp h
  have hframed := (decodeWireName_eq_ok_iff.mp hdecode).2
  rw [hk]
  split
  next => exact hframed.tld_length
  next => exact P.sha256_length _

theorem keyForClaim_length {a : Bytes} (h : keyForClaim P a = .ok k) : k.length = 32 := by
  simp only [keyForClaim, dhtKeyClaim, bind_eq_ok, pure_eq_ok] at h
  obtain ⟨_, _, rfl⟩ := h
  exact P.sha256_length _

theorem claimKey_eq_some (h : claimKey P env = some k) :
    ∃ claim, Claims.decodeAliasClaim P env.record.claim = .ok claim ∧
      keyForClaim P claim.aliasName = .ok k := by
  unfold claimKey at h
  split at h
  next =>
    split at h
    next => cases h
    next claim hclaim =>
      split at h
      next => cases h
      next ck hck =>
        rw [Option.some.injEq] at h
        exact ⟨claim, hclaim, h ▸ hck⟩
  next => cases h

theorem mem_storageKeys_iff :
    (∃ keys, storageKeys P env = .ok keys ∧ k ∈ keys) ↔
      ∃ nameKey, keyForWireName P env.record.name = .ok nameKey ∧
        (k = nameKey ∨ claimKey P env = some k) := by
  simp only [storageKeys, bind_eq_ok, pure_eq_ok]
  constructor
  · intro h
    obtain ⟨keys, ⟨nameKey, hname, hkeys⟩, hk⟩ := h
    subst hkeys
    refine ⟨nameKey, hname, ?_⟩
    rcases List.mem_cons.mp hk with hhead | hclaim
    · exact .inl hhead
    · exact .inr (Option.mem_toList.mp hclaim)
  · intro h
    obtain ⟨nameKey, hname, hk⟩ := h
    refine ⟨_, ⟨nameKey, hname, rfl⟩, ?_⟩
    rcases hk with hhead | hclaim
    · exact hhead ▸ List.mem_cons_self
    · exact List.mem_cons_of_mem _ (Option.mem_toList.mpr hclaim)

end Freens.Dht
