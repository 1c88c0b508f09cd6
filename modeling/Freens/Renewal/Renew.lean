/-
**RENEWING A RECORD** (`renewal/renewal.go`): when a lease is due, and the
re-signed record that extends it. `exists_renewEnvelope` says when a renewal exists
and `Renewed` what it is; it does not set prev_hash.
-/
import Freens.Claims
import Freens.Wire.Record

namespace Freens.Renewal

open Library Naming Wire

/-! ## When a lease is due -/

/-- Rounded to 53 significant bits, ties to even: the conversion to a `float64`. -/
def roundSig53 (n : Nat) : Nat :=
  let e := n.log2 + 1 - 53
  if e = 0 then n
  else
    let q := n / 2 ^ e
    let r := n % 2 ^ e
    let half := 2 ^ (e - 1)
    (if r > half ∨ (r = half ∧ q % 2 = 1) then q + 1 else q) * 2 ^ e

/-- `int64(float64(lifetime) * (1 - RenewThreshold))`, 0.2 being 3602879701896397 / 2^54. -/
def renewWindow (lifetime : Nat) : Nat :=
  roundSig53 (roundSig53 lifetime * 3602879701896397) / 2 ^ 54

/-- `shouldRenew`: past its end, or in the last fifth of its lifetime. -/
def shouldRenew (now created expires : Int) : Bool :=
  let remaining := wrap64 (expires - now)
  -- expired already: renewed on sight, inside the grace
  if remaining ≤ 0 then true
  else
    let lifetime := wrap64 (expires - created)
    -- a degenerate window falls back to the default lifetime
    let lifetime := if lifetime ≤ 0 then Constants.recordDefaultTTL else lifetime
    remaining < renewWindow lifetime.toNat

/-! ## The owner-CA binding of an apex -/

abbrev rrTypeTLSCA : UInt64 := 65280

abbrev tlscaResponseTTL : UInt64 := 3600

/-- Replace the first bad slot and drop the others. -/
def replaceFirst (bad : RR → Bool) (fresh : RR) : List RR → List RR
  | [] => []
  | rr :: rest => if bad rr then fresh :: rest.filter (fun rr => !bad rr)
      else rr :: replaceFirst bad fresh rest

/-- The type of a binding. -/
def isTLSCA (rr : RR) : Bool := rr.type = rrTypeTLSCA

/-- A slot with the wanted certificate. -/
def isCurrent (P : Primitives) (wantDER : Bytes) (now : Int) (rr : RR) : Bool :=
  isTLSCA rr && P.sameCA rr.rdata wantDER now

/-- A slot with another certificate. -/
def isBad (P : Primitives) (wantDER : Bytes) (now : Int) (rr : RR) : Bool :=
  isTLSCA rr && !P.sameCA rr.rdata wantDER now

/-- The binding to the wanted certificate. -/
def freshSlot (wantDER : Bytes) : RR :=
  { type := rrTypeTLSCA, ttl := tlscaResponseTTL, rdata := wantDER }

/-- The rebuilt RRset: bad slots go; without a current slot a fresh one takes the place of
the first, or the end. -/
def bindTLSCA (P : Primitives) (rrset : List RR) (wantDER : Bytes) (now : Int) : List RR :=
  if rrset.any (isCurrent P wantDER now) then rrset.filter (fun rr => !isBad P wantDER now rr)
  else if rrset.any (isBad P wantDER now) then
    replaceFirst (isBad P wantDER now) (freshSlot wantDER) rrset
  -- a full RRset stays as it is
  else if rrset.length ≥ Constants.maxRRsPerRecord then rrset
  else rrset ++ [freshSlot wantDER]

/-- The alias of the embedded claim, empty without one. -/
def claimAlias (P : Primitives) (claim : Bytes) : Bytes :=
  if 0 < claim.length then
    match Claims.decodeAliasClaim P claim with
    | .ok c => c.aliasName
    | .error _ => []
  else []

/-- Best effort, on an apex with a claim. -/
def ensureTLSCA (P : Primitives) (r : Record) (kp : Crypto.Keypair) (now : UInt64) : Record :=
  match decodeWireName r.name with
  | .ok ([], _) =>
    if (claimAlias P r.claim).length = 0 then r
    else match P.ownerCA kp.seed (claimAlias P r.claim) (int64 now) with
      | none => r
      | some wantDER => { r with rrset := bindTLSCA P r.rrset wantDER (int64 now) }
  | _ => r

/-- Why a record is not renewed. -/
inductive RenewError where
  /-- "signer is not the current owner" -/
  | notOwner
  /-- "record is revoked" -/
  | revoked
  | record (e : RecordError)
  /-- The error of `SignRecord`. -/
  | encode
  /-- "self-check failed" -/
  | selfCheck
  deriving DecidableEq, Repr

/-- The renewed record: what is carried over, bound anew. -/
def renewedRecord (P : Primitives) (prev fresh : Record) (kp : Crypto.Keypair) (now : Int) :
    Record :=
  ensureTLSCA P
    { fresh with
      rrset := prev.rrset
      delegation := if 0 < prev.delegationBytes.length then prev.delegation else none
      recovery := prev.recovery
      claim := prev.claim }
    kp (uint64 now)

/-- `renewEnvelope`: by the owner, of a record not revoked. -/
def renewEnvelope (P : Primitives) (prev : SignedEnvelope) (kp : Crypto.Keypair) (now : Int) :
    Except RenewError SignedEnvelope :=
  if kp.publicKey P ≠ prev.record.owner then .error .notOwner
  else if prev.isRevoked then .error .revoked
  -- prev_hash is not among the fields that are set
  else match newRecord prev.record.name prev.record.owner (prev.record.sequence + 1) (uint64 now)
      (uint64 (wrap64 (now + Constants.recordDefaultTTL))) with
    | .error e => .error (.record e)
    | .ok fresh =>
      match signRecord P (renewedRecord P prev.record fresh kp now) kp with
      | none => .error .encode
      | some env => if !env.verifySignature P then .error .selfCheck else .ok env

/-! ## What a renewal carries over -/

variable {P : Primitives}

theorem ensureTLSCA_eq (r : Record) (kp : Crypto.Keypair) (now : UInt64) :
    ∃ rrset, ensureTLSCA P r kp now = { r with rrset } := by
  unfold ensureTLSCA
  split
  next =>
    split
    next => exact ⟨r.rrset, rfl⟩
    split
    next => exact ⟨r.rrset, rfl⟩
    next wantDER _ => exact ⟨bindTLSCA P r.rrset wantDER (int64 now), rfl⟩
  next => exact ⟨r.rrset, rfl⟩

theorem encodes_renewedRecord (prev fresh : Record) (kp : Crypto.Keypair) (now : Int) :
    (renewedRecord P prev fresh kp now).encodes = prev.encodes := by
  obtain ⟨rrset, hbound⟩ := @ensureTLSCA_eq P
    { fresh with
      rrset := prev.rrset
      delegation := if 0 < prev.delegationBytes.length then prev.delegation else none
      recovery := prev.recovery
      claim := prev.claim } kp (uint64 now)
  rw [renewedRecord, hbound]
  exact encodes_congr rfl

/-- **What a renewal is**: the same name, owner, policy and claim, one sequence up, a fresh
day, signed by the owner, unlinked. -/
structure Renewed (P : Primitives) (prev : SignedEnvelope) (now : Int) (fresh : SignedEnvelope) :
    Prop where
  name : fresh.record.name = prev.record.name
  owner : fresh.record.owner = prev.record.owner
  signer : fresh.signer = prev.record.owner
  sequence : fresh.record.sequence.toNat = prev.record.sequence.toNat + 1
  created : fresh.record.created = uint64 now
  expires : fresh.record.expires = uint64 (wrap64 (now + Constants.recordDefaultTTL))
  unlinked : fresh.record.prevHash = none
  recovery : fresh.record.recovery = prev.record.recovery
  claim : fresh.record.claim = prev.record.claim
  unrevoked : fresh.isRevoked = false
  authentic : fresh.verifySignature P = true

variable {prev : SignedEnvelope} {kp : Crypto.Keypair} {now : Int}

theorem renewed_of_renewEnvelope {fresh : SignedEnvelope}
    (h : renewEnvelope P prev kp now = .ok fresh) : Renewed P prev now fresh := by
  simp only [renewEnvelope, guard_eq_ok] at h
  obtain ⟨hkp, _, h⟩ := h
  split at h
  next => cases h
  next r hr =>
    split at h
    next => cases h
    next env henv =>
    rw [guard_eq_ok, Except.ok.injEq] at h
    obtain ⟨hvalid, hrec⟩ := newRecord_eq_ok_iff.mp hr
    have hseq := hvalid.sequence
    -- whatever the CA binding does, it does to the RRset
    obtain ⟨rrset, hbound⟩ := @ensureTLSCA_eq P
      { r with
        rrset := prev.record.rrset
        delegation := if 0 < prev.record.delegationBytes.length then prev.record.delegation
          else none
        recovery := prev.record.recovery
        claim := prev.record.claim } kp (uint64 now)
    have hauthentic := verifySignature_signRecord henv
    rw [h.2] at henv hauthentic
    have hfresh := (signRecord_eq_some_iff.mp henv).2.symm
    rw [renewedRecord, hbound] at hfresh
    -- the record is now a literal: its fields can be read off
    subst hfresh hrec
    exact ⟨rfl, rfl, not_not.mp hkp, sequence_succ hseq, rfl, rfl, rfl, rfl, rfl, rfl, hauthentic⟩

/-- **When a renewal exists**: the owner's key, a record that encodes, is not revoked and
has a next number, a proper name and clock. -/
theorem exists_renewEnvelope (hkp : kp.publicKey P = prev.record.owner)
    (hencodes : prev.record.encodes = true) (hrevoked : prev.isRevoked = false)
    (hseq : prev.record.sequence.toNat + 1 < 2 ^ 64)
    (hname : prev.record.name ≠ []) (hlo : 0 ≤ now)
    (hhi : now < 2 ^ 62) : ∃ fresh, renewEnvelope P prev kp now = .ok fresh := by
  have hcreated : (uint64 now).toNat = now.toNat := uint64_toNat hlo (by omega)
  have hwrap : wrap64 (now + Constants.recordDefaultTTL) = now + 86400 :=
    wrap64_of_range (by simp only [Constants.recordDefaultTTL]; omega)
      (by simp only [Constants.recordDefaultTTL]; omega)
  have hexpires : (uint64 (now + 86400)).toNat = (now + 86400).toNat :=
    uint64_toNat (by omega) (by omega)
  have hvalid : (Record.mk 1 prev.record.name prev.record.owner (prev.record.sequence + 1)
      (uint64 now) (uint64 (now + 86400)) [] none none none [] none).Valid := by
    refine ⟨rfl, hname, ?_, ?_, ?_, by simp, by simp, by simp⟩
    · rw [← hkp]
      exact Crypto.Keypair.publicKey_length P kp
    · exact one_le_succ hseq
    · rw [UInt64.le_iff_toNat_le, hcreated, hexpires]
      omega
  have hnew : newRecord prev.record.name prev.record.owner (prev.record.sequence + 1)
      (uint64 now) (uint64 (now + 86400)) = .ok (Record.mk 1 prev.record.name prev.record.owner
        (prev.record.sequence + 1) (uint64 now) (uint64 (now + 86400)) [] none none none [] none) :=
    newRecord_eq_ok_iff.mpr ⟨hvalid, rfl⟩
  unfold renewEnvelope
  rw [if_neg (by simp [hkp]), if_neg (by simp [hrevoked]), hwrap, hnew]
  exact ⟨_, signed_of_encodes ((encodes_renewedRecord _ _ _ _).trans hencodes)⟩

end Freens.Renewal
