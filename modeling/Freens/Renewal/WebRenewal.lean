/-
**TWO WAYS TO RENEW** (`renewal/renewal.go`: `RenewEnvelope`; `webui/ops.go`:
`opsEnv.Renew`).

The web UI builds the next record itself: it asks neither whether the record it
fetched is revoked nor who owns it, and does not copy the delegation.
-/
import Freens.Renewal.OwnerBinding

namespace Freens.Renewal

open Library Naming Wire

/-! ## The web UI's renewal -/

/-- Why the web button does not renew. -/
inductive OpsRenewError where
  | tldID
  | name (e : NamingError)
  /-- "sequence discovery failed: %v (nothing renewed — retry)" -/
  | discovery
  /-- "no live record on the network — nothing to renew" -/
  | nothing
  /-- "still comfortably fresh (renew anyway with the force option)" -/
  | fresh
  | record (e : RecordError)
  /-- The error of `SignRecord`. -/
  | encode
  deriving DecidableEq, Repr

/-- In the last quarter of the span, or without one. -/
def staleEnough (env : SignedEnvelope) (now : Int) : Bool :=
  let remaining := wrap64 (int64 env.record.expires - now)
  let span := wrap64 (int64 env.record.expires - int64 env.record.created)
  span ≤ 0 || wrap64 (remaining * 4) ≤ span

/-- The record the web button signs. -/
def opsRenewedRecord (P : Primitives) (prev fresh : Record) (kp : Crypto.Keypair) (now : UInt64) :
    Record :=
  ensureTLSCA P
    { fresh with
      rrset := prev.rrset
      recovery := prev.recovery
      claim := if 0 < prev.claim.length then prev.claim else fresh.claim }
    kp now

/-- `opsEnv.Renew`, from the name and the key to the envelope published. `get` is the
discovery walk. -/
def opsRenew (P : Primitives) (get : Bytes → Except Unit (Option SignedEnvelope))
    (labels : List Bytes) (aliasName : Bytes) (kp : Crypto.Keypair) (force : Bool) (now : Int) :
    Except OpsRenewError SignedEnvelope :=
  match Crypto.tldID P (kp.publicKey P) with
  | none => .error .tldID
  | some tldID =>
    match encodeWireName P labels aliasName tldID with
    | .error e => .error (.name e)
    | .ok wireName =>
      match get (dhtKeyName P wireName) with
      | .error _ => .error .discovery
      | .ok none => .error .nothing
      | .ok (some prev) =>
        if !force && !staleEnough prev now then .error .fresh
        -- neither the revocation nor the owner of `prev` is looked at
        else match newRecord wireName (kp.publicKey P) (prev.record.sequence + 1) (uint64 now)
            (uint64 now + uint64 Constants.recordDefaultTTL) with
          | .error e => .error (.record e)
          | .ok fresh => expect .encode
            (signRecord P (opsRenewedRecord P prev.record fresh kp (uint64 now)) kp)

/-! ## What a renewal should keep -/

/-- **The record goes on**: only TLSCA entries, times and the sequence, one higher, may differ. -/
structure Preserves (prev new : SignedEnvelope) : Prop where
  name : new.record.name = prev.record.name
  owner : new.record.owner = prev.record.owner
  delegation : new.record.delegationBytes = prev.record.delegationBytes
  recovery : new.record.recovery = prev.record.recovery
  claim : new.record.claim = prev.record.claim
  rrset : new.record.rrset.filter (fun rr => !isTLSCA rr)
    = prev.record.rrset.filter (fun rr => !isTLSCA rr)
  sequence : new.record.sequence.toNat = prev.record.sequence.toNat + 1

/-- Revoked, or another's. -/
def ShouldRefuse (P : Primitives) (prev : SignedEnvelope) (kp : Crypto.Keypair) : Prop :=
  prev.isRevoked = true ∨ prev.record.owner ≠ kp.publicKey P

/-- Neither the sequence number nor the end of the lease wraps around. -/
def HasNext (prev : SignedEnvelope) (now : Int) : Prop :=
  1 ≤ prev.record.sequence + 1 ∧ uint64 now ≤ uint64 now + uint64 Constants.recordDefaultTTL

/-- There is a next record, and it encodes: its claim is the claim of `prev`. -/
def Reissuable (prev : SignedEnvelope) (now : Int) : Prop :=
  HasNext prev now ∧ prev.record.encodes = true

/-- The call ends in an error. -/
def Refused {ε α : Type} (x : Except ε α) : Prop := ∃ e, x = .error e

theorem not_refused_ok {ε α : Type} {x : Except ε α} {a : α} (h : x = .ok a) : ¬ Refused x := by
  rintro ⟨e, he⟩
  rw [h] at he
  cases he

/-! ## The next record -/

theorem toNat_uint64 (i : Int) : ((uint64 i).toNat : Int) = i % 2 ^ 64 := by
  unfold uint64
  rw [UInt64.toNat_ofNat']
  omega

theorem uint64_add (a b : Int) : uint64 (a + b) = uint64 a + uint64 b := by
  have hsum := toNat_uint64 (a + b)
  have ha := toNat_uint64 a
  have hb := toNat_uint64 b
  apply UInt64.toNat_inj.mp
  rw [UInt64.toNat_add]
  omega

variable {labels : List Bytes} {aliasName : Bytes}

theorem encodeWireName_ne_nil {P : Primitives} {tldID name : Bytes}
    (h : encodeWireName P labels aliasName tldID = .ok name) : name ≠ [] := by
  obtain ⟨_, _, validated, _, _, hname⟩ := encodeWireName_eq_ok_iff.mp h
  rw [hname, wireImage]
  simp

section

variable {P : Primitives} {prev : SignedEnvelope} {kp : Crypto.Keypair} {now : Int}

/-- The record `NewRecord` makes for the next sequence. -/
def nextRecord (name owner : Bytes) (prev : SignedEnvelope) (now : Int) : Record :=
  Record.mk 1 name owner (prev.record.sequence + 1) (uint64 now)
    (uint64 now + uint64 Constants.recordDefaultTTL) [] none none none [] none

theorem newRecord_next {name owner : Bytes} (hname : name ≠ []) (howner : owner.length = 32) :
    (HasNext prev now ∧ newRecord name owner (prev.record.sequence + 1) (uint64 now)
        (uint64 now + uint64 Constants.recordDefaultTTL) = .ok (nextRecord name owner prev now)) ∨
      (¬ HasNext prev now ∧ Refused (newRecord name owner (prev.record.sequence + 1) (uint64 now)
        (uint64 now + uint64 Constants.recordDefaultTTL))) := by
  cases hnew : newRecord name owner (prev.record.sequence + 1) (uint64 now)
      (uint64 now + uint64 Constants.recordDefaultTTL) with
  | error e =>
    refine .inr ⟨?_, e, rfl⟩
    rintro ⟨hseq, hlease⟩
    have hvalid : (nextRecord name owner prev now).Valid :=
      ⟨rfl, hname, howner, hseq, hlease, by simp [nextRecord], by simp [nextRecord],
        by simp [nextRecord]⟩
    have hok := newRecord_eq_ok_iff.mpr ⟨hvalid, rfl⟩
    exact absurd (hnew.symm.trans hok) (by simp)
  | ok r =>
    obtain ⟨hvalid, hr⟩ := newRecord_eq_ok_iff.mp hnew
    rw [hr] at hvalid
    exact .inl ⟨⟨hvalid.sequence, hvalid.created⟩, congrArg Except.ok hr⟩

theorem renewEnvelope_cases (hname : prev.record.name ≠ []) :
    ((ShouldRefuse P prev kp ∨ ¬ Reissuable prev now) ∧ Refused (renewEnvelope P prev kp now)) ∨
      (¬ ShouldRefuse P prev kp ∧ Reissuable prev now ∧ renewEnvelope P prev kp now
        = .ok (signedWith P (renewedRecord P prev.record
          (nextRecord prev.record.name prev.record.owner prev now) kp now) kp)) := by
  unfold renewEnvelope
  split
  next hother => exact .inl ⟨.inl (.inr (Ne.symm hother)), _, rfl⟩
  next howner =>
    have howner : kp.publicKey P = prev.record.owner := not_not.mp howner
    split
    next hrevoked => exact .inl ⟨.inl (.inl hrevoked), _, rfl⟩
    next halive =>
      have hkeep : ¬ ShouldRefuse P prev kp := by
        rintro (hrevoked | hother)
        · exact halive hrevoked
        · exact hother howner.symm
      have hlen : prev.record.owner.length = 32 := by
        rw [← howner]
        exact Crypto.Keypair.publicKey_length P kp
      rw [uint64_wrap64, uint64_add]
      rcases @newRecord_next prev now _ _ hname hlen with ⟨hissue, hnew⟩ | ⟨hissue, e, hnew⟩
      · rw [hnew]
        cases hencodes : prev.record.encodes with
        | true =>
          exact .inr ⟨hkeep, ⟨hissue, hencodes⟩,
            signed_of_encodes ((encodes_renewedRecord _ _ _ _).trans hencodes)⟩
        | false =>
          refine .inl ⟨.inr fun h => absurd h.2 (by simp [hencodes]), .encode, ?_⟩
          simp only [signRecord_eq_none_iff.mpr ((encodes_renewedRecord _ _ _ _).trans hencodes)]
      · rw [hnew]
        exact .inl ⟨.inr fun h => hissue h.1, _, rfl⟩

theorem encodes_opsRenewedRecord {fresh : Record} (hfresh : fresh.claim = []) (prev : Record)
    (now : UInt64) : (opsRenewedRecord P prev fresh kp now).encodes = prev.encodes := by
  obtain ⟨rrset, hbound⟩ := @ensureTLSCA_eq P
    { fresh with
      rrset := prev.rrset
      recovery := prev.recovery
      claim := if 0 < prev.claim.length then prev.claim else fresh.claim } kp now
  rw [opsRenewedRecord, hbound]
  apply encodes_congr
  show (if 0 < prev.claim.length then prev.claim else fresh.claim) = prev.claim
  split
  next => rfl
  next hempty => rw [hfresh, List.length_eq_zero_iff.mp (Nat.eq_zero_of_not_pos hempty)]

theorem opsRenew_cases {get : Bytes → Except Unit (Option SignedEnvelope)} {force : Bool}
    (hname : encodeWireName P labels aliasName (P.sha256 (kp.publicKey P)) = .ok prev.record.name)
    (hget : get (dhtKeyName P prev.record.name) = .ok (some prev))
    (hgate : force = true ∨ staleEnough prev now = true) :
    (¬ Reissuable prev now ∧ Refused (opsRenew P get labels aliasName kp force now)) ∨
      (Reissuable prev now ∧ opsRenew P get labels aliasName kp force now
        = .ok (signedWith P (opsRenewedRecord P prev.record
          (nextRecord prev.record.name (kp.publicKey P) prev now) kp (uint64 now)) kp)) := by
  have hlen : (kp.publicKey P).length = 32 := Crypto.Keypair.publicKey_length P kp
  have htld : Crypto.tldID P (kp.publicKey P) = some (P.sha256 (kp.publicKey P)) := by
    rw [Crypto.tldID, if_neg (not_not.mpr hlen)]
  have hpass : ¬ (!force && !staleEnough prev now) = true := by
    rcases hgate with h | h <;> simp [h]
  have hnonempty := encodeWireName_ne_nil hname
  unfold opsRenew
  rw [htld]
  simp only [hname, hget, if_neg hpass]
  rcases @newRecord_next prev now _ _ hnonempty hlen with ⟨hissue, hnew⟩ | ⟨hissue, e, hnew⟩
  · rw [hnew]
    have hsame : (opsRenewedRecord P prev.record
        (nextRecord prev.record.name (kp.publicKey P) prev now) kp (uint64 now)).encodes
        = prev.record.encodes := encodes_opsRenewedRecord rfl _ _
    cases hencodes : prev.record.encodes with
    | true =>
      exact .inr ⟨⟨hissue, hencodes⟩,
        expect_eq_ok.mpr (signRecord_eq_some_iff.mpr ⟨hsame.trans hencodes, rfl⟩)⟩
    | false =>
      refine .inl ⟨fun h => absurd h.2 (by simp [hencodes]), .encode, ?_⟩
      simp only [signRecord_eq_none_iff.mpr (hsame.trans hencodes), expect]
  · rw [hnew]
    exact .inl ⟨fun h => hissue h.1, _, rfl⟩

theorem ensureTLSCA_others (r : Record) (now : UInt64) :
    ∃ rrset, ensureTLSCA P r kp now = { r with rrset } ∧
      rrset.filter (fun rr => !isTLSCA rr) = r.rrset.filter (fun rr => !isTLSCA rr) := by
  unfold ensureTLSCA
  split
  next =>
    split
    next => exact ⟨r.rrset, rfl, rfl⟩
    split
    next => exact ⟨r.rrset, rfl, rfl⟩
    next wantDER _ => exact ⟨_, rfl, bindTLSCA_others r.rrset⟩
  next => exact ⟨r.rrset, rfl, rfl⟩

theorem preserves_renewed (hissue : Reissuable prev now) :
    Preserves prev (signedWith P (renewedRecord P prev.record
      (nextRecord prev.record.name prev.record.owner prev now) kp now) kp) := by
  rw [renewedRecord]
  obtain ⟨rrset, heq, hothers⟩ := @ensureTLSCA_others P kp
    { nextRecord prev.record.name prev.record.owner prev now with
      rrset := prev.record.rrset
      delegation := if 0 < prev.record.delegationBytes.length then prev.record.delegation else none
      recovery := prev.record.recovery
      claim := prev.record.claim } (uint64 now)
  rw [heq]
  refine ⟨rfl, rfl, ?_, rfl, rfl, hothers, sequence_succ hissue.1.1⟩
  show (if 0 < prev.record.delegationBytes.length then prev.record.delegation else none).getD [] = _
  split
  next => rfl
  next hempty => exact (List.length_eq_zero_iff.mp (Nat.eq_zero_of_not_pos hempty)).symm

theorem preserves_opsRenewed_iff (hissue : Reissuable prev now) :
    Preserves prev (signedWith P (opsRenewedRecord P prev.record
        (nextRecord prev.record.name (kp.publicKey P) prev now) kp (uint64 now)) kp) ↔
      prev.record.owner = kp.publicKey P ∧ prev.record.delegationBytes = [] := by
  rw [opsRenewedRecord]
  obtain ⟨rrset, heq, hothers⟩ := @ensureTLSCA_others P kp
    { nextRecord prev.record.name (kp.publicKey P) prev now with
      rrset := prev.record.rrset
      recovery := prev.record.recovery
      claim := if 0 < prev.record.claim.length then prev.record.claim
        else (nextRecord prev.record.name (kp.publicKey P) prev now).claim } (uint64 now)
  rw [heq]
  constructor
  · intro h
    exact ⟨h.owner.symm, h.delegation.symm⟩
  · rintro ⟨howner, hdelegation⟩
    refine ⟨rfl, howner.symm, hdelegation.symm, rfl, ?_, hothers, sequence_succ hissue.1.1⟩
    show (if 0 < prev.record.claim.length then prev.record.claim else []) = _
    split
    next => rfl
    next hempty => exact (List.length_eq_zero_iff.mp (Nat.eq_zero_of_not_pos hempty)).symm

end

/-! ## Both together -/

/-- **The two renewals agree**: each refuses exactly what is revoked or another's, and keeps
the rest. -/
structure RenewalsAgree (P : Primitives) (prev : SignedEnvelope) (kp : Crypto.Keypair)
    (renewed : Except RenewError SignedEnvelope) (ops : Except OpsRenewError SignedEnvelope) :
    Prop where
  refuses : Refused renewed ↔ ShouldRefuse P prev kp
  ops_refuses : Refused ops ↔ ShouldRefuse P prev kp
  preserves : ∀ env, renewed = .ok env → Preserves prev env
  ops_preserves : ∀ env, ops = .ok env → Preserves prev env

/-- **Renewal preserves the record** both ways exactly when it is alive, the signer's,
without a delegation and reissuable; or it is revoked or another's and has no successor. -/
theorem renewals_agree_iff (P : Primitives) (prev : SignedEnvelope) (kp : Crypto.Keypair) (now : Int)
    (get : Bytes → Except Unit (Option SignedEnvelope)) (labels : List Bytes) (aliasName : Bytes)
    (force : Bool)
    (hname : encodeWireName P labels aliasName (P.sha256 (kp.publicKey P)) = .ok prev.record.name)
    (hget : get (dhtKeyName P prev.record.name) = .ok (some prev))
    (hgate : force = true ∨ staleEnough prev now = true) :
    RenewalsAgree P prev kp (renewEnvelope P prev kp now)
        (opsRenew P get labels aliasName kp force now) ↔
      (Reissuable prev now ∧ ¬ ShouldRefuse P prev kp ∧ prev.record.delegationBytes = []) ∨
      (¬ Reissuable prev now ∧ ShouldRefuse P prev kp) := by
  have hnonempty := encodeWireName_ne_nil hname
  rcases opsRenew_cases hname hget hgate with ⟨hnone, hops⟩ | ⟨hissue, hops⟩
  · -- no successor: both refuse
    have hcli : Refused (renewEnvelope P prev kp now) := by
      rcases @renewEnvelope_cases P prev kp now hnonempty with ⟨_, h⟩ | ⟨_, hissue, _⟩
      · exact h
      · exact absurd hissue hnone
    constructor
    · intro h
      exact .inr ⟨hnone, h.refuses.mp hcli⟩
    · rintro (⟨hissue, _⟩ | ⟨_, hrefuse⟩)
      · exact absurd hissue hnone
      · exact ⟨iff_of_true hcli hrefuse, iff_of_true hops hrefuse,
          fun _ h => absurd hcli (not_refused_ok h), fun _ h => absurd hops (not_refused_ok h)⟩
  · have hiff := @preserves_opsRenewed_iff P prev kp now hissue
    constructor
    · intro h
      have hkeep : ¬ ShouldRefuse P prev kp :=
        fun hrefuse => not_refused_ok hops (h.ops_refuses.mpr hrefuse)
      exact .inl ⟨hissue, hkeep, (hiff.mp (h.ops_preserves _ hops)).2⟩
    · rintro (⟨_, hkeep, hdelegation⟩ | ⟨hnone, _⟩)
      · rcases @renewEnvelope_cases P prev kp now hnonempty with ⟨hrefuse | hnone, _⟩ | ⟨_, _, hcli⟩
        · exact absurd hrefuse hkeep
        · exact absurd hissue hnone
        · have howner : prev.record.owner = kp.publicKey P :=
            not_not.mp (fun hother => hkeep (.inr hother))
          refine ⟨iff_of_false (not_refused_ok hcli) hkeep, iff_of_false (not_refused_ok hops) hkeep,
            ?_, ?_⟩
          · intro env henv
            rw [hcli] at henv
            rw [← Except.ok.inj henv]
            exact preserves_renewed hissue
          · intro env henv
            rw [hops] at henv
            rw [← Except.ok.inj henv]
            exact hiff.mpr ⟨howner, hdelegation⟩
      · exact absurd hissue hnone

namespace WebSample

def apex (revoke : Option Bool) (delegation : Option Bytes) : SignedEnvelope :=
  Toy.signedBy 1 { Toy.tldRecord 1 1 1 0 100 with revoke, delegation }

def found (env : SignedEnvelope) : Bytes → Except Unit (Option SignedEnvelope) :=
  fun _ => .ok (some env)

def renewed (env : SignedEnvelope) : Except OpsRenewError SignedEnvelope :=
  opsRenew Toy.primitives (found env) [] [0x61] (Toy.keypair 1) true 100

end WebSample

theorem plain_record_renewed :
    RenewalsAgree Toy.primitives (WebSample.apex none none) (Toy.keypair 1)
      (renewEnvelope Toy.primitives (WebSample.apex none none) (Toy.keypair 1) 100)
      (WebSample.renewed (WebSample.apex none none)) :=
  (renewals_agree_iff Toy.primitives (WebSample.apex none none) (Toy.keypair 1) 100
    (WebSample.found (WebSample.apex none none)) [] [0x61] true (by decide +kernel) rfl
    (.inl rfl)).mpr
    (.inl ⟨⟨⟨by decide +kernel, by decide +kernel⟩, by decide +kernel⟩, by
      rintro (h | h)
      · exact absurd h (by decide +kernel)
      · exact absurd rfl h, rfl⟩)

/-- The web UI brings a revoked record back, and drops a delegation. -/
theorem revoked_record_renewed :
    ¬ RenewalsAgree Toy.primitives (WebSample.apex (some true) none) (Toy.keypair 1)
        (renewEnvelope Toy.primitives (WebSample.apex (some true) none) (Toy.keypair 1) 100)
        (WebSample.renewed (WebSample.apex (some true) none)) ∧
      ¬ RenewalsAgree Toy.primitives (WebSample.apex none (some (Toy.publicKey 2))) (Toy.keypair 1)
        (renewEnvelope Toy.primitives (WebSample.apex none (some (Toy.publicKey 2))) (Toy.keypair 1)
          100)
        (WebSample.renewed (WebSample.apex none (some (Toy.publicKey 2)))) := by
  have hrevived : (WebSample.renewed (WebSample.apex (some true) none)).map (·.isRevoked)
      = .ok false := by
    decide +kernel
  have hdropped : (WebSample.renewed (WebSample.apex none (some (Toy.publicKey 2)))).map
      (·.record.delegationBytes) = .ok [] := by
    decide +kernel
  constructor
  · intro h
    obtain ⟨e, he⟩ := h.ops_refuses.mpr (.inl (by decide +kernel))
    rw [he] at hrevived
    cases hrevived
  · intro h
    cases hops : WebSample.renewed (WebSample.apex none (some (Toy.publicKey 2))) with
    | error e =>
      rw [hops] at hdropped
      cases hdropped
    | ok env =>
      rw [hops] at hdropped
      have hnone : env.record.delegationBytes = [] := Except.ok.inj hdropped
      have hkept := (h.ops_preserves env hops).delegation
      rw [hnone] at hkept
      exact absurd hkept (by decide +kernel)

end Freens.Renewal
