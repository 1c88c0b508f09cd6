/-
**FOUR THINGS A KEY SIGNS** (`wire/wire.go`: `Record.MarshalCBOR`,
`Message.SigningInput`; `crypto/crypto.go`: `WitnessSigningMessage`;
`wire/recovery.go`: `RecoverySigningMessage`): a CBOR map, a CBOR array of four,
and fixed-width fields behind one of two text tags.
-/
import Freens.Claims.QuorumSoundness
import Freens.Dht.MessageIntegrity
import Freens.Library.CborItem
import Freens.Wire.EnvelopeCodec

namespace Freens.Dht

open Library Library.Cbor Wire

/-! ## The four kinds -/

/-- What a key signs for. -/
inductive Purpose where
  | record
  | message
  | attestation
  | recovery
  deriving DecidableEq, Repr

/-- The bytes signed for a purpose. -/
def SigningInput : Purpose → Bytes → Prop
  | .record, b => ∃ r : Record, b = r.canonicalBytes
  | .message, b => ∃ (m : Message) (recipientID : Bytes), m.signingInput recipientID = some b
  | .attestation, b => ∃ claimPrefixHash ts, Claims.witnessSigningMessage claimPrefixHash ts = some b
  | .recovery, b => ∃ prevRecordHash newOwnerPK notBefore,
      recoverySigningMessage prevRecordHash newOwnerPK notBefore = some b

/-- The kind a byte string could be of, read off its first and its eighth byte. -/
def purposeOf (b : Bytes) : Option Purpose :=
  match b with
  | [] => none
  | c :: rest =>
    if c.toNat / 32 = 5 then some .record
    else if c.toNat / 32 = 4 then some .message
    -- both tags start with "freens-"
    else if rest[6]? = some 0x77 then some .attestation
    else if rest[6]? = some 0x72 then some .recovery
    else none

variable {b : Bytes}

theorem purposeOf_of_leads_map (h : Leads 5 b) : purposeOf b = some .record := by
  obtain ⟨c, rest, hb, hc⟩ := h
  rw [hb, purposeOf, if_pos hc]

theorem purposeOf_of_leads_array (h : Leads 4 b) : purposeOf b = some .message := by
  obtain ⟨c, rest, hb, hc⟩ := h
  rw [hb, purposeOf, if_neg (by omega), if_pos hc]

variable {notBefore k : UInt64} {pk h s t a : Bytes} {l : List (UInt64 × Bytes)} {r' r : Record}

theorem recoverySigningMessage_eq_some_iff :
    recoverySigningMessage h pk notBefore = some b ↔
      h.length = 32 ∧ pk.length = 32 ∧
        recoverySigningTag ++ h ++ pk ++ bigEndian 8 notBefore.toNat = b := by
  unfold recoverySigningMessage
  grind

theorem purposeOf_of_signingInput {p : Purpose} (h : SigningInput p b) : purposeOf b = some p := by
  cases p with
  | record =>
    obtain ⟨r, hb⟩ := h
    rw [hb, Record.canonicalBytes]
    exact purposeOf_of_leads_map ((leads_head (by decide)).append _)
  | message =>
    obtain ⟨m, recipientID, hb⟩ := h
    rw [(signingInput_eq hb).2]
    exact purposeOf_of_leads_array ((leads_head (by decide)).append _)
  | attestation =>
    obtain ⟨ph, ts, hb⟩ := h
    rw [← (Claims.witnessSigningMessage_eq_some_iff.mp hb).2]
    rfl
  | recovery =>
    obtain ⟨prev, owner, notBefore, hb⟩ := h
    rw [recoverySigningMessage_eq_some_iff] at hb
    rw [← hb.2.2]
    rfl

/-! ## What a record's bytes determine -/

/-- Every length in the record fits 64 bits, as Go lengths do. -/
structure Record.Sized (r : Record) : Prop where
  name : r.name.length < 2 ^ 64
  owner : r.owner.length < 2 ^ 64
  rrset : r.rrset.length < 2 ^ 64
  rdata : ∀ rr ∈ r.rrset, rr.rdata.length < 2 ^ 64
  delegation : r.delegationBytes.length < 2 ^ 64
  prevHash : r.prevHashBytes.length < 2 ^ 64
  keys : ∀ p ∈ r.recovery, p.keys.length < 2 ^ 64 ∧ ∀ k ∈ p.keys, k.length < 2 ^ 64

theorem rr_append_inj {a b : RR} (ha : a.rdata.length < 2 ^ 64) (hb : b.rdata.length < 2 ^ 64)
    (h : a.marshal ++ s = b.marshal ++ t) : a = b ∧ s = t := by
  simp only [RR.marshal, array, List.length_cons, List.length_nil, List.flatten_cons,
    List.flatten_nil, List.append_nil, List.append_assoc, List.append_cancel_left_eq] at h
  obtain ⟨htype, h⟩ := uint_append_inj h
  obtain ⟨httl, h⟩ := uint_append_inj h
  obtain ⟨hrdata, hrest⟩ := bstr_append_inj ha hb h
  have hsame : a = b := by
    cases a
    cases b
    simp_all
  exact ⟨hsame, hrest⟩

theorem policy_append_inj {p q : RecoveryPolicyWire}
    (hp : p.keys.length < 2 ^ 64 ∧ ∀ k ∈ p.keys, k.length < 2 ^ 64)
    (hq : q.keys.length < 2 ^ 64 ∧ ∀ k ∈ q.keys, k.length < 2 ^ 64)
    (h : p.marshal ++ s = q.marshal ++ t) : p = q ∧ s = t := by
  have hbstr : ∀ a ∈ p.keys, ∀ b ∈ q.keys, ∀ s t, bstr a ++ s = bstr b ++ t → a = b ∧ s = t :=
    fun a ha b hb _ _ => bstr_append_inj (hp.2 a ha) (hq.2 b hb)
  -- three rows with the keys 1, 2, 3 behind the same head
  replace h : head 5 3 ++ (rows [(1, uint p.threshold), (2, array (p.keys.map bstr)),
      (3, uint p.timelock)] ++ s) = head 5 3 ++ (rows [(1, uint q.threshold),
      (2, array (q.keys.map bstr)), (3, uint q.timelock)] ++ t) := by
    rw [← List.append_assoc, ← List.append_assoc]
    exact h
  obtain ⟨hthreshold, h⟩ := rows_cons_inj (fun _ _ => uint_append_inj) (List.append_cancel_left h)
  obtain ⟨hkeys, h⟩ := @rows_cons_inj _ (fun l : List Bytes => array (l.map bstr)) _ _ _ _ _ _ _
    (fun _ _ => array_append_inj hbstr hp.1 hq.1) h
  obtain ⟨htimelock, hrest⟩ := rows_cons_inj (fun _ _ => uint_append_inj) h
  have hsame : p = q := by
    cases p
    cases q
    simp_all
  exact ⟨hsame, hrest⟩

/-- An empty field counts as absent. -/
def nonEmpty (b : Bytes) : Option Bytes := if 0 < b.length then some b else none

theorem nonEmpty_inj (h : nonEmpty a = nonEmpty b) : a = b := by
  unfold nonEmpty at h
  cases a with
  | nil =>
    cases b with
    | nil => rfl
    | cons y b => cases h
  | cons x a =>
    cases b with
    | nil => cases h
    | cons y b => simpa using h

theorem mem_nonEmpty (h : a ∈ nonEmpty b) : a = b := by
  unfold nonEmpty at h
  split at h
  next => exact (Option.mem_some_iff.mp h).symm
  next => cases h

theorem ite_eq_optionalRow (k : UInt64) (f : Bytes → Bytes) (b : Bytes) :
    (if 0 < b.length then [(k, f b)] else []) = optionalRow k f (nonEmpty b) := by
  unfold nonEmpty
  split <;> rfl

/-- The revocation, if set. -/
def revocation (r : Record) : Option Unit := if r.revoke = some true then some () else none

/-- The optional rows of a record. -/
def optionalFields (r : Record) : List (UInt64 × Bytes) :=
  optionalRow 8 bstr (nonEmpty r.delegationBytes) ++
    (optionalRow 9 bstr (nonEmpty r.prevHashBytes) ++
      (optionalRow 10 RecoveryPolicyWire.marshal r.recovery ++
        (optionalRow 11 id (nonEmpty r.claim) ++
          optionalRow 12 (fun _ => simpleTrue) (revocation r))))

theorem fields_eq (r : Record) : r.fields =
    (1, uint r.version) :: (2, bstr r.name) :: (3, bstr r.owner) :: (4, uint r.sequence) ::
      (5, uint r.created) :: (6, uint r.expires) :: (7, array (r.rrset.map RR.marshal)) ::
      optionalFields r := by
  have hrevoke : (if r.revoke = some true then [((12 : UInt64), simpleTrue)] else [])
      = optionalRow 12 (fun _ => simpleTrue) (revocation r) := by
    unfold revocation
    split <;> rfl
  rw [optionalFields, ← ite_eq_optionalRow, ← ite_eq_optionalRow, ← ite_eq_optionalRow, ← hrevoke]
  simp only [Record.fields, Record.hasPrevHash, decide_eq_true_eq, List.append_assoc]
  rfl

/-- **The end of a record**: the claim is raw, but the number of rows tells whether one
follows it. -/
theorem claim_and_revocation_inj {o o' : Option Bytes} {u u' : Option Unit}
    (hlen : (optionalRow 11 id o ++ optionalRow 12 (fun _ => simpleTrue) u).length
      = (optionalRow 11 id o' ++ optionalRow 12 (fun _ => simpleTrue) u').length)
    (h : rows (optionalRow 11 id o ++ optionalRow 12 (fun _ => simpleTrue) u) ++ []
      = rows (optionalRow 11 id o' ++ optionalRow 12 (fun _ => simpleTrue) u') ++ []) :
    o = o' ∧ u = u' := by
  have hkeys : ∀ u : Option Unit, ∀ e ∈ optionalRow 12 (fun _ => simpleTrue) u, e.1 ≠ 11 := by
    intro u e he
    rw [key_of_mem_optionalRow he]
    decide
  have hcount : ∀ u u' : Option Unit, (optionalRow 12 (fun _ => simpleTrue) u).length
      = (optionalRow 12 (fun _ => simpleTrue) u').length → u = u' := by
    intro u u' hl
    cases u <;> cases u' <;> simp_all [optionalRow]
  cases o with
  | none =>
    cases o' with
    | none => exact ⟨rfl, hcount u u' hlen⟩
    | some b => exact absurd h (rows_ne_of_key hlen (hkeys u))
  | some a =>
    cases o' with
    | none => exact absurd h.symm (rows_ne_of_key hlen.symm (hkeys u'))
    | some b =>
      have hu := hcount u u' (Nat.succ.inj hlen)
      subst hu
      rw [List.append_nil, List.append_nil] at h
      have hclaim : a ++ _ = b ++ _ := List.append_cancel_left
        ((rows_cons 11 a _).symm.trans (h.trans (rows_cons 11 b _)))
      exact ⟨congrArg some (List.append_cancel_right hclaim), rfl⟩

/-- Every row's key is above `k`. -/
def KeysAbove (k : UInt64) (l : List (UInt64 × Bytes)) : Prop := ∀ e ∈ l, k < e.1

theorem KeysAbove.ne (h : KeysAbove k l) : ∀ e ∈ l, e.1 ≠ k :=
  fun e he => (UInt64.ne_of_lt (h e he)).symm

theorem KeysAbove.optionalRow {α : Type} {j : UInt64} {f : α → Bytes} {o : Option α} (hjk : k < j)
    (h : KeysAbove j l) : KeysAbove k (optionalRow j f o ++ l) := by
  intro e he
  rcases List.mem_append.mp he with hrow | hl
  · rw [key_of_mem_optionalRow hrow]
    exact hjk
  · exact UInt64.lt_trans hjk (h e hl)

theorem optionalFields_inj (hr : Record.Sized r) (hr' : Record.Sized r')
    (hlen : (optionalFields r).length = (optionalFields r').length)
    (h : rows (optionalFields r) ++ [] = rows (optionalFields r') ++ []) :
    r.delegationBytes = r'.delegationBytes ∧ r.prevHashBytes = r'.prevHashBytes ∧
      r.recovery = r'.recovery ∧ r.claim = r'.claim ∧ revocation r = revocation r' := by
  have h12 : ∀ r : Record, KeysAbove 11 (optionalRow 12 (fun _ => simpleTrue) (revocation r)) := by
    intro r e he
    rw [key_of_mem_optionalRow he]
    decide
  have h11 : ∀ r : Record, KeysAbove 10 (_ ++ _) := fun r =>
    KeysAbove.optionalRow (f := id) (o := nonEmpty r.claim) (by decide) (h12 r)
  have h10 : ∀ r : Record, KeysAbove 9 (_ ++ (_ ++ _)) := fun r =>
    KeysAbove.optionalRow (f := RecoveryPolicyWire.marshal) (o := r.recovery) (by decide) (h11 r)
  have h9 : ∀ r : Record, KeysAbove 8 (_ ++ (_ ++ (_ ++ _))) := fun r =>
    KeysAbove.optionalRow (f := bstr) (o := nonEmpty r.prevHashBytes) (by decide) (h10 r)
  obtain ⟨hdelegation, hlen, h⟩ := optionalRow_inj (fun a ha b hb _ _ => by
      rw [mem_nonEmpty ha, mem_nonEmpty hb]
      exact bstr_append_inj hr.delegation hr'.delegation) (h9 r).ne (h9 r').ne hlen h
  obtain ⟨hprevHash, hlen, h⟩ := optionalRow_inj (fun a ha b hb _ _ => by
      rw [mem_nonEmpty ha, mem_nonEmpty hb]
      exact bstr_append_inj hr.prevHash hr'.prevHash) (h10 r).ne (h10 r').ne hlen h
  obtain ⟨hrecovery, hlen, h⟩ := optionalRow_inj
    (fun p hp q hq _ _ => policy_append_inj (hr.keys p hp) (hr'.keys q hq))
    (h11 r).ne (h11 r').ne hlen h
  obtain ⟨hclaim, hrevoke⟩ := claim_and_revocation_inj hlen h
  exact ⟨nonEmpty_inj hdelegation, nonEmpty_inj hprevHash, hrecovery, nonEmpty_inj hclaim, hrevoke⟩

theorem canonicalBytes_eq_iff (hr : Record.Sized r) (hr' : Record.Sized r') :
    r.canonicalBytes = r'.canonicalBytes ↔ r.SameContent r' := by
  constructor
  · intro h
    have hmap : head 5 r.fields.length ++ (rows r.fields ++ [])
        = head 5 r'.fields.length ++ (rows r'.fields ++ []) := by
      rw [List.append_nil, List.append_nil]
      exact h
    obtain ⟨hlen, h⟩ := head_append_inj (by decide) (length_fields r) (length_fields r') hmap
    rw [fields_eq, fields_eq] at hlen h
    -- the required fields, one by one
    obtain ⟨hversion, h⟩ := rows_cons_inj (fun _ _ => uint_append_inj) h
    obtain ⟨hname, h⟩ := rows_cons_inj (fun _ _ => bstr_append_inj hr.name hr'.name) h
    obtain ⟨howner, h⟩ := rows_cons_inj (fun _ _ => bstr_append_inj hr.owner hr'.owner) h
    obtain ⟨hsequence, h⟩ := rows_cons_inj (fun _ _ => uint_append_inj) h
    obtain ⟨hcreated, h⟩ := rows_cons_inj (fun _ _ => uint_append_inj) h
    obtain ⟨hexpires, h⟩ := rows_cons_inj (fun _ _ => uint_append_inj) h
    have hrr : ∀ a ∈ r.rrset, ∀ b ∈ r'.rrset, ∀ s t, a.marshal ++ s = b.marshal ++ t →
        a = b ∧ s = t :=
      fun a ha b hb _ _ => rr_append_inj (hr.rdata a ha) (hr'.rdata b hb)
    obtain ⟨hrrset, h⟩ := @rows_cons_inj _ (fun l : List RR => array (l.map RR.marshal)) _ _ _ _ _ _ _
      (fun _ _ => array_append_inj hrr hr.rrset hr'.rrset) h
    simp only [List.length_cons, Nat.add_right_cancel_iff] at hlen
    obtain ⟨hdelegation, hprevHash, hrecovery, hclaim, hrevoke⟩ := optionalFields_inj hr hr' hlen h
    refine ⟨hversion, hname, howner, hsequence, hcreated, hexpires, hrrset, hdelegation, hprevHash,
      hrecovery, hclaim, ?_⟩
    unfold revocation at hrevoke
    by_cases hv : r.revoke = some true <;> by_cases hv' : r'.revoke = some true <;> simp_all
  · exact Record.SameContent.canonicalBytes_eq

/-! ## What the other inputs determine -/

theorem recoverySigningMessage_inj {h' pk' : Bytes} {notBefore' : UInt64}
    (hb : recoverySigningMessage h pk notBefore = some b)
    (hb' : recoverySigningMessage h' pk' notBefore' = some b) :
    h = h' ∧ pk = pk' ∧ notBefore = notBefore' := by
  obtain ⟨hlen, hpk, hmsg⟩ := recoverySigningMessage_eq_some_iff.mp hb
  obtain ⟨hlen', hpk', hmsg'⟩ := recoverySigningMessage_eq_some_iff.mp hb'
  rw [← hmsg', List.append_assoc, List.append_assoc, List.append_assoc, List.append_assoc] at hmsg
  obtain ⟨hhash, hmsg⟩ := List.append_inj (List.append_cancel_left hmsg) (hlen.trans hlen'.symm)
  obtain ⟨howner, hmsg⟩ := List.append_inj hmsg (hpk.trans hpk'.symm)
  exact ⟨hhash, howner, UInt64.toNat_inj.mp
    (bigEndian_inj notBefore.toNat_lt notBefore'.toNat_lt hmsg)⟩

theorem witnessSigningMessage_fields {ph ph' : Bytes} {ts ts' : UInt64}
    (hb : Claims.witnessSigningMessage ph ts = some b)
    (hb' : Claims.witnessSigningMessage ph' ts' = some b) : ph = ph' ∧ ts = ts' := by
  have hph := Claims.witnessSigningMessage_inj hb hb'
  obtain ⟨_, hmsg⟩ := Claims.witnessSigningMessage_eq_some_iff.mp hb
  obtain ⟨_, hmsg'⟩ := Claims.witnessSigningMessage_eq_some_iff.mp hb'
  rw [← hmsg', hph] at hmsg
  exact ⟨hph, UInt64.toNat_inj.mp
    (bigEndian_inj ts.toNat_lt ts'.toNat_lt (List.append_cancel_left hmsg))⟩

theorem signingInput_inj {m m' : Message} {recipientID recipientID' : Bytes}
    {args args' : Cbor.Entries} (ha : m.a = (Item.map args).encode)
    (ha' : m'.a = (Item.map args').encode) (hargs : (Item.map args).Fits)
    (hargs' : (Item.map args').Fits) (ht : m.t.length < 2 ^ 64) (ht' : m'.t.length < 2 ^ 64)
    (hid : m.id.length < 2 ^ 64) (hid' : m'.id.length < 2 ^ 64)
    (hb : m.signingInput recipientID = some b) (hb' : m'.signingInput recipientID' = some b) :
    m.t = m'.t ∧ m.id = m'.id ∧ recipientID = recipientID' ∧ args = args' := by
  obtain ⟨hrecipient, hinput⟩ := signingInput_eq hb
  obtain ⟨hrecipient', hinput'⟩ := signingInput_eq hb'
  have hsized : ∀ x : Bytes, x.length = nodeIDLen → x.length < 2 ^ 64 := by
    intro x hx
    rw [hx]
    decide
  obtain ⟨h₁, h₂, h₃, h₄⟩ := signed_array_inj ht ht' hid hid' (hsized _ hrecipient)
    (hsized _ hrecipient') (hinput.symm.trans hinput')
  -- the encoding of the arguments determines them
  have hsame : (Item.map args).encode ++ [] = (Item.map args').encode ++ [] := by
    rw [← ha, ← ha', h₄]
  exact ⟨h₁, h₂, h₃, Item.map.inj (Item.encode_append_inj _ _ hargs hargs' hsame).1⟩

/-- **Signing domains are disjoint.** No byte string is the signing input of two kinds; each
determines the fields it binds; and a signature of nothing but its own input verifies no
input of another kind. -/
theorem signing_domains_disjoint (P : Primitives) :
    (∀ p q b, SigningInput p b → SigningInput q b → p = q) ∧
    (∀ r r' : Record, Record.Sized r → Record.Sized r' →
      (r.canonicalBytes = r'.canonicalBytes ↔ r.SameContent r')) ∧
    (∀ (m m' : Message) (recipientID recipientID' b : Bytes) (args args' : Cbor.Entries),
      m.a = (Item.map args).encode → m'.a = (Item.map args').encode →
      (Item.map args).Fits → (Item.map args').Fits →
      m.t.length < 2 ^ 64 → m'.t.length < 2 ^ 64 → m.id.length < 2 ^ 64 → m'.id.length < 2 ^ 64 →
      m.signingInput recipientID = some b → m'.signingInput recipientID' = some b →
      m.t = m'.t ∧ m.id = m'.id ∧ recipientID = recipientID' ∧ args = args') ∧
    (∀ (ph ph' b : Bytes) (ts ts' : UInt64), Claims.witnessSigningMessage ph ts = some b →
      Claims.witnessSigningMessage ph' ts' = some b → ph = ph' ∧ ts = ts') ∧
    (∀ (h h' pk pk' b : Bytes) (notBefore notBefore' : UInt64),
      recoverySigningMessage h pk notBefore = some b →
      recoverySigningMessage h' pk' notBefore' = some b →
      h = h' ∧ pk = pk' ∧ notBefore = notBefore') ∧
    ∀ (pk sig input : Bytes) (p q : Purpose), SigningInput p input → q ≠ p →
      (∀ b, Crypto.verify P pk sig b = true → b = input) →
      ∀ b, SigningInput q b → Crypto.verify P pk sig b = false := by
  have hdisjoint : ∀ p q b, SigningInput p b → SigningInput q b → p = q := by
    intro p q b hp hq
    have hsame := (purposeOf_of_signingInput hp).symm.trans (purposeOf_of_signingInput hq)
    exact Option.some.inj hsame
  refine ⟨hdisjoint, fun _ _ => canonicalBytes_eq_iff, ?_, ?_, ?_, ?_⟩
  · intro m m' recipientID recipientID' b args args'
    exact signingInput_inj
  · intro ph ph' b ts ts'
    exact witnessSigningMessage_fields
  · intro h h' pk pk' b notBefore notBefore'
    exact recoverySigningMessage_inj
  · intro pk sig input p q hp hne honly b hq
    rw [Bool.eq_false_iff]
    intro hverify
    rw [honly b hverify] at hq
    exact hne (hdisjoint q p input hq hp)

end Freens.Dht
