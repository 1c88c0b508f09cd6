/-
**WHAT AN ACCEPTED QUORUM PROVES** (`claims/claims.go`: `HasQuorum`,
`VerifyFull`; `crypto/crypto.go`: `WitnessSigningMessage`).

The signing log says which key issued which signature on which message. What is
assumed of the primitives is `Circulation`, about the claims in circulation only.
-/
import Freens.Toy

namespace Freens.Claims

open Library Naming

variable {P : Primitives}

variable {ts : UInt64} {ph : Bytes} {w : WitnessAttestation} {c : AliasClaim}
  {ts' : UInt64} {a msg : Bytes}

theorem buildPrefix_inj {a' tldID tldID' : Bytes} {pk pk' : Bytes} (ha : a.length < 2 ^ 64)
    (ha' : a'.length < 2 ^ 64) (htld : tldID.length < 2 ^ 64) (htld' : tldID'.length < 2 ^ 64)
    (hpk : pk.length < 2 ^ 64) (hpk' : pk'.length < 2 ^ 64)
    (h : buildPrefix a tldID ts pk = buildPrefix a' tldID' ts' pk') :
    a = a' ∧ tldID = tldID' ∧ ts = ts' ∧ pk = pk' := by
  simp only [buildPrefix, Cbor.map, List.map_cons, List.map_nil, List.flatten_cons,
    List.flatten_nil, List.append_assoc, List.length_cons, List.length_nil] at h
  -- field by field, the key in front of each is the same on both sides
  obtain ⟨halias, h⟩ := Cbor.tstr_append_inj ha ha'
    (List.append_cancel_left (List.append_cancel_left h))
  obtain ⟨htldID, h⟩ := Cbor.bstr_append_inj htld htld' (List.append_cancel_left h)
  obtain ⟨hts, h⟩ := Cbor.uint_append_inj (List.append_cancel_left h)
  obtain ⟨hclaimant, _⟩ := Cbor.bstr_append_inj hpk hpk' (List.append_cancel_left h)
  exact ⟨halias, htldID, hts, hclaimant⟩

theorem witnessSigningMessage_eq_some_iff :
    witnessSigningMessage ph ts = some msg ↔
      ph.length = 32 ∧ witnessSigningTag ++ ph ++ bigEndian 8 ts.toNat = msg := by
  unfold witnessSigningMessage
  split
  next hlen => simp [hlen]
  next hlen =>
    rw [not_not] at hlen
    rw [Option.some.injEq]
    exact ⟨fun h => ⟨hlen, h⟩, fun h => h.2⟩

theorem witnessSigningMessage_inj {ph' : Bytes} (h : witnessSigningMessage ph ts = some msg)
    (h' : witnessSigningMessage ph' ts' = some msg) : ph = ph' := by
  obtain ⟨hlen, hmsg⟩ := witnessSigningMessage_eq_some_iff.mp h
  obtain ⟨hlen', hmsg'⟩ := witnessSigningMessage_eq_some_iff.mp h'
  rw [← hmsg', List.append_assoc, List.append_assoc] at hmsg
  exact (List.append_inj (List.append_cancel_left hmsg) (hlen.trans hlen'.symm)).1

/-! ## One attestation -/

theorem WitnessAttestation.verify_iff :
    w.verify P ph = true ↔ w.nodePK.length = 32 ∧ P.sha256 w.nodePK = w.nodeID ∧
      ∃ msg, witnessSigningMessage ph w.ts = some msg ∧
        Crypto.verify P w.nodePK w.sig msg = true := by
  unfold WitnessAttestation.verify Crypto.tldID
  by_cases hlen : w.nodePK.length = 32
  · rw [if_neg (not_not.mpr hlen)]
    by_cases hid : P.sha256 w.nodePK = w.nodeID
    · cases hmsg : witnessSigningMessage ph w.ts <;> simp [hlen, hid]
    · simp [hid]
  · rw [if_pos hlen]
    simp [hlen]

theorem mem_of_mem_firstPerNode {atts : List WitnessAttestation} {seen : List Bytes}
    (h : w ∈ firstPerNode atts seen) : w ∈ atts := by
  induction atts generalizing seen with
  | nil => exact h
  | cons x atts ih =>
    unfold firstPerNode at h
    split at h
    next => exact List.mem_cons_of_mem x (ih h)
    rcases List.mem_cons.mp h with heq | hmem
    · exact heq ▸ List.mem_cons_self
    · exact List.mem_cons_of_mem x (ih hmem)

theorem mem_corroborating (h : w ∈ c.corroboratingWitnessesFromPrefixHash P ph) :
    w ∈ c.attestations ∧ w.verify P ph = true ∧
      wrap64 (int64 c.timestamp - 60) ≤ int64 w.ts ∧
      int64 w.ts ≤ wrap64 (wrap64 (int64 c.timestamp + 300) + 60) := by
  unfold AliasClaim.corroboratingWitnessesFromPrefixHash at h
  rw [List.mem_filter, AliasClaim.validWitnessesFromPrefixHash, List.mem_filter] at h
  obtain ⟨⟨hmem, hverify⟩, hband⟩ := h
  rw [Bool.and_eq_true, decide_eq_true_eq, decide_eq_true_eq] at hband
  exact ⟨mem_of_mem_firstPerNode (List.mem_of_mem_take hmem), hverify, hband⟩

theorem band_of_lt {ts : UInt64} (h : ts.toNat + 360 < 2 ^ 63) :
    wrap64 (int64 ts - 60) = ts.toNat - 60 ∧
      wrap64 (wrap64 (int64 ts + 300) + 60) = ts.toNat + 360 := by
  rw [int64_of_lt (by omega), wrap64_of_range (by omega) (by omega),
    @wrap64_of_range ((ts.toNat : Int) + 300) (by omega) (by omega),
    wrap64_of_range (by omega) (by omega)]
  constructor
  · rfl
  · ring

/-! ## What is assumed of the primitives -/

/-- **The claims in circulation**, and the log of the signatures issued. -/
structure Circulation (P : Primitives) (claims : Set AliasClaim)
    (signed : Bytes → Bytes → Bytes → Prop) : Prop where
  /-- Slices are shorter than the largest signed word. -/
  sized : ∀ c ∈ claims, c.tldID.length < 2 ^ 63 ∧ c.claimantPK.length < 2 ^ 63
  /-- SHA-256 tells the identities in circulation apart. -/
  collisionFree : ∀ c ∈ claims, ∀ c' ∈ claims, ∀ pre pre', c.prefixBytes P = .ok pre →
    c'.prefixBytes P = .ok pre' → P.sha256 pre = P.sha256 pre' → pre = pre'
  /-- A signature in circulation that verifies on one of the identities was
  issued by the holder of the key. -/
  unforgeable : ∀ c ∈ claims, ∀ w ∈ c.attestations, ∀ c' ∈ claims, ∀ ph msg,
    c'.prefixHash P = .ok ph → witnessSigningMessage ph w.ts = some msg →
    Crypto.verify P w.nodePK w.sig msg = true → signed w.nodePK w.sig msg
  /-- Each signature was issued on one message. -/
  binding : ∀ key sig msg msg', signed key sig msg → signed key sig msg' → msg = msg'

/-- **The attestation counts** toward a quorum of the claim. -/
def Counted (P : Primitives) (c : AliasClaim) (ids : Option (List Bytes))
    (w : WitnessAttestation) : Prop :=
  ∃ ph, c.prefixHash P = .ok ph ∧ w ∈ c.corroboratingWitnessesFromPrefixHash P ph ∧
    inWitnessSet ids w.nodeID = true

/-- **The key witnessed the claim**: it is of the set and signed the claim's identity, with
a time in the band. -/
structure Witnessed (P : Primitives) (signed : Bytes → Bytes → Bytes → Prop) (c : AliasClaim)
    (ids : Option (List Bytes)) (key : Bytes) (ts : UInt64) : Prop where
  member : ∀ set, ids = some set → P.sha256 key ∈ set
  signed : ∃ a sig, validateAlias P c.aliasName = .ok a ∧ signed key sig
    (witnessSigningTag ++ P.sha256 (buildPrefix a c.tldID c.timestamp c.claimantPK) ++
      bigEndian 8 ts.toNat)
  /-- The time as a signed word; -/
  band : (c.timestamp.toNat : Int) - 60 ≤ int64 ts ∧ int64 ts ≤ c.timestamp.toNat + 360
  /-- and as the number of seconds it is. -/
  seconds : ts.toNat < 2 ^ 62 →
    c.timestamp.toNat ≤ ts.toNat + 60 ∧ ts.toNat ≤ c.timestamp.toNat + 360

/-! ## Soundness and binding -/

theorem prefixHash_eq_ok_iff_validateAlias :
    c.prefixHash P = .ok ph ↔ ∃ a, validateAlias P c.aliasName = .ok a ∧
      P.sha256 (buildPrefix a c.tldID c.timestamp c.claimantPK) = ph := by
  simp only [prefixHash_eq_ok_iff, AliasClaim.prefixBytes, bind_eq_ok, pure_eq_ok]
  constructor
  · rintro ⟨_, ⟨a, ha, rfl⟩, hph⟩
    exact ⟨a, ha, hph⟩
  · rintro ⟨a, ha, hph⟩
    exact ⟨_, ⟨a, ha, rfl⟩, hph⟩

section
variable {claims : Set AliasClaim} {signed : Bytes → Bytes → Bytes → Prop}
  {ids : Option (List Bytes)}

theorem Circulation.witnessed (hworld : Circulation P claims signed) (hc : c ∈ claims)
    (hts : c.timestamp.toNat < 2 ^ 62) (h : Counted P c ids w) :
    P.sha256 w.nodePK = w.nodeID ∧ Witnessed P signed c ids w.nodePK w.ts := by
  obtain ⟨ph, hph, hmem, hset⟩ := h
  obtain ⟨hatt, hverify, hlo, hhi⟩ := mem_corroborating hmem
  obtain ⟨_, hid, msg, hmsg, hsig⟩ := WitnessAttestation.verify_iff.mp hverify
  obtain ⟨hlo', hhi'⟩ := @band_of_lt c.timestamp (by omega)
  rw [hlo'] at hlo
  rw [hhi'] at hhi
  refine ⟨hid, ⟨?_, ?_, ⟨hlo, hhi⟩, ?_⟩⟩
  · rw [hid]
    exact inWitnessSet_iff.mp hset
  · obtain ⟨a, ha, hsha⟩ := prefixHash_eq_ok_iff_validateAlias.mp hph
    obtain ⟨_, hbytes⟩ := witnessSigningMessage_eq_some_iff.mp hmsg
    refine ⟨a, w.sig, ha, ?_⟩
    rw [hsha, hbytes]
    exact hworld.unforgeable c hc w hatt c hc ph msg hph hmsg hsig
  · intro hsmall
    rw [int64_of_lt (by omega)] at hlo hhi
    omega

theorem hasQuorum_iff_counted (hph : c.prefixHash P = .ok ph) {quorum : Nat} :
    c.hasQuorumFromPrefixHash P ph ids quorum = true ↔
      ∃ nodes : Finset Bytes, quorum ≤ nodes.card ∧
        ∀ id ∈ nodes, ∃ w, Counted P c ids w ∧ w.nodeID = id := by
  unfold AliasClaim.hasQuorumFromPrefixHash distinctNodes
  rw [decide_eq_true_eq, le_countDistinct_iff]
  constructor
  · rintro ⟨nodes, hnodes, hcard⟩
    refine ⟨nodes, hcard, ?_⟩
    intro id hid
    obtain ⟨hmem, hset⟩ := hnodes id hid
    obtain ⟨w, hw, rfl⟩ := List.mem_map.mp hmem
    exact ⟨w, ⟨ph, hph, hw, hset⟩, rfl⟩
  · rintro ⟨nodes, hcard, hnodes⟩
    refine ⟨nodes, ?_, hcard⟩
    intro id hid
    obtain ⟨w, ⟨ph', hph', hw, hset⟩, rfl⟩ := hnodes id hid
    obtain rfl := Except.ok.inj (hph.symm.trans hph')
    exact ⟨List.mem_map.mpr ⟨w, hw, rfl⟩, hset⟩

theorem Circulation.keys_of_nodes (hworld : Circulation P claims signed) (hc : c ∈ claims)
    (hts : c.timestamp.toNat < 2 ^ 62) {nodes : Finset Bytes}
    (h : ∀ id ∈ nodes, ∃ w, Counted P c ids w ∧ w.nodeID = id) :
    ∃ keys : Finset Bytes, keys.card = nodes.card ∧
      ∀ key ∈ keys, ∃ ts, Witnessed P signed c ids key ts := by
  have : Nonempty WitnessAttestation := ⟨⟨[], [], 0, []⟩⟩
  choose! attestation hcounted hnode using h
  refine ⟨nodes.image (fun id => (attestation id).nodePK), ?_, ?_⟩
  · refine Finset.card_image_of_injOn ?_
    intro id hid id' hid' hkey
    -- the node id is the hash of the key
    have hcert := (hworld.witnessed hc hts (hcounted id hid)).1
    have hcert' := (hworld.witnessed hc hts (hcounted id' hid')).1
    replace hkey : (attestation id).nodePK = (attestation id').nodePK := hkey
    rw [hnode id hid] at hcert
    rw [hnode id' hid', ← hkey, hcert] at hcert'
    exact hcert'
  · intro key hkey
    obtain ⟨id, hid, rfl⟩ := Finset.mem_image.mp hkey
    exact ⟨(attestation id).ts, (hworld.witnessed hc hts (hcounted id hid)).2⟩

theorem validateAlias_length {s : Bytes} (h : validateAlias P s = .ok a) : a.length < 2 ^ 64 := by
  have hlen := checkLDH_length (checkLDH_of_validateAlias h)
  omega

theorem Circulation.identity_eq (hworld : Circulation P claims signed) {c' : AliasClaim}
    (hc : c ∈ claims) (hc' : c' ∈ claims) {ids' : Option (List Bytes)} (h : Counted P c ids w)
    (h' : Counted P c' ids' w) :
    validateAlias P c.aliasName = validateAlias P c'.aliasName ∧ c.tldID = c'.tldID ∧
      c.timestamp = c'.timestamp ∧ c.claimantPK = c'.claimantPK := by
  obtain ⟨ph, hph, hmem, _⟩ := h
  obtain ⟨ph', hph', hmem', _⟩ := h'
  obtain ⟨hatt, hverify, _⟩ := mem_corroborating hmem
  obtain ⟨_, hverify', _⟩ := mem_corroborating hmem'
  obtain ⟨_, _, msg, hmsg, hsig⟩ := WitnessAttestation.verify_iff.mp hverify
  obtain ⟨_, _, msg', hmsg', hsig'⟩ := WitnessAttestation.verify_iff.mp hverify'
  -- one signature was issued on one message, so both claims hash to one identity
  have hsame : msg = msg' := hworld.binding _ _ _ _
    (hworld.unforgeable c hc w hatt c hc ph msg hph hmsg hsig)
    (hworld.unforgeable c hc w hatt c' hc' ph' msg' hph' hmsg' hsig')
  subst hsame
  have hhash := witnessSigningMessage_inj hmsg hmsg'
  obtain ⟨a, ha, hsha⟩ := prefixHash_eq_ok_iff_validateAlias.mp hph
  obtain ⟨a', ha', hsha'⟩ := prefixHash_eq_ok_iff_validateAlias.mp hph'
  have hpre : buildPrefix a c.tldID c.timestamp c.claimantPK =
      buildPrefix a' c'.tldID c'.timestamp c'.claimantPK := by
    refine hworld.collisionFree c hc c' hc' _ _ ?_ ?_ (hsha.trans (hhash.trans hsha'.symm))
    · rw [AliasClaim.prefixBytes, ha]
      rfl
    · rw [AliasClaim.prefixBytes, ha']
      rfl
  obtain ⟨htld, hpk⟩ := hworld.sized c hc
  obtain ⟨htld', hpk'⟩ := hworld.sized c' hc'
  obtain ⟨halias, hrest⟩ := buildPrefix_inj (validateAlias_length ha) (validateAlias_length ha')
    (by omega) (by omega) (by omega) (by omega) hpre
  rw [ha, ha', halias]
  exact ⟨rfl, hrest⟩

/-- **Quorum soundness and non-transferability.** Behind an accepted claim stand `quorum`
admissible keys that signed its identity in the band; an attestation counts for claims of
one identity only. -/
theorem quorum_sound_and_bound (hworld : Circulation P claims signed) :
    (∀ c ∈ claims, c.timestamp.toNat < 2 ^ 62 →
      ∀ (d : Int) (ids : Option (List Bytes)) (quorum : Nat), verifyFull P c d ids quorum = true →
        ∃ keys : Finset Bytes, quorum ≤ keys.card ∧
          ∀ key ∈ keys, ∃ ts, Witnessed P signed c ids key ts) ∧
    ∀ c ∈ claims, ∀ c' ∈ claims, ∀ (ids ids' : Option (List Bytes)) (w : WitnessAttestation),
      Counted P c ids w → Counted P c' ids' w →
      validateAlias P c.aliasName = validateAlias P c'.aliasName ∧
        (validateAlias P c.aliasName = .ok c.aliasName →
          validateAlias P c'.aliasName = .ok c'.aliasName → c.aliasName = c'.aliasName) ∧
        c.tldID = c'.tldID ∧ c.timestamp = c'.timestamp ∧ c.claimantPK = c'.claimantPK := by
  constructor
  · intro c hc hts d ids quorum haccept
    obtain ⟨_, pre, hpre, _, hquorum⟩ := verifyFull_iff.mp haccept
    have hph : c.prefixHash P = .ok (P.sha256 pre) := prefixHash_eq_ok_iff.mpr ⟨pre, hpre, rfl⟩
    obtain ⟨nodes, hcard, hnodes⟩ := (hasQuorum_iff_counted hph).mp hquorum
    obtain ⟨keys, hkeys, hwitnessed⟩ := hworld.keys_of_nodes hc hts hnodes
    exact ⟨keys, hkeys ▸ hcard, hwitnessed⟩
  · intro c hc c' hc' ids ids' w h h'
    obtain ⟨halias, hrest⟩ := hworld.identity_eq hc hc' h h'
    refine ⟨halias, ?_, hrest⟩
    intro hnormal hnormal'
    rw [hnormal, hnormal'] at halias
    exact Except.ok.inj halias

end

/-! Two claims of `a`, each attested by the five keys of `Toy.quorum`. -/

section Rivals
open Toy

/-- Two claims on one alias. -/
def rivals : List AliasClaim := [minedClaim 1 aliasA 200 quorum, minedClaim 2 aliasA 500 quorum]

/-- The signatures behind a claim's attestations. -/
def issuedOn (c : AliasClaim) : List (Bytes × Bytes × Bytes) :=
  match c.prefixHash mined with
  | .error _ => []
  | .ok ph => c.attestations.filterMap (fun w =>
      (witnessSigningMessage ph w.ts).map (fun msg => (w.nodePK, w.sig, msg)))

theorem rivals_circulation : Circulation mined { c | c ∈ rivals }
    (fun key sig msg => (key, sig, msg) ∈ rivals.flatMap issuedOn) where
  sized := by
    show ∀ c ∈ rivals, _
    decide +kernel
  collisionFree := by
    have hcheck : ∀ c ∈ rivals, ∀ c' ∈ rivals, c.prefixHash mined = c'.prefixHash mined →
        c.prefixBytes mined = c'.prefixBytes mined := by decide +kernel
    intro c hc c' hc' pre pre' hpre hpre' hsha
    have heq := hcheck c hc c' hc' (by
      rw [prefixHash_eq_ok_iff.mpr ⟨pre, hpre, rfl⟩, prefixHash_eq_ok_iff.mpr ⟨pre', hpre', rfl⟩, hsha])
    rw [hpre, hpre'] at heq
    exact Except.ok.inj heq
  unforgeable := by
    have hcheck : ∀ c ∈ rivals, ∀ w ∈ c.attestations, ∀ c' ∈ rivals,
        ∀ ph ∈ (c'.prefixHash mined).toOption, ∀ msg ∈ witnessSigningMessage ph w.ts,
          Crypto.verify mined w.nodePK w.sig msg = true →
            (w.nodePK, w.sig, msg) ∈ rivals.flatMap issuedOn := by decide +kernel
    intro c hc w hw c' hc' ph msg hph hmsg hsig
    exact hcheck c hc w hw c' hc' ph (by rw [hph]; rfl) msg hmsg hsig
  binding := by
    have hcheck : ∀ e ∈ rivals.flatMap issuedOn, ∀ e' ∈ rivals.flatMap issuedOn,
        e.1 = e'.1 → e.2.1 = e'.2.1 → e.2.2 = e'.2.2 := by decide +kernel
    intro key sig msg msg' hmsg hmsg'
    exact hcheck _ hmsg _ hmsg' rfl rfl

theorem rival_witnessed : ∃ keys : Finset Bytes, 5 ≤ keys.card ∧ ∀ key ∈ keys, ∃ ts,
    Witnessed mined (fun key sig msg => (key, sig, msg) ∈ rivals.flatMap issuedOn)
      (minedClaim 1 aliasA 200 quorum) none key ts :=
  (quorum_sound_and_bound rivals_circulation).1 (minedClaim 1 aliasA 200 quorum)
    List.mem_cons_self (by decide) inferDifficulty none 5 (by decide +kernel)

end Rivals

end Freens.Claims
