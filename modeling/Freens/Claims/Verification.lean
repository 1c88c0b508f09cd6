/-
**VERIFYING AND ORDERING CLAIMS** (`claims/claims.go`, `crypto/crypto.go`,
§7.3-§7.4): the proof-of-work prefix, witness attestations, the corroborating
quorum, fresh re-attestations, and the order in which competing claims win.

The maps the source keys by the hexadecimal form of a node id are keyed by the
id. `PoWDifficultyInit` is the production value.
-/
import Freens.Claims
import Freens.Library.Quorum
import Freens.Library.Selection

namespace Freens.Claims

open Library Naming

/-! ## Encodings -/

/-- The canonical encoding of an attestation. -/
def WitnessAttestation.canonicalBytes (w : WitnessAttestation) : Bytes :=
  Cbor.map [(1, Cbor.bstr w.nodeID), (2, Cbor.bstr w.nodePK), (3, Cbor.uint w.ts),
    (4, Cbor.bstr w.sig)]

/-- The witnesses of a claim. A claim that was decoded has no nil ones. -/
def AliasClaim.attestations (c : AliasClaim) : List WitnessAttestation := c.witnesses.filterMap id

/-- The canonical encoding of a claim. -/
def AliasClaim.canonicalBytes (c : AliasClaim) : Bytes :=
  Cbor.map [(1, Cbor.tstr c.aliasName), (2, Cbor.bstr c.tldID), (3, Cbor.uint c.timestamp),
    (4, Cbor.bstr c.nonce), (5, Cbor.bstr c.claimantPK), (6, Cbor.bstr c.powHash),
    (7, Cbor.array (c.attestations.map WitnessAttestation.canonicalBytes))]

/-- The identity fields. Field 4, the nonce, is left out. -/
def buildPrefix (aliasName tldID : Bytes) (ts : UInt64) (claimantPK : Bytes) : Bytes :=
  Cbor.map [(1, Cbor.tstr aliasName), (2, Cbor.bstr tldID), (3, Cbor.uint ts),
    (5, Cbor.bstr claimantPK)]

/-- The bytes of `"freens-witness-v2"`. -/
def witnessSigningTag : Bytes :=
  [0x66, 0x72, 0x65, 0x65, 0x6e, 0x73, 0x2d, 0x77, 0x69, 0x74, 0x6e, 0x65, 0x73, 0x73, 0x2d,
   0x76, 0x32]

/-- Tag, prefix hash, big-endian time; `none` when the hash has the wrong
length. -/
def witnessSigningMessage (claimPrefixHash : Bytes) (ts : UInt64) : Option Bytes :=
  if claimPrefixHash.length ≠ Constants.sha256Len then none
  else some (witnessSigningTag ++ claimPrefixHash ++ bigEndian 8 ts.toNat)

/-! ## Proof of work -/

/-- `bits.Len8`. -/
def bitLenU8 (b : UInt8) : Nat := if b = 0 then 0 else Nat.log2 b.toNat + 1

/-- The zero bits in front. -/
def leadingZeroBits : Bytes → Nat
  | [] => 0
  | b :: rest => if b = 0 then 8 + leadingZeroBits rest else 8 - bitLenU8 b

/-- Enough zero bits in front. -/
def meetsDifficulty (digest : Bytes) (difficultyBits : Int) : Bool :=
  (leadingZeroBits digest : Int) ≥ difficultyBits

/-- The difficulty recorded in the nonce, unless it is below the baseline. -/
def inferDifficultyOf (c : AliasClaim) : Nat :=
  match c.nonce with
  | [] => Constants.powDifficultyInit
  | b :: _ =>
    if b.toNat ≥ Constants.powDifficultyInit then b.toNat else Constants.powDifficultyInit

/-- `InferDifficulty`, the argument that asks for the inference. -/
abbrev inferDifficulty : Int := -1

/-- A negative difficulty means the one the claim names. -/
def difficultyFor (c : AliasClaim) (difficultyBits : Int) : Int :=
  if difficultyBits < 0 then inferDifficultyOf c else difficultyBits

section
variable (P : Primitives)

/-- `AliasClaim.Prefix`: the alias is normalised once more. -/
def AliasClaim.prefixBytes (c : AliasClaim) : Except NamingError Bytes := do
  let a ← validateAlias P c.aliasName
  return buildPrefix a c.tldID c.timestamp c.claimantPK

/-- `PrefixHash`: what the witnesses sign. -/
def AliasClaim.prefixHash (c : AliasClaim) : Except NamingError Bytes := do
  let pre ← c.prefixBytes P
  return P.sha256 pre

/-- The hash is recomputed, never trusted. -/
def AliasClaim.verifyPoWFromPrefix (c : AliasClaim) (pre : Bytes) (d : Int) : Bool :=
  if P.sha256 (pre ++ c.nonce) ≠ c.powHash then false
  else meetsDifficulty (P.sha256 (pre ++ c.nonce)) d

/-- `VerifyPoW`: the prefix, the recomputed hash and its difficulty. -/
def AliasClaim.verifyPoW (c : AliasClaim) (difficultyBits : Int) : Bool :=
  match c.prefixBytes P with
  | .error _ => false
  | .ok pre => c.verifyPoWFromPrefix P pre (difficultyFor c difficultyBits)

/-- The tld_id certifies the claimant key. -/
def AliasClaim.verifyClaimantConsistency (c : AliasClaim) : Bool :=
  match Crypto.tldID P c.claimantPK with
  | none => false
  | some got => got = c.tldID

/-! ## Witnesses -/

/-- The node id certifies the key, and the key signed this identity at the
attestation's time. -/
def WitnessAttestation.verify (w : WitnessAttestation) (claimPrefixHash : Bytes) : Bool :=
  match Crypto.tldID P w.nodePK with
  | none => false
  | some nid =>
    if nid ≠ w.nodeID then false
    else match witnessSigningMessage claimPrefixHash w.ts with
      | none => false
      | some msg => Crypto.verify P w.nodePK w.sig msg

/-- `NewWitnessAttestation`: the prefix hash and time, signed. -/
def newWitnessAttestation (nodeKP : Crypto.Keypair) (ts : UInt64) (claimPrefixHash : Bytes) :
    Option WitnessAttestation :=
  match Crypto.tldID P (nodeKP.publicKey P), witnessSigningMessage claimPrefixHash ts with
  | some nodeID, some msg =>
    some { nodeID, nodePK := nodeKP.publicKey P, ts, sig := nodeKP.sign P msg }
  | _, _ => none

abbrev maxWitnessEvaluations : Nat := 2 * Constants.witnessSet

/-- The first attestation of every node; `seen` are the nodes met before. -/
def firstPerNode : (atts : List WitnessAttestation) → (seen : List Bytes) → List WitnessAttestation
  | [], _ => []
  | w :: atts, seen =>
    if seen.any (· = w.nodeID) then firstPerNode atts seen
    else w :: firstPerNode atts (w.nodeID :: seen)

/-- Of the first sixteen nodes, those whose attestation verifies. -/
def AliasClaim.validWitnessesFromPrefixHash (c : AliasClaim) (prefixHash : Bytes) :
    List WitnessAttestation :=
  ((firstPerNode c.attestations []).take maxWitnessEvaluations).filter (·.verify P prefixHash)

/-- Those dated inside the band around the claim's own time. -/
def AliasClaim.corroboratingWitnessesFromPrefixHash (c : AliasClaim) (prefixHash : Bytes) :
    List WitnessAttestation :=
  let lo := wrap64 (int64 c.timestamp - Constants.skewTolerance)
  let hi := wrap64 (wrap64 (int64 c.timestamp + Constants.witnessPresentWindow)
    + Constants.skewTolerance)
  (c.validWitnessesFromPrefixHash P prefixHash).filter
    (fun w => lo ≤ int64 w.ts && int64 w.ts ≤ hi)

/-- Membership in the witness set; nil leaves membership unenforced. -/
def inWitnessSet (witnessSetIDs : Option (List Bytes)) (id : Bytes) : Bool :=
  witnessSetIDs.all (·.any (· = id))

/-- The distinct nodes among the attestations that count toward a quorum. -/
def distinctNodes (witnessSetIDs : Option (List Bytes)) (atts : List WitnessAttestation) : Nat :=
  countDistinct (inWitnessSet witnessSetIDs) (atts.map (·.nodeID)) []

/-- Enough distinct nodes attest to the prefix. -/
def AliasClaim.hasQuorumFromPrefixHash (c : AliasClaim) (prefixHash : Bytes)
    (witnessSetIDs : Option (List Bytes)) (quorum : Nat) : Bool :=
  quorum ≤ distinctNodes witnessSetIDs (c.corroboratingWitnessesFromPrefixHash P prefixHash)

/-- `VerifyFull`: consistency, proof of work, then the quorum. -/
def verifyFull (c : AliasClaim) (difficultyBits : Int) (witnessSetIDs : Option (List Bytes))
    (quorum : Nat) : Bool :=
  if !c.verifyClaimantConsistency P then false
  else match c.prefixBytes P with
    | .error _ => false
    | .ok pre =>
      if !c.verifyPoWFromPrefix P pre (difficultyFor c difficultyBits) then false
      else c.hasQuorumFromPrefixHash P (P.sha256 pre) witnessSetIDs quorum

/-- The loop of `FreshAttestations`: the nodes accepted and the signatures checked before. -/
def freshLoop (prefixHash : Bytes) (lo hi : Int) :
    (atts : List WitnessAttestation) → (seen : List Bytes) → (evaluated : Nat) →
    List WitnessAttestation
  | [], _, _ => []
  | w :: atts, seen, evaluated =>
    if seen.any (· = w.nodeID) then freshLoop prefixHash lo hi atts seen evaluated
    else if evaluated ≥ maxWitnessEvaluations then []
    -- an attestation that fails still uses up an evaluation
    else if !w.verify P prefixHash then freshLoop prefixHash lo hi atts seen (evaluated + 1)
    else if lo ≤ int64 w.ts ∧ int64 w.ts ≤ hi then
      w :: freshLoop prefixHash lo hi atts (w.nodeID :: seen) (evaluated + 1)
    else freshLoop prefixHash lo hi atts seen (evaluated + 1)

/-- `FreshAttestations` (§8.3). -/
def freshAttestations (atts : List WitnessAttestation) (prefixHash : Bytes)
    (now freshWindow : Int) : List WitnessAttestation :=
  freshLoop P prefixHash (wrap64 (now - freshWindow)) (wrap64 (now + Constants.skewTolerance))
    atts [] 0

/-- Enough distinct nodes attested within the window. -/
def hasFreshQuorum (atts : List WitnessAttestation) (prefixHash : Bytes) (now freshWindow : Int)
    (witnessSetIDs : Option (List Bytes)) (quorum : Nat) : Bool :=
  quorum ≤ distinctNodes witnessSetIDs (freshAttestations P atts prefixHash now freshWindow)

end

/-! ## The order of claims -/

/-- Earlier time, then lower proof-of-work hash, then lower tld_id. -/
def lessOrderKey (a b : AliasClaim) : Bool :=
  if a.timestamp ≠ b.timestamp then a.timestamp < b.timestamp
  else if a.powHash ≠ b.powHash then a.powHash < b.powHash
  else a.tldID < b.tldID

section
variable (P : Primitives)

/-- The two checks made without witnesses. -/
def structurallyAndPoWValid (c : AliasClaim) : Bool :=
  c.verifyClaimantConsistency P && c.verifyPoW P inferDifficulty

/-- `SelectWinner`: the best valid claim by the order key. -/
def selectWinner (claims : List AliasClaim) : Option AliasClaim :=
  claims.foldl (fun best c =>
    if !structurallyAndPoWValid P c then best else challenge lessOrderKey best c) none

/-- The valid claims, best first. -/
def orderClaims (claims : List AliasClaim) : List AliasClaim :=
  (claims.filter (structurallyAndPoWValid P)).insertionSort (fun a b => lessOrderKey b a = false)

end

/-! ## What the checks decide -/

variable {P : Primitives}
  {c a b : AliasClaim} {ph : Bytes} {ids : Option (List Bytes)} {quorum : Nat} {d : Int}

theorem prefixHash_eq_ok_iff :
    c.prefixHash P = .ok ph ↔ ∃ pre, c.prefixBytes P = .ok pre ∧ P.sha256 pre = ph := by
  simp only [AliasClaim.prefixHash, bind_eq_ok, pure_eq_ok]

theorem inWitnessSet_iff {id : Bytes} :
    inWitnessSet ids id = true ↔ ∀ set, ids = some set → id ∈ set := by
  cases ids with
  | none | some set => simp [inWitnessSet]

theorem verifyFull_iff :
    verifyFull P c d ids quorum = true ↔
      c.verifyClaimantConsistency P = true ∧ ∃ pre, c.prefixBytes P = .ok pre ∧
        c.verifyPoWFromPrefix P pre (difficultyFor c d) = true ∧
        c.hasQuorumFromPrefixHash P (P.sha256 pre) ids quorum = true := by
  unfold verifyFull
  cases hc : c.verifyClaimantConsistency P with
  | false => simp
  | true =>
    cases hpre : c.prefixBytes P with
    | error e => simp
    | ok pre =>
      cases hpow : c.verifyPoWFromPrefix P pre (difficultyFor c d) with
      | false | true => simp [hpow]

theorem meetsDifficulty_mono {digest : Bytes} {d' : Int} (hle : d ≤ d')
    (h : meetsDifficulty digest d' = true) : meetsDifficulty digest d = true := by
  unfold meetsDifficulty at *
  rw [decide_eq_true_eq] at *
  omega

theorem structurallyAndPoWValid_of_verifyFull (hd : (inferDifficultyOf c : Int) ≤ difficultyFor c d)
    (h : verifyFull P c d ids quorum = true) : structurallyAndPoWValid P c = true := by
  obtain ⟨hclaimant, pre, hpre, hpow, _⟩ := verifyFull_iff.mp h
  unfold AliasClaim.verifyPoWFromPrefix at hpow
  split at hpow
  next => cases hpow
  next hhash =>
    have hinfer : difficultyFor c inferDifficulty = inferDifficultyOf c := by
      simp [difficultyFor]
    rw [structurallyAndPoWValid, hclaimant, Bool.true_and, AliasClaim.verifyPoW, hpre]
    show c.verifyPoWFromPrefix P pre _ = true
    rw [AliasClaim.verifyPoWFromPrefix, if_neg hhash, hinfer]
    exact meetsDifficulty_mono hd hpow

theorem mem_freshLoop {lo hi : Int} {w : WitnessAttestation} {atts : List WitnessAttestation}
    {seen : List Bytes} {evaluated : Nat} (h : w ∈ freshLoop P ph lo hi atts seen evaluated) :
    w ∈ atts ∧ w.verify P ph = true ∧ lo ≤ int64 w.ts ∧ int64 w.ts ≤ hi := by
  induction atts generalizing seen evaluated with
  | nil => exact absurd h (by simp [freshLoop])
  | cons x atts ih =>
    -- every branch but one hands on what the rest of the loop accepts
    have hrest : ∀ {seen : List Bytes} {evaluated : Nat},
        w ∈ freshLoop P ph lo hi atts seen evaluated →
        w ∈ x :: atts ∧ w.verify P ph = true ∧ lo ≤ int64 w.ts ∧ int64 w.ts ≤ hi := by
      intro seen evaluated h
      obtain ⟨hmem, hfresh⟩ := ih h
      exact ⟨List.mem_cons_of_mem x hmem, hfresh⟩
    unfold freshLoop at h
    split at h
    next => exact hrest h
    split at h
    next => cases h
    split at h
    next => exact hrest h
    next hverify =>
      split at h
      next hwindow =>
        rcases List.mem_cons.mp h with heq | hmem
        · subst heq
          exact ⟨List.mem_cons_self, by simpa using hverify, hwindow⟩
        · exact hrest hmem
      next => exact hrest h

/-- **A fresh quorum** at `now`: that many admissible nodes attested the identity inside the
window. -/
def FreshQuorum (P : Primitives) (atts : List WitnessAttestation) (ph : Bytes) (lo hi : Int)
    (ids : Option (List Bytes)) (quorum : Nat) : Prop :=
  ∃ nodes : Finset Bytes, quorum ≤ nodes.card ∧ ∀ id ∈ nodes,
    (∃ w ∈ atts, w.nodeID = id ∧ w.verify P ph = true ∧ lo ≤ int64 w.ts ∧ int64 w.ts ≤ hi) ∧
      ∀ set, ids = some set → id ∈ set

theorem freshQuorum_of_hasFreshQuorum {atts : List WitnessAttestation} {now window : Int}
    (h : hasFreshQuorum P atts ph now window ids quorum = true) :
    FreshQuorum P atts ph (wrap64 (now - window)) (wrap64 (now + 60)) ids quorum := by
  unfold hasFreshQuorum distinctNodes at h
  rw [decide_eq_true_eq, le_countDistinct_iff] at h
  obtain ⟨nodes, hnodes, hcard⟩ := h
  refine ⟨nodes, hcard, ?_⟩
  intro id hid
  obtain ⟨hmem, hset⟩ := hnodes id hid
  obtain ⟨w, hw, hnode⟩ := List.mem_map.mp hmem
  obtain ⟨hatt, hverify, hlo, hhi⟩ := mem_freshLoop hw
  exact ⟨⟨w, hatt, hnode, hverify, hlo, hhi⟩, inWitnessSet_iff.mp hset⟩

/-! ## The winner -/

/-- Timestamp, then hash, then TLD id. -/
def AliasClaim.orderKey (c : AliasClaim) : UInt64 × Bytes × Bytes := (c.timestamp, c.powHash, c.tldID)

theorem lessOrderKey_iff :
    lessOrderKey a b = true ↔ a.timestamp < b.timestamp ∨ (a.timestamp = b.timestamp ∧
      (a.powHash < b.powHash ∨ (a.powHash = b.powHash ∧ a.tldID < b.tldID))) := by
  unfold lessOrderKey
  split
  next hts =>
    rw [decide_eq_true_eq]
    constructor
    · intro h
      exact .inl h
    · intro h
      rcases h with h | ⟨heq, _⟩
      · exact h
      · exact absurd heq hts
  next hts =>
    rw [not_not] at hts
    have hirrefl : ¬ a.timestamp < b.timestamp := by
      rw [hts]
      exact UInt64.lt_irrefl _
    split
    next hpow => grind
    next hpow =>
      rw [not_not] at hpow
      rw [hpow]
      grind

theorem lessOrderKey_irrefl (a : AliasClaim) : lessOrderKey a a = false := by
  rw [Bool.eq_false_iff, ne_eq, lessOrderKey_iff]
  grind

theorem lessOrderKey_trans (a b c : AliasClaim) (hab : lessOrderKey a b = true)
    (hbc : lessOrderKey b c = true) : lessOrderKey a c = true := by
  rw [lessOrderKey_iff] at *
  grind

theorem lessOrderKey_negTrans (hba : lessOrderKey b a = false)
    (hcb : lessOrderKey c b = false) : lessOrderKey c a = false := by
  rw [Bool.eq_false_iff, ne_eq, lessOrderKey_iff] at *
  grind

theorem lessOrderKey_asymm (h : lessOrderKey a b = true) : lessOrderKey b a = false := by
  rw [Bool.eq_false_iff]
  intro hback
  have hloop := lessOrderKey_trans _ _ _ h hback
  rw [lessOrderKey_irrefl] at hloop
  cases hloop

theorem orderKey_eq_of_not_less (hab : lessOrderKey a b = false)
    (hba : lessOrderKey b a = false) : a.orderKey = b.orderKey := by
  rw [Bool.eq_false_iff, ne_eq, lessOrderKey_iff] at hab hba
  unfold AliasClaim.orderKey
  grind

theorem timestamp_le_of_not_less (h : lessOrderKey b a = false) : a.timestamp ≤ b.timestamp := by
  rw [Bool.eq_false_iff, ne_eq, lessOrderKey_iff] at h
  grind

theorem selectWinner_orderClaims {claims : List AliasClaim}
    (hvalid : ∀ c ∈ claims, structurallyAndPoWValid P c = true) :
    (claims = [] ∧ selectWinner P (orderClaims P claims) = none) ∨
      ∃ c, selectWinner P (orderClaims P claims) = some c ∧ Unbeaten lessOrderKey claims c := by
  have hfilter : claims.filter (structurallyAndPoWValid P) = claims :=
    List.filter_eq_self.mpr hvalid
  have hmem : ∀ c, c ∈ orderClaims P claims ↔ c ∈ claims := by
    intro c
    rw [orderClaims, hfilter, List.mem_insertionSort]
  have hfold : selectWinner P (orderClaims P claims) =
      (orderClaims P claims).foldl (challenge lessOrderKey) none := by
    unfold selectWinner
    refine List.foldl_ext _ _ none ?_
    intro best c hc
    rw [hvalid c ((hmem c).mp hc)]
    rfl
  rw [hfold]
  rcases foldl_challenge lessOrderKey_irrefl lessOrderKey_trans (orderClaims P claims) with
    ⟨hnil, hnone⟩ | ⟨c, hc, hbest⟩
  · left
    refine ⟨List.eq_nil_iff_forall_not_mem.mpr ?_, hnone⟩
    intro c hc
    have := (hmem c).mpr hc
    rw [hnil] at this
    exact absurd this List.not_mem_nil
  · right
    refine ⟨c, hc, (hmem c).mp hbest.mem, ?_⟩
    intro b hb
    exact hbest.top b ((hmem b).mpr hb)

end Freens.Claims
