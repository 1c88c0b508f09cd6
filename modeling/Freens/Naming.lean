/-
**NAMES AND KEYS** (`naming/naming.go`): alias and label validation, the §3.3
wire-name codec (`decodeWireName_eq_ok_iff`, `encodeWireName_eq_ok_iff`), the
reserved aliases and the DHT key derivation.
-/
import Freens.Data
import Freens.Library.Fallible

namespace Freens.Naming

open Library

/-- What a string was validated as; it only selects the error text. -/
inductive Kind where
  | «alias»
  | label
  deriving DecidableEq, Repr

/-- Every error wraps `ErrNaming`; the constructors are its messages. -/
inductive NamingError where
  /-- "%s length must be 1-63 bytes, got %d" -/
  | length (what : Kind) (got : Nat)
  /-- "%s contains characters outside [a-z0-9-]: %q" -/
  | characters (what : Kind) (s : Bytes)
  /-- "%s must not begin or end with '-': %q" -/
  | hyphen (what : Kind) (s : Bytes)
  /-- "%s must not be all-numeric: %q" -/
  | allNumeric (what : Kind) (s : Bytes)
  /-- The error of the IDNA profile, passed through. -/
  | idna
  /-- "tld_id must be 32 bytes, got %d" -/
  | tldIDLength (got : Nat)
  /-- "too many labels: max 8, got %d" -/
  | tooManyLabels (got : Nat)
  /-- "missing 0x00 terminator in wire name" -/
  | missingTerminator
  /-- "bad marker byte 0x%02x (expected 0x01 or 0x00)" -/
  | badMarker (b : UInt8)
  /-- "truncated wire name (missing label length)" -/
  | truncated
  /-- "zero-length label in wire name" -/
  | zeroLengthLabel
  /-- "label length overruns end of wire name" -/
  | labelOverrun
  deriving DecidableEq, Repr

/-! ## Alias and label validation (§3.2) -/

/-- Every byte is below 0x80. -/
def isASCII (s : Bytes) : Bool := s.all (· < 0x80)

/-- The digits `0` to `9`. -/
def isDigit (c : UInt8) : Bool := 0x30 ≤ c && c ≤ 0x39

/-- A nonempty run of digits. -/
def isAllDigits (s : Bytes) : Bool := !s.isEmpty && s.all isDigit

/-- A byte of the LDH alphabet `[a-z0-9-]`. -/
def isLDH (c : UInt8) : Bool := (0x61 ≤ c && c ≤ 0x7a) || isDigit c || c == 0x2d

/-- Letters, digits and inner hyphens, 1 to 63 of them. -/
def checkLDH (s : Bytes) (what : Kind) (allowNumeric : Bool) : Except NamingError Unit :=
  if s.length < 1 ∨ s.length > Constants.maxLabelLen then .error (.length what s.length)
  else if ¬ s.all isLDH then .error (.characters what s)
  else if s.head? = some 0x2d ∨ s.getLast? = some 0x2d then .error (.hyphen what s)
  else if !allowNumeric && isAllDigits s then .error (.allNumeric what s)
  else .ok ()

/-- The UTF-8 encodings of the runes `unicode.IsSpace` accepts. -/
def spaceEncodings : List Bytes :=
  [[0x09], [0x0a], [0x0b], [0x0c], [0x0d], [0x20], [0xc2, 0x85], [0xc2, 0xa0],
   [0xe1, 0x9a, 0x80], [0xe2, 0x80, 0x80], [0xe2, 0x80, 0x81], [0xe2, 0x80, 0x82],
   [0xe2, 0x80, 0x83], [0xe2, 0x80, 0x84], [0xe2, 0x80, 0x85], [0xe2, 0x80, 0x86],
   [0xe2, 0x80, 0x87], [0xe2, 0x80, 0x88], [0xe2, 0x80, 0x89], [0xe2, 0x80, 0x8a],
   [0xe2, 0x80, 0xa8], [0xe2, 0x80, 0xa9], [0xe2, 0x80, 0xaf], [0xe2, 0x81, 0x9f],
   [0xe3, 0x80, 0x80]]

/-- Strip encodings from the front until none matches; `fuel` is the length. -/
def stripLeading (encodings : List Bytes) : Nat → Bytes → Bytes
  | 0, s => s
  | fuel + 1, s =>
    match encodings.find? (·.isPrefixOf s) with
    | none => s
    | some e => stripLeading encodings fuel (s.drop e.length)

/-- `strings.TrimSpace`. No encoding of a space ends inside another rune, so stripping
bytewise is exact. -/
def trimSpace (s : Bytes) : Bytes :=
  let left := stripLeading spaceEncodings s.length s
  (stripLeading (spaceEncodings.map List.reverse) left.length left.reverse).reverse

/-- `A` to `Z` lowered, other bytes kept. -/
def lowerByte (c : UInt8) : UInt8 := if 0x41 ≤ c ∧ c ≤ 0x5a then c + 0x20 else c

section
variable (P : Primitives)

/-- `strings.ToLower`: by byte on ASCII, by rune elsewhere. -/
def toLower (s : Bytes) : Bytes :=
  if isASCII s then s.map lowerByte else P.toLowerUnicode s

/-- `ValidateAlias`: trimmed, normalised, lowered and checked. -/
def validateAlias (s : Bytes) : Except NamingError Bytes := do
  let s := trimSpace s
  let s ← match P.idnaNormalizer with
    | some normalize =>
      -- ASCII aliases skip the IDNA profile
      if isASCII s then pure s
      else match normalize s with
        | some s => pure s
        | none => throw .idna
    | none => pure s
  let s := toLower P s
  checkLDH s .alias false
  return s

/-- Like an alias, but all-numeric is allowed and IDNA is never applied. -/
def validateLabel (s : Bytes) : Except NamingError Bytes := do
  let s := toLower P (trimSpace s)
  checkLDH s .label true
  return s

end

/-! ## Reserved aliases (§7.7) -/

/-- The project's own name, `freens`. -/
def projectReserved (aliasName : Bytes) : Bool := aliasName = [0x66, 0x72, 0x65, 0x65, 0x6e, 0x73]

/-- Not to be claimed: a public TLD of the table, or the project's own name. -/
def isReservedTLD (reservedTLDs : Bytes → Bool) (aliasName : Bytes) : Bool :=
  projectReserved aliasName || reservedTLDs aliasName

/-- On the boundary to public DNS: an entry of the same table. -/
def isPublicTLD (reservedTLDs : Bytes → Bool) (aliasName : Bytes) : Bool := reservedTLDs aliasName

/-! ## The wire-name codec (§3.3) -/

/-- `0x01 ‖ uint8(len) ‖ label`. -/
def labelBytes (l : Bytes) : Bytes :=
  Constants.wireNameLabelMarker :: UInt8.ofNat l.length :: l

/-- Labels TLD-adjacent first, the terminator, the tld_id. -/
def wireImage (labels : List Bytes) (tldID : Bytes) : Bytes :=
  labels.reverse.flatMap labelBytes ++ Constants.wireNameTerminator :: tldID

/-- `EncodeWireName`: the labels, TLD-adjacent first, then the TLD id. -/
def encodeWireName (P : Primitives) (displayLabels : List Bytes) (aliasName tldID : Bytes) :
    Except NamingError Bytes :=
  if tldID.length ≠ Constants.sha256Len then .error (.tldIDLength tldID.length)
  else do
    -- the alias is checked and not encoded: the tld_id stands for it
    let _ ← validateAlias P aliasName
    let labels ← displayLabels.mapM (validateLabel P)
    if labels.length > Constants.maxLabels then .error (.tooManyLabels labels.length)
    else return wireImage labels tldID

/-- The label loop of `DecodeWireName`: the labels and what follows the terminator. -/
def scanLabels : Nat → Bytes → Except NamingError (List Bytes × Bytes)
  | 0, _ => .error .missingTerminator
  | _ + 1, [] => .error .missingTerminator
  | fuel + 1, marker :: rest =>
    if marker = Constants.wireNameTerminator then .ok ([], rest)
    else if marker ≠ Constants.wireNameLabelMarker then .error (.badMarker marker)
    else match rest with
      | [] => .error .truncated
      | length :: rest =>
        if length.toNat = 0 then .error .zeroLengthLabel
        -- nothing else is asked of a label's bytes
        else if rest.length < length.toNat then .error .labelOverrun
        else do
          let (labels, tld) ← scanLabels fuel (rest.drop length.toNat)
          .ok (rest.take length.toNat :: labels, tld)

/-- `DecodeWireName`: at most eight labels and a TLD id. -/
def decodeWireName (wire : Bytes) : Except NamingError (List Bytes × Bytes) := do
  let (tldAdjacentFirst, tldID) ← scanLabels wire.length wire
  if tldAdjacentFirst.length > Constants.maxLabels then
    .error (.tooManyLabels tldAdjacentFirst.length)
  else if tldID.length ≠ Constants.sha256Len then .error (.tldIDLength tldID.length)
  else return (tldAdjacentFirst.reverse, tldID)

/-- **What a wire name may carry**: at most eight labels of 1 to 255 bytes, not validated,
and a 32-byte tld_id. -/
structure Framed (labels : List Bytes) (tldID : Bytes) : Prop where
  label_length : ∀ l ∈ labels, 0 < l.length ∧ l.length < 256
  count : labels.length ≤ 8
  tld_length : tldID.length = 32

variable {tldID l wire s a : Bytes} {labels displayLabels : List Bytes}

theorem Framed.tail (h : Framed (l :: labels) tldID) : Framed labels tldID := by
  have hcount := h.count
  rw [List.length_cons] at hcount
  exact ⟨fun m hm => h.label_length m (List.mem_cons_of_mem l hm), by omega, h.tld_length⟩

theorem scanLabels_sound : ∀ {fuel : Nat} {wire rest : Bytes} {labels : List Bytes},
    scanLabels fuel wire = .ok (labels, rest) →
    wire = labels.flatMap labelBytes ++ Constants.wireNameTerminator :: rest ∧
      ∀ l ∈ labels, 0 < l.length ∧ l.length < 256
  | 0, _, _, _, h => by simp [scanLabels] at h
  | _ + 1, [], _, _, h => by simp [scanLabels] at h
  | fuel + 1, marker :: tail, rest, labels, h => by
    unfold scanLabels at h
    split at h
    next hterm =>
      injection h with h
      injection h with hl hr
      subst hl hr
      exact ⟨by rw [hterm]; rfl, by simp⟩
    next hterm =>
      rw [guard_eq_ok, not_not] at h
      obtain ⟨hmarker, h⟩ := h
      split at h
      next => cases h
      next length tail =>
        simp only [guard_eq_ok, bind_eq_ok, Prod.exists, Except.ok.injEq, Prod.mk.injEq] at h
        obtain ⟨hzero, hover, ls, t, hscan, hlabels, hrest⟩ := h
        -- the recursion is on the fuel, so the rest was read by a smaller call
        obtain ⟨hdrop, hall⟩ := scanLabels_sound hscan
        subst hlabels hrest
        have hlen : (tail.take length.toNat).length = length.toNat := by
          rw [List.length_take]
          omega
        have hbyte : length.toNat < 256 := length.toNat_lt
        refine ⟨?_, ?_⟩
        · -- the read label and the remainder reassemble the tail
          show marker :: length :: tail = _
          rw [hmarker, List.flatMap_cons, labelBytes, hlen, UInt8.ofNat_toNat]
          simp only [List.cons_append, List.append_assoc]
          rw [← hdrop, List.take_append_drop]
        · intro l hl
          rcases List.mem_cons.mp hl with hhead | htail
          · subst hhead
            omega
          · exact hall l htail

theorem scanLabels_complete : ∀ {labels : List Bytes} {fuel : Nat} {rest : Bytes},
    (∀ l ∈ labels, 0 < l.length ∧ l.length < 256) → labels.length < fuel →
    scanLabels fuel (labels.flatMap labelBytes ++ Constants.wireNameTerminator :: rest)
      = .ok (labels, rest)
  | [], fuel + 1, rest, _, _ => by simp [scanLabels]
  | l :: labels, fuel + 1, rest, hall, hfuel => by
    obtain ⟨hpos, hlt⟩ := hall l List.mem_cons_self
    have htoNat : (UInt8.ofNat l.length).toNat = l.length := by
      rw [UInt8.toNat_ofNat']
      exact Nat.mod_eq_of_lt hlt
    -- one round reads this label, the recursion the others
    have ih : scanLabels fuel
        (labels.flatMap labelBytes ++ Constants.wireNameTerminator :: rest) = .ok (labels, rest) :=
      scanLabels_complete (fun m hm => hall m (List.mem_cons_of_mem l hm))
        (Nat.lt_of_succ_lt_succ hfuel)
    simp only [List.flatMap_cons, labelBytes, List.cons_append, List.append_assoc, scanLabels,
      htoNat, List.drop_left, List.take_left, ih, List.length_append]
    rw [if_neg (by decide), if_neg (by decide), if_neg (by omega), if_neg (by omega)]
    rfl

theorem length_le_flatMap_labelBytes (labels : List Bytes) :
    labels.length ≤ (labels.flatMap labelBytes).length := by
  induction labels with
  | nil => simp
  | cons l labels ih =>
    simp only [List.flatMap_cons, labelBytes, List.length_append, List.length_cons]
    omega

/-- **Decoding is exact**: the wire images of framed names, read back. -/
theorem decodeWireName_eq_ok_iff :
    decodeWireName wire = .ok (labels, tldID) ↔
      wire = wireImage labels tldID ∧ Framed labels tldID := by
  have hspec : decodeWireName wire = .ok (labels, tldID) ↔
      ∃ ls, scanLabels wire.length wire = .ok (ls, tldID) ∧ ls.length ≤ 8 ∧
        tldID.length = 32 ∧ ls.reverse = labels := by
    simp only [decodeWireName, bind_eq_ok, guard_eq_ok, pure_eq_ok, Prod.exists, Prod.mk.injEq,
      not_not, Nat.not_lt, gt_iff_lt, ne_eq]
    grind
  rw [hspec]
  constructor
  · intro h
    obtain ⟨ls, hscan, hcount, hlen, hrev⟩ := h
    obtain ⟨himage, hall⟩ := scanLabels_sound hscan
    -- the scan reads the TLD-adjacent label first, names show it last
    subst hrev
    refine ⟨by rw [wireImage, List.reverse_reverse]; exact himage, ?_, ?_, hlen⟩
    · intro l hl
      exact hall l (List.mem_reverse.mp hl)
    · rw [List.length_reverse]
      exact hcount
  · intro h
    obtain ⟨himage, hframed⟩ := h
    refine ⟨labels.reverse, ?_, ?_, hframed.tld_length, List.reverse_reverse labels⟩
    · rw [himage]
      refine scanLabels_complete ?_ ?_
      · intro l hl
        exact hframed.label_length l (List.mem_reverse.mp hl)
      -- every label takes a byte of the input, so its length is enough fuel
      · have := length_le_flatMap_labelBytes labels.reverse
        rw [wireImage, List.length_append, List.length_cons]
        omega
    · rw [List.length_reverse]
      exact hframed.count

theorem decodeWireName_injective {wire' : Bytes} {name : List Bytes × Bytes}
    (h : decodeWireName wire = .ok name) (h' : decodeWireName wire' = .ok name) : wire = wire' := by
  rw [(decodeWireName_eq_ok_iff.mp h).1, (decodeWireName_eq_ok_iff.mp h').1]

variable {allowNumeric : Bool} {what : Kind} {aliasName : Bytes}

theorem checkLDH_length
    (h : checkLDH s what allowNumeric = .ok ()) : 0 < s.length ∧ s.length ≤ 63 := by
  unfold checkLDH at h
  rw [guard_eq_ok] at h
  have hlen := h.1
  simp only [Constants.maxLabelLen] at hlen
  omega

theorem validateLabel_length {P : Primitives} (h : validateLabel P s = .ok l) :
    0 < l.length ∧ l.length < 256 := by
  simp only [validateLabel, bind_eq_ok, pure_eq_ok] at h
  obtain ⟨_, hcheck, hl⟩ := h
  have := checkLDH_length hcheck
  rw [hl] at this
  omega

/-- **Encoding is exact**: a 32-byte tld_id, a valid alias and at most eight valid labels. -/
theorem encodeWireName_eq_ok_iff {P : Primitives} :
    encodeWireName P displayLabels aliasName tldID = .ok wire ↔
      tldID.length = 32 ∧ (∃ a, validateAlias P aliasName = .ok a) ∧
      ∃ labels, displayLabels.mapM (validateLabel P) = .ok labels ∧ labels.length ≤ 8 ∧
        wire = wireImage labels tldID := by
  simp only [encodeWireName, guard_eq_ok, bind_eq_ok, pure_eq_ok, not_not, Nat.not_lt,
    gt_iff_lt, ne_eq]
  grind

theorem framed_of_mapM {P : Primitives}
    (hlabels : displayLabels.mapM (validateLabel P) = .ok labels) (hcount : labels.length ≤ 8)
    (htld : tldID.length = 32) : Framed labels tldID := by
  refine ⟨?_, hcount, htld⟩
  intro l hl
  obtain ⟨_, _, hvalid⟩ := exists_of_mem_mapM hlabels hl
  exact validateLabel_length hvalid

theorem decodeWireName_encodeWireName {P : Primitives}
    (h : encodeWireName P displayLabels aliasName tldID = .ok wire) :
    ∃ labels, displayLabels.mapM (validateLabel P) = .ok labels ∧
      decodeWireName wire = .ok (labels, tldID) := by
  obtain ⟨htld, _, labels, hlabels, hcount, hwire⟩ := encodeWireName_eq_ok_iff.mp h
  exact ⟨labels, hlabels,
    decodeWireName_eq_ok_iff.mpr ⟨hwire, framed_of_mapM hlabels hcount htld⟩⟩

/-! ## DHT keys -/

/-- `SHA-256(0x02 ‖ wire_name)`. -/
def dhtKeyName (P : Primitives) (wireName : Bytes) : Bytes :=
  P.sha256 (Constants.dhtKeyPrefixName :: wireName)

/-- The bytes of `"claim:"`. -/
def claimTag : Bytes := [0x63, 0x6c, 0x61, 0x69, 0x6d, 0x3a]

/-- `SHA-256(0x03 ‖ "claim:" ‖ alias)` of the validated alias. -/
def dhtKeyClaim (P : Primitives) (aliasName : Bytes) : Except NamingError Bytes := do
  let a ← validateAlias P aliasName
  return P.sha256 (Constants.dhtKeyPrefixClaim :: claimTag ++ a)

/-! ## Normal forms of aliases and labels -/

theorem stripLeading_eq_self {encodings : List Bytes} (h : ∀ e ∈ encodings, e.isPrefixOf s = false)
    (fuel : Nat) : stripLeading encodings fuel s = s := by
  cases fuel with
  | zero => rfl
  | succ fuel =>
    have hnone : encodings.find? (fun e => e.isPrefixOf s) = none := by
      rw [List.find?_eq_none]
      intro e he
      rw [h e he]
      simp
    rw [stripLeading, hnone]

theorem isPrefixOf_of_isLDH {e : Bytes} (he : e.head?.any (fun b => !isLDH b) = true)
    (hs : s.all isLDH = true) : e.isPrefixOf s = false := by
  cases e with
  | nil => cases he
  | cons b e =>
    cases s with
    | nil => rfl
    | cons c s =>
      have hb : isLDH b = false := by simpa using he
      rw [List.all_cons, Bool.and_eq_true] at hs
      have hne : (b == c) = false := by
        rw [beq_eq_false_iff_ne]
        intro heq
        rw [heq, hs.1] at hb
        cases hb
      rw [List.isPrefixOf_cons_cons, hne, Bool.false_and]

theorem trimSpace_of_isLDH (hs : s.all isLDH = true) : trimSpace s = s := by
  have hfront : ∀ e ∈ spaceEncodings, e.head?.any (fun b => !isLDH b) = true := by decide
  have hback : ∀ e ∈ spaceEncodings.map List.reverse, e.head?.any (fun b => !isLDH b) = true := by
    decide
  have hrev : s.reverse.all isLDH = true := by rwa [List.all_reverse]
  unfold trimSpace
  rw [stripLeading_eq_self (fun e he => isPrefixOf_of_isLDH (hfront e he) hs)]
  show (stripLeading (spaceEncodings.map List.reverse) s.length s.reverse).reverse = s
  rw [stripLeading_eq_self (fun e he => isPrefixOf_of_isLDH (hback e he) hrev),
    List.reverse_reverse]

theorem isASCII_of_isLDH (hs : s.all isLDH = true) : isASCII s = true := by
  unfold isASCII
  rw [List.all_eq_true] at *
  intro c hc
  have := hs c hc
  simp only [isLDH, isDigit, Bool.or_eq_true, Bool.and_eq_true, decide_eq_true_eq, beq_iff_eq] at this ⊢
  grind

theorem toLower_of_isLDH {P : Primitives} (hs : s.all isLDH = true) : toLower P s = s := by
  unfold toLower
  rw [if_pos (isASCII_of_isLDH hs)]
  have hfix : ∀ c ∈ s, lowerByte c = c := by
    intro c hc
    have hldh := List.all_eq_true.mp hs c hc
    simp only [isLDH, isDigit, Bool.or_eq_true, Bool.and_eq_true, decide_eq_true_eq,
      beq_iff_eq] at hldh
    unfold lowerByte
    rw [if_neg (by grind)]
  rw [List.map_congr_left hfix, List.map_id']

theorem checkLDH_eq_ok : checkLDH s .alias false = .ok () ↔
    s ≠ [] ∧ s.length ≤ 63 ∧ s.all isLDH = true ∧ s.head? ≠ some 0x2d ∧ s.getLast? ≠ some 0x2d ∧
      isAllDigits s = false := by
  unfold checkLDH
  rw [guard_eq_ok, guard_eq_ok, guard_eq_ok, guard_eq_ok]
  have hlen : s ≠ [] ↔ 1 ≤ s.length := by rw [← List.length_pos_iff]; rfl
  simp only [hlen, not_or, not_lt, Bool.not_false, Bool.true_and, Bool.not_eq_true,
    and_true, and_assoc, Bool.not_eq_false, ne_eq]

theorem checkLDH_isLDH (h : checkLDH s what allowNumeric = .ok ()) : s.all isLDH = true := by
  unfold checkLDH at h
  rw [guard_eq_ok, guard_eq_ok] at h
  simpa using h.2.1

section
variable {P : Primitives}

theorem checkLDH_of_validateAlias (h : validateAlias P s = .ok a) :
    checkLDH a .alias false = .ok () := by
  -- whatever string the normaliser leaves, it is lowered, checked and returned
  have htail : ∀ {x : Except NamingError Bytes}, (do
      let s ← x
      checkLDH (toLower P s) .alias false
      return toLower P s) = .ok a → checkLDH a .alias false = .ok () := by
    intro x hx
    simp only [bind_eq_ok, pure_eq_ok] at hx
    obtain ⟨s', _, _, hcheck, ha⟩ := hx
    rw [ha] at hcheck
    exact hcheck
  simp only [validateAlias] at h
  split at h
  next =>
    split at h
    next => exact htail h
    split at h
    next => exact htail h
    next => exact htail h
  next => exact htail h

theorem validateAlias_of_isLDH (hldh : s.all isLDH = true) :
    validateAlias P s = (do
      checkLDH s .alias false
      return s) := by
  simp only [validateAlias]
  rw [trimSpace_of_isLDH hldh]
  cases P.idnaNormalizer with
  | none =>
    show (do checkLDH (toLower P s) .alias false; return toLower P s) = _
    rw [toLower_of_isLDH hldh]
  | some normalize =>
    show (if isASCII s = true then _ else _) = _
    rw [if_pos (isASCII_of_isLDH hldh)]
    show (do checkLDH (toLower P s) .alias false; return toLower P s) = _
    rw [toLower_of_isLDH hldh]

theorem validateAlias_of_checkLDH
    (hcheck : checkLDH a .alias false = .ok ()) : validateAlias P a = .ok a := by
  rw [validateAlias_of_isLDH (checkLDH_isLDH hcheck), hcheck]
  rfl

theorem validateAlias_idem (h : validateAlias P s = .ok a) :
    validateAlias P a = .ok a :=
  validateAlias_of_checkLDH (checkLDH_of_validateAlias h)

theorem validateLabel_idem (h : validateLabel P s = .ok l) :
    validateLabel P l = .ok l := by
  simp only [validateLabel, bind_eq_ok, pure_eq_ok] at h
  obtain ⟨_, hcheck, hl⟩ := h
  rw [hl] at hcheck
  have hldh := checkLDH_isLDH hcheck
  simp only [validateLabel]
  rw [trimSpace_of_isLDH hldh, toLower_of_isLDH hldh, hcheck]
  rfl

end

end Freens.Naming
