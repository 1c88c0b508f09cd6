/-
**LABELS, ESCAPES AND DOTS** (`resolver/dnsname.go`: `unescapeName`;
`naming/naming.go`: `DecomposeName`).

`unescapeName` undoes the escapes of the presentation form before `DecomposeName`
splits at the dots, so the dots of a label and the dots between labels can no
longer be told apart.
-/
import Freens.Resolver.Routing
import Freens.Toy

namespace Freens.Resolver

open Library Naming

/-! ## The presentation form -/

/-- The bytes written with a backslash: the dot and the backslash among them, no digit. -/
structure Escaping where
  quoted : UInt8 → Bool
  dot : quoted 0x2e = true
  backslash : quoted 0x5c = true
  digit : ∀ c, isDigit c = true → quoted c = false

/-- The ASCII digit. -/
def digitByte (n : Nat) : UInt8 := UInt8.ofNat (0x30 + n)

namespace Escaping

variable (E : Escaping)

/-- One byte of a label: quoted, as three decimal digits, or itself. -/
def byte (b : UInt8) : Bytes :=
  if E.quoted b then [0x5c, b]
  else if b < 0x20 ∨ 0x7e < b then
    [0x5c, digitByte (b.toNat / 100), digitByte (b.toNat / 10 % 10), digitByte (b.toNat % 10)]
  else [b]

/-- A label as the DNS library prints it. -/
def label (l : Bytes) : Bytes := l.flatMap E.byte

/-- The presentation form of a name, fully qualified; the root is a dot. -/
def name : List Bytes → Bytes
  | [] => [0x2e]
  | labels => labels.flatMap (fun l => E.label l ++ [0x2e])

end Escaping

/-- Labels with a dot after each. -/
def dotted (labels : List Bytes) : Bytes := labels.flatMap (fun l => l ++ [0x2e])

variable {E : Escaping} {b : UInt8} {n fuel : Nat} {s aliasName a : Bytes} {ls : List Bytes}
  {parsed : List Bytes × Bytes}

theorem unescapeName_plain (hb : b ≠ 0x5c) (rest : Bytes) :
    unescapeName (b :: rest) = b :: unescapeName rest := by
  rw [unescapeName.eq_def]
  dsimp only
  rw [if_pos hb]

theorem unescapeName_quoted (hb : isDigit b = false) (rest : Bytes) :
    unescapeName (0x5c :: b :: rest) = b :: unescapeName rest := by
  -- three bytes after the backslash are read as digits if they are some
  cases rest with
  | nil => simp [unescapeName]
  | cons c rest =>
    cases rest with
    | nil => simp [unescapeName]
    | cons d rest => simp [unescapeName, hb]

theorem isDigit_digitByte (hn : n < 10) : isDigit (digitByte n) = true := by
  interval_cases n <;> rfl

theorem digitByte_toNat (hn : n < 10) : (digitByte n).toNat - 0x30 = n := by
  interval_cases n <;> rfl

theorem unescapeName_decimal (b : UInt8) (rest : Bytes) :
    unescapeName (0x5c :: digitByte (b.toNat / 100) :: digitByte (b.toNat / 10 % 10) ::
      digitByte (b.toNat % 10) :: rest) = b :: unescapeName rest := by
  have hlt : b.toNat < 256 := b.toNat_lt
  have hhundreds : b.toNat / 100 < 10 := by omega
  have htens : b.toNat / 10 % 10 < 10 := by omega
  have hones : b.toNat % 10 < 10 := by omega
  have hvalue : b.toNat / 100 * 100 + b.toNat / 10 % 10 * 10 + b.toNat % 10 = b.toNat := by omega
  rw [unescapeName]
  simp only [digitByte_toNat hhundreds, digitByte_toNat htens, digitByte_toNat hones, hvalue,
    isDigit_digitByte hhundreds, isDigit_digitByte htens, isDigit_digitByte hones, Bool.and_true,
    Bool.true_and, UInt8.ofNat_toNat, ne_eq, not_true_eq_false, if_false, decide_eq_true_eq]
  rw [if_pos (by omega)]

theorem unescapeName_byte (b : UInt8) (rest : Bytes) :
    unescapeName (E.byte b ++ rest) = b :: unescapeName rest := by
  unfold Escaping.byte
  by_cases hquoted : E.quoted b = true
  · rw [if_pos hquoted]
    apply unescapeName_quoted
    by_contra hdigit
    rw [E.digit b (by simpa using hdigit)] at hquoted
    cases hquoted
  · rw [if_neg hquoted]
    split
    · exact unescapeName_decimal b rest
    · apply unescapeName_plain
      rintro rfl
      exact hquoted E.backslash

theorem unescapeName_label (l rest : Bytes) :
    unescapeName (E.label l ++ rest) = l ++ unescapeName rest := by
  induction l with
  | nil => rfl
  | cons b l ih =>
    show unescapeName ((E.byte b ++ E.label l) ++ rest) = b :: (l ++ unescapeName rest)
    rw [List.append_assoc, unescapeName_byte, ih]

variable {labels wire : List Bytes} {l : Bytes}

theorem unescapeName_name (h : labels ≠ []) : unescapeName (E.name labels) = dotted labels := by
  have hall : ∀ ls : List Bytes,
      unescapeName (ls.flatMap (fun l => E.label l ++ [0x2e])) = dotted ls := by
    intro ls
    induction ls with
    | nil => rfl
    | cons l ls ih =>
      show unescapeName ((E.label l ++ [0x2e]) ++ ls.flatMap (fun l => E.label l ++ [0x2e])) =
        (l ++ [0x2e]) ++ dotted ls
      rw [List.append_assoc, unescapeName_label, List.append_assoc]
      congr 1
      show unescapeName (0x2e :: ls.flatMap (fun l => E.label l ++ [0x2e])) = 0x2e :: dotted ls
      rw [unescapeName_plain (by decide), ih]
  cases labels with
  | nil => exact absurd rfl h
  | cons l ls => exact hall (l :: ls)

/-! ## Trimming in front of a dot -/

section
variable {encodings : List Bytes} {e : Bytes}

theorem isPrefixOf_append_dot (he : 0x2e ∉ e) (s t : Bytes) :
    e.isPrefixOf (s ++ 0x2e :: t) = e.isPrefixOf s := by
  induction e generalizing s with
  | nil => simp
  | cons b e ih =>
    rw [List.mem_cons, not_or] at he
    cases s with
    | nil =>
      have hne : (b == 0x2e) = false := beq_eq_false_iff_ne.mpr (fun h => he.1 h.symm)
      show (b == 0x2e && e.isPrefixOf t) = false
      rw [hne, Bool.false_and]
    | cons c s =>
      show (b == c && e.isPrefixOf (s ++ 0x2e :: t)) = (b == c && e.isPrefixOf s)
      rw [ih he.2]

theorem isPrefixOf_of_found {s : Bytes} (h : encodings.find? (·.isPrefixOf s) = some e) : e <+: s :=
  List.isPrefixOf_iff_prefix.mp (by simpa using List.find?_some h)

theorem stripLeading_append_dot (hdot : ∀ e ∈ encodings, 0x2e ∉ e) (t : Bytes) (fuel : Nat)
    (s : Bytes) :
    stripLeading encodings fuel (s ++ 0x2e :: t) = stripLeading encodings fuel s ++ 0x2e :: t := by
  induction fuel generalizing s with
  | zero => rfl
  | succ fuel ih =>
    have hfind : encodings.find? (·.isPrefixOf (s ++ 0x2e :: t)) =
        encodings.find? (·.isPrefixOf s) := by
      apply List.find?_congr
      intro e he
      exact isPrefixOf_append_dot (hdot e he) s t
    rw [stripLeading, stripLeading, hfind]
    cases hfound : encodings.find? (·.isPrefixOf s) with
    | none => rfl
    | some e =>
      have hle : e.length ≤ s.length := (isPrefixOf_of_found hfound).length_le
      show stripLeading encodings fuel ((s ++ 0x2e :: t).drop e.length) = _
      rw [List.drop_append_of_le_length hle, ih]

theorem stripLeading_fuel (hne : ∀ e ∈ encodings, e ≠ []) :
    ∀ (f g : Nat) (s : Bytes), s.length ≤ f → s.length ≤ g →
      stripLeading encodings f s = stripLeading encodings g s := by
  have hnil : ∀ g, stripLeading encodings g [] = [] := by
    intro g
    apply stripLeading_eq_self
    intro e he
    cases e with
    | nil => exact absurd rfl (hne [] he)
    | cons b e => rfl
  intro f
  induction f with
  | zero =>
    intro g s hf _
    rw [List.eq_nil_of_length_eq_zero (Nat.le_zero.mp hf), hnil, hnil]
  | succ f ih =>
    intro g s hf hg
    cases g with
    | zero => rw [List.eq_nil_of_length_eq_zero (Nat.le_zero.mp hg), hnil, hnil]
    | succ g =>
      rw [stripLeading, stripLeading]
      cases hfound : encodings.find? (·.isPrefixOf s) with
      | none => rfl
      | some e =>
        have hpos : 0 < e.length := List.length_pos_iff.mpr (hne e (List.mem_of_find?_eq_some hfound))
        exact ih g (s.drop e.length) (by rw [List.length_drop]; omega)
          (by rw [List.length_drop]; omega)

theorem stripLeading_idem (hne : ∀ e ∈ encodings, e ≠ []) (g : Nat) (f : Nat) (s : Bytes)
    (hf : s.length ≤ f) :
    stripLeading encodings g (stripLeading encodings f s) = stripLeading encodings f s := by
  induction f generalizing s with
  | zero =>
    rw [List.eq_nil_of_length_eq_zero (Nat.le_zero.mp hf)]
    exact stripLeading_fuel hne g 0 [] (Nat.zero_le _) (Nat.le_refl _)
  | succ f ih =>
    rw [stripLeading]
    cases hfound : encodings.find? (·.isPrefixOf s) with
    | none =>
      cases g with
      | zero => rfl
      | succ g => rw [stripLeading, hfound]
    | some e =>
      have hpos : 0 < e.length := List.length_pos_iff.mpr (hne e (List.mem_of_find?_eq_some hfound))
      exact ih (s.drop e.length) (by rw [List.length_drop]; omega)

theorem count_stripLeading (hdot : ∀ e ∈ encodings, 0x2e ∉ e) (f : Nat) (s : Bytes) :
    (stripLeading encodings f s).count 0x2e = s.count 0x2e := by
  induction f generalizing s with
  | zero => rfl
  | succ f ih =>
    rw [stripLeading]
    cases hfound : encodings.find? (·.isPrefixOf s) with
    | none => rfl
    | some e =>
      obtain ⟨t, rfl⟩ := isPrefixOf_of_found hfound
      show (stripLeading encodings f ((e ++ t).drop e.length)).count 0x2e = _
      rw [ih, List.drop_left, List.count_append,
        List.count_eq_zero.mpr (hdot e (List.mem_of_find?_eq_some hfound)), Nat.zero_add]

end

theorem spaceEncodings_no_dot : ∀ e ∈ spaceEncodings, (0x2e : UInt8) ∉ e := by decide

theorem spaceEncodings_ne_nil : ∀ e ∈ spaceEncodings, e ≠ [] := by decide

/-- `strings.TrimSpace` from the front only. -/
def trimFront (fuel : Nat) (s : Bytes) : Bytes := stripLeading spaceEncodings fuel s

theorem trimSpace_trimFront (h : s.length ≤ fuel) : trimSpace (trimFront fuel s) = trimSpace s := by
  have hsame : stripLeading spaceEncodings (trimFront fuel s).length (trimFront fuel s) =
      stripLeading spaceEncodings s.length s := by
    unfold trimFront
    rw [stripLeading_idem spaceEncodings_ne_nil _ fuel s h]
    exact stripLeading_fuel spaceEncodings_ne_nil _ _ s h (Nat.le_refl _)
  unfold trimSpace
  rw [hsame]

theorem trimSpace_of_dot (s : Bytes) :
    trimSpace (s ++ [0x2e]) = trimFront (s ++ [0x2e]).length s ++ [0x2e] := by
  have hback : ∀ e ∈ spaceEncodings.map List.reverse, e.head?.any (fun b => !isLDH b) = true := by
    decide
  unfold trimSpace trimFront
  rw [stripLeading_append_dot spaceEncodings_no_dot []]
  generalize stripLeading spaceEncodings (s ++ [0x2e]).length s = left
  show (stripLeading (spaceEncodings.map List.reverse) _ (left ++ [0x2e]).reverse).reverse = _
  rw [stripLeading_eq_self, List.reverse_reverse]
  intro e he
  rw [List.reverse_append]
  have hne : ∀ e ∈ spaceEncodings.map List.reverse, e ≠ [] ∧ e.head? ≠ some 0x2e := by decide
  obtain ⟨hnil, hhead⟩ := hne e he
  cases e with
  | nil => exact absurd rfl hnil
  | cons b e =>
    have hb : (b == 0x2e) = false := by
      rw [beq_eq_false_iff_ne]
      rintro rfl
      exact hhead rfl
    show (b == 0x2e && _) = false
    rw [hb, Bool.false_and]

/-! ## The parts of a dotted name -/

theorem dotted_eq (h : labels ≠ []) : dotted labels = List.intercalate [0x2e] labels ++ [0x2e] := by
  induction labels with
  | nil => exact absurd rfl h
  | cons l labels ih =>
    cases labels with
    | nil => simp [dotted]
    | cons l' labels =>
      have hrest := ih (by simp)
      show (l ++ [0x2e]) ++ dotted (l' :: labels) = _
      rw [hrest, List.intercalate_cons_cons, List.append_assoc, List.append_assoc,
        List.append_assoc]

theorem count_dotted (labels : List Bytes) :
    (dotted labels).count 0x2e = (labels.map (List.count 0x2e)).sum + labels.length := by
  induction labels with
  | nil => rfl
  | cons l labels ih =>
    show ((l ++ [0x2e]) ++ dotted labels).count 0x2e = _
    rw [List.count_append, List.count_append, ih, List.map_cons, List.sum_cons, List.length_cons]
    show l.count 0x2e + 1 + _ = _
    omega

theorem length_splitOn (s : Bytes) : (s.splitOn 0x2e).length = s.count 0x2e + 1 := by
  induction s with
  | nil => rfl
  | cons b s ih =>
    unfold List.splitOn at *
    rw [List.splitOnP_cons_eq_if_modifyHead]
    by_cases hb : b = 0x2e
    · subst hb
      rw [if_pos (by decide), List.length_cons, ih, List.count_cons_self]
    · rw [if_neg (by simpa using hb), List.length_modifyHead, ih, List.count_cons_of_ne hb]

theorem trimDot_append (s : Bytes) : trimDot (s ++ [0x2e]) = s := by
  simp [trimDot]

theorem parts_dotted {labels : List Bytes} (h : labels ≠ []) :
    ∃ fuel, (dotted labels).length ≤ fuel ∧
      (trimDot (trimSpace (dotted labels))).splitOn 0x2e =
        (trimFront fuel (List.intercalate [0x2e] labels)).splitOn 0x2e := by
  refine ⟨(dotted labels).length, Nat.le_refl _, ?_⟩
  rw [dotted_eq h, trimSpace_of_dot, trimDot_append]

theorem length_parts_dotted (h : labels ≠ []) :
    ((trimDot (trimSpace (dotted labels))).splitOn 0x2e).length =
      (labels.map (List.count 0x2e)).sum + labels.length := by
  obtain ⟨fuel, _, hparts⟩ := parts_dotted h
  have hcount := count_dotted labels
  rw [dotted_eq h, List.count_append] at hcount
  rw [hparts, length_splitOn]
  unfold trimFront
  rw [count_stripLeading spaceEncodings_no_dot]
  exact hcount

theorem parts_of_no_dot (hdot : ∀ l' ∈ l :: labels, 0x2e ∉ l') :
    ∃ fuel, l.length ≤ fuel ∧
      (trimDot (trimSpace (dotted (l :: labels)))).splitOn 0x2e = trimFront fuel l :: labels := by
  obtain ⟨fuel, hfuel, hparts⟩ := @parts_dotted (l :: labels) (by simp)
  have hle : l.length ≤ fuel := by
    refine le_trans ?_ hfuel
    show l.length ≤ ((l ++ [0x2e]) ++ dotted labels).length
    rw [List.length_append, List.length_append]
    omega
  refine ⟨fuel, hle, ?_⟩
  have hfront : trimFront fuel (List.intercalate [0x2e] (l :: labels)) =
      List.intercalate [0x2e] (trimFront fuel l :: labels) := by
    cases labels with
    | nil => simp
    | cons l' labels =>
      rw [List.intercalate_cons_cons, List.intercalate_cons_cons, List.append_assoc,
        List.append_assoc]
      exact stripLeading_append_dot spaceEncodings_no_dot _ fuel l
  have hclean : ∀ l' ∈ trimFront fuel l :: labels, (0x2e : UInt8) ∉ l' := by
    intro l' hl'
    rcases List.mem_cons.mp hl' with rfl | hrest
    · rw [← List.count_eq_zero]
      unfold trimFront
      rw [count_stripLeading spaceEncodings_no_dot, List.count_eq_zero]
      exact hdot l List.mem_cons_self
    · exact hdot l' (List.mem_cons_of_mem l hrest)
  rw [hparts, hfront, List.splitOn_intercalate _ hclean (by simp)]

/-! ## What `DecomposeName` returns -/

variable {P : Primitives}

theorem decomposeName_eq_ok {name : Bytes} (h : decomposeName P name = .ok (labels, aliasName)) :
    ((trimDot (trimSpace name)).splitOn 0x2e).dropLast.mapM (validateLabel P) = .ok labels ∧
      validateAlias P (((trimDot (trimSpace name)).splitOn 0x2e).getLastD []) = .ok aliasName := by
  unfold decomposeName at h
  dsimp only at h
  rw [guard_eq_ok, guard_eq_ok] at h
  obtain ⟨_, _, h⟩ := h
  split at h
  next => cases h
  next => cases h
  next ls a hls ha =>
    cases h
    exact ⟨hls, ha⟩

theorem validateLabel_trimFront (h : l.length ≤ fuel) :
    validateLabel P (trimFront fuel l) = validateLabel P l := by
  unfold validateLabel
  rw [trimSpace_trimFront h]

theorem validateAlias_trimFront {fuel : Nat} {l : Bytes} (h : l.length ≤ fuel) :
    validateAlias P (trimFront fuel l) = validateAlias P l := by
  unfold validateAlias
  rw [trimSpace_trimFront h]

theorem decomposeName_of_no_dot (hne : labels ≠ []) (hdot : ∀ l ∈ labels, 0x2e ∉ l)
    (h : decomposeName P (dotted labels) = .ok (ls, aliasName)) :
    labels.dropLast.mapM (validateLabel P) = .ok ls ∧
      validateAlias P (labels.getLastD []) = .ok aliasName := by
  obtain ⟨hlabels, halias⟩ := decomposeName_eq_ok h
  cases labels with
  | nil => exact absurd rfl hne
  | cons l labels =>
    obtain ⟨fuel, hfuel, hparts⟩ := parts_of_no_dot hdot
    rw [hparts] at hlabels halias
    cases labels with
    | nil =>
      -- the only label is the alias
      refine ⟨hlabels, ?_⟩
      show validateAlias P l = .ok aliasName
      rw [← @validateAlias_trimFront P fuel l hfuel]
      exact halias
    | cons l' labels =>
      refine ⟨?_, halias⟩
      rw [List.dropLast_cons_cons, List.mapM_cons] at hlabels ⊢
      rw [validateLabel_trimFront hfuel] at hlabels
      exact hlabels

/-! ## Whether the structure survives -/

/-- **The structure is kept**: rejected, or the labels of the wire, lower-cased. -/
def StructureKept (P : Primitives) (labels : List Bytes)
    (parsed : Except DecomposeError (List Bytes × Bytes)) : Prop :=
  (∃ e, parsed = .error e) ∨
    parsed = .ok (labels.dropLast.map (toLower P), toLower P (labels.getLastD []))

/-- No label has a dot inside, and validation only lowers the case. -/
structure Plain (P : Primitives) (wire : List Bytes) : Prop where
  dots : ∀ l ∈ wire, 0x2e ∉ l
  labels : ∀ l ∈ wire.dropLast, ∀ l', validateLabel P l = .ok l' → l' = toLower P l
  aliasName : ∀ a, validateAlias P (wire.getLastD []) = .ok a → a = toLower P (wire.getLastD [])

/-- No dots, no surrounding space, and an ASCII alias where the IDNA profile is on. -/
structure Ordinary (P : Primitives) (wire : List Bytes) : Prop where
  dots : ∀ l ∈ wire, 0x2e ∉ l
  trimmed : ∀ l ∈ wire, trimSpace l = l
  aliasName : P.idnaNormalizer = none ∨ isASCII (wire.getLastD []) = true

theorem validateLabel_of_trimmed {l' : Bytes} (htrim : trimSpace l = l)
    (h : validateLabel P l = .ok l') : l' = toLower P l := by
  simp only [validateLabel, htrim, bind_eq_ok, pure_eq_ok] at h
  obtain ⟨_, _, hl⟩ := h
  exact hl.symm

theorem validateAlias_of_trimmed (htrim : trimSpace l = l)
    (hidna : P.idnaNormalizer = none ∨ isASCII l = true) (h : validateAlias P l = .ok a) :
    a = toLower P l := by
  have htail : (do
      checkLDH (toLower P l) .alias false
      return toLower P l : Except NamingError Bytes) = .ok a → a = toLower P l := by
    intro hdone
    simp only [bind_eq_ok, pure_eq_ok] at hdone
    obtain ⟨_, _, ha⟩ := hdone
    exact ha.symm
  simp only [validateAlias, htrim] at h
  cases hnormal : P.idnaNormalizer with
  | none =>
    rw [hnormal] at h
    exact htail h
  | some normalize =>
    rw [hnormal] at h hidna
    have hascii : isASCII l = true := hidna.resolve_left (by simp)
    dsimp only at h
    rw [if_pos hascii] at h
    exact htail h

theorem Ordinary.plain (h : Ordinary P wire) : Plain P wire := by
  refine ⟨h.dots, ?_, ?_⟩
  · intro l hl l' hvalid
    exact validateLabel_of_trimmed (h.trimmed l (List.mem_of_mem_dropLast hl)) hvalid
  · intro a hvalid
    refine validateAlias_of_trimmed ?_ h.aliasName hvalid
    cases wire with
    | nil => rfl
    | cons l wire =>
      apply h.trimmed
      rw [List.getLastD_cons]
      exact List.getLastD_mem_cons

theorem Plain.structure (h : Plain P wire) (hne : wire ≠ [])
    (hparsed : decomposeName P (dotted wire) = .ok (ls, a)) :
    ls = wire.dropLast.map (toLower P) ∧ a = toLower P (wire.getLastD []) := by
  obtain ⟨hlabels, halias⟩ := decomposeName_of_no_dot hne h.dots hparsed
  exact ⟨eq_map_of_mapM hlabels h.labels, h.aliasName a halias⟩

theorem plain_of_structure (hne : wire ≠ []) (hparsed : decomposeName P (dotted wire) =
      .ok (wire.dropLast.map (toLower P), toLower P (wire.getLastD []))) : Plain P wire := by
  -- there are as many parts as labels, so no dot was inside one
  have hpos : 0 < wire.length := List.length_pos_iff.mpr hne
  have hcount : (wire.map (List.count 0x2e)).sum = 0 := by
    have hlength := mapM_length (decomposeName_eq_ok hparsed).1
    rw [List.length_dropLast, length_parts_dotted hne, List.length_map, List.length_dropLast]
      at hlength
    omega
  have hdots : ∀ l ∈ wire, 0x2e ∉ l := by
    intro l hl
    rw [← List.count_eq_zero]
    exact List.sum_eq_zero_iff.mp hcount _ (List.mem_map_of_mem hl)
  obtain ⟨hlabels, halias⟩ := decomposeName_of_no_dot hne hdots hparsed
  refine ⟨hdots, ?_, ?_⟩
  · intro l hl l' hvalid
    rw [mapM_eq_ok_map.mp hlabels l hl, Except.ok.injEq] at hvalid
    exact hvalid.symm
  · intro a hvalid
    rw [halias, Except.ok.injEq] at hvalid
    exact hvalid.symm

theorem map_toLower_eq (hne : wire ≠ []) :
    wire.map (toLower P) =
      wire.dropLast.map (toLower P) ++ [toLower P (wire.getLastD [])] := by
  obtain ⟨front, last, rfl⟩ := List.eq_nil_or_concat wire |>.resolve_left hne
  simp

theorem length_toLower (h : isASCII s = true) : (toLower P s).length = s.length := by
  rw [toLower, if_pos h, List.length_map]

theorem same_labels {wire' : List Bytes} (hne : wire ≠ []) (hne' : wire' ≠ []) (h : Plain P wire)
    (h' : Plain P wire') (hparsed : decomposeName P (dotted wire) = .ok parsed)
    (hparsed' : decomposeName P (dotted wire') = .ok parsed) :
    wire.map (toLower P) = wire'.map (toLower P) ∧
      ((∀ l ∈ wire, isASCII l = true) → (∀ l ∈ wire', isASCII l = true) →
        wire.map List.length = wire'.map List.length) := by
  obtain ⟨hlabels, halias⟩ := h.structure hne hparsed
  obtain ⟨hlabels', halias'⟩ := h'.structure hne' hparsed'
  have hsame : wire.map (toLower P) = wire'.map (toLower P) := by
    rw [map_toLower_eq hne, map_toLower_eq hne', ← hlabels, ← halias, ← hlabels', ← halias']
  refine ⟨hsame, ?_⟩
  intro hascii hascii'
  have hlength : ∀ {w : List Bytes}, (∀ l ∈ w, isASCII l = true) →
      w.map List.length = (w.map (toLower P)).map List.length := by
    intro w hw
    rw [List.map_map]
    exact List.map_congr_left (fun l hl => (length_toLower (hw l hl)).symm)
  rw [hlength hascii, hlength hascii', hsame]

theorem decomposeName_root (P : Primitives) (E : Escaping) :
    ∃ e, decomposeName P (unescapeName (E.name [])) = .error e := by
  have hname : unescapeName (E.name []) = [0x2e] := unescapeName_plain (by decide) []
  have hempty : ((trimDot (trimSpace [0x2e])).splitOn 0x2e).any List.isEmpty = true := by
    decide +kernel
  refine ⟨.emptyPart [0x2e], ?_⟩
  rw [hname, decomposeName, if_pos hempty]

theorem ne_nil_of_parsed
    (h : decomposeName P (unescapeName (E.name wire)) = .ok parsed) : wire ≠ [] := by
  rintro rfl
  obtain ⟨e, he⟩ := decomposeName_root P E
  rw [he] at h
  cases h

/-- **Name structure.** The name is rejected or comes back as exactly its labels,
lower-cased, if and only if it is rejected or plain; ordinary labels are. -/
theorem name_structure_kept_iff (P : Primitives) (E : Escaping) (wire : List Bytes) :
    (StructureKept P wire (decomposeName P (unescapeName (E.name wire))) ↔
      (∃ e, decomposeName P (unescapeName (E.name wire)) = .error e) ∨ Plain P wire) ∧
    (Ordinary P wire → Plain P wire) ∧
    ∀ wire' parsed, Plain P wire → Plain P wire' →
      decomposeName P (unescapeName (E.name wire)) = .ok parsed →
      decomposeName P (unescapeName (E.name wire')) = .ok parsed →
      wire.map (toLower P) = wire'.map (toLower P) ∧
        ((∀ l ∈ wire, isASCII l = true) → (∀ l ∈ wire', isASCII l = true) →
          wire.map List.length = wire'.map List.length) := by
  refine ⟨⟨?_, ?_⟩, Ordinary.plain, ?_⟩
  · rintro (hrejected | hparsed)
    · exact .inl hrejected
    · have hne := ne_nil_of_parsed hparsed
      rw [unescapeName_name hne] at hparsed
      exact .inr (plain_of_structure hne hparsed)
  · rintro (hrejected | hplain)
    · exact .inl hrejected
    · cases hparsed : decomposeName P (unescapeName (E.name wire)) with
      | error e => exact .inl ⟨e, rfl⟩
      | ok parsed =>
        have hne := ne_nil_of_parsed hparsed
        rw [unescapeName_name hne] at hparsed
        obtain ⟨hlabels, halias⟩ := hplain.structure hne hparsed
        right
        rw [← hlabels, ← halias]
  · intro wire' parsed hplain hplain' hparsed hparsed'
    have hne := ne_nil_of_parsed hparsed
    have hne' := ne_nil_of_parsed hparsed'
    rw [unescapeName_name hne] at hparsed
    rw [unescapeName_name hne'] at hparsed'
    exact same_labels hne hne' hplain hplain' hparsed hparsed'

/-- An escaping of dots and backslashes. -/
def dotAndBackslash : Escaping where
  quoted c := c = 0x2e || c = 0x5c
  dot := by decide
  backslash := by decide
  digit := by
    intro c hc
    simp only [isDigit, Bool.and_eq_true, decide_eq_true_eq] at hc
    have hlow : (0x30 : UInt8).toNat ≤ c.toNat := UInt8.le_iff_toNat_le.mp hc.1
    have hhigh : c.toNat ≤ (0x39 : UInt8).toNat := UInt8.le_iff_toNat_le.mp hc.2
    simp only [Bool.or_eq_false_iff, decide_eq_false_iff_not]
    constructor
    · rintro rfl
      exact absurd hlow (by decide)
    · rintro rfl
      exact absurd hhigh (by decide)

/-- **A dot becomes a boundary**: `a.b`, `foo` and `a`, `b`, `foo` are parsed alike. -/
theorem dot_becomes_boundary :
    dotAndBackslash.name [[0x61, 0x2e, 0x62], [0x66, 0x6f, 0x6f]] =
      [0x61, 0x5c, 0x2e, 0x62, 0x2e, 0x66, 0x6f, 0x6f, 0x2e] ∧
    decomposeName Toy.primitives
        (unescapeName (dotAndBackslash.name [[0x61, 0x2e, 0x62], [0x66, 0x6f, 0x6f]])) =
      .ok ([[0x61], [0x62]], [0x66, 0x6f, 0x6f]) ∧
    decomposeName Toy.primitives
        (unescapeName (dotAndBackslash.name [[0x61], [0x62], [0x66, 0x6f, 0x6f]])) =
      .ok ([[0x61], [0x62]], [0x66, 0x6f, 0x6f]) ∧
    ¬ StructureKept Toy.primitives [[0x61, 0x2e, 0x62], [0x66, 0x6f, 0x6f]]
      (decomposeName Toy.primitives
        (unescapeName (dotAndBackslash.name [[0x61, 0x2e, 0x62], [0x66, 0x6f, 0x6f]]))) := by
  have hparsed : decomposeName Toy.primitives
      (unescapeName (dotAndBackslash.name [[0x61, 0x2e, 0x62], [0x66, 0x6f, 0x6f]])) =
        .ok ([[0x61], [0x62]], [0x66, 0x6f, 0x6f]) := by decide +kernel
  refine ⟨by decide +kernel, hparsed, by decide +kernel, ?_⟩
  rw [hparsed]
  rintro (⟨e, he⟩ | hkept)
  · cases he
  · exact absurd hkept (by decide +kernel)

end Freens.Resolver
