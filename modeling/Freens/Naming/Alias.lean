/-
**WHICH STRINGS ARE ALIASES** (`naming/naming.go`: `ValidateAlias`),
with no IDNA normaliser installed.

`strings.ToLower` comes before the character check. Two code points outside
of ASCII have their lower case inside it, U+0130 and U+212A, and strings with
them pass the check as plain letters.
-/
import Freens.Toy

namespace Freens.Naming

open Library

/-! ## Lower-casing by code points -/

/-- What `strings.ToLower` makes of a string when the result is ASCII: U+0130 becomes `i`,
U+212A `k`; all else outside ASCII stays outside. -/
def lowerToASCII : Bytes → Option Bytes
  | [] => some []
  | c :: rest =>
    if c < 0x80 then (lowerToASCII rest).map (lowerByte c :: ·)
    else match c, rest with
      | 0xc4, 0xb0 :: rest => (lowerToASCII rest).map (0x69 :: ·)
      | 0xe2, 0x84 :: 0xaa :: rest => (lowerToASCII rest).map (0x6b :: ·)
      | _, _ => none

/-- The lower-casing of strings outside of ASCII, as far as it matters here. -/
def LowersByRune (P : Primitives) : Prop :=
  ∀ s r, isASCII s = false → isASCII r = true →
    (P.toLowerUnicode s = r ↔ lowerToASCII s = some r)

/-- **The alias grammar**: 1 to 63 letters, digits and inner hyphens, not all
digits. -/
structure IsAlias (r : Bytes) : Prop where
  length : 1 ≤ r.length ∧ r.length ≤ 63
  ldh : r.all isLDH = true
  inner : r.head? ≠ some 0x2d ∧ r.getLast? ≠ some 0x2d
  letter : isAllDigits r = false

/-! ## What is accepted -/

theorem checkLDH_iff_isAlias {r : Bytes} : checkLDH r .alias false = .ok () ↔ IsAlias r := by
  rw [checkLDH_eq_ok, ← List.length_pos_iff]
  constructor
  · rintro ⟨hpos, hlen, hldh, hfirst, hlast, hdigits⟩
    exact ⟨⟨hpos, hlen⟩, hldh, ⟨hfirst, hlast⟩, hdigits⟩
  · rintro ⟨⟨hpos, hlen⟩, hldh, ⟨hfirst, hlast⟩, hdigits⟩
    exact ⟨hpos, hlen, hldh, hfirst, hlast, hdigits⟩

theorem lowerToASCII_of_isASCII {s : Bytes} (h : isASCII s = true) :
    lowerToASCII s = some (s.map lowerByte) := by
  induction s with
  | nil => rfl
  | cons c rest ih =>
    simp only [isASCII, List.all_cons, Bool.and_eq_true, decide_eq_true_eq] at h
    unfold lowerToASCII
    rw [if_pos h.1, ih h.2]
    rfl

variable {P : Primitives}

theorem validateAlias_eq_ok_iff (hidna : P.idnaNormalizer = none) (hlower : LowersByRune P)
    {s r : Bytes} :
    validateAlias P s = .ok r ↔ lowerToASCII (trimSpace s) = some r ∧ IsAlias r := by
  have hcode : validateAlias P s = (do
      checkLDH (toLower P (trimSpace s)) .alias false
      return toLower P (trimSpace s)) := by
    simp only [validateAlias, hidna]
    rfl
  have hsame : IsAlias r →
      (toLower P (trimSpace s) = r ↔ lowerToASCII (trimSpace s) = some r) := by
    intro halias
    cases hascii : isASCII (trimSpace s) with
    | true =>
      rw [toLower, if_pos hascii, lowerToASCII_of_isASCII hascii, Option.some.injEq]
    | false =>
      rw [toLower, if_neg (by simp [hascii])]
      exact hlower _ r hascii (isASCII_of_isLDH halias.ldh)
  simp only [hcode, bind_eq_ok, pure_eq_ok]
  constructor
  · rintro ⟨u, hcheck, rfl⟩
    have halias := checkLDH_iff_isAlias.mp hcheck
    exact ⟨(hsame halias).mp rfl, halias⟩
  · rintro ⟨hlowered, halias⟩
    have heq := (hsame halias).mpr hlowered
    exact ⟨(), by rw [heq]; exact checkLDH_iff_isAlias.mpr halias, heq⟩

/-- **Alias normalisation.** `ValidateAlias` accepts the strings that lower-case to an
alias: ASCII ones, lower-cased, but for strings with a U+0130 or a U+212A. Accepted results
are fixed points. -/
theorem alias_normalization_iff (hidna : P.idnaNormalizer = none) (hlower : LowersByRune P)
    (s : Bytes) :
    (∀ r, validateAlias P s = .ok r ↔ lowerToASCII (trimSpace s) = some r ∧ IsAlias r) ∧
    ((∀ r, validateAlias P s = .ok r ↔ isASCII (trimSpace s) = true ∧
        IsAlias ((trimSpace s).map lowerByte) ∧ r = (trimSpace s).map lowerByte) ↔
      ¬ (isASCII (trimSpace s) = false ∧ ∃ r, lowerToASCII (trimSpace s) = some r ∧ IsAlias r)) ∧
    ∀ r, validateAlias P s = .ok r → validateAlias P r = .ok r := by
  refine ⟨fun r => validateAlias_eq_ok_iff hidna hlower, ?_, fun r => validateAlias_idem⟩
  simp only [validateAlias_eq_ok_iff hidna hlower]
  constructor
  · rintro hclaim ⟨hascii, r, hr⟩
    rw [((hclaim r).mp hr).1] at hascii
    cases hascii
  · intro hno r
    cases hascii : isASCII (trimSpace s) with
    | true =>
      rw [lowerToASCII_of_isASCII hascii, Option.some.injEq]
      constructor
      · rintro ⟨rfl, halias⟩
        exact ⟨rfl, halias, rfl⟩
      · rintro ⟨-, halias, rfl⟩
        exact ⟨rfl, halias⟩
    | false =>
      constructor
      · exact fun hr => absurd ⟨hascii, r, hr⟩ hno
      · rintro ⟨h, -⟩
        cases h

/-- Lowering rune by rune, as Go does. -/
def byRune : Primitives := { Toy.primitives with toLowerUnicode := fun s => (lowerToASCII s).getD s }

theorem lowersByRune_byRune : LowersByRune byRune := by
  intro s r hs hr
  show (lowerToASCII s).getD s = r ↔ _
  cases lowerToASCII s with
  | some t => simp
  | none =>
    constructor
    · rintro rfl
      rw [Option.getD_none, hs] at hr
      cases hr
    · intro h
      cases h

theorem capital_alias_normalized : validateAlias byRune [0x20, 0x46, 0x6f, 0x6f, 0x20] =
    .ok [0x66, 0x6f, 0x6f] :=
  ((alias_normalization_iff rfl lowersByRune_byRune _).1 _).mpr
    ⟨by decide +kernel, by decide +kernel, by decide +kernel, by decide +kernel, by decide +kernel⟩

/-- **The Kelvin sign is accepted**, as the alias `k`. -/
theorem kelvin_sign_accepted : byRune.idnaNormalizer = none ∧ LowersByRune byRune ∧
    isASCII (trimSpace [0xe2, 0x84, 0xaa]) = false ∧
    validateAlias byRune [0xe2, 0x84, 0xaa] = .ok [0x6b] :=
  ⟨rfl, lowersByRune_byRune, by decide +kernel, by decide +kernel⟩

end Freens.Naming
