/-
**ONE WIRE FORM FOR EACH NAME?** (`naming/naming.go`: `EncodeWireName`,
`DecodeWireName`; `dht/store.go`: `parentAuthorizesLocked`).

The encoder normalises every label; the decoder takes any 1 to 255 bytes as one.
The store reaches the parent's own key only when decoding the name and encoding
the rest of it again changes nothing.
-/
import Freens.Dht.Store
import Freens.Toy

namespace Freens.Dht

open Library Naming

variable {P : Primitives}

/-! ## Labels in normal form -/

/-- Every label is the one that validation makes of it. -/
def Normal (P : Primitives) (labels : List Bytes) : Prop :=
  ∀ l ∈ labels, validateLabel P l = .ok l

variable {labels : List Bytes}

theorem normal_iff_mapM : Normal P labels ↔ labels.mapM (validateLabel P) = .ok labels := by
  have hmap := @mapM_eq_ok_map NamingError Bytes Bytes (validateLabel P) id labels
  rw [List.map_id] at hmap
  exact hmap.symm

theorem normal_of_mapM {displayLabels : List Bytes}
    (h : displayLabels.mapM (validateLabel P) = .ok labels) : Normal P labels := by
  intro l hl
  obtain ⟨_, _, hvalid⟩ := exists_of_mem_mapM h hl
  exact validateLabel_idem hvalid

theorem Normal.tail {l : Bytes} (h : Normal P (l :: labels)) : Normal P labels :=
  fun m hm => h m (List.mem_cons_of_mem l hm)

theorem validateAlias_placeholder : validateAlias P placeholderAlias = .ok placeholderAlias :=
  validateAlias_of_checkLDH (by decide)

theorem encodeWireName_eq_wireImage_iff {aliasName a tldID : Bytes}
    (halias : validateAlias P aliasName = .ok a) (hframed : Framed labels tldID) :
    encodeWireName P labels aliasName tldID = .ok (wireImage labels tldID) ↔ Normal P labels := by
  rw [encodeWireName_eq_ok_iff]
  constructor
  · intro h
    obtain ⟨htld, _, labels', hlabels, hcount, himage⟩ := h
    have hdecoded : decodeWireName (wireImage labels tldID) = .ok (labels, tldID) :=
      decodeWireName_eq_ok_iff.mpr ⟨rfl, hframed⟩
    have hdecoded' : decodeWireName (wireImage labels tldID) = .ok (labels', tldID) :=
      decodeWireName_eq_ok_iff.mpr ⟨himage, framed_of_mapM hlabels hcount htld⟩
    have hsame : labels = labels' := by
      rw [hdecoded, Except.ok.injEq, Prod.mk.injEq] at hdecoded'
      exact hdecoded'.1
    rw [normal_iff_mapM, hlabels, hsame]
  · intro h
    exact ⟨hframed.tld_length, ⟨a, halias⟩, labels, normal_iff_mapM.mp h, hframed.count, rfl⟩

theorem parentKey_eq_of_normal {wire l tldID : Bytes}
    (hdecode : decodeWireName wire = .ok (l :: labels, tldID)) (hnormal : Normal P labels) :
    parentKey P wire = (keyForWireName P (wireImage labels tldID)).toOption := by
  have hframed := (decodeWireName_eq_ok_iff.mp hdecode).2.tail
  have hencode := (encodeWireName_eq_wireImage_iff validateAlias_placeholder hframed).mpr hnormal
  unfold parentKey
  rw [hdecode]
  simp only [hencode]

/-! ## The codec -/

/-- **The wire-name codec.** Valid labels under a valid alias decode to their normal forms.
An accepted string is what its labels encode to, and its parent is looked up under the
parent's own key, exactly when they are in normal form. -/
theorem wireName_codec_iff (P : Primitives) :
    (∀ displayLabels labels aliasName a tldID,
      displayLabels.mapM (validateLabel P) = .ok labels → displayLabels.length ≤ 8 →
      validateAlias P aliasName = .ok a → tldID.length = 32 →
      ∃ wire, encodeWireName P displayLabels aliasName tldID = .ok wire ∧
        decodeWireName wire = .ok (labels, tldID) ∧ Normal P labels) ∧
    (∀ wire wire' name, decodeWireName wire = .ok name → decodeWireName wire' = .ok name →
      wire = wire') ∧
    ∀ wire labels tldID, decodeWireName wire = .ok (labels, tldID) →
      (((∀ aliasName a, validateAlias P aliasName = .ok a →
          encodeWireName P labels aliasName tldID = .ok wire) ∧
        ∀ l rest, labels = l :: rest →
          parentKey P wire = (keyForWireName P (wireImage rest tldID)).toOption) ↔
        Normal P labels) := by
  refine ⟨?_, fun _ _ _ => decodeWireName_injective, ?_⟩
  · intro displayLabels labels aliasName a tldID hlabels hcount halias htld
    have hlen : labels.length ≤ 8 := mapM_length hlabels ▸ hcount
    exact ⟨wireImage labels tldID,
      encodeWireName_eq_ok_iff.mpr ⟨htld, ⟨a, halias⟩, labels, hlabels, hlen, rfl⟩,
      decodeWireName_eq_ok_iff.mpr ⟨rfl, framed_of_mapM hlabels hlen htld⟩, normal_of_mapM hlabels⟩
  · intro wire labels tldID hdecode
    obtain ⟨himage, hframed⟩ := decodeWireName_eq_ok_iff.mp hdecode
    constructor
    · intro h
      -- the placeholder is a valid alias, so there is an encoding to compare with
      have hencode := h.1 placeholderAlias placeholderAlias validateAlias_placeholder
      rw [himage] at hencode
      exact (encodeWireName_eq_wireImage_iff validateAlias_placeholder hframed).mp hencode
    · intro hnormal
      refine ⟨?_, ?_⟩
      · intro aliasName a halias
        rw [himage]
        exact (encodeWireName_eq_wireImage_iff halias hframed).mpr hnormal
      · intro l rest hlabels
        subst hlabels
        exact parentKey_eq_of_normal hdecode hnormal.tail

namespace Sample

def capitalTld : Bytes := Toy.checksum (Toy.publicKey 1)

def belowCapital : Bytes := wireImage [[0x62], [0x41]] capitalTld

end Sample

/-- **A parent looked up under another name**: the parent `A` of `b` is asked for under the
key of `a`. -/
theorem capital_parent_misplaced :
    decodeWireName Sample.belowCapital = .ok ([[0x62], [0x41]], Sample.capitalTld) ∧
    encodeWireName Toy.primitives [[0x62], [0x41]] placeholderAlias Sample.capitalTld
      = .ok (wireImage [[0x62], [0x61]] Sample.capitalTld) ∧
    wireImage [[0x62], [0x61]] Sample.capitalTld ≠ Sample.belowCapital ∧
    parentKey Toy.primitives Sample.belowCapital
      = (keyForWireName Toy.primitives (wireImage [[0x61]] Sample.capitalTld)).toOption ∧
    (keyForWireName Toy.primitives (wireImage [[0x61]] Sample.capitalTld)).toOption
      ≠ (keyForWireName Toy.primitives (wireImage [[0x41]] Sample.capitalTld)).toOption := by
  decide +kernel

end Freens.Dht
