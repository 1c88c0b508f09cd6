/-
**TWO'S-COMPLEMENT CONVERSIONS** between unsigned 64-bit words and signed 64-bit
readings of them. Every signed operation that can leave the range goes through
`wrap64`.
-/
import Mathlib.Data.Int.Basic
import Mathlib.Tactic

namespace Freens.Library

/-! ## The conversions -/

/-- Reduce an integer into the signed 64-bit range. -/
def wrap64 (i : Int) : Int := Int.bmod i (2 ^ 64)

/-- The signed reading of an unsigned word (`int64(x)`). -/
def int64 (n : UInt64) : Int := wrap64 n.toNat

/-- The unsigned reading of a signed value (`uint64(x)`). -/
def uint64 (i : Int) : UInt64 := UInt64.ofNat (i % 2 ^ 64).toNat

/-- Unsigned addition that sticks at the largest word instead of wrapping. -/
def satAdd (a b : UInt64) : UInt64 :=
  if b > 0xFFFFFFFFFFFFFFFF - a then 0xFFFFFFFFFFFFFFFF else a + b

/-! ## Where the conversions are the identity -/

theorem wrap64_of_range {i : Int} (hlo : -(2 ^ 63) ≤ i) (hhi : i < 2 ^ 63) : wrap64 i = i := by
  unfold wrap64
  rw [Int.bmod_eq_of_le (by omega) (by omega)]

variable {n : UInt64}

theorem int64_of_lt (h : n.toNat < 2 ^ 63) : int64 n = n.toNat :=
  wrap64_of_range (by omega) (by omega)

variable {i : Int}

theorem wrap64_of_ge (hlo : 2 ^ 63 ≤ i) (hhi : i < 2 ^ 64) : wrap64 i = i - 2 ^ 64 := by
  have hper : Int.bmod (i - 2 ^ 64 + (2 ^ 64 : Nat)) (2 ^ 64) = i - 2 ^ 64 := by
    rw [Int.add_bmod_right, Int.bmod_eq_of_le (by omega) (by omega)]
  rwa [show i - 2 ^ 64 + (2 ^ 64 : Nat) = i from by push_cast; omega] at hper

theorem int64_of_ge (h : 2 ^ 63 ≤ n.toNat) : int64 n = n.toNat - 2 ^ 64 := by
  have hlt := n.toNat_lt
  exact wrap64_of_ge (by omega) (by omega)

theorem uint64_toNat (hlo : 0 ≤ i) (hhi : i < 2 ^ 64) : (uint64 i).toNat = i.toNat := by
  have hmod : i % 2 ^ 64 = i := Int.emod_eq_of_lt hlo hhi
  have hlt : i.toNat < 2 ^ 64 := by omega
  simp only [uint64, hmod, UInt64.toNat_ofNat']
  exact Nat.mod_eq_of_lt hlt

theorem wrap64_lt (i : Int) : wrap64 i < 2 ^ 63 := by
  have h := @Int.bmod_lt i (2 ^ 64) (by decide)
  unfold wrap64
  omega

theorem wrap64_ge (i : Int) : -(2 ^ 63) ≤ wrap64 i := by
  have h := @Int.le_bmod i (2 ^ 64) (by decide)
  unfold wrap64
  omega

theorem wrap64_le (hlo : -(2 ^ 63) ≤ i) : wrap64 i ≤ i := by
  by_cases hhi : i < 2 ^ 63
  · rw [wrap64_of_range hlo hhi]
  · have hlt := wrap64_lt i
    omega

theorem uint64_wrap64 (i : Int) : uint64 (wrap64 i) = uint64 i := by
  have h : Int.bmod i (2 ^ 64) % 2 ^ 64 = i % 2 ^ 64 := by
    have := @Int.bmod_emod i (2 ^ 64)
    exact_mod_cast this
  unfold uint64 wrap64
  rw [h]

theorem int64_uint64 (hlo : 0 ≤ i) (hhi : i < 2 ^ 63) : int64 (uint64 i) = i := by
  have h := uint64_toNat hlo (by omega)
  rw [int64_of_lt (by omega), h]
  omega

theorem satAdd_toNat (a b : UInt64) :
    (satAdd a b).toNat = min (a.toNat + b.toNat) (2 ^ 64 - 1) := by
  have ha := a.toNat_lt
  have hb := b.toNat_lt
  have hsub : (0xFFFFFFFFFFFFFFFF - a : UInt64).toNat = 2 ^ 64 - 1 - a.toNat := by
    rw [UInt64.toNat_sub_of_le _ _ (by rw [UInt64.le_iff_toNat_le]; simp; omega)]
    simp
  unfold satAdd
  split
  next h =>
    have := UInt64.lt_iff_toNat_lt.mp h
    rw [hsub] at this
    simp only [UInt64.reduceToNat]
    omega
  next h =>
    have hle : b.toNat ≤ 2 ^ 64 - 1 - a.toNat := by
      rw [← hsub]
      exact UInt64.le_iff_toNat_le.mp (UInt64.not_lt.mp h)
    rw [UInt64.toNat_add, Nat.mod_eq_of_lt (by omega)]
    omega

end Freens.Library
