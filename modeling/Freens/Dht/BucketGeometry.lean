/-
**BUCKETS AND DISTANCES** (`dht/ids.go`: `CommonPrefixLength`,
`CompareDistance`; `dht/transport.go`: `randomTargetInBucket`).

The XOR distance of two identifiers, as a number, has as many bits as they do
not share in front: the bucket of an identifier is the size of its distance.
-/
import Freens.Dht.Closest
import Mathlib.Data.Nat.Size

namespace Freens.Dht.Routing

open Library

/-! ## A random identifier in a bucket -/

/-- `selfID[i/8]>>(7-uint(i)%8)&1`. -/
def bitOf (id : Bytes) (i : Nat) : UInt8 := (id.getD (i / 8) 0 >>> UInt8.ofNat (7 - i % 8)) &&& 1

/-- One bit set or cleared. -/
def copyBits (t : Bytes) (i : Nat) (val : UInt8) : Bytes :=
  let bit : UInt8 := 1 <<< UInt8.ofNat (7 - i % 8)
  t.modify (i / 8) (fun c => if val ≠ 0 then c ||| bit else c &&& ~~~bit)

/-- `t` is what `rand.Read` filled in. -/
def randomTargetInBucket (t selfID : Bytes) (idx : Nat) : Bytes :=
  copyBits ((List.range idx).foldl (fun t i => copyBits t i (bitOf selfID i)) t) idx
    (1 - bitOf selfID idx)

/-! ## The common prefix is the size of the distance -/

variable {a b c : Bytes}

theorem size_leading {d n r : Nat} (hd : d ≠ 0) (hr : r < 256 ^ n) :
    (d * 256 ^ n + r).size = d.log2 + 1 + 8 * n := by
  have hpow : 256 ^ n = 2 ^ (8 * n) := by rw [Nat.pow_mul]
  rw [hpow] at hr ⊢
  have hle : 2 ^ d.log2 * 2 ^ (8 * n) ≤ d * 2 ^ (8 * n) :=
    Nat.mul_le_mul_right _ (Nat.log2_self_le hd)
  have hlt : (d + 1) * 2 ^ (8 * n) ≤ 2 ^ (d.log2 + 1) * 2 ^ (8 * n) :=
    Nat.mul_le_mul_right _ Nat.lt_log2_self
  rw [← Nat.pow_add] at hle hlt
  rw [Nat.succ_mul] at hlt
  apply Nat.le_antisymm
  · rw [Nat.size_le]
    omega
  · have hsize : d.log2 + 8 * n < (d * 2 ^ (8 * n) + r).size := by
      rw [Nat.lt_size]
      omega
    omega

theorem size_distance (h : a.length = b.length) :
    (distance a b).size + commonPrefixLength a b = 8 * a.length := by
  induction a generalizing b with
  | nil =>
    rw [List.length_eq_zero_iff.mp h.symm]
    rfl
  | cons x xs ih =>
    obtain ⟨y, ys, rfl⟩ := List.exists_cons_of_length_eq_add_one h.symm
    have hlen : xs.length = ys.length := Nat.succ.inj h
    have hwidth : (List.zipWith (· ^^^ ·) xs ys).length = xs.length := by
      rw [List.length_zipWith, ← hlen, Nat.min_self]
    have ih := ih hlen
    rw [distance_cons, commonPrefixLength, hwidth, List.length_cons]
    split
    next hzero =>
      rw [hzero, UInt8.toNat_zero, Nat.zero_mul, Nat.zero_add]
      omega
    next hne =>
      have hd : (x ^^^ y).toNat ≠ 0 := fun hd => hne (UInt8.toNat_inj.mp hd)
      have hrest : distance xs ys < 256 ^ xs.length := by
        have hlt := Library.ofBigEndian_lt (List.zipWith (· ^^^ ·) xs ys)
        rwa [hwidth] at hlt
      have hbits : (x ^^^ y).toNat.log2 < 8 := (Nat.log2_lt hd).mpr (x ^^^ y).toNat_lt
      rw [size_leading hd hrest, bitLenU8, if_neg hne]
      omega

theorem distance_lt_of_prefix (hb : a.length = b.length) (hc : a.length = c.length)
    (h : commonPrefixLength a c < commonPrefixLength a b) : distance a b < distance a c := by
  by_contra hnot
  have hle := Nat.size_le_size (Nat.le_of_not_lt hnot)
  have hsb := size_distance hb
  have hsc := size_distance hc
  omega

/-! ## Bits -/

/-- Bit `i`, from the front. -/
def bit (id : Bytes) (i : Nat) : Bool := (id.getD (i / 8) 0).toBitVec.getLsbD (7 - i % 8)

theorem forall_uint8 {p : UInt8 → Prop} (h : ∀ n < 256, p (UInt8.ofNat n)) (x : UInt8) : p x := by
  rw [← UInt8.ofNat_toNat (x := x)]
  exact h x.toNat x.toNat_lt

theorem shiftRight_and_one : ∀ (x : UInt8), ∀ q < 8,
    (x >>> UInt8.ofNat q) &&& 1 = if x.toBitVec.getLsbD q then 1 else 0 :=
  forall_uint8 (by decide +kernel)

theorem mask_bit : ∀ p < 8, ∀ q < 8,
    ((1 : UInt8) <<< UInt8.ofNat p).toBitVec.getLsbD q = decide (q = p) := by
  decide +kernel

theorem first_bit : ∀ (d : UInt8), ∀ k < 8, (∀ i < k, d.toBitVec.getLsbD (7 - i) = false) ∧
    d.toBitVec.getLsbD (7 - k) = true → d ≠ 0 ∧ 8 - bitLenU8 d = k :=
  forall_uint8 (by decide +kernel)

theorem eq_zero_of_bits : ∀ (d : UInt8), (∀ i < 8, d.toBitVec.getLsbD (7 - i) = false) → d = 0 :=
  forall_uint8 (by decide +kernel)

theorem bitOf_eq (id : Bytes) (i : Nat) : bitOf id i = if bit id i then 1 else 0 :=
  shiftRight_and_one _ _ (by omega)

theorem bit_copyBits {t : Bytes} {i : Nat} (hi : i < 8 * t.length) (v : Bool) (j : Nat) :
    bit (copyBits t i (if v then 1 else 0)) j = if j = i then v else bit t j := by
  have hget : (copyBits t i (if v then 1 else 0)).getD (j / 8) 0 =
      if i / 8 = j / 8 then (if v then t.getD (j / 8) 0 ||| 1 <<< UInt8.ofNat (7 - i % 8)
        else t.getD (j / 8) 0 &&& ~~~(1 <<< UInt8.ofNat (7 - i % 8))) else t.getD (j / 8) 0 := by
    rw [copyBits, List.getD_eq_getElem?_getD, List.getElem?_modify, List.getD_eq_getElem?_getD]
    split
    next heq =>
      have hin : j / 8 < t.length := by omega
      rw [List.getElem?_eq_getElem hin]
      cases v with
      | true | false => rfl
    next => simp
  rw [bit, hget]
  have hmask := mask_bit (7 - i % 8) (by omega) (7 - j % 8) (by omega)
  -- inside the byte, positions are bits
  have hpos : i / 8 = j / 8 → decide (7 - j % 8 = 7 - i % 8) = decide (j = i) := by
    intro hbyte
    rw [decide_eq_decide]
    omega
  by_cases hbyte : i / 8 = j / 8
  · rw [if_pos hbyte]
    cases v with
    | true =>
      rw [if_pos rfl, UInt8.toBitVec_or, BitVec.getLsbD_or, hmask, hpos hbyte]
      by_cases hj : j = i
      · simp [hj]
      · simp [hj, bit]
    | false =>
      rw [if_neg Bool.false_ne_true, UInt8.toBitVec_and, UInt8.toBitVec_not, BitVec.getLsbD_and,
        BitVec.getLsbD_not, hmask, hpos hbyte]
      by_cases hj : j = i
      · simp [hj]
      · have hsmall : 7 - j % 8 < 8 := by omega
        simp [hj, bit, hsmall]
  · rw [if_neg hbyte, if_neg (fun h => hbyte (by rw [h])), bit]

theorem length_copyBits (t : Bytes) (i : Nat) (v : UInt8) : (copyBits t i v).length = t.length :=
  List.length_modify ..

theorem bit_foldl_copyBits {t selfID : Bytes} {idx : Nat} (hidx : idx ≤ 8 * t.length) :
    ((List.range idx).foldl (fun t i => copyBits t i (bitOf selfID i)) t).length = t.length ∧
      ∀ j < idx, bit ((List.range idx).foldl (fun t i => copyBits t i (bitOf selfID i)) t) j
        = bit selfID j := by
  induction idx with
  | zero => simp
  | succ idx ih =>
    obtain ⟨hlen, hbits⟩ := ih (by omega)
    rw [List.range_succ, List.foldl_append, List.foldl_cons, List.foldl_nil]
    refine ⟨(length_copyBits _ _ _).trans hlen, ?_⟩
    intro j hj
    rw [bitOf_eq, bit_copyBits (by omega)]
    split
    next heq => rw [heq]
    next hne => exact hbits j (by omega)

theorem bit_cons_of_lt (x : UInt8) (xs : Bytes) {i : Nat} (hi : i < 8) :
    bit (x :: xs) i = x.toBitVec.getLsbD (7 - i) := by
  rw [bit, Nat.div_eq_of_lt hi, Nat.mod_eq_of_lt hi]
  rfl

theorem bit_cons_add (x : UInt8) (xs : Bytes) (i : Nat) : bit (x :: xs) (i + 8) = bit xs i := by
  rw [bit, bit, Nat.add_div_right i (by decide), Nat.add_mod_right]
  rfl

theorem commonPrefixLength_eq {k : Nat} (hlen : a.length = b.length) (hk : k < 8 * a.length)
    (hsame : ∀ i < k, bit a i = bit b i) (hdiff : bit a k ≠ bit b k) :
    commonPrefixLength a b = k := by
  induction a generalizing b k with
  | nil => exact absurd hk (Nat.not_lt_zero k)
  | cons x xs ih =>
    obtain ⟨y, ys, rfl⟩ := List.exists_cons_of_length_eq_add_one hlen.symm
    -- the bits of the XOR of the two bytes say where they differ
    have hxor : ∀ i < 8, (x ^^^ y).toBitVec.getLsbD (7 - i) =
        (bit (x :: xs) i ^^ bit (y :: ys) i) := by
      intro i hi
      rw [UInt8.toBitVec_xor, BitVec.getLsbD_xor, bit_cons_of_lt x xs hi, bit_cons_of_lt y ys hi]
    rw [commonPrefixLength]
    by_cases hk8 : k < 8
    · obtain ⟨hne, hbits⟩ := first_bit (x ^^^ y) k hk8
        ⟨fun i hi => by rw [hxor i (by omega), hsame i hi, Bool.xor_self],
          by rw [hxor k hk8]; exact bne_iff_ne.mpr hdiff⟩
      rw [if_neg hne, hbits]
    · have hzero := eq_zero_of_bits (x ^^^ y)
        (fun i hi => by rw [hxor i hi, hsame i (by omega), Bool.xor_self])
      obtain ⟨m, rfl⟩ : ∃ m, k = m + 8 := ⟨k - 8, by omega⟩
      rw [bit_cons_add, bit_cons_add] at hdiff
      rw [List.length_cons] at hk
      rw [if_pos hzero, ih (Nat.succ.inj hlen) (by omega) ?_ hdiff, Nat.add_comm]
      intro i hi
      have hbit := hsame (i + 8) (by omega)
      rwa [bit_cons_add, bit_cons_add] at hbit

/-- **Bucket geometry.** A longer common prefix is closer, distances order the identifiers
strictly and totally, and a bucket's random target is in that bucket. -/
theorem bucket_geometry :
    (∀ a b c : Bytes, a.length = nodeIDLen → b.length = nodeIDLen → c.length = nodeIDLen →
      commonPrefixLength a c < commonPrefixLength a b → compareDistance a b c < 0) ∧
    (∀ target : Bytes, target.length = nodeIDLen →
      (∀ a, ¬ compareDistance target a a < 0) ∧
      (∀ a b c : Bytes, a.length = nodeIDLen → b.length = nodeIDLen → c.length = nodeIDLen →
        compareDistance target a b < 0 → compareDistance target b c < 0 →
        compareDistance target a c < 0) ∧
      ∀ a b : Bytes, a.length = nodeIDLen → b.length = nodeIDLen → a ≠ b →
        compareDistance target a b < 0 ∨ compareDistance target b a < 0) ∧
    ∀ t selfID : Bytes, t.length = nodeIDLen → selfID.length = nodeIDLen → ∀ i ≤ 255,
      (randomTargetInBucket t selfID i).length = nodeIDLen ∧
        commonPrefixLength selfID (randomTargetInBucket t selfID i) = i := by
  refine ⟨?_, ?_, ?_⟩
  · intro a b c ha hb hc h
    rw [(compareDistance_iff ha hb hc).1]
    exact distance_lt_of_prefix (ha.trans hb.symm) (ha.trans hc.symm) h
  · intro target ht
    refine ⟨?_, ?_, ?_⟩
    · intro a h
      by_cases ha : a.length = nodeIDLen
      · rw [(compareDistance_iff ht ha ha).1] at h
        exact Nat.lt_irrefl _ h
      · rw [compareDistance, if_pos (.inr (.inl ha))] at h
        exact absurd h (by decide)
    · intro a b c ha hb hc hab hbc
      rw [(compareDistance_iff ht ha hb).1] at hab
      rw [(compareDistance_iff ht hb hc).1] at hbc
      rw [(compareDistance_iff ht ha hc).1]
      exact Nat.lt_trans hab hbc
    · intro a b ha hb hne
      rw [(compareDistance_iff ht ha hb).1, (compareDistance_iff ht hb ha).1]
      exact Nat.lt_or_gt_of_ne fun h => hne (distance_inj (ha.trans ht.symm) (hb.trans ht.symm) h)
  · intro t selfID ht hself i hi
    have hlen : t.length = 32 := ht
    obtain ⟨hloop, hbits⟩ := @bit_foldl_copyBits t selfID i (by omega)
    have hlast : (1 : UInt8) - bitOf selfID i = if !bit selfID i then 1 else 0 := by
      rw [bitOf_eq]
      cases bit selfID i with
      | true | false => rfl
    have hsize : (randomTargetInBucket t selfID i).length = nodeIDLen :=
      (length_copyBits _ _ _).trans (hloop.trans ht)
    have hin : i < 8 * selfID.length := by
      rw [hself]
      show i < 256
      omega
    refine ⟨hsize, commonPrefixLength_eq (hself.trans hsize.symm) hin ?_ ?_⟩
    · intro j hj
      rw [randomTargetInBucket, hlast, bit_copyBits (by omega), if_neg (by omega), hbits j hj]
    · rw [randomTargetInBucket, hlast, bit_copyBits (by omega), if_pos rfl]
      exact (Bool.not_ne_self _).symm

end Freens.Dht.Routing
