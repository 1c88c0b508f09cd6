/-
**CORE-DETERMINISTIC CBOR** (RFC 8949 §4.2): definite lengths, minimal heads, map
entries in ascending key order. Encoders take the already encoded parts. The
readers take an item off the front of their input, each with its round trip.
-/
import Mathlib.Tactic

namespace Freens.Library

/-- Go's `[]byte`. -/
abbrev Bytes := List UInt8

/-- The `width` low-order bytes of `n`, most significant first. -/
def bigEndian : (width : Nat) → (n : Nat) → Bytes
  | 0, _ => []
  | w + 1, n => UInt8.ofNat (n / 256 ^ w % 256) :: bigEndian w n

theorem bigEndian_length : ∀ (w n : Nat), (bigEndian w n).length = w
  | 0, _ => rfl
  | w + 1, n => by simp only [bigEndian, List.length_cons, bigEndian_length w n]

/-- The number a big-endian byte string denotes. -/
def ofBigEndian (b : Bytes) : Nat := b.foldl (fun acc x => acc * 256 + x.toNat) 0

theorem ofBigEndian_foldl (w n acc : Nat) :
    (bigEndian w n).foldl (fun acc x => acc * 256 + x.toNat) acc = acc * 256 ^ w + n % 256 ^ w := by
  induction w generalizing acc with
  | zero => simp [bigEndian, Nat.mod_one]
  | succ w ih =>
    have hdigit : (UInt8.ofNat (n / 256 ^ w % 256)).toNat = n / 256 ^ w % 256 := by
      rw [UInt8.toNat_ofNat']
      exact Nat.mod_mod _ 256
    have hsplit : n % 256 ^ (w + 1) = n % 256 ^ w + 256 ^ w * (n / 256 ^ w % 256) := by
      rw [Nat.pow_succ]
      exact Nat.mod_mul
    rw [bigEndian, List.foldl_cons, ih, hdigit, hsplit, Nat.pow_succ]
    ring

theorem ofBigEndian_bigEndian (w n : Nat) : ofBigEndian (bigEndian w n) = n % 256 ^ w := by
  rw [ofBigEndian, ofBigEndian_foldl, Nat.zero_mul, Nat.zero_add]

theorem ofBigEndian_foldl_lt (b : Bytes) (acc : Nat) :
    b.foldl (fun acc x => acc * 256 + x.toNat) acc < (acc + 1) * 256 ^ b.length := by
  induction b generalizing acc with
  | nil => simp
  | cons x b ih =>
    have hx := x.toNat_lt
    calc (x :: b).foldl (fun acc x => acc * 256 + x.toNat) acc
        < (acc * 256 + x.toNat + 1) * 256 ^ b.length := ih _
      _ ≤ ((acc + 1) * 256) * 256 ^ b.length := Nat.mul_le_mul_right _ (by omega)
      _ = (acc + 1) * 256 ^ (x :: b).length := by rw [List.length_cons, Nat.pow_succ]; ring

theorem ofBigEndian_lt (b : Bytes) : ofBigEndian b < 256 ^ b.length := by
  have h := ofBigEndian_foldl_lt b 0
  rwa [Nat.zero_add, Nat.one_mul] at h

namespace Cbor

/-- An item head: major type and argument, in the shortest form. -/
def head (major n : Nat) : Bytes :=
  if n < 24 then [UInt8.ofNat (major * 32 + n)]
  else if n < 2 ^ 8 then UInt8.ofNat (major * 32 + 24) :: bigEndian 1 n
  else if n < 2 ^ 16 then UInt8.ofNat (major * 32 + 25) :: bigEndian 2 n
  else if n < 2 ^ 32 then UInt8.ofNat (major * 32 + 26) :: bigEndian 4 n
  else UInt8.ofNat (major * 32 + 27) :: bigEndian 8 n

/-- An unsigned integer. -/
def uint (n : UInt64) : Bytes := head 0 n.toNat

/-- A byte string. -/
def bstr (b : Bytes) : Bytes := head 2 b.length ++ b

/-- A text string, given by its UTF-8 bytes. -/
def tstr (b : Bytes) : Bytes := head 3 b.length ++ b

/-- An array of encoded items. -/
def array (items : List Bytes) : Bytes := head 4 items.length ++ items.flatten

/-- A map with unsigned keys, the entries in ascending key order. -/
def map (entries : List (UInt64 × Bytes)) : Bytes :=
  head 5 entries.length ++ (entries.map (fun e => uint e.1 ++ e.2)).flatten

/-- The simple value true. -/
def simpleTrue : Bytes := [0xf5]

/-! Readers. -/

/-- The first `n` bytes and what follows, when there are that many. -/
def take? (n : Nat) (b : Bytes) : Option (Bytes × Bytes) :=
  if b.length < n then none else some (b.take n, b.drop n)

theorem take?_append {n : Nat} {a rest : Bytes} (h : a.length = n) :
    take? n (a ++ rest) = some (a, rest) := by
  subst h
  simp [take?]

/-- Read an item head: major type, argument, rest. -/
def readHead : Bytes → Option (Nat × Nat × Bytes)
  | [] => none
  | b :: rest =>
    let major := b.toNat / 32
    let info := b.toNat % 32
    let argument (width : Nat) := (take? width rest).map (fun p => (major, ofBigEndian p.1, p.2))
    if info < 24 then some (major, info, rest)
    else if info = 24 then argument 1
    else if info = 25 then argument 2
    else if info = 26 then argument 4
    else if info = 27 then argument 8
    else none

variable {rest rest' : Bytes}

theorem readHead_wide {major info width n : Nat} (hmajor : major < 8)
    (hinfo : (info, width) ∈ [(24, 1), (25, 2), (26, 4), (27, 8)]) :
    readHead ((UInt8.ofNat (major * 32 + info) :: bigEndian width n) ++ rest)
      = some (major, n % 256 ^ width, rest) := by
  have hinfo' : 24 ≤ info ∧ info < 28 := by
    simp only [List.mem_cons, Prod.mk.injEq, List.not_mem_nil, or_false] at hinfo
    omega
  have hbyte : (UInt8.ofNat (major * 32 + info)).toNat = major * 32 + info := by
    rw [UInt8.toNat_ofNat']
    omega
  have htake := @take?_append width (bigEndian width n) rest (bigEndian_length width n)
  have hmaj : (major * 32 + info) / 32 = major := by omega
  have hinf : (major * 32 + info) % 32 = info := by omega
  simp only [List.cons_append, readHead, hbyte, hmaj, hinf]
  simp only [List.mem_cons, Prod.mk.injEq, List.not_mem_nil, or_false] at hinfo
  rcases hinfo with ⟨hi, hw⟩ | ⟨hi, hw⟩ | ⟨hi, hw⟩ | ⟨hi, hw⟩ <;> subst hi hw <;>
    simp [htake, ofBigEndian_bigEndian]

/-- **Heads round-trip**: the argument comes back modulo `2^64`. -/
theorem readHead_head {major n : Nat} (hmajor : major < 8) :
    readHead (head major n ++ rest) = some (major, n % 2 ^ 64, rest) := by
  have hwide : ∀ {info width : Nat}, (info, width) ∈ [(24, 1), (25, 2), (26, 4), (27, 8)] →
      n % 256 ^ width = n % 2 ^ 64 →
      readHead ((UInt8.ofNat (major * 32 + info) :: bigEndian width n) ++ rest)
        = some (major, n % 2 ^ 64, rest) := by
    intro info width hmem hmod
    rw [readHead_wide hmajor hmem, hmod]
  unfold head
  split
  next hsmall =>
    have hbyte : (UInt8.ofNat (major * 32 + n)).toNat = major * 32 + n := by
      rw [UInt8.toNat_ofNat']
      omega
    have hmaj : (major * 32 + n) / 32 = major := by omega
    have hinf : (major * 32 + n) % 32 = n := by omega
    simp only [List.singleton_append, readHead, hbyte, hmaj, hinf, hsmall, if_true]
    rw [Nat.mod_eq_of_lt (by omega)]
  next =>
    split
    next => exact hwide (by simp) (by omega)
    split
    next => exact hwide (by simp) (by omega)
    split
    next => exact hwide (by simp) (by omega)
    next => exact hwide (by simp) (by norm_num)

/-- Read an item of major type `major` whose argument is its length. -/
def readSized (major : Nat) (b : Bytes) : Option (Bytes × Bytes) :=
  match readHead b with
  | some (m, n, rest) => if m = major then take? n rest else none
  | none => none

/-- An unsigned integer read from the front. -/
def readUint (b : Bytes) : Option (UInt64 × Bytes) :=
  match readHead b with
  | some (m, n, rest) => if m = 0 then some (UInt64.ofNat n, rest) else none
  | none => none

/-- **Byte strings round-trip** below the largest length a head can carry. -/
theorem readSized_bstr {b rest : Bytes} (h : b.length < 2 ^ 64) :
    readSized 2 (bstr b ++ rest) = some (b, rest) := by
  rw [readSized, bstr, List.append_assoc, readHead_head (by decide), Nat.mod_eq_of_lt h]
  exact take?_append rfl

theorem readSized_tstr {b rest : Bytes} (h : b.length < 2 ^ 64) :
    readSized 3 (tstr b ++ rest) = some (b, rest) := by
  rw [readSized, tstr, List.append_assoc, readHead_head (by decide), Nat.mod_eq_of_lt h]
  exact take?_append rfl

theorem tstr_append_inj {a b : Bytes} (ha : a.length < 2 ^ 64) (hb : b.length < 2 ^ 64)
    (h : tstr a ++ rest = tstr b ++ rest') : a = b ∧ rest = rest' := by
  have hread := @readSized_tstr a rest ha
  rw [h, readSized_tstr hb, Option.some.injEq, Prod.mk.injEq] at hread
  exact ⟨hread.1.symm, hread.2.symm⟩

theorem bstr_append_inj {a b : Bytes} (ha : a.length < 2 ^ 64) (hb : b.length < 2 ^ 64)
    (h : bstr a ++ rest = bstr b ++ rest') : a = b ∧ rest = rest' := by
  have hread := @readSized_bstr a rest ha
  rw [h, readSized_bstr hb, Option.some.injEq, Prod.mk.injEq] at hread
  exact ⟨hread.1.symm, hread.2.symm⟩

theorem readUint_uint (n : UInt64) (rest : Bytes) : readUint (uint n ++ rest) = some (n, rest) := by
  rw [readUint, uint, readHead_head (by decide), Nat.mod_eq_of_lt n.toNat_lt]
  simp

theorem uint_append_inj {a b : UInt64}
    (h : uint a ++ rest = uint b ++ rest') : a = b ∧ rest = rest' := by
  have hread := readUint_uint a rest
  rw [h, readUint_uint, Option.some.injEq, Prod.mk.injEq] at hread
  exact ⟨hread.1.symm, hread.2.symm⟩

/-- Read byte strings as long as the next item is one; `fuel` bounds the
rounds. -/
def readBstrs : Nat → Bytes → List Bytes × Bytes
  | 0, b => ([], b)
  | fuel + 1, b =>
    match readSized 2 b with
    | none => ([], b)
    | some (x, rest) =>
      let (xs, rest) := readBstrs fuel rest
      (x :: xs, rest)

theorem readBstrs_flatten : ∀ {items : List Bytes} {fuel : Nat} {rest : Bytes},
    (∀ x ∈ items, x.length < 2 ^ 64) → readSized 2 rest = none → items.length < fuel →
    readBstrs fuel ((items.map bstr).flatten ++ rest) = (items, rest)
  | [], fuel + 1, rest, _, hrest, _ => by simp [readBstrs, hrest]
  | x :: items, fuel + 1, rest, hall, hrest, hfuel => by
    have ih : readBstrs fuel ((items.map bstr).flatten ++ rest) = (items, rest) :=
      readBstrs_flatten (fun y hy => hall y (List.mem_cons_of_mem x hy)) hrest
        (Nat.lt_of_succ_lt_succ hfuel)
    rw [List.map_cons, List.flatten_cons, List.append_assoc, readBstrs,
      readSized_bstr (hall x List.mem_cons_self)]
    simp only [ih]

end Cbor

end Freens.Library
