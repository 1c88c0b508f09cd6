/-
**THE DECODING HALF OF A CBOR LIBRARY.**

`CborReader` has the calls of a program that decodes field by field, and what is
expected of them: they read back what the encoders of `Library.Cbor` write, and a
raw element they hand out is one data item. Nothing is said about other input.

`Cbor.strictReader` is such a reader for definite lengths; `Cbor.lenientReader`
also passes over arrays of indefinite length. `Cbor.embeds` is what an encoder asks
of a raw item it is to embed.
-/
import Freens.Library.Cbor

namespace Freens.Library

/-- The calls of a CBOR decoder and what they are expected to do. -/
structure CborReader where
  /-- One well-formed data item. -/
  Item : Bytes → Prop
  uint : Bytes → Option UInt64
  /-- A byte string; the inner `none` is a null. -/
  bytes : Bytes → Option (Option Bytes)
  bool : Bytes → Option Bool
  array : Bytes → Option (List Bytes)
  /-- The values of a map, by key. -/
  mapEntries : Bytes → Option (UInt64 → Option Bytes)
  /-- The values of a map for the fields of a record, by key. -/
  structFields : Bytes → Option (UInt64 → Option Bytes)
  /-- A null, which leaves a pointer nil. -/
  null : Bytes → Bool
  item_uint : ∀ n, Item (Cbor.uint n)
  item_bstr : ∀ b : Bytes, b.length < 2 ^ 64 → Item (Cbor.bstr b)
  item_true : Item Cbor.simpleTrue
  item_array : ∀ items : List Bytes, (∀ x ∈ items, Item x) → items.length < 2 ^ 64 →
    Item (Cbor.array items)
  item_map : ∀ entries : List (UInt64 × Bytes), (∀ x ∈ entries, Item x.2) →
    entries.length < 2 ^ 64 → Item (Cbor.map entries)
  uint_uint : ∀ n, uint (Cbor.uint n) = some n
  bytes_bstr : ∀ b : Bytes, b.length < 2 ^ 64 → bytes (Cbor.bstr b) = some (some b)
  bool_true : bool Cbor.simpleTrue = some true
  array_array : ∀ items : List Bytes, (∀ x ∈ items, Item x) → items.length < 2 ^ 64 →
    array (Cbor.array items) = some items
  mapEntries_map : ∀ entries : List (UInt64 × Bytes), (∀ x ∈ entries, Item x.2) →
    entries.length < 2 ^ 64 → (entries.map Prod.fst).Nodup →
    mapEntries (Cbor.map entries) = some (fun k => entries.lookup k)
  structFields_map : ∀ entries : List (UInt64 × Bytes), (∀ x ∈ entries, Item x.2) →
    entries.length < 2 ^ 64 → (entries.map Prod.fst).Nodup →
    structFields (Cbor.map entries) = some (fun k => entries.lookup k)
  null_array : ∀ items : List Bytes, null (Cbor.array items) = false
  null_map : ∀ entries : List (UInt64 × Bytes), null (Cbor.map entries) = false
  bytes_short : ∀ b x : Bytes, bytes b = some (some x) → x.length < 2 ^ 64
  array_short : ∀ (b : Bytes) (items : List Bytes), array b = some items → items.length < 2 ^ 64
  item_of_mapEntries : ∀ (b : Bytes) (m : UInt64 → Option Bytes), mapEntries b = some m →
    ∀ k v, m k = some v → Item v

namespace Cbor

/-! ## Heads -/

variable {b rest x : Bytes} {n major : Nat} {items : List Bytes} {skip : Bytes → Option Bytes}
  {entries : List (UInt64 × Bytes)}

theorem take?_eq_some (h : take? n b = some (x, rest)) : b = x ++ rest ∧ x.length = n := by
  unfold take? at h
  split at h
  next => cases h
  next hlen =>
    rw [Option.some.injEq, Prod.mk.injEq] at h
    obtain ⟨rfl, rfl⟩ := h
    refine ⟨(List.take_append_drop n b).symm, ?_⟩
    rw [List.length_take]
    omega

/-- **A head is local**: read the same in front of anything, with an argument of 64 bits. -/
theorem readHead_split (h : readHead b = some (major, n, rest)) :
    n < 2 ^ 64 ∧ ∃ hd, b = hd ++ rest ∧ 0 < hd.length ∧
      ∀ t, readHead (hd ++ t) = some (major, n, t) := by
  cases b with
  | nil => cases h
  | cons c tail =>
    unfold readHead at h
    dsimp only at h
    -- a wide argument: its bytes belong to the head
    have hwide : ∀ {width : Nat}, width ≤ 8 →
        (∀ t, readHead (c :: t) =
          (take? width t).map (fun p => (c.toNat / 32, ofBigEndian p.1, p.2))) →
        (take? width tail).map (fun p => (c.toNat / 32, ofBigEndian p.1, p.2)) =
          some (major, n, rest) →
        n < 2 ^ 64 ∧ ∃ hd, c :: tail = hd ++ rest ∧ 0 < hd.length ∧
          ∀ t, readHead (hd ++ t) = some (major, n, t) := by
      intro width hwidth hread hsome
      rw [Option.map_eq_some_iff] at hsome
      obtain ⟨⟨x, rest'⟩, htake, heq⟩ := hsome
      rw [Prod.mk.injEq, Prod.mk.injEq] at heq
      obtain ⟨rfl, rfl, rfl⟩ := heq
      obtain ⟨rfl, hx⟩ := take?_eq_some htake
      refine ⟨?_, c :: x, rfl, Nat.succ_pos _, ?_⟩
      · calc ofBigEndian x < 256 ^ x.length := ofBigEndian_lt x
          _ ≤ 256 ^ 8 := Nat.pow_le_pow_right (by omega) (by omega)
          _ = 2 ^ 64 := by norm_num
      · intro t
        rw [List.cons_append, hread, take?_append hx]
        rfl
    by_cases hsmall : c.toNat % 32 < 24
    · rw [if_pos hsmall, Option.some.injEq, Prod.mk.injEq, Prod.mk.injEq] at h
      obtain ⟨rfl, rfl, rfl⟩ := h
      refine ⟨by omega, [c], rfl, Nat.one_pos, ?_⟩
      intro t
      show readHead (c :: t) = _
      unfold readHead
      dsimp only
      rw [if_pos hsmall]
    · rw [if_neg hsmall] at h
      split at h
      next h24 => exact hwide (by omega) (fun t => by simp [readHead, h24]) h
      split at h
      next h25 => exact hwide (by omega) (fun t => by simp [readHead, h25]) h
      split at h
      next h26 => exact hwide (by omega) (fun t => by simp [readHead, h26]) h
      split at h
      next h27 => exact hwide (by omega) (fun t => by simp [readHead, h27]) h
      next => cases h

theorem readHead_head_of_lt (hmajor : major < 8) (hn : n < 2 ^ 64) :
    readHead (head major n ++ rest) = some (major, n, rest) := by
  rw [readHead_head hmajor, Nat.mod_eq_of_lt hn]

theorem head_length_pos (major n : Nat) : 0 < (head major n).length := by
  unfold head
  split
  · exact Nat.one_pos
  split
  · exact Nat.succ_pos _
  split
  · exact Nat.succ_pos _
  · split <;> exact Nat.succ_pos _

/-! ## Data items -/

/-- `n` items cut off the front by `skip`. -/
def splitN (skip : Bytes → Option Bytes) : Nat → Bytes → Option (List Bytes × Bytes)
  | 0, b => some ([], b)
  | n + 1, b =>
    match skip b with
    | none => none
    | some rest =>
      (splitN skip n rest).map (fun p => (b.take (b.length - rest.length) :: p.1, p.2))

/-- The content of the tags 0 to 3, the innermost of nested ones, has the type the tag is for. -/
def tagTakes (tag : Nat) (content : Bytes) : Bool :=
  match content.head? with
  | none => true
  | some c =>
    if c.toNat / 32 = 6 then true
    else if tag = 0 then c.toNat / 32 = 3
    else if tag = 1 then c.toNat / 32 < 2 || (0xf9 ≤ c && c ≤ 0xfb)
    else if tag = 2 ∨ tag = 3 then c.toNat / 32 = 2
    else true

/-- What follows the body of an item with this head; `skip` passes over an
item inside it. -/
def skipBody (strict : Bool) (skip : Bytes → Option Bytes) (major n : Nat) (b : Bytes) :
    Option Bytes :=
  if major = 2 ∨ major = 3 then (take? n b).map Prod.snd
  else if major = 4 then (splitN skip n b).map Prod.snd
  else if major = 5 then (splitN skip (2 * n) b).map Prod.snd
  else if major = 6 then (if strict && !tagTakes n b then none else skip b)
  -- numbers, simple values and floats are their heads
  else some b

/-- What follows the break that ends a run of items. -/
def skipRun (skip : Bytes → Option Bytes) : Nat → Bytes → Option Bytes
  | 0, _ => none
  | n + 1, b =>
    if b.head? = some 0xff then some b.tail
    else
      match skip b with
      | none => none
      | some rest => skipRun skip n rest

/-- What follows an array of indefinite length. -/
def skipIndefinite (skip : Bytes → Option Bytes) (n : Nat) (b : Bytes) : Option Bytes :=
  if b.head? = some 0x9f then skipRun skip n b.tail else none

/-- What follows the first item; `fuel` bounds the nesting. A strict scan refuses indefinite
lengths and misplaced tags. -/
def skipItem (strict : Bool) : Nat → Bytes → Option Bytes
  | 0, _ => none
  | fuel + 1, b =>
    match readHead b with
    | none => if strict then none else skipIndefinite (skipItem strict fuel) fuel b
    | some (major, n, rest) => skipBody strict (skipItem strict fuel) major n rest

/-- **A data item**: whatever follows it, it is what is skipped. -/
def IsItem (strict : Bool) (x : Bytes) : Prop :=
  ∀ fuel rest, x.length ≤ fuel → skipItem strict fuel (x ++ rest) = some rest

/-- **The encoder embeds a raw item** of definite lengths, with tags where they belong. -/
def embeds (b : Bytes) : Bool := skipItem true b.length b = some []

variable {strict : Bool}

theorem IsItem.cons (h : IsItem strict x) : ∃ c t, x = c :: t ∧ c ≠ 0xff := by
  cases x with
  | nil => exact absurd (h 0 [] (Nat.le_refl 0)) (by simp [skipItem])
  | cons c t =>
    refine ⟨c, t, rfl, ?_⟩
    rintro rfl
    have hskip := h (t.length + 1) [] (Nat.le_refl _)
    have hhead : readHead ((0xff :: t) ++ []) = none := rfl
    rw [skipItem, hhead] at hskip
    cases strict with
    | true => cases hskip
    | false => exact absurd hskip (by simp [skipIndefinite])

variable {fuel : Nat} {hd : Bytes}

theorem splitN_flatten (rest : Bytes) (hitems : ∀ x ∈ items, IsItem strict x)
    (hfuel : items.flatten.length ≤ fuel) :
    splitN (skipItem strict fuel) items.length (items.flatten ++ rest) = some (items, rest) := by
  induction items with
  | nil => rfl
  | cons x items ih =>
    rw [List.flatten_cons, List.length_append] at hfuel
    have hskip := hitems x List.mem_cons_self fuel (items.flatten ++ rest) (by omega)
    have hrest := ih (fun y hy => hitems y (List.mem_cons_of_mem x hy)) (by omega)
    have htake : (x ++ (items.flatten ++ rest)).take
        ((x ++ (items.flatten ++ rest)).length - (items.flatten ++ rest).length) = x := by
      rw [@List.length_append _ x (items.flatten ++ rest), Nat.add_sub_cancel, List.take_left]
    rw [List.flatten_cons, List.append_assoc, List.length_cons, splitN, hskip]
    dsimp only
    rw [hrest, Option.map_some, htake]

theorem isItem_of_body {body : Bytes} (hpos : 0 < hd.length)
    (hread : ∀ t, readHead (hd ++ t) = some (major, n, t))
    (hbody : ∀ fuel rest, body.length ≤ fuel →
      skipBody strict (skipItem strict fuel) major n (body ++ rest) = some rest) :
    IsItem strict (hd ++ body) := by
  intro fuel rest hfuel
  rw [List.length_append] at hfuel
  cases fuel with
  | zero => omega
  | succ fuel =>
    rw [skipItem, List.append_assoc, hread]
    exact hbody fuel rest (by omega)

/-! The bodies, by major type. -/

theorem skipBody_sized (rest : Bytes) (hmajor : major = 2 ∨ major = 3) (hx : x.length = n) :
    skipBody strict skip major n (x ++ rest) = some rest := by
  rw [skipBody, if_pos hmajor, take?_append hx]
  rfl

theorem skipBody_items (rest : Bytes)
    (hmajor : (major = 4 ∧ items.length = n) ∨ (major = 5 ∧ items.length = 2 * n))
    (hitems : ∀ x ∈ items, IsItem strict x) (hfuel : items.flatten.length ≤ fuel) :
    skipBody strict (skipItem strict fuel) major n (items.flatten ++ rest) = some rest := by
  have hsplit := splitN_flatten rest hitems hfuel
  rw [skipBody]
  rcases hmajor with ⟨rfl, hcount⟩ | ⟨rfl, hcount⟩
  · rw [if_neg (by omega), if_pos rfl, ← hcount, hsplit]
    rfl
  · rw [if_neg (by omega), if_neg (by omega), if_pos rfl, ← hcount, hsplit]
    rfl

theorem skipBody_head (n : Nat) (rest : Bytes)
    (hmajor : major < 2 ∨ 6 < major) : skipBody strict skip major n rest = some rest := by
  rw [skipBody, if_neg (by omega), if_neg (by omega), if_neg (by omega), if_neg (by omega)]

theorem isItem_of_head (hpos : 0 < hd.length) (hread : ∀ t, readHead (hd ++ t) = some (major, n, t))
    (hmajor : major < 2 ∨ 6 < major) : IsItem strict hd := by
  have hbody : ∀ (fuel : Nat) (rest : Bytes), ([] : Bytes).length ≤ fuel →
      skipBody strict (skipItem strict fuel) major n ([] ++ rest) = some rest :=
    fun _ rest _ => skipBody_head n rest hmajor
  have hitem := isItem_of_body hpos hread hbody
  rwa [List.append_nil] at hitem

/-! What the encoders write is an item. -/

theorem isItem_uint (n : UInt64) : IsItem strict (uint n) :=
  isItem_of_head (head_length_pos 0 n.toNat)
    (fun _ => readHead_head_of_lt (by omega) n.toNat_lt) (.inl (by omega))

theorem isItem_bstr (h : b.length < 2 ^ 64) : IsItem strict (bstr b) :=
  isItem_of_body (head_length_pos 2 b.length) (fun _ => readHead_head_of_lt (by omega) h)
    (fun _ rest _ => skipBody_sized rest (.inl rfl) rfl)

theorem isItem_true : IsItem strict simpleTrue :=
  isItem_of_head Nat.one_pos (fun _ => rfl) (.inr (show 6 < 245 / 32 by omega))

theorem isItem_array (hitems : ∀ x ∈ items, IsItem strict x)
    (hcount : items.length < 2 ^ 64) : IsItem strict (array items) :=
  isItem_of_body (head_length_pos 4 items.length)
    (fun _ => readHead_head_of_lt (by omega) hcount)
    (fun _ rest hfuel => skipBody_items rest (.inl ⟨rfl, rfl⟩) hitems hfuel)

/-- Keys and values in a row, as a map lays them out. -/
def keysAndValues (entries : List (UInt64 × Bytes)) : List Bytes :=
  entries.flatMap (fun e => [uint e.1, e.2])

theorem length_keysAndValues (entries : List (UInt64 × Bytes)) :
    (keysAndValues entries).length = 2 * entries.length := by
  induction entries with
  | nil => rfl
  | cons e entries ih =>
    show (keysAndValues entries).length + 1 + 1 = 2 * (entries.length + 1)
    omega

theorem map_eq (entries : List (UInt64 × Bytes)) :
    map entries = head 5 entries.length ++ (keysAndValues entries).flatten := by
  have hflat : (entries.map (fun e => uint e.1 ++ e.2)).flatten
      = (keysAndValues entries).flatten := by
    induction entries with
    | nil => rfl
    | cons e entries ih =>
      show (uint e.1 ++ e.2) ++ _ = uint e.1 ++ (e.2 ++ (keysAndValues entries).flatten)
      rw [ih, List.append_assoc]
  rw [map, hflat]

theorem isItem_keysAndValues (h : ∀ x ∈ entries, IsItem strict x.2) :
    ∀ x ∈ keysAndValues entries, IsItem strict x := by
  intro x hx
  obtain ⟨e, he, hmem⟩ := List.mem_flatMap.mp hx
  rcases List.mem_cons.mp hmem with hkey | hvalue
  · rw [hkey]
    exact isItem_uint e.1
  · rw [List.mem_singleton.mp hvalue]
    exact h e he

theorem isItem_map (h : ∀ x ∈ entries, IsItem strict x.2)
    (hcount : entries.length < 2 ^ 64) : IsItem strict (map entries) := by
  rw [map_eq]
  exact isItem_of_body (head_length_pos 5 entries.length)
    (fun _ => readHead_head_of_lt (by omega) hcount)
    (fun _ rest hfuel => skipBody_items rest (.inr ⟨rfl, length_keysAndValues entries⟩)
      (isItem_keysAndValues h) hfuel)

theorem skipRun_flatten {items : List Bytes} {n : Nat} (rest : Bytes)
    (hitems : ∀ x ∈ items, IsItem false x) (hfuel : items.flatten.length ≤ fuel)
    (hn : items.length < n) :
    skipRun (skipItem false fuel) n (items.flatten ++ 0xff :: rest) = some rest := by
  induction items generalizing n with
  | nil =>
    obtain ⟨n, rfl⟩ := Nat.exists_eq_add_one_of_ne_zero (by omega : n ≠ 0)
    rfl
  | cons x items ih =>
    obtain ⟨n, rfl⟩ := Nat.exists_eq_add_one_of_ne_zero (by omega : n ≠ 0)
    rw [List.flatten_cons, List.length_append] at hfuel
    have hskip := hitems x List.mem_cons_self fuel (items.flatten ++ 0xff :: rest) (by omega)
    have hrest := @ih n (fun y hy => hitems y (List.mem_cons_of_mem x hy)) (by omega)
      (by simpa using hn)
    obtain ⟨c, t, rfl, hbreak⟩ := (hitems x List.mem_cons_self).cons
    rw [List.flatten_cons, List.append_assoc, skipRun, hskip, if_neg (by simpa using hbreak)]
    exact hrest

theorem length_le_flatten (hitems : ∀ x ∈ items, IsItem strict x) :
    items.length ≤ items.flatten.length := by
  induction items with
  | nil => exact Nat.le_refl 0
  | cons x items ih =>
    have hle := ih fun y hy => hitems y (List.mem_cons_of_mem x hy)
    obtain ⟨c, t, rfl, _⟩ := (hitems x List.mem_cons_self).cons
    simp only [List.flatten_cons, List.length_append, List.length_cons]
    omega

/-- **An array of indefinite length** is an item of the lenient scan. -/
theorem isItem_indefinite (hitems : ∀ x ∈ items, IsItem false x) :
    IsItem false (0x9f :: (items.flatten ++ [0xff])) := by
  intro fuel rest hfuel
  have hle := length_le_flatten hitems
  simp only [List.length_cons, List.length_append, List.length_nil] at hfuel
  obtain ⟨fuel, rfl⟩ := Nat.exists_eq_add_one_of_ne_zero (by omega : fuel ≠ 0)
  have hrun := @skipRun_flatten fuel items fuel rest hitems (by omega) (by omega)
  have hhead : readHead (0x9f :: (items.flatten ++ [0xff]) ++ rest) = none := rfl
  rw [skipItem, hhead]
  simpa [skipIndefinite] using hrun

/-! What is skipped is an item. -/

section
variable (hskip : ∀ b rest, skip b = some rest → ∃ x, b = x ++ rest ∧ IsItem strict x)
include hskip

theorem splitN_sound
    {n : Nat} {b rest : Bytes} {items : List Bytes} (h : splitN skip n b = some (items, rest)) :
    b = items.flatten ++ rest ∧ items.length = n ∧ ∀ x ∈ items, IsItem strict x := by
  induction n generalizing b items with
  | zero =>
    rw [splitN, Option.some.injEq, Prod.mk.injEq] at h
    obtain ⟨rfl, rfl⟩ := h
    exact ⟨rfl, rfl, fun x hx => absurd hx List.not_mem_nil⟩
  | succ n ih =>
    rw [splitN] at h
    split at h
    next => cases h
    next mid hone =>
      rw [Option.map_eq_some_iff] at h
      obtain ⟨⟨tail, rest'⟩, hsplit, heq⟩ := h
      rw [Prod.mk.injEq] at heq
      obtain ⟨rfl, rfl⟩ := heq
      obtain ⟨x, rfl, hx⟩ := hskip b mid hone
      obtain ⟨hmid, hlen, htail⟩ := ih hsplit
      -- the bytes before the rest are the item itself
      have htake : (x ++ mid).take ((x ++ mid).length - mid.length) = x := by
        rw [List.length_append, Nat.add_sub_cancel, List.take_left]
      rw [htake]
      refine ⟨?_, ?_, List.forall_mem_cons.mpr ⟨hx, htail⟩⟩
      · rw [List.flatten_cons, List.append_assoc, ← hmid]
      · rw [List.length_cons, hlen]

/-- **What a body's skipping passes over is a body.** -/
theorem skipBody_sound (h : skipBody strict skip major n b = some rest) :
    ∃ body, b = body ++ rest ∧ ∀ fuel rest, body.length ≤ fuel →
      skipBody strict (skipItem strict fuel) major n (body ++ rest) = some rest := by
  have hitems : ∀ {count : Nat}, (splitN skip count b).map Prod.snd = some rest →
      ((major = 4 ∧ count = n) ∨ (major = 5 ∧ count = 2 * n)) →
      ∃ body, b = body ++ rest ∧ ∀ fuel rest, body.length ≤ fuel →
        skipBody strict (skipItem strict fuel) major n (body ++ rest) = some rest := by
    intro count hsplit hmajor
    rw [Option.map_eq_some_iff] at hsplit
    obtain ⟨⟨items, rest'⟩, hsplit, rfl⟩ := hsplit
    obtain ⟨hb, rfl, hall⟩ := splitN_sound hskip hsplit
    exact ⟨items.flatten, hb, fun _ rest hfuel => skipBody_items rest hmajor hall hfuel⟩
  unfold skipBody at h
  split at h
  next hsized =>
    rw [Option.map_eq_some_iff] at h
    obtain ⟨⟨x, rest'⟩, htake, rfl⟩ := h
    obtain ⟨hb, hx⟩ := take?_eq_some htake
    exact ⟨x, hb, fun _ rest _ => skipBody_sized rest hsized hx⟩
  next hsized =>
    split at h
    next harray => exact hitems h (.inl ⟨harray, rfl⟩)
    next harray =>
      split at h
      next hmap => exact hitems h (.inr ⟨hmap, rfl⟩)
      next hmap =>
        split at h
        next htag =>
          split at h
          next => cases h
          next htakes =>
            obtain ⟨x, rfl, hx⟩ := hskip b rest h
            refine ⟨x, rfl, ?_⟩
            intro fuel rest' hfuel
            -- only the first byte of the content counts
            have hsame : tagTakes n (x ++ rest') = tagTakes n (x ++ rest) := by
              obtain ⟨c, t, rfl, _⟩ := hx.cons
              rfl
            rw [skipBody, if_neg hsized, if_neg harray, if_neg hmap, if_pos htag, hsame,
              if_neg htakes]
            exact hx fuel rest' hfuel
        next htag =>
          rw [Option.some.injEq] at h
          refine ⟨[], h, ?_⟩
          intro fuel rest _
          rw [skipBody, if_neg hsized, if_neg harray, if_neg hmap, if_neg htag]
          rfl

theorem skipRun_sound {n : Nat} {b : Bytes} (h : skipRun skip n b = some rest) :
    ∃ items : List Bytes, b = items.flatten ++ 0xff :: rest ∧ ∀ x ∈ items, IsItem strict x := by
  induction n generalizing b with
  | zero => cases h
  | succ n ih =>
    rw [skipRun] at h
    split at h
    next hbreak =>
      obtain rfl := Option.some.inj h
      refine ⟨[], ?_, fun x hx => absurd hx List.not_mem_nil⟩
      cases b with
      | nil => cases hbreak
      | cons c t => rw [Option.some.inj hbreak]; rfl
    next =>
      split at h
      next => cases h
      next mid hone =>
        obtain ⟨x, rfl, hx⟩ := hskip b mid hone
        obtain ⟨items, rfl, hall⟩ := ih h
        exact ⟨x :: items, by simp, List.forall_mem_cons.mpr ⟨hx, hall⟩⟩

end

theorem skipItem_sound (h : skipItem strict fuel b = some rest) :
    ∃ x, b = x ++ rest ∧ IsItem strict x := by
  induction fuel generalizing b rest with
  | zero => cases h
  | succ fuel ih =>
    rw [skipItem] at h
    split at h
    next =>
      cases strict with
      | true => cases h
      | false =>
        simp only [Bool.false_eq_true, if_false, skipIndefinite] at h
        split at h
        next hstart =>
          obtain ⟨items, htail, hall⟩ := skipRun_sound (fun _ _ => ih) h
          refine ⟨_, ?_, isItem_indefinite hall⟩
          cases b with
          | nil => cases hstart
          | cons c t =>
            rw [Option.some.inj hstart, show t = _ from htail]
            simp
        next => cases h
    next major n tail hhead =>
      obtain ⟨_, hd, rfl, hpos, hread⟩ := readHead_split hhead
      obtain ⟨body, rfl, hbody⟩ := skipBody_sound (fun _ _ => ih) h
      exact ⟨hd ++ body, (List.append_assoc _ _ _).symm, isItem_of_body hpos hread hbody⟩

/-! ## Readers -/

/-- Null or undefined. -/
def isNull (b : Bytes) : Bool := b = [0xf6] ∨ b = [0xf7]

/-- An unsigned integer that fills the input. -/
def wholeUint (b : Bytes) : Option UInt64 :=
  match readUint b with
  | none => none
  | some (n, rest) => if rest = [] then some n else none

/-- A byte string that fills the input, or null. -/
def wholeBytes (b : Bytes) : Option (Option Bytes) :=
  if isNull b then some none
  else
    match readSized 2 b with
    | none => none
    | some (x, rest) => if rest = [] then some (some x) else none

/-- A boolean that fills the input. -/
def wholeBool (b : Bytes) : Option Bool :=
  if b = simpleTrue then some true
  else if b = [0xf4] then some false
  else none

/-- The items of one array or map: `factor` of them for each counted one. -/
def wholeItems (strict : Bool) (major factor : Nat) (b : Bytes) : Option (List Bytes) :=
  match readHead b with
  | none => none
  | some (m, n, rest) =>
    if m ≠ major then none
    else
      match splitN (skipItem strict rest.length) (factor * n) rest with
      | none => none
      | some (items, rest) => if rest = [] then some items else none

/-- Items read as key and value pairs. -/
def pairUp : List Bytes → Option (List (UInt64 × Bytes))
  | [] => some []
  | [_] => none
  | k :: v :: items =>
    match wholeUint k with
    | none => none
    | some key => (pairUp items).map (fun entries => (key, v) :: entries)

/-- The values of one map by key; the first of several values counts. -/
def wholeMap (strict : Bool) (b : Bytes) : Option (UInt64 → Option Bytes) :=
  match wholeItems strict 5 2 b with
  | none => none
  | some items => (pairUp items).map (fun entries k => entries.lookup k)

theorem wholeUint_uint (n : UInt64) : wholeUint (uint n) = some n := by
  have hread := readUint_uint n []
  rw [List.append_nil] at hread
  rw [wholeUint, hread]
  rfl

theorem isNull_of_readHead (h : readHead b = some (major, n, rest))
    (hmajor : major ≠ 7) : isNull b = false := by
  rw [Bool.eq_false_iff]
  intro hnull
  have hread : ∀ c : Bytes, c = [0xf6] ∨ c = [0xf7] → (readHead c).map Prod.fst = some 7 := by
    intro c hc
    rcases hc with rfl | rfl <;> rfl
  have hseven := hread b (of_decide_eq_true hnull)
  rw [h, Option.map_some, Option.some.injEq] at hseven
  exact hmajor hseven

theorem wholeBytes_bstr (h : b.length < 2 ^ 64) : wholeBytes (bstr b) = some (some b) := by
  have hread := @readSized_bstr b [] h
  rw [List.append_nil] at hread
  have hnull : isNull (bstr b) = false :=
    isNull_of_readHead (readHead_head_of_lt (by omega) h) (by omega)
  rw [wholeBytes, hnull, hread]
  rfl

theorem readSized_short (h : readSized major b = some (x, rest)) : x.length < 2 ^ 64 := by
  unfold readSized at h
  split at h
  next m n tail hhead =>
    split at h
    next =>
      rw [(take?_eq_some h).2]
      exact (readHead_split hhead).1
    next => cases h
  next => cases h

theorem wholeBytes_short (h : wholeBytes b = some (some x)) : x.length < 2 ^ 64 := by
  unfold wholeBytes at h
  split at h
  next => cases h
  split at h
  next => cases h
  next hread =>
    split at h
    next =>
      rw [Option.some.injEq, Option.some.injEq] at h
      subst h
      exact readSized_short hread
    next => cases h

/-- **Items are handed out as they were written.** -/
theorem wholeItems_flatten {major factor n : Nat} {items : List Bytes} (hmajor : major < 8)
    (hn : n < 2 ^ 64) (hcount : items.length = factor * n) (hitems : ∀ x ∈ items, IsItem strict x) :
    wholeItems strict major factor (head major n ++ items.flatten) = some items := by
  have hsplit := splitN_flatten [] hitems (Nat.le_refl items.flatten.length)
  rw [List.append_nil, hcount] at hsplit
  rw [wholeItems, readHead_head_of_lt hmajor hn]
  dsimp only
  rw [if_neg (by omega), hsplit]
  rfl

theorem wholeItems_sound {factor : Nat} (h : wholeItems strict major factor b = some items) :
    (∃ n < 2 ^ 64, items.length = factor * n) ∧ ∀ x ∈ items, IsItem strict x := by
  unfold wholeItems at h
  split at h
  next => cases h
  next m n rest hhead =>
    split at h
    next => cases h
    split at h
    next => cases h
    next hsplit =>
      split at h
      next =>
        rw [Option.some.injEq] at h
        subst h
        obtain ⟨_, hlen, hall⟩ := splitN_sound (fun _ _ => skipItem_sound) hsplit
        exact ⟨⟨n, (readHead_split hhead).1, hlen⟩, hall⟩
      next => cases h

theorem pairUp_keysAndValues (entries : List (UInt64 × Bytes)) :
    pairUp (keysAndValues entries) = some entries := by
  induction entries with
  | nil => rfl
  | cons e entries ih =>
    show pairUp (uint e.1 :: e.2 :: keysAndValues entries) = _
    rw [pairUp, wholeUint_uint, ih]
    rfl

theorem mem_of_pairUp (h : pairUp items = some entries) : ∀ e ∈ entries, e.2 ∈ items := by
  induction items using pairUp.induct generalizing entries with
  | case1 =>
    rw [pairUp, Option.some.injEq] at h
    subst h
    exact fun e he => absurd he List.not_mem_nil
  | case2 => cases h
  | case3 k v items hkey =>
    rw [pairUp, hkey] at h
    cases h
  | case4 k v items key hkey ih =>
    rw [pairUp, hkey] at h
    dsimp only at h
    rw [Option.map_eq_some_iff] at h
    obtain ⟨tail, htail, rfl⟩ := h
    intro e he
    rcases List.mem_cons.mp he with rfl | he
    · exact List.mem_cons_of_mem k List.mem_cons_self
    · exact List.mem_cons_of_mem k (List.mem_cons_of_mem v (ih htail e he))

theorem wholeMap_map (h : ∀ x ∈ entries, IsItem strict x.2) (hcount : entries.length < 2 ^ 64) :
    wholeMap strict (map entries) = some (fun k => entries.lookup k) := by
  have hitems := @wholeItems_flatten strict 5 2 _ _ (by omega) hcount (length_keysAndValues entries)
    (isItem_keysAndValues h)
  rw [wholeMap, map_eq, hitems]
  dsimp only
  rw [pairUp_keysAndValues]
  rfl

theorem isItem_of_wholeMap {v : Bytes} {m : UInt64 → Option Bytes} {k : UInt64}
    (h : wholeMap strict b = some m) (hv : m k = some v) : IsItem strict v := by
  unfold wholeMap at h
  split at h
  next => cases h
  next items hitems =>
    rw [Option.map_eq_some_iff] at h
    obtain ⟨entries, hpairs, rfl⟩ := h
    obtain ⟨front, back, rfl, _⟩ := List.lookup_eq_some_iff.mp hv
    have hmem := mem_of_pairUp hpairs (k, v) (List.mem_append_right front List.mem_cons_self)
    exact (wholeItems_sound hitems).2 v hmem

/-- The reader over the strict or the lenient scan. -/
def reader (strict : Bool) : CborReader where
  Item := IsItem strict
  uint := wholeUint
  bytes := wholeBytes
  bool := wholeBool
  array := wholeItems strict 4 1
  mapEntries := wholeMap strict
  structFields := wholeMap strict
  null := isNull
  item_uint := isItem_uint
  item_bstr := fun _ => isItem_bstr
  item_true := isItem_true
  item_array := fun _ => isItem_array
  item_map := fun _ => isItem_map
  uint_uint := wholeUint_uint
  bytes_bstr := fun _ => wholeBytes_bstr
  bool_true := rfl
  array_array := fun items hitems hcount =>
    wholeItems_flatten (by omega) hcount (Nat.one_mul _).symm hitems
  mapEntries_map := fun _ h hcount _ => wholeMap_map h hcount
  structFields_map := fun _ h hcount _ => wholeMap_map h hcount
  null_array := fun _ => isNull_of_readHead (readHead_head (by omega)) (by omega)
  null_map := fun _ => isNull_of_readHead (readHead_head (by omega)) (by omega)
  bytes_short := fun _ _ => wholeBytes_short
  array_short := by
    intro b items h
    obtain ⟨⟨n, hn, hlen⟩, _⟩ := wholeItems_sound h
    omega
  item_of_mapEntries := fun _ _ h _ _ => isItem_of_wholeMap h

/-- The reader of definite lengths only. -/
def strictReader : CborReader := reader true

/-- The reader that also takes indefinite arrays. -/
def lenientReader : CborReader := reader false

end Cbor

end Freens.Library
