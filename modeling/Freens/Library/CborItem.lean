/-
**CBOR DATA ITEMS AND WHAT THEIR BYTES DETERMINE** (RFC 8949 §2, §4.2).

A rendering is self-delimiting when it can be split off the front of any longer
input. The deterministic encoding of the whole data model is
(`Item.encode_append_inj`).
-/
import Freens.Library.Cbor

namespace Freens.Library

variable {n m : Nat} {s t : Bytes}

theorem bigEndian_inj {w : Nat} (hn : n < 256 ^ w) (hm : m < 256 ^ w)
    (h : bigEndian w n = bigEndian w m) : n = m := by
  have hread := congrArg ofBigEndian h
  rwa [ofBigEndian_bigEndian, ofBigEndian_bigEndian, Nat.mod_eq_of_lt hn,
    Nat.mod_eq_of_lt hm] at hread

namespace Cbor

/-! ## Heads -/

theorem head_append_inj {major : Nat} (hmajor : major < 8) (hn : n < 2 ^ 64) (hm : m < 2 ^ 64)
    (h : head major n ++ s = head major m ++ t) : n = m ∧ s = t := by
  have hread := congrArg readHead h
  rw [readHead_head hmajor, readHead_head hmajor, Option.some.injEq, Prod.mk.injEq,
    Prod.mk.injEq, Nat.mod_eq_of_lt hn, Nat.mod_eq_of_lt hm] at hread
  exact hread.2

/-- The first byte of the input is one of this major type. -/
def Leads (major : Nat) (b : Bytes) : Prop := ∃ c rest, b = c :: rest ∧ c.toNat / 32 = major

variable {α : Type} {b : Bytes} {f : α → Bytes} {k : UInt64}

theorem Leads.append {major : Nat} (h : Leads major b) (s : Bytes) : Leads major (b ++ s) := by
  obtain ⟨c, rest, hb, hc⟩ := h
  exact ⟨c, rest ++ s, by rw [hb]; rfl, hc⟩

theorem Leads.unique {m' : Nat} (h : Leads m b) (h' : Leads m' b) : m = m' := by
  obtain ⟨c, rest, hb, hc⟩ := h
  obtain ⟨c', rest', hb', hc'⟩ := h'
  rw [hb, List.cons.injEq] at hb'
  rw [← hc, ← hc', hb'.1]

theorem leads_head {major : Nat} (hmajor : major < 8) : Leads major (head major n) := by
  have hbyte : ∀ info, info < 32 → (UInt8.ofNat (major * 32 + info)).toNat / 32 = major := by
    intro info hinfo
    rw [UInt8.toNat_ofNat']
    omega
  unfold head
  split
  next h => exact ⟨_, _, rfl, hbyte n (by omega)⟩
  split
  next => exact ⟨_, _, rfl, hbyte 24 (by omega)⟩
  split
  next => exact ⟨_, _, rfl, hbyte 25 (by omega)⟩
  split
  next => exact ⟨_, _, rfl, hbyte 26 (by omega)⟩
  next => exact ⟨_, _, rfl, hbyte 27 (by omega)⟩

/-! ## Arrays and maps of encoded parts -/

variable {l : List α} {o : Option α} {rest' rest : List (UInt64 × Bytes)}

theorem flatten_append_inj {l' : List α} {s t : Bytes}
    (hf : ∀ a ∈ l, ∀ b ∈ l', ∀ s t, f a ++ s = f b ++ t → a = b ∧ s = t)
    (hlen : l.length = l'.length) (h : (l.map f).flatten ++ s = (l'.map f).flatten ++ t) :
    l = l' ∧ s = t := by
  induction l generalizing l' s t with
  | nil =>
    have hnil : l' = [] := List.length_eq_zero_iff.mp hlen.symm
    subst hnil
    exact ⟨rfl, h⟩
  | cons a l ih =>
    cases l' with
    | nil => cases hlen
    | cons b l' =>
      simp only [List.map_cons, List.flatten_cons, List.append_assoc] at h
      obtain ⟨hab, hrest⟩ := hf a List.mem_cons_self b List.mem_cons_self _ _ h
      obtain ⟨htail, hst⟩ := ih
        (fun x hx y hy => hf x (List.mem_cons_of_mem a hx) y (List.mem_cons_of_mem b hy))
        (Nat.succ.inj hlen) hrest
      exact ⟨by rw [hab, htail], hst⟩

/-- **Arrays** of self-delimiting elements are self-delimiting. -/
theorem array_append_inj {l' : List α}
    (hf : ∀ a ∈ l, ∀ b ∈ l', ∀ s t, f a ++ s = f b ++ t → a = b ∧ s = t) (hl : l.length < 2 ^ 64)
    (hl' : l'.length < 2 ^ 64)
    (h : array (l.map f) ++ s = array (l'.map f) ++ t) : l = l' ∧ s = t := by
  unfold array at h
  rw [List.length_map, List.length_map, List.append_assoc, List.append_assoc] at h
  obtain ⟨hlen, hrest⟩ := head_append_inj (by decide) hl hl' h
  exact flatten_append_inj hf hlen hrest

/-- The entries of a map in a row. -/
def rows (entries : List (UInt64 × Bytes)) : Bytes :=
  (entries.map (fun e => uint e.1 ++ e.2)).flatten

theorem rows_cons (k : UInt64) (v : Bytes) (entries : List (UInt64 × Bytes)) :
    rows ((k, v) :: entries) = uint k ++ (v ++ rows entries) := by
  rw [← List.append_assoc]
  rfl

theorem rows_cons_inj {α : Type} {f : α → Bytes} {k : UInt64} {a b : α}
    {rest rest' : List (UInt64 × Bytes)} {s t : Bytes}
    (hf : ∀ s t, f a ++ s = f b ++ t → a = b ∧ s = t)
    (h : rows ((k, f a) :: rest) ++ s = rows ((k, f b) :: rest') ++ t) :
    a = b ∧ rows rest ++ s = rows rest' ++ t := by
  rw [rows_cons, rows_cons, List.append_assoc, List.append_assoc, List.append_assoc,
    List.append_assoc] at h
  exact hf _ _ (List.append_cancel_left h)

/-- The row of an optional field: none when it is absent. -/
def optionalRow {α : Type} (k : UInt64) (f : α → Bytes) (o : Option α) : List (UInt64 × Bytes) :=
  (o.map (fun a => (k, f a))).toList

theorem key_of_mem_optionalRow {e : UInt64 × Bytes} (h : e ∈ optionalRow k f o) : e.1 = k := by
  cases o with
  | none => exact absurd h List.not_mem_nil
  | some a => rw [List.mem_singleton.mp h]

theorem rows_ne_of_key {v : Bytes} (hlen : rest.length = rest'.length + 1)
    (hkeys : ∀ e ∈ rest, e.1 ≠ k) : rows rest ++ s ≠ rows ((k, v) :: rest') ++ t := by
  intro h
  cases rest with
  | nil => cases hlen
  | cons e rest =>
    rw [rows_cons, rows_cons, List.append_assoc, List.append_assoc (uint k)] at h
    exact hkeys e List.mem_cons_self (uint_append_inj h).1

/-- **An optional field** in front of rows with other keys is determined by the number of rows. -/
theorem optionalRow_inj {o' : Option α}
    (hf : ∀ a ∈ o, ∀ b ∈ o', ∀ s t, f a ++ s = f b ++ t → a = b ∧ s = t)
    (hkeys : ∀ e ∈ rest, e.1 ≠ k) (hkeys' : ∀ e ∈ rest', e.1 ≠ k)
    (hlen : (optionalRow k f o ++ rest).length = (optionalRow k f o' ++ rest').length)
    (h : rows (optionalRow k f o ++ rest) ++ s = rows (optionalRow k f o' ++ rest') ++ t) :
    o = o' ∧ rest.length = rest'.length ∧ rows rest ++ s = rows rest' ++ t := by
  cases o with
  | none =>
    cases o' with
    | none => exact ⟨rfl, hlen, h⟩
    | some b => exact absurd h (rows_ne_of_key hlen hkeys)
  | some a =>
    cases o' with
    | none => exact absurd h.symm (rows_ne_of_key hlen.symm hkeys')
    | some b =>
      obtain ⟨hvalue, hrows⟩ := rows_cons_inj (hf a rfl b rfl) h
      exact ⟨congrArg some hvalue, Nat.succ.inj hlen, hrows⟩

/-! ## The data model -/

/-- How many bytes follow an initial byte with this additional information. -/
def payloadWidth (info : Nat) : Nat :=
  if info < 24 then 0
  else if info = 24 then 1
  else if info = 25 then 2
  else if info = 26 then 4
  else 8

/-- A simple value or a float in the width the encoder chose. -/
structure Primitive where
  info : Fin 28
  payload : Bytes
  sized : payload.length = payloadWidth info
  deriving DecidableEq

mutual

/-- A data item. The entries of a map stand in the order of the encoding. -/
inductive Item where
  | uint (n : UInt64)
  /-- The integer `-1 - n`. -/
  | nint (n : UInt64)
  | bytes (b : Bytes)
  | text (b : Bytes)
  | array (items : Items)
  | map (entries : Entries)
  | tag (n : UInt64) (item : Item)
  | primitive (p : Primitive)

/-- The elements of an array. -/
inductive Items where
  | nil
  | cons (item : Item) (rest : Items)

/-- The entries of a map. -/
inductive Entries where
  | nil
  | cons (key value : Item) (rest : Entries)

end

/-- How many elements. -/
def Items.length : Items → Nat
  | .nil => 0
  | .cons _ rest => rest.length + 1

/-- How many entries. -/
def Entries.length : Entries → Nat
  | .nil => 0
  | .cons _ _ rest => rest.length + 1

/-- The lead byte of a primitive. -/
def Primitive.lead (p : Primitive) : UInt8 := UInt8.ofNat (7 * 32 + p.info)

mutual

/-- The shortest encoding of an item. -/
def Item.encode : Item → Bytes
  | .uint n => head 0 n.toNat
  | .nint n => head 1 n.toNat
  | .bytes b => head 2 b.length ++ b
  | .text b => head 3 b.length ++ b
  | .array items => head 4 items.length ++ items.encode
  | .map entries => head 5 entries.length ++ entries.encode
  | .tag n item => head 6 n.toNat ++ item.encode
  | .primitive p => p.lead :: p.payload

/-- The encodings of the elements in a row. -/
def Items.encode : Items → Bytes
  | .nil => []
  | .cons item rest => item.encode ++ rest.encode

/-- Each key followed by its value. -/
def Entries.encode : Entries → Bytes
  | .nil => []
  | .cons key value rest => key.encode ++ (value.encode ++ rest.encode)

end

mutual

/-- Every length fits the head it is written in. -/
def Item.Fits : Item → Prop
  | .uint _ | .nint _ | .primitive _ => True
  | .bytes b | .text b => b.length < 2 ^ 64
  | .array items => items.length < 2 ^ 64 ∧ items.Fits
  | .map entries => entries.length < 2 ^ 64 ∧ entries.Fits
  | .tag _ item => item.Fits

/-- Every element fits. -/
def Items.Fits : Items → Prop
  | .nil => True
  | .cons item rest => item.Fits ∧ rest.Fits

/-- Every key and value fits. -/
def Entries.Fits : Entries → Prop
  | .nil => True
  | .cons key value rest => key.Fits ∧ value.Fits ∧ rest.Fits

end

/-! ## The encoding is self-delimiting -/

/-- The major type of an item. -/
def Item.major : Item → Nat
  | .uint _ => 0
  | .nint _ => 1
  | .bytes _ => 2
  | .text _ => 3
  | .array _ => 4
  | .map _ => 5
  | .tag _ _ => 6
  | .primitive _ => 7

theorem Primitive.toNat_lead (p : Primitive) : p.lead.toNat = 224 + p.info := by
  have hlt := p.info.isLt
  rw [lead, UInt8.toNat_ofNat']
  omega

theorem Primitive.lead_major (p : Primitive) : p.lead.toNat / 32 = 7 := by
  have hlt := p.info.isLt
  rw [p.toNat_lead]
  omega

theorem Item.leads (i : Item) : Leads i.major i.encode := by
  cases i with
  | uint n => exact leads_head (show 0 < 8 by decide)
  | nint n => exact leads_head (show 1 < 8 by decide)
  | bytes b => exact (leads_head (show 2 < 8 by decide)).append b
  | text b => exact (leads_head (show 3 < 8 by decide)).append b
  | array items => exact (leads_head (show 4 < 8 by decide)).append items.encode
  | map entries => exact (leads_head (show 5 < 8 by decide)).append entries.encode
  | tag n item => exact (leads_head (show 6 < 8 by decide)).append item.encode
  | primitive p => exact ⟨p.lead, p.payload, rfl, p.lead_major⟩

theorem Item.major_eq {a b : Item} (h : a.encode ++ s = b.encode ++ t) : a.major = b.major := by
  have ha := a.leads.append s
  rw [h] at ha
  exact ha.unique (b.leads.append t)

theorem Primitive.append_inj {p q : Primitive}
    (h : p.lead :: p.payload ++ s = q.lead :: q.payload ++ t) : p = q ∧ s = t := by
  rw [List.cons_append, List.cons_append, List.cons.injEq] at h
  obtain ⟨hlead, hpayload⟩ := h
  have hinfo : p.info = q.info := by
    have hnat := congrArg UInt8.toNat hlead
    rw [p.toNat_lead, q.toNat_lead] at hnat
    exact Fin.ext (by omega)
  have hlen : p.payload.length = q.payload.length := by rw [p.sized, q.sized, hinfo]
  obtain ⟨hbytes, hrest⟩ := List.append_inj hpayload hlen
  obtain ⟨info, payload, sized⟩ := p
  obtain ⟨info', payload', sized'⟩ := q
  subst hinfo hbytes
  exact ⟨rfl, hrest⟩

theorem sized_append_inj {major : Nat} {a : Bytes} (hmajor : major < 8) (ha : a.length < 2 ^ 64)
    (hb : b.length < 2 ^ 64)
    (h : (head major a.length ++ a) ++ s = (head major b.length ++ b) ++ t) : a = b ∧ s = t := by
  rw [List.append_assoc, List.append_assoc] at h
  obtain ⟨hlen, hrest⟩ := head_append_inj hmajor ha hb h
  exact List.append_inj hrest hlen

mutual

/-- **A data item at the front of the input is determined by the input.** -/
theorem Item.encode_append_inj : ∀ (a b : Item) {s t : Bytes}, a.Fits → b.Fits →
    a.encode ++ s = b.encode ++ t → a = b ∧ s = t
  | .uint n, b, s, t, ha, hb, h => by
    -- the major type decides the constructor on the other side
    have hmajor := Item.major_eq h
    cases b with
    | uint m =>
      obtain ⟨hn, hrest⟩ := head_append_inj (by decide) n.toNat_lt m.toNat_lt h
      exact ⟨congrArg Item.uint (UInt64.toNat_inj.mp hn), hrest⟩
    | _ => exact absurd hmajor (by simp [Item.major])
  | .nint n, b, s, t, ha, hb, h => by
    have hmajor := Item.major_eq h
    cases b with
    | nint m =>
      obtain ⟨hn, hrest⟩ := head_append_inj (by decide) n.toNat_lt m.toNat_lt h
      exact ⟨congrArg Item.nint (UInt64.toNat_inj.mp hn), hrest⟩
    | _ => exact absurd hmajor (by simp [Item.major])
  | .bytes x, b, s, t, ha, hb, h => by
    have hmajor := Item.major_eq h
    cases b with
    | bytes y =>
      obtain ⟨hx, hrest⟩ := sized_append_inj (by decide) ha hb h
      exact ⟨congrArg Item.bytes hx, hrest⟩
    | _ => exact absurd hmajor (by simp [Item.major])
  | .text x, b, s, t, ha, hb, h => by
    have hmajor := Item.major_eq h
    cases b with
    | text y =>
      obtain ⟨hx, hrest⟩ := sized_append_inj (by decide) ha hb h
      exact ⟨congrArg Item.text hx, hrest⟩
    | _ => exact absurd hmajor (by simp [Item.major])
  | .array items, b, s, t, ha, hb, h => by
    have hmajor := Item.major_eq h
    cases b with
    | array items' =>
      simp only [Item.encode, List.append_assoc] at h
      obtain ⟨hlen, hbody⟩ := head_append_inj (by decide) ha.1 hb.1 h
      obtain ⟨hitems, hrest⟩ := Items.encode_append_inj items items' hlen ha.2 hb.2 hbody
      exact ⟨congrArg Item.array hitems, hrest⟩
    | _ => exact absurd hmajor (by simp [Item.major])
  | .map entries, b, s, t, ha, hb, h => by
    have hmajor := Item.major_eq h
    cases b with
    | map entries' =>
      simp only [Item.encode, List.append_assoc] at h
      obtain ⟨hlen, hbody⟩ := head_append_inj (by decide) ha.1 hb.1 h
      obtain ⟨hentries, hrest⟩ := Entries.encode_append_inj entries entries' hlen ha.2 hb.2 hbody
      exact ⟨congrArg Item.map hentries, hrest⟩
    | _ => exact absurd hmajor (by simp [Item.major])
  | .tag n item, b, s, t, ha, hb, h => by
    have hmajor := Item.major_eq h
    cases b with
    | tag m item' =>
      simp only [Item.encode, List.append_assoc] at h
      obtain ⟨hn, hbody⟩ := head_append_inj (by decide) n.toNat_lt m.toNat_lt h
      obtain ⟨hitem, hrest⟩ := Item.encode_append_inj item item' ha hb hbody
      exact ⟨by rw [UInt64.toNat_inj.mp hn, hitem], hrest⟩
    | _ => exact absurd hmajor (by simp [Item.major])
  | .primitive p, b, s, t, ha, hb, h => by
    have hmajor := Item.major_eq h
    cases b with
    | primitive q =>
      obtain ⟨hp, hrest⟩ := Primitive.append_inj h
      exact ⟨congrArg Item.primitive hp, hrest⟩
    | _ => exact absurd hmajor (by simp [Item.major])

theorem Items.encode_append_inj : ∀ (a b : Items) {s t : Bytes}, a.length = b.length →
    a.Fits → b.Fits → a.encode ++ s = b.encode ++ t → a = b ∧ s = t
  | .nil, .nil, s, t, _, _, _, h => ⟨rfl, h⟩
  | .cons x xs, .cons y ys, s, t, hlen, ha, hb, h => by
    simp only [Items.encode, List.append_assoc] at h
    obtain ⟨hx, htail⟩ := Item.encode_append_inj x y ha.1 hb.1 h
    obtain ⟨hxs, hrest⟩ := Items.encode_append_inj xs ys (Nat.succ.inj hlen) ha.2 hb.2 htail
    exact ⟨by rw [hx, hxs], hrest⟩

theorem Entries.encode_append_inj : ∀ (a b : Entries) {s t : Bytes}, a.length = b.length →
    a.Fits → b.Fits → a.encode ++ s = b.encode ++ t → a = b ∧ s = t
  | .nil, .nil, s, t, _, _, _, h => ⟨rfl, h⟩
  | .cons k v xs, .cons k' v' ys, s, t, hlen, ha, hb, h => by
    simp only [Entries.encode, List.append_assoc] at h
    obtain ⟨hk, hvalue⟩ := Item.encode_append_inj k k' ha.1 hb.1 h
    obtain ⟨hv, htail⟩ := Item.encode_append_inj v v' ha.2.1 hb.2.1 hvalue
    obtain ⟨hxs, hrest⟩ := Entries.encode_append_inj xs ys (Nat.succ.inj hlen) ha.2.2 hb.2.2 htail
    exact ⟨by rw [hk, hv, hxs], hrest⟩

end

end Cbor

end Freens.Library
