/-
**THE CLOSEST CONTACTS** (`dht/ids.go`: `CompareDistance`; `dht/routing.go`:
`Closest`, `closestHeap`).

`Closest` sweeps the buckets once and keeps the best `n` contacts in a bounded
max-heap, which is then sorted.
-/
import Freens.Dht.TableInvariant
import Freens.Dht.WalkLoop
import Freens.Library.BoundedHeap

namespace Freens.Dht.Routing

open Library Library.Cbor

/-! ## XOR distance -/

/-- The loop of `CompareDistance`: the first byte in which the distances differ. -/
def compareXor : Bytes → Bytes → Bytes → Int
  | t :: ts, a :: as, b :: bs =>
    if t ^^^ a ≠ t ^^^ b then (if t ^^^ a < t ^^^ b then -1 else 1) else compareXor ts as bs
  | _, _, _ => 0

/-- Identifiers of another length have no distance. -/
def compareDistance (target a b : Bytes) : Int :=
  if target.length ≠ nodeIDLen ∨ a.length ≠ nodeIDLen ∨ b.length ≠ nodeIDLen then 0
  else compareXor target a b

/-- **The XOR distance**, a number. -/
def distance (target a : Bytes) : Nat := ofBigEndian (List.zipWith (· ^^^ ·) target a)

theorem foldl_ofBigEndian (b : Bytes) : ∀ acc : Nat,
    b.foldl (fun acc x => acc * 256 + x.toNat) acc = acc * 256 ^ b.length + ofBigEndian b := by
  -- both sides start the same fold, one from the accumulator and one from zero
  unfold ofBigEndian
  induction b with
  | nil => simp
  | cons x b ih =>
    intro acc
    rw [List.foldl_cons, ih, List.foldl_cons, ih (0 * 256 + x.toNat), List.length_cons, Nat.pow_succ]
    ring

theorem distance_cons (t a : UInt8) (ts as : Bytes) :
    distance (t :: ts) (a :: as)
      = (t ^^^ a).toNat * 256 ^ (List.zipWith (· ^^^ ·) ts as).length + distance ts as := by
  rw [distance, List.zipWith_cons_cons, ofBigEndian, List.foldl_cons, foldl_ofBigEndian]
  simp [distance]

theorem digit_lt {x y r s m : Nat} (hr : r < m) (h : x < y) : x * m + r < y * m + s := by
  have hstep : (x + 1) * m ≤ y * m := Nat.mul_le_mul_right m h
  rw [Nat.succ_mul] at hstep
  omega

theorem compareXor_iff (target a b : Bytes) (ha : a.length = target.length)
    (hb : b.length = target.length) :
    (compareXor target a b < 0 ↔ distance target a < distance target b) ∧
      (compareXor target a b > 0 ↔ distance target b < distance target a) := by
  induction target generalizing a b with
  | nil => simp [compareXor, distance]
  | cons t ts ih =>
    obtain ⟨x, as, rfl⟩ := List.exists_cons_of_length_eq_add_one ha
    obtain ⟨y, bs, rfl⟩ := List.exists_cons_of_length_eq_add_one hb
    have ha : as.length = ts.length := Nat.succ.inj ha
    have hb : bs.length = ts.length := Nat.succ.inj hb
    have hwidth : ∀ zs : Bytes, zs.length = ts.length →
        (List.zipWith (· ^^^ ·) ts zs).length = ts.length := by
      intro zs hzs
      rw [List.length_zipWith, hzs, Nat.min_self]
    have hbound : ∀ zs : Bytes, zs.length = ts.length → distance ts zs < 256 ^ ts.length := by
      intro zs hzs
      have hlt := ofBigEndian_lt (List.zipWith (· ^^^ ·) ts zs)
      rwa [hwidth zs hzs] at hlt
    rw [distance_cons, distance_cons, hwidth as ha, hwidth bs hb, compareXor]
    split
    next hne =>
      split
      next hlt =>
        have hd := digit_lt (s := distance ts bs) (hbound as ha) (UInt8.lt_iff_toNat_lt.mp hlt)
        omega
      next hnot =>
        have hgt : (t ^^^ y).toNat < (t ^^^ x).toNat := by
          have hdiff : (t ^^^ x).toNat ≠ (t ^^^ y).toNat := fun h => hne (UInt8.toNat_inj.mp h)
          have hge : ¬ (t ^^^ x).toNat < (t ^^^ y).toNat := fun h => hnot (UInt8.lt_iff_toNat_lt.mpr h)
          omega
        have hd := digit_lt (s := distance ts as) (hbound bs hb) hgt
        omega
    next heq =>
      have heq : t ^^^ x = t ^^^ y := not_not.mp heq
      rw [heq, Nat.add_lt_add_iff_left, Nat.add_lt_add_iff_left]
      exact ih as bs ha hb

variable {a b : Bytes}

section
variable {target : Bytes} (ha : a.length = target.length) (hb : b.length = target.length)
include ha hb

theorem eq_of_compareXor (h : compareXor target a b = 0) : a = b := by
  induction target generalizing a b with
  | nil => rw [List.length_eq_zero_iff.mp ha, List.length_eq_zero_iff.mp hb]
  | cons t ts ih =>
    obtain ⟨x, as, rfl⟩ := List.exists_cons_of_length_eq_add_one ha
    obtain ⟨y, bs, rfl⟩ := List.exists_cons_of_length_eq_add_one hb
    rw [compareXor] at h
    split at h
    next => split at h <;> cases h
    next heq =>
      rw [(UInt8.xor_right_inj t).mp (not_not.mp heq), ih (Nat.succ.inj ha) (Nat.succ.inj hb) h]

theorem distance_inj (h : distance target a = distance target b) : a = b := by
  obtain ⟨hlt, hgt⟩ := compareXor_iff target a b ha hb
  apply eq_of_compareXor ha hb
  omega

end

theorem compareDistance_iff {target : Bytes} (ht : target.length = nodeIDLen)
    (ha : a.length = nodeIDLen) (hb : b.length = nodeIDLen) :
    (compareDistance target a b < 0 ↔ distance target a < distance target b) ∧
      (compareDistance target a b > 0 ↔ distance target b < distance target a) := by
  have hsized : ¬ (target.length ≠ nodeIDLen ∨ a.length ≠ nodeIDLen ∨ b.length ≠ nodeIDLen) := by
    rintro (h | h | h)
    · exact h ht
    · exact h ha
    · exact h hb
  rw [compareDistance, if_neg hsized]
  exact compareXor_iff target a b (ha.trans ht.symm) (hb.trans ht.symm)

/-! ## The sweep -/

/-- How `closestHeap` compares: its `farther`, `up` and `down` are the library's. -/
def byDistance (target : Bytes) (a b : NodeContact) : Int :=
  compareDistance target a.nodeID b.nodeID

/-- The heap after every contact was offered. -/
def RoutingTable.closestItems (rt : RoutingTable) (target : Bytes) (cap : Nat) : List NodeContact :=
  rt.allContacts.foldl (Heap.offer (byDistance target) cap) []

/-- `Closest`: the nearest `n`, nearest first. -/
def RoutingTable.closest (rt : RoutingTable) (target : Bytes) (n : Int) : List NodeContact :=
  if n ≤ 0 then []
  else
    -- `sort.Slice` is not stable; distinct ids have distinct distances
    (rt.closestItems target n.toNat).insertionSort (fun a b => ¬ byDistance target b a < 0)

/-- Every identifier has its length, and no two contacts share one. -/
structure RoutingTable.Identified (rt : RoutingTable) : Prop where
  sized : ∀ c ∈ rt.allContacts, c.nodeID.length = nodeIDLen
  unique : (rt.allContacts.map (·.nodeID)).Nodup

theorem RoutingTable.Valid.identified {rt : RoutingTable} (h : rt.Valid) : rt.Identified where
  sized := by
    intro c hc
    obtain ⟨i, hi⟩ := mem_allContacts.mp hc
    exact ((h.bucket i).located c hi).length
  unique := h.nodup

section Sweep

variable {rt : RoutingTable} {target : Bytes}

theorem RoutingTable.Identified.agrees (h : rt.Identified) (ht : target.length = nodeIDLen) :
    Heap.Agrees (byDistance target) (fun c => distance target c.nodeID) rt.allContacts where
  lt := fun a ha b hb => (compareDistance_iff ht (h.sized a ha) (h.sized b hb)).1
  gt := fun a ha b hb => (compareDistance_iff ht (h.sized a ha) (h.sized b hb)).2

theorem RoutingTable.Identified.distance_inj (h : rt.Identified) (ht : target.length = nodeIDLen) :
    ∀ a ∈ rt.allContacts, ∀ b ∈ rt.allContacts,
      distance target a.nodeID = distance target b.nodeID → a = b := by
  intro a ha b hb hdist
  have hid : a.nodeID = b.nodeID := Routing.distance_inj ((h.sized a ha).trans ht.symm)
    ((h.sized b hb).trans ht.symm) hdist
  exact List.inj_on_of_nodup_map h.unique ha hb hid

variable {cap : Nat} {l : List NodeContact}

theorem RoutingTable.Identified.selected (h : rt.Identified) (ht : target.length = nodeIDLen)
    (hcap : 0 < cap) :
    Heap.Selected (fun c => distance target c.nodeID) cap rt.allContacts
      (rt.closestItems target cap) :=
  (Heap.selected_nil cap).foldl_offer hcap rt.allContacts (h.agrees ht)

section
variable (hagree : Heap.Agrees (byDistance target) (fun c => distance target c.nodeID) l)
include hagree

theorem pairwise_distance (h : l.Pairwise (fun a b => ¬ byDistance target b a < 0)) :
    l.Pairwise (fun a b => distance target a.nodeID ≤ distance target b.nodeID) := by
  refine h.imp_of_mem ?_
  intro a b ha hb hnot
  exact Nat.le_of_not_lt (fun hlt => hnot ((hagree.lt b hb a ha).mpr hlt))

theorem insertionSort_byDistance :
    l.insertionSort (fun a b => ¬ byDistance target b a < 0)
      = l.insertionSort (fun a b => distance target a.nodeID ≤ distance target b.nodeID) := by
  have hsame := List.map_insertionSort (fun a b => ¬ byDistance target b a < 0)
    (fun a b => distance target a.nodeID ≤ distance target b.nodeID) id l (by
      intro a ha b hb
      rw [hagree.lt b hb a ha]
      exact Nat.not_lt)
  rwa [List.map_id, List.map_id] at hsame

end

/-- Every contact, nearest first. -/
def RoutingTable.sortedByDistance (rt : RoutingTable) (target : Bytes) : List NodeContact :=
  rt.allContacts.insertionSort (fun a b => distance target a.nodeID ≤ distance target b.nodeID)

theorem RoutingTable.Identified.eq_take (h : rt.Identified) (ht : target.length = nodeIDLen)
    (hcap : 0 < cap) {out : List NodeContact} (hperm : out.Perm (rt.closestItems target cap))
    (hascending : out.Pairwise (fun a b => ¬ byDistance target b a < 0)) :
    out = (rt.sortedByDistance target).take cap := by
  have hselected := h.selected ht hcap
  obtain ⟨dropped, hsplit, _⟩ := hselected.split
  -- the items are contacts of the table, so they compare by distance
  have hsub : out ⊆ rt.allContacts := fun c hc =>
    hsplit.subset (List.mem_append_left _ (hperm.subset hc))
  exact hselected.eq_take (h.distance_inj ht) hperm
    (pairwise_distance ((h.agrees ht).mono hsub) hascending)
    (List.perm_insertionSort _ _) (List.pairwise_insertionSort _ _)

theorem RoutingTable.Identified.closest_eq (h : rt.Identified) (ht : target.length = nodeIDLen)
    (n : Int) : rt.closest target n = (rt.sortedByDistance target).take n.toNat := by
  unfold RoutingTable.closest
  split
  next hn =>
    rw [Int.toNat_of_nonpos hn]
    rfl
  next hn =>
    have hcap : 0 < n.toNat := by omega
    have hselected := h.selected ht hcap
    obtain ⟨dropped, hsplit, _⟩ := hselected.split
    have hsub : rt.closestItems target n.toNat ⊆ rt.allContacts := fun c hc =>
      hsplit.subset (List.mem_append_left _ hc)
    rw [insertionSort_byDistance ((h.agrees ht).mono hsub)]
    exact hselected.eq_take (h.distance_inj ht) (List.perm_insertionSort _ _)
      (List.pairwise_insertionSort _ _) (List.perm_insertionSort _ _)
      (List.pairwise_insertionSort _ _)

end Sweep

/-- **`Closest` is the sorted prefix**: the nearest contacts of the table in order, each
once, however the final sort works. -/
theorem closest_eq_take_sorted (rt : RoutingTable) (htable : rt.Identified) (target : Bytes)
    (htarget : target.length = nodeIDLen) (n : Int) :
    rt.closest target n = (rt.sortedByDistance target).take n.toNat ∧
    ((rt.closest target n).map (·.nodeID)).Nodup ∧
    (0 < n → ∀ out : List NodeContact, out.Perm (rt.closestItems target n.toNat) →
      out.Pairwise (fun a b => ¬ byDistance target b a < 0) → out = rt.closest target n) := by
  have hclosest := htable.closest_eq htarget n
  refine ⟨hclosest, ?_, ?_⟩
  · rw [hclosest]
    have hsorted : ((rt.sortedByDistance target).map (·.nodeID)).Perm (rt.allContacts.map (·.nodeID)) :=
      (List.perm_insertionSort _ _).map _
    exact (hsorted.nodup_iff.mpr htable.unique).sublist ((List.take_sublist _ _).map _)
  · intro hn out hperm hascending
    rw [hclosest]
    exact htable.eq_take htarget (by omega) hperm hascending

namespace TableRun

def three : RoutingTable :=
  tableRun (id 0) 8 [.add (contact 0x80 [1] 1 0), .add (contact 0x41 [2] 2 0),
    .add (contact 0x40 [3] 3 0)]

end TableRun

theorem two_closest_of_three :
    (TableRun.three.closest (TableRun.id 0x40) 2).map (·.nodeID)
        = [TableRun.id 0x40, TableRun.id 0x41] ∧
      TableRun.three.closest (TableRun.id 0x40) 2
        = (TableRun.three.sortedByDistance (TableRun.id 0x40)).take 2 :=
  ⟨by decide +kernel,
    (closest_eq_take_sorted TableRun.three (valid_tableRun (by decide) (by decide)).identified
      (TableRun.id 0x40) (by decide) 2).1⟩

/-! ## What the walk takes it for -/

/-- A contact as the walk sees it. -/
def NodeContact.walkView (c : NodeContact) : Dht.NodeContact :=
  ⟨c.nodeID, c.confirmedAt, c.lastSeen, c.firstSeen⟩

/-- The table as the walk sees it. -/
def RoutingTable.walkView (rt : RoutingTable) (h : rt.Identified) : Dht.RoutingTable where
  contacts := rt.allContacts.map NodeContact.walkView
  distinct := by
    rw [List.map_map]
    exact h.unique

theorem closer_iff (target a b : Bytes) :
    closer target a b = true ↔ compareDistance target a b < 0 := by
  have hloop : ∀ (ts as bs : Bytes), as.length = ts.length → bs.length = ts.length →
      (List.zipWith (· ^^^ ·) ts as < List.zipWith (· ^^^ ·) ts bs ↔ compareXor ts as bs < 0) := by
    intro ts
    induction ts with
    | nil => simp [compareXor]
    | cons t ts ih =>
      intro as bs has hbs
      obtain ⟨x, as, rfl⟩ := List.exists_cons_of_length_eq_add_one has
      obtain ⟨y, bs, rfl⟩ := List.exists_cons_of_length_eq_add_one hbs
      rw [List.zipWith_cons_cons, List.zipWith_cons_cons, List.cons_lt_cons_iff, compareXor,
        ih as bs (Nat.succ.inj has) (Nat.succ.inj hbs)]
      by_cases heq : t ^^^ x = t ^^^ y
      · simp [heq]
      · by_cases hlt : t ^^^ x < t ^^^ y
        · simp [heq, hlt]
        · simp [heq, hlt]
  unfold closer compareDistance
  split
  next => simp
  next hsized =>
    rw [decide_eq_true_iff]
    push Not at hsized
    exact hloop target a b (hsized.2.1.trans hsized.1.symm) (hsized.2.2.trans hsized.1.symm)

/-- **The walk's `Closest`**, the sorted prefix, is what the heap computes. -/
theorem walk_closest_eq (rt : RoutingTable) (htable : rt.Identified) {target : Bytes}
    (htarget : target.length = nodeIDLen) (n : Nat) :
    Dht.closest (rt.walkView htable) target n
      = (rt.closest target n).map NodeContact.walkView := by
  rw [htable.closest_eq htarget, Int.toNat_natCast, List.map_take]
  refine congrArg (List.take n) ?_
  -- the same order on the two kinds of contact
  refine (List.map_insertionSort
    (fun a b : NodeContact => distance target a.nodeID ≤ distance target b.nodeID)
    (fun a b : Dht.NodeContact => closer target b.nodeID a.nodeID = false)
    NodeContact.walkView rt.allContacts ?_).symm
  intro a ha b hb
  show _ ↔ closer target b.nodeID a.nodeID = false
  rw [← Bool.not_eq_true, closer_iff,
    (compareDistance_iff htarget (htable.sized b hb) (htable.sized a ha)).1]
  exact Nat.not_lt.symm

end Freens.Dht.Routing
