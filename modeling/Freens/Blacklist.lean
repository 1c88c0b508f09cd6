/-
**THE BLACKLIST FILE** (`blacklist/blacklist.go`), shared by the daemon and the
one-shot verbs of the command line.

Each process keeps its own copy of the ledger. `Record` adopts the rows of the
file before it saves; a removal and the decay of a row save the copy as it is,
so a row the process has not seen is lost and one that was removed comes back.
-/
import Freens.Library.Ledger
import Freens.Library.Lists
import Freens.Library.Run
import Freens.Toy

namespace Freens.Blacklist

open Library Naming

/-! ## The ledger -/

/-- What a node was caught at. -/
inductive Class where
  | wrongSlice
  | badEnvelope
  | badPoW
  | reservedClaim
  deriving DecidableEq, Repr

/-- One recorded violation. -/
structure Violation where
  cls : Class
  time : Int
  detail : Bytes
  /-- The digest of the offending bytes. -/
  proof : Option Bytes
  deriving DecidableEq, Repr

/-- A node's row. -/
structure Entry where
  violations : List Violation
  flaggedAt : Int
  expiresAt : Int
  deriving DecidableEq, Repr

/-- A day, in nanoseconds. -/
def defaultTTL : Int := 24 * 3600 * 10 ^ 9

/-- A row keeps its latest violations, this many. -/
def maxViolationsPerEntry : Nat := 32

/-- The rows by node id, in hexadecimal form; in memory and in the file. -/
abbrev Rows := Table Bytes Entry

/-- Not `now.After(e.ExpiresAt)`. -/
def Entry.unexpired (e : Entry) (now : Int) : Bool := decide (now ≤ e.expiresAt)

/-- One row of the file: adopted when it is missing or outlives the copy. -/
def adoptRow (rows : Rows) (x : Bytes × Entry) : Rows :=
  match rows.lookup x.1 with
  | none => rows.insert x.1 x.2
  | some cur => if cur.expiresAt < x.2.expiresAt then rows.insert x.1 x.2 else rows

/-- The unexpired rows of the file, adopted. -/
def adoptFile (rows file : Rows) (now : Int) : Rows :=
  (file.select (fun _ e => e.unexpired now)).foldl adoptRow rows

/-- `Open`: expired rows are dropped. -/
def openLedger (file : Rows) (now : Int) : Rows := file.reject (fun _ e => !e.unexpired now)

/-- The row of an identity with one more violation, the oldest ones cut. -/
def flag (cur : Option Entry) (v : Violation) (now : Int) : Entry :=
  let violations := (cur.elim [] Entry.violations) ++ [v]
  { violations := violations.drop (violations.length - maxViolationsPerEntry)
    flaggedAt := now
    expiresAt := now + defaultTTL }

/-! ## Two processes -/

/-- The two programs that share the file. -/
inductive Process where
  | daemon
  | cli
  deriving DecidableEq, Repr

/-- The calls of the ledger. -/
inductive Call where
  | record (nodeID : Bytes) (cls : Class) (detail proof : Bytes)
  | flaggedID (idHex : Bytes)
  | entries
  | remove (idHex : Bytes)

/-- The file, both memories, the clock and what is due. -/
structure World where
  file : Rows
  memory : Process → Rows
  clock : Int
  /-- The verdicts that stand, with their expiry: recorded by a process, and not
  removed by an operator since. -/
  due : Bytes → Option Int

/-- The process holds other rows; `saveLocked` writes all of them. -/
def World.save (s : World) (p : Process) (rows : Rows) : World :=
  { s with file := rows, memory := Function.update s.memory p rows }

section
variable (P : Primitives)

/-- `Ledger.Record`; an id of another length is refused. -/
def record (s : World) (p : Process) (nodeID : Bytes) (cls : Class) (detail proof : Bytes) :
    World :=
  if nodeID.length ≠ 32 then s
  else
    let id := hexEncode nodeID
    let digest := if 0 < proof.length then some (hexEncode (P.sha256 proof)) else none
    let rows := adoptFile (s.memory p) s.file s.clock
    let e := flag (rows.lookup id) ⟨cls, s.clock, detail, digest⟩ s.clock
    { s.save p (rows.insert id e) with due := Function.update s.due id (some e.expiresAt) }

/-- `Ledger.FlaggedID`, and the verdict: an expired row is dropped, and the copy
saved. -/
def flaggedID (s : World) (p : Process) (id : Bytes) : Bool × World :=
  match (s.memory p).lookup id with
  | none => (false, s)
  | some e =>
    if e.unexpired s.clock then (true, s)
    else (false, s.save p ((s.memory p).erase id))

/-- `Ledger.Entries`, which compares its result with what is left. -/
def entries (s : World) (p : Process) : World :=
  let out := (s.memory p).select (fun _ e => e.unexpired s.clock)
  let rows := (s.memory p).reject (fun _ e => !e.unexpired s.clock)
  if out.length ≠ rows.keys.length then s.save p rows
  else { s with memory := Function.update s.memory p rows }

/-- The id as an operator types it, normalised. -/
def typedID (idHex : Bytes) : Bytes := toLower P (trimSpace idHex)

/-- `Ledger.Remove`, of a row the process holds. -/
def remove (s : World) (p : Process) (idHex : Bytes) : Bool × World :=
  let id := typedID P idHex
  match (s.memory p).lookup id with
  | none => (false, s)
  | some _ =>
    (true, { s.save p ((s.memory p).erase id) with due := Function.update s.due id none })

/-- **One call**, some time after the last one. -/
def step (s : World) (x : Process × Nat × Call) : World :=
  let s := { s with clock := s.clock + x.2.1 }
  match x.2.2 with
  | .record nodeID cls detail proof => record P s x.1 nodeID cls detail proof
  | .flaggedID id => (flaggedID s x.1 id).2
  | .entries => entries s x.1
  | .remove id => (remove P s x.1 id).2

end

/-- When a row expires. -/
def expiryOf (rows : Rows) (id : Bytes) : Option Int := (rows.lookup id).map Entry.expiresAt

/-- Both processes opened on the file. -/
def World.start (file : Rows) (now : Int) : World where
  file := file
  memory _ := openLedger file now
  clock := now
  due := expiryOf file

/-! ## The law -/

/-- An expiry not yet past. -/
def standing (expiry : Option Int) (now : Int) : Option Int := expiry.filter (now ≤ ·)

/-- The expiry of an unexpired row. -/
def rowAt (rows : Rows) (now : Int) (id : Bytes) : Option Int :=
  standing (expiryOf rows id) now

/-- **The file has the verdicts that stand, and no other.** -/
def World.Lawful (s : World) : Prop := ∀ id, rowAt s.file s.clock id = standing (s.due id) s.clock

/-- **A call in step with the file.** A process that records holds nothing the file lacks;
one that saves unread holds just what is in the file. -/
def InStep (P : Primitives) (s : World) (x : Process × Nat × Call) : Prop :=
  let now := s.clock + x.2.1
  let held := rowAt (s.memory x.1) now
  match x.2.2 with
  | .record nodeID _ _ _ => nodeID.length = 32 → ∀ j ≠ hexEncode nodeID,
      ∀ t ∈ held j, ∃ t' ∈ rowAt s.file now j, t ≤ t'
  | .flaggedID id => (∃ e ∈ (s.memory x.1).lookup id, e.unexpired now = false) →
      ∀ j, held j = rowAt s.file now j
  | .entries => True
  | .remove id => (s.memory x.1).lookup (typedID P id) ≠ none →
      ∀ j ≠ typedID P id, held j = rowAt s.file now j

/-! ## One call -/

section
variable {rows file : Rows} {now : Int} {id : Bytes}

theorem standing_standing {expiry : Option Int} {later : Int} (h : now ≤ later) :
    standing (standing expiry now) later = standing expiry later := by
  unfold standing
  rw [Option.filter_filter]
  congr 1
  funext t
  simp only [Bool.and_eq_right_iff_imp, decide_eq_true_eq]
  exact fun ht => le_trans h ht

theorem mem_rowAt {t : Int} :
    t ∈ rowAt rows now id ↔ ∃ e, rows.lookup id = some e ∧ e.expiresAt = t ∧ now ≤ t := by
  simp only [rowAt, standing, expiryOf, Option.mem_def, Option.filter_eq_some_iff,
    Option.map_eq_some_iff, decide_eq_true_eq, ← exists_and_right, and_assoc]

theorem expiryOf_adoptRow (rows : Rows) (x : Bytes × Entry) (id : Bytes) :
    expiryOf (adoptRow rows x) id =
      if id = x.1 then some ((expiryOf rows id).elim x.2.expiresAt (max x.2.expiresAt))
      else expiryOf rows id := by
  unfold expiryOf adoptRow
  by_cases hid : id = x.1
  · subst hid
    cases hcur : rows.lookup x.1 with
    | none => simp
    | some cur =>
      by_cases hlt : cur.expiresAt < x.2.expiresAt
      · simp [hlt]
        omega
      · simp [hlt, hcur]
        omega
  · cases hcur : rows.lookup x.1 with
    | none => simp [hid]
    | some cur => by_cases hlt : cur.expiresAt < x.2.expiresAt <;> simp [hid, hlt]

theorem expiryOf_foldl_adoptRow {l : List (Bytes × Entry)} (hnodup : (l.map Prod.fst).Nodup) :
    (∀ e, (id, e) ∈ l → expiryOf (l.foldl adoptRow rows) id =
      some ((expiryOf rows id).elim e.expiresAt (max e.expiresAt))) ∧
    (id ∉ l.map Prod.fst → expiryOf (l.foldl adoptRow rows) id = expiryOf rows id) := by
  induction l generalizing rows with
  | nil => exact ⟨fun e he => absurd he List.not_mem_nil, fun _ => rfl⟩
  | cons x l ih =>
    obtain ⟨hnew, hrest⟩ := List.nodup_cons.mp hnodup
    obtain ⟨hin, hout⟩ := @ih (adoptRow rows x) hrest
    rw [List.foldl_cons]
    constructor
    · intro e he
      rcases List.mem_cons.mp he with rfl | he
      · rw [hout hnew, expiryOf_adoptRow, if_pos rfl]
      · have hne : id ≠ x.1 := fun h => hnew (h ▸ List.mem_map_of_mem he)
        rw [hin e he, expiryOf_adoptRow, if_neg hne]
    · intro hid
      rw [List.map_cons, List.mem_cons, not_or] at hid
      rw [hout hid.2, expiryOf_adoptRow, if_neg hid.1]

theorem rowAt_adoptFile (rows file : Rows) (now : Int) (id : Bytes) :
    rowAt (adoptFile rows file now) now id =
      (rowAt file now id).elim (rowAt rows now id)
        (fun t => some ((rowAt rows now id).elim t (max t))) := by
  obtain ⟨hin, hout⟩ := @expiryOf_foldl_adoptRow rows id _
    (Table.select_nodup file (fun _ e => e.unexpired now))
  cases hfile : rowAt file now id with
  | none =>
    have hnot : id ∉ (file.select (fun _ e => e.unexpired now)).map Prod.fst := by
      intro hmem
      obtain ⟨x, hx, rfl⟩ := List.mem_map.mp hmem
      obtain ⟨hlookup, hlive⟩ := Table.mem_select.mp hx
      have ht := mem_rowAt.mpr ⟨x.2, hlookup, rfl, of_decide_eq_true hlive⟩
      rw [hfile] at ht
      cases ht
    unfold rowAt adoptFile
    rw [hout hnot]
    rfl
  | some t =>
    obtain ⟨e, he, rfl, hlive⟩ := mem_rowAt.mp hfile
    unfold rowAt adoptFile
    rw [hin e (Table.mem_select.mpr ⟨he, decide_eq_true hlive⟩)]
    cases expiryOf rows id with
    | none => simp [standing, hlive]
    | some u => grind [standing]

theorem rowAt_insert (rows : Rows) (now : Int) (id j : Bytes) (e : Entry) :
    rowAt (rows.insert id e) now j =
      if j = id then standing (some e.expiresAt) now else rowAt rows now j := by
  unfold rowAt expiryOf
  split
  next h => rw [h, AList.lookup_insert]; rfl
  next h => rw [AList.lookup_insert_ne h]

theorem rowAt_erase (rows : Rows) (now : Int) (id j : Bytes) :
    rowAt (rows.erase id) now j = if j = id then none else rowAt rows now j := by
  unfold rowAt expiryOf
  split
  next h => rw [h, AList.lookup_erase]; rfl
  next h => rw [AList.lookup_erase_ne h]

theorem adopted_eq_iff {filed held : Option Int} :
    filed.elim held (fun t => some (held.elim t (max t))) = filed ↔
      ∀ t ∈ held, ∃ t' ∈ filed, t ≤ t' := by
  cases filed with
  | none | some t => cases held <;> simp

end

section
variable {P : Primitives} {s : World}

theorem World.Lawful.wait (h : s.Lawful) (n : Nat) :
    World.Lawful { s with clock := s.clock + n } := by
  intro id
  have hlater : s.clock ≤ s.clock + n := Int.le_add_of_nonneg_right (Int.natCast_nonneg n)
  show rowAt s.file (s.clock + n) id = standing (s.due id) (s.clock + n)
  rw [← standing_standing hlater, ← h id]
  exact (standing_standing hlater).symm

theorem record_lawful_iff (h : s.Lawful) (p : Process) (nodeID : Bytes) (cls : Class)
    (detail proof : Bytes) :
    (record P s p nodeID cls detail proof).Lawful ↔ (nodeID.length = 32 →
      ∀ j ≠ hexEncode nodeID, ∀ t ∈ rowAt (s.memory p) s.clock j,
        ∃ t' ∈ rowAt s.file s.clock j, t ≤ t') := by
  unfold record
  by_cases hlen : nodeID.length = 32
  · rw [if_neg (not_not.mpr hlen), imp_iff_right hlen]
    refine forall_congr' fun j => ?_
    dsimp only [World.save]
    rw [rowAt_insert, Function.update_apply]
    by_cases hj : j = hexEncode nodeID
    · simp [hj]
    · rw [if_neg hj, if_neg hj, ← h j, rowAt_adoptFile, adopted_eq_iff, imp_iff_right hj]
  · rw [if_pos hlen]
    exact iff_of_true h (fun h => absurd h hlen)

theorem flaggedID_lawful_iff (h : s.Lawful) (p : Process) (id : Bytes) :
    (flaggedID s p id).2.Lawful ↔
      ((∃ e ∈ (s.memory p).lookup id, e.unexpired s.clock = false) →
        ∀ j, rowAt (s.memory p) s.clock j = rowAt s.file s.clock j) := by
  unfold flaggedID
  cases hid : (s.memory p).lookup id with
  | none => exact iff_of_true h (by simp)
  | some e =>
    dsimp only
    cases hlive : e.unexpired s.clock with
    | true => exact iff_of_true h (by simp [hlive])
    | false =>
      -- the row that is dropped stood for nothing
      have hdead : rowAt (s.memory p) s.clock id = none := by
        rw [Option.eq_none_iff_forall_not_mem]
        intro t ht
        obtain ⟨e', he', rfl, hle⟩ := mem_rowAt.mp ht
        rw [hid, Option.some.injEq] at he'
        subst he'
        exact of_decide_eq_false hlive hle
      rw [imp_iff_right ⟨e, rfl, hlive⟩]
      refine forall_congr' fun j => ?_
      show rowAt ((s.memory p).erase id) s.clock j = standing (s.due j) s.clock ↔ _
      rw [rowAt_erase, ← h j]
      split
      next hj => rw [hj, hdead]
      next => rfl

theorem World.Lawful.entries (h : s.Lawful) (p : Process) : (entries s p).Lawful := by
  unfold Blacklist.entries
  dsimp only
  rw [if_neg (by simp [Table.select, Table.reject, AList.keys, List.keys])]
  exact h

theorem remove_lawful_iff (h : s.Lawful) (p : Process) (idHex : Bytes) :
    (remove P s p idHex).2.Lawful ↔ ((s.memory p).lookup (typedID P idHex) ≠ none →
      ∀ j ≠ typedID P idHex, rowAt (s.memory p) s.clock j = rowAt s.file s.clock j) := by
  unfold remove
  dsimp only
  cases hid : (s.memory p).lookup (typedID P idHex) with
  | none => exact iff_of_true h (by simp)
  | some e =>
    rw [imp_iff_right (Option.some_ne_none e)]
    refine forall_congr' fun j => ?_
    show rowAt ((s.memory p).erase (typedID P idHex)) s.clock j =
      standing (Function.update s.due (typedID P idHex) none j) s.clock ↔ _
    rw [rowAt_erase, Function.update_apply]
    by_cases hj : j = typedID P idHex
    · simp [hj, standing]
    · rw [if_neg hj, if_neg hj, ← h j, imp_iff_right hj]

/-- **The step lemma.** -/
theorem step_lawful_iff (h : s.Lawful) (x : Process × Nat × Call) :
    (step P s x).Lawful ↔ InStep P s x := by
  obtain ⟨p, n, call⟩ := x
  have hnow := h.wait n
  cases call with
  | record nodeID cls detail proof => exact record_lawful_iff hnow p nodeID cls detail proof
  | flaggedID id => exact flaggedID_lawful_iff hnow p id
  | entries => exact iff_of_true (hnow.entries p) trivial
  | remove id => exact remove_lawful_iff hnow p id

end

/-! ## Every run -/

/-- **Verdicts are kept** after every call exactly when every call is in step
with the file. -/
theorem verdicts_kept_iff (P : Primitives) (file : Rows) (now : Int)
    (calls : List (Process × Nat × Call)) :
    (∀ n, World.Lawful ((calls.take n).foldl (step P) (.start file now))) ↔
      EachStep (step P) (InStep P) (.start file now) calls :=
  @EachStep.always_iff _ _ _ _ (fun _ => True) World.Lawful (fun _ _ _ => trivial)
    (fun _ x _ h => step_lawful_iff h x) _ _ trivial (fun _ => rfl)

namespace Sample

def node (n : UInt8) : Bytes := List.replicate 32 n

def rowOf (n : UInt8) : Bytes := hexEncode (node n)

/-- Node `n` caught by `p`, one tick later. -/
def caught (p : Process) (n : UInt8) : Process × Nat × Call :=
  (p, 1, .record (node n) .wrongSlice [] [])

def after (calls : List (Process × Nat × Call)) : World :=
  calls.foldl (step Toy.primitives) (.start ∅ 0)

end Sample

section
open Sample

/-- **A verdict is lost, and a removed one comes back**: the daemon's removal of node 1
takes node 2 out of the file, and the command line brings node 1 back. -/
theorem verdict_lost_and_revived :
    (let s := after [caught .daemon 1, caught .cli 2, (.daemon, 1, .remove (rowOf 1))]
     s.due (rowOf 2) = some (defaultTTL + 2) ∧ expiryOf s.file (rowOf 2) = none) ∧
    let s := after [caught .daemon 1, caught .cli 2, (.daemon, 1, .remove (rowOf 1)), caught .cli 3]
    s.due (rowOf 1) = none ∧
      expiryOf s.file (rowOf 1) = some (defaultTTL + 1) := by
  decide +kernel

end

end Freens.Blacklist
