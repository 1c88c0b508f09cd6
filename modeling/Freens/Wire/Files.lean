/-
**ENVELOPES ON DISK**, in directories of files named by the hexadecimal form of a
32-byte digest: a table from the digest to the file's bytes. `os.ReadDir` lists it
by name, and on digests of one length that is the order of the digests.
-/
import Freens.Library.Ledger
import Freens.Library.Lists
import Freens.Wire.Record

namespace Freens.Wire

open Library

/-- The errors of `DecodeEnvelope`. -/
inductive EnvelopeError where
  /-- "invalid envelope CBOR: …", or "envelope missing record (field 1)" -/
  | cbor
  | record (e : RecordError)
  /-- "sig (field 2) must be %d bytes, got %d" -/
  | sig (got : Nat)
  /-- "signer (field 3) must be %d bytes, got %d" -/
  | signer (got : Nat)
  deriving DecidableEq, Repr

/-- `DecodeEnvelope`, over `cbor.Unmarshal` into an envelope with a record. -/
def decodeEnvelope (unmarshal : Bytes → Option SignedEnvelope) (data : Bytes) :
    Except EnvelopeError SignedEnvelope :=
  match unmarshal data with
  | none => .error .cbor
  | some env =>
    match env.record.validate with
    | .error e => .error (.record e)
    | .ok () =>
      if env.sig.length ≠ Constants.ed25519SignatureLen then .error (.sig env.sig.length)
      else if env.signer.length ≠ Constants.ed25519PublicKeyLen then
        .error (.signer env.signer.length)
      else .ok env

/-! ## Directories -/

/-- A directory of files named by digests. -/
abbrev Directory := Table Bytes Bytes

/-- `os.ReadDir` with the files' contents: by ascending name. -/
def Directory.files (d : Directory) : List (Bytes × Bytes) :=
  (d.select (fun _ _ => true)).insertionSort (fun a b => a.1 ≤ b.1)

/-- The files are written one after the other. -/
def Directory.writeAll (d : Directory) (files : List (Bytes × Bytes)) : Directory :=
  files.foldl (fun d f => d.insert f.1 f.2) d

theorem Directory.mem_files {d : Directory} {k data : Bytes} :
    (k, data) ∈ d.files ↔ d.lookup k = some data := by
  rw [Directory.files, List.mem_insertionSort, Table.mem_select]
  simp

theorem Directory.files_nodup (d : Directory) : (d.files.map Prod.fst).Nodup :=
  ((List.perm_insertionSort _ _).map Prod.fst).nodup_iff.mpr (Table.select_nodup _ _)

theorem Directory.files_ascending (d : Directory) : d.files.Pairwise (fun a b => a.1 < b.1) :=
  pairwise_lt_insertionSort (Table.select_nodup _ _)

theorem Directory.lookup_writeAll {files : List (Bytes × Bytes)} {d : Directory} {k data : Bytes}
    (hnodup : (files.map Prod.fst).Nodup) :
    ((d.writeAll files).lookup k = some data ↔
      (k, data) ∈ files ∨ (k ∉ files.map Prod.fst ∧ d.lookup k = some data)) := by
  induction files generalizing d k data with
  | nil =>
    show d.lookup k = some data ↔ _
    simp
  | cons f files ih =>
    obtain ⟨hnew, hrest⟩ := List.nodup_cons.mp hnodup
    show (Directory.writeAll (d.insert f.1 f.2) files).lookup k = some data ↔ _
    rw [ih hrest]
    by_cases hk : k = f.1
    · subst hk
      rw [AList.lookup_insert]
      have hnot : (f.1, data) ∉ files := fun h => hnew (List.mem_map.mpr ⟨_, h, rfl⟩)
      simp only [hnot, hnew, not_false_eq_true, true_and, false_or, List.mem_cons, List.map_cons,
        Option.some.injEq, not_true_eq_false, false_and, or_false]
      exact ⟨fun h => Prod.ext rfl h.symm, fun h => (Prod.ext_iff.mp h).2.symm⟩
    · rw [AList.lookup_insert_ne hk]
      have hne : (k, data) ≠ f := fun h => hk (congrArg Prod.fst h)
      simp only [List.mem_cons, List.map_cons, hne, hk, false_or]

end Freens.Wire
