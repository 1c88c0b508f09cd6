/-
**RESTARTS OF THE RECORD STORE** (`cmd/freens/main.go`: `seedFromDir`;
`dht/store.go`: `PersistTo`, `PersistHistoryTo`; `dht/evidence.go`:
`PersistEvidenceTo`).

Seeding does not read the name of a file: it derives every key of the envelope
again and puts it at each of them, file after file. An envelope can so enter a
slot it did not hold, before the file of the envelope that did.
-/
import Freens.Dht.Accounting
import Freens.Dht.Retention
import Freens.Wire.Files

namespace Freens.Dht

open Library Naming Wire

/-! ## Persisting -/

/-- What each key serves. -/
def slots (s : EnvelopeStore) : List (Bytes × SignedEnvelope) :=
  (s.entries.select (fun _ _ => true)).map (fun x => (x.1, x.2.env))

/-- What the history holds. -/
def past (s : EnvelopeStore) : List (Bytes × SignedEnvelope) :=
  (s.history.select (fun _ _ => true)).map (fun x => (x.1, x.2.env))

/-- What the evidence table holds. -/
def blobs (s : EnvelopeStore) : List (Bytes × Bytes) := s.evidence.select (fun _ _ => true)

/-- The history by hash. -/
def historyEntries (s : EnvelopeStore) : List (Bytes × SignedEnvelope) :=
  (past s).insertionSort (fun a b => a.1 ≤ b.1)

/-- The evidence by hash. -/
def evidenceEntries (s : EnvelopeStore) : List (Bytes × Bytes) :=
  (blobs s).insertionSort (fun a b => a.1 ≤ b.1)

/-- The three directories. -/
structure PersistDir where
  entries : Directory
  history : Directory
  evidence : Directory

/-- The file of an entry. -/
def envelopeFile (x : Bytes × SignedEnvelope) : Bytes × Bytes := (x.1, x.2.bytes)

/-- `PersistTo`, `PersistHistoryTo` and `PersistEvidenceTo`. -/
def persist (s : EnvelopeStore) (dir : PersistDir) (now : Int) : PersistDir where
  -- only live entries are written
  entries := dir.entries.writeAll ((entriesAt s now).map envelopeFile)
  history := dir.history.writeAll ((historyEntries s).map envelopeFile)
  evidence := dir.evidence.writeAll (evidenceEntries s)

/-! ## Seeding -/

section
variable (P : Primitives) (unmarshal : Bytes → Option SignedEnvelope)

/-- The evidence files; a misnamed or malformed one is skipped. -/
def seedEvidence (s : EnvelopeStore) (files : List (Bytes × Bytes)) : EnvelopeStore :=
  files.foldl (fun s f => putEvidence P s f.1 f.2) s

/-- The keys of one envelope; an error of the store ends the seeding. -/
def putKeys (env : SignedEnvelope) (now : Int) :
    List Bytes → Bool → EnvelopeStore → Except StoreError Bool × EnvelopeStore
  | [], placed, s => (.ok placed, s)
  | key :: rest, placed, s =>
    match put P s key env now true with
    | (.error e, s') => (.error e, s')
    | (.ok accepted, s') => putKeys env now rest (placed || accepted) s'

/-- The entry files; the name of a file is not looked at. -/
def seedEntries (now : Int) :
    List (Bytes × Bytes) → Nat → EnvelopeStore → Except StoreError Nat × EnvelopeStore
  | [], count, s => (.ok count, s)
  | (_, data) :: rest, count, s =>
    match decodeEnvelope unmarshal data with
    | .error _ => seedEntries now rest count s
    | .ok env =>
      match storageKeys P env with
      | .error _ => seedEntries now rest count s
      | .ok keys =>
        match putKeys P env now keys false s with
        | (.error e, s') => (.error e, s')
        | (.ok placed, s') => seedEntries now rest (if placed then count + 1 else count) s'

/-- The history read back from its files. -/
def seedHistory (now : Int) (s : EnvelopeStore) (files : List (Bytes × Bytes)) : EnvelopeStore :=
  files.foldl (fun s f =>
    match decodeEnvelope unmarshal f.2 with
    | .error _ => s
    | .ok env => retainHistoryEnv P s env now) s

/-- The files placed, and the store. The evidence comes first, so that a recovery is
accepted again. -/
def seedFromDir (s : EnvelopeStore) (dir : PersistDir) (now : Int) :
    Except StoreError Nat × EnvelopeStore :=
  match seedEntries P unmarshal now dir.entries.files 0
      (seedEvidence P s dir.evidence.files) with
  | (.error e, s') => (.error e, s')
  | (.ok count, s') => (.ok count, seedHistory P unmarshal now s' dir.history.files)

/-- **A restart**: persisted into an empty directory, a fresh store seeded from it. -/
def restart (maxBytes : Int) (s : EnvelopeStore) (saved now : Int) :
    Except StoreError Nat × EnvelopeStore :=
  seedFromDir P unmarshal (newEnvelopeStore maxBytes) (persist s ⟨∅, ∅, ∅⟩ saved) now

end

/-! ## When a restart keeps the store -/

/-- The storage keys of an envelope. -/
def offers (P : Primitives) (env : SignedEnvelope) : List Bytes :=
  match storageKeys P env with
  | .error _ => []
  | .ok keys => keys

/-- One put of the seeding. -/
def seedPut (P : Primitives) (now : Int) (st : EnvelopeStore) (p : Bytes × SignedEnvelope) :
    EnvelopeStore := (put P st p.1 p.2 now true).2

/-- The puts of the seeding: by the names of the files, each envelope at each of
its keys. -/
def seedPuts (P : Primitives) (s : EnvelopeStore) (saved : Int) : List (Bytes × SignedEnvelope) :=
  (entriesAt s saved).flatMap (fun x => (offers P x.2).map (·, x.2))

/-- The fresh store with the evidence in it. -/
def freshStore (P : Primitives) (maxBytes : Int) (s : EnvelopeStore) : EnvelopeStore :=
  seedEvidence P (newEnvelopeStore maxBytes) (evidenceEntries s)

/-- The envelope held under a key. -/
def slotEnv (st : EnvelopeStore) (k : Bytes) : Option SignedEnvelope :=
  (st.entries.lookup k).map Entry.env

/-- Rule 3: `env` replaces the live `cur`, by the evidence and the parents that
`st` holds. -/
def Displaces (P : Primitives) (st : EnvelopeStore) (now : Int) (cur env : SignedEnvelope) : Prop :=
  env.recordHash P ≠ cur.recordHash P ∧ envelopeWins P env cur = true ∧
    ((env.record.prevHashBytes = cur.recordHash P ∧ cur.record.sequence < env.record.sequence ∧
        (env.signer = cur.record.owner ∨ recoveryAcceptable P st env cur [] = true)) ∨
      (env.record.hasPrevHash = false ∧
        (env.signer = cur.record.owner ∨ parentAuthorizes P st env cur now = true)))

instance (P : Primitives) (st : EnvelopeStore) (now : Int) (cur env : SignedEnvelope) :
    Decidable (Displaces P st now cur env) :=
  inferInstanceAs (Decidable (_ ∧ _ ∧ _))

/-- The put enters its slot: it is signed, and the slot is free or displaced. -/
def Enters (P : Primitives) (now : Int) (st : EnvelopeStore) (p : Bytes × SignedEnvelope) : Prop :=
  p.2.verifySignature P = true ∧ ∀ cur ∈ slotEnv st p.1, Displaces P st now cur p.2

instance (P : Primitives) (now : Int) (st : EnvelopeStore) (p : Bytes × SignedEnvelope) :
    Decidable (Enters P now st p) :=
  inferInstanceAs (Decidable (_ ∧ _))

/-- **A slot is regained**: its own envelope enters it, and no other does afterwards. -/
def Regains (P : Primitives) (now : Int) (st : EnvelopeStore)
    (puts : List (Bytes × SignedEnvelope)) (x : Bytes × SignedEnvelope) : Prop :=
  ∃ before after, puts = before ++ x :: after ∧
    Enters P now (before.foldl (seedPut P now) st) x ∧
    EachStep (seedPut P now) (fun st p => p.1 = x.1 → p.2 = x.2 ∨ ¬ Enters P now st p)
      (seedPut P now (before.foldl (seedPut P now) st) x) after

/-- There is room for the put next to what the other slots hold. -/
def FitsEntries (st : EnvelopeStore) (p : Bytes × SignedEnvelope) : Prop :=
  st.bytes + (p.2.bytes.length - ((st.entries.lookup p.1).map Entry.size).getD 0) ≤ st.maxBytes

instance (st : EnvelopeStore) (p : Bytes × SignedEnvelope) : Decidable (FitsEntries st p) :=
  inferInstanceAs (Decidable (_ ≤ _))

/-- **No table is at its limit** when the seeding writes to it. -/
structure Roomy (P : Primitives) (maxBytes : Int) (s : EnvelopeStore) (saved now : Int) : Prop where
  evidence : EachStep (fun st f => putEvidence P st f.1 f.2) (fun st f => FitsEvidence st f.1 f.2)
    (newEnvelopeStore maxBytes) (evidenceEntries s)
  entries : EachStep (seedPut P now) FitsEntries (freshStore P maxBytes s) (seedPuts P s saved)
  history : EachStep (fun st x => retainHistoryEnv P st x.2 now)
    (fun st x => FitsHistory P st ⟨x.2, 0, now⟩)
    ((seedPuts P s saved).foldl (seedPut P now) (freshStore P maxBytes s)) (historyEntries s)

/-- **The store after a restart**: every key, history and evidence item is as it was. -/
structure Preserved (s restarted : EnvelopeStore) : Prop where
  entries : ∀ k e, s.entries.lookup k = some e → slotEnv restarted k = some e.env
  history : ∀ h e, s.history.lookup h = some e → getHistory restarted h = some e.env
  evidence : ∀ h raw, s.evidence.lookup h = some raw → getEvidence restarted h = some raw

/-! ## What is on disk -/

variable {P : Primitives} {unmarshal : Bytes → Option SignedEnvelope}
  {env : SignedEnvelope} {k : Bytes} {f : Bytes × Bytes} {l : List (Bytes × Bytes)}
  {saved now maxBytes : Int} {e : Entry} {p x : Bytes × SignedEnvelope} {t : Table Bytes Entry}
  {h hash : Bytes} {s st : EnvelopeStore} {puts : List (Bytes × SignedEnvelope)}

theorem mem_envelopes {p : Bytes → Entry → Bool} :
    (k, env) ∈ (t.select p).map (fun x => (x.1, x.2.env)) ↔
      ∃ e, t.lookup k = some e ∧ p k e = true ∧ e.env = env := by
  simp only [List.mem_map, Prod.exists, Prod.mk.injEq, Table.mem_select]
  constructor
  · rintro ⟨k', e, ⟨hk, hp⟩, rfl, henv⟩
    exact ⟨e, hk, hp, henv⟩
  · rintro ⟨e, hk, hp, henv⟩
    exact ⟨k, e, ⟨hk, hp⟩, rfl, henv⟩

theorem mem_slots : (k, env) ∈ slots s ↔ ∃ e, s.entries.lookup k = some e ∧ e.env = env := by
  unfold slots
  simp only [mem_envelopes, true_and]

theorem mem_past : (h, env) ∈ past s ↔ ∃ e, s.history.lookup h = some e ∧ e.env = env := by
  unfold past
  simp only [mem_envelopes, true_and]

theorem mem_blobs {raw : Bytes} : (h, raw) ∈ blobs s ↔ s.evidence.lookup h = some raw := by
  unfold blobs
  rw [Table.mem_select]
  simp

theorem mem_entriesAt (halive : ∀ x ∈ slots s, alive x.2 saved = true) :
    x ∈ entriesAt s saved ↔ x ∈ slots s := by
  obtain ⟨k, env⟩ := x
  rw [entriesAt, List.mem_insertionSort, mem_envelopes, mem_slots]
  constructor
  · rintro ⟨e, hk, _, henv⟩
    exact ⟨e, hk, henv⟩
  · rintro ⟨e, hk, rfl⟩
    exact ⟨e, hk, halive (k, e.env) (mem_slots.mpr ⟨e, hk, rfl⟩), rfl⟩

/-- Sorted by name, the files are listed as they were written. -/
theorem files_writeAll_sorted {l : List (Bytes × Bytes)} (hnodup : (l.map Prod.fst).Nodup) :
    (Directory.writeAll ∅ (l.insertionSort (fun a b => a.1 ≤ b.1))).files =
      l.insertionSort (fun a b => a.1 ≤ b.1) := by
  have hperm := List.perm_insertionSort (fun a b : Bytes × Bytes => a.1 ≤ b.1) l
  refine eq_of_ascending (Directory.files_ascending _) (pairwise_lt_insertionSort hnodup) ?_
  intro f
  show (f.1, f.2) ∈ _ ↔ _
  rw [Directory.mem_files, Directory.lookup_writeAll ((hperm.map _).nodup_iff.mpr hnodup)]
  simp

theorem map_envelopeFile_sorted (l : List (Bytes × SignedEnvelope)) :
    (l.insertionSort (fun a b => a.1 ≤ b.1)).map envelopeFile =
      (l.map envelopeFile).insertionSort (fun a b => a.1 ≤ b.1) :=
  List.map_insertionSort _ _ _ _ fun _ _ _ _ => Iff.rfl

theorem nodup_envelopeFile (t : Table Bytes Entry) (p : Bytes → Entry → Bool) :
    ((((t.select p).map (fun x => (x.1, x.2.env))).map envelopeFile).map Prod.fst).Nodup := by
  rw [List.map_map, List.map_map]
  exact Table.select_nodup t p

/-- **What is on disk**, in the order it is read. -/
theorem files_persist (s : EnvelopeStore) (saved : Int) :
    (persist s ⟨∅, ∅, ∅⟩ saved).entries.files = (entriesAt s saved).map envelopeFile ∧
      (persist s ⟨∅, ∅, ∅⟩ saved).history.files = (historyEntries s).map envelopeFile ∧
      (persist s ⟨∅, ∅, ∅⟩ saved).evidence.files = evidenceEntries s := by
  refine ⟨?_, ?_, files_writeAll_sorted (Table.select_nodup _ _)⟩
  · show (Directory.writeAll ∅ ((entriesAt s saved).map envelopeFile)).files = _
    rw [entriesAt, map_envelopeFile_sorted, files_writeAll_sorted (nodup_envelopeFile _ _)]
  · show (Directory.writeAll ∅ ((historyEntries s).map envelopeFile)).files = _
    rw [historyEntries, past, map_envelopeFile_sorted, files_writeAll_sorted (nodup_envelopeFile _ _)]

/-! ## Seeding as a list of puts -/

/-- The puts of one file. -/
def filePuts (P : Primitives) (unmarshal : Bytes → Option SignedEnvelope) (f : Bytes × Bytes) :
    List (Bytes × SignedEnvelope) :=
  match decodeEnvelope unmarshal f.2 with
  | .error _ => []
  | .ok env => (offers P env).map (·, env)

theorem length_of_mem_offers {env : SignedEnvelope} {k : Bytes} (h : k ∈ offers P env) :
    k.length = 32 := by
  unfold offers at h
  split at h
  next => exact absurd h List.not_mem_nil
  next keys hkeys =>
    obtain ⟨nameKey, hname, hk⟩ := mem_storageKeys_iff.mp ⟨keys, hkeys, h⟩
    rcases hk with rfl | hclaim
    · exact keyForWireName_length hname
    · obtain ⟨_, _, hck⟩ := claimKey_eq_some hclaim
      exact keyForClaim_length hck

theorem put_ok {s : EnvelopeStore} {key : Bytes} {env : SignedEnvelope} {now : Int}
    (hkey : key.length = 32) : ∃ accepted, (put P s key env now true).1 = .ok accepted := by
  unfold put putWithEvidence
  rw [if_neg (by simp [hkey])]
  split
  next => exact ⟨false, rfl⟩
  cases judge P s key env now [] with
  | refuse => exact ⟨false, rfl⟩
  | refresh | install => exact ⟨true, rfl⟩

theorem putKeys_eq {env : SignedEnvelope} {now : Int} {keys : List Bytes} {placed : Bool}
    {s : EnvelopeStore} (hlen : ∀ k ∈ keys, k.length = 32) :
    ∃ placed', putKeys P env now keys placed s =
      (.ok placed', (keys.map (·, env)).foldl (seedPut P now) s) := by
  induction keys generalizing placed s with
  | nil => exact ⟨placed, rfl⟩
  | cons key keys ih =>
    obtain ⟨accepted, hok⟩ := @put_ok P s key env now (hlen key List.mem_cons_self)
    have hput : put P s key env now true = (.ok accepted, seedPut P now s (key, env)) :=
      Prod.ext hok rfl
    obtain ⟨placed', hrest⟩ := @ih (placed || accepted) (seedPut P now s (key, env))
      (fun k hk => hlen k (List.mem_cons_of_mem _ hk))
    refine ⟨placed', ?_⟩
    unfold putKeys
    rw [hput]
    exact hrest

theorem seedEntries_eq {now : Int} {files : List (Bytes × Bytes)} {count : Nat}
    {s : EnvelopeStore} : ∃ count', seedEntries P unmarshal now files count s =
      (.ok count', (files.flatMap (filePuts P unmarshal)).foldl (seedPut P now) s) := by
  induction files generalizing count s with
  | nil => exact ⟨count, rfl⟩
  | cons f files ih =>
    obtain ⟨name, data⟩ := f
    rw [List.flatMap_cons, List.foldl_append]
    unfold seedEntries
    cases hdec : decodeEnvelope unmarshal data with
    | error e =>
      simp only [filePuts, hdec]
      exact ih
    | ok env =>
      simp only [filePuts, hdec]
      cases hkeys : storageKeys P env with
      | error e =>
        simp only [offers, hkeys]
        exact ih
      | ok keys =>
        have hoffers : offers P env = keys := by simp only [offers, hkeys]
        have hlen : ∀ k ∈ keys, k.length = 32 :=
          fun k hk => @length_of_mem_offers P env k (hoffers ▸ hk)
        obtain ⟨placed, hput⟩ := @putKeys_eq P env now keys false s hlen
        rw [hoffers]
        dsimp only
        rw [hput]
        exact ih

theorem decode_of_readable (h : (decodeEnvelope unmarshal x.2.bytes).toOption = some x.2) :
    decodeEnvelope unmarshal (envelopeFile x).2 = .ok x.2 := by
  show decodeEnvelope unmarshal x.2.bytes = _
  cases hdec : decodeEnvelope unmarshal x.2.bytes with
  | error e =>
    rw [hdec] at h
    exact absurd h (by simp [Except.toOption])
  | ok env =>
    rw [hdec] at h
    exact congrArg Except.ok (Option.some.inj h)

/-- **A restart is a list of writes**: the evidence, the puts, the history. -/
theorem restart_eq (halive : ∀ x ∈ slots s, alive x.2 saved = true)
    (hreadable : ∀ x ∈ slots s ++ past s,
      (decodeEnvelope unmarshal x.2.bytes).toOption = some x.2) :
    (restart P unmarshal maxBytes s saved now).2 =
      (historyEntries s).foldl (fun st x => retainHistoryEnv P st x.2 now)
        ((seedPuts P s saved).foldl (seedPut P now) (freshStore P maxBytes s)) := by
  obtain ⟨hentries, hhistory, hevidence⟩ := files_persist s saved
  have hputs : ((entriesAt s saved).map envelopeFile).flatMap (filePuts P unmarshal) =
      seedPuts P s saved := by
    rw [List.flatMap_map]
    refine List.flatMap_congr fun x hx => ?_
    unfold filePuts
    rw [decode_of_readable
      (hreadable x (List.mem_append_left _ ((mem_entriesAt halive).mp hx)))]
  obtain ⟨count, hseed⟩ := @seedEntries_eq P unmarshal now ((entriesAt s saved).map envelopeFile) 0
    (freshStore P maxBytes s)
  have hpast : ∀ x ∈ historyEntries s, x ∈ past s := fun x hx => (List.mem_insertionSort _).mp hx
  unfold freshStore at hseed
  unfold restart seedFromDir
  rw [hentries, hhistory, hevidence, hseed, hputs]
  show seedHistory P unmarshal now _ _ = _
  rw [seedHistory, List.foldl_map]
  refine List.foldl_ext _ _ _ fun st x hx => ?_
  rw [decode_of_readable (hreadable x (List.mem_append_right _ (hpast x hx)))]

/-! ## The entries: one put -/

theorem install_eq_displace {s : EnvelopeStore} {now : Int}
    (halive : ∀ k' e, (displace P s k env now).entries.lookup k' = some e → alive e.env now = true)
    (hroom : (displace P s k env now).bytes ≤ (displace P s k env now).maxBytes) :
    install P s k env now = displace P s k env now := by
  have hnone : ∀ p : Bytes → Bool, (displace P s k env now).entries.select
      (fun k' e => p k' && !alive e.env now) = [] := by
    intro p
    rw [List.eq_nil_iff_forall_not_mem]
    rintro ⟨k', e⟩ hmem
    obtain ⟨hk', hdead⟩ := Table.mem_select.mp hmem
    simp [halive k' e hk'] at hdead
  have hexpired := hnone (fun _ => true)
  have hdead := hnone (fun k' => decide (k' ≠ k))
  simp only [Bool.true_and] at hexpired
  unfold install evictExpired
  rw [hexpired, List.foldl_nil]
  unfold enforceCap
  rw [hdead, List.foldl_nil]
  dsimp only
  cases (displace P s k env now).entries.keys.length with
  | zero => rfl
  | succ n =>
    unfold shedLRU
    rw [if_neg (fun h => absurd h.1 (Int.not_lt.mpr hroom))]

/-- Everything the store holds is alive. -/
def AllAlive (now : Int) (st : EnvelopeStore) : Prop :=
  ∀ k env, slotEnv st k = some env → alive env now = true

theorem slotEnv_of_lookup (h : st.entries.lookup k = some e) : slotEnv st k = some e.env := by
  rw [slotEnv, h]
  rfl

theorem judge_install_iff (hst : AllAlive now st) :
    judge P st k env now [] = .install ↔ ∀ cur ∈ slotEnv st k, Displaces P st now cur env := by
  cases hcur : st.entries.lookup k with
  | none =>
    rw [judge_of_empty fun cur h => absurd (hcur.symm.trans h) (by simp), slotEnv, hcur]
    simp
  | some cur =>
    rw [judge_of_alive hcur (hst k cur.env (slotEnv_of_lookup hcur)), judgeIncumbent_install_iff,
      slotEnv_of_lookup hcur]
    simp only [Option.mem_some_iff, forall_eq']
    rfl

/-- **What a put of the seeding does**: it leaves every slot as it is, or enters
its own. -/
theorem seedPut_cases (hst : AllAlive now st) (hkey : p.1.length = 32) :
    (¬ Enters P now st p ∧ ∀ k, slotEnv (seedPut P now st p) k = slotEnv st k) ∨
      (Enters P now st p ∧ seedPut P now st p = install P st p.1 p.2 now) := by
  by_cases hsigned : p.2.verifySignature P = true
  · have hstate : seedPut P now st p = (enact P st p.1 p.2 now (judge P st p.1 p.2 now [])).2 :=
      congrArg Prod.snd (putWithEvidence_eq hkey fun _ => hsigned)
    have hiff := @judge_install_iff P p.2 p.1 now st hst
    cases hverdict : judge P st p.1 p.2 now [] with
    | install =>
      rw [hverdict] at hstate
      exact .inr ⟨⟨hsigned, hiff.mp hverdict⟩, hstate⟩
    | refuse =>
      rw [hverdict] at hstate hiff
      exact .inl ⟨fun h => absurd (hiff.mpr h.2) (by simp), fun k => congrArg (slotEnv · k) hstate⟩
    | refresh =>
      rw [hverdict] at hstate hiff
      refine .inl ⟨fun h => absurd (hiff.mpr h.2) (by simp), fun k => ?_⟩
      rw [hstate]
      exact touch_lookup_env st p.1 k now
  · refine .inl ⟨fun h => hsigned h.1, fun k => ?_⟩
    have hrefused : seedPut P now st p = st := by
      unfold seedPut put putWithEvidence
      rw [if_neg (not_not.mpr hkey), if_pos (by simpa using hsigned)]
    rw [hrefused]

theorem slotEnv_displace (k : Bytes) (env : SignedEnvelope) (k' : Bytes) :
    slotEnv (displace P st k env now) k' = if k' = k then some env else slotEnv st k' := by
  rw [slotEnv, displace_entries]
  by_cases hk : k' = k
  · rw [hk, AList.lookup_insert, if_pos rfl]
    rfl
  · rw [AList.lookup_insert_ne hk, if_neg hk]
    rfl

/-- After an install a slot holds what it held, or the new envelope. -/
theorem slotEnv_of_install {k' : Bytes} {env' : SignedEnvelope}
    (h : slotEnv (install P st k env now) k' = some env') :
    (k' = k ∧ env' = env) ∨ (k' ≠ k ∧ slotEnv st k' = some env') := by
  obtain ⟨e, he, rfl⟩ := Option.map_eq_some_iff.mp h
  rw [install_eq_foldl] at he
  have hslot := slotEnv_of_lookup (foldl_evict_sub _ _ k' e he)
  rw [slotEnv_displace] at hslot
  split at hslot
  next hk => exact .inl ⟨hk, (Option.some.inj hslot).symm⟩
  next hk => exact .inr ⟨hk, hslot⟩

/-- The inversion of one put: where an envelope in a slot comes from. -/
theorem slotEnv_of_seedPut (hst : AllAlive now st) (hkey : p.1.length = 32)
    (h : slotEnv (seedPut P now st p) k = some env) :
    ((k, env) = p ∧ Enters P now st p) ∨
      (slotEnv st k = some env ∧ (p.1 = k → p.2 = env ∨ ¬ Enters P now st p)) := by
  rcases seedPut_cases (P := P) hst hkey with ⟨hout, hsame⟩ | ⟨henters, hstate⟩
  · rw [hsame] at h
    exact .inr ⟨h, fun _ => .inr hout⟩
  · rw [hstate] at h
    rcases slotEnv_of_install h with ⟨rfl, rfl⟩ | ⟨hne, hold⟩
    · exact .inl ⟨rfl, henters⟩
    · exact .inr ⟨hold, fun heq => absurd heq.symm hne⟩

theorem AllAlive.seedPut (hst : AllAlive now st) (hkey : p.1.length = 32)
    (hp : alive p.2 now = true) : AllAlive now (seedPut P now st p) := by
  intro k env h
  rcases slotEnv_of_seedPut hst hkey h with ⟨rfl, _⟩ | ⟨hold, _⟩
  · exact hp
  · exact hst k env hold

theorem install_of_fits (hst : AllAlive now st) (hp : alive p.2 now = true)
    (hfits : FitsEntries st p) : install P st p.1 p.2 now = displace P st p.1 p.2 now := by
  refine install_eq_displace ?_ ?_
  · intro k e he
    have hslot := slotEnv_of_lookup he
    rw [slotEnv_displace] at hslot
    split at hslot
    next => exact Option.some.inj hslot ▸ hp
    next => exact hst k e.env hslot
  · unfold FitsEntries at hfits
    unfold displace
    cases hcur : st.entries.lookup p.1 with
    | none =>
      rw [hcur] at hfits
      exact hfits
    | some cur =>
      rw [hcur] at hfits
      dsimp only [bindWinner]
      rw [retainHistory_frame]
      exact hfits

/-- **With room**, the put that enters is in its slot and leaves all others. -/
theorem slotEnv_seedPut_of_fits (hst : AllAlive now st) (hkey : p.1.length = 32)
    (hp : alive p.2 now = true) (hfits : FitsEntries st p) (k : Bytes) :
    slotEnv (seedPut P now st p) k =
      if k = p.1 ∧ Enters P now st p then some p.2 else slotEnv st k := by
  rcases seedPut_cases (P := P) hst hkey with ⟨hout, hsame⟩ | ⟨henters, hstate⟩
  · rw [hsame, if_neg fun h => hout h.2]
  · rw [hstate, install_of_fits hst hp hfits, slotEnv_displace]
    simp only [henters, and_true]

/-! ## The entries: all puts -/

section
variable (hputs : ∀ p ∈ puts, p.1.length = 32 ∧ alive p.2 now = true)
include hputs

theorem AllAlive.run (hst : AllAlive now st) : AllAlive now (puts.foldl (Dht.seedPut P now) st) := by
  induction puts generalizing st with
  | nil => exact hst
  | cons p puts ih =>
    obtain ⟨hkey, hp⟩ := hputs p List.mem_cons_self
    exact ih (fun q hq => hputs q (List.mem_cons_of_mem _ hq)) (hst.seedPut hkey hp)

/-- **Necessity**: what is in a slot at the end entered it at some point, for good. -/
theorem regains_of_slotEnv (hst : AllAlive now st) (hfree : slotEnv st x.1 = none)
    (h : slotEnv (puts.foldl (seedPut P now) st) x.1 = some x.2) : Regains P now st puts x := by
  induction puts using List.reverseRecOn with
  | nil =>
    rw [List.foldl_nil, hfree] at h
    cases h
  | append_singleton puts p ih =>
    have hbefore : ∀ q ∈ puts, q.1.length = 32 ∧ alive q.2 now = true :=
      fun q hq => hputs q (List.mem_append_left _ hq)
    obtain ⟨hkey, _⟩ := hputs p (List.mem_append_right _ List.mem_cons_self)
    rw [List.foldl_append, List.foldl_cons, List.foldl_nil] at h
    rcases slotEnv_of_seedPut (hst.run hbefore) hkey h with ⟨rfl, henters⟩ | ⟨hold, hspares⟩
    · exact ⟨puts, [], rfl, henters, trivial⟩
    · obtain ⟨before, after, rfl, henters, hstays⟩ := ih hbefore hold
      refine ⟨before, after ++ [p], by simp, henters, EachStep.append_iff.mpr ⟨hstays, ?_, trivial⟩⟩
      rwa [List.foldl_append, List.foldl_cons] at hspares

theorem slotEnv_kept (hst : AllAlive now st) (hslot : slotEnv st x.1 = some x.2)
    (hfits : EachStep (seedPut P now) FitsEntries st puts)
    (hstays : EachStep (seedPut P now) (fun st p => p.1 = x.1 → p.2 = x.2 ∨ ¬ Enters P now st p)
      st puts) : slotEnv (puts.foldl (seedPut P now) st) x.1 = some x.2 := by
  induction puts generalizing st with
  | nil => exact hslot
  | cons p puts ih =>
    obtain ⟨hkey, hp⟩ := hputs p List.mem_cons_self
    refine ih (fun q hq => hputs q (List.mem_cons_of_mem _ hq)) (hst.seedPut hkey hp) ?_ hfits.2
      hstays.2
    rw [slotEnv_seedPut_of_fits hst hkey hp hfits.1]
    split
    next hown => exact congrArg some ((hstays.1 hown.1.symm).resolve_right (not_not.mpr hown.2))
    next => exact hslot

/-- **Sufficiency**: with room, a regained slot holds its envelope at the end. -/
theorem slotEnv_of_regains (hst : AllAlive now st)
    (hfits : EachStep (seedPut P now) FitsEntries st puts) (h : Regains P now st puts x) :
    slotEnv (puts.foldl (seedPut P now) st) x.1 = some x.2 := by
  obtain ⟨before, after, rfl, henters, hstays⟩ := h
  obtain ⟨_, hfitsOwn, hfitsAfter⟩ := EachStep.append_iff.mp hfits
  obtain ⟨hkey, hx⟩ := hputs x (List.mem_append_right _ List.mem_cons_self)
  have hmid : AllAlive now (before.foldl (seedPut P now) st) :=
    hst.run fun q hq => hputs q (List.mem_append_left _ hq)
  rw [List.foldl_append, List.foldl_cons]
  refine slotEnv_kept (fun q hq => hputs q (List.mem_append_right _ (List.mem_cons_of_mem _ hq)))
    (hmid.seedPut hkey hx) ?_ hfitsAfter hstays
  rw [slotEnv_seedPut_of_fits hmid hkey hx hfitsOwn, if_pos ⟨rfl, henters⟩]

end

/-! ## The side tables -/

theorem seedPuts_evidence (st : EnvelopeStore) :
    (puts.foldl (seedPut P now) st).evidence = st.evidence := by
  induction puts generalizing st with
  | nil => rfl
  | cons p puts ih => exact (ih _).trans (put_evidence st p.1 p.2 now true)

theorem foldl_retainHistoryEnv_frame (l : List (Bytes × SignedEnvelope)) (st : EnvelopeStore) :
    (l.foldl (fun st x => retainHistoryEnv P st x.2 now) st).entries = st.entries ∧
      (l.foldl (fun st x => retainHistoryEnv P st x.2 now) st).evidence = st.evidence := by
  induction l generalizing st with
  | nil => exact ⟨rfl, rfl⟩
  | cons x l ih =>
    have hstep : (retainHistoryEnv P st x.2 now).entries = st.entries ∧
        (retainHistoryEnv P st x.2 now).evidence = st.evidence := by
      unfold retainHistoryEnv
      split
      · exact ⟨retainHistory_entries st _, retainHistory_evidence _ _⟩
      · exact ⟨rfl, rfl⟩
    exact ⟨(ih _).1.trans hstep.1, (ih _).2.trans hstep.2⟩

theorem slotEnv_freshStore (maxBytes : Int) (s : EnvelopeStore) (k : Bytes) :
    slotEnv (freshStore P maxBytes s) k = none := by
  have hentries : ∀ (files : List (Bytes × Bytes)) (st : EnvelopeStore),
      (seedEvidence P st files).entries = st.entries := by
    intro files
    induction files with
    | nil => exact fun st => rfl
    | cons f files ih =>
      intro st
      refine (ih _).trans ?_
      show (putEvidence P st f.1 f.2).entries = st.entries
      rw [putEvidence_frame]
  rw [slotEnv, freshStore, hentries]
  rfl

/-- Whatever evidence was seeded is well-formed. -/
theorem wellFormedBlob_of_freshStore {raw : Bytes}
    (h : (freshStore P maxBytes s).evidence.lookup hash = some raw) : wellFormedBlob P raw := by
  have hall : ∀ (files : List (Bytes × Bytes)) (st : EnvelopeStore),
      (∀ h raw, st.evidence.lookup h = some raw → wellFormedBlob P raw) →
      ∀ h raw, (seedEvidence P st files).evidence.lookup h = some raw → wellFormedBlob P raw := by
    intro files
    induction files with
    | nil => exact fun st hst => hst
    | cons f files ih =>
      intro st hst
      refine ih _ fun h raw hraw => ?_
      rcases putEvidence_lookup hraw with ⟨_, rfl, hblob⟩ | hold
      · exact hblob
      · exact hst h raw hold
  exact hall _ _ (fun h raw hraw => absurd hraw (by simp [newEnvelopeStore])) hash raw h

theorem getHistory_seeded {e : Entry}
    (hhashed : ∀ x ∈ past s, x.2.record.encodes = true ∧ x.1 = x.2.recordHash P)
    (hfits : EachStep (fun st x => retainHistoryEnv P st x.2 now)
      (fun st x => FitsHistory P st ⟨x.2, 0, now⟩) st (historyEntries s))
    (he : s.history.lookup h = some e) :
    getHistory ((historyEntries s).foldl (fun st x => retainHistoryEnv P st x.2 now) st) h =
      some e.env := by
  have hmem : (h, e.env) ∈ historyEntries s :=
    (List.mem_insertionSort _).mpr (mem_past.mpr ⟨e, he, rfl⟩)
  have hnodup : ((historyEntries s).map Prod.fst).Nodup :=
    ((List.perm_insertionSort _ _).map _).nodup_iff.mpr
      (by rw [past, List.map_map]; exact Table.select_nodup _ _)
  refine get_foldl_of_writes getHistory Prod.fst Prod.snd ?_ hnodup _ hmem
  refine hfits.imp_of_mem fun st x hx hfits h => ?_
  obtain ⟨hencodes, hkey⟩ := hhashed x ((List.mem_insertionSort _).mp hx)
  rw [hkey, retainHistoryEnv, if_pos hencodes]
  exact getHistory_retain hfits h

theorem evidence_freshStore {raw : Bytes}
    (htaken : ∀ x ∈ blobs s, x.1.length = 32 ∧ wellFormedBlob P x.2)
    (hfits : EachStep (fun st f => putEvidence P st f.1 f.2) (fun st f => FitsEvidence st f.1 f.2)
      (newEnvelopeStore maxBytes) (evidenceEntries s))
    (hraw : s.evidence.lookup h = some raw) :
    (freshStore P maxBytes s).evidence.lookup h = some raw := by
  have hmem : (h, raw) ∈ evidenceEntries s :=
    (List.mem_insertionSort _).mpr (mem_blobs.mpr hraw)
  have hnodup : ((evidenceEntries s).map Prod.fst).Nodup :=
    ((List.perm_insertionSort _ _).map _).nodup_iff.mpr (Table.select_nodup _ _)
  refine get_foldl_of_writes (fun (st : EnvelopeStore) h => st.evidence.lookup h) Prod.fst
    Prod.snd ?_ hnodup _ hmem
  refine hfits.imp_of_mem fun st f hf hfits h => ?_
  rw [putEvidence_eq, if_pos (htaken f ((List.mem_insertionSort _).mp hf))]
  exact insertEvidence_of_fits hfits h

namespace SeedingSample

open Toy

def aliasName : Bytes := [0x61, 0x61, 0x61, 0x61, 0x61, 0x61]

def claimSlot : Bytes := minedChecksum (Constants.dhtKeyPrefixClaim :: Naming.claimTag ++ aliasName)

def tldSlot (n : UInt8) : Bytes := minedChecksum (publicKey n)

def claimant (n : UInt8) (ts : UInt64) : SignedEnvelope :=
  carrier n (minedClaim n aliasName ts []) ts 90000

def successor : SignedEnvelope :=
  signedWith mined
    { (claimant 2 1000).record with
      sequence := 2, claim := [], prevHash := some ((claimant 2 1000).recordHash mined) }
    (keypair 2)

def store (puts : List (Bytes × SignedEnvelope)) : EnvelopeStore :=
  puts.foldl (fun s p => (put mined s p.1 p.2 3000 true).2) (newEnvelopeStore 0)

/-- Owner 2's claim, then the next record. -/
def updated : EnvelopeStore :=
  store [(tldSlot 2, claimant 2 1000), (claimSlot, claimant 2 1000), (tldSlot 2, successor)]

/-- Key 2 holds the alias; key 1 claims it later, and gets its own TLD only. -/
def rivals : EnvelopeStore :=
  store [(tldSlot 2, claimant 2 1000), (claimSlot, claimant 2 1000),
    (tldSlot 1, claimant 1 2000), (claimSlot, claimant 1 2000)]

def readBack (b : Bytes) : Option SignedEnvelope :=
  [claimant 2 1000, claimant 1 2000, successor].find? (fun e => e.bytes = b)

end SeedingSample

section
open SeedingSample

end

end Freens.Dht
