/-
**THE KEYCHAIN'S BACKUP** (`keychain/keychain.go`: `Aliases`, `BuildBackup`;
`cli/backup.go`: `backupRestore`).

The first group of the file-name pattern is the alias WITHOUT its first character,
and this is what `BuildBackup` hands to the validator.
-/
import Freens.Toy
import Freens.Wire.Files

namespace Freens.Keychain

open Library Naming Wire

/-! ## File names -/

/-- `.key` -/
def dotKey : Bytes := [0x2e, 0x6b, 0x65, 0x79]
/-- `.claim.json` -/
def dotClaimJson : Bytes := [0x2e, 0x63, 0x6c, 0x61, 0x69, 0x6d, 0x2e, 0x6a, 0x73, 0x6f, 0x6e]
/-- `.rec` -/
def dotRec : Bytes := [0x2e, 0x72, 0x65, 0x63]
/-- `RESTORE.txt` -/
def restoreTxt : Bytes := [0x52, 0x45, 0x53, 0x54, 0x4f, 0x52, 0x45, 0x2e, 0x74, 0x78, 0x74]

/-- A letter or a digit. -/
def isAlnum (c : UInt8) : Bool := isLDH c && c != 0x2d

/-- `[a-z0-9]([a-z0-9-]{0,61}[a-z0-9])?`, with what the group matches. -/
def aliasGroup : Bytes → Option Bytes
  | [] => none
  | c :: group =>
    if isAlnum c && (group.isEmpty ||
      (group.length ≤ 62 && group.all isLDH && group.getLast?.any isAlnum))
    then some group else none

/-- No byte of the alias pattern is a dot, so the first dot ends its match. -/
def stem (name : Bytes) : Bytes := name.takeWhile (· != 0x2e)

/-- A file name from its first dot on. -/
def ending (name : Bytes) : Bytes := name.dropWhile (· != 0x2e)

/-- What `(\.rec[1-9][0-9]*)?` leaves of an ending; it takes all it can. -/
def dropRec (s : Bytes) : Bytes :=
  if dotRec.isPrefixOf s && (s.drop 4).head?.any (fun d => isDigit d && d != 0x30)
  then (s.drop 4).dropWhile isDigit else s

/-- `^[a-z0-9]([a-z0-9-]{0,61}[a-z0-9])?(\.rec[1-9][0-9]*)?(\.key|\.claim\.json)$`,
with what its first group matches. -/
def backupEntryRe (name : Bytes) : Option Bytes :=
  if dropRec (ending name) = dotKey ∨ dropRec (ending name) = dotClaimJson
  then aliasGroup (stem name) else none

/-- `^([a-z0-9]([a-z0-9-]{0,61}[a-z0-9])?)\.key$`, with what its first group
matches. -/
def keyFileRe (name : Bytes) : Option Bytes :=
  if ending name = dotKey ∧ (aliasGroup (stem name)).isSome then some (stem name) else none

/-! ## Listing, bundling, restoring -/

section
variable (P : Primitives)

/-- `ValidateAlias` takes the name. -/
def validAliasShape (s : Bytes) : Bool := (validateAlias P s).isOk

/-- The directory holds the keychain's files; the loops skip subdirectories. -/
def aliases (keysDir : Directory) : List Bytes :=
  ((keysDir.files.filterMap (fun f => keyFileRe f.1)).filter (validAliasShape P)).insertionSort
    (· ≤ ·)

/-- A member of the archive. -/
structure Member where
  name : Bytes
  typeReg : Bool
  data : Bytes
  deriving DecidableEq

/-- Why a backup fails. -/
inductive BackupError where
  /-- "nothing to back up (no keychain at %s)" -/
  | noKeychain
  /-- "nothing to back up (no key files in %s)" -/
  | noKeyFiles
  /-- "archive/tar: cannot encode header: …" -/
  | header (name : Bytes)
  deriving DecidableEq

/-- A USTAR header has 100 bytes for a name without a slash. -/
def writeFile (f : Bytes × Bytes) : Except BackupError Member :=
  if 100 < f.1.length then .error (.header f.1) else .ok ⟨f.1, true, f.2⟩

/-- The two tests a file of the keychain has to pass. -/
def bundled (name : Bytes) : Bool := (backupEntryRe name).any (validAliasShape P)

/-- `readme` is the text of RESTORE.txt for the files listed. -/
def buildBackup (readme : List Bytes → Bytes) (keysDir : Option Directory) :
    Except BackupError (List Member) :=
  match keysDir with
  | none => .error .noKeychain
  | some d =>
    let files := d.files.filter (fun f => bundled P f.1)
    if files = [] then .error .noKeyFiles
    else do
      let members ← files.mapM writeFile
      return members ++ [⟨restoreTxt, true, readme (files.map Prod.fst)⟩]

end

/-- Why a restore fails. -/
inductive RestoreError where
  /-- "member %q exceeds the 1 MiB limit; backup corrupt or unsupported" -/
  | exceeds (name : Bytes)
  /-- "%q contains no freens key files" -/
  | noKeyFiles
  deriving DecidableEq

/-- What a restore has done so far. -/
structure Restore where
  keysDir : Directory
  restored : List Bytes
  skipped : List Bytes

/-- One member: skipped, refused or written. -/
def restoreMember (force : Bool) (r : Restore) (m : Member) : Except RestoreError Restore :=
  if !m.typeReg || (backupEntryRe m.name).isNone then .ok r
  else if !force && (r.keysDir.lookup m.name).isSome then
    .ok { r with skipped := r.skipped ++ [m.name] }
  else if 2 ^ 20 ≤ m.data.length then .error (.exceeds m.name)
  else .ok { r with
    keysDir := r.keysDir.insert m.name m.data, restored := r.restored ++ [m.name] }

/-- `backupRestore`: every member in order; none is an error. -/
def backupRestore (force : Bool) (bundle : List Member) (keysDir : Directory) :
    Except RestoreError Restore := do
  let r ← bundle.foldlM (restoreMember force) ⟨keysDir, [], []⟩
  if r.restored = [] ∧ r.skipped = [] then .error .noKeyFiles else .ok r

/-! ## The names of an alias's files -/

/-- What follows the alias in the names of its files. -/
inductive KeyEnding : Bytes → Prop where
  | owner : KeyEnding dotKey
  | claim : KeyEnding dotClaimJson
  | recovery {d : UInt8} {ds : Bytes} : isDigit d → d ≠ 0x30 → ds.all isDigit →
      KeyEnding (dotRec ++ d :: ds ++ dotKey)

variable {P : Primitives} {a name : Bytes} {readme : List Bytes → Bytes} {d : Directory}

/-- `name` is the name of a file of the alias. -/
def NameOf (P : Primitives) (a name : Bytes) : Prop :=
  validateAlias P a = .ok a ∧ ∃ e, KeyEnding e ∧ name = a ++ e

/-- What the validator asks of the alias without its first character. -/
def restSound (a : Bytes) : Bool :=
  a.tail != [] && a.tail.head? != some 0x2d && !isAllDigits a.tail

theorem stem_append {e : Bytes} (ha : a.all isLDH = true) (he : e.head? = some 0x2e) :
    stem (a ++ e) = a ∧ ending (a ++ e) = e := by
  have hdots : ∀ c ∈ a, (c != 0x2e) = true := by
    intro c hc
    have hldh := List.all_eq_true.mp ha c hc
    rw [bne_iff_ne]
    rintro rfl
    exact absurd hldh (by decide)
  obtain ⟨rest, rfl⟩ : ∃ rest, e = 0x2e :: rest := by
    cases e with
    | nil => cases he
    | cons c rest => exact ⟨rest, by rw [Option.some.inj he]⟩
  constructor
  · rw [stem, List.takeWhile_append_of_pos hdots]
    simp
  · rw [ending, List.dropWhile_append_of_pos hdots]
    simp

theorem dropRec_of_keyEnding {e : Bytes} (h : KeyEnding e) :
    e.head? = some 0x2e ∧ (dropRec e = dotKey ∨ dropRec e = dotClaimJson) := by
  cases h with
  | owner | claim => decide
  | @recovery d ds hd hne hds =>
    refine ⟨rfl, .inl ?_⟩
    have hdrop : (dotRec ++ d :: ds ++ dotKey).drop 4 = d :: (ds ++ dotKey) := rfl
    have hdigits : ∀ c ∈ d :: ds, isDigit c = true := by
      simpa [hd] using hds
    rw [dropRec, hdrop, if_pos (by simp [dotRec, List.isPrefixOf, hd, hne]),
      ← List.cons_append, List.dropWhile_append_of_pos hdigits]
    decide

theorem aliasGroup_isLDH {s group : Bytes} (h : aliasGroup s = some group) :
    s.all isLDH = true := by
  unfold aliasGroup at h
  split at h
  next => cases h
  next c rest =>
    split at h
    next hc =>
      simp only [isAlnum, Bool.and_eq_true, Bool.or_eq_true, List.isEmpty_iff] at hc
      rcases hc with ⟨⟨hc, -⟩, rfl | ⟨⟨-, hall⟩, -⟩⟩
      · simp [hc]
      · simp [hc, hall]
    next => cases h

theorem aliasGroup_of_checkLDH (h : checkLDH a .alias false = .ok ()) :
    aliasGroup a = some a.tail := by
  obtain ⟨hne, hlen, hall, hhead, hlast, -⟩ := checkLDH_eq_ok.mp h
  cases a with
  | nil => exact absurd rfl hne
  | cons c rest =>
    simp only [List.all_cons, Bool.and_eq_true] at hall
    have hc : isAlnum c = true := by
      simpa [isAlnum, hall.1] using hhead
    show (if _ then some rest else none) = some rest
    rw [if_pos]
    rcases List.eq_nil_or_concat' rest with rfl | ⟨init, z, rfl⟩
    · simp [hc]
    · -- the last byte of the rest is the last byte of the alias
      have hz : z ≠ 0x2d := by
        rintro rfl
        exact hlast (by rw [← List.cons_append, List.getLast?_concat])
      simp only [List.all_append, List.all_cons, List.all_nil, Bool.and_true,
        Bool.and_eq_true] at hall
      have hinit : init.length + 1 ≤ 62 := by
        simp only [List.length_cons, List.length_append, List.length_nil] at hlen
        omega
      have hlastAlnum : isAlnum z = true := by simp [isAlnum, hall.2.2, hz]
      simp [hc, hall.2.1, hall.2.2, hlastAlnum, hinit]

theorem backupEntryRe_of_nameOf (h : NameOf P a name) :
    backupEntryRe name = some a.tail := by
  obtain ⟨halias, e, he, rfl⟩ := h
  have hcheck := checkLDH_of_validateAlias halias
  obtain ⟨hdot, hend⟩ := dropRec_of_keyEnding he
  obtain ⟨hstem, hending⟩ := stem_append (checkLDH_isLDH hcheck) hdot
  rw [backupEntryRe, hstem, hending, if_pos hend]
  exact aliasGroup_of_checkLDH hcheck

theorem validAliasShape_iff {s : Bytes} (hs : s.all isLDH = true) :
    validAliasShape P s = true ↔ checkLDH s .alias false = .ok () := by
  rw [validAliasShape, validateAlias_of_isLDH hs]
  cases checkLDH s .alias false with
  | error e => simp [bind, Except.bind, Except.isOk, Except.toBool]
  | ok u => simp [bind, Except.bind, pure, Except.pure, Except.isOk, Except.toBool]

theorem bundled_of_nameOf (h : NameOf P a name) : bundled P name = restSound a := by
  rw [bundled, backupEntryRe_of_nameOf h]
  obtain ⟨hne, hlen, hall, -, hlast, -⟩ := checkLDH_eq_ok.mp (checkLDH_of_validateAlias h.1)
  cases a with
  | nil => exact absurd rfl hne
  | cons c rest =>
    simp only [List.all_cons, Bool.and_eq_true] at hall
    have hlast' : rest ≠ [] → rest.getLast? ≠ some 0x2d := by
      intro hrest
      rwa [List.getLast?_cons_of_ne_nil hrest] at hlast
    have hlen' : rest.length ≤ 63 := by
      simp only [List.length_cons] at hlen
      omega
    show validAliasShape P rest = restSound (c :: rest)
    rw [Bool.eq_iff_iff, validAliasShape_iff hall.2, checkLDH_eq_ok]
    simp only [restSound, List.tail_cons, Bool.and_eq_true, bne_iff_ne, Bool.not_eq_true']
    exact ⟨fun ⟨h1, _, _, h4, _, h6⟩ => ⟨⟨h1, h4⟩, h6⟩,
      fun ⟨⟨h1, h4⟩, h6⟩ => ⟨h1, hlen', hall.2, h4, hlast' h1, h6⟩⟩

theorem mem_aliases : a ∈ aliases P d ↔
    validateAlias P a = .ok a ∧ ∃ data, d.lookup (a ++ dotKey) = some data := by
  simp only [aliases, List.mem_insertionSort, List.mem_filter, List.mem_filterMap]
  constructor
  · rintro ⟨⟨⟨name, data⟩, hf, hre⟩, hshape⟩
    rw [keyFileRe] at hre
    split at hre
    next hmatch =>
      obtain ⟨hend, hgroup⟩ := hmatch
      obtain ⟨group, hgroup⟩ := Option.isSome_iff_exists.mp hgroup
      cases hre
      have hname : stem name ++ dotKey = name := by
        rw [← hend]
        exact List.takeWhile_append_dropWhile
      rw [validAliasShape_iff (aliasGroup_isLDH hgroup)] at hshape
      exact ⟨validateAlias_of_checkLDH hshape, data, by rw [hname]; exact Directory.mem_files.mp hf⟩
    next => cases hre
  · rintro ⟨halias, data, hdata⟩
    have hcheck := checkLDH_of_validateAlias halias
    have hldh := checkLDH_isLDH hcheck
    obtain ⟨hstem, hending⟩ := stem_append hldh (e := dotKey) rfl
    refine ⟨⟨_, Directory.mem_files.mpr hdata, ?_⟩, (validAliasShape_iff hldh).mpr hcheck⟩
    rw [keyFileRe, hstem, hending, aliasGroup_of_checkLDH hcheck]
    simp

/-! ## What a bundle holds and what comes back -/

/-- The files a backup takes. -/
def bundledFiles (P : Primitives) (d : Directory) : List (Bytes × Bytes) :=
  d.files.filter (fun f => bundled P f.1)

theorem mem_bundledFiles {data : Bytes} :
    (name, data) ∈ bundledFiles P d ↔ d.lookup name = some data ∧ bundled P name = true := by
  rw [bundledFiles, List.mem_filter, Directory.mem_files]

theorem mapM_writeFile {files : List (Bytes × Bytes)} {members : List Member} :
    files.mapM writeFile = .ok members ↔
      (∀ f ∈ files, f.1.length ≤ 100) ∧ members = files.map (fun f => ⟨f.1, true, f.2⟩) := by
  induction files generalizing members with
  | nil =>
    rw [List.mapM_nil, pure_eq_ok]
    simp [eq_comm]
  | cons f files ih =>
    simp only [List.mapM_cons, bind_eq_ok, pure_eq_ok, ih, writeFile, guard_eq_ok, not_lt,
      List.forall_mem_cons, List.map_cons, Except.ok.injEq]
    constructor
    · rintro ⟨_, ⟨hlen, rfl⟩, _, ⟨hrest, rfl⟩, rfl⟩
      exact ⟨⟨hlen, hrest⟩, rfl⟩
    · rintro ⟨⟨hlen, hrest⟩, rfl⟩
      exact ⟨_, ⟨hlen, rfl⟩, _, ⟨hrest, rfl⟩, rfl⟩

theorem buildBackup_eq_ok {bundle : List Member} :
    buildBackup P readme (some d) = .ok bundle ↔
      bundledFiles P d ≠ [] ∧ (∀ f ∈ bundledFiles P d, f.1.length ≤ 100) ∧
        bundle = (bundledFiles P d).map (fun f => ⟨f.1, true, f.2⟩) ++
          [⟨restoreTxt, true, readme ((bundledFiles P d).map Prod.fst)⟩] := by
  show (if bundledFiles P d = [] then _ else do
    let members ← (bundledFiles P d).mapM writeFile
    return members ++ [Member.mk restoreTxt true (readme ((bundledFiles P d).map Prod.fst))]) =
      _ ↔ _
  simp only [guard_eq_ok, bind_eq_ok, pure_eq_ok, mapM_writeFile]
  constructor
  · rintro ⟨hne, _, ⟨hlen, rfl⟩, rfl⟩
    exact ⟨hne, hlen, rfl⟩
  · rintro ⟨hne, hlen, rfl⟩
    exact ⟨hne, _, ⟨hlen, rfl⟩, rfl⟩

theorem foldlM_restoreMember {force : Bool} {files : List (Bytes × Bytes)} {r : Restore}
    (hfiles : ∀ f ∈ files, (backupEntryRe f.1).isSome = true ∧ f.2.length < 2 ^ 20)
    (hnodup : (files.map Prod.fst).Nodup) (hfree : ∀ f ∈ files, r.keysDir.lookup f.1 = none) :
    (files.map (fun f => (⟨f.1, true, f.2⟩ : Member))).foldlM (restoreMember force) r =
      .ok { r with
        keysDir := r.keysDir.writeAll files, restored := r.restored ++ files.map Prod.fst } := by
  induction files generalizing r with
  | nil =>
    show Except.ok r = _
    simp [Directory.writeAll]
  | cons f files ih =>
    obtain ⟨hnew, hrest⟩ := List.nodup_cons.mp hnodup
    obtain ⟨⟨hre, hlen⟩, hfiles⟩ := List.forall_mem_cons.mp hfiles
    obtain ⟨hnone, hfree⟩ := List.forall_mem_cons.mp hfree
    have hstep : restoreMember force r ⟨f.1, true, f.2⟩ = .ok { r with
        keysDir := r.keysDir.insert f.1 f.2, restored := r.restored ++ [f.1] } := by
      obtain ⟨group, hre⟩ := Option.isSome_iff_exists.mp hre
      simp only [restoreMember, hre, hnone, Nat.not_le.mpr hlen]
      simp
    rw [List.map_cons, List.foldlM_cons, hstep]
    show List.foldlM _ _ _ = _
    rw [ih hfiles hrest]
    · simp [Directory.writeAll]
    · intro g hg
      have hne : g.1 ≠ f.1 := fun h => hnew (h ▸ List.mem_map_of_mem hg)
      rw [AList.lookup_insert_ne hne]
      exact hfree g hg

theorem backupRestore_of_buildBackup {bundle : List Member} (force : Bool)
    (hbundle : buildBackup P readme (some d) = .ok bundle)
    (hsmall : ∀ name data, d.lookup name = some data → data.length < 2 ^ 20) :
    ∃ r, backupRestore force bundle ∅ = .ok r ∧ ∀ name data,
      r.keysDir.lookup name = some data ↔ d.lookup name = some data ∧ bundled P name = true := by
  obtain ⟨hne, -, rfl⟩ := buildBackup_eq_ok.mp hbundle
  have hnodup : ((bundledFiles P d).map Prod.fst).Nodup :=
    (List.filter_sublist.map _).nodup d.files_nodup
  have hfiles : ∀ f ∈ bundledFiles P d,
      (backupEntryRe f.1).isSome = true ∧ f.2.length < 2 ^ 20 := by
    rintro ⟨name, data⟩ hf
    obtain ⟨hdata, hb⟩ := mem_bundledFiles.mp hf
    refine ⟨?_, hsmall name data hdata⟩
    show (backupEntryRe name).isSome = true
    rw [bundled] at hb
    cases hre : backupEntryRe name with
    | none => rw [hre] at hb; cases hb
    | some group => rfl
  have hfold := @foldlM_restoreMember force _ ⟨∅, [], []⟩ hfiles hnodup
    (fun f _ => AList.lookup_empty f.1)
  refine ⟨⟨Directory.writeAll ∅ (bundledFiles P d), (bundledFiles P d).map Prod.fst, []⟩, ?_, ?_⟩
  · rw [backupRestore, List.foldlM_append, hfold]
    show (if (bundledFiles P d).map Prod.fst = [] ∧ ([] : List Bytes) = [] then _ else _) = _
    rw [if_neg (by simpa using hne)]
    rfl
  · intro name data
    rw [Directory.lookup_writeAll hnodup, mem_bundledFiles]
    simp

/-- **When a backup is complete**: each alias is sound without its first character and no
name is too long; aliases and files then come back when it is restored. -/
theorem backup_complete_iff (P : Primitives) (readme : List Bytes → Bytes) (d : Directory) :
    ((∀ a name data, NameOf P a name → d.lookup name = some data →
        ∃ bundle, buildBackup P readme (some d) = .ok bundle ∧ ⟨name, true, data⟩ ∈ bundle) ↔
      (∀ a name data, NameOf P a name → d.lookup name = some data →
        restSound a = true ∧ ∀ f ∈ bundledFiles P d, f.1.length ≤ 100)) ∧
    ∀ bundle force, buildBackup P readme (some d) = .ok bundle →
      (∀ name data, d.lookup name = some data → data.length < 2 ^ 20) →
      (∀ a name data, NameOf P a name → d.lookup name = some data →
        restSound a = true) →
      ∃ r, backupRestore force bundle ∅ = .ok r ∧
        (∀ a, a ∈ aliases P r.keysDir ↔ a ∈ aliases P d) ∧
        ∀ a name data, NameOf P a name →
          (r.keysDir.lookup name = some data ↔ d.lookup name = some data) := by
  refine ⟨⟨?_, ?_⟩, ?_⟩
  · intro hall a name data hname hdata
    obtain ⟨bundle, hbundle, hmem⟩ := hall a name data hname hdata
    obtain ⟨-, hlen, rfl⟩ := buildBackup_eq_ok.mp hbundle
    refine ⟨?_, hlen⟩
    rw [← bundled_of_nameOf hname]
    rcases List.mem_append.mp hmem with hmem | hmem
    · obtain ⟨f, hf, heq⟩ := List.mem_map.mp hmem
      cases heq
      exact (mem_bundledFiles.mp hf).2
    · -- RESTORE.txt is no file of an alias
      have hre := backupEntryRe_of_nameOf hname
      rw [show name = restoreTxt from congrArg Member.name (List.mem_singleton.mp hmem)] at hre
      exact absurd hre (by rw [show backupEntryRe restoreTxt = none by decide]; simp)
  · intro hall a name data hname hdata
    obtain ⟨hsound, hlen⟩ := hall a name data hname hdata
    have hmem : (name, data) ∈ bundledFiles P d :=
      mem_bundledFiles.mpr ⟨hdata, (bundled_of_nameOf hname).trans hsound⟩
    exact ⟨_, buildBackup_eq_ok.mpr ⟨List.ne_nil_of_mem hmem, hlen, rfl⟩,
      List.mem_append_left _ (List.mem_map.mpr ⟨_, hmem, rfl⟩)⟩
  · intro bundle force hbundle hsmall hsound
    obtain ⟨r, hr, hfiles⟩ := backupRestore_of_buildBackup force hbundle hsmall
    have hsame : ∀ a name data, NameOf P a name →
        (r.keysDir.lookup name = some data ↔ d.lookup name = some data) := by
      intro a name data hname
      rw [hfiles, and_iff_left_iff_imp]
      intro hdata
      rw [bundled_of_nameOf hname]
      exact hsound a name data hname hdata
    refine ⟨r, hr, ?_, hsame⟩
    intro a
    rw [mem_aliases, mem_aliases, and_congr_right_iff]
    intro halias
    exact exists_congr fun data => hsame a _ data ⟨halias, dotKey, .owner, rfl⟩

/-- A keychain with two keys. -/
def twoKeys : Directory :=
  Directory.writeAll ∅ [([0x61, 0x31] ++ dotKey, [1]), ([0x62, 0x6f, 0x62] ++ dotKey, [2])]

/-- The key of `a1` is not in the bundle, nor is the alias there afterwards. -/
theorem short_alias_lost :
    NameOf Toy.primitives [0x61, 0x31] ([0x61, 0x31] ++ dotKey) ∧
      twoKeys.lookup ([0x61, 0x31] ++ dotKey) = some [1] ∧
      aliases Toy.primitives twoKeys = [[0x61, 0x31], [0x62, 0x6f, 0x62]] ∧
      buildBackup Toy.primitives (fun _ => []) (some twoKeys) =
        .ok [⟨[0x62, 0x6f, 0x62] ++ dotKey, true, [2]⟩, ⟨restoreTxt, true, []⟩] :=
  ⟨⟨by decide +kernel, dotKey, .owner, rfl⟩, by decide +kernel, by decide +kernel,
    by decide +kernel⟩

end Freens.Keychain
