/-
**DEATHS AND INSTALLS IN FLIGHT** (`trustsync/trustsync.go`: `OnOwnerCA`,
`OnAliasDead`, `RemoveAlias`, `sweepSpool`).

`OnOwnerCA` decides under the lock, releases it, mints and installs, and takes the
lock again to record what it did, without looking at the state again. Run without
a break, the two halves are the sequential `onOwnerCA`.
-/
import Freens.TrustSync.Rotation

namespace Freens.TrustSync

open Library

/-! ## The trust stores -/

/-- The aliases with a cross-certificate in the spool, the system bundle and the
NSS databases. -/
structure Stores where
  spool : Finset Bytes
  system : Finset Bytes
  nss : Finset Bytes

/-- One of the three stores trusts the alias. -/
def Stores.Holds (m : Stores) (a : Bytes) : Prop := a ∈ m.spool ∨ a ∈ m.system ∨ a ∈ m.nss

instance (m : Stores) (a : Bytes) : Decidable (m.Holds a) :=
  inferInstanceAs (Decidable (_ ∨ _ ∨ _))

/-- The three installers, with what each of them achieved. -/
def Stores.install (m : Stores) (a : Bytes) (spoolOK systemOK nssOK : Bool) : Stores where
  spool := if spoolOK then insert a m.spool else m.spool
  system := if systemOK then insert a m.system else m.system
  nss := if nssOK then insert a m.nss else m.nss

/-- `uninstallSystem` and, where the option is on, `uninstallNSS`. -/
def Stores.uninstall (nssInstall : Bool) (m : Stores) (a : Bytes) : Stores :=
  { m with
    system := m.system.erase a
    nss := if nssInstall then m.nss.erase a else m.nss }

/-- `os.Remove` of the spool file. -/
def Stores.unspool (m : Stores) (a : Bytes) : Stores := { m with spool := m.spool.erase a }

/-- For one expired file: the file goes, and with a lapsed entry the rest of the alias. -/
def sweepFile (nssInstall : Bool) (e : Engine) (now : Int) (m : Stores) (a : Bytes) : Stores :=
  if (e.state.lookup a).any (CrossState.lapsed now) then (m.unspool a).uninstall nssInstall a
  else m.unspool a

/-- The aliases whose files have lapsed. -/
def expiredAliases (spool : Option (List SpoolFile)) (now : Int) : List Bytes :=
  ((spool.getD []).filter (SpoolFile.expired now)).map SpoolFile.aliasName

/-- The stores after a sweep. -/
def sweepStores (nssInstall : Bool) (e : Engine) (m : Stores) (spool : Option (List SpoolFile))
    (now : Int) : Stores :=
  (expiredAliases spool now).foldl (sweepFile nssInstall e now) m

/-! ## The machine -/

/-- A call between its two halves. -/
structure Flight where
  call : OwnerCACall
  ca : Certificate
  act : CAAction

/-- The engine, the stores and the calls in flight. -/
structure Race where
  engine : Engine
  stores : Stores
  inflight : List Flight

/-- What can happen next. -/
inductive Event where
  /-- The first half of `OnOwnerCA`: screen, sweep, decide, write under the lock. -/
  | start (c : OwnerCACall)
  /-- The second half of the `i`-th call in flight, with what the spool write and
  the NSS install achieved. -/
  | finish (i : Nat) (spoolOK nssOK : Bool)
  | dead (aliasName tldID : Bytes)
  | remove (aliasName : Bytes)
  | sweep (spool : Option (List SpoolFile)) (now : Int)

/-- `CrossCert` succeeds: the owner CA is not expired, and signing works. -/
def Flight.mints (f : Flight) : Bool := unixTime f.ca.notAfter > f.call.now && f.call.minted

/-- The second half of `OnOwnerCA` on the engine as it then is. -/
def carryOut (P : Primitives) (e : Engine) (f : Flight) : Engine :=
  settleCA P e f.call f.ca (none, f.act)

/-- The stores after the second half of an install. -/
def installStores (nssInstall : Bool) (m : Stores) (f : Flight) (spoolOK nssOK : Bool) : Stores :=
  if f.act = .install && f.mints then
    m.install f.call.aliasName spoolOK f.call.systemOK (nssInstall && nssOK)
  else m

section
variable (P : Primitives) (nssInstall : Bool)

/-- Work is left after the lock. -/
def CAAction.pends (act : CAAction) : Bool := act = .install || act = .quarantine

/-- The first half of `OnOwnerCA`. -/
def startCall (s : Race) (c : OwnerCACall) : Race :=
  match c.screened with
  | none => s
  | some ca =>
    let d := c.decision P s.engine ca
    { engine := (c.swept s.engine).1.write c.aliasName d.1
      stores := sweepStores nssInstall s.engine s.stores c.spool c.sweepNow
      inflight := if d.2.pends then s.inflight ++ [⟨c, ca, d.2⟩] else s.inflight }

/-- Everything of an alias goes: state, spool file, system bundle, NSS. -/
def bury (s : Race) (a : Bytes) : Race :=
  { s with
    engine := removeAlias s.engine a
    stores := (s.stores.unspool a).uninstall nssInstall a }

/-- A death signal for an identity the alias no longer has. -/
def staleDeath (tldID : Bytes) (st : CrossState) : Bool :=
  0 < tldID.length && tldB32 tldID ≠ st.tldIDB32

/-- The second half of the `i`-th call. -/
def finishCall (s : Race) (i : Nat) (spoolOK nssOK : Bool) : Race :=
  match s.inflight[i]? with
  | none => s
  | some f =>
    { engine := carryOut P s.engine f
      stores := installStores nssInstall s.stores f spoolOK nssOK
      inflight := s.inflight.eraseIdx i }

/-- `OnAliasDead`. -/
def killAlias (s : Race) (a tldID : Bytes) : Race :=
  match s.engine.state.lookup a with
  | none => s
  | some st => if staleDeath tldID st then s else bury nssInstall s a

/-- `RemoveAlias`; without an entry the call ends before the stores are touched. -/
def dropAlias (s : Race) (a : Bytes) : Race :=
  match s.engine.state.lookup a with
  | none => { s with engine := removeAlias s.engine a }
  | some _ => bury nssInstall s a

/-- A sweep on its own. -/
def sweepRace (s : Race) (spool : Option (List SpoolFile)) (now : Int) : Race :=
  { s with
    engine := (sweepSpool s.engine spool now).1
    stores := sweepStores nssInstall s.engine s.stores spool now }

/-- One event of an interleaving. -/
def raceStep (s : Race) : Event → Race
  | .start c => startCall P nssInstall s c
  | .finish i spoolOK nssOK => finishCall P nssInstall s i spoolOK nssOK
  | .dead a tldID => killAlias nssInstall s a tldID
  | .remove a => dropAlias nssInstall s a
  | .sweep spool now => sweepRace nssInstall s spool now

end

variable {P : Primitives} {nssInstall : Bool}

/-! ## Without interleaving: the sequential engine -/

variable {e : Engine} {a : Bytes} {m : Stores} {s : Race}
  {c : OwnerCACall} {f : Flight} {m' : Stores} {spoolOK nssOK : Bool}

theorem settleCA_eq_carryOut {ca : Certificate} {d : Option CrossState × CAAction} :
    settleCA P e c ca d = carryOut P (e.write c.aliasName d.1) ⟨c, ca, d.2⟩ := rfl

theorem carryOut_of_not_pends (h : f.act.pends = false) : carryOut P e f = e := by
  obtain ⟨c, ca, act⟩ := f
  cases act with
  | none | defer => rfl
  | install | quarantine => cases h

/-- **The two halves in a row are `OnOwnerCA`.** -/
theorem start_finish_eq_onOwnerCA (s : Race) (c : OwnerCACall) (spoolOK nssOK : Bool)
    (hidle : s.inflight = []) :
    ([Event.start c, .finish 0 spoolOK nssOK].foldl (raceStep P nssInstall) s).engine =
      onOwnerCA P s.engine c := by
  show (finishCall P nssInstall (startCall P nssInstall s c) 0 spoolOK nssOK).engine = _
  cases hca : c.screened with
  | none =>
    have hstart : startCall P nssInstall s c = s := by
      unfold startCall
      rw [hca]
    rw [hstart, onOwnerCA_of_unscreened hca, finishCall, hidle]
    rfl
  | some ca =>
    rw [onOwnerCA_of_screened hca, settleCA_eq_carryOut]
    unfold startCall
    rw [hca, hidle]
    cases hpends : (c.decision P s.engine ca).2.pends with
    | false =>
      rw [carryOut_of_not_pends hpends]
      simp only [hpends, finishCall]
      rfl
    | true =>
      simp only [hpends, finishCall]
      rfl

theorem killAlias_engine (s : Race) (a tldID : Bytes) :
    (killAlias nssInstall s a tldID).engine = onAliasDead s.engine a tldID := by
  unfold killAlias onAliasDead
  cases s.engine.state.lookup a with
  | none => rfl
  | some st =>
    dsimp only
    by_cases hstale : 0 < tldID.length ∧ tldB32 tldID ≠ st.tldIDB32
    · rw [if_pos hstale, if_pos (by simpa [staleDeath] using hstale)]
    · rw [if_neg hstale, if_neg (by simpa [staleDeath] using hstale)]
      rfl

/-! ## What the stores lose and gain -/

/-- Nothing is added to a store. -/
def Stores.Sub (m' m : Stores) : Prop := m'.spool ⊆ m.spool ∧ m'.system ⊆ m.system ∧ m'.nss ⊆ m.nss

theorem Stores.Sub.refl (m : Stores) : m.Sub m :=
  ⟨Finset.Subset.refl _, Finset.Subset.refl _, Finset.Subset.refl _⟩

theorem Stores.Sub.trans {m₁ m₂ m₃ : Stores} (h₁₂ : m₁.Sub m₂) (h₂₃ : m₂.Sub m₃) : m₁.Sub m₃ :=
  ⟨h₁₂.1.trans h₂₃.1, h₁₂.2.1.trans h₂₃.2.1, h₁₂.2.2.trans h₂₃.2.2⟩

theorem Stores.Sub.holds (h : m'.Sub m) (ha : m'.Holds a) : m.Holds a := by
  rcases ha with hspool | hsystem | hnss
  · exact .inl (h.1 hspool)
  · exact .inr (.inl (h.2.1 hsystem))
  · exact .inr (.inr (h.2.2 hnss))

theorem Stores.unspool_sub (m : Stores) (a : Bytes) : (m.unspool a).Sub m :=
  ⟨Finset.erase_subset _ _, Finset.Subset.refl _, Finset.Subset.refl _⟩

theorem Stores.uninstall_sub (m : Stores) (a : Bytes) : (m.uninstall nssInstall a).Sub m := by
  refine ⟨Finset.Subset.refl _, Finset.erase_subset _ _, ?_⟩
  unfold Stores.uninstall
  cases nssInstall with
  | false => exact Finset.Subset.refl _
  | true => exact Finset.erase_subset _ _

theorem Stores.cleared_sub (m : Stores) (a : Bytes) :
    ((m.unspool a).uninstall nssInstall a).Sub m :=
  (Stores.uninstall_sub _ a).trans (m.unspool_sub a)

/-- With the NSS option off nothing is in the NSS databases. -/
def Stores.NssBound (nssInstall : Bool) (m : Stores) : Prop := nssInstall = false → m.nss = ∅

theorem Stores.NssBound.sub (h : m.NssBound nssInstall) (hsub : m'.Sub m) :
    m'.NssBound nssInstall := by
  intro hoff
  have hnss := hsub.2.2
  rw [h hoff] at hnss
  exact Finset.subset_empty.mp hnss

theorem Stores.not_holds_cleared (h : m.NssBound nssInstall) (a : Bytes) :
    ¬ ((m.unspool a).uninstall nssInstall a).Holds a := by
  rintro (hspool | hsystem | hnss)
  · exact Finset.notMem_erase a m.spool hspool
  · exact Finset.notMem_erase a m.system hsystem
  · cases nssInstall with
    | true => exact Finset.notMem_erase a m.nss hnss
    | false =>
      have hempty : a ∈ m.nss := hnss
      rw [h rfl] at hempty
      exact Finset.notMem_empty a hempty

theorem sweepFile_sub (e : Engine) (now : Int) (m : Stores) (a : Bytes) :
    (sweepFile nssInstall e now m a).Sub m := by
  unfold sweepFile
  split
  · exact m.cleared_sub a
  · exact m.unspool_sub a

theorem foldl_sweepFile_sub (e : Engine) (now : Int) (aliases : List Bytes) :
    ∀ m : Stores, (aliases.foldl (sweepFile nssInstall e now) m).Sub m := by
  induction aliases with
  | nil => exact Stores.Sub.refl
  | cons a aliases ih =>
    intro m
    exact (ih _).trans (sweepFile_sub e now m a)

theorem not_holds_of_swept {e : Engine} {now : Int} {aliases : List Bytes} {a : Bytes}
    (hmem : a ∈ aliases) (hlapsed : (e.state.lookup a).any (CrossState.lapsed now) = true) :
    ∀ {m : Stores}, m.NssBound nssInstall →
      ¬ (aliases.foldl (sweepFile nssInstall e now) m).Holds a := by
  induction aliases with
  | nil => cases hmem
  | cons b aliases ih =>
    intro m hm
    rw [List.foldl_cons]
    rcases List.mem_cons.mp hmem with rfl | hrest
    · intro hholds
      have hnow := (foldl_sweepFile_sub e now aliases _).holds hholds
      unfold sweepFile at hnow
      rw [if_pos hlapsed] at hnow
      exact Stores.not_holds_cleared hm a hnow
    · exact ih hrest (hm.sub (sweepFile_sub e now m b))

theorem foldl_purgeIfExpired_lookup {now : Int} {aliases : List Bytes} {st : CrossState}
    (hkeep : a ∈ aliases → st.lapsed now = false) :
    ∀ {e : Engine}, e.state.lookup a = some st →
      (aliases.foldl (purgeIfExpired now) e).state.lookup a = some st := by
  induction aliases with
  | nil => exact fun h => h
  | cons b aliases ih =>
    intro e h
    rw [List.foldl_cons]
    refine ih (fun hmem => hkeep (List.mem_cons_of_mem b hmem)) ?_
    unfold purgeIfExpired
    cases hb : e.state.lookup b with
    | none => exact h
    | some st' =>
      dsimp only
      split
      next hlapsed =>
        by_cases hab : a = b
        · -- the listed alias itself: its entry has not lapsed
          subst hab
          rw [h, Option.some.injEq] at hb
          subst hb
          rw [hkeep List.mem_cons_self] at hlapsed
          cases hlapsed
        · exact (AList.lookup_erase_ne hab).trans h
      next => exact h

theorem sweepSpool_fst (e : Engine) (spool : Option (List SpoolFile)) (now : Int) :
    (sweepSpool e spool now).1 = (expiredAliases spool now).foldl (purgeIfExpired now) e := by
  cases spool <;> rfl

/-! ## Trust is backed by an entry -/

/-- Every alias some store trusts has a state entry. -/
structure Backed (nssInstall : Bool) (e : Engine) (m : Stores) : Prop where
  entry : ∀ a, m.Holds a → (e.state.lookup a).isSome
  nss : m.NssBound nssInstall

theorem Backed.swept (h : Backed nssInstall e m) (spool : Option (List SpoolFile)) (now : Int) :
    Backed nssInstall (sweepSpool e spool now).1 (sweepStores nssInstall e m spool now) := by
  have hsub := @foldl_sweepFile_sub nssInstall e now (expiredAliases spool now) m
  refine ⟨?_, h.nss.sub hsub⟩
  intro a ha
  obtain ⟨st, hst⟩ := Option.isSome_iff_exists.mp (h.entry a (hsub.holds ha))
  have hkeep : a ∈ expiredAliases spool now → st.lapsed now = false := by
    intro hmem
    by_contra hlapsed
    refine not_holds_of_swept hmem ?_ h.nss ha
    rw [hst, Option.any_some]
    simpa using hlapsed
  rw [sweepSpool_fst, foldl_purgeIfExpired_lookup hkeep hst]
  rfl

theorem Backed.write (h : Backed nssInstall e m) (a : Bytes)
    (written : Option CrossState) : Backed nssInstall (e.write a written) m := by
  refine ⟨?_, h.nss⟩
  intro b hb
  have hentry := h.entry b hb
  by_cases hab : b = a
  · subst hab
    rw [write_lookup_self]
    cases written with
    | none => exact hentry
    | some st => rfl
  · rwa [write_lookup_ne hab]

theorem Backed.bury (h : Backed nssInstall s.engine s.stores) (a : Bytes) :
    Backed nssInstall (bury nssInstall s a).engine (bury nssInstall s a).stores := by
  have hsub := @Stores.cleared_sub nssInstall s.stores a
  refine ⟨?_, h.nss.sub hsub⟩
  intro b hb
  have hab : b ≠ a := by
    rintro rfl
    exact Stores.not_holds_cleared h.nss b hb
  show ((s.engine.state.erase a).lookup b).isSome
  rw [AList.lookup_erase_ne hab]
  exact h.entry b (hsub.holds hb)

theorem carryOut_isSome
    (h : (e.state.lookup a).isSome ∨ (a = f.call.aliasName ∧ f.act = .install ∧ f.mints = true)) :
    ((carryOut P e f).state.lookup a).isSome := by
  by_cases ha : a = f.call.aliasName
  · subst ha
    unfold carryOut settleCA Engine.write
    cases hact : f.act with
    | none | defer =>
      exact h.resolve_right (fun hinstall => by rw [hact] at hinstall; cases hinstall.2.1)
    | quarantine =>
      dsimp only
      rw [AList.lookup_insert]
      rfl
    | install =>
      dsimp only
      split
      next hfails =>
        refine h.resolve_right ?_
        rintro ⟨_, _, hmints⟩
        simp only [Flight.mints, Bool.and_eq_true, decide_eq_true_eq] at hmints
        rcases hfails with hexpired | hunsigned
        · exact hexpired hmints.1
        · rw [hmints.2] at hunsigned
          cases hunsigned
      next =>
        rw [AList.lookup_insert]
        rfl
  · have hsame : (carryOut P e f).state.lookup a = e.state.lookup a := settleCA_lookup_ne ha
    rw [hsame]
    exact h.resolve_right (fun hinstall => ha hinstall.1)

theorem holds_install {b : Bytes} {systemOK : Bool} (hab : b ≠ a)
    (h : (m.install a spoolOK systemOK nssOK).Holds b) : m.Holds b := by
  have hinsert : ∀ (ok : Bool) (t : Finset Bytes), b ∈ (if ok then insert a t else t) → b ∈ t := by
    intro ok t ht
    cases ok with
    | false => exact ht
    | true => exact Finset.mem_of_mem_insert_of_ne ht hab
  rcases h with hspool | hsystem | hnss
  · exact .inl (hinsert _ _ hspool)
  · exact .inr (.inl (hinsert _ _ hsystem))
  · exact .inr (.inr (hinsert _ _ hnss))

theorem Backed.carryOut (h : Backed nssInstall e m) (f : Flight) (spoolOK nssOK : Bool) :
    Backed nssInstall (carryOut P e f) (installStores nssInstall m f spoolOK nssOK) := by
  unfold installStores
  split
  next hinstall =>
    simp only [Bool.and_eq_true, decide_eq_true_eq] at hinstall
    refine ⟨?_, ?_⟩
    · intro b hb
      by_cases hab : b = f.call.aliasName
      · exact carryOut_isSome (.inr ⟨hab, hinstall⟩)
      · exact carryOut_isSome (.inl (h.entry b (holds_install hab hb)))
    · intro hoff
      have hnss := h.nss hoff
      subst hoff
      exact hnss
  next => exact ⟨fun b hb => carryOut_isSome (.inl (h.entry b hb)), h.nss⟩

theorem Backed.step (s : Race) (ev : Event) (h : Backed nssInstall s.engine s.stores) :
    Backed nssInstall (raceStep P nssInstall s ev).engine (raceStep P nssInstall s ev).stores := by
  cases ev with
  | start c =>
    show Backed nssInstall (startCall P nssInstall s c).engine (startCall P nssInstall s c).stores
    unfold startCall
    cases c.screened with
    | none => exact h
    | some ca => exact (h.swept c.spool c.sweepNow).write _ _
  | finish i spoolOK nssOK =>
    show Backed nssInstall (finishCall P nssInstall s i spoolOK nssOK).engine
      (finishCall P nssInstall s i spoolOK nssOK).stores
    unfold finishCall
    cases s.inflight[i]? with
    | none => exact h
    | some f => exact h.carryOut f spoolOK nssOK
  | dead a tldID =>
    show Backed nssInstall (killAlias nssInstall s a tldID).engine
      (killAlias nssInstall s a tldID).stores
    unfold killAlias
    cases s.engine.state.lookup a with
    | none => exact h
    | some st =>
      dsimp only
      split
      · exact h
      · exact h.bury a
  | remove a =>
    show Backed nssInstall (dropAlias nssInstall s a).engine (dropAlias nssInstall s a).stores
    unfold dropAlias
    cases ha : s.engine.state.lookup a with
    | some st => exact h.bury a
    | none =>
      refine ⟨?_, h.nss⟩
      intro b hb
      have hentry := h.entry b hb
      have hab : b ≠ a := by
        rintro rfl
        rw [ha] at hentry
        cases hentry
      show ((s.engine.state.erase a).lookup b).isSome
      rwa [AList.lookup_erase_ne hab]
  | sweep spool now => exact h.swept spool now

/-! ## A death without a call in flight -/

/-- No call of `OnOwnerCA` for the alias is between its halves. -/
def Race.Idle (s : Race) (a : Bytes) : Prop := ∀ f ∈ s.inflight, f.call.aliasName ≠ a

/-- A death or a removal meets no call in flight for its alias. -/
def NoOverlap (s : Race) : Event → Prop
  | .dead a _ => s.Idle a
  | .remove a => s.Idle a
  | _ => True

/-- The event is a removal of the alias, or its death under the identity it has. -/
def Ends (a : Bytes) (s : Race) : Event → Prop
  | .dead b tldID => b = a ∧ ∀ st, s.engine.state.lookup a = some st → staleDeath tldID st = false
  | .remove b => b = a
  | _ => False

/-- Nothing is left of the alias, and nothing is under way for it. -/
structure Buried (a : Bytes) (s : Race) : Prop where
  entry : s.engine.state.lookup a = none
  stores : ¬ s.stores.Holds a
  idle : s.Idle a

theorem Buried.bury (h : Backed nssInstall s.engine s.stores)
    (hidle : s.Idle a) : Buried a (bury nssInstall s a) :=
  ⟨AList.lookup_erase a s.engine.state, Stores.not_holds_cleared h.nss a, hidle⟩

theorem buried_of_unknown (h : Backed nssInstall s.engine s.stores) (hidle : s.Idle a)
    (hnone : s.engine.state.lookup a = none) : Buried a s := by
  refine ⟨hnone, ?_, hidle⟩
  intro hholds
  have hentry := h.entry a hholds
  rw [hnone] at hentry
  cases hentry

theorem buried_of_ends {ev : Event} (h : Backed nssInstall s.engine s.stores)
    (hidle : NoOverlap s ev) (hends : Ends a s ev) : Buried a (raceStep P nssInstall s ev) := by
  cases ev with
  | start c | finish i spoolOK nssOK | sweep spool now => cases hends
  | dead b tldID =>
    obtain ⟨rfl, hfresh⟩ := hends
    show Buried b (killAlias nssInstall s b tldID)
    unfold killAlias
    cases hentry : s.engine.state.lookup b with
    | none => exact buried_of_unknown h hidle hentry
    | some st =>
      dsimp only
      rw [hfresh st hentry]
      exact Buried.bury h hidle
  | remove b =>
    obtain rfl : b = a := hends
    show Buried b (dropAlias nssInstall s b)
    unfold dropAlias
    cases hentry : s.engine.state.lookup b with
    | none =>
      have hburied := buried_of_unknown h hidle hentry
      exact ⟨AList.lookup_erase b s.engine.state, hburied.stores, hidle⟩
    | some st => exact Buried.bury h hidle

theorem lookup_none_of_sub {t' t : Table Bytes CrossState} (h : Table.Sub t' t)
    (hnone : t.lookup a = none) : t'.lookup a = none := by
  cases hsome : t'.lookup a with
  | none => rfl
  | some st =>
    rw [h a st hsome] at hnone
    cases hnone

theorem Buried.shrink {s' : Race} (h : Buried a s)
    (hstate : Table.Sub s'.engine.state s.engine.state) (hstores : s'.stores.Sub s.stores)
    (hinflight : s'.inflight = s.inflight) : Buried a s' := by
  refine ⟨lookup_none_of_sub hstate h.entry, fun hholds => h.stores (hstores.holds hholds), ?_⟩
  intro f hf
  rw [hinflight] at hf
  exact h.idle f hf

theorem Buried.start (h : Buried a s)
    (hother : c.aliasName ≠ a) : Buried a (startCall P nssInstall s c) := by
  unfold startCall
  cases c.screened with
  | none => exact h
  | some ca =>
    refine ⟨?_, ?_, ?_⟩
    · show (((c.swept s.engine).1).write c.aliasName _).state.lookup a = none
      rw [write_lookup_ne hother.symm]
      exact lookup_none_of_sub (sweepSpool_sub s.engine c.spool c.sweepNow) h.entry
    · intro hholds
      exact h.stores ((foldl_sweepFile_sub s.engine c.sweepNow _ s.stores).holds hholds)
    · intro f hf
      dsimp only at hf
      split at hf
      · rcases List.mem_append.mp hf with hold | hnew
        · exact h.idle f hold
        · rw [List.mem_singleton.mp hnew]
          exact hother
      · exact h.idle f hf

theorem Buried.finish {i : Nat} (h : Buried a s) :
    Buried a (finishCall P nssInstall s i spoolOK nssOK) := by
  unfold finishCall
  cases hi : s.inflight[i]? with
  | none => exact h
  | some f =>
    -- the call that ends is one for another alias
    have hother : a ≠ f.call.aliasName := (h.idle f (List.mem_of_getElem? hi)).symm
    refine ⟨(settleCA_lookup_ne hother).trans h.entry, ?_, ?_⟩
    · intro hholds
      refine h.stores ?_
      dsimp only [installStores] at hholds
      split at hholds
      · exact holds_install hother hholds
      · exact hholds
    · exact fun g hg => h.idle g (List.mem_of_mem_eraseIdx hg)

theorem Buried.step {s : Race} {a : Bytes} {ev : Event} (h : Buried a s)
    (hquiet : ∀ c, ev = .start c → c.aliasName ≠ a) : Buried a (raceStep P nssInstall s ev) := by
  have hburied : ∀ b, Buried a (TrustSync.bury nssInstall s b) := fun b =>
    h.shrink (Table.erase_sub s.engine.state b) (Stores.cleared_sub s.stores b) rfl
  cases ev with
  | start c => exact h.start (hquiet c rfl)
  | finish i spoolOK nssOK => exact h.finish
  | dead b tldID =>
    show Buried a (killAlias nssInstall s b tldID)
    unfold killAlias
    split
    · exact h
    split
    · exact h
    · exact hburied b
  | remove b =>
    show Buried a (dropAlias nssInstall s b)
    unfold dropAlias
    split
    · exact h.shrink (Table.erase_sub s.engine.state b) (Stores.Sub.refl _) rfl
    · exact hburied b
  | sweep spool now =>
    exact h.shrink (sweepSpool_sub s.engine spool now)
      (foldl_sweepFile_sub s.engine now _ s.stores) rfl

theorem Buried.run {a : Bytes} {after : List Event}
    (hquiet : ∀ ev ∈ after, ∀ c, ev = .start c → c.aliasName ≠ a) :
    ∀ {s : Race}, Buried a s → Buried a (after.foldl (raceStep P nssInstall) s) := by
  induction after with
  | nil => exact fun h => h
  | cons ev after ih =>
    intro s h
    rw [List.foldl_cons]
    exact ih (fun ev' hmem => hquiet ev' (List.mem_cons_of_mem ev hmem))
      (h.step (hquiet ev List.mem_cons_self))

/-- **Death is final without a call in flight**: a dead or removed alias has no entry and
nothing in a store, until a call is started for it again. -/
theorem dead_stays_dead (nssInstall : Bool) (start : Race) (a : Bytes) (before after : List Event)
    (death : Event) (hstart : Backed nssInstall start.engine start.stores)
    (hrun : EachStep (raceStep P nssInstall) NoOverlap start (before ++ death :: after))
    (hdeath : Ends a (before.foldl (raceStep P nssInstall) start) death)
    (hquiet : ∀ ev ∈ after, ∀ c, ev = .start c → c.aliasName ≠ a) :
    ((before ++ death :: after).foldl (raceStep P nssInstall) start).engine.state.lookup a = none ∧
    ¬ ((before ++ death :: after).foldl (raceStep P nssInstall) start).stores.Holds a := by
  obtain ⟨hbefore, hidle, _⟩ := EachStep.append_iff.mp hrun
  have hbacked := @EachStep.invariant _ _ _ _ (fun s => Backed nssInstall s.engine s.stores)
    (fun s ev h _ => h.step s ev) _ _ hstart hbefore
  rw [List.foldl_append, List.foldl_cons]
  have hburied := @Buried.run P nssInstall a after hquiet _
    (buried_of_ends (P := P) hbacked hidle hdeath)
  exact ⟨hburied.entry, hburied.stores⟩

/-! ## A death between the halves -/

namespace RaceSample

def idle : Race := ⟨Engine.new, ⟨∅, ∅, ∅⟩, []⟩

theorem idle_backed : Backed true idle.engine idle.stores :=
  ⟨fun a h => by simp [idle, Stores.Holds] at h, fun _ => rfl⟩

def installing : List Event := [.start (RotationSample.announce 1 10), .finish 0 true true]

end RaceSample

theorem dead_after_install :
    ((RaceSample.installing ++ [Event.dead [0x78] [1]]).foldl (raceStep Toy.primitives true)
      RaceSample.idle).engine.state.lookup [0x78] = none ∧
    ¬ ((RaceSample.installing ++ [Event.dead [0x78] [1]]).foldl (raceStep Toy.primitives true)
      RaceSample.idle).stores.Holds [0x78] := by
  refine dead_stays_dead true RaceSample.idle [0x78] RaceSample.installing [] (.dead [0x78] [1])
    RaceSample.idle_backed ⟨trivial, trivial, ?_, trivial⟩ ⟨rfl, ?_⟩ (fun ev hev => by cases hev)
  · intro f hf
    cases hf
  · intro st hst
    have hentry : (RaceSample.installing.foldl (raceStep Toy.primitives true)
        RaceSample.idle).engine.state.lookup [0x78] =
        some RotationSample.installed := by decide +kernel
    rw [hentry, Option.some.injEq] at hst
    rw [← hst]
    decide +kernel

/-- **A death undone.** It completes between the halves of an installing call, and the alias
is trusted again. -/
theorem death_undone :
    let interleaving : List Event := RaceSample.installing ++
      [.start (RotationSample.announce 1 20), .dead [0x78] [1], .finish 0 true true]
    let dying := (interleaving.take 3).foldl (raceStep Toy.primitives true) RaceSample.idle
    let final := interleaving.foldl (raceStep Toy.primitives true) RaceSample.idle
    dying.engine.state.lookup [0x78] ≠ none ∧
    (killAlias true dying [0x78] [1]).engine.state.lookup [0x78] = none ∧
    ¬ (killAlias true dying [0x78] [1]).stores.Holds [0x78] ∧
    final.inflight.length = 0 ∧
    final.engine.state.lookup [0x78] ≠ none ∧ final.stores.Holds [0x78] := by
  decide +kernel

end Freens.TrustSync
