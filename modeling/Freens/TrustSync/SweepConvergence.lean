/-
**DOES THE SWEEP CONVERGE?** (`trustsync/trustsync.go`: `sweepSpool`,
`purgeIfExpired`, `OnOwnerCA`).

An install puts its certificate into the stores even when the spool write failed,
and the sweep goes through the files of the spool directory only. The directory is
part of the machine (`Host`).
-/
import Freens.TrustSync.Races

namespace Freens.TrustSync

open Library

/-! ## The machine with its spool directory -/

/-- The engine, the stores, the calls, and the spool files' expiries by alias. -/
structure Host where
  race : Race
  files : Table Bytes (Option Int)

/-- What a sweep can read: the directory, and which files not. -/
structure View where
  dirOK : Bool
  unreadable : List Bytes

/-- The spool as a sweep lists it. -/
def Host.listing (h : Host) (view : View) : Option (List SpoolFile) :=
  if view.dirOK then
    some ((h.files.select (fun a _ => !view.unreadable.contains a)).map (fun x => ⟨x.1, x.2⟩))
  else none

/-- The files a sweep leaves. -/
def Host.sweptFiles (h : Host) (view : View) (now : Int) : Table Bytes (Option Int) :=
  h.files.reject (fun a _ => (expiredAliases (h.listing view) now).contains a)

/-- The events of a host. -/
inductive HostEvent where
  /-- The first half of `OnOwnerCA`, whose sweep has the view. -/
  | start (c : OwnerCACall) (view : View)
  | finish (i : Nat) (spoolOK nssOK : Bool)
  | dead (aliasName tldID : Bytes)
  | remove (aliasName : Bytes)
  | sweep (view : View) (now : Int)
  /-- Somebody else removes the spool file. -/
  | unspool (aliasName : Bytes)

section
variable (P : Primitives) (nssInstall : Bool)

/-- The files after the second half of an install. -/
def Host.spoolInstalled (h : Host) (i : Nat) (spoolOK : Bool) : Table Bytes (Option Int) :=
  match h.race.inflight[i]? with
  | none => h.files
  | some f =>
    if f.act = .install && f.mints && spoolOK then
      h.files.insert f.call.aliasName (some f.ca.notAfter)
    else h.files

/-- One event of the host. -/
def hostStep (h : Host) : HostEvent → Host
  | .start c view =>
    { race := startCall P nssInstall h.race { c with spool := h.listing view }
      files := if c.screened.isSome then h.sweptFiles view c.sweepNow else h.files }
  | .finish i spoolOK nssOK =>
    { race := finishCall P nssInstall h.race i spoolOK nssOK
      files := h.spoolInstalled i spoolOK }
  | .dead a tldID =>
    { race := killAlias nssInstall h.race a tldID
      files := if (h.race.engine.state.lookup a).any (fun st => !staleDeath tldID st) then
          h.files.erase a
        else h.files }
  | .remove a =>
    { race := dropAlias nssInstall h.race a
      files := if (h.race.engine.state.lookup a).isSome then h.files.erase a else h.files }
  | .sweep view now =>
    { race := sweepRace nssInstall h.race (h.listing view) now, files := h.sweptFiles view now }
  | .unspool a =>
    { race := { h.race with stores := h.race.stores.unspool a }, files := h.files.erase a }

end

/-- Nothing installed. -/
def Host.new : Host := ⟨⟨Engine.new, ⟨∅, ∅, ∅⟩, []⟩, ∅⟩

/-- **The trust stores have converged** at `now`, from one machine to the next. -/
structure Converged (now : Int) (h h' : Host) : Prop where
  /-- No lapsed alias is left in the state. -/
  state : ∀ a st, h'.race.engine.state.lookup a = some st → st.lapsed now = false
  /-- The aliases that had lapsed are in neither the system nor the browser
  store. -/
  stores : ∀ a st, h.race.engine.state.lookup a = some st → st.lapsed now = true →
    a ∉ h'.race.stores.system ∧ a ∉ h'.race.stores.nss

/-- Every lapsed alias has an expired file the sweep can read. -/
def Covered (now : Int) (view : View) (h : Host) : Prop :=
  ∀ a st, h.race.engine.state.lookup a = some st → st.lapsed now = true →
    a ∈ expiredAliases (h.listing view) now

variable {P : Primitives} {nssInstall : Bool}

/-! ## One sweep -/

variable {st : CrossState} {now : Int} {a : Bytes} {h : Host}

theorem lookup_foldl_purgeIfExpired {aliases : List Bytes} {e : Engine}
    (h : (aliases.foldl (purgeIfExpired now) e).state.lookup a = some st) :
    e.state.lookup a = some st ∧ (a ∈ aliases → st.lapsed now = false) := by
  induction aliases generalizing e with
  | nil => exact ⟨h, fun hmem => absurd hmem List.not_mem_nil⟩
  | cons b aliases ih =>
    obtain ⟨hbefore, hrest⟩ := ih h
    have hsame : e.state.lookup a = some st := purgeIfExpired_sub now e b a st hbefore
    refine ⟨hsame, ?_⟩
    intro hmem
    rcases List.mem_cons.mp hmem with rfl | hmem
    · -- had it lapsed, this very step would have purged it
      cases hlapsed : st.lapsed now with
      | false => rfl
      | true =>
        simp only [purgeIfExpired, hsame, hlapsed, if_true, AList.lookup_erase] at hbefore
        cases hbefore
    · exact hrest hmem

theorem lookup_sweepSpool {e : Engine} {spool : Option (List SpoolFile)}
    (h : (sweepSpool e spool now).1.state.lookup a = some st) :
    e.state.lookup a = some st ∧ (a ∈ expiredAliases spool now → st.lapsed now = false) := by
  rw [sweepSpool_fst] at h
  exact lookup_foldl_purgeIfExpired h

theorem converged_iff {h : Host} (hnss : h.race.stores.NssBound nssInstall) (view : View)
    (now : Int) :
    Converged now h (hostStep P nssInstall h (.sweep view now)) ↔ Covered now view h := by
  constructor
  · intro hconv a st hst hlapsed
    by_contra hunseen
    -- what the sweep does not list survives it
    have hkept : (sweepSpool h.race.engine (h.listing view) now).1.state.lookup a = some st := by
      rw [sweepSpool_fst]
      exact foldl_purgeIfExpired_lookup (fun hmem => absurd hmem hunseen) hst
    rw [hconv.state a st hkept] at hlapsed
    cases hlapsed
  · intro hcovered
    constructor
    · intro a st hst
      obtain ⟨hbefore, hlisted⟩ := lookup_sweepSpool hst
      cases hlapsed : st.lapsed now with
      | false => rfl
      | true =>
        rw [hlisted (hcovered a st hbefore hlapsed)] at hlapsed
        cases hlapsed
    · intro a st hst hlapsed
      have hany : (h.race.engine.state.lookup a).any (CrossState.lapsed now) = true := by
        rw [hst]
        exact hlapsed
      have hgone := @not_holds_of_swept nssInstall h.race.engine now _ a
        (hcovered a st hst hlapsed) hany h.race.stores hnss
      exact ⟨fun hsystem => hgone (.inr (.inl hsystem)),
        fun hnss => hgone (.inr (.inr hnss))⟩

theorem backed_host (run : List HostEvent) :
    Backed nssInstall (run.foldl (hostStep P nssInstall) Host.new).race.engine
      (run.foldl (hostStep P nssInstall) Host.new).race.stores := by
  have hnew : Backed nssInstall Host.new.race.engine Host.new.race.stores :=
    ⟨fun a ha => by simp [Host.new, Stores.Holds] at ha, fun _ => rfl⟩
  have hstep : ∀ (h : Host) (ev : HostEvent), Backed nssInstall h.race.engine h.race.stores →
      Backed nssInstall (hostStep P nssInstall h ev).race.engine
        (hostStep P nssInstall h ev).race.stores := by
    intro h ev hbacked
    cases ev with
    | start c view =>
      exact Backed.step h.race (.start { c with spool := h.listing view }) hbacked
    | finish i spoolOK nssOK => exact Backed.step h.race (.finish i spoolOK nssOK) hbacked
    | dead a tldID => exact @Backed.step P nssInstall h.race (.dead a tldID) hbacked
    | remove a => exact @Backed.step P nssInstall h.race (.remove a) hbacked
    | sweep view now => exact @Backed.step P nssInstall h.race (.sweep (h.listing view) now) hbacked
    | unspool a =>
      have hsub := h.race.stores.unspool_sub a
      exact ⟨fun b hb => hbacked.entry b (hsub.holds hb), hbacked.nss.sub hsub⟩
  have hall : EachStep (hostStep P nssInstall) (fun _ _ => True) Host.new run :=
    EachStep.of_forall_mem (fun _ _ _ => trivial)
  exact @EachStep.invariant _ _ _ _ (fun h => Backed nssInstall h.race.engine h.race.stores)
    (fun h ev hbacked _ => hstep h ev hbacked) _ _ hnew hall

/-! ## State and spool in step -/

/-- **In step**: the file of an installed alias holds the certificate the entry
records. -/
def Spooled (h : Host) : Prop :=
  ∀ a st, h.race.engine.state.lookup a = some st → st.notAfter ≠ 0 →
    h.files.lookup a = some (some st.notAfter)

/-- The spool write of the event works, and nobody else removes a file. -/
def Healthy (_ : Host) : HostEvent → Prop
  | .finish _ spoolOK _ => spoolOK = true
  | .unspool _ => False
  | _ => True

variable {view : View} {caHash tld : Bytes} {young : Bool}

theorem mem_expiredAliases :
    a ∈ expiredAliases (h.listing view) now ↔
      view.dirOK = true ∧ a ∉ view.unreadable ∧
        ∃ f, h.files.lookup a = some f ∧ SpoolFile.expired now ⟨a, f⟩ = true := by
  unfold expiredAliases Host.listing
  cases view.dirOK with
  | false => simp
  | true =>
    simp only [if_true, Option.getD_some, List.mem_map, List.mem_filter, true_and]
    constructor
    · rintro ⟨file, ⟨⟨⟨b, f⟩, hmem, rfl⟩, hexpired⟩, rfl⟩
      obtain ⟨hf, hreadable⟩ := Table.mem_select.mp hmem
      exact ⟨by simpa using hreadable, f, hf, hexpired⟩
    · rintro ⟨hreadable, f, hf, hexpired⟩
      exact ⟨⟨a, f⟩, ⟨⟨(a, f), Table.mem_select.mpr ⟨hf, by simpa using hreadable⟩, rfl⟩,
        hexpired⟩, rfl⟩

theorem Spooled.lapsed_iff (hs : Spooled h) (hst : h.race.engine.state.lookup a = some st)
    (hne : st.notAfter ≠ 0) (view : View) :
    a ∈ expiredAliases (h.listing view) now ↔
      view.dirOK = true ∧ a ∉ view.unreadable ∧ st.lapsed now = true := by
  have hfile := hs a st hst hne
  have hexpired : SpoolFile.expired now ⟨a, some st.notAfter⟩ = st.lapsed now := by
    simp [SpoolFile.expired, CrossState.lapsed, hne]
  rw [mem_expiredAliases, hfile]
  simp only [Option.some.injEq, exists_eq_left', hexpired]

theorem lookup_sweptFiles {f : Option Int} :
    (h.sweptFiles view now).lookup a = some f ↔
      h.files.lookup a = some f ∧ a ∉ expiredAliases (h.listing view) now := by
  unfold Host.sweptFiles
  rw [Table.lookup_reject]
  simp

theorem Spooled.swept (hs : Spooled h) (view : View) (now : Int)
    (hst : (sweepSpool h.race.engine (h.listing view) now).1.state.lookup a = some st)
    (hne : st.notAfter ≠ 0) : (h.sweptFiles view now).lookup a = some (some st.notAfter) := by
  obtain ⟨hbefore, hlisted⟩ := lookup_sweepSpool hst
  refine lookup_sweptFiles.mpr ⟨hs a st hbefore hne, ?_⟩
  intro hmem
  have hlapsed := ((hs.lapsed_iff hbefore hne view).mp hmem).2.2
  rw [hlisted hmem] at hlapsed
  cases hlapsed

theorem GateDecision.notAfter {o : CrossState × CAAction}
    (h : GateDecision now young tld caHash st o) :
    o.1.notAfter = st.notAfter ∨ o.1.notAfter = 0 := by
  cases h with
  | requarantine => exact .inr rfl
  | release | remint | observe | rotate | wait => exact .inl rfl

theorem decideCA_notAfter {present : Bool} {entry : Option CrossState}
    (h : (decideCA now present young tld caHash entry).1 = some st) :
    ∃ st₀, entry = some st₀ ∧ (st.notAfter = st₀.notAfter ∨ st.notAfter = 0) := by
  cases entry with
  | none => cases h
  | some st₀ =>
    refine ⟨st₀, rfl, ?_⟩
    by_cases htld : st₀.tldIDB32 = tld
    · by_cases hsame : st₀.caIdentity = [] ∨ st₀.caIdentity = caHash
      · rw [decideCA_of_same htld hsame] at h
        split at h
        · cases h
          exact .inl rfl
        · cases h
          exact .inl rfl
      · rw [decideCA_of_other htld hsame] at h
        cases h
        exact decideOtherCA_gate.notAfter
    · rw [decideCA_of_tld_ne htld] at h
      cases h
      exact .inl rfl

theorem Spooled.start (hs : Spooled h) (c : OwnerCACall) (view : View) :
    Spooled (hostStep P nssInstall h (.start c view)) := by
  intro a st hst hne
  show (if c.screened.isSome then h.sweptFiles view c.sweepNow else h.files).lookup a = _
  have hst : (startCall P nssInstall h.race { c with spool := h.listing view }).engine.state.lookup
      a = some st := hst
  unfold startCall at hst
  have hscreened : ({ c with spool := h.listing view } : OwnerCACall).screened = c.screened := rfl
  rw [hscreened] at hst
  cases hca : c.screened with
  | none =>
    rw [hca] at hst
    exact hs a st hst hne
  | some ca =>
    rw [hca] at hst
    dsimp only at hst
    show (h.sweptFiles view c.sweepNow).lookup a = some (some st.notAfter)
    by_cases ha : a = c.aliasName
    · subst ha
      rw [write_lookup_self] at hst
      cases hd : (OwnerCACall.decision P h.race.engine { c with spool := h.listing view } ca).1 with
      | none =>
        rw [hd, Option.none_or] at hst
        exact hs.swept view c.sweepNow hst hne
      | some st' =>
        rw [hd, Option.some_or, Option.some.injEq] at hst
        subst hst
        obtain ⟨st₀, hentry, hexpiry⟩ := decideCA_notAfter hd
        have hexpiry := hexpiry.resolve_right hne
        rw [hexpiry]
        exact hs.swept view c.sweepNow hentry (by rwa [← hexpiry])
    · rw [write_lookup_ne ha] at hst
      exact hs.swept view c.sweepNow hst hne

theorem Spooled.finish (hs : Spooled h) (i : Nat) (nssOK : Bool) :
    Spooled (hostStep P nssInstall h (.finish i true nssOK)) := by
  intro a st hst hne
  show (h.spoolInstalled i true).lookup a = some (some st.notAfter)
  have hst : (finishCall P nssInstall h.race i true nssOK).engine.state.lookup a = some st := hst
  unfold finishCall at hst
  unfold Host.spoolInstalled
  cases hf : h.race.inflight[i]? with
  | none =>
    rw [hf] at hst
    exact hs a st hst hne
  | some f =>
    rw [hf] at hst
    have hst : (carryOut P h.race.engine f).state.lookup a = some st := hst
    dsimp only
    by_cases ha : a = f.call.aliasName
    · subst ha
      unfold carryOut settleCA at hst
      cases hact : f.act with
      | none =>
        rw [hact] at hst
        exact hs _ st hst hne
      | defer =>
        rw [hact] at hst
        exact hs _ st hst hne
      | quarantine =>
        simp only [hact, AList.lookup_insert, Option.some.injEq] at hst
        rw [← hst] at hne
        exact absurd rfl hne
      | install =>
        simp only [hact] at hst
        split at hst
        next hfails =>
          have hmints : f.mints = false := by
            rcases hfails with hexpired | hunsigned
            · simp [Flight.mints, hexpired]
            · simp [Flight.mints, hunsigned]
          rw [hmints]
          exact hs _ st hst hne
        next hmade =>
          have hmints : f.mints = true := by
            simp only [not_or, not_not, Bool.not_eq_false] at hmade
            simp [Flight.mints, hmade.1, hmade.2]
          rw [AList.lookup_insert, Option.some.injEq] at hst
          rw [hmints, ← hst]
          exact AList.lookup_insert _
    · have hbefore : h.race.engine.state.lookup a = some st := by
        rw [← hst]
        exact (settleCA_lookup_ne ha).symm
      split
      · rw [AList.lookup_insert_ne ha]
        exact hs a st hbefore hne
      · exact hs a st hbefore hne

theorem Spooled.erase (hs : Spooled h) {b : Bytes}
    (hst : (h.race.engine.state.erase b).lookup a = some st) (hne : st.notAfter ≠ 0) :
    a ≠ b ∧ h.files.lookup a = some (some st.notAfter) := by
  have hab : a ≠ b := by
    rintro rfl
    rw [AList.lookup_erase] at hst
    cases hst
  rw [AList.lookup_erase_ne hab] at hst
  exact ⟨hab, hs a st hst hne⟩

theorem Spooled.step (h : Host) (ev : HostEvent) (hs : Spooled h) (hok : Healthy h ev) :
    Spooled (hostStep P nssInstall h ev) := by
  cases ev with
  | start c view => exact hs.start c view
  | finish i spoolOK nssOK =>
    have hwritten : spoolOK = true := hok
    subst hwritten
    exact hs.finish i nssOK
  | dead b tldID =>
    intro a st hst hne
    have hst : (killAlias nssInstall h.race b tldID).engine.state.lookup a = some st := hst
    show (if (h.race.engine.state.lookup b).any (fun st => !staleDeath tldID st) then
      h.files.erase b else h.files).lookup a = _
    unfold killAlias at hst
    cases hb : h.race.engine.state.lookup b with
    | none =>
      rw [hb] at hst
      exact hs a st hst hne
    | some st' =>
      rw [hb] at hst
      dsimp only at hst
      cases hstale : staleDeath tldID st' with
      | true =>
        rw [hstale] at hst
        simp only [Option.any_some, hstale]
        exact hs a st hst hne
      | false =>
        rw [hstale] at hst
        simp only [Option.any_some, hstale]
        obtain ⟨hab, hfile⟩ := hs.erase hst hne
        exact (AList.lookup_erase_ne hab).trans hfile
  | remove b =>
    intro a st hst hne
    have hst : (dropAlias nssInstall h.race b).engine.state.lookup a = some st := hst
    show (if (h.race.engine.state.lookup b).isSome then h.files.erase b else h.files).lookup a = _
    unfold dropAlias at hst
    cases hb : h.race.engine.state.lookup b with
    | none =>
      rw [hb] at hst
      exact (hs.erase hst hne).2
    | some st' =>
      rw [hb] at hst
      obtain ⟨hab, hfile⟩ := hs.erase hst hne
      exact (AList.lookup_erase_ne hab).trans hfile
  | sweep view now =>
    intro a st hst hne
    exact hs.swept view now hst hne
  | unspool b => exact hok.elim

/-- **The trust sweep** converges exactly when it sees an expired file of every lapsed
alias, as every readable sweep does where spool writes work and nobody else removes files. -/
theorem sweep_converges_iff (P : Primitives) (nssInstall : Bool) (run : List HostEvent)
    (view : View) (now : Int) :
    (Converged now (run.foldl (hostStep P nssInstall) Host.new)
        (hostStep P nssInstall (run.foldl (hostStep P nssInstall) Host.new) (.sweep view now)) ↔
      Covered now view (run.foldl (hostStep P nssInstall) Host.new)) ∧
    (EachStep (hostStep P nssInstall) Healthy Host.new run → view.dirOK = true →
      view.unreadable = [] →
      Converged now (run.foldl (hostStep P nssInstall) Host.new)
        (hostStep P nssInstall (run.foldl (hostStep P nssInstall) Host.new)
          (.sweep view now))) := by
  have hiff := @converged_iff P nssInstall (run.foldl (hostStep P nssInstall) Host.new)
    (backed_host run).nss view now
  refine ⟨hiff, ?_⟩
  intro hhealthy hdir hread
  have hnew : Spooled Host.new := by
    intro a st hst
    cases hst
  have hs := hhealthy.invariant Spooled.step hnew
  refine hiff.mpr ?_
  intro a st hst hlapsed
  have hne : st.notAfter ≠ 0 := by
    simp only [CrossState.lapsed, decide_eq_true_eq] at hlapsed
    exact hlapsed.1
  refine (hs.lapsed_iff hst hne view).mpr ⟨hdir, ?_, hlapsed⟩
  rw [hread]
  exact List.not_mem_nil

/-! ## A lapsed alias no sweep sees -/

namespace SweepSample

def clearView : View := ⟨true, []⟩

/-- An announcement the system store takes. -/
def announced : OwnerCACall := { RotationSample.announce 1 10 with systemOK := true }

/-- Installed, but the spool write fails. -/
def unspooled : Host :=
  [.start announced clearView, .finish 0 false true].foldl (hostStep Toy.primitives true) Host.new

/-- Installed, then the file removed by hand. -/
def removed : Host :=
  [.start announced clearView, .finish 0 true true, .unspool [0x78]].foldl
    (hostStep Toy.primitives true) Host.new

/-- A sweep after the certificate lapsed. -/
def sweptLate (h : Host) : Host :=
  hostStep Toy.primitives true h (.sweep clearView (unixTime 100001))

/-- The engine still holds the lapsed entry. -/
def LapsedEntry (h : Host) : Prop :=
  (h.race.engine.state.lookup [0x78]).map (CrossState.lapsed (unixTime 100001)) = some true

instance (h : Host) : Decidable (LapsedEntry h) := inferInstanceAs (Decidable (_ = _))

theorem not_converged {h' : Host} (hleft : LapsedEntry h') :
    ¬ Converged (unixTime 100001) h h' := by
  intro hconv
  obtain ⟨st, hst, hlapsed⟩ := Option.map_eq_some_iff.mp hleft
  rw [hconv.state _ st hst] at hlapsed
  cases hlapsed

end SweepSample

section
open SweepSample

/-- **Trust that outlives its certificate**, after a failed spool write or a removed file. -/
theorem lapsed_alias_survives_sweep :
    (LapsedEntry (sweptLate unspooled) ∧ [0x78] ∈ (sweptLate unspooled).race.stores.system ∧
      [0x78] ∈ (sweptLate unspooled).race.stores.nss ∧
      ¬ Converged (unixTime 100001) unspooled (sweptLate unspooled)) ∧
    (LapsedEntry (sweptLate removed) ∧ [0x78] ∈ (sweptLate removed).race.stores.system ∧
      [0x78] ∈ (sweptLate removed).race.stores.nss ∧
      ¬ Converged (unixTime 100001) removed (sweptLate removed)) := by
  have hunspooled : LapsedEntry (sweptLate unspooled) := by decide +kernel
  have hremoved : LapsedEntry (sweptLate removed) := by decide +kernel
  exact ⟨⟨hunspooled, by decide +kernel, by decide +kernel, not_converged hunspooled⟩,
    hremoved, by decide +kernel, by decide +kernel, not_converged hremoved⟩

end

end Freens.TrustSync
