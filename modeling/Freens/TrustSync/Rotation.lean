/-
**THE ROTATION OBSERVATION GATE.** A CA change under a live installed CA is carried
out only when the new CA has been seen for the grace without another one in
between. The invariant ties the pending record to the notification history
(`Observed`).
-/
import Freens.TrustSync.Quarantine

namespace Freens.TrustSync

open Library

variable {P : Primitives}

/-! ## What a decision does to the pending record -/

variable {st st' : CrossState} {caHash tld : Bytes} {young present : Bool} {now : Int}
  {c : OwnerCACall} {ca : Certificate} {e : Engine} {past : List OwnerCACall}
  {o : CrossState × CAAction}

theorem GateDecision.pending {p : PendingCA} (h : GateDecision now young tld caHash st o)
    (hp : o.1.pending = some p) (htrusted : o.1.trusted) (hlive : unix now < o.1.notAfter) :
    p = ⟨caHash, unix now⟩ ∨ (o.1 = st ∧ p.caSha256 = caHash) := by
  cases h with
  | requarantine => exact absurd htrusted (quarantineEntry_not_trusted _ _)
  | release hq => exact absurd hq htrusted
  -- an expired CA: nothing is observed
  | remint _ hexpired => exact absurd hlive hexpired
  | observe => exact .inl (Option.some.inj hp).symm
  | rotate => cases hp
  | wait _ p₀ hp₀ hca =>
    rw [hp₀, Option.some.injEq] at hp
    exact .inr ⟨rfl, hp ▸ hca⟩

theorem GateDecision.install (h : GateDecision now young tld caHash st o) (htrusted : st.trusted)
    (hlive : unix now < st.notAfter) (hact : o.2 = .install) :
    ∃ p, st.pending = some p ∧ p.caSha256 = caHash ∧
      rotationGrace ≤ wrap64 (unix now - p.since) := by
  cases h with
  | release hq => exact absurd hq htrusted
  | remint _ hexpired => exact absurd hlive hexpired
  | rotate _ p hp hca hgrace => exact ⟨p, hp, hca, hgrace⟩
  | requarantine | observe | wait => cases hact

theorem GateDecision.identity (h : GateDecision now young tld caHash st o) (htrusted : st.trusted) :
    o.1.caIdentity = st.caIdentity := by
  cases h with
  | requarantine hq => exact absurd hq htrusted
  | release | remint | observe | rotate | wait => rfl

/-! ## What a notification does to the entry -/

/-- The entry is recorded under the tld_id, with a CA identity. -/
structure CrossState.Known (tld : Bytes) (st : CrossState) : Prop where
  tld : st.tldIDB32 = tld
  identified : st.caIdentity ≠ []

/-- The call notifies this CA: it passes the screen with it. -/
def OwnerCACall.Carries (P : Primitives) (caHash : Bytes) (c : OwnerCACall) : Prop :=
  ∃ ca, c.screened = some ca ∧ caIdentity P ca = caHash

/-- The decision of a notification on the entry it finds. -/
def OwnerCACall.decision (P : Primitives) (e : Engine) (c : OwnerCACall) (ca : Certificate) :
    Option CrossState × CAAction :=
  decideCA c.now ((c.swept e).2.any (fun a => a = c.aliasName)) c.claimYoung (tldB32 c.tldID)
    (caIdentity P ca) ((c.swept e).1.state.lookup c.aliasName)

theorem onOwnerCA_of_screened (h : c.screened = some ca) :
    onOwnerCA P e c = settleCA P (c.swept e).1 c ca (c.decision P e ca) := by
  unfold onOwnerCA
  rw [h]
  rfl

theorem onOwnerCA_of_unscreened (h : c.screened = none) : onOwnerCA P e c = e := by
  unfold onOwnerCA
  rw [h]

theorem GateDecision.ne_quarantine (h : GateDecision now young tld caHash st o) :
    o.2 ≠ .quarantine := by
  cases h <;> exact fun h => by cases h

theorem decideCA_some_ne_quarantine :
    (decideCA now present young tld caHash (some st)).2 ≠ .quarantine := by
  by_cases htld : st.tldIDB32 = tld
  · by_cases hsame : st.caIdentity = [] ∨ st.caIdentity = caHash
    · rw [decideCA_of_same htld hsame]
      split
      · exact fun h => by cases h
      · unfold decideSameCA
        split_ifs <;> exact fun h => by cases h
    · rw [decideCA_of_other htld hsame]
      exact decideOtherCA_gate.ne_quarantine
  · rw [decideCA_of_tld_ne htld]
    exact fun h => by cases h

theorem onOwnerCA_entry (hca : c.screened = some ca)
    (hentry : (c.swept e).1.state.lookup c.aliasName = some st) :
    ∃ written st', (c.decision P e ca).1 = some written ∧
      (onOwnerCA P e c).state.lookup c.aliasName = some st' ∧
      (st' = written ∨ ((c.decision P e ca).2 = .install ∧
        st' = installEntry (tldB32 c.tldID) (caIdentity P ca) ca c.now c.systemOK)) := by
  obtain ⟨written, hwritten⟩ : ∃ written, (c.decision P e ca).1 = some written := by
    unfold OwnerCACall.decision
    rw [hentry]
    simp only [decideCA]
    split_ifs <;> exact ⟨_, rfl⟩
  have hact : (c.decision P e ca).2 ≠ .quarantine := by
    unfold OwnerCACall.decision
    rw [hentry]
    exact decideCA_some_ne_quarantine
  rw [onOwnerCA_of_screened hca]
  obtain ⟨st', hst'⟩ : ∃ st', (settleCA P (c.swept e).1 c ca (c.decision P e ca)).state.lookup
      c.aliasName = some st' := by
    unfold settleCA
    rw [hwritten]
    dsimp only [Engine.write]
    split
    · exact ⟨_, AList.lookup_insert _⟩
    · exact ⟨_, AList.lookup_insert _⟩
    · exact ⟨_, AList.lookup_insert _⟩
    · split <;> exact ⟨_, AList.lookup_insert _⟩
  refine ⟨written, st', hwritten, hst', ?_⟩
  rcases settleCA_lookup_self hst' with hor | ⟨hquarantine, _⟩ | hinstall
  · rw [hwritten, Option.some_or, Option.some.injEq] at hor
    exact .inl hor.symm
  · exact absurd hquarantine hact
  · exact .inr hinstall

/-- What a notification of `caHash` at `now` may do to a known entry. -/
structure Notified (tld caHash : Bytes) (now : Int) (st st' : CrossState) : Prop where
  known : st'.Known tld
  /-- A pending record is the one just made, or an old one of the same CA. -/
  pending : ∀ p, st'.pending = some p → st'.trusted → unix now < st'.notAfter →
    p = ⟨caHash, unix now⟩ ∨ (st' = st ∧ p.caSha256 = caHash)
  /-- A valid installed CA gives way only to one that was pending for the grace. -/
  identity : st.trusted → unix now < st.notAfter → st'.caIdentity ≠ st.caIdentity →
    st'.caIdentity = caHash ∧ ∃ p, st.pending = some p ∧ p.caSha256 = caHash ∧
      rotationGrace ≤ wrap64 (unix now - p.since)

theorem Notified.of_settled (hknown : st'.Known tld) (hpending : st'.pending = none)
    (hid : st'.caIdentity = st.caIdentity) : Notified tld caHash now st st' := by
  refine ⟨hknown, ?_, ?_⟩
  · intro p hp
    rw [hpending] at hp
    cases hp
  · intro _ _ hne
    exact absurd hid hne

variable {written : CrossState} {systemOK : Bool} {since : Int} {aliasName : Bytes}

theorem notified_same (hknown : st.Known tld) (hsame : st.caIdentity = caIdentity P ca)
    (hwritten : (decideCA now present young tld (caIdentity P ca) (some st)).1 = some written)
    (h : st' = written ∨ st' = installEntry tld (caIdentity P ca) ca now systemOK) :
    Notified tld (caIdentity P ca) now st st' := by
  rcases h with rfl | rfl
  · rw [decideCA_of_same hknown.tld (.inr hsame), ← hsame] at hwritten
    split at hwritten
    next =>
      have hst' := Option.some.inj hwritten
      subst hst'
      exact Notified.of_settled ⟨hknown.tld, hknown.identified⟩ rfl rfl
    next hpending =>
      have hst' := Option.some.inj hwritten
      subst hst'
      exact Notified.of_settled ⟨hknown.tld, hknown.identified⟩
        (Option.not_isSome_iff_eq_none.mp hpending) rfl
  · exact Notified.of_settled ⟨rfl, caIdentity_ne_nil ca⟩ rfl hsame.symm

theorem GateDecision.known (h : GateDecision now young tld caHash st o) (hknown : st.Known tld)
    (hca : caHash ≠ []) : o.1.Known tld := by
  cases h with
  | requarantine => exact ⟨rfl, hca⟩
  | release | remint | wait => exact hknown
  | observe | rotate => exact ⟨hknown.tld, hknown.identified⟩

theorem notified_other (hknown : st.Known tld) (hother : st.caIdentity ≠ caIdentity P ca)
    (hwritten : (decideCA now present young tld (caIdentity P ca) (some st)).1 = some written)
    (h : st' = written ∨
      ((decideCA now present young tld (caIdentity P ca) (some st)).2 = .install ∧
        st' = installEntry tld (caIdentity P ca) ca now systemOK)) :
    Notified tld (caIdentity P ca) now st st' := by
  have hne : ¬ (st.caIdentity = [] ∨ st.caIdentity = caIdentity P ca) := by
    rintro (hnil | heq)
    · exact hknown.identified hnil
    · exact hother heq
  rw [decideCA_of_other hknown.tld hne] at hwritten h
  rw [Option.some.injEq] at hwritten
  rcases h with rfl | ⟨hact, rfl⟩
  · subst hwritten
    refine ⟨decideOtherCA_gate.known hknown (caIdentity_ne_nil ca), ?_, ?_⟩
    · intro p hp htrusted hlive
      exact decideOtherCA_gate.pending hp htrusted hlive
    · intro htrusted _ hchange
      exact absurd (decideOtherCA_gate.identity htrusted) hchange
  · refine ⟨⟨rfl, caIdentity_ne_nil ca⟩, ?_, ?_⟩
    · intro p hp
      cases hp
    · intro htrusted hlive _
      exact ⟨rfl, decideOtherCA_gate.install htrusted hlive hact⟩

theorem onOwnerCA_notified (hca : c.screened = some ca)
    (hentry : (c.swept e).1.state.lookup c.aliasName = some st)
    (hknown : st.Known (tldB32 c.tldID)) :
    ∃ st', (onOwnerCA P e c).state.lookup c.aliasName = some st' ∧
      Notified (tldB32 c.tldID) (caIdentity P ca) c.now st st' := by
  obtain ⟨written, st', hwritten, hst', hcases⟩ := onOwnerCA_entry (P := P) hca hentry
  unfold OwnerCACall.decision at hwritten hcases
  rw [hentry] at hwritten hcases
  refine ⟨st', hst', ?_⟩
  by_cases hsame : st.caIdentity = caIdentity P ca
  · exact notified_same hknown hsame hwritten (hcases.imp_right And.right)
  · exact notified_other hknown hsame hwritten hcases

/-! ## The history of notifications -/

/-- The engine and the time of its last call. -/
structure ClockedEngine where
  engine : Engine
  clock : Int

/-- One announcement. -/
def notify (P : Primitives) (s : ClockedEngine) (c : OwnerCACall) : ClockedEngine :=
  ⟨onOwnerCA P s.engine c, c.now⟩

/-- A notification for the alias under the tld_id, in clock order, whose sweep does not find
it expired. -/
structure Notifies (aliasName tld : Bytes) (s : ClockedEngine) (c : OwnerCACall) : Prop where
  sameAlias : c.aliasName = aliasName
  sameTld : tldB32 c.tldID = tld
  inOrder : s.clock ≤ c.now
  low : -(2 ^ 63) ≤ unix c.now
  high : unix c.now < 2 ^ 63
  unexpired : (c.swept s.engine).1.state.lookup aliasName = s.engine.state.lookup aliasName

/-- Every one of the notifications that passed the screen carried this CA. -/
def OnlyCarry (P : Primitives) (caHash : Bytes) (calls : List OwnerCACall) : Prop :=
  ∀ c ∈ calls, c.screened.isSome → c.Carries P caHash

theorem OnlyCarry.snoc {calls : List OwnerCACall} (h : OnlyCarry P caHash calls)
    (hc : c.screened.isSome → c.Carries P caHash) : OnlyCarry P caHash (calls ++ [c]) := by
  intro d hd
  rcases List.mem_append.mp hd with hold | hnew
  · exact h d hold
  · rw [List.mem_singleton.mp hnew]
    exact hc

/-- **The CA was observed since `since`**: a notification carried it then, and all later
screened ones did. A record pending at the start stands for one. -/
def ObservedSince (P : Primitives) (start : CrossState) (past : List OwnerCACall) (caHash : Bytes)
    (since : Int) : Prop :=
  (∃ before c₀ after, past = before ++ c₀ :: after ∧ c₀.Carries P caHash ∧ unix c₀.now = since ∧
    OnlyCarry P caHash after) ∨
  (start.pending = some ⟨caHash, since⟩ ∧ OnlyCarry P caHash past)

theorem ObservedSince.snoc {start : CrossState} (h : ObservedSince P start past caHash since)
    (hc : c.screened.isSome → c.Carries P caHash) :
    ObservedSince P start (past ++ [c]) caHash since := by
  rcases h with ⟨before, c₀, after, hpast, hcarries, htime, honly⟩ | ⟨hstart, honly⟩
  · left
    refine ⟨before, c₀, after ++ [c], ?_, hcarries, htime, honly.snoc hc⟩
    rw [hpast, List.append_assoc, List.cons_append]
  · exact .inr ⟨hstart, honly.snoc hc⟩

/-- The entry is known, and its pending authority was seen since then. -/
structure Gated (P : Primitives) (aliasName tld : Bytes) (start : CrossState)
    (past : List OwnerCACall) (s : ClockedEngine) (st : CrossState) : Prop where
  entry : s.engine.state.lookup aliasName = some st
  known : st.Known tld
  observed : ∀ p, st.pending = some p → st.trusted → unix s.clock < st.notAfter →
    (-(2 ^ 63) ≤ p.since ∧ p.since ≤ unix s.clock) ∧
      ObservedSince P start past p.caSha256 p.since

theorem unix_mono {a b : Int} (h : a ≤ b) : unix a ≤ unix b := Int.ediv_le_ediv (by decide) h

variable {s : ClockedEngine}

section
variable {start : CrossState} (h : Gated P aliasName tld start past s st)
  (hok : Notifies aliasName tld s c)
include h hok

theorem Gated.screened (hca : c.screened = some ca) :
    ∃ st', Gated P aliasName tld start (past ++ [c]) (notify P s c) st' ∧
      Notified tld (caIdentity P ca) c.now st st' := by
  have halias := hok.sameAlias
  subst halias
  have htld := hok.sameTld
  subst htld
  obtain ⟨st', hst', hn⟩ := onOwnerCA_notified (P := P) hca (hok.unexpired.trans h.entry) h.known
  refine ⟨st', ⟨hst', hn.known, ?_⟩, hn⟩
  intro p hp htrusted hlive
  have hcarries : c.Carries P (caIdentity P ca) := ⟨ca, hca, rfl⟩
  have hmono := unix_mono hok.inOrder
  rcases hn.pending p hp htrusted hlive with rfl | ⟨rfl, hpca⟩
  · -- the record was made by this notification
    exact ⟨⟨hok.low, le_rfl⟩, .inl ⟨past, c, [], rfl, hcarries, rfl, fun d hd => by cases hd⟩⟩
  · have hlive' : unix c.now < st'.notAfter := hlive
    obtain ⟨⟨hlow, hle⟩, hobs⟩ := h.observed p hp htrusted (lt_of_le_of_lt hmono hlive')
    exact ⟨⟨hlow, le_trans hle hmono⟩, hobs.snoc (fun _ => hpca ▸ hcarries)⟩

theorem Gated.notify :
    ∃ st', Gated P aliasName tld start (past ++ [c]) (notify P s c) st' := by
  cases hca : c.screened with
  | some ca =>
    obtain ⟨st', hst', _⟩ := h.screened hok hca
    exact ⟨st', hst'⟩
  | none =>
    -- the engine is untouched, only time passes
    refine ⟨st, ⟨?_, h.known, ?_⟩⟩
    · show (onOwnerCA P s.engine c).state.lookup aliasName = some st
      rw [onOwnerCA_of_unscreened hca]
      exact h.entry
    · intro p hp htrusted hlive
      have hmono := unix_mono hok.inOrder
      have hlive' : unix c.now < st.notAfter := hlive
      obtain ⟨⟨hlow, hle⟩, hobs⟩ := h.observed p hp htrusted (lt_of_le_of_lt hmono hlive')
      refine ⟨⟨hlow, le_trans hle hmono⟩, hobs.snoc ?_⟩
      intro hscreened
      rw [hca] at hscreened
      cases hscreened

end

theorem Gated.run {aliasName tld : Bytes} {start : ClockedEngine} {st₀ : CrossState}
    {run : List OwnerCACall} (h : Gated P aliasName tld st₀ [] start st₀)
    (hrun : EachStep (TrustSync.notify P) (Notifies aliasName tld) start run) :
    ∃ st, Gated P aliasName tld st₀ run (run.foldl (TrustSync.notify P) start) st := by
  refine @EachStep.history _ _ _ _ (fun past s => ∃ st, Gated P aliasName tld st₀ past s st) ?_ _ []
    _ ⟨st₀, h⟩ hrun
  rintro past s c ⟨st, hst⟩ hok
  exact hst.notify hok

theorem grace_elapsed (hlow : -(2 ^ 63) ≤ since) (hle : since ≤ now) (hhigh : now < 2 ^ 63)
    (h : rotationGrace ≤ wrap64 (now - since)) : since ≤ now - 3600 := by
  have h' : (3600 : Int) ≤ wrap64 (now - since) := h
  by_cases hfits : now - since < 2 ^ 63
  · rw [wrap64_of_range (by omega) hfits] at h'
    omega
  · -- a larger difference wraps to a negative one
    rw [wrap64_of_ge (by omega) (by omega)] at h'
    omega

/-- **The rotation gate.** A notification at `t` that changes a valid installed CA carries
the new one, as did one at `t₀ ≤ t - 3600` and every screened one between; a record pending
at the start stands for that first one. -/
theorem rotation_observed (aliasName tld : Bytes) (start : ClockedEngine) (st₀ : CrossState)
    (run : List OwnerCACall) (c : OwnerCACall) (st st' : CrossState)
    (hstart : start.engine.state.lookup aliasName = some st₀) (htld : st₀.tldIDB32 = tld)
    (hidentified : st₀.caIdentity ≠ [])
    (hpending : ∀ p, st₀.pending = some p → -(2 ^ 63) ≤ p.since ∧ p.since ≤ unix start.clock)
    (hrun : EachStep (notify P) (Notifies aliasName tld) start (run ++ [c]))
    (hbefore : (run.foldl (notify P) start).engine.state.lookup aliasName = some st)
    (hafter : ((run ++ [c]).foldl (notify P) start).engine.state.lookup aliasName = some st')
    (hinstalled : st.trusted) (hvalid : unix c.now < st.notAfter)
    (hchange : st'.caIdentity ≠ st.caIdentity) :
    c.Carries P st'.caIdentity ∧
    ∃ t₀ ≤ unix c.now - 3600, ObservedSince P st₀ run st'.caIdentity t₀ := by
  obtain ⟨hrest, hok, _⟩ := EachStep.append_iff.mp hrun
  have hgated : Gated P aliasName tld st₀ [] start st₀ := by
    refine ⟨hstart, ⟨htld, hidentified⟩, ?_⟩
    intro p hp _ _
    exact ⟨hpending p hp, .inr ⟨hp, fun d hd => by cases hd⟩⟩
  obtain ⟨st₁, hst₁⟩ := hgated.run hrest
  have heq : st₁ = st := Option.some.inj (hst₁.entry.symm.trans hbefore)
  subst heq
  rw [List.foldl_append, List.foldl_cons, List.foldl_nil] at hafter
  cases hca : c.screened with
  | none =>
    have hunchanged : some st' = some st₁ := by
      rw [← hafter, ← hbefore]
      show (onOwnerCA P (run.foldl (notify P) start).engine c).state.lookup aliasName = _
      rw [onOwnerCA_of_unscreened hca]
    exact absurd (congrArg CrossState.caIdentity (Option.some.inj hunchanged)) hchange
  | some ca =>
    obtain ⟨st₂, hst₂, hn⟩ := hst₁.screened hok hca
    have heq : st₂ = st' := Option.some.inj (hst₂.entry.symm.trans hafter)
    subst heq
    obtain ⟨hid, p, hp, hpca, hgrace⟩ := hn.identity hinstalled hvalid hchange
    obtain ⟨⟨hlow, hle⟩, hobs⟩ :=
      hst₁.observed p hp hinstalled (lt_of_le_of_lt (unix_mono hok.inOrder) hvalid)
    have hsince := grace_elapsed hlow (le_trans hle (unix_mono hok.inOrder)) hok.high hgrace
    rw [hid]
    exact ⟨⟨ca, hca, rfl⟩, p.since, hsince, hpca ▸ hobs⟩

/-! ## A rotation observed for an hour -/

namespace RotationSample

def authority (n : UInt8) : Certificate := { Sample.authority n with notAfter := 100000 }

def announce (n : UInt8) (now : Int) : OwnerCACall :=
  { Sample.announce 1 false now with ca := some (authority n) }

def installed : CrossState :=
  installEntry (tldB32 [1]) (caIdentity Toy.primitives (authority 1)) (authority 1) (unixTime 10)
    false

def start : ClockedEngine := ⟨⟨(∅ : Table Bytes CrossState).insert [0x78] installed, ∅⟩, unixTime 10⟩

def rotating : CrossState :=
  { installed with
    pending := some ⟨caIdentity Toy.primitives (authority 2), 100⟩, status := some .rotating }

def rotated : CrossState :=
  installEntry (tldB32 [1]) (caIdentity Toy.primitives (authority 2)) (authority 2) (unixTime 3700)
    false

theorem notifies {n : UInt8} (hclock : s.clock ≤ unixTime now) (hlow : -(2 ^ 63) ≤ now)
    (hhigh : now < 2 ^ 63) : Notifies [0x78] (tldB32 [1]) s (announce n now) := by
  have hunix : unix (announce n now).now = now := Int.mul_ediv_cancel now (by decide)
  exact ⟨rfl, rfl, hclock, by rw [hunix]; exact hlow, by rw [hunix]; exact hhigh, rfl⟩

end RotationSample

theorem rotation_observed_hour :
    (RotationSample.announce 2 3700).Carries Toy.primitives RotationSample.rotated.caIdentity ∧
    ∃ t₀ ≤ unix (RotationSample.announce 2 3700).now - 3600,
      ObservedSince Toy.primitives RotationSample.installed
        [RotationSample.announce 2 100, RotationSample.announce 2 2000]
        RotationSample.rotated.caIdentity t₀ :=
  rotation_observed [0x78] (tldB32 [1]) RotationSample.start RotationSample.installed
    [RotationSample.announce 2 100, RotationSample.announce 2 2000]
    (RotationSample.announce 2 3700) RotationSample.rotating RotationSample.rotated
    (by decide +kernel) rfl (by decide +kernel) (fun p hp => by cases hp)
    ⟨RotationSample.notifies (by decide) (by decide) (by decide),
      RotationSample.notifies (by decide) (by decide) (by decide),
      RotationSample.notifies (by decide) (by decide) (by decide), trivial⟩
    (by decide +kernel) (by decide +kernel) (by decide +kernel) (by decide +kernel)
    (by decide +kernel)

end Freens.TrustSync
