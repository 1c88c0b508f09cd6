/-
**THE YOUNG-CLAIM QUARANTINE.** A claim inside its contest window gets DNS answers
but no trust. The decision looks at the contest flag in most branches only: a young
claim under another tld_id, or over an expired installed CA, is installed at once.
-/
import Freens.Library.Run
import Freens.Toy
import Freens.TrustSync.Engine

namespace Freens.TrustSync

open Library

section
variable {P : Primitives}

theorem purgeIfExpired_sub (now : Int) (e : Engine) (a : Bytes) :
    Table.Sub (purgeIfExpired now e a).state e.state := by
  unfold purgeIfExpired
  cases e.state.lookup a with
  | none => exact Table.Sub.refl e.state
  | some st =>
    show Table.Sub (if st.lapsed now then _ else e : Engine).state e.state
    split
    · exact Table.erase_sub e.state a
    · exact Table.Sub.refl e.state

theorem sweepSpool_sub (e : Engine) (spool : Option (List SpoolFile)) (now : Int) :
    Table.Sub (sweepSpool e spool now).1.state e.state := by
  have hfold : ∀ (aliases : List Bytes) (e' : Engine), Table.Sub e'.state e.state →
      Table.Sub (aliases.foldl (purgeIfExpired now) e').state e.state := by
    intro aliases
    induction aliases with
    | nil => exact fun e' h => h
    | cons a aliases ih =>
      exact fun e' h => ih _ ((purgeIfExpired_sub now e' a).trans h)
  cases spool with
  | none => exact Table.Sub.refl e.state
  | some files => exact hfold _ e (Table.Sub.refl e.state)

/-! ## The decision -/

/-- An entry as the engine writes it: known identity, and a rotation pending only if installed. -/
structure CrossState.WellFormed (st : CrossState) : Prop where
  identified : st.caIdentity ≠ []
  pending_trusted : st.pending.isSome → st.trusted

/-- Left of `st₀` without new trust: the same tld_id and CA. -/
structure CrossState.Kept (st₀ st : CrossState) : Prop where
  wellFormed : st.WellFormed
  tld : st.tldIDB32 = st₀.tldIDB32
  trust : st.trusted → st₀.trusted ∧ st.caIdentity = st₀.caIdentity

variable {st : CrossState} {caHash tld a : Bytes} {young present : Bool} {now : Int} {e : Engine}
  {c : OwnerCACall}

theorem CrossState.WellFormed.kept (h : st.WellFormed) : st.Kept st :=
  ⟨h, rfl, fun ht => ⟨ht, rfl⟩⟩

variable {b : Bytes} {written : Option CrossState} {d : Option CrossState × CAAction}
  {ca : Certificate}

theorem hexEncode_ne_nil (h : b ≠ []) : hexEncode b ≠ [] := by
  obtain ⟨x, rest, rfl⟩ := List.exists_cons_of_ne_nil h
  simp [hexEncode]

theorem caIdentity_ne_nil (ca : Certificate) : caIdentity P ca ≠ [] := by
  refine hexEncode_ne_nil ?_
  intro hnil
  have hlen := P.sha256_length ca.subjectPublicKeyInfo
  rw [hnil] at hlen
  exact absurd hlen (by decide)

theorem quarantineEntry_wellFormed (h : caHash ≠ []) : (quarantineEntry tld caHash).WellFormed :=
  ⟨h, fun hp => absurd hp (by simp [quarantineEntry])⟩

theorem quarantineEntry_not_trusted (tld caHash : Bytes) : ¬ (quarantineEntry tld caHash).trusted :=
  fun h => h rfl

/-- What the rotation gate decides on another CA, each with what it found. -/
inductive GateDecision (now : Int) (young : Bool) (tld caHash : Bytes) (st : CrossState) :
    CrossState × CAAction → Prop
  | requarantine (hq : statusOf st = .quarantined) (hyoung : young = true) :
      GateDecision now young tld caHash st (quarantineEntry tld caHash, .none)
  | release (hq : statusOf st = .quarantined) (hyoung : young = false) :
      GateDecision now young tld caHash st (st, .install)
  | remint (hq : st.trusted) (hexpired : ¬ unix now < st.notAfter) :
      GateDecision now young tld caHash st (st, .install)
  | observe (hq : st.trusted) (hlive : unix now < st.notAfter) :
      GateDecision now young tld caHash st
        ({ st with pending := some ⟨caHash, unix now⟩, status := some .rotating }, .defer)
  | rotate (hq : st.trusted) (p : PendingCA) (hp : st.pending = some p)
      (hca : p.caSha256 = caHash) (hgrace : rotationGrace ≤ wrap64 (unix now - p.since)) :
      GateDecision now young tld caHash st
        ({ st with pending := none, status := some .installed }, .install)
  | wait (hq : st.trusted) (p : PendingCA) (hp : st.pending = some p)
      (hca : p.caSha256 = caHash) : GateDecision now young tld caHash st (st, .none)

theorem decideOtherCA_gate :
    GateDecision now young tld caHash st (decideOtherCA now young tld caHash st) := by
  unfold decideOtherCA
  split_ifs with hq hyoung hlive
  · exact .requarantine hq hyoung
  · exact .release hq (by simpa using hyoung)
  · split
    · exact .observe hq hlive
    next p hp =>
      split_ifs with hca hgrace
      · exact .observe hq hlive
      · exact .rotate hq p hp (not_not.mp hca) hgrace
      · exact .wait hq p hp (not_not.mp hca)
  · exact .remint hq hlive

variable {o : CrossState × CAAction}

theorem GateDecision.kept (h : GateDecision now young st.tldIDB32 caHash st o)
    (hst : st.WellFormed) (hca : caHash ≠ []) : st.Kept o.1 := by
  cases h with
  | requarantine =>
    exact ⟨quarantineEntry_wellFormed hca, rfl,
      fun ht => absurd ht (quarantineEntry_not_trusted _ _)⟩
  | release | remint | wait => exact hst.kept
  | observe hq => exact ⟨⟨hst.identified, fun _ hq => by cases hq⟩, rfl, fun _ => ⟨hq, rfl⟩⟩
  | rotate hq => exact ⟨⟨hst.identified, fun hp => by cases hp⟩, rfl, fun _ => ⟨hq, rfl⟩⟩

/-! The three cases of a known alias. -/

theorem decideCA_of_tld_ne (h : st.tldIDB32 ≠ tld) :
    decideCA now present young tld caHash (some st) = (some st, .install) := by
  simp only [decideCA]
  rw [if_pos h]

theorem decideCA_of_same (htld : st.tldIDB32 = tld)
    (hsame : st.caIdentity = [] ∨ st.caIdentity = caHash) :
    decideCA now present young tld caHash (some st) =
      if st.pending.isSome then
        (some { st with caIdentity := caHash, pending := none, status := some .installed }, .none)
      else (some { st with caIdentity := caHash },
        decideSameCA now present young { st with caIdentity := caHash }) := by
  simp only [decideCA]
  rw [if_neg (not_not.mpr htld), if_pos hsame]

theorem decideCA_of_other (htld : st.tldIDB32 = tld)
    (hother : ¬ (st.caIdentity = [] ∨ st.caIdentity = caHash)) :
    decideCA now present young tld caHash (some st) =
      (some (decideOtherCA now young tld caHash st).1, (decideOtherCA now young tld caHash st).2) := by
  simp only [decideCA]
  rw [if_neg (not_not.mpr htld), if_neg hother]

theorem decideCA_kept (hst : st.WellFormed) (hca : caHash ≠ []) :
    ∃ st', (decideCA now present young tld caHash (some st)).1 = some st' ∧ st.Kept st' := by
  by_cases htld : st.tldIDB32 = tld
  · by_cases hsame : st.caIdentity = [] ∨ st.caIdentity = caHash
    · have hid : st.caIdentity = caHash := hsame.resolve_left hst.identified
      rw [decideCA_of_same htld hsame, ← hid]
      by_cases hp : st.pending.isSome
      · rw [if_pos hp]
        refine ⟨_, rfl, ?_⟩
        exact ⟨⟨hst.identified, fun h => absurd h (by simp)⟩, rfl,
          fun _ => ⟨hst.pending_trusted hp, rfl⟩⟩
      · rw [if_neg hp]
        exact ⟨_, rfl, hst.kept⟩
    · rw [decideCA_of_other htld hsame, ← htld]
      exact ⟨_, rfl, decideOtherCA_gate.kept hst hca⟩
  · rw [decideCA_of_tld_ne htld]
    exact ⟨st, rfl, hst.kept⟩

/-- **The branches that respect the contest flag**: the alias is new, or known under this
tld_id with the known CA, quarantined, or its installed CA alive and this one in its grace. -/
def HeldBack (now : Int) (tld caHash : Bytes) (entry : Option CrossState) : Prop :=
  ∀ st, entry = some st → st.tldIDB32 = tld ∧
    (st.caIdentity = [] ∨ st.caIdentity = caHash ∨ statusOf st = .quarantined ∨
      (unix now < st.notAfter ∧ ∀ p, st.pending = some p → p.caSha256 = caHash →
        wrap64 (unix now - p.since) < rotationGrace))

theorem decideSameCA_young (now : Int) (present : Bool) (st : CrossState) :
    decideSameCA now present true st = .none := by
  unfold decideSameCA
  split <;> rfl

theorem GateDecision.ne_install (h : GateDecision now true tld caHash st o)
    (hlive : st.trusted → unix now < st.notAfter ∧
      ∀ p, st.pending = some p → p.caSha256 = caHash →
        wrap64 (unix now - p.since) < rotationGrace) : o.2 ≠ .install := by
  intro hact
  cases h with
  | release _ hyoung => cases hyoung
  | remint hq hexpired => exact hexpired (hlive hq).1
  | rotate hq p hp hca hgrace => exact absurd hgrace (not_le.mpr ((hlive hq).2 p hp hca))
  | requarantine | observe | wait => cases hact

theorem decideCA_young {entry : Option CrossState} (h : HeldBack now tld caHash entry) :
    (decideCA now present true tld caHash entry).2 ≠ .install := by
  cases entry with
  | none => exact fun hact => by cases hact
  | some st =>
    obtain ⟨htld, hbranch⟩ := h st rfl
    by_cases hsame : st.caIdentity = [] ∨ st.caIdentity = caHash
    · rw [decideCA_of_same htld hsame]
      split
      · exact fun hact => by cases hact
      · rw [decideSameCA_young]
        exact fun hact => by cases hact
    · rw [decideCA_of_other htld hsame]
      refine decideOtherCA_gate.ne_install ?_
      intro hq
      rcases hbranch with hlegacy | heq | hquar | hlive
      · exact absurd (.inl hlegacy) hsame
      · exact absurd (.inr heq) hsame
      · exact absurd hquar hq
      · exact hlive

/-! ## One call -/

theorem write_lookup_ne (h : b ≠ a) : (e.write a written).state.lookup b = e.state.lookup b := by
  cases written with
  | none => rfl
  | some st => exact AList.lookup_insert_ne h

theorem write_lookup_self : (e.write a written).state.lookup a = written.or (e.state.lookup a) := by
  cases written with
  | none => rfl
  | some st => exact AList.lookup_insert e.state

theorem settleCA_lookup_ne (ha : a ≠ c.aliasName) :
    (settleCA P e c ca d).state.lookup a = e.state.lookup a := by
  unfold settleCA
  cases d.2 with
  | none | defer => exact write_lookup_ne ha
  | quarantine => exact (AList.lookup_insert_ne ha).trans (write_lookup_ne ha)
  | install =>
    dsimp only
    split
    · exact write_lookup_ne ha
    · exact (AList.lookup_insert_ne ha).trans (write_lookup_ne ha)

theorem settleCA_lookup_self (h : (settleCA P e c ca d).state.lookup c.aliasName = some st) :
    (d.1.or (e.state.lookup c.aliasName) = some st) ∨
    (d.2 = .quarantine ∧ st = quarantineEntry (tldB32 c.tldID) (caIdentity P ca)) ∨
    (d.2 = .install ∧
      st = installEntry (tldB32 c.tldID) (caIdentity P ca) ca c.now c.systemOK) := by
  unfold settleCA at h
  cases hact : d.2 with
  | none =>
    rw [hact] at h
    exact .inl (write_lookup_self.symm.trans h)
  | defer =>
    rw [hact] at h
    exact .inl (write_lookup_self.symm.trans h)
  | quarantine =>
    simp only [hact, AList.lookup_insert, Option.some.injEq] at h
    exact .inr (.inl ⟨rfl, h.symm⟩)
  | install =>
    simp only [hact] at h
    split at h
    · exact .inl (write_lookup_self.symm.trans h)
    · rw [AList.lookup_insert, Option.some.injEq] at h
      exact .inr (.inr ⟨rfl, h.symm⟩)

/-- The condition on a young call: the engine its decision finds holds it back. -/
def Call.HeldBack (P : Primitives) (e : Engine) : Call → Prop
  | .ownerCA c => c.claimYoung = true → ∀ ca, c.screened = some ca →
      TrustSync.HeldBack c.now (tldB32 c.tldID) (caIdentity P ca)
        ((c.swept e).1.state.lookup c.aliasName)
  | _ => True

/-- The call is a mature claim's announcement of this CA for this alias. -/
def Call.Announces (P : Primitives) (aliasName caHash : Bytes) : Call → Prop
  | .ownerCA c => c.claimYoung = false ∧ c.aliasName = aliasName ∧
      ∃ ca, c.screened = some ca ∧ caIdentity P ca = caHash
  | _ => False

theorem kept_of_lookup (hwf : ∀ a st, e.state.lookup a = some st → st.WellFormed)
    (h : e.state.lookup a = some st) : ∃ st₀, e.state.lookup a = some st₀ ∧ st₀.Kept st :=
  ⟨st, h, (hwf a st h).kept⟩

theorem ownerCA_entry (hwf : ∀ a st, e.state.lookup a = some st → st.WellFormed)
    (hheld : (Call.ownerCA c).HeldBack P e) (h : (step P e (.ownerCA c)).state.lookup a = some st) :
    (∃ st₀, e.state.lookup a = some st₀ ∧ st₀.Kept st) ∨
    (st.WellFormed ∧ (st.trusted → (Call.ownerCA c).Announces P a st.caIdentity)) := by
  simp only [step, onOwnerCA] at h
  cases hca : c.screened with
  | none =>
    rw [hca] at h
    exact .inl (kept_of_lookup hwf h)
  | some ca =>
    rw [hca] at h
    have hsub := sweepSpool_sub e c.spool c.sweepNow
    by_cases ha : a = c.aliasName
    · subst ha
      rcases settleCA_lookup_self h with hwritten | ⟨_, rfl⟩ | ⟨hact, rfl⟩
      · -- what the decision wrote comes from the entry the sweep left
        cases hentry : (c.swept e).1.state.lookup c.aliasName with
        | none =>
          rw [hentry] at hwritten
          exact absurd hwritten (by simp [decideCA])
        | some st₀ =>
          have hst₀ := hsub _ _ hentry
          rw [hentry] at hwritten
          obtain ⟨st', hst', hk⟩ := decideCA_kept (hwf _ _ hst₀) (caIdentity_ne_nil (P := P) ca)
          rw [hst', Option.some_or, Option.some.injEq] at hwritten
          subst hwritten
          exact .inl ⟨st₀, hst₀, hk⟩
      · exact .inr ⟨quarantineEntry_wellFormed (caIdentity_ne_nil ca),
          fun ht => absurd ht (quarantineEntry_not_trusted _ _)⟩
      · refine .inr ⟨⟨caIdentity_ne_nil ca, fun hp => absurd hp (by simp [installEntry])⟩, ?_⟩
        intro _
        cases hyoung : c.claimYoung with
        | false => exact ⟨hyoung, rfl, ca, hca, rfl⟩
        | true =>
          rw [hyoung] at hact
          exact absurd hact (decideCA_young (hheld hyoung ca hca))
    · rw [settleCA_lookup_ne ha] at h
      exact .inl (kept_of_lookup hwf (hsub _ _ h))

/-- **The entries after a call**: kept, untrusted and new, or installed by a mature claim. -/
theorem step_entry {call : Call} (hwf : ∀ a st, e.state.lookup a = some st → st.WellFormed)
    (hheld : call.HeldBack P e) (h : (step P e call).state.lookup a = some st) :
    (∃ st₀, e.state.lookup a = some st₀ ∧ st₀.Kept st) ∨
    (st.WellFormed ∧ (st.trusted → call.Announces P a st.caIdentity)) := by
  cases call with
  | aliasDead b tldID =>
    refine .inl (kept_of_lookup hwf ?_)
    simp only [step, onAliasDead] at h
    split at h
    · exact h
    split at h
    · exact h
    · exact Table.erase_sub _ _ _ _ h
  | removeAlias b => exact .inl (kept_of_lookup hwf (Table.erase_sub _ _ _ _ h))
  | sweep spool now => exact .inl (kept_of_lookup hwf (sweepSpool_sub e spool now _ _ h))
  | ownerCA c => exact ownerCA_entry hwf hheld h

/-! ## Whole runs -/

/-- Entries are well formed, and what is trusted was announced by a mature claim. -/
structure Announced (P : Primitives) (past : List Call) (e : Engine) : Prop where
  wellFormed : ∀ a st, e.state.lookup a = some st → st.WellFormed
  announced : ∀ a st, e.state.lookup a = some st → st.trusted →
    ∃ call ∈ past, call.Announces P a st.caIdentity

theorem Announced.new : Announced P [] Engine.new :=
  ⟨fun _ _ h => absurd h (by simp [Engine.new]), fun _ _ h => absurd h (by simp [Engine.new])⟩

theorem Announced.step {past : List Call} {e : Engine} {call : Call} (h : Announced P past e)
    (hheld : call.HeldBack P e) : Announced P (past ++ [call]) (step P e call) := by
  refine ⟨?_, ?_⟩
  · intro a st hst
    rcases step_entry h.wellFormed hheld hst with ⟨st₀, _, hk⟩ | hnew
    · exact hk.wellFormed
    · exact hnew.1
  · intro a st hst ht
    rcases step_entry h.wellFormed hheld hst with ⟨st₀, hst₀, hk⟩ | hnew
    · obtain ⟨ht₀, hid⟩ := hk.trust ht
      obtain ⟨call', hmem, hann⟩ := h.announced a st₀ hst₀ ht₀
      exact ⟨call', List.mem_append_left _ hmem, hid ▸ hann⟩
    · exact ⟨call, List.mem_append_right _ List.mem_cons_self, hnew.2 ht⟩

theorem Announced.run {calls : List Call}
    (h : EachStep (TrustSync.step P) (fun e call => call.HeldBack P e) Engine.new calls) :
    Announced P calls (calls.foldl (TrustSync.step P) Engine.new) :=
  EachStep.history (fun _ _ _ hinv hheld => hinv.step hheld) Announced.new h

/-- The alias is trusted under this TLD. -/
def InstalledWith (e : Engine) (aliasName tld : Bytes) : Prop :=
  ∃ st, e.state.lookup aliasName = some st ∧ st.trusted ∧ st.tldIDB32 = tld

/-- **Young claims add no trust.** In a run whose young calls keep to those branches, a
young call leaves installed only what it found so, and every trusted CA was announced by a
mature claim. -/
theorem young_never_newly_trusted (calls : List Call)
    (hheld : EachStep (TrustSync.step P) (fun e call => call.HeldBack P e) Engine.new calls) :
    (∀ i c, calls[i]? = some (.ownerCA c) → c.claimYoung = true →
      InstalledWith ((calls.take (i + 1)).foldl (TrustSync.step P) Engine.new) c.aliasName
        (tldB32 c.tldID) →
      InstalledWith ((calls.take i).foldl (TrustSync.step P) Engine.new) c.aliasName
        (tldB32 c.tldID)) ∧
    ∀ i a st, ((calls.take i).foldl (TrustSync.step P) Engine.new).state.lookup a = some st →
      st.trusted → ∃ call ∈ calls.take i, call.Announces P a st.caIdentity := by
  refine ⟨?_, fun i => (Announced.run (hheld.take i)).announced⟩
  intro i c hi hyoung hafter
  obtain ⟨st, hst, ht, htld⟩ := hafter
  rw [foldl_take_succ hi] at hst
  rcases step_entry (Announced.run (hheld.take i)).wellFormed (hheld.at hi) hst with
    ⟨st₀, hst₀, hk⟩ | hnew
  · exact ⟨st₀, hst₀, (hk.trust ht).1, hk.tld ▸ htld⟩
  · -- an announcement is mature, and this call is young
    have hmature := (hnew.2 ht).1
    rw [hyoung] at hmature
    exact absurd hmature (by decide)

end

/-! ## Runs of the engine -/

namespace Sample

def authority (n : UInt8) : Certificate :=
  { isCA := true, certSign := true, commonName := [0x78], selfSigned := true, notAfter := 1000,
    subjectPublicKeyInfo := [n] }

def announce (n : UInt8) (claimYoung : Bool) (now : Int) : OwnerCACall :=
  { aliasName := [0x78], tldID := [n], ca := some (authority n), recordExpires := 900, claimYoung,
    now := unixTime now, sweepNow := unixTime now, spool := some [], minted := true,
    systemOK := false }

end Sample

/-- The quarantine at work: a young claim's CA is installed once the claim has matured. -/
theorem matured_claim_trusted :
    ∃ call ∈ [Call.ownerCA (Sample.announce 1 true 10), Call.ownerCA (Sample.announce 1 false 20)],
      call.Announces Toy.primitives [0x78] (caIdentity Toy.primitives (Sample.authority 1)) :=
  (young_never_newly_trusted (P := Toy.primitives)
    [.ownerCA (Sample.announce 1 true 10), .ownerCA (Sample.announce 1 false 20)]
    ⟨fun _ _ _ st hst => absurd hst (Option.some_ne_none st).symm,
      fun hyoung => absurd hyoung Bool.false_ne_true, trivial⟩).2 2 [0x78]
    (installEntry (tldB32 [1]) (caIdentity Toy.primitives (Sample.authority 1))
      (Sample.authority 1) (unixTime 20) false)
    (by decide +kernel) (by decide)

/-- **A young claim installed**: quarantined under one tld_id, the alias is installed under
another at once. -/
theorem young_transfer_installed :
    (∀ call ∈ [Sample.announce 1 true 10, Sample.announce 2 true 20], call.claimYoung = true) ∧
    ¬ InstalledWith (step Toy.primitives Engine.new (.ownerCA (Sample.announce 1 true 10)))
      [0x78] (tldB32 [2]) ∧
    InstalledWith (step Toy.primitives
      (step Toy.primitives Engine.new (.ownerCA (Sample.announce 1 true 10)))
      (.ownerCA (Sample.announce 2 true 20))) [0x78] (tldB32 [2]) := by
  refine ⟨by decide, ?_, ?_⟩
  · intro h
    obtain ⟨st, hst, ht, _⟩ := h
    have hfirst : (step Toy.primitives Engine.new (.ownerCA (Sample.announce 1 true 10))).state.lookup
        [0x78] = some (quarantineEntry (tldB32 [1])
          (caIdentity Toy.primitives (Sample.authority 1))) := by decide +kernel
    rw [hfirst, Option.some.injEq] at hst
    subst hst
    exact quarantineEntry_not_trusted _ _ ht
  · exact ⟨installEntry (tldB32 [2]) (caIdentity Toy.primitives (Sample.authority 2))
      (Sample.authority 2) (unixTime 20) false, by decide +kernel, by decide, rfl⟩

end Freens.TrustSync
