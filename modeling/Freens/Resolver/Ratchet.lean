/-
**THE PAST-HORIZON RATCHET** (`resolver/claims_ratchet.go`).

Each resolver remembers, per alias, the past-horizon identities it has seen
survive (`PastHorizonLedger`) and drops a past-horizon newcomer to an alias it
remembers. A quorum of fresh re-attestations outranks that memory.
-/
import Freens.Claims.Verification
import Freens.Library.Table

namespace Freens.Resolver

open Library Claims

/-! ## The ledger -/

abbrev maxRatchetAliases : Nat := 4096

/-- Per alias the identities observed, with the time each was last seen, keyed by bytes
where the source has their hexadecimal text. -/
abbrev PastHorizonLedger := Table Bytes (Table Bytes Int)

namespace PastHorizonLedger

/-- Is the identity recorded? If so its stamp is refreshed. -/
def established (l : PastHorizonLedger) (aliasName ph : Bytes) (now : Int) :
    Bool × PastHorizonLedger :=
  match l.lookup aliasName with
  | none => (false, l)
  | some ids =>
    match ids.lookup ph with
    | none => (false, l)
    | some _ => (true, l.insert aliasName (ids.insert ph now))

/-- The alias has an identity on record. -/
def hasAny (l : PastHorizonLedger) (aliasName : Bytes) : Bool :=
  match l.lookup aliasName with
  | none => false
  | some ids => ids.entries.length > 0

/-- A full ledger is dropped whole. -/
def makeRoom (l : PastHorizonLedger) : PastHorizonLedger :=
  if l.entries.length ≥ maxRatchetAliases then ∅ else l

/-- `observe`: stamped, after room is made. -/
def observe (l : PastHorizonLedger) (aliasName ph : Bytes) (now : Int) : PastHorizonLedger :=
  l.makeRoom.insert aliasName (((l.makeRoom.lookup aliasName).getD ∅).insert ph now)

/-- The identity is on record. -/
def Has (l : PastHorizonLedger) (aliasName ph : Bytes) : Prop :=
  ∃ ids : Table Bytes Int, l.lookup aliasName = some ids ∧ ph ∈ ids

/-- Only aliases of `S`. -/
def Within (S : Finset Bytes) (l : PastHorizonLedger) : Prop := ∀ a, a ∈ l → a ∈ S

variable {ph a : Bytes} {l : PastHorizonLedger} {now : Int} {S : Finset Bytes}

theorem not_has_empty : ¬ Has ∅ a ph := by
  intro h
  obtain ⟨ids, hids, _⟩ := h
  cases hids

theorem Has.mem (h : l.Has a ph) : a ∈ l := by
  obtain ⟨ids, hids, _⟩ := h
  exact AList.lookup_isSome.mp (by rw [hids]; rfl)

variable {b q : Bytes} {l' : PastHorizonLedger}

theorem has_insert :
    Has (l.insert a (((l.lookup a).getD ∅).insert ph now)) b q ↔
      l.Has b q ∨ (b = a ∧ q = ph) := by
  unfold Has
  by_cases hb : b = a
  · subst hb
    rw [AList.lookup_insert]
    simp only [Option.some.injEq, exists_eq_left', AList.mem_insert]
    cases hids : l.lookup b with
    | none => simp [-AList.insert_empty]
    | some ids => simp [or_comm]
  · rw [AList.lookup_insert_ne hb]
    simp [hb]

theorem established_cases (l : PastHorizonLedger) (a ph : Bytes) (now : Int) :
    (l.Has a ph ∧ l.established a ph now =
      (true, l.insert a (((l.lookup a).getD ∅).insert ph now))) ∨
    (¬ l.Has a ph ∧ l.established a ph now = (false, l)) := by
  unfold established Has
  cases hids : l.lookup a with
  | none => exact .inr ⟨by simp, rfl⟩
  | some ids =>
    cases hph : ids.lookup ph with
    | none =>
      have hnot : ph ∉ ids := AList.lookup_eq_none.mp hph
      exact .inr ⟨by simpa using hnot, by simp only [hph]⟩
    | some t =>
      have hmem : ph ∈ ids := AList.lookup_isSome.mp (by rw [hph]; rfl)
      exact .inl ⟨⟨ids, rfl, hmem⟩, by simp only [hph, Option.getD_some]⟩

theorem established_fst {l : PastHorizonLedger} {a ph : Bytes} {now : Int} :
    (l.established a ph now).1 = true ↔ l.Has a ph := by
  rcases established_cases l a ph now with ⟨hhas, heq⟩ | ⟨hnot, heq⟩
  · simp [heq, hhas]
  · simp [heq, hnot]

/-- The two ledgers differ at most in the stamps. -/
structure SameRecords (l l' : PastHorizonLedger) : Prop where
  has : ∀ b q, l'.Has b q ↔ l.Has b q
  aliases : ∀ b, b ∈ l' ↔ b ∈ l

theorem SameRecords.refl (l : PastHorizonLedger) : SameRecords l l :=
  ⟨fun _ _ => Iff.rfl, fun _ => Iff.rfl⟩

theorem SameRecords.trans {l'' : PastHorizonLedger} (h : SameRecords l l')
    (h' : SameRecords l' l'') : SameRecords l l'' :=
  ⟨fun b q => (h'.has b q).trans (h.has b q), fun b => (h'.aliases b).trans (h.aliases b)⟩

theorem SameRecords.within (h : SameRecords l l') (hl : l.Within S) : l'.Within S :=
  fun b hb => hl b ((h.aliases b).mp hb)

theorem sameRecords_established (l : PastHorizonLedger) (a ph : Bytes) (now : Int) :
    SameRecords l (l.established a ph now).2 := by
  rcases established_cases l a ph now with ⟨hhas, heq⟩ | ⟨_, heq⟩
  · rw [heq]
    refine ⟨?_, ?_⟩
    · intro b q
      rw [has_insert, or_iff_left_iff_imp]
      rintro ⟨hb, hq⟩
      rw [hb, hq]
      exact hhas
    · intro b
      rw [AList.mem_insert, or_iff_right_iff_imp]
      intro hb
      rw [hb]
      exact hhas.mem
  · rw [heq]
    exact SameRecords.refl l

theorem SameRecords.established_fst {l l' : PastHorizonLedger} (h : SameRecords l l') (a ph : Bytes)
    (now : Int) : (l'.established a ph now).1 = (l.established a ph now).1 := by
  rw [Bool.eq_iff_iff, PastHorizonLedger.established_fst, PastHorizonLedger.established_fst]
  exact h.has a ph

theorem hasAny_iff : l.hasAny a = true ↔ ∃ ph, l.Has a ph := by
  unfold hasAny Has
  cases hids : l.lookup a with
  | none => simp
  | some ids =>
    simp only [gt_iff_lt, decide_eq_true_eq, List.length_pos_iff_exists_mem]
    constructor
    · intro h
      obtain ⟨x, hx⟩ := h
      exact ⟨x.1, ids, rfl, List.mem_keys_of_mem hx⟩
    · intro h
      obtain ⟨ph, ids', heq, hmem⟩ := h
      rw [← Option.some.inj heq] at hmem
      obtain ⟨v, hv⟩ := List.exists_of_mem_keys hmem
      exact ⟨_, hv⟩

theorem length_le_of_within (h : l.Within S) : l.entries.length ≤ S.card := by
  have hnodup : l.keys.Nodup := l.keys_nodup
  have hsub : l.keys.toFinset ⊆ S := by
    intro a ha
    exact h a (AList.mem_keys.mpr (List.mem_toFinset.mp ha))
  calc l.entries.length = l.keys.toFinset.card := by
        rw [List.toFinset_card_of_nodup hnodup, AList.keys, List.keys, List.length_map]
    _ ≤ S.card := Finset.card_le_card hsub

theorem makeRoom_of_within (h : l.Within S) (hS : S.card < maxRatchetAliases) : l.makeRoom = l := by
  have hle := length_le_of_within h
  exact if_neg (by omega)

theorem has_observe (h : l.Within S) (hS : S.card < maxRatchetAliases) :
    (l.observe a ph now).Has b q ↔ l.Has b q ∨ (b = a ∧ q = ph) := by
  rw [observe, makeRoom_of_within h hS]
  exact has_insert

theorem Within.observe (h : l.Within S) (ha : a ∈ S) (hS : S.card < maxRatchetAliases) :
    (l.observe a ph now).Within S := by
  intro b hb
  rw [PastHorizonLedger.observe, makeRoom_of_within h hS, AList.mem_insert] at hb
  rcases hb with hb | hb
  · rw [hb]
    exact ha
  · exact h b hb

theorem mem_observe_self : a ∈ l.observe a ph now := by
  rw [observe, AList.mem_insert]
  exact .inl rfl

end PastHorizonLedger

/-! ## The filter -/

/-- A claim that passed the screen, its carrier's created time and its identity.
-/
structure LiveClaim (P : Primitives) where
  claim : AliasClaim
  created : Int
  ph : Bytes
  identity : claim.prefixHash P = .ok ph

section
variable {P : Primitives}

/-- The claim is at or past the 48 h horizon, by the signed readings. -/
def LiveClaim.pastHorizon (lc : LiveClaim P) (now : Int) : Bool :=
  int64 lc.claim.timestamp ≤ wrap64 (now - Constants.contestWindow)

variable (P) in
/-- The fresh quorum of an identity among the re-attestations on offer. -/
def freshlyAttested (witnessSet : Option (List Bytes))
    (reAttestSets : Table Bytes (List WitnessAttestation)) (now : Int) (ph : Bytes) : Bool :=
  hasFreshQuorum P ((reAttestSets.lookup ph).getD []) ph now Constants.reAttestFresh witnessSet
    Constants.w

/-- Step 1, first loop: the past-horizon identities with fresh evidence. -/
def evidencedOf (lives : List (LiveClaim P)) (witnessSet : Option (List Bytes))
    (reAttestSets : Table Bytes (List WitnessAttestation)) (now : Int) : List Bytes :=
  if reAttestSets.entries.length > 0 then
    (lives.filter (fun lc => lc.pastHorizon now &&
      freshlyAttested P witnessSet reAttestSets now lc.ph)).map (·.ph)
  else []

/-- Step 1, second loop: evidence preempts every past-horizon claim without
it. -/
def preferEvidenced (evidenced : List Bytes) (lives : List (LiveClaim P)) (now : Int) :
    List (LiveClaim P) :=
  if evidenced.isEmpty then lives
  else lives.filter (fun lc => !(lc.pastHorizon now && !evidenced.any (· = lc.ph)))

/-- Step 2, first loop: which past-horizon claims are established here. -/
def markEstablished (aliasName : Bytes) (now : Int) :
    PastHorizonLedger → List (LiveClaim P) → List (LiveClaim P × Bool) × PastHorizonLedger
  | l, [] => ([], l)
  | l, lc :: lives =>
    if lc.pastHorizon now then
      let rest := markEstablished aliasName now (l.established aliasName lc.ph now).2 lives
      ((lc, (l.established aliasName lc.ph now).1) :: rest.1, rest.2)
    else
      let rest := markEstablished aliasName now l lives
      ((lc, false) :: rest.1, rest.2)

/-- Step 2, second loop: what is kept past the horizon is observed. -/
def ratchetLoop (aliasName : Bytes) (now : Int) (defended : Bool) (evidenced : List Bytes) :
    PastHorizonLedger → List (LiveClaim P × Bool) → List (LiveClaim P) × PastHorizonLedger
  | l, [] => ([], l)
  | l, (lc, est) :: marks =>
    -- the source tests for an empty identity, which only an in-window claim is given
    if !lc.pastHorizon now then
      let rest := ratchetLoop aliasName now defended evidenced l marks
      (lc :: rest.1, rest.2)
    else if est || !defended || evidenced.any (· = lc.ph) then
      let rest := ratchetLoop aliasName now defended evidenced (l.observe aliasName lc.ph now) marks
      (lc :: rest.1, rest.2)
    else ratchetLoop aliasName now defended evidenced l marks

/-- The filter on claims whose freshness is known. -/
def ratchet (l : PastHorizonLedger) (aliasName : Bytes) (evidenced : List Bytes)
    (lives : List (LiveClaim P)) (now : Int) : List (LiveClaim P) × PastHorizonLedger :=
  if lives.all (fun lc => !lc.pastHorizon now) then (lives, l)
  else
    let marks := markEstablished aliasName now l lives
    -- an identity that is recorded but not visible now defends the alias too
    ratchetLoop aliasName now (marks.1.any (·.2) || marks.2.hasAny aliasName) evidenced
      marks.2 marks.1

/-- `filterPastHorizonNewcomers`. -/
def filterPastHorizonNewcomers (l : PastHorizonLedger) (aliasName : Bytes)
    (lives : List (LiveClaim P)) (witnessSet : Option (List Bytes))
    (reAttestSets : Table Bytes (List WitnessAttestation)) (now : Int) :
    List (LiveClaim P) × PastHorizonLedger :=
  if lives.isEmpty then (lives, l)
  else
    ratchet l aliasName (evidencedOf lives witnessSet reAttestSets now)
      (preferEvidenced (evidencedOf lives witnessSet reAttestSets now) lives now) now

/-! ## What the filter keeps -/

variable {ph aliasName : Bytes} {lives kept : List (LiveClaim P)}
  {witnessSet : Option (List Bytes)} {reAttestSets : Table Bytes (List WitnessAttestation)}
  {now : Int} {lc : LiveClaim P} {evidenced : List Bytes} {l : PastHorizonLedger}

theorem freshlyAttested_empty : freshlyAttested P witnessSet ∅ now ph = false := by
  simp [freshlyAttested, hasFreshQuorum, distinctNodes, freshAttestations, freshLoop, countDistinct]

theorem mem_evidencedOf :
    ph ∈ evidencedOf lives witnessSet reAttestSets now ↔
      ∃ lc ∈ lives, lc.pastHorizon now = true ∧
        freshlyAttested P witnessSet reAttestSets now lc.ph = true ∧ lc.ph = ph := by
  unfold evidencedOf
  split
  next h =>
    simp only [List.mem_map, List.mem_filter, Bool.and_eq_true]
    constructor
    · intro hph
      obtain ⟨lc, ⟨hmem, hpast, hfresh⟩, heq⟩ := hph
      exact ⟨lc, hmem, hpast, hfresh, heq⟩
    · intro hph
      obtain ⟨lc, hmem, hpast, hfresh, heq⟩ := hph
      exact ⟨lc, ⟨hmem, hpast, hfresh⟩, heq⟩
  next h =>
    have hnone : reAttestSets = ∅ := AList.ext (List.length_eq_zero_iff.mp (by omega))
    subst hnone
    simp only [freshlyAttested_empty, List.not_mem_nil, Bool.false_eq_true, false_and, and_false,
      exists_false]

theorem evidencedOf_eq_nil_iff :
    evidencedOf lives witnessSet reAttestSets now = [] ↔
      ∀ x ∈ lives, x.pastHorizon now = true →
        freshlyAttested P witnessSet reAttestSets now x.ph = false := by
  rw [List.eq_nil_iff_forall_not_mem]
  constructor
  · intro h x hx hpast
    rw [Bool.eq_false_iff]
    intro hfresh
    exact h x.ph (mem_evidencedOf.mpr ⟨x, hx, hpast, hfresh, rfl⟩)
  · intro h ph hph
    obtain ⟨x, hx, hpast, hfresh, _⟩ := mem_evidencedOf.mp hph
    rw [h x hx hpast] at hfresh
    cases hfresh

theorem mem_evidencedOf_of_past (hlc : lc ∈ lives) (hpast : lc.pastHorizon now = true) :
    lc.ph ∈ evidencedOf lives witnessSet reAttestSets now ↔
      freshlyAttested P witnessSet reAttestSets now lc.ph = true := by
  rw [mem_evidencedOf]
  constructor
  · rintro ⟨x, _, _, hfresh, heq⟩
    rwa [heq] at hfresh
  · intro hfresh
    exact ⟨lc, hlc, hpast, hfresh, rfl⟩

theorem mem_preferEvidenced :
    lc ∈ preferEvidenced evidenced lives now ↔
      lc ∈ lives ∧ (lc.pastHorizon now = false ∨ lc.ph ∈ evidenced ∨ evidenced = []) := by
  unfold preferEvidenced
  split
  next h => simp [List.isEmpty_iff.mp h]
  next h =>
    have hne : evidenced ≠ [] := fun heq => h (by rw [heq]; rfl)
    cases hpast : lc.pastHorizon now with
    | false => simp [hpast]
    | true => simp [hpast, hne]

theorem sameRecords_markEstablished :
    PastHorizonLedger.SameRecords l (markEstablished aliasName now l lives).2 := by
  induction lives generalizing l with
  | nil => exact .refl l
  | cons lc lives ih =>
    unfold markEstablished
    split
    next => exact (PastHorizonLedger.sameRecords_established l aliasName lc.ph now).trans ih
    next => exact ih

theorem markEstablished_fst : (markEstablished aliasName now l lives).1 =
    lives.map (fun lc => (lc, lc.pastHorizon now && (l.established aliasName lc.ph now).1)) := by
  induction lives generalizing l with
  | nil => rfl
  | cons lc lives ih =>
    unfold markEstablished
    split
    next hpast =>
      have hsame := PastHorizonLedger.sameRecords_established l aliasName lc.ph now
      simp only [ih, List.map_cons, hpast, Bool.true_and, hsame.established_fst]
    next hpast =>
      rw [Bool.not_eq_true] at hpast
      simp only [ih, List.map_cons, hpast, Bool.false_and]

theorem mem_markEstablished {est : Bool} :
    (lc, est) ∈ (markEstablished aliasName now l lives).1 ↔
      lc ∈ lives ∧ (est = true ↔ lc.pastHorizon now = true ∧ l.Has aliasName lc.ph) := by
  rw [markEstablished_fst, List.mem_map, ← @PastHorizonLedger.established_fst l aliasName lc.ph now,
    ← Bool.and_eq_true, ← Bool.eq_iff_iff]
  constructor
  · rintro ⟨x, hx, heq⟩
    rw [Prod.mk.injEq] at heq
    obtain ⟨rfl, hest⟩ := heq
    exact ⟨hx, hest.symm⟩
  · rintro ⟨hlc, hest⟩
    exact ⟨lc, hlc, by rw [hest]⟩

/-- A marked claim survives. -/
def staysWith (now : Int) (defended : Bool) (evidenced : List Bytes) (mark : LiveClaim P × Bool) :
    Bool :=
  !mark.1.pastHorizon now || mark.2 || !defended || evidenced.any (· = mark.1.ph)

/-- The ledger after the past-horizon identities of `kept` were observed. -/
def learn (aliasName : Bytes) (now : Int) (l : PastHorizonLedger) (kept : List (LiveClaim P)) :
    PastHorizonLedger :=
  (kept.filter (·.pastHorizon now)).foldl (fun l lc => l.observe aliasName lc.ph now) l

theorem learn_cons_of_window (h : lc.pastHorizon now = false) :
    learn aliasName now l (lc :: kept) = learn aliasName now l kept := by
  simp [learn, h]

theorem learn_cons_of_past (h : lc.pastHorizon now = true) :
    learn aliasName now l (lc :: kept) = learn aliasName now (l.observe aliasName lc.ph now) kept := by
  simp [learn, h]

theorem ratchetLoop_eq {defended : Bool} {marks : List (LiveClaim P × Bool)} :
    ratchetLoop aliasName now defended evidenced l marks =
      ((marks.filter (staysWith now defended evidenced)).map (·.1),
        learn aliasName now l ((marks.filter (staysWith now defended evidenced)).map (·.1))) := by
  induction marks generalizing l with
  | nil => rfl
  | cons mark marks ih =>
    obtain ⟨lc, est⟩ := mark
    unfold ratchetLoop
    cases hpast : lc.pastHorizon now with
    | false =>
      rw [List.filter_cons_of_pos (by simp [staysWith, hpast]), if_pos (by decide), ih,
        List.map_cons, learn_cons_of_window hpast]
    | true =>
      rw [if_neg (by simp)]
      split
      next hkeep =>
        rw [List.filter_cons_of_pos (by simpa [staysWith, hpast] using hkeep), ih,
          List.map_cons, learn_cons_of_past hpast]
      next hdrop =>
        rw [List.filter_cons_of_neg (by simpa [staysWith, hpast] using hdrop), ih]

/-! ## What the ledger learns -/

theorem learn_of_none (h : ∀ lc ∈ kept, lc.pastHorizon now = false) :
    learn aliasName now l kept = l := by
  have hnil : kept.filter (·.pastHorizon now) = [] := by
    rw [List.filter_eq_nil_iff]
    intro lc hlc
    simp [h lc hlc]
  rw [learn, hnil, List.foldl_nil]

theorem learn_within {S : Finset Bytes} (hS : S.card < maxRatchetAliases) (ha : aliasName ∈ S)
    (hl : l.Within S) : (learn aliasName now l kept).Within S ∧
      ∀ b q, (learn aliasName now l kept).Has b q ↔
        l.Has b q ∨ (b = aliasName ∧ ∃ lc ∈ kept, lc.pastHorizon now = true ∧ lc.ph = q) := by
  induction kept generalizing l with
  | nil => exact ⟨hl, by simp [learn]⟩
  | cons lc kept ih =>
    cases hpast : lc.pastHorizon now with
    | false =>
      rw [learn_cons_of_window hpast]
      refine ⟨(ih hl).1, ?_⟩
      intro b q
      rw [(ih hl).2]
      simp [hpast]
    | true =>
      rw [learn_cons_of_past hpast]
      obtain ⟨hwithin, hhas⟩ := ih (l := l.observe aliasName lc.ph now) (hl.observe ha hS)
      refine ⟨hwithin, ?_⟩
      intro b q
      rw [hhas, PastHorizonLedger.has_observe hl hS]
      simp only [List.mem_cons, exists_eq_or_imp, hpast, true_and]
      grind

theorem mem_learn (h : aliasName ∈ l ∨ ∃ lc ∈ kept, lc.pastHorizon now = true) :
    aliasName ∈ learn aliasName now l kept := by
  induction kept generalizing l with
  | nil => simpa [learn] using h
  | cons lc kept ih =>
    cases hpast : lc.pastHorizon now with
    | false =>
      rw [learn_cons_of_window hpast]
      apply ih
      simpa [hpast] using h
    | true =>
      rw [learn_cons_of_past hpast]
      exact ih (.inl PastHorizonLedger.mem_observe_self)

/-! ## The filter as a whole -/

theorem undefended_iff :
    ((markEstablished aliasName now l lives).1.any (·.2) ||
      (markEstablished aliasName now l lives).2.hasAny aliasName) = false ↔
      ∀ ph, ¬ l.Has aliasName ph := by
  rw [← Bool.not_eq_true, Bool.or_eq_true, PastHorizonLedger.hasAny_iff, List.any_eq_true]
  simp only [sameRecords_markEstablished.has]
  constructor
  · intro h ph hhas
    exact h (.inr ⟨ph, hhas⟩)
  · rintro h (⟨⟨x, est⟩, hmem, hest⟩ | ⟨ph, hhas⟩)
    · exact h x.ph ((mem_markEstablished.mp hmem).2.mp hest).2
    · exact h ph hhas

theorem mem_ratchet :
    lc ∈ (ratchet l aliasName evidenced lives now).1 ↔
      lc ∈ lives ∧ (lc.pastHorizon now = false ∨ lc.ph ∈ evidenced ∨ l.Has aliasName lc.ph ∨
        ∀ ph, ¬ l.Has aliasName ph) := by
  unfold ratchet
  split
  next hall =>
    refine ⟨fun h => ⟨h, .inl ?_⟩, And.left⟩
    simpa using List.all_eq_true.mp hall lc h
  next =>
    simp only [ratchetLoop_eq, List.mem_map, List.mem_filter, staysWith, Bool.or_eq_true,
      Bool.not_eq_true', undefended_iff, List.any_eq_true, decide_eq_true_eq, exists_eq_right]
    constructor
    · intro h
      obtain ⟨⟨x, est⟩, ⟨hmem, hkeep⟩, hx⟩ := h
      simp only at hx hkeep
      subst hx
      obtain ⟨hlive, hest⟩ := mem_markEstablished.mp hmem
      refine ⟨hlive, ?_⟩
      rcases hkeep with ((hin | hmark) | hnone) | hev
      · exact .inl hin
      · exact .inr (.inr (.inl (hest.mp hmark).2))
      · exact .inr (.inr (.inr hnone))
      · exact .inr (.inl hev)
    · intro h
      obtain ⟨hlive, hkeep⟩ := h
      by_cases hest : lc.pastHorizon now = true ∧ l.Has aliasName lc.ph
      · exact ⟨(lc, true), ⟨mem_markEstablished.mpr ⟨hlive, by simp [hest]⟩, by simp⟩, rfl⟩
      · refine ⟨(lc, false), ⟨mem_markEstablished.mpr ⟨hlive, by simp [hest]⟩, ?_⟩, rfl⟩
        rcases hkeep with hin | hev | hhas | hnone
        · exact .inl (.inl (.inl hin))
        · exact .inr hev
        · cases hpast : lc.pastHorizon now with
          | false => exact .inl (.inl (.inl rfl))
          | true => exact absurd ⟨hpast, hhas⟩ hest
        · exact .inl (.inr hnone)

theorem ratchet_ledger :
    ∃ l' : PastHorizonLedger, PastHorizonLedger.SameRecords l l' ∧
      (ratchet l aliasName evidenced lives now).2 =
        learn aliasName now l' (ratchet l aliasName evidenced lives now).1 := by
  unfold ratchet
  split
  next hall =>
    refine ⟨l, .refl l, ?_⟩
    rw [learn_of_none]
    intro lc hlc
    simpa using List.all_eq_true.mp hall lc hlc
  next =>
    refine ⟨(markEstablished aliasName now l lives).2, sameRecords_markEstablished, ?_⟩
    simp only [ratchetLoop_eq]

/-- **What the filter keeps**: every claim inside the window; past it those with fresh
evidence or, where nobody has it, those on record or, without a record, all. -/
theorem mem_filterPastHorizonNewcomers :
    lc ∈ (filterPastHorizonNewcomers l aliasName lives witnessSet reAttestSets now).1 ↔
      lc ∈ lives ∧ (lc.pastHorizon now = false ∨
        freshlyAttested P witnessSet reAttestSets now lc.ph = true ∨
        ((∀ x ∈ lives, x.pastHorizon now = true →
            freshlyAttested P witnessSet reAttestSets now x.ph = false) ∧
          (l.Has aliasName lc.ph ∨ ∀ ph, ¬ l.Has aliasName ph))) := by
  unfold filterPastHorizonNewcomers
  split
  next hnil => simp [List.isEmpty_iff.mp hnil]
  rw [mem_ratchet, mem_preferEvidenced, evidencedOf_eq_nil_iff, and_assoc]
  refine and_congr_right ?_
  intro hlive
  cases hpast : lc.pastHorizon now with
  | false => simp
  | true =>
    rw [mem_evidencedOf_of_past hlive hpast]
    simp only [Bool.true_eq_false, false_or]
    constructor
    · rintro ⟨hfresh | hnone, hrest⟩
      · exact .inl hfresh
      · exact hrest.imp_right (fun hrest => ⟨hnone, hrest⟩)
    · rintro (hfresh | ⟨hnone, hrest⟩)
      · exact ⟨.inl hfresh, .inl hfresh⟩
      · exact ⟨.inr hnone, .inr hrest⟩

theorem filterPastHorizonNewcomers_ledger :
    ∃ l' : PastHorizonLedger, PastHorizonLedger.SameRecords l l' ∧
      (filterPastHorizonNewcomers l aliasName lives witnessSet reAttestSets now).2 =
        learn aliasName now l'
          (filterPastHorizonNewcomers l aliasName lives witnessSet reAttestSets now).1 := by
  unfold filterPastHorizonNewcomers
  split
  next hnil =>
    exact ⟨l, .refl l, by rw [List.isEmpty_iff.mp hnil]; rfl⟩
  next => exact ratchet_ledger

variable {S : Finset Bytes}

theorem filterPastHorizonNewcomers_within (hS : S.card < maxRatchetAliases) (hl : l.Within S)
    (ha : aliasName ∈ S) :
    (filterPastHorizonNewcomers l aliasName lives witnessSet reAttestSets now).2.Within S := by
  obtain ⟨l', hsame, heq⟩ := @filterPastHorizonNewcomers_ledger P aliasName lives witnessSet
    reAttestSets now l
  rw [heq]
  exact (learn_within hS ha (hsame.within hl)).1

theorem has_filterPastHorizonNewcomers (hS : S.card < maxRatchetAliases) (hl : l.Within S)
    (hafter : (filterPastHorizonNewcomers l aliasName lives witnessSet reAttestSets now).2.Within S)
    {b q : Bytes} :
    (filterPastHorizonNewcomers l aliasName lives witnessSet reAttestSets now).2.Has b q ↔
      l.Has b q ∨ (b = aliasName ∧
        ∃ lc ∈ (filterPastHorizonNewcomers l aliasName lives witnessSet reAttestSets now).1,
          lc.pastHorizon now = true ∧ lc.ph = q) := by
  obtain ⟨l', hsame, heq⟩ := @filterPastHorizonNewcomers_ledger P aliasName lives witnessSet
    reAttestSets now l
  rw [heq] at hafter ⊢
  generalize (filterPastHorizonNewcomers l aliasName lives witnessSet reAttestSets now).1 = kept
    at hafter ⊢
  by_cases hpast : ∃ lc ∈ kept, lc.pastHorizon now = true
  · -- the alias has entered, so it is one of those that fit
    have ha : aliasName ∈ S := hafter _ (mem_learn (.inr hpast))
    rw [(learn_within hS ha (hsame.within hl)).2, hsame.has]
  · have hnone : ∀ lc ∈ kept, lc.pastHorizon now = false := by
      intro lc hlc
      rw [Bool.eq_false_iff]
      intro h
      exact hpast ⟨lc, hlc, h⟩
    rw [learn_of_none hnone, hsame.has, iff_self_or]
    intro h
    obtain ⟨_, lc, hlc, h, _⟩ := h
    exact absurd ⟨lc, hlc, h⟩ hpast

end

end Freens.Resolver
