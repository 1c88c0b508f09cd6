/-
**WHAT A LOOKUP ADOPTS AND WHAT IT DOES TO THE STORE.** The envelope a walk
comes back with is an unbeaten one among the signature-valid offers
(`walkResult_adoptable`). Reading and caching change the slots only as a put
of that envelope under the asked key does.
-/
import Freens.Dht.Displacement
import Freens.Dht.Lookup

namespace Freens.Dht

open Library Naming Wire

variable {P : Primitives}

/-! ## The winner of a walk -/

/-- The offers whose signature holds. -/
def validOffers (P : Primitives) (w : Walk) : List SignedEnvelope :=
  w.offers.filter (fun e => e.verifySignature P)

/-- No offer wins against it. -/
def Best (P : Primitives) (offers : List SignedEnvelope) (e : SignedEnvelope) : Prop :=
  Unbeaten (envelopeWins P) offers e

theorem foldl_mergeBest (offers : List SignedEnvelope) :
    offers.foldl (mergeBest P) none =
      (offers.filter (fun e => e.verifySignature P)).foldl (challenge (envelopeWins P)) none := by
  rw [List.foldl_filter]
  rfl

theorem iterativeGetDetailed_cases (w : Walk) :
    (validOffers P w = [] ∧ (iterativeGetDetailed P w).1 = none) ∨
      ∃ e, iterativeGetDetailed P w = (some e, none) ∧ Best P (validOffers P w) e := by
  cases w with
  | island | busy => exact .inl ⟨rfl, rfl⟩
  | probes results =>
    unfold iterativeGetDetailed
    simp only [foldl_mergeBest]
    rw [show (results.flatMap Probe.envs).filter (fun e => e.verifySignature P)
      = validOffers P (.probes results) from rfl]
    rcases foldl_challenge (@envelopeWins_irrefl P) (fun _ _ _ => envelopeWins_trans)
      (validOffers P (.probes results)) with ⟨hnil, hnone⟩ | ⟨e, he, hbest⟩
    · left
      refine ⟨hnil, ?_⟩
      rw [hnone]
      by_cases hdegraded : results.any Probe.degrades = true <;> simp [hdegraded]
    · right
      exact ⟨e, by rw [he], hbest⟩

/-- An unexpired best offer of the walk or, when a best one is expired, a best one of walk
and retry. -/
def Adoptable (P : Primitives) (walk retry : Walk) (now : Int) (e : SignedEnvelope) : Prop :=
  (Best P (validOffers P walk) e ∧ now < int64 e.record.expires) ∨
    ((∃ b, Best P (validOffers P walk) b ∧ int64 b.record.expires ≤ now) ∧
      Best P (validOffers P walk ++ validOffers P retry) e)

variable {e : SignedEnvelope} {s : EnvelopeStore} {k key : Bytes} {now : Int}
  {l : List SignedEnvelope} {env : SignedEnvelope} {evidence : Bytes} {verify : Bool}

theorem best_append_left {r : List SignedEnvelope} (h : Best P l e)
    (hr : ∀ o ∈ r, envelopeWins P o e = false) : Best P (l ++ r) e := by
  refine ⟨List.mem_append_left _ h.mem, ?_⟩
  intro o ho
  rcases List.mem_append.mp ho with hl | hr'
  · exact h.top o hl
  · exact hr o hr'

theorem not_wins_of_best {b o : SignedEnvelope} (hb : Best P l b) (ho : o ∈ l)
    (heb : envelopeWins P b e = false) : envelopeWins P o e = false := by
  have hob := hb.top o ho
  rw [Bool.eq_false_iff, ne_eq, envelopeWins_iff, Outranks] at *
  grind

theorem walkResult_adoptable (walk retry : Walk) (now : Int) :
    (validOffers P walk = [] ∧ (walkResult P walk retry now).1 = none) ∨
      ∃ e, (walkResult P walk retry now).1 = some e ∧ Adoptable P walk retry now e := by
  rcases @iterativeGetDetailed_cases P walk with ⟨hnil, hnone⟩ | ⟨b, hb, hbest⟩
  · left
    refine ⟨hnil, ?_⟩
    unfold walkResult
    split
    next env gerr heq => rw [heq] at hnone; cases hnone
    next => rfl
  · right
    unfold walkResult
    rw [hb]
    by_cases hexp : now ≥ int64 b.record.expires
    · -- the retry replaces the expired best only by a winner
      have hstale : ∃ b, Best P (validOffers P walk) b ∧ int64 b.record.expires ≤ now :=
        ⟨b, hbest, hexp⟩
      simp only [if_pos hexp]
      unfold expiredWinner
      rcases @iterativeGetDetailed_cases P retry with ⟨hnil, hnone⟩ | ⟨e₂, he₂, hbest₂⟩
      · refine ⟨b, ?_, .inr ⟨hstale, best_append_left hbest (by simp [hnil])⟩⟩
        split
        next e₂ heq => rw [heq] at hnone; cases hnone
        next => rfl
      · rw [he₂]
        by_cases hwins : envelopeWins P e₂ b = true
        · refine ⟨e₂, by simp [hwins], .inr ⟨hstale, ⟨List.mem_append_right _ hbest₂.mem, ?_⟩⟩⟩
          intro o ho
          rcases List.mem_append.mp ho with hl | hr
          · exact not_wins_of_best hbest hl (envelopeWins_asymm hwins)
          · exact hbest₂.top o hr
        · refine ⟨b, by simp [hwins], .inr ⟨hstale, best_append_left hbest ?_⟩⟩
          intro o ho
          exact not_wins_of_best hbest₂ ho (Bool.eq_false_iff.mpr hwins)
    · simp only [if_neg hexp]
      exact ⟨b, rfl, .inl ⟨hbest, by omega⟩⟩

/-! ## Effects on the slots -/

/-- `k` serves `env`. -/
def Holds (s : EnvelopeStore) (k : Bytes) (env : SignedEnvelope) : Prop :=
  (s.entries.lookup k).map Entry.env = some env

theorem holds_of_lookup {e : Entry} (h : s.entries.lookup k = some e) : Holds s k e.env := by
  rw [Holds, h, Option.map_some]

theorem holds_putWithEvidence (h : Holds (putWithEvidence P s key env now verify evidence).2 k e) :
    Holds s k e ∨ (k = key ∧ e = env ∧ alive env now = true ∧
      judge P s key env now evidence = .install) := by
  unfold putWithEvidence at h
  split at h
  next => exact .inl h
  split at h
  next => exact .inl h
  cases hv : judge P s key env now evidence with
  | refuse => rw [hv] at h; exact .inl h
  | refresh =>
    rw [hv] at h
    exact .inl ((touch_lookup_env s key k now).symm.trans h)
  | install =>
    rw [hv] at h
    replace h : Holds (install P s key env now) k e := h
    unfold Holds at h ⊢
    by_cases hk : k = key
    · subst hk
      rw [install_lookup_self] at h
      split at h
      next halive =>
        rw [Option.map_some, Option.some.injEq] at h
        exact .inr ⟨rfl, h.symm, halive, rfl⟩
      next => cases h
    · obtain ⟨entry, hentry, henv⟩ := Option.map_eq_some_iff.mp h
      rw [install_lookup_of_ne hk hentry]
      exact .inl (congrArg some henv)

/-- **Acceptance over a held record**: it is enough that rule 3 installs the newcomer while
the record is alive. -/
theorem accepted_over_held {held : SignedEnvelope} (hk : k.length = 32)
    (hsig : env.verifySignature P = true) (hheld : Holds s k held)
    (hinstall : env.recordHash P ≠ held.recordHash P →
      judgeIncumbent P s held env now evidence = .install) :
    (putWithEvidence P s k env now verify evidence).1 = .ok true := by
  obtain ⟨cur, hcur, henv⟩ := Option.map_eq_some_iff.mp hheld
  rw [putWithEvidence_accepted_iff hk (fun _ => hsig)]
  by_cases halive : alive cur.env now = true
  · rw [judge_of_alive hcur halive, henv]
    by_cases hsame : env.recordHash P = held.recordHash P
    · rw [judgeIncumbent_refresh_iff.mpr hsame]
      simp
    · rw [hinstall hsame]
      simp
  · have hempty : ∀ cur', s.entries.lookup k = some cur' → alive cur'.env now = false := by
      intro cur' hcur'
      rw [hcur, Option.some.injEq] at hcur'
      rw [← hcur']
      exact Bool.eq_false_iff.mpr halive
    rw [judge_of_empty hempty]
    simp

theorem holds_get (h : Holds (get P s key now).2 k e) : Holds s k e := by
  unfold get at h
  split at h
  next => exact h
  split at h
  next => exact h
  next cur hcur =>
    split at h
    next =>
      obtain ⟨entry, hentry, henv⟩ := Option.map_eq_some_iff.mp h
      replace hentry : (evict P s (key, cur)).entries.lookup k = some entry := hentry
      rw [evict_entries] at hentry
      exact Option.map_eq_some_iff.mpr ⟨entry, Table.erase_sub _ _ _ _ hentry, henv⟩
    next => exact (touch_lookup_env s key k now).symm.trans h

theorem holds_of_get (h : (get P s key now).1.toOption.join = some e) : Holds s key e := by
  unfold get at h
  unfold Holds
  split at h
  next => exact absurd h (by simp [Except.toOption])
  split at h
  next => exact absurd h (by simp [Except.toOption])
  next cur hcur =>
    split at h
    next => exact absurd h (by simp [Except.toOption])
    rw [hcur]
    exact h

theorem retainEvidence_entries (s : EnvelopeStore) (env : SignedEnvelope) (evidence : Bytes) :
    (retainEvidence P s env evidence).entries = s.entries := by
  rw [retainEvidence_frame]

@[simp] theorem stampFetchedAt_store (l : DHTLookup) (key : Bytes) (now : Int) :
    (l.stampFetchedAt key now).store = l.store := by
  unfold DHTLookup.stampFetchedAt
  simp only
  split <;> rfl

theorem holds_finishLookup {kind : LookupKind} {l : DHTLookup} {cached : Option SignedEnvelope}
    {walk retry : Walk} (h : Holds (finishLookup P kind l key cached now walk retry).2.store k e) :
    Holds l.store k e ∨ (k = key ∧ Adoptable P walk retry now e ∧ alive e now = true ∧
      judge P l.store key e now [] = .install) := by
  unfold finishLookup at h
  rcases @walkResult_adoptable P walk retry now with ⟨_, hnone⟩ | ⟨env, henv, hadopt⟩
  · split at h
    next env' gerr heq => rw [heq] at hnone; cases hnone
    next => exact .inl h
  · split at h
    next env' gerr heq =>
      rw [heq, Option.some.injEq] at henv
      subst henv
      rw [stampFetchedAt_store] at h
      rcases holds_putWithEvidence h with hold | ⟨hk, he, halive, hinstall⟩
      · exact .inl hold
      · subst he
        exact .inr ⟨hk, hadopt, halive, hinstall⟩
    next gerr heq => rw [heq] at henv; cases henv

end Freens.Dht
