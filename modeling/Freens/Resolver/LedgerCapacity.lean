/-
**THE FULL LEDGER** (`resolver/claims_ratchet.go`: `observe`, `established`).

`observe` drops the whole ledger when it holds `maxRatchetAliases` aliases, before
it looks whether the alias is one of them.
-/
import Freens.Library.Run
import Freens.Library.Ledger
import Freens.Resolver.Ratchet

namespace Freens.Resolver

open Library

/-! ## Runs of the ledger -/

/-- The calls of the ledger. -/
inductive LedgerCall where
  | observe (aliasName ph : Bytes) (now : Int)
  | established (aliasName ph : Bytes) (now : Int)
  deriving DecidableEq, Repr

/-- The alias of a call. -/
def LedgerCall.aliasName : LedgerCall → Bytes
  | .observe a _ _ => a
  | .established a _ _ => a

/-- One call. -/
def ledgerStep (l : PastHorizonLedger) : LedgerCall → PastHorizonLedger
  | .observe a ph now => l.observe a ph now
  | .established a ph now => (l.established a ph now).2

/-- The ledger before call `i`. -/
def ledgerBefore (run : List LedgerCall) (i : Nat) : PastHorizonLedger :=
  (run.take i).foldl ledgerStep ∅

/-- Identities stay on record through a run. -/
structure KeepsKnown (run : List LedgerCall) : Prop where
  /-- An identity once observed is established from then on. -/
  stays : ∀ i j a ph t, run[i]? = some (.observe a ph t) → i < j →
    ∀ now, ((ledgerBefore run j).established a ph now).1 = true
  /-- Observing an identity on record removes no record. -/
  others : ∀ i a ph t, run[i]? = some (.observe a ph t) → (ledgerBefore run i).Has a ph →
    ∀ b q, (ledgerBefore run i).Has b q → (ledgerBefore run (i + 1)).Has b q

/-- No identity is observed at the bound. -/
def BelowLimit (run : List LedgerCall) : Prop :=
  ∀ i a ph t, run[i]? = some (.observe a ph t) →
    (ledgerBefore run i).entries.length < maxRatchetAliases

/-! ## One observation -/

namespace PastHorizonLedger

theorem has_observe_of_room {l : PastHorizonLedger} {a ph b q : Bytes} {now : Int}
    (h : l.entries.length < maxRatchetAliases) :
    (l.observe a ph now).Has b q ↔ l.Has b q ∨ (b = a ∧ q = ph) := by
  have hroom : l.makeRoom = l := if_neg (not_le.mpr h)
  rw [observe, hroom]
  exact has_insert

theorem has_observe_of_full {l : PastHorizonLedger} {a ph b q : Bytes} {now : Int}
    (h : maxRatchetAliases ≤ l.entries.length) : (l.observe a ph now).Has b q ↔ b = a ∧ q = ph := by
  have hdropped : l.makeRoom = ∅ := if_pos h
  rw [observe, hdropped, has_insert, or_iff_right not_has_empty]

/-- Every alias has an identity. -/
def Inhabited (l : PastHorizonLedger) : Prop := ∀ a, a ∈ l → ∃ ph, l.Has a ph

theorem Inhabited.observe {l : PastHorizonLedger} (h : l.Inhabited) (a ph : Bytes) (now : Int) :
    (l.observe a ph now).Inhabited := by
  intro b hb
  by_cases hroom : l.entries.length < maxRatchetAliases
  · have hsame : l.makeRoom = l := if_neg (not_le.mpr hroom)
    rw [PastHorizonLedger.observe, hsame, AList.mem_insert] at hb
    rcases hb with hb | hb
    · exact ⟨ph, (has_observe_of_room hroom).mpr (.inr ⟨hb, rfl⟩)⟩
    · obtain ⟨q, hq⟩ := h b hb
      exact ⟨q, (has_observe_of_room hroom).mpr (.inl hq)⟩
  · have hfull := not_lt.mp hroom
    have hdropped : l.makeRoom = ∅ := if_pos hfull
    rw [PastHorizonLedger.observe, hdropped, AList.mem_insert] at hb
    have hb : b = a := hb.resolve_right (AList.notMem_empty b)
    exact ⟨ph, (has_observe_of_full hfull).mpr ⟨hb, rfl⟩⟩

theorem SameRecords.inhabited {l l' : PastHorizonLedger} (h : SameRecords l l')
    (hl : l.Inhabited) : l'.Inhabited := by
  intro b hb
  obtain ⟨q, hq⟩ := hl b ((h.aliases b).mp hb)
  exact ⟨q, (h.has b q).mpr hq⟩

end PastHorizonLedger

open PastHorizonLedger

variable {l : PastHorizonLedger} {call : LedgerCall} {b q : Bytes} {run : List LedgerCall}
  {i : Nat}

theorem has_ledgerStep
    (h : (ledgerStep l call).Has b q) : l.Has b q ∨ ∃ t, call = .observe b q t := by
  cases call with
  | observe a ph now =>
    have h : (l.observe a ph now).Has b q := h
    by_cases hroom : l.entries.length < maxRatchetAliases
    · rcases (has_observe_of_room hroom).mp h with hbefore | ⟨rfl, rfl⟩
      · exact .inl hbefore
      · exact .inr ⟨now, rfl⟩
    · obtain ⟨rfl, rfl⟩ := (has_observe_of_full (not_lt.mp hroom)).mp h
      exact .inr ⟨now, rfl⟩
  | established a ph now => exact .inl (((sameRecords_established l a ph now).has b q).mp h)

theorem Has.ledgerStep (h : l.Has b q)
    (hroom : ∀ a ph t, call = .observe a ph t → l.entries.length < maxRatchetAliases) :
    (ledgerStep l call).Has b q := by
  cases call with
  | observe a ph now => exact (has_observe_of_room (hroom a ph now rfl)).mpr (.inl h)
  | established a ph now => exact ((sameRecords_established l a ph now).has b q).mpr h

/-! ## Every position of a run -/

theorem ledgerBefore_succ (h : run[i]? = some call) :
    ledgerBefore run (i + 1) = ledgerStep (ledgerBefore run i) call :=
  foldl_take_succ h

theorem ledgerBefore_succ_of_none (h : run[i]? = none) :
    ledgerBefore run (i + 1) = ledgerBefore run i := by
  have hlen : run.length ≤ i := List.getElem?_eq_none_iff.mp h
  unfold ledgerBefore
  rw [List.take_of_length_le hlen, List.take_of_length_le (by omega)]

theorem observed_of_has :
    ∀ {i : Nat}, (ledgerBefore run i).Has b q →
      ∃ i' t, i' < i ∧ run[i']? = some (.observe b q t) := by
  intro i
  induction i with
  | zero =>
    intro h
    exact absurd h not_has_empty
  | succ i ih =>
    intro h
    have hearlier : (ledgerBefore run i).Has b q →
        ∃ i' t, i' < i + 1 ∧ run[i']? = some (.observe b q t) := by
      intro hbefore
      obtain ⟨i', t, hi', hcall⟩ := ih hbefore
      exact ⟨i', t, by omega, hcall⟩
    cases hcall : run[i]? with
    | none =>
      rw [ledgerBefore_succ_of_none hcall] at h
      exact hearlier h
    | some call =>
      rw [ledgerBefore_succ hcall] at h
      rcases has_ledgerStep h with hbefore | ⟨t, rfl⟩
      · exact hearlier hbefore
      · exact ⟨i, t, by omega, hcall⟩

theorem inhabited_ledgerBefore (run : List LedgerCall) (i : Nat) :
    (ledgerBefore run i).Inhabited := by
  induction i with
  | zero =>
    intro a ha
    exact absurd ha (AList.notMem_empty a)
  | succ i ih =>
    cases hcall : run[i]? with
    | none => rwa [ledgerBefore_succ_of_none hcall]
    | some call =>
      rw [ledgerBefore_succ hcall]
      cases call with
      | observe a ph now => exact ih.observe a ph now
      | established a ph now => exact (sameRecords_established _ a ph now).inhabited ih

theorem BelowLimit.has_later (h : BelowLimit run) {j : Nat} (hij : i ≤ j)
    (hi : (ledgerBefore run i).Has b q) : (ledgerBefore run j).Has b q := by
  induction j, hij using Nat.le_induction with
  | base => exact hi
  | succ j _ ih =>
    cases hcall : run[j]? with
    | none => rwa [ledgerBefore_succ_of_none hcall]
    | some call =>
      rw [ledgerBefore_succ hcall]
      apply Has.ledgerStep ih
      rintro a ph t rfl
      exact h j a ph t hcall

theorem has_after_observe {a ph : Bytes} {t : Int}
    (h : run[i]? = some (.observe a ph t)) : (ledgerBefore run (i + 1)).Has a ph := by
  rw [ledgerBefore_succ h]
  show ((ledgerBefore run i).observe a ph t).Has a ph
  by_cases hroom : (ledgerBefore run i).entries.length < maxRatchetAliases
  · exact (has_observe_of_room hroom).mpr (.inr ⟨rfl, rfl⟩)
  · exact (has_observe_of_full (not_lt.mp hroom)).mpr ⟨rfl, rfl⟩

theorem belowLimit_of_few {S : Finset Bytes} (hS : S.card < 4096)
    (hrun : ∀ call ∈ run, call.aliasName ∈ S) : BelowLimit run := by
  intro i a ph t _
  have hwithin : (ledgerBefore run i).Within S := by
    intro b hb
    obtain ⟨q, hq⟩ := inhabited_ledgerBefore run i b hb
    obtain ⟨i', t', _, hcall⟩ := observed_of_has hq
    exact hrun _ (List.mem_of_getElem? hcall)
  exact lt_of_le_of_lt (length_le_of_within hwithin) hS

theorem exists_other_of_full (hl : l.Inhabited) (h : maxRatchetAliases ≤ l.entries.length)
    (a : Bytes) : ∃ b q, b ≠ a ∧ l.Has b q := by
  have hcount : 1 < l.keys.length := by
    rw [AList.keys, List.keys, List.length_map]
    exact lt_of_lt_of_le (by decide) h
  obtain ⟨b, ids, hb, hne⟩ := Table.exists_other_of_count hcount a
  obtain ⟨q, hq⟩ := hl b (Table.mem_of_lookup hb)
  exact ⟨b, q, hne, hq⟩

/-- **Ledger capacity.** A run keeps every identity established, and re-observing removes no
other, exactly when no observation meets a ledger of 4096 aliases. -/
theorem ledger_keeps_known_iff (run : List LedgerCall) :
    (KeepsKnown run ↔ BelowLimit run) ∧
      ∀ S : Finset Bytes, S.card < 4096 → (∀ call ∈ run, call.aliasName ∈ S) → KeepsKnown run := by
  have hkeeps : BelowLimit run → KeepsKnown run := by
    intro hbelow
    constructor
    · intro i j a ph t hcall hij now
      exact established_fst.mpr (hbelow.has_later hij (has_after_observe hcall))
    · intro i a ph t _ _ b q hq
      exact hbelow.has_later (Nat.le_succ i) hq
  refine ⟨⟨?_, hkeeps⟩, fun S hS hrun => hkeeps (belowLimit_of_few hS hrun)⟩
  intro hknown i a ph t hcall
  by_contra hfull
  have hfull := not_lt.mp hfull
  -- another alias's identity was observed, and this observation forgets it
  obtain ⟨b, q, hne, hq⟩ := exists_other_of_full (inhabited_ledgerBefore run i) hfull a
  obtain ⟨i', t', hi', hcall'⟩ := observed_of_has hq
  have hlater : (ledgerBefore run (i + 1)).Has b q :=
    established_fst.mp (hknown.stays i' (i + 1) b q t' hcall' (by omega) t)
  rw [ledgerBefore_succ hcall] at hlater
  exact hne ((has_observe_of_full hfull).mp hlater).1

/-! ## The observation after the 4096th alias -/

namespace CapacitySample

def aliasOf (n : Nat) : Bytes := [UInt8.ofNat (n / 256), UInt8.ofNat (n % 256)]

def identity : Bytes := [0]

def fill (n : Nat) : List LedgerCall :=
  (List.range n).map (fun i => .observe (aliasOf i) identity 0)

def observedAgain : List LedgerCall := fill 4096 ++ [.observe (aliasOf 0) identity 1]

theorem aliasOf_inj {m n : Nat} (hm : m < 65536) (hn : n < 65536) (h : aliasOf m = aliasOf n) :
    m = n := by
  simp only [aliasOf, List.cons.injEq, and_true] at h
  have hhigh := congrArg UInt8.toNat h.1
  have hlow := congrArg UInt8.toNat h.2
  simp only [UInt8.toNat_ofNat'] at hhigh hlow
  omega

theorem ledger_fill {n : Nat} (hn : n ≤ 4096) :
    (((fill n).foldl ledgerStep ∅).entries.length = n) ∧
      (∀ i, i < n → ((fill n).foldl ledgerStep ∅).Has (aliasOf i) identity) ∧
      ∀ a, a ∈ (fill n).foldl ledgerStep ∅ → ∃ i, i < n ∧ a = aliasOf i := by
  induction n with
  | zero =>
    refine ⟨rfl, fun i hi => absurd hi (Nat.not_lt_zero i), ?_⟩
    intro a ha
    exact absurd ha (AList.notMem_empty a)
  | succ n ih =>
    obtain ⟨hlen, hhas, hmem⟩ := ih (by omega)
    have hfill : (fill (n + 1)).foldl ledgerStep ∅ =
        ((fill n).foldl ledgerStep ∅).observe (aliasOf n) identity 0 := by
      rw [fill, List.range_succ, List.map_append, List.foldl_append]
      rfl
    rw [hfill]
    generalize (fill n).foldl ledgerStep ∅ = l at hlen hhas hmem
    have hroom : l.entries.length < maxRatchetAliases := by
      show l.entries.length < 4096
      omega
    have hnew : aliasOf n ∉ l := by
      intro h
      obtain ⟨i, hi, heq⟩ := hmem _ h
      have := aliasOf_inj (by omega) (by omega) heq
      omega
    have hsame : l.makeRoom = l := if_neg (not_le.mpr hroom)
    refine ⟨?_, ?_, ?_⟩
    · rw [PastHorizonLedger.observe, hsame, AList.entries_insert_of_notMem hnew, List.length_cons,
        hlen]
    · intro i hi
      rw [has_observe_of_room hroom]
      by_cases hin : i < n
      · exact .inl (hhas i hin)
      · have hi : i = n := by omega
        subst hi
        exact .inr ⟨rfl, rfl⟩
    · intro a ha
      rw [PastHorizonLedger.observe, hsame, AList.mem_insert] at ha
      rcases ha with ha | ha
      · exact ⟨n, by omega, ha⟩
      · obtain ⟨i, hi, heq⟩ := hmem a ha
        exact ⟨i, by omega, heq⟩

theorem length_fill (n : Nat) : (fill n).length = n := by
  rw [fill, List.length_map, List.length_range]

theorem ledgerBefore_observedAgain :
    ledgerBefore observedAgain 4096 = (fill 4096).foldl ledgerStep ∅ := by
  rw [ledgerBefore, observedAgain, List.take_left' (length_fill 4096)]

theorem observedAgain_last : observedAgain[4096]? = some (.observe (aliasOf 0) identity 1) := by
  rw [observedAgain, List.getElem?_append_right (by rw [length_fill]), length_fill]
  rfl

end CapacitySample

section
open CapacitySample

/-- **A known identity seen again wipes the rest**, on a ledger of 4096 aliases. -/
theorem reobservation_wipes_ledger :
    (∀ call ∈ observedAgain, ∃ i, i < 4096 ∧ call.aliasName = aliasOf i) ∧
    (ledgerBefore observedAgain 4096).Has (aliasOf 0) identity ∧
    (ledgerBefore observedAgain 4096).Has (aliasOf 1) identity ∧
    observedAgain[4096]? = some (.observe (aliasOf 0) identity 1) ∧
    ¬ (ledgerBefore observedAgain 4097).Has (aliasOf 1) identity ∧
    ¬ KeepsKnown observedAgain := by
  obtain ⟨hlen, hhas, _⟩ := ledger_fill (Nat.le_refl 4096)
  rw [← ledgerBefore_observedAgain] at hlen hhas
  have hgone : ¬ (ledgerBefore observedAgain 4097).Has (aliasOf 1) identity := by
    rw [ledgerBefore_succ observedAgain_last]
    show ¬ ((ledgerBefore observedAgain 4096).observe (aliasOf 0) identity 1).Has _ _
    rw [has_observe_of_full (by rw [hlen])]
    intro h
    exact absurd h.1 (by decide)
  refine ⟨?_, hhas 0 (by omega), hhas 1 (by omega), observedAgain_last, hgone, ?_⟩
  · intro call hcall
    rcases List.mem_append.mp hcall with hfill | hlast
    · obtain ⟨i, hi, rfl⟩ := List.mem_map.mp hfill
      exact ⟨i, List.mem_range.mp hi, rfl⟩
    · rw [List.mem_singleton.mp hlast]
      exact ⟨0, by omega, rfl⟩
  · intro hknown
    exact hgone (hknown.others 4096 _ _ _ observedAgain_last (hhas 0 (by omega)) _ _
      (hhas 1 (by omega)))

end

end Freens.Resolver
