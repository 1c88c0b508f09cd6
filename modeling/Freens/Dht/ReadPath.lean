/-
**THE READ PATH AND ROLLBACK.** A lookup that re-walks the network returns
the best of what the peers offer and never compares it with the copy the
store holds.
-/
import Freens.Dht.LookupSpec
import Freens.Library.Run

namespace Freens.Dht

open Library Naming Wire

/-! ## Runs of lookups -/

/-- A lookup with what its walks bring. -/
structure Call where
  now : Int
  walk : Walk
  retry : Walk
  deriving DecidableEq, Repr

/-- The state after a lookup. -/
def lookupStep (P : Primitives) (wireName : Bytes) (l : DHTLookup) (c : Call) : DHTLookup :=
  (lookup P l wireName c.now c.walk c.retry).2

/-- What a lookup returns. -/
def lookupReturns (P : Primitives) (wireName : Bytes) (l : DHTLookup) (c : Call) :
    Except LookupError (Option SignedEnvelope) :=
  (lookup P l wireName c.now c.walk c.retry).1

/-- The state before lookup `i`. -/
def stateBefore (P : Primitives) (wireName : Bytes) (l : DHTLookup) (calls : List Call)
    (i : Nat) : DHTLookup :=
  (calls.take i).foldl (lookupStep P wireName) l

/-- The offers of the walk and, when every best one is expired, of the retry. -/
def Considered (P : Primitives) (c : Call) (o : SignedEnvelope) : Prop :=
  o ∈ validOffers P c.walk ∨
    (o ∈ validOffers P c.retry ∧
      ∀ b, Best P (validOffers P c.walk) b → int64 b.record.expires ≤ c.now)

/-- The peers do not all lag: over a live, unexpired copy due for re-validation some offer
is not behind it. -/
def NotLagging (P : Primitives) (wireName : Bytes) (l : DHTLookup) (c : Call) : Prop :=
  ∀ key e, keyForWireName P wireName = .ok key → Holds l.store key e → alive e c.now = true →
    c.now < e.record.expires.toNat → l.hasNode = true → l.fresh key e c.now = false →
    validOffers P c.walk ≠ [] → ∃ o, Considered P c o ∧ ¬ Outranks P e o

/-! ## One lookup -/

variable {P : Primitives} {e e' : SignedEnvelope} {c : Call}
  {o : SignedEnvelope} {wireName key : Bytes} {l : DHTLookup}

theorem Adoptable.not_behind (hadopt : Adoptable P c.walk c.retry c.now e) (ho : Considered P c o) :
    envelopeWins P o e = false := by
  rcases hadopt with ⟨hbest, hfresh⟩ | ⟨_, hbest⟩
  · rcases ho with hwalk | ⟨_, hexpired⟩
    · exact hbest.top o hwalk
    · -- an unexpired best offer rules the retry out
      have := hexpired e hbest
      omega
  · rcases ho with hwalk | ⟨hretry, _⟩
    · exact hbest.top o (List.mem_append_left _ hwalk)
    · exact hbest.top o (List.mem_append_right _ hretry)

theorem outranks_of_not_wins (h : Outranks P e e')
    (ho : envelopeWins P o e' = false) : Outranks P e o := by
  by_contra hno
  have hwins : envelopeWins P e e' = true := envelopeWins_iff.mpr h
  have heo : envelopeWins P e o = false := by
    rw [Bool.eq_false_iff, ne_eq, envelopeWins_iff]
    exact hno
  rw [envelopeWins_iff, Outranks] at hwins
  rw [Bool.eq_false_iff, ne_eq, envelopeWins_iff, Outranks] at ho heo
  grind

theorem get_of_holds {s : EnvelopeStore} {key : Bytes} {e : SignedEnvelope} {now : Int}
    (hkey : key.length = 32) (h : Holds s key e) (halive : alive e now = true) :
    (get P s key now).1 = .ok (some e) := by
  obtain ⟨entry, hentry, henv⟩ := Option.map_eq_some_iff.mp h
  exact (get_eq_ok_some_iff hkey).mpr ⟨entry, hentry, henv, halive⟩

theorem lookup_returns_cases (hkey : keyForWireName P wireName = .ok key)
    (hheld : Holds l.store key e) (halive : alive e c.now = true)
    (h : lookupReturns P wireName l c = .ok (some e')) :
    e' = e ∨ (l.hasNode = true ∧ l.fresh key e c.now = false ∧ validOffers P c.walk ≠ [] ∧
      Adoptable P c.walk c.retry c.now e') := by
  have hget := @get_of_holds P _ _ _ _ (keyForWireName_length hkey) hheld halive
  -- the store part of the state after the read plays no role in freshness
  have hread : (readLocal P l key c.now).1 = (some e, !l.hasNode || l.fresh key e c.now) := by
    unfold readLocal
    simp [hget, Except.toOption]
  unfold lookupReturns lookup at h
  simp only [lookupKey, hkey, lookupAt] at h
  split at h
  next cached l' heq =>
    rw [heq, Prod.mk.injEq] at hread
    rw [hread.1, Except.ok.injEq, Option.some.injEq] at h
    exact .inl h.symm
  next cached l' heq =>
    rw [heq, Prod.mk.injEq] at hread
    obtain ⟨hcached, hserved⟩ := hread
    have hdue : l.hasNode = true ∧ l.fresh key e c.now = false := by
      simpa using hserved.symm
    unfold finishLookup at h
    rcases @walkResult_adoptable P c.walk c.retry c.now with ⟨_, hnone⟩ | ⟨env, henv, hadopt⟩
    · split at h
      next env gerr hres => rw [hres] at hnone; cases hnone
      next gerr hres =>
        -- nothing found: the held copy is served
        simp only [serveMiss, hcached] at h
        exact .inl (by simpa using h.symm)
    · split at h
      next env' gerr hres =>
        rw [hres, Option.some.injEq] at henv
        rw [Except.ok.injEq, Option.some.injEq] at h
        rw [← henv, h] at hadopt
        refine .inr ⟨hdue.1, hdue.2, ?_, hadopt⟩
        intro hnil
        rcases hadopt with ⟨hbest, _⟩ | ⟨⟨b, hbest, _⟩, _⟩
        · exact absurd hbest.mem (by simp [hnil])
        · exact absurd hbest.mem (by simp [hnil])
      next gerr hres => rw [hres] at henv; cases henv

theorem lookup_no_rollback (hok : NotLagging P wireName l c)
    (hkey : keyForWireName P wireName = .ok key) (hheld : Holds l.store key e)
    (halive : alive e c.now = true) (htime : c.now < e.record.expires.toNat)
    (h : lookupReturns P wireName l c = .ok (some e')) : ¬ Outranks P e e' := by
  intro hbehind
  rcases lookup_returns_cases hkey hheld halive h with hsame | ⟨hnode, hdue, hfound, hadopt⟩
  · rw [hsame] at hbehind
    have := envelopeWins_irrefl (P := P) e
    rw [envelopeWins_iff.mpr hbehind] at this
    exact absurd this (by simp)
  · obtain ⟨o, ho, hnot⟩ := hok key e hkey hheld halive htime hnode hdue hfound
    exact hnot (outranks_of_not_wins hbehind (hadopt.not_behind ho))

/-! ## Runs -/

/-- **No rollback over a run** whose peers never all lag: no call returns anything behind
the entry held. -/
theorem lookup_run_no_rollback (P : Primitives) (wireName key : Bytes) (l : DHTLookup)
    (calls : List Call) (j : Nat) (c : Call) (e e' : SignedEnvelope)
    (hkey : keyForWireName P wireName = .ok key)
    (hrun : EachStep (lookupStep P wireName) (NotLagging P wireName) l calls)
    (hcall : calls[j]? = some c)
    (hheld : Holds (stateBefore P wireName l calls j).store key e)
    (halive : alive e c.now = true) (htime : c.now < e.record.expires.toNat)
    (hreturns : lookupReturns P wireName (stateBefore P wireName l calls j) c = .ok (some e')) :
    ¬ Outranks P e e' :=
  lookup_no_rollback (hrun.at hcall) hkey hheld halive htime hreturns

namespace Sample

def generation (sequence : UInt64) : SignedEnvelope :=
  Toy.signedBy 1 (Toy.tldRecord 1 1 sequence 100 900000)

def reader : DHTLookup := { store := newEnvelopeStore 0, fetchedAt := ∅, hasNode := true }

def rereads (offered offered' : SignedEnvelope) : List Call :=
  [{ now := 200, walk := .probes [.answered [offered]], retry := .island },
    { now := 90000, walk := .probes [.answered [offered']], retry := .island }]

end Sample

theorem lookup_run_no_rollback_update :
    ¬ Outranks Toy.primitives (Sample.generation 1) (Sample.generation 2) := by
  apply lookup_run_no_rollback Toy.primitives (Toy.tldName 1) Sample.tld Sample.reader
    (Sample.rereads (Sample.generation 1) (Sample.generation 2)) 1 _ _ _ (by decide +kernel) ?_ rfl
    (by unfold Holds; decide +kernel) (by decide +kernel) (by decide +kernel) (by decide +kernel)
  refine ⟨?_, ?_, trivial⟩
  · -- the first call holds nothing
    intro key e _ hheld
    exact absurd hheld (by simp [Holds, Sample.reader, newEnvelopeStore])
  · intro key e hkey hheld _ _ _ _ _
    refine ⟨Sample.generation 2, .inl (by decide +kernel), ?_⟩
    have hsame : key = Sample.tld := by
      have : keyForWireName Toy.primitives (Toy.tldName 1) = .ok Sample.tld := by decide +kernel
      rw [this, Except.ok.injEq] at hkey
      exact hkey.symm
    have hone : some (Sample.generation 1) = some e := by
      rw [← hheld, hsame]
      decide +kernel
    rw [Option.some.injEq] at hone
    rw [← hone, ← envelopeWins_iff]
    decide +kernel

/-- **Rollback.** Past the freshness window a peer with sequence 1 makes a lookup that holds
2 return it. -/
theorem lookup_rolls_back :
    lookupReturns Toy.primitives (Toy.tldName 1) Sample.reader
        ((Sample.rereads (Sample.generation 2) (Sample.generation 1)).get ⟨0, by decide⟩)
      = .ok (some (Sample.generation 2)) ∧
    Holds (stateBefore Toy.primitives (Toy.tldName 1) Sample.reader
        (Sample.rereads (Sample.generation 2) (Sample.generation 1)) 1).store Sample.tld
      (Sample.generation 2) ∧
    alive (Sample.generation 2) 90000 = true ∧
    (90000 : Int) < (Sample.generation 2).record.expires.toNat ∧
    (Sample.generation 1).verifySignature Toy.primitives = true ∧
    lookupReturns Toy.primitives (Toy.tldName 1)
        (stateBefore Toy.primitives (Toy.tldName 1) Sample.reader
          (Sample.rereads (Sample.generation 2) (Sample.generation 1)) 1)
        ((Sample.rereads (Sample.generation 2) (Sample.generation 1)).get ⟨1, by decide⟩)
      = .ok (some (Sample.generation 1)) ∧
    Outranks Toy.primitives (Sample.generation 2) (Sample.generation 1) := by
  refine ⟨by decide +kernel, by unfold Holds; decide +kernel, by decide +kernel, by decide +kernel,
    by decide +kernel, by decide +kernel, ?_⟩
  rw [← envelopeWins_iff]
  decide +kernel

end Freens.Dht
