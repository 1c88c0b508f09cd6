/-
**ACCEPTED AND STORED.** The install of `PutWithEvidence` is followed by the
expiry sweep, which reads `expires` through signed arithmetic: a newcomer past its
grace is swept at once, and the put still reports success.
-/
import Freens.Dht.Evidence

namespace Freens.Dht

open Library Wire

variable {P : Primitives}

/-! ## The store -/

/-- The store serves the envelope's record at `key`. -/
def StoredAt (P : Primitives) (s : EnvelopeStore) (key : Bytes) (now : Int) (env : SignedEnvelope) :
    Prop :=
  ∃ e, (get P s key now).1 = .ok (some e) ∧ e.recordHash P = env.recordHash P

/-- **What survives its own put**: alive in the store's signed reading of `expires`, or the
live incumbent's record. -/
def Storable (P : Primitives) (s : EnvelopeStore) (key : Bytes) (now : Int) (env : SignedEnvelope) :
    Prop :=
  alive env now = true ∨
    ∃ cur, s.entries.lookup key = some cur ∧ alive cur.env now = true ∧
      cur.env.recordHash P = env.recordHash P

variable {s : EnvelopeStore} {env : SignedEnvelope} {evidence key : Bytes} {now : Int}
  {verify : Bool}

theorem storable_of_refresh (h : judge P s key env now evidence = .refresh) :
    ∃ cur, s.entries.lookup key = some cur ∧ alive cur.env now = true ∧
      cur.env.recordHash P = env.recordHash P := by
  cases hcur : s.entries.lookup key with
  | none => exact absurd h (by simp [judge, hcur])
  | some cur =>
    by_cases halive : alive cur.env now = true
    · rw [judge_of_alive hcur halive] at h
      exact ⟨cur, rfl, halive, (judgeIncumbent_refresh_iff.mp h).symm⟩
    · exact absurd h (by simp [judge, hcur, halive])

section
variable (h : (putWithEvidence P s key env now verify evidence).1 = .ok true)
include h

theorem length_of_accepted : key.length = 32 := by
  unfold putWithEvidence at h
  split at h
  · cases h
  · next hkey => exact not_not.mp hkey

theorem verified_of_accepted :
    verify = true → env.verifySignature P = true := by
  intro hverify
  unfold putWithEvidence at h
  split at h
  · cases h
  split at h
  · cases h
  · next hsig =>
    rw [hverify, Bool.true_and, Bool.not_eq_true', Bool.not_eq_false] at hsig
    exact hsig

theorem accepted_slot :
    (∃ cur, s.entries.lookup key = some cur ∧ alive cur.env now = true ∧
        cur.env.recordHash P = env.recordHash P ∧
        ((putWithEvidence P s key env now verify evidence).2.entries.lookup key).map Entry.env
          = some cur.env) ∨
    ((∀ cur, s.entries.lookup key = some cur → alive cur.env now = true →
          cur.env.recordHash P ≠ env.recordHash P) ∧
      ((putWithEvidence P s key env now verify evidence).2.entries.lookup key).map Entry.env
        = if alive env now then some env else none) := by
  have heq : putWithEvidence P s key env now verify evidence =
      enact P s key env now (judge P s key env now evidence) :=
    putWithEvidence_eq (length_of_accepted h) (verified_of_accepted h)
  rw [heq] at h ⊢
  cases hv : judge P s key env now evidence with
  | refuse => rw [hv] at h; exact absurd h (by simp [enact])
  | refresh =>
    obtain ⟨cur, hcur, halive, hsame⟩ := storable_of_refresh hv
    refine .inl ⟨cur, hcur, halive, hsame, ?_⟩
    show ((touch s key now).entries.lookup key).map Entry.env = _
    rw [touch_lookup_env, hcur, Option.map_some]
  | install =>
    refine .inr ⟨?_, ?_⟩
    · intro cur hcur halive hsame
      rw [judge_of_alive hcur halive, judgeIncumbent_refresh_iff.mpr hsame.symm] at hv
      exact absurd hv (by decide)
    · show ((install P s key env now).entries.lookup key).map Entry.env = _
      rw [install_lookup_self]
      split <;> rfl

end

theorem get_of_slot (hkey : key.length = 32) :
    (get P s key now).1
      = .ok (((s.entries.lookup key).map Entry.env).filter (fun e => alive e now)) := by
  unfold get
  rw [if_neg (by simp [hkey])]
  cases s.entries.lookup key with
  | none => rfl
  | some e =>
    dsimp only
    rw [Option.map_some, Option.filter_some]
    cases alive e.env now <;> rfl

theorem storedAt_iff_storable (h : (putWithEvidence P s key env now verify evidence).1 = .ok true) :
    StoredAt P (putWithEvidence P s key env now verify evidence).2 key now env ↔
      Storable P s key now env := by
  have hkey := length_of_accepted h
  unfold StoredAt
  rw [get_of_slot hkey]
  rcases accepted_slot h with ⟨cur, hcur, halive, hsame, hslot⟩ | ⟨hother, hslot⟩
  · rw [hslot, Option.filter_some, if_pos halive]
    exact ⟨fun _ => .inr ⟨cur, hcur, halive, hsame⟩, fun _ => ⟨cur.env, rfl, hsame⟩⟩
  · rw [hslot]
    by_cases halive : alive env now = true
    · rw [if_pos halive, Option.filter_some, if_pos halive]
      exact ⟨fun _ => .inl halive, fun _ => ⟨env, rfl, rfl⟩⟩
    · rw [if_neg halive, Option.filter_none]
      constructor
      · intro hstored
        obtain ⟨e, he, _⟩ := hstored
        cases he
      · intro hstorable
        rcases hstorable with hnow | ⟨cur, hcur, hlive, hsame⟩
        · exact absurd hnow halive
        · exact absurd hsame (hother cur hcur hlive)

theorem emptied_iff {held : SignedEnvelope} (hheld : (get P s key now).1 = .ok (some held)) :
    (get P (putWithEvidence P s key env now verify evidence).2 key now).1 = .ok none ↔
      (putWithEvidence P s key env now verify evidence).1 = .ok true ∧
        ¬ Storable P s key now env := by
  by_cases hacc : (putWithEvidence P s key env now verify evidence).1 = .ok true
  · rw [← storedAt_iff_storable hacc, StoredAt, get_of_slot (length_of_accepted hacc)]
    constructor
    · intro hnone
      refine ⟨hacc, ?_⟩
      rw [hnone]
      rintro ⟨e, he, _⟩
      cases he
    · intro h
      rcases accepted_slot hacc with ⟨cur, hcur, halive, hsame, hslot⟩ | ⟨_, hslot⟩
      · exact absurd ⟨cur.env, by rw [hslot, Option.filter_some, if_pos halive], hsame⟩ h.2
      · by_cases halive : alive env now = true
        · refine absurd ⟨env, ?_, rfl⟩ h.2
          rw [hslot, if_pos halive, Option.filter_some, if_pos halive]
        · rw [hslot, if_neg halive, Option.filter_none]
  · rw [putWithEvidence_refused hacc, hheld]
    exact ⟨fun h => absurd h (by simp), fun h => absurd h.1 hacc⟩

/-! ## The put RPC -/

variable {s' : EnvelopeStore} {now' : Int}

theorem storedAt_congr (hkey : key.length = 32) (h : s'.entries = s.entries) :
    StoredAt P s' key now env ↔ StoredAt P s key now env := by
  unfold StoredAt
  rw [get_of_slot hkey, get_of_slot hkey, h]

theorem not_winner_of_refused
    (h : putWithEvidence P s key env now false evidence = (.ok false, s')) :
    (get P s key now').1.toOption.join.any (fun inc => inc.recordHash P = env.recordHash P)
      = false := by
  replace h := congrArg Prod.fst h
  unfold putWithEvidence at h
  split at h
  · cases h
  · next hkey =>
    rw [Bool.false_and, if_neg Bool.false_ne_true] at h
    cases hv : judge P s key env now evidence with
    | refresh | install => rw [hv] at h; exact absurd h (by simp [enact])
    | refuse =>
      rw [get_of_slot (not_not.mp hkey)]
      unfold judge at hv
      cases hcur : s.entries.lookup key with
      | none => rfl
      | some cur =>
        -- only a live incumbent refuses, and not its own record
        rw [hcur] at hv
        dsimp only at hv
        split at hv
        · have hne : env.recordHash P ≠ cur.env.recordHash P := by
            intro hsame
            rw [judgeIncumbent_refresh_iff.mpr hsame] at hv
            exact absurd hv (by decide)
          rw [Option.map_some, Option.filter_some]
          split
          · simp [Except.toOption, Ne.symm hne]
          · rfl
        · exact absurd hv (by decide)

theorem hPut_kept_iff {gates : PutGates} {m : PutArgs} {put : Admitted}
    (hadmitted : admitPut P gates m = .ok put) (hreply : hPut P s gates m now now' = (.ok, s')) :
    (StoredAt P s' put.key now put.env ∨ put.poolKept = true) ↔
      (Storable P s put.key now put.env ∨ put.poolKept = true) := by
  unfold hPut at hreply
  rw [hadmitted] at hreply
  rcases hput : putWithEvidence P s put.key put.env now false m.evidence with ⟨res, s₁⟩
  simp only [hput] at hreply
  cases res with
  | error e => cases hreply
  | ok accepted =>
    cases accepted with
    | true =>
      have hacc : (putWithEvidence P s put.key put.env now false m.evidence).1 = .ok true := by
        rw [hput]
      have hs' : s' = retainEvidence P s₁ put.env m.evidence := (Prod.mk.inj hreply).2.symm
      have hstored := storedAt_iff_storable hacc
      rw [hput] at hstored
      rw [hs', storedAt_congr (length_of_accepted hacc) (retainEvidence_entries s₁ put.env m.evidence),
        hstored]
    | false =>
      have hs₁ : s₁ = s := state_of_refused hput
      have hpool : put.poolKept = true := by
        subst hs₁
        unfold replyPut at hreply
        simp only [Bool.false_eq_true, if_false, not_winner_of_refused hput] at hreply
        split at hreply
        · next hkept => exact hkept
        · cases hreply
      exact ⟨fun _ => .inr hpool, fun _ => .inr hpool⟩

/-- **Accepted means stored**, exactly as far as the envelope is storable. The second clause
is the loss of a live entry, the third the answer of the put RPC. -/
theorem accepted_stored_iff (P : Primitives) (s : EnvelopeStore) (key : Bytes)
    (env : SignedEnvelope) (now : Int) (evidence : Bytes) :
    ((putWithEvidence P s key env now true evidence).1 = .ok true →
      (StoredAt P (putWithEvidence P s key env now true evidence).2 key now env ↔
        Storable P s key now env)) ∧
    (∀ held, (get P s key now).1 = .ok (some held) →
      ((get P (putWithEvidence P s key env now true evidence).2 key now).1 = .ok none ↔
        (putWithEvidence P s key env now true evidence).1 = .ok true ∧
          ¬ Storable P s key now env)) ∧
    (∀ gates m now' put s', admitPut P gates m = .ok put →
      hPut P s gates m now now' = (.ok, s') →
      ((StoredAt P s' put.key now put.env ∨ put.poolKept = true) ↔
        (Storable P s put.key now put.env ∨ put.poolKept = true))) :=
  ⟨storedAt_iff_storable, fun _ => emptied_iff, fun _ _ _ _ _ => hPut_kept_iff⟩

theorem update_stored :
    StoredAt Toy.primitives (putWithEvidence Toy.primitives (Sample.holding Sample.first) Sample.tld
      Sample.update 150 true []).2 Sample.tld 150 Sample.update :=
  ((accepted_stored_iff Toy.primitives (Sample.holding Sample.first) Sample.tld Sample.update 150
    []).1 (by decide +kernel)).mpr (.inl (by decide +kernel))

namespace Sample

/-- A record that expires past the signed range. -/
def farFuture : SignedEnvelope := Toy.signedBy 1 (Toy.tldRecord 1 1 2 100 0x8000000000000000)

end Sample

/-- **Accepted and gone.** The owner's update over a live record, with an expiry past the
signed range, is accepted, and the key is empty. -/
theorem accepted_not_stored :
    (get Toy.primitives (Sample.holding Sample.first) Sample.tld 150).1 = .ok (some Sample.first) ∧
    Sample.farFuture.verifySignature Toy.primitives = true ∧
    (150 : Int) < Sample.farFuture.record.expires.toNat ∧
    (putWithEvidence Toy.primitives (Sample.holding Sample.first) Sample.tld Sample.farFuture 150
      true []).1 = .ok true ∧
    (get Toy.primitives (putWithEvidence Toy.primitives (Sample.holding Sample.first) Sample.tld
      Sample.farFuture 150 true []).2 Sample.tld 150).1 = .ok none ∧
    (hPut Toy.primitives (Sample.holding Sample.first) Sample.welcome
      { key := [], envelope := some Sample.farFuture, evidence := [] } 150 150).1 = .ok := by
  refine ⟨?_, ?_, ?_, ?_, ?_, ?_⟩ <;> decide +kernel

end Freens.Dht
