/-
**THE RENEWAL SCAN** (`cmd/freens/main.go`: `renewOnce`) and the publish paths that
fill the owner's store (`admin/handlers.go`; `cli/revoke.go`).

A name with a claim lives under two keys. A tombstone carries no claim, so it is
written under one of them, and the generation under the other is renewed over it.
-/
import Freens.Dht.LookupSpec
import Freens.Library.Run
import Freens.Renewal.Renew

namespace Freens.Renewal

open Library Naming Wire Dht

/-! ## The scan -/

section
variable (P : Primitives)

/-- The put of one envelope under each of its keys, results ignored. -/
def putAll (s : EnvelopeStore) (keys : List Bytes) (env : SignedEnvelope) (now : Int) :
    EnvelopeStore :=
  keys.foldl (fun s k => (put P s k env now false).2) s

/-- The renewed envelope put at each of its keys. -/
def storeLocally (s : EnvelopeStore) (env : SignedEnvelope) (now : Int) : EnvelopeStore :=
  match storageKeys P env with
  | .error _ => s
  | .ok keys => putAll P s keys env now

/-- The errors of `NewRecord` and `SignRecord`. -/
inductive RevokeError where
  | record (e : RecordError)
  | encode
  deriving DecidableEq, Repr

/-- The tombstone of `cmdRevoke`: no claim, no records, the revoke field set. -/
def revokedEnvelope (wireName : Bytes) (kp : Crypto.Keypair) (sequence now : UInt64) :
    Except RevokeError SignedEnvelope := do
  let r ← (newRecord wireName (kp.publicKey P) sequence now (now + 86400)).mapError .record
  expect .encode (signRecord P { r with revoke := some true, rrset := [] } kp)

/-- The keychain entry of a public key. The source maps each public key to its
keypair. -/
def ownerKey (keychain : List Crypto.Keypair) (pk : Bytes) : Option Crypto.Keypair :=
  keychain.find? (fun kp => kp.publicKey P = pk)

/-- A re-sign the scan attempted: the entry, its outcome, and the store at that
moment. -/
structure Attempt where
  key : Bytes
  prev : SignedEnvelope
  result : Except RenewError SignedEnvelope
  store : EnvelopeStore

/-- The store, the identities (signer and name) handled, and the attempts so far. -/
structure Scan where
  store : EnvelopeStore
  seen : List (Bytes × Bytes)
  attempts : List Attempt

/-- After a re-sign: publish and, if that succeeded, install. -/
def settle (published : SignedEnvelope → Bool) (now : Int) (s : EnvelopeStore) :
    Except RenewError SignedEnvelope → EnvelopeStore
  | .error _ => s
  | .ok fresh =>
    match storageKeys P fresh with
    | .error _ => s
    -- a publish nobody accepted leaves the local copy behind too
    | .ok keys => if !published fresh then s else putAll P s keys fresh now

/-- One round of `renewOnce`. `published` tells whether a publish finds any
peer that accepts. -/
def renewEntry (keychain : List Crypto.Keypair) (published : SignedEnvelope → Bool) (now : Int)
    (sc : Scan) (ent : Bytes × SignedEnvelope) : Scan :=
  -- a tombstone is skipped before its name is marked as seen
  if ent.2.isRevoked then sc
  -- the signer is looked up, not the owner
  else match ownerKey P keychain ent.2.signer with
    | none => sc
    | some kp =>
      if (ent.2.signer, ent.2.record.name) ∈ sc.seen then sc
      -- marked as seen although nothing is signed: one judgement a tick
      else if !shouldRenew now (int64 ent.2.record.created) (int64 ent.2.record.expires) then
        { sc with seen := (ent.2.signer, ent.2.record.name) :: sc.seen }
      else
        { store := settle P published now sc.store (renewEnvelope P ent.2 kp now)
          seen := (ent.2.signer, ent.2.record.name) :: sc.seen
          attempts := sc.attempts ++ [⟨ent.1, ent.2, renewEnvelope P ent.2 kp now, sc.store⟩] }

/-- One pass over a snapshot of the live entries. -/
def renewOnce (keychain : List Crypto.Keypair) (published : SignedEnvelope → Bool)
    (s : EnvelopeStore) (now : Int) : Scan :=
  (entriesAt s now).foldl (renewEntry P keychain published now)
    { store := s, seen := [], attempts := [] }

/-- What one tick reads: clock, keychain, network. -/
structure Tick where
  now : Int
  keychain : List Crypto.Keypair
  published : SignedEnvelope → Bool

/-- The store after a tick. -/
def tickStep (s : EnvelopeStore) (tick : Tick) : EnvelopeStore :=
  (renewOnce P tick.keychain tick.published s tick.now).store

/-- What the scan re-signs on first sight: not revoked, of the keychain, and due. -/
def renewable (keychain : List Crypto.Keypair) (now : Int) (env : SignedEnvelope) : Bool :=
  !env.isRevoked && (ownerKey P keychain env.signer).isSome &&
    shouldRenew now (int64 env.record.created) (int64 env.record.expires)

end

/-! ## Safety of a tick -/

/-- `k` serves `env`, alive at `now`. -/
def LiveAt (s : EnvelopeStore) (now : Int) (k : Bytes) (env : SignedEnvelope) : Prop :=
  Holds s k env ∧ alive env now = true

/-- **A safe tick** signs no record of a name whose highest record is a revocation, and no
successor while another key holds a higher sequence. -/
structure TickSafe (P : Primitives) (s : EnvelopeStore) (tick : Tick) : Prop where
  revocation : ∀ a ∈ (renewOnce P tick.keychain tick.published s tick.now).attempts,
    ∀ fresh, a.result = .ok fresh → ∀ k r, LiveAt s tick.now k r → r.isRevoked = true →
      r.record.name = fresh.record.name →
      ∃ k' e, LiveAt s tick.now k' e ∧ e.record.name = r.record.name ∧
        r.record.sequence < e.record.sequence
  generation : ∀ a ∈ (renewOnce P tick.keychain tick.published s tick.now).attempts,
    ∀ fresh, a.result = .ok fresh → ∀ k e, LiveAt a.store tick.now k e → k ≠ a.key →
      e.record.name = a.prev.record.name → e.record.sequence ≤ a.prev.record.sequence

/-- **The condition on the store**: no renewable entry is behind another live one of its
name or level with a revocation, and two have one signer. -/
def Settled (P : Primitives) (s : EnvelopeStore) (tick : Tick) : Prop :=
  ∀ k₁ e₁ k₂ e₂, LiveAt s tick.now k₁ e₁ → LiveAt s tick.now k₂ e₂ → k₁ ≠ k₂ →
    renewable P tick.keychain tick.now e₁ = true → e₂.record.name = e₁.record.name →
    e₂.record.sequence ≤ e₁.record.sequence ∧
      (e₂.isRevoked = true → e₂.record.sequence < e₁.record.sequence) ∧
      (renewable P tick.keychain tick.now e₂ = true → e₂.signer = e₁.signer)

variable {P : Primitives}
  {s : EnvelopeStore} {k : Bytes} {now : Int} {e : SignedEnvelope} {tick : Tick}
  {env : SignedEnvelope} {ent : Bytes × SignedEnvelope} {sc : Scan}

theorem mem_entriesAt_iff : (k, env) ∈ entriesAt s now ↔ LiveAt s now k env := by
  unfold entriesAt LiveAt Holds
  rw [List.mem_insertionSort, List.mem_map]
  constructor
  · intro h
    obtain ⟨⟨k', e⟩, hsel, heq⟩ := h
    rw [Prod.mk.injEq] at heq
    obtain ⟨hk, henv⟩ := heq
    obtain ⟨hlookup, halive⟩ := Table.mem_select.mp hsel
    subst hk henv
    exact ⟨by rw [hlookup]; rfl, halive⟩
  · intro h
    obtain ⟨e, hlookup, henv⟩ := Option.map_eq_some_iff.mp h.1
    exact ⟨(k, e), Table.mem_select.mpr ⟨hlookup, by rw [henv]; exact h.2⟩, by simp [henv]⟩

theorem LiveAt.unique {e' : SignedEnvelope} (h : LiveAt s now k e)
    (h' : LiveAt s now k e') : e = e' := by
  have := h.1.symm.trans h'.1
  rwa [Option.some.injEq] at this

theorem holds_putAll {keys : List Bytes}
    (h : Holds (putAll P s keys env now) k e) : Holds s k e ∨ e = env := by
  induction keys generalizing s with
  | nil => exact .inl h
  | cons key keys ih =>
    rcases ih h with hold | hnew
    · rcases holds_putWithEvidence hold with hold | ⟨_, he, _⟩
      · exact .inl hold
      · exact .inr he
    · exact .inr hnew

theorem holds_settle {published : SignedEnvelope → Bool} {result : Except RenewError SignedEnvelope}
    (h : Holds (settle P published now s result) k e) : Holds s k e ∨ result = .ok e := by
  cases result with
  | error err => exact .inl h
  | ok fresh =>
    unfold settle at h
    simp only at h
    split at h
    next => exact .inl h
    next keys _ =>
      split at h
      next => exact .inl h
      rcases holds_putAll h with hold | hnew
      · exact .inl hold
      · exact .inr (by rw [hnew])

/-- **A round leaves the attempts or re-signs a renewable entry** of a new identity. -/
theorem renewEntry_cases {keychain : List Crypto.Keypair} {published : SignedEnvelope → Bool}
    {now : Int} (sc : Scan) (ent : Bytes × SignedEnvelope) :
    ((renewEntry P keychain published now sc ent).attempts = sc.attempts ∧
      (renewEntry P keychain published now sc ent).store = sc.store ∧
      sc.seen ⊆ (renewEntry P keychain published now sc ent).seen) ∨
    (renewable P keychain now ent.2 = true ∧ (ent.2.signer, ent.2.record.name) ∉ sc.seen ∧
      ∃ kp, ownerKey P keychain ent.2.signer = some kp ∧
        renewEntry P keychain published now sc ent =
          { store := settle P published now sc.store (renewEnvelope P ent.2 kp now)
            seen := (ent.2.signer, ent.2.record.name) :: sc.seen
            attempts := sc.attempts ++
              [⟨ent.1, ent.2, renewEnvelope P ent.2 kp now, sc.store⟩] }) := by
  unfold renewEntry
  by_cases hrevoked : ent.2.isRevoked = true
  · rw [if_pos hrevoked]
    exact .inl ⟨rfl, rfl, fun _ h => h⟩
  · rw [if_neg hrevoked]
    cases hmine : ownerKey P keychain ent.2.signer with
    | none => exact .inl ⟨rfl, rfl, fun _ h => h⟩
    | some kp =>
      simp only
      by_cases hseen : (ent.2.signer, ent.2.record.name) ∈ sc.seen
      · rw [if_pos hseen]
        exact .inl ⟨rfl, rfl, fun _ h => h⟩
      · rw [if_neg hseen]
        by_cases hdue : shouldRenew now (int64 ent.2.record.created)
            (int64 ent.2.record.expires) = true
        · rw [if_neg (by simp [hdue])]
          refine .inr ⟨?_, hseen, kp, rfl, rfl⟩
          simp [renewable, Bool.eq_false_iff.mpr hrevoked, hmine, hdue]
        · rw [if_pos (by simp [hdue])]
          exact .inl ⟨rfl, rfl, fun _ h => List.mem_cons_of_mem _ h⟩

/-! ## The scan, round by round -/

/-- An attempt is on a live record of the keychain's. -/
def Attempt.Sound (P : Primitives) (s : EnvelopeStore) (tick : Tick) (a : Attempt) : Prop :=
  LiveAt s tick.now a.key a.prev ∧ renewable P tick.keychain tick.now a.prev = true ∧
    ∃ kp, a.result = renewEnvelope P a.prev kp tick.now

theorem attempts_sound (P : Primitives) (s : EnvelopeStore) (tick : Tick) :
    ∀ a ∈ (renewOnce P tick.keychain tick.published s tick.now).attempts, a.Sound P s tick := by
  have hlive : ∀ ent ∈ entriesAt s tick.now, ∀ _ : Scan, LiveAt s tick.now ent.1 ent.2 :=
    fun ent hent _ => mem_entriesAt_iff.mp hent
  refine @EachStep.invariant _ _ _ _ (fun sc : Scan => ∀ a ∈ sc.attempts, a.Sound P s tick) ?_ _ _
    (by simp) (EachStep.of_forall_mem hlive)
  intro sc ent hsc hent a ha
  rcases @renewEntry_cases P tick.keychain tick.published tick.now sc ent with
    ⟨hattempts, _, _⟩ | ⟨hrenew, _, kp, _, heq⟩
  · rw [hattempts] at ha
    exact hsc a ha
  · rw [heq] at ha
    rcases List.mem_append.mp ha with hold | hlast
    · exact hsc a hold
    · rw [List.mem_singleton.mp hlast]
      exact ⟨hent, hrenew, kp, rfl⟩

/-- **The invariant of a scan**: what is live was live or renews a handled name, and no
attempt was behind another key. -/
structure ScanInv (P : Primitives) (s : EnvelopeStore) (tick : Tick) (sc : Scan) : Prop where
  stored : ∀ k e, LiveAt sc.store tick.now k e → LiveAt s tick.now k e ∨
    ∃ kc c, LiveAt s tick.now kc c ∧ renewable P tick.keychain tick.now c = true ∧
      (c.signer, c.record.name) ∈ sc.seen ∧ e.record.name = c.record.name
  leading : ∀ a ∈ sc.attempts, ∀ k e, LiveAt a.store tick.now k e → k ≠ a.key →
    e.record.name = a.prev.record.name → e.record.sequence ≤ a.prev.record.sequence

section
variable (hset : Settled P s tick) (h : ScanInv P s tick sc) (hent : LiveAt s tick.now ent.1 ent.2)
include hset h hent

theorem ScanInv.not_ahead (hrenew : renewable P tick.keychain tick.now ent.2 = true)
    (hnew : (ent.2.signer, ent.2.record.name) ∉ sc.seen) (he : LiveAt sc.store tick.now k e)
    (hk : k ≠ ent.1) (hname : e.record.name = ent.2.record.name) :
    e.record.sequence ≤ ent.2.record.sequence := by
  rcases h.stored k e he with hold | ⟨kc, c, hc, hcr, hseen, hcname⟩
  · exact (hset ent.1 ent.2 k e hent hold (fun heq => hk heq.symm) hrenew hname).1
  · -- a renewal of this name was made under the same signer: the identity is not new
    exfalso
    have hsame : c.record.name = ent.2.record.name := hcname.symm.trans hname
    have hsigner : c.signer = ent.2.signer := by
      by_cases hkc : ent.1 = kc
      · subst hkc
        rw [hc.unique hent]
      · exact (hset ent.1 ent.2 kc c hent hc hkc hrenew hsame).2.2 hcr
    rw [hsame, hsigner] at hseen
    exact hnew hseen

theorem ScanInv.renewEntry :
    ScanInv P s tick (renewEntry P tick.keychain tick.published tick.now sc ent) := by
  rcases @renewEntry_cases P tick.keychain tick.published tick.now sc ent with
    ⟨hattempts, hstore, hseen⟩ | ⟨hrenew, hnew, kp, _, heq⟩
  · refine ⟨?_, ?_⟩
    · intro k e he
      rw [hstore] at he
      rcases h.stored k e he with hold | ⟨kc, c, hc, hcr, hmem, hname⟩
      · exact .inl hold
      · exact .inr ⟨kc, c, hc, hcr, hseen hmem, hname⟩
    · rw [hattempts]
      exact h.leading
  · rw [heq]
    refine ⟨?_, ?_⟩
    · intro k e he
      rcases holds_settle he.1 with hold | hresult
      · rcases h.stored k e ⟨hold, he.2⟩ with hold | ⟨kc, c, hc, hcr, hmem, hname⟩
        · exact .inl hold
        · exact .inr ⟨kc, c, hc, hcr, List.mem_cons_of_mem _ hmem, hname⟩
      · exact .inr ⟨ent.1, ent.2, hent, hrenew, List.mem_cons_self,
          (renewed_of_renewEnvelope hresult).name⟩
    · intro a ha
      rcases List.mem_append.mp ha with hold | hlast
      · exact h.leading a hold
      · rw [List.mem_singleton.mp hlast]
        intro k e he hk hname
        exact h.not_ahead hset hent hrenew hnew he hk hname

end

theorem scanInv_renewOnce (hset : Settled P s tick) :
    ScanInv P s tick (renewOnce P tick.keychain tick.published s tick.now) := by
  have hinit : ScanInv P s tick { store := s, seen := [], attempts := [] } :=
    ⟨fun _ _ he => .inl he, by simp⟩
  have hlive : ∀ ent ∈ entriesAt s tick.now, ∀ _ : Scan, LiveAt s tick.now ent.1 ent.2 :=
    fun ent hent _ => mem_entriesAt_iff.mp hent
  exact EachStep.invariant (fun sc ent hsc hent => hsc.renewEntry hset hent) hinit
    (EachStep.of_forall_mem hlive)

theorem tickSafe_of_settled (hset : Settled P s tick) : TickSafe P s tick := by
  refine ⟨?_, ?_⟩
  · intro a ha fresh hfresh k r hr hrevoked hname
    obtain ⟨hlive, hrenew, kp, hresult⟩ := attempts_sound P s tick a ha
    have hrenewed := renewed_of_renewEnvelope (hresult.symm.trans hfresh)
    rw [hrenewed.name] at hname
    -- the renewed entry is not revoked, so the revocation is under another key
    have hkey : a.key ≠ k := by
      intro heq
      subst heq
      rw [← hr.unique hlive] at hrenew
      simp [renewable, hrevoked] at hrenew
    have hahead := (hset a.key a.prev k r hlive hr hkey hrenew hname).2.1 hrevoked
    exact ⟨a.key, a.prev, hlive, hname.symm, hahead⟩
  · intro a ha fresh _ k e he hk hname
    exact (scanInv_renewOnce hset).leading a ha k e he hk hname

/-- **Ticks respect generations.** In every run of ticks whose store is settled before each,
every tick is safe. -/
theorem ticks_respect_generations (P : Primitives) (s : EnvelopeStore) (ticks : List Tick)
    (hrun : EachStep (tickStep P) (Settled P) s ticks) (i : Nat) (tick : Tick)
    (htick : ticks[i]? = some tick) :
    TickSafe P ((ticks.take i).foldl (tickStep P) s) tick :=
  tickSafe_of_settled (hrun.at htick)

namespace Sample

def zz : Bytes := [0x7a, 0x7a]

def claimed : SignedEnvelope :=
  Toy.signedBy 1 { Toy.tldRecord 1 1 1 100 86500 with claim := Toy.claim 1 zz }

def tombstone : SignedEnvelope :=
  Toy.signedBy 1 { Toy.tldRecord 1 1 2 200 86600 with revoke := some true }

def revokedStore : EnvelopeStore :=
  storeLocally Toy.primitives (storeLocally Toy.primitives (newEnvelopeStore 0) claimed 100)
    tombstone 200

def claimedStore : EnvelopeStore :=
  storeLocally Toy.primitives (newEnvelopeStore 0) claimed 100

def lateTick : Tick :=
  { now := 80000, keychain := [Toy.keypair 1], published := fun _ => true }

end Sample

theorem ticks_respect_generations_claimed :
    TickSafe Toy.primitives Sample.claimedStore Sample.lateTick := by
  have hsettled : Settled Toy.primitives Sample.claimedStore Sample.lateTick := by
    intro k₁ e₁ k₂ e₂ h₁ h₂ _ _ _
    have hall : ∀ x ∈ entriesAt Sample.claimedStore Sample.lateTick.now, x.2 = Sample.claimed := by
      decide +kernel
    have hone : e₁ = Sample.claimed := hall _ (mem_entriesAt_iff.mpr h₁)
    have htwo : e₂ = Sample.claimed := hall _ (mem_entriesAt_iff.mpr h₂)
    rw [hone, htwo]
    exact ⟨UInt64.le_refl _, fun hrevoked => absurd hrevoked (by decide +kernel), fun _ => rfl⟩
  have hsafe := ticks_respect_generations Toy.primitives Sample.claimedStore [Sample.lateTick]
    ⟨hsettled, trivial⟩ 0 Sample.lateTick rfl
  rwa [List.take_zero, List.foldl_nil] at hsafe

/-- **A revoked name is renewed.** The tombstone goes under K_tld only; the next tick
re-signs the entry under K_claim. -/
theorem revoked_name_renewed :
    revokedEnvelope Toy.primitives (Toy.tldName 1) (Toy.keypair 1) 2 200 = .ok Sample.tombstone ∧
    (∃ k, (k, Sample.tombstone) ∈ entriesAt Sample.revokedStore Sample.lateTick.now) ∧
    (∀ x ∈ entriesAt Sample.revokedStore Sample.lateTick.now,
      x.2.record.sequence ≤ Sample.tombstone.record.sequence) ∧
    ∃ a ∈ (renewOnce Toy.primitives Sample.lateTick.keychain Sample.lateTick.published
        Sample.revokedStore Sample.lateTick.now).attempts,
      ∃ fresh, a.result = .ok fresh ∧ fresh.isRevoked = false ∧
        fresh.record.name = Sample.tombstone.record.name ∧
        a.prev.record.sequence < Sample.tombstone.record.sequence := by
  refine ⟨by decide +kernel, ?_, by decide +kernel, ?_⟩
  · have hany : (entriesAt Sample.revokedStore Sample.lateTick.now).any
        (fun x => x.2 = Sample.tombstone) = true := by decide +kernel
    obtain ⟨⟨k, e⟩, hmem, he⟩ := List.any_eq_true.mp hany
    exact ⟨k, of_decide_eq_true he ▸ hmem⟩
  · have hany : (renewOnce Toy.primitives Sample.lateTick.keychain Sample.lateTick.published
        Sample.revokedStore Sample.lateTick.now).attempts.any (fun a => match a.result with
          | .ok fresh => !fresh.isRevoked && fresh.record.name = Sample.tombstone.record.name
              && a.prev.record.sequence < Sample.tombstone.record.sequence
          | .error _ => false) = true := by decide +kernel
    obtain ⟨a, hmem, ha⟩ := List.any_eq_true.mp hany
    split at ha
    next fresh hfresh =>
      simp only [Bool.and_eq_true, Bool.not_eq_true', decide_eq_true_eq] at ha
      exact ⟨a, hmem, fresh, hfresh, ha.1.1, ha.1.2, ha.2⟩
    next => cases ha

end Freens.Renewal
