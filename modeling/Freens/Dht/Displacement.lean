/-
**WHO MAY TAKE A LIVE SLOT.** The store judges a newcomer by the incumbent's
owner, whether or not that owner has any right to the name.
-/
import Freens.Dht.StoreSpec
import Freens.Wire.Lineage

namespace Freens.Dht

open Library Naming Wire

variable {P : Primitives}

/-! ## Displacement -/

variable {s : EnvelopeStore} {evidence : Bytes} {verify : Bool} {now : Int}
  {env : SignedEnvelope} {key k : Bytes} {t : Int}

theorem putWithEvidence_refused
    (h : (putWithEvidence P s key env now verify evidence).1 ≠ .ok true) :
    (putWithEvidence P s key env now verify evidence).2 = s := by
  unfold putWithEvidence at h ⊢
  split
  next => rfl
  next hkey =>
    rw [if_neg hkey] at h
    split
    next => rfl
    next hsig =>
      rw [if_neg hsig] at h
      cases hv : judge P s key env now evidence with
      | refuse => rfl
      | refresh | install => rw [hv] at h; exact absurd rfl h

theorem state_of_refused {s₁ : EnvelopeStore}
    (h : putWithEvidence P s key env now verify evidence = (.ok false, s₁)) : s₁ = s := by
  have hne : (putWithEvidence P s key env now verify evidence).1 ≠ .ok true := by
    rw [h]
    simp
  have hsame := putWithEvidence_refused hne
  rwa [h] at hsame

theorem judge_of_displaced {cur : Entry} (hcur : s.entries.lookup key = some cur)
    (h : ((putWithEvidence P s key env now verify evidence).2.entries.lookup key).map Entry.env
      ≠ some cur.env) : judge P s key env now evidence = .install := by
  have hsame : (s.entries.lookup key).map Entry.env = some cur.env := by rw [hcur]; rfl
  unfold putWithEvidence at h
  split at h
  next => exact absurd hsame h
  split at h
  next => exact absurd hsame h
  cases hv : judge P s key env now evidence with
  | refuse => rw [hv] at h; exact absurd hsame h
  | refresh =>
    rw [hv] at h
    exact absurd ((touch_lookup_env s key key now).trans hsame) h
  | install => rfl

/-- **Displacement is authorised.** What takes a live incumbent's slot outranks it and is
its owner's, or a quorum-declared recovery of it, or unlinked and named by the live parent.
A refused put changes nothing. -/
theorem displacement_authorized (P : Primitives) (s : EnvelopeStore) (k : Bytes)
    (env : SignedEnvelope) (now : Int) (evidence : Bytes) :
    (∀ cur, s.entries.lookup k = some cur → alive cur.env now = true →
      ((putWithEvidence P s k env now true evidence).2.entries.lookup k).map Entry.env
        ≠ some cur.env →
      Outranks P env cur.env ∧
      (env.signer = cur.env.record.owner ∨
        (env.record.prevHashBytes = cur.env.recordHash P ∧ env.signer = env.record.owner ∧
          ∃ ev policy, ev.newOwnerPK = env.record.owner ∧
            cur.env.record.recovery = some policy ∧
            Quorum P policy ev (cur.env.recordHash P)) ∨
        (env.record.hasPrevHash = false ∧
          ParentNames P s cur.env.record.name env.signer now))) ∧
    ((putWithEvidence P s k env now true evidence).1 ≠ .ok true →
      (putWithEvidence P s k env now true evidence).2 = s) := by
  refine ⟨?_, putWithEvidence_refused⟩
  intro cur hcur halive hdisplaced
  have hinstall := judge_of_displaced hcur hdisplaced
  rw [judge_of_alive hcur halive, judgeIncumbent_install_iff] at hinstall
  obtain ⟨_, hwins, hpath⟩ := hinstall
  refine ⟨envelopeWins_iff.mp hwins, ?_⟩
  rcases hpath with ⟨hlink, _, howner | hrecovery⟩ | ⟨hnone, howner | hparent⟩
  · exact .inl howner
  · obtain ⟨_, ev, _, hself, hdeclares⟩ := recoveryAcceptable_iff.mp hrecovery
    obtain ⟨policy, hpolicy, _, hquorum, _⟩ := hdeclares.quorum
    exact .inr (.inl ⟨hlink, hself, ev, policy, hdeclares.names, hpolicy, hquorum⟩)
  · exact .inl howner
  · exact .inr (.inr ⟨hnone, parentAuthorizes_iff.mp hparent⟩)

namespace Sample

def tld : Bytes := Toy.checksum (Toy.publicKey 1)

def entry (env : SignedEnvelope) : Entry :=
  { env, size := env.bytes.length, lastAccess := 100 }

def holding (env : SignedEnvelope) : EnvelopeStore :=
  (put Toy.primitives (newEnvelopeStore 0) tld env 100 true).2

def first : SignedEnvelope := Toy.signedBy 1 (Toy.tldRecord 1 1 1 100 900)

def update : SignedEnvelope := Toy.signedBy 1 (Toy.tldRecord 1 1 2 100 900)

end Sample

theorem displacement_authorized_update :
    Outranks Toy.primitives Sample.update Sample.first ∧
      Sample.update.signer = Sample.first.record.owner :=
  ⟨((displacement_authorized Toy.primitives (Sample.holding Sample.first) Sample.tld
    Sample.update 150 []).1 (Sample.entry Sample.first) (by decide +kernel) (by decide +kernel)
    (by decide +kernel)).1, rfl⟩

/-! ## The key holder against a squatter -/

/-- **When the key holder gets its slot** from a live incumbent that does not self-certify:
it outranks it, and the incumbent's owner field or a recovery lets it in. -/
theorem keyHolder_accepted_iff (P : Primitives) (s : EnvelopeStore) (T : Bytes)
    (env : SignedEnvelope) (cur : Entry) (now : Int) (evidence : Bytes)
    (hroot : selfCertifiedTldRoot P env = true) (hname : env.record.name = wireImage [] T)
    (hsig : env.verifySignature P = true) (hcur : s.entries.lookup T = some cur)
    (halive : alive cur.env now = true) (hsame : cur.env.record.name = env.record.name)
    (hsquat : selfCertifiedTldRoot P cur.env = false)
    (hcoll : env.recordHash P = cur.env.recordHash P → env = cur.env) :
    (putWithEvidence P s T env now true evidence).1 = .ok true ↔
      Outranks P env cur.env ∧
      ((env.record.hasPrevHash = false ∧ env.record.owner = cur.env.record.owner) ∨
        (env.record.prevHashBytes = cur.env.recordHash P ∧
          cur.env.record.sequence < env.record.sequence ∧
          (env.record.owner = cur.env.record.owner ∨
            recoveryAcceptable P s env cur.env evidence = true))) := by
  have hT := tldID_of_selfCertified hroot hname
  have hlen : T.length = 32 := by rw [hT]; exact P.sha256_length _
  -- the incumbent is another envelope, so its hash is another one
  have hne : env.recordHash P ≠ cur.env.recordHash P := by
    intro heq
    rw [← hcoll heq, hroot] at hsquat
    cases hsquat
  -- a root has no parent record that could let the newcomer in
  have hdecode : decodeWireName cur.env.record.name = .ok ([], T) := by
    rw [hsame, hname, decodeWireName_eq_ok_iff]
    exact ⟨rfl, ⟨by simp, by simp, hlen⟩⟩
  have hparent := @parentAuthorizes_root P s env cur.env now T hdecode
  rw [putWithEvidence_accepted_iff hlen (fun _ => hsig), judge_of_alive hcur halive,
    judgeIncumbent_ne_refuse_iff hne, judgeIncumbent_install_iff, hparent,
    (selfCertifiedTldRoot_iff.mp hroot).1, envelopeWins_iff]
  constructor
  · intro h
    obtain ⟨_, hwins, hlink | ⟨hnone, howner⟩⟩ := h
    · exact ⟨hwins, .inr hlink⟩
    · exact ⟨hwins, .inl ⟨hnone, howner.resolve_right (by simp)⟩⟩
  · intro h
    obtain ⟨hwins, ⟨hnone, howner⟩ | hlink⟩ := h
    · exact ⟨hne, hwins, .inr ⟨hnone, .inl howner⟩⟩
    · exact ⟨hne, hwins, .inl hlink⟩

namespace Sample

def squatter : SignedEnvelope := Toy.signedBy 2 (Toy.tldRecord 1 2 5 100 900)

def holder : SignedEnvelope := Toy.signedBy 1 (Toy.tldRecord 1 1 1 120 900)

/-- A record of the TLD of key 1 owned by key 1 but signed by key 2. -/
def planted : SignedEnvelope := Toy.signedBy 2 (Toy.tldRecord 1 1 1 100 900)

end Sample

theorem keyHolder_accepted_over_planted :
    (putWithEvidence Toy.primitives (Sample.holding Sample.planted) Sample.tld Sample.update 150
      true []).1 = .ok true :=
  (keyHolder_accepted_iff Toy.primitives (Sample.holding Sample.planted) Sample.tld Sample.update
    (Sample.entry Sample.planted) 150 [] (by decide +kernel) rfl (by decide +kernel)
    (by decide +kernel) (by decide +kernel) rfl (by decide +kernel) (by decide +kernel)).mpr
    ⟨.inl (by decide), .inl ⟨rfl, rfl⟩⟩

/-- **Lock-out.** A squatter's unlinked record of a greater sequence keeps the holder of the
TLD key out. -/
theorem keyHolder_locked_out :
    selfCertifiedTldRoot Toy.primitives Sample.holder = true ∧
    Sample.holder.record.name = wireImage [] Sample.tld ∧
    Sample.holder.verifySignature Toy.primitives = true ∧
    (150 : Int) < int64 Sample.holder.record.expires ∧
    (Sample.holding Sample.squatter).entries.lookup Sample.tld
      = some (Sample.entry Sample.squatter) ∧
    alive Sample.squatter 150 = true ∧
    Sample.squatter.record.name = Sample.holder.record.name ∧
    selfCertifiedTldRoot Toy.primitives Sample.squatter = false ∧
    Sample.squatter.record.hasPrevHash = false ∧
    (putWithEvidence Toy.primitives (Sample.holding Sample.squatter) Sample.tld Sample.holder 150
      true []).1 = .ok false := by
  refine ⟨?_, rfl, ?_, ?_, ?_, ?_, rfl, ?_, rfl, ?_⟩ <;> decide +kernel

/-! ## Cancelling a recovery -/

theorem alive_of_le {e : SignedEnvelope} {t' : Int} (h : t ≤ t') (halive : alive e t' = true) :
    alive e t = true := by
  unfold alive at *
  rw [decide_eq_true_eq] at *
  omega

theorem slot_after_recovery {inc : Entry} {R : SignedEnvelope}
    (hinc : s.entries.lookup k = some inc) (halive : alive inc.env now = true)
    (hne : R.recordHash P ≠ inc.env.recordHash P)
    (hacc : (putWithEvidence P s k R now verify evidence).1 = .ok true) :
    ((putWithEvidence P s k R now verify evidence).2.entries.lookup k).map Entry.env =
      if alive R now then some R else none := by
  unfold putWithEvidence at hacc ⊢
  split at hacc
  next => cases hacc
  next hkey =>
    split at hacc
    next => cases hacc
    next hsig =>
      rw [if_neg hkey, if_neg hsig]
      rw [judge_of_alive hinc halive] at hacc ⊢
      cases hv : judgeIncumbent P s inc.env R now evidence with
      | refuse => rw [hv] at hacc; exact absurd hacc (by simp [enact])
      | refresh => exact absurd (judgeIncumbent_refresh_iff.mp hv) hne
      | install =>
        show ((install P s k R now).entries.lookup k).map Entry.env = _
        rw [install_lookup_self]
        split <;> rfl

theorem installed_iff {C : SignedEnvelope} (hkey : k.length = 32)
    (hsig : verify = true → C.verifySignature P = true)
    (hnew : judge P s k C t evidence = .refresh → (s.entries.lookup k).map Entry.env ≠ some C) :
    ((putWithEvidence P s k C t verify evidence).1 = .ok true ∧
        (get P (putWithEvidence P s k C t verify evidence).2 k t).1 = .ok (some C)) ↔
      alive C t = true ∧ judge P s k C t evidence = .install := by
  rw [get_eq_ok_some_iff hkey, putWithEvidence_eq hkey hsig]
  cases hv : judge P s k C t evidence with
  | refuse => simp [enact]
  | refresh =>
    simp only [enact, true_and, reduceCtorEq, and_false, iff_false, not_exists, not_and]
    intro e he henv _
    have hslot := touch_lookup_env s k k t
    rw [he, Option.map_some, henv] at hslot
    exact hnew hv hslot.symm
  | install =>
    simp only [enact, true_and, and_true, install_lookup_self]
    constructor
    · intro h
      obtain ⟨e, _, _, halive⟩ := h
      exact halive
    · intro halive
      rw [if_pos halive]
      exact ⟨_, rfl, rfl, halive⟩

/-- **When a recovery can be cancelled.** The old owner's `C` of a greater sequence is
accepted over `R` exactly when `C` is alive and `R` is not, or `C` passes the rules against
`R`. -/
theorem cancellation_iff (P : Primitives) (s s' : EnvelopeStore) (k : Bytes) (inc : Entry)
    (R C : SignedEnvelope) (t₀ t : Int) (verify : Bool) (evidence evidence' : Bytes)
    (hkey : k.length = 32) (hinc : s.entries.lookup k = some inc)
    (halive : alive inc.env t₀ = true)
    (hacc : (putWithEvidence P s k R t₀ verify evidence).1 = .ok true)
    (hslot : (s'.entries.lookup k).map Entry.env =
      ((putWithEvidence P s k R t₀ verify evidence).2.entries.lookup k).map Entry.env)
    (htime : t₀ ≤ t) (hsig : C.verifySignature P = true)
    (hseq : R.record.sequence < C.record.sequence)
    (hcollR : R.recordHash P ≠ inc.env.recordHash P)
    (hcollC : C.recordHash P ≠ R.recordHash P) :
    ((putWithEvidence P s' k C t verify evidence').1 = .ok true ∧
        (get P (putWithEvidence P s' k C t verify evidence').2 k t).1 = .ok (some C)) ↔
      alive C t = true ∧
      (alive R t = false ∨
        (C.record.hasPrevHash = false ∧
          (C.signer = R.record.owner ∨ parentAuthorizes P s' C R t = true)) ∨
        (C.record.prevHashBytes = R.recordHash P ∧
          (C.signer = R.record.owner ∨ recoveryAcceptable P s' C R evidence' = true))) := by
  rw [slot_after_recovery hinc halive hcollR hacc] at hslot
  have hwins : envelopeWins P C R = true := envelopeWins_iff.mpr (.inl hseq)
  -- the slot holds no `C` yet, so a refresh would not return it
  have hnew : (s'.entries.lookup k).map Entry.env ≠ some C := by
    rw [hslot]
    split
    next =>
      intro heq
      injection heq with heq
      exact hcollC (by rw [heq])
    next => simp
  rw [installed_iff hkey (fun _ => hsig) (fun _ => hnew)]
  refine and_congr_right (fun _ => ?_)
  by_cases hR : alive R t = true
  · -- `R` is the live incumbent: rule 3 decides
    rw [if_pos (alive_of_le htime hR), Option.map_eq_some_iff] at hslot
    obtain ⟨cur, hcur, hcurR⟩ := hslot
    rw [judge_of_alive hcur (hcurR ▸ hR), hcurR, judgeIncumbent_install_iff]
    simp only [hR, Bool.true_eq_false, false_or, hwins, hseq, true_and, ne_eq, hcollC,
      not_false_eq_true]
    exact or_comm
  · -- `R` is dead or gone: the slot is empty
    have hempty : ∀ cur, s'.entries.lookup k = some cur → alive cur.env t = false := by
      intro cur hcur
      rw [hcur, Option.map_some] at hslot
      split at hslot
      next =>
        rw [Option.some.injEq] at hslot
        rw [hslot]
        exact Bool.eq_false_iff.mpr hR
      next => cases hslot
    rw [judge_of_empty hempty]
    simp [Bool.eq_false_iff.mpr hR]

namespace Sample

def recoverable : SignedEnvelope :=
  Toy.signedBy 1 { Toy.tldRecord 1 1 1 100 9000 with
    recovery := some { threshold := 1, keys := [Toy.publicKey 3], timelock := 500 } }

def declared : RecoveryEvidence :=
  { newOwnerPK := Toy.publicKey 2
    signatures := [(Toy.keypair 3).sign Toy.primitives
      (declaration (recoverable.recordHash Toy.primitives) (Toy.publicKey 2) 1000)]
    notBefore := 1000 }

def recovered (n : UInt8) : SignedEnvelope :=
  Toy.signedBy n { Toy.tldRecord 1 n 2 200 9000 with
    prevHash := some (recoverable.recordHash Toy.primitives) }

/-- The recovery stored, its lock running. -/
def pending : EnvelopeStore :=
  (putWithEvidence Toy.primitives (holding recoverable) tld (recovered 2) 200 true
    declared.bytes).2

def cancel (prevHash : Option Bytes) : SignedEnvelope :=
  Toy.signedBy 1 { Toy.tldRecord 1 1 3 300 9000 with prevHash }

end Sample

/-- The same owner's next record stored. -/
def Sample.succeeded : EnvelopeStore :=
  (putWithEvidence Toy.primitives (Sample.holding Sample.recoverable) Sample.tld
    (Sample.recovered 1) 200 true []).2

theorem cancellation_of_own_successor :
    (putWithEvidence Toy.primitives Sample.succeeded Sample.tld (Sample.cancel none) 300 true
      []).1 = .ok true :=
  ((cancellation_iff Toy.primitives (Sample.holding Sample.recoverable) Sample.succeeded Sample.tld
    (Sample.entry Sample.recoverable) (Sample.recovered 1) (Sample.cancel none) 200 300 true [] []
    (by decide +kernel) (by decide +kernel) (by decide +kernel) (by decide +kernel)
    (by decide +kernel) (by decide) (by decide +kernel) (by decide) (by decide +kernel)
    (by decide +kernel)).mpr
    ⟨by decide +kernel, .inr (.inl ⟨by decide +kernel, .inl (by decide +kernel)⟩)⟩).1

/-- **No cancellation.** While the declaration waits for time 1000, the old owner's record
is refused, whichever link it carries. -/
theorem cancellation_refused :
    (Sample.holding Sample.recoverable).entries.lookup Sample.tld
      = some (Sample.entry Sample.recoverable) ∧
    alive Sample.recoverable 200 = true ∧
    (putWithEvidence Toy.primitives (Sample.holding Sample.recoverable) Sample.tld
      (Sample.recovered 2) 200 true Sample.declared.bytes).1 = .ok true ∧
    (300 : Int) < int64 Sample.declared.notBefore ∧
    ∀ prevHash ∈ [none, some (Sample.recoverable.recordHash Toy.primitives),
        some ((Sample.recovered 2).recordHash Toy.primitives)],
      (Sample.cancel prevHash).verifySignature Toy.primitives = true ∧
      (Sample.recovered 2).record.sequence < (Sample.cancel prevHash).record.sequence ∧
      alive (Sample.cancel prevHash) 300 = true ∧
      (putWithEvidence Toy.primitives Sample.pending Sample.tld (Sample.cancel prevHash) 300 true
        []).1 = .ok false := by
  refine ⟨?_, ?_, ?_, ?_, ?_⟩ <;> decide +kernel

end Freens.Dht
