/-
**THE AUDIT TRAIL OF A TLD** (`dht/store.go`: `PutWithEvidence`, `GetHistory`;
`dht/evidence.go`: `GetEvidence`; `wire/recovery_walk.go`).

Each put at a TLD key moves the record it replaces to the history, and a recovery
leaves its declaration in the evidence table: the lineage of the current record.
-/
import Freens.Dht.HandoffAgreement
import Freens.Dht.Retention

namespace Freens.Dht

open Library Naming Wire

/-! ## The calls -/

/-- A put at the store, with the retention of its evidence when it is kept. -/
structure PutCall where
  key : Bytes
  env : SignedEnvelope
  now : Int
  verifySignature : Bool
  evidence : Bytes

/-- A put with its evidence, or a read. -/
inductive AuditCall where
  | put (c : PutCall)
  | get (key : Bytes) (now : Int)

section
variable (P : Primitives)

/-- What `PutWithEvidence` returns. -/
def PutCall.outcome (c : PutCall) (s : EnvelopeStore) : Except StoreError Bool × EnvelopeStore :=
  putWithEvidence P s c.key c.env c.now c.verifySignature c.evidence

/-- The put is accepted. -/
def PutCall.Accepted (c : PutCall) (s : EnvelopeStore) : Prop := (c.outcome P s).1 = .ok true

instance (c : PutCall) (s : EnvelopeStore) : Decidable (c.Accepted P s) :=
  inferInstanceAs (Decidable ((c.outcome P s).1 = .ok true))

/-- A put as the RPC and the publisher do it: the evidence follows the record. -/
def putRetaining (s : EnvelopeStore) (c : PutCall) : EnvelopeStore :=
  if c.Accepted P s then retainEvidence P (c.outcome P s).2 c.env c.evidence
  else (c.outcome P s).2

/-- One call. -/
def auditStep (s : EnvelopeStore) : AuditCall → EnvelopeStore
  | .put c => putRetaining P s c
  | .get key now => (get P s key now).2

/-- The call leaves both side tables under their bounds. -/
def CallFits (s : EnvelopeStore) : AuditCall → Prop
  | .put c => c.Accepted P s →
    (judge P s c.key c.env c.now c.evidence = .install → InstallFits P s c.key c.env c.now) ∧
      (Carries P c.evidence →
        FitsEvidence (c.outcome P s).2 (c.env.recordHash P) c.evidence)
  | .get key now => ∀ e ∈ s.entries.lookup key, alive e.env now = false → FitsHistory P s e

instance (s : EnvelopeStore) (c : PutCall) : Decidable (CallFits P s (.put c)) :=
  inferInstanceAs (Decidable (_ → _ ∧ _))

/-- The evidence kept for a record, decoded. -/
def storedEvidence (s : EnvelopeStore) (recordHash : Bytes) : Option RecoveryEvidence :=
  (getEvidence s recordHash).bind (decodeRecoveryEvidence P)

end

variable {P : Primitives} {c : PutCall} {e a b : SignedEnvelope}

theorem putRetaining_of_refused {s : EnvelopeStore} (h : ¬ c.Accepted P s) :
    putRetaining P s c = s := by
  unfold putRetaining
  rw [if_neg h]
  exact putWithEvidence_refused h

/-- **The put RPC is such a put**, followed by reads of its slot if it is refused. -/
theorem hPut_eq_calls {s : EnvelopeStore} {gates : PutGates} {m : PutArgs} {now now' : Int}
    {put : Admitted} (hadmitted : admitPut P gates m = .ok put) :
    ∃ reads : List AuditCall, (∀ r ∈ reads, r = .get put.key now') ∧
      (hPut P s gates m now now').2 =
        (AuditCall.put ⟨put.key, put.env, now, false, m.evidence⟩ :: reads).foldl (auditStep P) s := by
  have hstep : ∀ res s₁, putWithEvidence P s put.key put.env now false m.evidence = (res, s₁) →
      putRetaining P s ⟨put.key, put.env, now, false, m.evidence⟩ =
        if res = .ok true then retainEvidence P s₁ put.env m.evidence else s₁ := by
    intro res s₁ hput
    have houtcome : PutCall.outcome P ⟨put.key, put.env, now, false, m.evidence⟩ s = (res, s₁) := hput
    unfold putRetaining
    by_cases hres : res = .ok true
    · have hacc : PutCall.Accepted P ⟨put.key, put.env, now, false, m.evidence⟩ s := by
        rw [PutCall.Accepted, houtcome, hres]
      rw [if_pos hacc, if_pos hres, houtcome]
    · have hacc : ¬ PutCall.Accepted P ⟨put.key, put.env, now, false, m.evidence⟩ s := by
        rw [PutCall.Accepted, houtcome]
        exact hres
      rw [if_neg hacc, if_neg hres, houtcome]
  unfold hPut
  rw [hadmitted]
  rcases hput : putWithEvidence P s put.key put.env now false m.evidence with ⟨res, s₁⟩
  simp only [hput]
  cases res with
  | error e =>
    refine ⟨[], by simp, ?_⟩
    show s₁ = putRetaining P s _
    rw [hstep _ _ hput, if_neg (by simp)]
  | ok accepted =>
    cases accepted with
    | true =>
      refine ⟨[], by simp, ?_⟩
      show retainEvidence P s₁ put.env m.evidence = putRetaining P s _
      rw [hstep _ _ hput, if_pos rfl]
    | false =>
      refine ⟨[.get put.key now'], by simp, ?_⟩
      have hs₁ : s₁ = s := state_of_refused hput
      subst hs₁
      show _ = (get P (putRetaining P s₁ _) put.key now').2
      rw [hstep _ _ hput, if_neg (by simp)]
      unfold replyPut
      -- a refused record is not the winner, so nothing is retained for it
      simp only [Bool.false_eq_true, if_false, not_winner_of_refused hput]
      split <;> rfl

/-! ## What a call leaves in the tables -/

theorem getHistory_congr {s s' : EnvelopeStore} (h : s'.history = s.history) (hash : Bytes) :
    getHistory s' hash = getHistory s hash := by
  unfold getHistory
  rw [h]

section
variable {s : EnvelopeStore}

theorem PutCall.outcome_eq (h : c.Accepted P s) :
    c.outcome P s = enact P s c.key c.env c.now (judge P s c.key c.env c.now c.evidence) :=
  putWithEvidence_eq (length_of_accepted h) (verified_of_accepted h)

theorem Remembers.put {c : PutCall} {env : SignedEnvelope}
    (hs : Remembers P s env) (hfits : CallFits P s (.put c)) (halone : Alone P s c.env env) :
    Remembers P (putRetaining P s c) env := by
  by_cases hacc : c.Accepted P s
  · unfold putRetaining Remembers
    rw [if_pos hacc, getHistory_congr (retainEvidence_history _ _ _), PutCall.outcome_eq hacc]
    cases hv : judge P s c.key c.env c.now c.evidence with
    | refuse => exact hs
    | refresh => exact (getHistory_touch s c.key c.now _).trans hs
    | install =>
      show Remembers P (Dht.install P s c.key c.env c.now) env
      exact hs.install ((hfits hacc).1 hv) halone
  · rw [putRetaining_of_refused hacc]
    exact hs

theorem Remembers.get {key : Bytes} {now : Int} {env : SignedEnvelope}
    (hs : Remembers P s env) (hfits : CallFits P s (.get key now))
    (hcoll : ∀ k e, Holds s k e → e.recordHash P = env.recordHash P → e = env) :
    Remembers P (get P s key now).2 env := by
  unfold Dht.get
  split
  next => exact hs
  cases hcur : s.entries.lookup key with
  | none => exact hs
  | some e =>
    dsimp only
    split
    next hdead =>
      rw [Bool.not_eq_true'] at hdead
      exact hs.retain (hfits e hcur hdead) (hcoll key e.env (holds_of_lookup hcur))
    next => exact (getHistory_touch s key now _).trans hs

theorem storedEvidence_put (hacc : c.Accepted P s)
    (hfits : CallFits P s (.put c)) (env : SignedEnvelope) :
    storedEvidence P (putRetaining P s c) (env.recordHash P) =
      if Carries P c.evidence ∧ env.recordHash P = c.env.recordHash P then
        decodeRecoveryEvidence P c.evidence
      else storedEvidence P s (env.recordHash P) := by
  have hlen : ¬ (env.recordHash P).length ≠ Constants.sha256Len :=
    not_not.mpr (recordHash_length env)
  have hbefore : (c.outcome P s).2.evidence = s.evidence := putWithEvidence_evidence _ _ _ _ _ _
  unfold storedEvidence getEvidence putRetaining
  rw [if_neg hlen, if_neg hlen, if_pos hacc]
  by_cases hcarries : Carries P c.evidence
  · rw [retainEvidence_of_fits hcarries ((hfits hacc).2 hcarries), hbefore]
    by_cases hsame : env.recordHash P = c.env.recordHash P
    · rw [if_pos hsame, if_pos ⟨hcarries, hsame⟩, Option.bind_some]
    · rw [if_neg hsame, if_neg (fun h => hsame h.2)]
  · rw [retainEvidence_of_not_carries hcarries, hbefore, if_neg (fun h => hcarries h.1)]

end

theorem storedEvidence_get (s : EnvelopeStore) (key : Bytes) (now : Int) :
    storedEvidence P (get P s key now).2 = storedEvidence P s := by
  funext hash
  unfold storedEvidence getEvidence
  rw [get_evidence]

theorem holds_putRetaining {s : EnvelopeStore} {k : Bytes}
    (h : Holds (putRetaining P s c) k e) : Holds s k e ∨ (k = c.key ∧ e = c.env) := by
  have hput : Holds (c.outcome P s).2 k e := by
    unfold putRetaining at h
    split at h
    next =>
      unfold Holds at h ⊢
      rwa [retainEvidence_entries] at h
    next => exact h
  rcases holds_putWithEvidence hput with hold | ⟨hk, he, _, _⟩
  · exact .inl hold
  · exact .inr ⟨hk, he⟩

theorem holds_of_accepted {s : EnvelopeStore} (hacc : c.Accepted P s)
    (hcoll : ∀ e, Holds s c.key e → e.recordHash P = c.env.recordHash P → e = c.env)
    (h : Holds (putRetaining P s c) c.key e) : e = c.env := by
  unfold putRetaining at h
  rw [if_pos hacc] at h
  unfold Holds at h
  rw [retainEvidence_entries] at h
  rcases accepted_slot hacc with ⟨cur, hcur, _, hsame, hslot⟩ | ⟨_, hslot⟩
  · have heq : some cur.env = some e := hslot.symm.trans h
    rw [← Option.some.inj heq]
    exact hcoll cur.env (holds_of_lookup hcur) hsame
  · have heq : (if alive c.env c.now then some c.env else none) = some e := hslot.symm.trans h
    split at heq
    next => exact (Option.some.inj heq).symm
    next => cases heq

/-! ## The trail -/

/-- Known envelopes with one hash are one. -/
def CollisionFree (P : Primitives) (known : SignedEnvelope → Prop) : Prop :=
  ∀ a b, known a → known b → a.recordHash P = b.recordHash P → a = b

/-- **The audit trail**: the records of the TLD of `K`, current one first, each handed over
by the next as the side tables tell, back to a self-certifying root. -/
structure Audited (P : Primitives) (K : Bytes) (now : UInt64) (known : SignedEnvelope → Prop)
    (s : EnvelopeStore) (records : List SignedEnvelope) : Prop where
  slots : ∀ k e, Holds s k e → known e
  members : ∀ e ∈ records, known e
  current : ∀ e, Holds s K e → records.head? = some e
  authentic : ∀ e ∈ records, e.verifySignature P = true
  names : ∀ e ∈ records, e.record.name = wireImage [] K
  linked : records.IsChain (HandoffHop P 1 (getHistory s) (some (storedEvidence P s)) now)
  origin : ∃ e, records.getLast? = some e ∧ selfCertifiedTldRoot P e = true

variable {K : Bytes} {now : UInt64} {known : SignedEnvelope → Prop} {s s' : EnvelopeStore}
  {records : List SignedEnvelope} {rest : List SignedEnvelope}

theorem walkBack_of_chain {hopHistory : Bytes → Option SignedEnvelope}
    {hopEvidence : Option (Bytes → Option RecoveryEvidence)} {root : SignedEnvelope} {budget : Nat}
    (hauth : root.verifySignature P = true)
    (hchain : (root :: rest).IsChain (HandoffHop P 1 hopHistory hopEvidence now))
    (horigin : ∃ e, (root :: rest).getLast? = some e ∧ selfCertifiedTldRoot P e = true)
    (hlen : rest.length ≤ budget) :
    (walkBack (selfCertifiedTldRoot P) (handoffStep P hopHistory hopEvidence now) budget
      root).isSome = true := by
  induction rest generalizing root budget with
  | nil =>
    obtain ⟨e, hlast, hself⟩ := horigin
    have hroot : root = e := by simpa using hlast
    subst hroot
    cases budget <;> simp [walkBack, hself]
  | cons prev rest ih =>
    rw [List.isChain_cons_cons] at hchain
    rw [List.getLast?_cons_cons] at horigin
    cases budget with
    | zero => cases hlen
    | succ budget =>
      rw [walkBack]
      split
      next => rfl
      rw [(handoffStep_eq_some_iff hauth).mpr hchain.1, Option.bind_some]
      refine ih hchain.1.links.authentic hchain.2 horigin ?_
      rw [List.length_cons] at hlen
      omega

theorem Audited.accepted (h : Audited P K now known s records) (hlen : records.length ≤ 17)
    {env : SignedEnvelope} (henv : Holds s K env) :
    verifyAuthorityChainWithHandoffs P (getHistory s) (some (storedEvidence P s)) now [env]
      = true := by
  obtain ⟨rest, hrecords⟩ := List.head?_eq_some_iff.mp (h.current env henv)
  subst hrecords
  have hauth := h.authentic env List.mem_cons_self
  rw [verifyAuthorityChainWithHandoffs_single]
  refine ⟨hauth, walkBack_of_chain hauth h.linked h.origin ?_⟩
  rw [List.length_cons] at hlen
  show rest.length ≤ 16
  omega

theorem sequence_le_head {hop : SignedEnvelope → SignedEnvelope → Prop}
    (hnext : ∀ a b, hop a b → a.record.sequence.toNat = b.record.sequence.toNat + 1) :
    ∀ {head : SignedEnvelope}, (head :: rest).IsChain hop →
      ∀ e ∈ head :: rest, e.record.sequence.toNat ≤ head.record.sequence.toNat := by
  induction rest with
  | nil =>
    intro head _ e he
    rw [List.mem_singleton.mp he]
  | cons prev rest ih =>
    intro head hchain e he
    rw [List.isChain_cons_cons] at hchain
    rcases List.mem_cons.mp he with hhead | htail
    · rw [hhead]
    · have hle := ih hchain.2 e htail
      have hstep := hnext head prev hchain.1
      omega

/-! ## One hop under a change of the tables -/

theorem recoveryBacked_congr {f g : Bytes → Option RecoveryEvidence}
    (heq : g (a.recordHash P) = f (a.recordHash P)) (h : RecoveryBacked P 1 (some f) now a b) :
    RecoveryBacked P 1 (some g) now a b := by
  obtain ⟨fetch, ev, policy, hfetch, hev, hrest⟩ := h
  injection hfetch with hfetch
  subst hfetch
  exact ⟨g, ev, policy, rfl, heq.trans hev, hrest⟩

theorem handoffHop_frame (h : HandoffHop P 1 (getHistory s) (some (storedEvidence P s)) now a b)
    (hremembers : Remembers P s b → Remembers P s' b)
    (hbacked : a.signer ≠ b.record.owner → a.signer = a.record.owner →
      RecoveryBacked P 1 (some (storedEvidence P s)) now a b →
      RecoveryBacked P 1 (some (storedEvidence P s')) now a b) :
    HandoffHop P 1 (getHistory s') (some (storedEvidence P s')) now a b := by
  have hbefore : Remembers P s b := by
    have hfetched := h.links.fetched
    rwa [h.links.hash] at hfetched
  refine ⟨⟨?_, h.links.hash, h.links.authentic, h.links.sequence, h.links.name⟩, ?_⟩
  · rw [h.links.hash]
    exact hremembers hbefore
  · by_cases htransfer : a.signer = b.record.owner
    · exact .inl htransfer
    · obtain ⟨hself, hold⟩ := h.authorized.resolve_left htransfer
      exact .inr ⟨hself, hbacked htransfer hself hold⟩

theorem recoveryBacked_of_proves {raw : Bytes} {fetch : Bytes → Option RecoveryEvidence}
    (howner : a.record.owner.length = 32) (hproves : proves P a b now raw = true)
    (hheld : fetch (a.recordHash P) = decodeRecoveryEvidence P raw) :
    RecoveryBacked P 1 (some fetch) now a b := by
  unfold proves at hproves
  rw [verifyRecoveryHop_iff howner] at hproves
  exact recoveryBacked_congr hheld hproves

theorem Audited.alone (h : Audited P K now known s records) (hcoll : CollisionFree P known)
    {newcomer : SignedEnvelope} (hnew : known newcomer) (he : known e) : Alone P s newcomer e :=
  ⟨fun k e' hheld hsame => hcoll e' e (h.slots k e' hheld) he hsame,
    fun hsame => hcoll newcomer e hnew he hsame⟩

theorem slots_put (hslots : ∀ k e, Holds s k e → known e) (hknown : known c.env) :
    ∀ k e, Holds (putRetaining P s c) k e → known e := by
  intro k e hafter
  rcases holds_putRetaining hafter with hold | ⟨_, henv⟩
  · exact hslots k e hold
  · rw [henv]
    exact hknown

theorem current_put (hcoll : CollisionFree P known) (hslots : ∀ k e, Holds s k e → known e)
    (hknown : known c.env) (hacc : c.Accepted P s)
    (h : Holds (putRetaining P s c) c.key e) : e = c.env := by
  refine holds_of_accepted hacc ?_ h
  intro e' hheld hsame
  exact hcoll e' c.env (hslots c.key e' hheld) hknown hsame

/-! ## The three kinds of calls -/

/-- **The evidence of the trail is spared**: what a kept put under another key brings for a
recovery of the TLD proves it at `now`. -/
def SparesEvidence (P : Primitives) (K : Bytes) (now : UInt64) (s : EnvelopeStore) :
    AuditCall → Prop
  | .put c => c.key ≠ K → c.Accepted P s → c.env.record.name = wireImage [] K →
    Carries P c.evidence → ∀ prev ∈ getHistory s c.env.record.prevHashBytes,
      c.env.signer ≠ prev.record.owner → proves P c.env prev now c.evidence = true
  | .get _ _ => True

/-- **The next record of the trail**: kept over the live current one, which it names; a
recovery brings evidence in effect by `now`. -/
structure Extends (P : Primitives) (K : Bytes) (now : UInt64) (s : EnvelopeStore) (c : PutCall) :
    Prop where
  accepted : c.Accepted P s
  name : c.env.record.name = wireImage [] K
  authentic : c.env.verifySignature P = true
  linked : c.env.record.hasPrevHash = true
  incumbent : ∃ cur, s.entries.lookup K = some cur ∧ alive cur.env c.now = true ∧
    c.env.record.sequence = cur.env.record.sequence + 1 ∧
    (c.env.signer ≠ cur.env.record.owner → Carries P c.evidence ∧
      ∀ ev ∈ decodeRecoveryEvidence P c.evidence, ev.notBefore ≤ now)

theorem Audited.read (h : Audited P K now known s records) (hcoll : CollisionFree P known)
    {key : Bytes} {t : Int} (hfits : CallFits P s (.get key t)) :
    Audited P K now known (get P s key t).2 records := by
  refine ⟨fun k e hheld => h.slots k e (holds_get hheld), h.members,
    fun e hheld => h.current e (holds_get hheld), h.authentic, h.names, ?_, h.origin⟩
  refine h.linked.imp_of_mem_imp ?_
  intro a b _ hb hhop
  refine handoffHop_frame hhop (fun hs => hs.get hfits ?_) ?_
  · intro k e hheld hsame
    exact hcoll e b (h.slots k e hheld) (h.members b hb) hsame
  · intro _ _ hold
    rw [storedEvidence_get]
    exact hold

theorem succ_ne_self (n : UInt64) : n + 1 ≠ n := by
  intro heq
  have hnat := congrArg UInt64.toNat heq
  rw [UInt64.toNat_add] at hnat
  have hone : (1 : UInt64).toNat = 1 := rfl
  have hlt := n.toNat_lt
  omega

/-- **The new hop**: the put leaves the predecessor in the history, and a declaration in the
evidence. -/
theorem handoffHop_of_put {cur : Entry} (hacc : c.Accepted P s) (hfits : CallFits P s (.put c))
    (hcur : s.entries.lookup c.key = some cur) (halone : Alone P s c.env cur.env)
    (hsucceeds : Succeeds P s c.evidence c.env cur.env)
    (hinstall : judge P s c.key c.env c.now c.evidence = .install)
    (hauth : cur.env.verifySignature P = true)
    (hnext : c.env.record.sequence.toNat = cur.env.record.sequence.toNat + 1)
    (hname : c.env.record.name = cur.env.record.name)
    (hevidence : c.env.signer ≠ cur.env.record.owner → Carries P c.evidence ∧
      ∀ ev ∈ decodeRecoveryEvidence P c.evidence, ev.notBefore ≤ now) :
    HandoffHop P 1 (getHistory (putRetaining P s c))
      (some (storedEvidence P (putRetaining P s c))) now c.env cur.env := by
  have hremembers : Remembers P (putRetaining P s c) cur.env := by
    unfold putRetaining Remembers
    rw [if_pos hacc, getHistory_congr (retainEvidence_history _ _ _), PutCall.outcome_eq hacc,
      hinstall]
    show Remembers P (install P s c.key c.env c.now) cur.env
    exact remembers_displaced hcur ((hfits hacc).1 hinstall) halone
  refine (handoffHop_iff_of_succeeds hsucceeds hauth hremembers ?_).mpr ⟨hnext, hname⟩
  intro hchange ev hdecoded
  obtain ⟨hcarries, hstart⟩ := hevidence hchange
  -- the evidence came in band, so it is what the store looked at
  have hband : evidenceFor P s c.env c.evidence = c.evidence := by
    unfold evidenceFor
    rw [if_neg (fun hnil => hcarries.1 (List.length_eq_zero_iff.mp hnil))]
  rw [hband] at hdecoded
  refine ⟨?_, hstart ev hdecoded⟩
  rw [storedEvidence_put hacc hfits, if_pos ⟨hcarries, rfl⟩]
  exact hdecoded

section
variable (h : Audited P K now known s records) (hcoll : CollisionFree P known)
  (hknown : known c.env)
include h hcoll hknown

theorem Audited.elsewhere (hkey : c.key ≠ K) (hfits : CallFits P s (.put c))
    (hspares : SparesEvidence P K now s (.put c)) :
    Audited P K now known (putRetaining P s c) records := by
  refine ⟨slots_put h.slots hknown, h.members, ?_, h.authentic, h.names, ?_, h.origin⟩
  · intro e hheld
    rcases holds_putRetaining hheld with hold | ⟨hk, _⟩
    · exact h.current e hold
    · exact absurd hk.symm hkey
  · refine h.linked.imp_of_mem_imp ?_
    intro a b ha hb hhop
    refine handoffHop_frame hhop (fun hs => hs.put hfits (h.alone hcoll hknown (h.members b hb))) ?_
    intro htransfer hself hold
    by_cases hacc : c.Accepted P s
    · have hevidence := storedEvidence_put hacc hfits a
      by_cases hwrites : Carries P c.evidence ∧ a.recordHash P = c.env.recordHash P
      · -- the record itself, put under another of its keys
        rw [if_pos hwrites] at hevidence
        have hsame : c.env = a := hcoll c.env a hknown (h.members a ha) hwrites.2.symm
        have hproves : proves P a b now c.evidence = true := by
          rw [← hsame] at htransfer hhop ⊢
          exact hspares hkey hacc (hsame ▸ h.names a ha) hwrites.1 b hhop.links.fetched htransfer
        have howner : a.record.owner.length = 32 :=
          hself ▸ (verifySignature_iff.mp (h.authentic a ha)).2.1
        exact recoveryBacked_of_proves howner hproves hevidence
      · rw [if_neg hwrites] at hevidence
        exact recoveryBacked_congr hevidence hold
    · rw [putRetaining_of_refused hacc]
      exact hold

/-- The store has checked that the current record is the predecessor the verifier asks for. -/
theorem Audited.predecessor (hkey : c.key = K) (hext : Extends P K now s c) :
    ∃ cur rest, s.entries.lookup c.key = some cur ∧ records = cur.env :: rest ∧
      Succeeds P s c.evidence c.env cur.env ∧
      judge P s c.key c.env c.now c.evidence = .install ∧
      c.env.record.sequence.toNat = cur.env.record.sequence.toNat + 1 ∧
      (c.env.signer ≠ cur.env.record.owner → Carries P c.evidence ∧
        ∀ ev ∈ decodeRecoveryEvidence P c.evidence, ev.notBefore ≤ now) := by
  obtain ⟨cur, hcur, halive, hseq, hevidence⟩ := hext.incumbent
  have hheld := holds_of_lookup hcur
  obtain ⟨rest, hrecords⟩ := List.head?_eq_some_iff.mp (h.current cur.env hheld)
  subst hkey
  -- another sequence, so another record, so another hash
  have hnew : c.env.recordHash P ≠ cur.env.recordHash P := by
    intro hsame
    rw [hcoll c.env cur.env hknown (h.slots _ cur.env hheld) hsame] at hseq
    exact succ_ne_self _ hseq.symm
  have hsucceeds : Succeeds P s c.evidence c.env cur.env :=
    succeeds_of_accepted hcur halive hext.linked hnew hext.accepted
  have hinstall : judge P s c.key c.env c.now c.evidence = .install := by
    have hverdict := (putWithEvidence_accepted_iff (length_of_accepted hext.accepted)
      (verified_of_accepted hext.accepted)).mp hext.accepted
    rw [judge_of_alive hcur halive] at hverdict ⊢
    exact (judgeIncumbent_ne_refuse_iff hnew).mp hverdict
  refine ⟨cur, rest, hcur, hrecords, hsucceeds, hinstall, ?_, hevidence⟩
  have hlater := UInt64.lt_iff_toNat_lt.mp hsucceeds.later
  rw [hseq] at hlater ⊢
  refine sequence_succ ?_
  rw [UInt64.le_iff_toNat_le]
  show 1 ≤ _
  omega

theorem Audited.linked_put (hacc : c.Accepted P s) (hfits : CallFits P s (.put c))
    (hnew : c.env ∉ records) :
    records.IsChain (HandoffHop P 1 (getHistory (putRetaining P s c))
      (some (storedEvidence P (putRetaining P s c))) now) := by
  refine h.linked.imp_of_mem_imp ?_
  intro a b ha hb hold
  refine handoffHop_frame hold
    (fun hs => hs.put hfits (h.alone hcoll hknown (h.members b hb))) ?_
  intro _ _ hbacked
  have hother : a.recordHash P ≠ c.env.recordHash P := by
    intro hsame
    exact hnew (hcoll a c.env (h.members a ha) hknown hsame ▸ ha)
  refine recoveryBacked_congr ?_ hbacked
  rw [storedEvidence_put hacc hfits, if_neg (fun hwrites => hother hwrites.2)]

theorem Audited.extend (hkey : c.key = K) (hfits : CallFits P s (.put c))
    (hext : Extends P K now s c) :
    Audited P K now known (putRetaining P s c) (c.env :: records) := by
  obtain ⟨cur, rest, hcur, hrecords, hsucceeds, hinstall, hnext, hevidence⟩ :=
    h.predecessor hcoll hknown hkey hext
  have hmem : cur.env ∈ records := hrecords ▸ List.mem_cons_self
  have hhop := handoffHop_of_put hext.accepted hfits hcur
    (h.alone hcoll hknown (h.members cur.env hmem)) hsucceeds hinstall (h.authentic cur.env hmem)
    hnext (hext.name.trans (h.names cur.env hmem).symm) hevidence
  -- every older record has a smaller sequence
  have hnew : c.env ∉ records := by
    intro hold
    have hchain := h.linked
    rw [hrecords] at hchain hold
    have hle := sequence_le_head (fun _ _ hop => hop.links.sequence) hchain c.env hold
    omega
  have hlinked := h.linked_put hcoll hknown hext.accepted hfits hnew
  refine ⟨slots_put h.slots hknown, List.forall_mem_cons.mpr ⟨hknown, h.members⟩, ?_,
    List.forall_mem_cons.mpr ⟨hext.authentic, h.authentic⟩,
    List.forall_mem_cons.mpr ⟨hext.name, h.names⟩, ?_, ?_⟩
  · intro e hafter
    have henv : e = c.env := current_put hcoll h.slots hknown hext.accepted (hkey ▸ hafter)
    rw [henv, List.head?_cons]
  · rw [hrecords] at hlinked ⊢
    exact List.isChain_cons_cons.mpr ⟨hhop, hlinked⟩
  · obtain ⟨e, hlast, hself⟩ := h.origin
    refine ⟨e, ?_, hself⟩
    rw [List.getLast?_cons, hlast]
    rfl

end

/-! ## Runs -/

/-- The first record of a trail: a self-certifying root, kept under its TLD key. -/
structure Opens (P : Primitives) (K : Bytes) (s : EnvelopeStore) (c : PutCall) : Prop where
  accepted : c.Accepted P s
  key : c.key = K
  authentic : c.env.verifySignature P = true
  root : selfCertifiedTldRoot P c.env = true
  name : c.env.record.name = wireImage [] K

/-- The call stays under the bounds, and at the TLD key it is the next record. -/
def Orderly (P : Primitives) (K : Bytes) (now : UInt64) (s : EnvelopeStore) : AuditCall → Prop
  | .put c => CallFits P s (.put c) ∧ (c.key = K → Extends P K now s c)
  | .get key t => CallFits P s (.get key t)

/-- The call puts at `K`. -/
def AuditCall.putsAt (K : Bytes) : AuditCall → Bool
  | .put c => c.key = K
  | .get _ _ => false

/-- The envelopes the run has to do with: those in the slots at its start and
those put by it. -/
def Known (s : EnvelopeStore) (calls : List AuditCall) (e : SignedEnvelope) : Prop :=
  (∃ k, Holds s k e) ∨ ∃ c, AuditCall.put c ∈ calls ∧ c.env = e

theorem Audited.opened (hcoll : CollisionFree P known) (hslots : ∀ k e, Holds s k e → known e)
    (hknown : known c.env) (h : Opens P K s c) :
    Audited P K now known (putRetaining P s c) [c.env] := by
  refine ⟨slots_put hslots hknown, List.forall_mem_singleton.mpr hknown, ?_,
    List.forall_mem_singleton.mpr h.authentic, List.forall_mem_singleton.mpr h.name,
    List.isChain_singleton _, ⟨c.env, rfl, h.root⟩⟩
  intro e hafter
  have henv : e = c.env := current_put hcoll hslots hknown h.accepted (h.key ▸ hafter)
  rw [henv, List.head?_cons]

theorem Audited.step (h : Audited P K now known s records) (hcoll : CollisionFree P known)
    {call : AuditCall} (hknown : ∀ c, call = .put c → known c.env)
    (horderly : Orderly P K now s call) (hspares : SparesEvidence P K now s call) :
    ∃ records', Audited P K now known (auditStep P s call) records' ∧
      records'.length ≤ records.length + if call.putsAt K then 1 else 0 := by
  cases call with
  | get key t => exact ⟨records, h.read hcoll horderly, Nat.le_add_right _ _⟩
  | put c =>
    by_cases hkey : c.key = K
    · refine ⟨c.env :: records,
        h.extend hcoll (hknown c rfl) hkey horderly.1 (horderly.2 hkey), ?_⟩
      rw [List.length_cons, AuditCall.putsAt, if_pos (decide_eq_true hkey)]
    · exact ⟨records, h.elsewhere hcoll (hknown c rfl) hkey horderly.1 hspares,
        Nat.le_add_right _ _⟩

/-- **Audit trail completeness.** A self-certifying root and up to 16 successors are put
among any other calls. If the bounds are kept and the trail's evidence is spared, the
current record verifies from the store alone. -/
theorem audit_trail_complete (P : Primitives) (K : Bytes) (s : EnvelopeStore) (first : PutCall)
    (calls : List AuditCall) (now : UInt64) (hopens : Opens P K s first)
    (hcoll : CollisionFree P (Known s (.put first :: calls)))
    (hrun : EachStep (auditStep P)
      (fun s call => Orderly P K now s call ∧ SparesEvidence P K now s call)
      (putRetaining P s first) calls)
    (hcount : calls.countP (AuditCall.putsAt K) ≤ 16) :
    ∀ env, Holds (calls.foldl (auditStep P) (putRetaining P s first)) K env →
      verifyAuthorityChainWithHandoffs P
        (getHistory (calls.foldl (auditStep P) (putRetaining P s first)))
        (some (storedEvidence P (calls.foldl (auditStep P) (putRetaining P s first)))) now [env]
        = true := by
  intro env henv
  have hstart : Audited P K now (Known s (.put first :: calls)) (putRetaining P s first)
      [first.env] :=
    Audited.opened hcoll (fun k e hheld => .inl ⟨k, hheld⟩)
      (.inr ⟨first, List.mem_cons_self, rfl⟩) hopens
  -- the trail grows by one record for each put at the key
  have hend := @EachStep.history_mem _ _ (auditStep P)
    (fun s call => Orderly P K now s call ∧ SparesEvidence P K now s call)
    (fun past s' => ∃ records, Audited P K now (Known s (.put first :: calls)) s' records ∧
      records.length ≤ 1 + past.countP (AuditCall.putsAt K)) calls [] (putRetaining P s first)
    (by
      intro past s' call hmem hinv hok
      obtain ⟨records, haudited, hlen⟩ := hinv
      have hknown : ∀ c, call = .put c → Known s (.put first :: calls) c.env := by
        intro c hc
        exact .inr ⟨c, List.mem_cons_of_mem _ (hc ▸ hmem), rfl⟩
      obtain ⟨records', haudited', hlen'⟩ := haudited.step hcoll hknown hok.1 hok.2
      refine ⟨records', haudited', ?_⟩
      rw [List.countP_append, List.countP_singleton]
      omega)
    ⟨[first.env], hstart, Nat.le_refl 1⟩ hrun
  obtain ⟨records, haudited, hlen⟩ := hend
  rw [List.nil_append] at hlen
  exact haudited.accepted (by omega) henv

namespace TrailSample

def rootPut : PutCall := ⟨Sample.tld, Sample.recoverable, 100, true, []⟩

def recoveryPut : PutCall := ⟨Sample.tld, Sample.recovered 2, 200, true, Sample.declared.bytes⟩

def strangerPut : PutCall :=
  ⟨Toy.checksum (Toy.publicKey 4), Toy.signedBy 4 (Toy.tldRecord 4 4 1 100 900), 300, true, []⟩

def calls : List AuditCall := [.put recoveryPut, .put strangerPut]

def envelopes : List SignedEnvelope := [rootPut.env, recoveryPut.env, strangerPut.env]

theorem known_mem (h : Known (newEnvelopeStore 0) (.put rootPut :: calls) e) : e ∈ envelopes := by
  rcases h with ⟨k, hheld⟩ | ⟨c, hc, henv⟩
  · exact absurd hheld (by simp [Holds, newEnvelopeStore])
  · rw [← henv]
    rcases List.mem_cons.mp hc with hroot | hrest
    · injection hroot with hroot
      rw [hroot]
      exact List.mem_cons_self
    · rcases List.mem_cons.mp hrest with hrecovery | hrest
      · injection hrecovery with hrecovery
        rw [hrecovery]
        exact List.mem_cons_of_mem _ List.mem_cons_self
      · have hstranger := List.mem_singleton.mp hrest
        injection hstranger with hstranger
        rw [hstranger]
        exact List.mem_cons_of_mem _ (List.mem_cons_of_mem _ List.mem_cons_self)

theorem distinct : CollisionFree Toy.primitives
    (Known (newEnvelopeStore 0) (.put rootPut :: calls)) := by
  have hall : ∀ a ∈ envelopes, ∀ b ∈ envelopes,
      a.recordHash Toy.primitives = b.recordHash Toy.primitives → a = b := by
    decide +kernel
  intro a b ha hb
  exact hall a (known_mem ha) b (known_mem hb)

theorem recovery_extends : Extends Toy.primitives Sample.tld 1000
    (putRetaining Toy.primitives (newEnvelopeStore 0) rootPut) recoveryPut := by
  have hput : recoveryPut.Accepted Toy.primitives
        (putRetaining Toy.primitives (newEnvelopeStore 0) rootPut) ∧
      (putRetaining Toy.primitives (newEnvelopeStore 0) rootPut).entries.lookup Sample.tld
        = some (Sample.entry Sample.recoverable) ∧
      recoveryPut.env.verifySignature Toy.primitives = true ∧
      Carries Toy.primitives recoveryPut.evidence ∧
      ∀ ev ∈ decodeRecoveryEvidence Toy.primitives recoveryPut.evidence, ev.notBefore ≤ 1000 := by
    decide +kernel
  obtain ⟨hacc, hcur, hauth, hevidence⟩ := hput
  exact ⟨hacc, rfl, hauth, rfl, Sample.entry Sample.recoverable, hcur, by decide +kernel, rfl,
    fun _ => hevidence⟩

end TrailSample

theorem recovered_tld_audited :
    let s := TrailSample.calls.foldl (auditStep Toy.primitives)
      (putRetaining Toy.primitives (newEnvelopeStore 0) TrailSample.rootPut)
    Holds s Sample.tld (Sample.recovered 2) ∧
    verifyAuthorityChainWithHandoffs Toy.primitives (getHistory s)
      (some (storedEvidence Toy.primitives s)) 1000 [Sample.recovered 2] = true := by
  have hheld : Holds (TrailSample.calls.foldl (auditStep Toy.primitives)
      (putRetaining Toy.primitives (newEnvelopeStore 0) TrailSample.rootPut)) Sample.tld
      (Sample.recovered 2) := by
    unfold Holds
    decide +kernel
  refine ⟨hheld, audit_trail_complete Toy.primitives Sample.tld (newEnvelopeStore 0)
    TrailSample.rootPut TrailSample.calls 1000 ?_ TrailSample.distinct ?_ (by decide +kernel) _
    hheld⟩
  · exact ⟨by decide +kernel, rfl, by decide +kernel, by decide +kernel, rfl⟩
  · refine ⟨⟨⟨by decide +kernel, fun _ => TrailSample.recovery_extends⟩, ?_⟩, ⟨⟨by decide +kernel, ?_⟩,
      ?_⟩, trivial⟩
    · intro hother
      exact absurd rfl hother
    · intro hsame
      exact absurd hsame (by decide +kernel)
    · intro _ _ _ hcarries
      exact absurd hcarries.1 (by decide)

namespace PoisonSample

open Toy

def tld : Bytes := minedChecksum (publicKey 1)

def claim : Claims.AliasClaim := minedClaim 1 aliasA 100 quorum

def record (n : UInt8) (sequence : UInt64) (prevHash : Option Bytes)
    (recovery : Option RecoveryPolicyWire) : SignedEnvelope :=
  signedWith mined
    { version := 1, name := wireImage [] tld, owner := publicKey n, sequence, created := 100,
      expires := 9000, rrset := [], delegation := none, prevHash, recovery,
      claim := claim.canonicalBytes, revoke := none }
    (keypair n)

def root : SignedEnvelope :=
  record 1 1 none (some { threshold := 1, keys := [publicKey 3], timelock := 500 })

def recovery : SignedEnvelope := record 2 2 (some (root.recordHash mined)) none

def declared : RecoveryEvidence :=
  { newOwnerPK := publicKey 2
    signatures := [(keypair 3).sign mined
      (declaration (root.recordHash mined) (publicKey 2) 1000)]
    notBefore := 1000 }

def stripped : Bytes := RecoveryEvidence.bytes { declared with signatures := [] }

def rootPut : PutCall := ⟨tld, root, 100, false, []⟩

def recoveryPut : PutCall := ⟨tld, recovery, 200, false, declared.bytes⟩

/-- The put at the claim key, with the stripped blob. -/
def claimPut : PutCall := ⟨keyA, recovery, 300, false, stripped⟩

/-- The gates of an inbound put, all open. -/
def gates : PutGates :=
  { flagged := false, passive := false, allowPut := true, tokenVerifies := true,
    verifyFull := fun c => Claims.verifyFull mined c Claims.inferDifficulty none Constants.w
    inReuseWindow := fun _ => false, poolKept := fun _ _ => true }

def recovered : EnvelopeStore :=
  putRetaining mined (putRetaining mined (newEnvelopeStore 0) rootPut) recoveryPut

def poisoned : EnvelopeStore := putRetaining mined recovered claimPut

end PoisonSample

section
open PoisonSample

/-- **A put under the claim key breaks the trail.** Anyone puts a recovery again, under its
claim key and with a declaration nobody signed; the record no longer verifies. -/
theorem claim_put_breaks_trail :
    Opens Toy.mined tld (newEnvelopeStore 0) rootPut ∧
    EachStep (auditStep Toy.mined) (Orderly Toy.mined tld 2000)
      (putRetaining Toy.mined (newEnvelopeStore 0) rootPut) [.put recoveryPut, .put claimPut] ∧
    verifyAuthorityChainWithHandoffs Toy.mined (getHistory recovered)
      (some (storedEvidence Toy.mined recovered)) 2000 [recovery] = true ∧
    admitPut Toy.mined gates ⟨Toy.keyA, some recovery, stripped⟩ =
      .ok ⟨Toy.keyA, recovery, true⟩ ∧
    Holds poisoned tld recovery ∧
    verifyAuthorityChainWithHandoffs Toy.mined (getHistory poisoned)
      (some (storedEvidence Toy.mined poisoned)) 2000 [recovery] = false := by
  have hroot : rootPut.Accepted Toy.mined (newEnvelopeStore 0) ∧
      root.verifySignature Toy.mined = true ∧
      selfCertifiedTldRoot Toy.mined root = true := by
    decide +kernel
  have hput : recoveryPut.Accepted Toy.mined
        (putRetaining Toy.mined (newEnvelopeStore 0) rootPut) ∧
      (putRetaining Toy.mined (newEnvelopeStore 0) rootPut).entries.lookup tld =
        some (Sample.entry root) ∧
      recovery.verifySignature Toy.mined = true ∧
      Carries Toy.mined recoveryPut.evidence ∧
      ∀ ev ∈ decodeRecoveryEvidence Toy.mined recoveryPut.evidence, ev.notBefore ≤ 2000 := by
    decide +kernel
  have hfits : CallFits Toy.mined (putRetaining Toy.mined (newEnvelopeStore 0) rootPut)
        (.put recoveryPut) ∧
      CallFits Toy.mined recovered (.put claimPut) ∧ claimPut.key ≠ tld := by
    decide +kernel
  obtain ⟨hacc, hcur, hauth, hevidence⟩ := hput
  have hextends : Extends Toy.mined tld 2000
      (putRetaining Toy.mined (newEnvelopeStore 0) rootPut) recoveryPut :=
    ⟨hacc, rfl, hauth, rfl, Sample.entry root, hcur, by decide, rfl, fun _ => hevidence⟩
  refine ⟨⟨hroot.1, rfl, hroot.2.1, hroot.2.2, rfl⟩, ?_, ?_⟩
  · exact ⟨⟨hfits.1, fun _ => hextends⟩, ⟨hfits.2.1, fun hsame => absurd hsame hfits.2.2⟩, trivial⟩
  · unfold Holds
    decide +kernel

end

end Freens.Dht
