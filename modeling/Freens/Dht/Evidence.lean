/-
**THE EVIDENCE TABLE UNDER A WHOLE RUN** (`dht/evidence.go`:
`PublishWithEvidence`, `LookupEvidence`; `dht/transport.go`: `hPut`).

Three paths write a blob under the H_record of a recovery record. Each checks that
the blob decodes and none what it proves, and a later blob replaces an earlier one.
-/
import Freens.Dht.Node

namespace Freens.Dht

open Library Naming Wire

/-! ## The calls that touch evidence only -/

/-- A publish or an evidence lookup between two of its critical sections. -/
inductive EvidenceCall where
  /-- `PublishWithEvidence` after the local store took the envelope. -/
  | retain (env : SignedEnvelope) (evidence : Bytes)
  /-- `LookupEvidence` waiting for its walk. -/
  | fetch (recordHash : Bytes)
  deriving DecidableEq

/-- The node and its evidence calls in flight. -/
structure EvidenceNode where
  node : Node
  calls : List EvidenceCall

/-- The node's store. -/
def EvidenceNode.store (n : EvidenceNode) : EnvelopeStore := n.node.lookup.store

/-- The node with another store. -/
def EvidenceNode.withStore (n : EvidenceNode) (s : EnvelopeStore) : EvidenceNode :=
  { n with node := { n.node with lookup := { n.node.lookup with store := s } } }

/-- What can happen next. -/
inductive EvidenceAction where
  /-- Inbound puts, lookups and collections, and what is left of them. -/
  | node (a : Action)
  | publish (env : SignedEnvelope) (evidence : Bytes) (now : Int)
  | lookup (recordHash : Bytes)
  /-- The pending evidence call at this position goes on; a fetch gets the first
  blob a peer offers. -/
  | resume (i : Nat) (fetched : Option Bytes)

section
variable (P : Primitives)

/-- The first critical section of `PublishWithEvidence`. -/
def startPublish (n : EvidenceNode) (env : SignedEnvelope) (evidence : Bytes) (now : Int) :
    EvidenceNode :=
  if (decodeRecoveryEvidence P evidence).isNone then n
  else match keyForWireName P env.record.name with
    | .error _ => n
    | .ok key =>
      let res := putWithEvidence P n.store key env now true evidence
      let n := n.withStore res.2
      -- a local refusal does not stop the network publication, which writes nothing here
      match res.1 with
      | .ok true => { n with calls := .retain env evidence :: n.calls }
      | _ => n

/-- `FetchEvidence` up to the network. -/
def startFetch (n : EvidenceNode) (recordHash : Bytes) : EvidenceNode :=
  if recordHash.length ≠ Constants.sha256Len then n
  -- the local blob is served whatever it proves
  else if (n.store.evidence.lookup recordHash).isSome then n
  else if !n.node.lookup.hasNode then n
  else { n with calls := .fetch recordHash :: n.calls }

/-- What is left of a call, done. -/
def finishCall (s : EnvelopeStore) (fetched : Option Bytes) : EvidenceCall → EnvelopeStore
  | .retain env evidence => retainEvidence P s env evidence
  | .fetch recordHash =>
    match fetched with
    | none => s
    | some raw => if (decodeRecoveryEvidence P raw).isNone then s else putEvidence P s recordHash raw

/-- One action. -/
def evidenceStep (n : EvidenceNode) : EvidenceAction → EvidenceNode
  | .node a => { n with node := step P n.node a }
  | .publish env evidence now => startPublish P n env evidence now
  | .lookup recordHash => startFetch n recordHash
  | .resume i fetched =>
    match n.calls[i]? with
    | none => n
    | some call =>
      { n with calls := n.calls.eraseIdx i }.withStore (finishCall P n.store fetched call)

end

variable {P : Primitives}

/-! ## Slots and history are kept beside the evidence -/

theorem retainHistory_evidence (s : EnvelopeStore) (e : Entry) :
    (retainHistory P s e).evidence = s.evidence := by
  rw [retainHistory_frame]

theorem evict_evidence (s : EnvelopeStore) (victim : Bytes × Entry) :
    (evict P s victim).evidence = s.evidence :=
  retainHistory_evidence _ _

theorem foldl_evict_evidence (victims : List (Bytes × Entry)) (s : EnvelopeStore) :
    (victims.foldl (evict P) s).evidence = s.evidence := by
  induction victims generalizing s with
  | nil => rfl
  | cons v victims ih =>
    rw [List.foldl_cons, ih, evict_evidence]

theorem shedLRU_evidence (key : Bytes) (fuel : Nat) (s : EnvelopeStore) :
    (shedLRU P key fuel s).evidence = s.evidence := by
  induction fuel generalizing s with
  | zero => rfl
  | succ fuel ih =>
    unfold shedLRU
    split
    · split
      · rfl
      · rw [ih, evict_evidence]
    · rfl

theorem install_evidence (s : EnvelopeStore) (k : Bytes) (env : SignedEnvelope) (now : Int) :
    (install P s k env now).evidence = s.evidence := by
  have hdisplace : (displace P s k env now).evidence = s.evidence := by
    unfold displace
    split
    · exact retainHistory_evidence _ _
    · rfl
  rw [install, enforceCap, shedLRU_evidence, foldl_evict_evidence, evictExpired,
    foldl_evict_evidence, hdisplace]

theorem touch_evidence (s : EnvelopeStore) (k : Bytes) (now : Int) :
    (touch s k now).evidence = s.evidence := by
  unfold touch
  split <;> rfl

@[simp] theorem putWithEvidence_evidence (s : EnvelopeStore) (key : Bytes) (env : SignedEnvelope)
    (now : Int) (verify : Bool) (evidence : Bytes) :
    (putWithEvidence P s key env now verify evidence).2.evidence = s.evidence := by
  unfold putWithEvidence
  split
  · rfl
  split
  · rfl
  · cases judge P s key env now evidence with
    | refuse => rfl
    | refresh => exact touch_evidence s key now
    | install => exact install_evidence s key env now

@[simp] theorem put_evidence (s : EnvelopeStore) (key : Bytes) (env : SignedEnvelope) (now : Int)
    (verify : Bool) : (put P s key env now verify).2.evidence = s.evidence :=
  putWithEvidence_evidence s key env now verify []

@[simp] theorem get_evidence (s : EnvelopeStore) (key : Bytes) (now : Int) :
    (get P s key now).2.evidence = s.evidence := by
  unfold get
  split
  · rfl
  split
  · rfl
  split
  · exact evict_evidence _ _
  · exact touch_evidence _ _ _

/-! ## What a write of evidence leaves -/

theorem boundEvidence_sub (fuel : Nat) (s : EnvelopeStore) :
    Table.Sub (boundEvidence fuel s).evidence s.evidence := by
  induction fuel generalizing s with
  | zero => exact Table.Sub.refl _
  | succ fuel ih =>
    unfold boundEvidence
    split
    · split
      · exact Table.Sub.refl _
      · exact (ih _).trans (Table.erase_sub _ _)
    · exact Table.Sub.refl _

variable {blob h raw : Bytes} {s : EnvelopeStore} {k : Bytes}

theorem insertEvidence_lookup (hblob : (insertEvidence s k raw).evidence.lookup h = some blob) :
    (h = k ∧ blob = raw) ∨ s.evidence.lookup h = some blob := by
  rw [insertEvidence_eq] at hblob
  have hbound := boundEvidence_sub _ _ _ _ hblob
  rw [bindEvidence_frame] at hbound
  exact (Table.lookup_insert_cases hbound).imp id And.right

theorem putEvidence_lookup (hblob : (putEvidence P s k raw).evidence.lookup h = some blob) :
    (h = k ∧ blob = raw ∧ wellFormedBlob P raw) ∨ s.evidence.lookup h = some blob := by
  rw [putEvidence_eq] at hblob
  split at hblob
  next hok => exact (insertEvidence_lookup hblob).imp (fun hnew => ⟨hnew.1, hnew.2, hok.2⟩) id
  next => exact .inr hblob

theorem retainEvidence_lookup {env : SignedEnvelope}
    (hblob : (retainEvidence P s env raw).evidence.lookup h = some blob) :
    (h = env.recordHash P ∧ blob = raw ∧ wellFormedBlob P raw) ∨
      s.evidence.lookup h = some blob := by
  unfold retainEvidence at hblob
  split at hblob
  · exact .inr hblob
  · exact putEvidence_lookup hblob

/-! ## What each step writes -/

/-- The end of a put retains its evidence: it was accepted, or repeats the
winner. -/
def keeps (P : Primitives) (s : EnvelopeStore) (put : Admitted) (accepted : Bool) (now : Int) :
    Bool :=
  accepted || (get P s put.key now).1.toOption.join.any
    (fun inc => inc.recordHash P = put.env.recordHash P)

/-- The blob an action offers to the store. -/
def offered (P : Primitives) (n : EvidenceNode) : EvidenceAction → Option (Bytes × Bytes)
  | .node (.resume i answers) =>
    match n.node.pending[i]? with
    | some (.put put evidence accepted) =>
      if keeps P n.store put accepted answers.now then some (put.env.recordHash P, evidence)
      else none
    | _ => none
  | .resume i fetched =>
    match n.calls[i]? with
    | some (.retain env evidence) => some (env.recordHash P, evidence)
    | some (.fetch recordHash) => fetched.map (fun raw => (recordHash, raw))
    | none => none
  | _ => none

theorem replyPut_lookup {put : Admitted} {evidence : Bytes} {accepted : Bool} {now : Int}
    (hblob : (replyPut P s put evidence accepted now).2.evidence.lookup h = some blob) :
    (keeps P s put accepted now = true ∧ h = put.env.recordHash P ∧ blob = evidence ∧
        wellFormedBlob P evidence) ∨
      s.evidence.lookup h = some blob := by
  unfold replyPut at hblob
  cases accepted with
  | true =>
    rcases retainEvidence_lookup hblob with hw | hold
    · exact .inl ⟨rfl, hw.1, hw.2.1, hw.2.2⟩
    · exact .inr hold
  | false =>
    simp only [Bool.false_eq_true, if_false] at hblob
    split at hblob
    · next hsame =>
      rcases retainEvidence_lookup hblob with hw | hold
      · exact .inl ⟨by rw [keeps, hsame, Bool.or_true], hw.1, hw.2.1, hw.2.2⟩
      · exact .inr (get_evidence (P := P) s put.key now ▸ hold)
    · refine .inr (get_evidence (P := P) s put.key now ▸ ?_)
      split at hblob <;> exact hblob

theorem startPut_evidence (l : DHTLookup) (gates : PutGates) (m : PutArgs) (now : Int) :
    (startPut P l gates m now).1.store.evidence = l.store.evidence := by
  unfold startPut
  split
  · rfl
  · next put _ =>
    have hput := putWithEvidence_evidence (P := P) l.store put.key put.env now false m.evidence
    split <;> next heq => rw [heq] at hput; exact hput

theorem startLookup_evidence (l : DHTLookup) (kind : LookupKind) (name : Bytes) (now : Int) :
    (startLookup P l kind name now).1.store.evidence = l.store.evidence := by
  unfold startLookup
  split
  · rfl
  · next key _ =>
    have hget : (readLocal P l key now).2.store.evidence = l.store.evidence :=
      get_evidence (P := P) l.store key now
    split <;> next heq => rw [heq] at hget; exact hget

theorem startCollect_evidence (l : DHTLookup) (aliasName : Bytes) (now : Int) :
    (startCollect P l aliasName now).1.store.evidence = l.store.evidence := by
  unfold startCollect
  split
  · rfl
  · next key _ =>
    dsimp only
    split <;> exact get_evidence (P := P) l.store key now

theorem resume_evidence {l : DHTLookup} {answers : Answers} {call : Pending}
    (hblob : (resume P l answers call).1.store.evidence.lookup h = some blob) :
    (∃ put evidence accepted, call = .put put evidence accepted ∧
      keeps P l.store put accepted answers.now = true ∧ h = put.env.recordHash P ∧
      blob = evidence ∧ wellFormedBlob P evidence) ∨
    l.store.evidence.lookup h = some blob := by
  cases call with
  | put put evidence accepted =>
    rcases replyPut_lookup hblob with ⟨hkeep, hh, hb, hwf⟩ | hold
    · exact .inl ⟨put, evidence, accepted, rfl, hkeep, hh, hb, hwf⟩
    · exact .inr hold
  | lookup kind key cached now =>
    refine .inr ?_
    simp only [resume, finishLookup] at hblob
    split at hblob
    · rw [stampFetchedAt_store] at hblob
      exact put_evidence (P := P) l.store key _ now true ▸ hblob
    · exact hblob
  | collect key own now =>
    exact .inr (get_evidence (P := P) l.store key answers.now ▸ hblob)
  | merge key own held now =>
    refine .inr ?_
    simp only [resume] at hblob
    split at hblob <;> exact hblob
  | cacheBack key env now =>
    exact .inr (put_evidence (P := P) l.store key env now true ▸ hblob)

theorem step_evidence {n : Node} {a : Action} {calls : List EvidenceCall}
    (hblob : (step P n a).lookup.store.evidence.lookup h = some blob) :
    (offered P ⟨n, calls⟩ (.node a) = some (h, blob) ∧ wellFormedBlob P blob) ∨
      n.lookup.store.evidence.lookup h = some blob := by
  cases a with
  | put gates m now => exact .inr (startPut_evidence n.lookup gates m now ▸ hblob)
  | lookup kind name now => exact .inr (startLookup_evidence n.lookup kind name now ▸ hblob)
  | collect aliasName now => exact .inr (startCollect_evidence n.lookup aliasName now ▸ hblob)
  | resume i answers =>
    simp only [step] at hblob
    cases hcall : n.pending[i]? with
    | none =>
      rw [hcall] at hblob
      exact .inr hblob
    | some call =>
      rw [hcall] at hblob
      replace hblob : (resume P n.lookup answers call).1.store.evidence.lookup h = some blob := hblob
      rcases resume_evidence hblob with ⟨put, evidence, accepted, rfl, hkeep, hh, hb, hwf⟩ | hold
      · refine .inl ⟨?_, hb ▸ hwf⟩
        simp only [offered, hcall]
        show (if keeps P n.lookup.store put accepted answers.now then _ else _) = _
        rw [if_pos hkeep, hh, hb]
      · exact .inr hold

theorem evidenceStep_lookup {n : EvidenceNode} {a : EvidenceAction}
    (hblob : (evidenceStep P n a).store.evidence.lookup h = some blob) :
    (offered P n a = some (h, blob) ∧ wellFormedBlob P blob) ∨
      n.store.evidence.lookup h = some blob := by
  cases a with
  | node a => exact step_evidence hblob
  | publish env evidence now =>
    refine .inr ?_
    simp only [evidenceStep, startPublish] at hblob
    split at hblob
    · exact hblob
    split at hblob
    · exact hblob
    · next key _ =>
      rw [← putWithEvidence_evidence (P := P) n.store key env now true evidence]
      split at hblob <;> exact hblob
  | lookup recordHash =>
    refine .inr ?_
    simp only [evidenceStep, startFetch] at hblob
    split at hblob
    · exact hblob
    split at hblob
    · exact hblob
    · split at hblob <;> exact hblob
  | resume i fetched =>
    simp only [evidenceStep] at hblob
    cases hcall : n.calls[i]? with
    | none =>
      rw [hcall] at hblob
      exact .inr hblob
    | some call =>
      rw [hcall] at hblob
      replace hblob : (finishCall P n.store fetched call).evidence.lookup h = some blob := hblob
      cases call with
      | retain env evidence =>
        rcases retainEvidence_lookup hblob with ⟨hh, hb, hwf⟩ | hold
        · exact .inl ⟨by simp only [offered, hcall, hh, hb], hb ▸ hwf⟩
        · exact .inr hold
      | fetch recordHash =>
        cases fetched with
        | none => exact .inr hblob
        | some raw =>
          simp only [finishCall] at hblob
          split at hblob
          · exact .inr hblob
          · rcases putEvidence_lookup hblob with ⟨hh, hb, hwf⟩ | hold
            · exact .inl ⟨by simp only [offered, hcall, hh, hb, Option.map_some], hb ▸ hwf⟩
            · exact .inr hold

/-! ## Runs -/

/-- The blob passes the recovery-hop check of `cur` against `prev` at `now`. -/
def proves (P : Primitives) (cur prev : SignedEnvelope) (now : UInt64) (raw : Bytes) : Bool :=
  verifyRecoveryHop P (some (fun _ => decodeRecoveryEvidence P raw)) now cur prev

/-- The blob kept for `cur` proves it over `prev`. -/
def HoldsProof (P : Primitives) (cur prev : SignedEnvelope) (now : UInt64) (s : EnvelopeStore) :
    Prop :=
  ∃ raw, s.evidence.lookup (cur.recordHash P) = some raw ∧ proves P cur prev now raw = true

/-- A well-formed blob that a step writes for `cur` is the held one or proves the
recovery too. -/
def WritesProof (P : Primitives) (cur prev : SignedEnvelope) (t : UInt64) (n : EvidenceNode)
    (a : EvidenceAction) : Prop :=
  ∀ raw, offered P n a = some (cur.recordHash P, raw) → wellFormedBlob P raw →
    n.store.evidence.lookup (cur.recordHash P) = some raw ∨ proves P cur prev t raw = true

/-- **Evidence is not poisoned** in a run that writes nothing else for the record. -/
theorem evidence_stays_proof (cur prev : SignedEnvelope) (t : UInt64) (n : EvidenceNode)
    (hheld : HoldsProof P cur prev t n.store) (as : List EvidenceAction)
    (hrun : EachStep (evidenceStep P) (fun n a => WritesProof P cur prev t n a ∧
      ((evidenceStep P n a).store.evidence.lookup (cur.recordHash P)).isSome) n as) :
    ∀ t' ≥ t, ∀ i, HoldsProof P cur prev t' ((as.take i).foldl (evidenceStep P) n).store := by
  intro t' ht' i
  have hinv : HoldsProof P cur prev t ((as.take i).foldl (evidenceStep P) n).store := by
    refine @EachStep.invariant _ _ _ _ (fun n => HoldsProof P cur prev t n.store) ?_ _ _ hheld
      (hrun.take i)
    intro n a hn hok
    obtain ⟨raw, hraw, hproof⟩ := hn
    obtain ⟨blob, hblob⟩ := Option.isSome_iff_exists.mp hok.2
    refine ⟨blob, hblob, ?_⟩
    -- the blob after the step was there before, or is what the step wrote
    rcases evidenceStep_lookup hblob with ⟨hoffer, hwf⟩ | hold
    · rcases hok.1 blob hoffer hwf with hsame | hgood
      · rw [hraw, Option.some.injEq] at hsame
        exact hsame ▸ hproof
      · exact hgood
    · rw [hraw, Option.some.injEq] at hold
      exact hold ▸ hproof
  obtain ⟨raw, hraw, hproof⟩ := hinv
  exact ⟨raw, hraw, verifyRecoveryHop_mono ht' hproof⟩

namespace Sample

def welcome : PutGates :=
  { flagged := false, passive := false, allowPut := true, tokenVerifies := true,
    verifyFull := fun _ => true, inReuseWindow := fun _ => false, poolKept := fun _ _ => false }

def putRecovered (blob : Bytes) : EvidenceAction :=
  .node (.put welcome { key := [], envelope := some (recovered 2), evidence := blob } 1100)

def served : EvidenceAction :=
  .node (.resume 0 { now := 1100, walk := .island, retry := .island, claims := .answered [] })

def informed : EvidenceNode :=
  [putRecovered declared.bytes, served].foldl (evidenceStep Toy.primitives)
    ⟨Node.initial 0 true, []⟩

def unsignedBlob : Bytes := RecoveryEvidence.bytes { declared with signatures := [] }

theorem informed_holds : HoldsProof Toy.primitives (recovered 2) recoverable 1000 informed.store :=
  ⟨declared.bytes, by decide +kernel, by decide +kernel⟩

end Sample

theorem evidence_stays_proof_of_repeat :
    HoldsProof Toy.primitives (Sample.recovered 2) Sample.recoverable 2000
      ([Sample.putRecovered Sample.declared.bytes, Sample.served].foldl
        (evidenceStep Toy.primitives) Sample.informed).store := by
  refine evidence_stays_proof (Sample.recovered 2) Sample.recoverable 1000 Sample.informed
    Sample.informed_holds [Sample.putRecovered Sample.declared.bytes, Sample.served]
    ⟨⟨?_, by decide +kernel⟩, ⟨?_, by decide +kernel⟩, trivial⟩ 2000 (by decide) 2
  · intro raw hoffer _
    exact absurd hoffer (by simp [offered, Sample.putRecovered])
  · intro raw hoffer _
    have hblob : offered Toy.primitives
        (evidenceStep Toy.primitives Sample.informed (Sample.putRecovered Sample.declared.bytes))
        Sample.served =
        some ((Sample.recovered 2).recordHash Toy.primitives, Sample.declared.bytes) := by
      decide +kernel
    rw [hblob, Option.some.injEq, Prod.mk.injEq] at hoffer
    rw [← hoffer.2]
    exact .inr (by decide +kernel)

/-- **A repeated put poisons the evidence**: the same record with the declaration stripped
of its signature. -/
theorem repeated_put_poisons :
    HoldsProof Toy.primitives (Sample.recovered 2) Sample.recoverable 1000
      Sample.informed.store ∧
    ([Sample.putRecovered Sample.unsignedBlob, Sample.served].foldl (evidenceStep Toy.primitives)
        Sample.informed).store.evidence.lookup ((Sample.recovered 2).recordHash Toy.primitives)
      = some Sample.unsignedBlob ∧
    proves Toy.primitives (Sample.recovered 2) Sample.recoverable 2000 Sample.unsignedBlob
      = false :=
  ⟨Sample.informed_holds, by decide +kernel, by decide +kernel⟩

end Freens.Dht
