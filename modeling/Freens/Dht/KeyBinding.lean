/-
**EVERY HELD ENVELOPE IS UNDER ITS OWN KEY**, as long as the peers' answers
are. The put handler needs no condition. A lookup caches the best answer
of its walk, and a claim collection the least one, under the key it asked
for; neither compares that key with the answer's own (`foreign_answer_cached`).
-/
import Freens.Dht.Node

namespace Freens.Dht

open Library Naming Wire

/-! ## The condition on the peers' answers -/

/-- `k` is one of the envelope's own keys. -/
def keyBound (P : Primitives) (k : Bytes) (env : SignedEnvelope) : Bool :=
  match storageKeys P env with
  | .ok keys => decide (k ∈ keys)
  | .error _ => false

/-- The signed offer with the least hash. -/
def Least (P : Primitives) (offers : List SignedEnvelope) (e : SignedEnvelope) : Prop :=
  Unbeaten (fun a b => decide (a.recordHash P < b.recordHash P))
    (offers.filter (fun o => o.verifySignature P)) e

/-- The answers a pending call would store belong under the key it asked for. -/
def AnswersKeyed (P : Primitives) (l : DHTLookup) (answers : Answers) : Pending → Prop
  | .lookup _ key _ now =>
    ∀ e, Adoptable P answers.walk answers.retry now e → alive e now = true →
      judge P l.store key e now [] = .install → keyBound P key e = true
  | .merge key own held now =>
    has l.store key now = false →
      ∀ e ∈ answers.claims.offers, Least P (answers.claims.candidates own held) e →
        alive e now = true → keyBound P key e = true
  | _ => True

/-- Peers answer with envelopes of the key asked for. -/
def Conforms (P : Primitives) (n : Node) : Action → Prop
  | .resume i answers => ∀ call, n.pending[i]? = some call → AnswersKeyed P n.lookup answers call
  | _ => True

/-! ## The invariant -/

/-- What a call in flight carries is bound to the key it was read at. -/
def PendingBound (P : Primitives) : Pending → Prop
  | .collect key own _ => ∀ e ∈ own, keyBound P key e = true
  | .merge key own held _ => ∀ e ∈ own.toList ++ held.toList, keyBound P key e = true
  | .cacheBack key env now => alive env now = true → keyBound P key env = true
  | _ => True

/-- Every entry is under a key of its own. -/
def StoreBound (P : Primitives) (s : EnvelopeStore) : Prop :=
  ∀ k e, Holds s k e → keyBound P k e = true

/-- **The invariant**: bound slots, and bound calls in flight. -/
structure NodeBound (P : Primitives) (n : Node) : Prop where
  held : StoreBound P n.lookup.store
  flight : ∀ call ∈ n.pending, PendingBound P call

variable {P : Primitives} {env e : SignedEnvelope} {k : Bytes} {now : Int} {l : DHTLookup}

theorem keyBound_iff :
    keyBound P k env = true ↔ ∃ keys, storageKeys P env = .ok keys ∧ k ∈ keys := by
  unfold keyBound
  cases storageKeys P env with
  | error e | ok keys => simp

theorem keyBound_of_nameKey
    (h : keyForWireName P env.record.name = .ok k) : keyBound P k env = true :=
  keyBound_iff.mpr (mem_storageKeys_iff.mpr ⟨k, h, .inl rfl⟩)

theorem keyBound_of_claimKey {nameKey : Bytes}
    (hname : keyForWireName P env.record.name = .ok nameKey) (h : claimKey P env = some k) :
    keyBound P k env = true :=
  keyBound_iff.mpr (mem_storageKeys_iff.mpr ⟨nameKey, hname, .inr h⟩)

theorem keyBound_of_putKeyFor {explicit key : Bytes}
    (h : putKeyFor P explicit env = .ok key) : keyBound P key env = true := by
  unfold putKeyFor at h
  split at h
  next => cases h
  next derived hname =>
    split at h
    next =>
      rw [Except.ok.injEq] at h
      exact keyBound_of_nameKey (h ▸ hname)
    next =>
      split at h
      next => cases h
      next claim hclaim =>
        split at h
        next => cases h
        next kClaim hkClaim =>
          split at h
          next => cases h
          rw [Except.ok.injEq] at h
          apply keyBound_of_claimKey hname
          -- a claim that decodes is not empty
          have hpos : 0 < env.record.claim.length := by
            rw [List.length_pos_iff]
            intro hnil
            rw [hnil, Claims.decodeAliasClaim_nil] at hclaim
            cases hclaim
          simp only [claimKey, if_pos hpos, hclaim, hkClaim, h]

variable {gates : PutGates} {m : PutArgs} {s : EnvelopeStore} {evidence : Bytes}
  {held own : Option SignedEnvelope} {walk : ClaimWalk} {n : Node}

theorem putKeyFor_of_admitPut {put : Admitted}
    (h : admitPut P gates m = .ok put) : putKeyFor P m.key put.env = .ok put.key := by
  unfold admitPut at h
  simp only [guard_eq_ok] at h
  obtain ⟨_, _, _, _, h⟩ := h
  split at h
  next => cases h
  next env _ =>
    rw [guard_eq_ok] at h
    replace h := h.2
    split at h
    next => cases h
    next key hkey =>
      split at h
      next => cases h
      rw [Except.ok.injEq] at h
      rw [← h]
      exact hkey

/-! ## What each critical section keeps -/

theorem StoreBound.put {s : EnvelopeStore} {key : Bytes} {env : SignedEnvelope} {now : Int}
    {verify : Bool} {evidence : Bytes} (hs : StoreBound P s)
    (hkey : alive env now = true → keyBound P key env = true) :
    StoreBound P (putWithEvidence P s key env now verify evidence).2 := by
  intro k e h
  rcases holds_putWithEvidence h with hold | ⟨hk, he, halive, _⟩
  · exact hs k e hold
  · rw [hk, he]
    exact hkey halive

theorem StoreBound.get {s : EnvelopeStore} {key : Bytes} {now : Int} (hs : StoreBound P s) :
    StoreBound P (get P s key now).2 :=
  fun k e h => hs k e (holds_get h)

theorem StoreBound.retainEvidence
    (hs : StoreBound P s) : StoreBound P (retainEvidence P s env evidence) := by
  intro k e h
  unfold Holds at h
  rw [retainEvidence_entries] at h
  exact hs k e h

theorem StoreBound.replyPut {put : Admitted} {accepted : Bool} (hs : StoreBound P s) :
    StoreBound P (replyPut P s put evidence accepted now).2 := by
  unfold Dht.replyPut
  split
  next => exact hs.retainEvidence
  have hget := @StoreBound.get P s put.key now hs
  simp only
  split
  next => exact hget.retainEvidence
  split <;> exact hget

theorem foldl_addCollected_lookup (envs : List SignedEnvelope) {h : Bytes}
    (hlookup : (envs.foldl (addCollected P) ∅).lookup h = some e) :
    e ∈ envs.filter (fun o => o.verifySignature P) ∧ h = e.recordHash P := by
  induction envs using List.reverseRecOn with
  | nil => cases hlookup
  | append_singleton envs x ih =>
    rw [List.foldl_append, List.foldl_cons, List.foldl_nil] at hlookup
    rw [List.filter_append]
    unfold addCollected at hlookup
    split at hlookup
    next hx =>
      rcases Table.lookup_insert_cases hlookup with ⟨heq, rfl⟩ | ⟨_, hold⟩
      · exact ⟨List.mem_append_right _ (by simp [hx]), heq⟩
      · exact ⟨List.mem_append_left _ (ih hold).1, (ih hold).2⟩
    next =>
      exact ⟨List.mem_append_left _ (ih hlookup).1, (ih hlookup).2⟩

theorem foldl_addCollected_mem (envs : List SignedEnvelope) {o : SignedEnvelope}
    (ho : o ∈ envs.filter (fun o => o.verifySignature P)) :
    ∃ e, (envs.foldl (addCollected P) ∅).lookup (o.recordHash P) = some e := by
  induction envs using List.reverseRecOn with
  | nil => cases ho
  | append_singleton envs x ih =>
    rw [List.foldl_append, List.foldl_cons, List.foldl_nil]
    rw [List.filter_append, List.mem_append] at ho
    unfold addCollected
    by_cases hx : x.verifySignature P = true
    · rw [if_pos hx]
      by_cases heq : o.recordHash P = x.recordHash P
      · exact ⟨x, by rw [heq, AList.lookup_insert]⟩
      · rw [AList.lookup_insert_ne heq]
        rcases ho with hold | hnew
        · exact ih hold
        · have : o = x := by simpa [hx] using hnew
          exact absurd (by rw [this]) heq
    · rw [if_neg hx]
      rcases ho with hold | hnew
      · exact ih hold
      · exact absurd hnew (by simp [hx])

/-- Whether or not the walk was degraded, what is handed over is the sorted table. -/
theorem mergeCollect_eq_ok {set : List SignedEnvelope} (h : mergeCollect P own held walk = .ok set) :
    set = sortedByRecordHash ((walk.candidates own held).foldl (addCollected P) ∅) := by
  cases walk with
  | broken => exact absurd h (by simp [mergeCollect])
  | degraded e =>
    simp only [mergeCollect, guard_eq_ok, Except.ok.injEq] at h
    exact h.2.symm
  | answered envs =>
    simp only [mergeCollect, Except.ok.injEq] at h
    exact h.symm

theorem least_of_mergeCollect {set : List SignedEnvelope} {first : SignedEnvelope}
    (h : mergeCollect P own held walk = .ok set) (hfirst : set.head? = some first) :
    Least P (walk.candidates own held) first := by
  have hset := mergeCollect_eq_ok h
  generalize walk.candidates own held = candidates at hset ⊢
  have hsorted := List.pairwise_insertionSort (fun a b : Bytes × SignedEnvelope => a.1 ≤ b.1)
    ((candidates.foldl (addCollected P) ∅).select (fun _ _ => true))
  have hmem : ∀ x, x ∈ ((candidates.foldl (addCollected P) ∅).select
      (fun _ _ => true)).insertionSort (fun a b => a.1 ≤ b.1) ↔
      (candidates.foldl (addCollected P) ∅).lookup x.1 = some x.2 := by
    intro x
    rw [List.mem_insertionSort, Table.mem_select]
    simp
  rw [hset, sortedByRecordHash] at hfirst
  cases hlist : ((candidates.foldl (addCollected P) ∅).select
      (fun _ _ => true)).insertionSort (fun a b => a.1 ≤ b.1) with
  | nil => rw [hlist] at hfirst; cases hfirst
  | cons x rest =>
    rw [hlist] at hfirst hsorted
    simp only [List.map_cons, List.head?_cons, Option.some.injEq] at hfirst
    subst hfirst
    obtain ⟨hvalid, hhash⟩ := foldl_addCollected_lookup _ ((hmem x).mp (by rw [hlist]; simp))
    refine ⟨hvalid, ?_⟩
    intro o ho
    obtain ⟨e, he⟩ := foldl_addCollected_mem _ ho
    have hpair := (hmem (o.recordHash P, e)).mpr he
    rw [hlist, List.mem_cons] at hpair
    rcases hpair with heq | htail
    · rw [← hhash, ← heq]
      simp
    · have hle : x.1 ≤ o.recordHash P := (List.pairwise_cons.mp hsorted).1 _ htail
      rw [hhash] at hle
      simpa using hle

theorem mem_candidates (h : e ∈ walk.candidates own held) :
    e ∈ own.toList ++ held.toList ∨ e ∈ walk.offers := by
  cases walk with
  | answered envs =>
    rw [ClaimWalk.candidates, ← List.append_assoc, List.mem_append] at h
    exact h
  | degraded _ | broken => exact .inl (List.mem_append_left _ h)

/-! ## Steps and runs -/

theorem resume_bound {answers : Answers} {call : Pending} (hs : StoreBound P l.store)
    (hcall : PendingBound P call) (hanswers : AnswersKeyed P l answers call) :
    StoreBound P (resume P l answers call).1.store ∧
      ∀ rest ∈ (resume P l answers call).2, PendingBound P rest := by
  cases call with
  | put put evidence accepted => exact ⟨hs.replyPut, by simp [resume]⟩
  | lookup kind key cached now =>
    refine ⟨?_, by simp [resume]⟩
    intro k e h
    rcases holds_finishLookup h with hold | ⟨hk, hadopt, halive, hinstall⟩
    · exact hs k e hold
    · rw [hk]
      exact hanswers e hadopt halive hinstall
  | cacheBack key env now => exact ⟨hs.put hcall, by simp [resume]⟩
  | collect key own now =>
    refine ⟨hs.get, ?_⟩
    intro rest hrest
    rw [Option.mem_def, resume, Option.some.injEq] at hrest
    rw [← hrest]
    -- the walk's own copy was read from the key it is carried for
    intro e he
    rcases List.mem_append.mp he with hown | hheld
    · exact hcall e (Option.mem_toList.mp hown)
    · exact hs key e (holds_of_get (Option.mem_toList.mp hheld))
  | merge key own held now =>
    cases hmerge : mergeCollect P own held answers.claims with
    | error e => simp only [resume, hmerge]; exact ⟨hs, by simp⟩
    | ok set =>
      simp only [resume, hmerge]
      refine ⟨hs, ?_⟩
      intro rest hrest
      obtain ⟨first, hfirst, hrest⟩ := Option.map_eq_some_iff.mp hrest
      subst hrest
      intro halive
      unfold cacheCandidate at hfirst
      split at hfirst
      next => cases hfirst
      next hempty =>
        have hleast := least_of_mergeCollect hmerge hfirst
        -- the first of the set is a copy this node held or an offer
        rcases mem_candidates (List.mem_filter.mp hleast.mem).1 with hown | hpeer
        · exact hcall first hown
        · exact hanswers (Bool.eq_false_iff.mpr hempty) first hpeer hleast halive

theorem startPut_bound (hs : StoreBound P l.store) :
    StoreBound P (startPut P l gates m now).1.store ∧
      ∀ rest ∈ (startPut P l gates m now).2, PendingBound P rest := by
  unfold startPut
  split
  next => exact ⟨hs, by simp⟩
  next put hput =>
    have hbound := @StoreBound.put P l.store put.key put.env now false m.evidence hs
      (fun _ => keyBound_of_putKeyFor (putKeyFor_of_admitPut hput))
    split
    next store heq => rw [heq] at hbound; exact ⟨hbound, by simp⟩
    next accepted store heq =>
      rw [heq] at hbound
      refine ⟨hbound, ?_⟩
      rintro rest ⟨⟩
      trivial

theorem readLocal_store (l : DHTLookup) (key : Bytes) (now : Int) :
    (readLocal P l key now).2.store = (get P l.store key now).2 := rfl

theorem startLookup_bound {kind : LookupKind} {name : Bytes} (hs : StoreBound P l.store) :
    StoreBound P (startLookup P l kind name now).1.store ∧
      ∀ rest ∈ (startLookup P l kind name now).2, PendingBound P rest := by
  unfold startLookup
  split
  next => exact ⟨hs, by simp⟩
  next key _ =>
    have hget := @StoreBound.get P l.store key now hs
    rw [← readLocal_store] at hget
    split
    next cached l' heq => rw [heq] at hget; exact ⟨hget, by simp⟩
    next cached l' heq =>
      rw [heq] at hget
      refine ⟨hget, ?_⟩
      rintro rest ⟨⟩
      trivial

theorem startCollect_bound {aliasName : Bytes} (hs : StoreBound P l.store) :
    StoreBound P (startCollect P l aliasName now).1.store ∧
      ∀ rest ∈ (startCollect P l aliasName now).2, PendingBound P rest := by
  unfold startCollect
  split
  next => exact ⟨hs, by simp⟩
  next key _ =>
    have hget := @StoreBound.get P l.store key now hs
    simp only
    split
    next => exact ⟨hget, by simp⟩
    refine ⟨hget, ?_⟩
    rintro rest ⟨⟩
    -- the own offer was read from the key it is carried for
    intro e he
    exact hs key e (holds_of_get he)

theorem NodeBound.next {rest : Option Pending} (hflight : ∀ call ∈ n.pending, PendingBound P call)
    (h : StoreBound P l.store ∧ ∀ call ∈ rest, PendingBound P call) :
    NodeBound P (n.next l rest) := by
  refine ⟨h.1, ?_⟩
  intro call hcall
  rcases List.mem_append.mp hcall with hrest | hold
  · exact h.2 call (Option.mem_toList.mp hrest)
  · exact hflight call hold

theorem step_bound {a : Action} (hn : NodeBound P n) (ha : Conforms P n a) :
    NodeBound P (step P n a) := by
  cases a with
  | put gates m now => exact NodeBound.next hn.flight (startPut_bound hn.held)
  | lookup kind name now => exact NodeBound.next hn.flight (startLookup_bound hn.held)
  | collect aliasName now => exact NodeBound.next hn.flight (startCollect_bound hn.held)
  | resume i answers =>
    cases hcall : n.pending[i]? with
    | none =>
      simp only [step, hcall]
      exact hn
    | some call =>
      simp only [step, hcall]
      apply NodeBound.next
      · intro other hother
        exact hn.flight other (List.mem_of_mem_eraseIdx hother)
      · exact resume_bound hn.held (hn.flight call (List.mem_of_getElem? hcall)) (ha call hcall)

theorem initial_bound (maxBytes : Int) (hasNode : Bool) :
    NodeBound P (Node.initial maxBytes hasNode) := by
  refine ⟨?_, by simp [Node.initial]⟩
  intro k e h
  exact absurd h (by simp [Holds, Node.initial, newEnvelopeStore])

/-- **Key binding over whole runs.** As long as the answers that would be cached belong
under the key asked for, every envelope the node holds is under one of its storage keys. -/
theorem storage_keys_of_run (P : Primitives) (maxBytes : Int) (hasNode : Bool)
    (actions : List Action)
    (hrun : EachStep (step P) (Conforms P) (Node.initial maxBytes hasNode) actions)
    (k : Bytes) (env : SignedEnvelope)
    (hheld : Holds (actions.foldl (step P) (Node.initial maxBytes hasNode)).lookup.store k env) :
    ∃ keys, storageKeys P env = .ok keys ∧ k ∈ keys := by
  have hbound := EachStep.invariant (fun _ _ => step_bound) (@initial_bound P maxBytes hasNode) hrun
  have hkey := hbound.held k env hheld
  unfold keyBound at hkey
  split at hkey
  next keys hkeys => exact ⟨keys, hkeys, of_decide_eq_true hkey⟩
  next => cases hkey

namespace Sample

def lookupAnswered (env : SignedEnvelope) : List Action :=
  [.lookup .record (Toy.tldName 1) 100,
    .resume 0 { now := 100, walk := .probes [.answered [env]], retry := .island,
                claims := .answered [] }]

def afterLookup (env : SignedEnvelope) : Node :=
  (lookupAnswered env).foldl (step Toy.primitives) (Node.initial 0 true)

def foreign : SignedEnvelope := Toy.signedBy 2 (Toy.tldRecord 2 2 1 100 900)

end Sample

theorem Adoptable.mem {walk retry : Walk}
    (h : Adoptable P walk retry now e) : e ∈ walk.offers ++ retry.offers := by
  rcases h with ⟨hbest, _⟩ | ⟨_, hbest⟩
  · exact List.mem_append_left _ (List.mem_filter.mp hbest.mem).1
  · rcases List.mem_append.mp hbest.mem with hwalk | hretry
    · exact List.mem_append_left _ (List.mem_filter.mp hwalk).1
    · exact List.mem_append_right _ (List.mem_filter.mp hretry).1

theorem storage_keys_of_lookup :
    ∃ keys, storageKeys Toy.primitives Sample.first = .ok keys ∧ Sample.tld ∈ keys := by
  apply storage_keys_of_run Toy.primitives 0 true (Sample.lookupAnswered Sample.first) ?_
    Sample.tld Sample.first (by unfold Holds; decide +kernel)
  refine ⟨trivial, ?_, trivial⟩
  intro call hcall
  have hpending : call = .lookup .record Sample.tld none 100 := by
    have : (step Toy.primitives (Node.initial 0 true)
        (.lookup .record (Toy.tldName 1) 100)).pending
        = [.lookup .record Sample.tld none 100] := by decide +kernel
    rw [this] at hcall
    simpa using hcall.symm
  subst hpending
  intro e hadopt _ _
  have hmem := hadopt.mem
  have hone : e = Sample.first := by simpa [Walk.offers, Probe.envs] using hmem
  rw [hone]
  decide +kernel

/-- **A foreign answer is cached** under a key that is none of its storage keys. -/
theorem foreign_answer_cached :
    Sample.foreign.verifySignature Toy.primitives = true ∧
    Holds (Sample.afterLookup Sample.foreign).lookup.store Sample.tld Sample.foreign ∧
    ¬ ∃ keys, storageKeys Toy.primitives Sample.foreign = .ok keys ∧ Sample.tld ∈ keys := by
  refine ⟨by decide +kernel, by unfold Holds; decide +kernel, ?_⟩
  intro h
  obtain ⟨keys, hkeys, hmem⟩ := h
  have hbound : keyBound Toy.primitives Sample.tld Sample.foreign = true := by
    unfold keyBound
    rw [hkeys]
    exact decide_eq_true hmem
  exact absurd hbound (by decide +kernel)

end Freens.Dht
