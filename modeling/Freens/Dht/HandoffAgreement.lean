/-
**STORE AND VERIFIER ON ONE HAND-OFF** (`dht/store.go`: `PutWithEvidence`;
`wire/recovery_walk.go`: `verifyHandoffWalk`).

The store asks for the hash of the incumbent, a greater sequence and the
incumbent's owner or a quorum; the verifier also for the same name and the very
next sequence.
-/
import Freens.Dht.Acceptance

namespace Freens.Dht

open Library Naming Wire

variable {P : Primitives}

/-- **The store's rule for a linked newcomer**: it names the incumbent, outnumbers it, and
is its owner's or a declared recovery. -/
structure Succeeds (P : Primitives) (s : EnvelopeStore) (evidence : Bytes)
    (cur prev : SignedEnvelope) : Prop where
  hash : cur.record.prevHashBytes = prev.recordHash P
  later : prev.record.sequence < cur.record.sequence
  authorized : cur.signer = prev.record.owner ∨
    (cur.signer = cur.record.owner ∧
      ∃ ev, decodeRecoveryEvidence P (evidenceFor P s cur evidence) = some ev ∧
        Declares P ev prev cur.record.owner)

variable {s : EnvelopeStore} {evidence : Bytes} {fetch : Bytes → Option RecoveryEvidence}
  {prev cur : SignedEnvelope} {fetchPredecessor : Bytes → Option SignedEnvelope}

theorem succeeds_of_accepted {k : Bytes} {cur : Entry} {env : SignedEnvelope} {now : Int}
    {verify : Bool} (hcur : s.entries.lookup k = some cur) (halive : alive cur.env now = true)
    (hlink : env.record.hasPrevHash = true) (hnew : env.recordHash P ≠ cur.env.recordHash P)
    (hacc : (putWithEvidence P s k env now verify evidence).1 = .ok true) :
    Succeeds P s evidence env cur.env := by
  have hverdict := (putWithEvidence_accepted_iff (length_of_accepted hacc)
    (verified_of_accepted hacc)).mp hacc
  rw [judge_of_alive hcur halive, judgeIncumbent_ne_refuse_iff hnew,
    judgeIncumbent_install_iff] at hverdict
  obtain ⟨_, _, hpath⟩ := hverdict
  rcases hpath with ⟨hhash, hlater, hsigner⟩ | ⟨hnone, _⟩
  · refine ⟨hhash, hlater, ?_⟩
    rcases hsigner with howner | hrecovery
    · exact .inl howner
    · obtain ⟨_, ev, hdecoded, hself, hdeclares⟩ := recoveryAcceptable_iff.mp hrecovery
      exact .inr ⟨hself, ev, hdecoded, hdeclares⟩
  · -- the path without a link is closed
    rw [hlink] at hnone
    cases hnone

/-! ## What the verifier asks beyond that -/

variable {now : UInt64}

theorem recoveryBacked_of_declares {ev : RecoveryEvidence}
    (hdeclares : Declares P ev prev cur.record.owner) (hfetch : fetch (cur.recordHash P) = some ev)
    (hnow : ev.notBefore ≤ now) : RecoveryBacked P 1 (some fetch) now cur prev := by
  obtain ⟨policy, hpolicy, hthreshold, hquorum, hbound⟩ := hdeclares.quorum
  exact ⟨fetch, ev, policy, rfl, hfetch, hdeclares.names, hpolicy, hthreshold, hquorum, hnow,
    hbound⟩

/-- **One hop, two rules.** What the store let through is a hop exactly when the name is
kept and the sequence is the next. -/
theorem handoffHop_iff_of_succeeds (h : Succeeds P s evidence cur prev)
    (hprev : prev.verifySignature P = true)
    (hhistory : fetchPredecessor (prev.recordHash P) = some prev)
    (hretained : cur.signer ≠ prev.record.owner →
      ∀ ev, decodeRecoveryEvidence P (evidenceFor P s cur evidence) = some ev →
        fetch (cur.recordHash P) = some ev ∧ ev.notBefore ≤ now) :
    HandoffHop P 1 fetchPredecessor (some fetch) now cur prev ↔
      cur.record.sequence.toNat = prev.record.sequence.toNat + 1 ∧
        cur.record.name = prev.record.name := by
  constructor
  · intro hhop
    exact ⟨hhop.links.sequence, hhop.links.name⟩
  · intro hnext
    refine ⟨⟨?_, h.hash, hprev, hnext.1, hnext.2⟩, ?_⟩
    · rw [h.hash]
      exact hhistory
    · by_cases howner : cur.signer = prev.record.owner
      · exact .inl howner
      · obtain ⟨hself, ev, hdecoded, hdeclares⟩ := h.authorized.resolve_left howner
        obtain ⟨hfetch, hnow⟩ := hretained howner ev hdecoded
        exact .inr ⟨hself, recoveryBacked_of_declares hdeclares hfetch hnow⟩

/-- **The verifier on a chain of one**: it certifies itself, or one hop leads to a lineage
one hop shorter. -/
theorem single_accepted_iff {fetchEvidence : Option (Bytes → Option RecoveryEvidence)}
    {root : SignedEnvelope} :
    verifyAuthorityChainWithHandoffs P fetchPredecessor fetchEvidence now [root] = true ↔
      root.verifySignature P = true ∧
        (selfCertifiedTldRoot P root = true ∨
          ∃ prev records, HandoffHop P 1 fetchPredecessor fetchEvidence now root prev ∧
            Lineage P (HandoffHop P 1 fetchPredecessor fetchEvidence now) prev records ∧
            records.length ≤ transferMaxDepth) := by
  rw [verifyAuthorityChainWithHandoffs_single]
  refine and_congr_right (fun hroot => ?_)
  -- the first round of the walk, with 15 left
  show (walkBack (selfCertifiedTldRoot P) _ (15 + 1) root).isSome = true ↔ _
  rw [walkBack]
  by_cases hself : selfCertifiedTldRoot P root = true
  · simp [hself]
  · rw [if_neg hself]
    constructor
    · intro h
      refine .inr ?_
      obtain ⟨origin, horigin⟩ := Option.isSome_iff_exists.mp h
      obtain ⟨prev, hstep, hwalk⟩ := Option.bind_eq_some_iff.mp horigin
      have hhop := (handoffStep_eq_some_iff hroot).mp hstep
      obtain ⟨records, hlineage, hlen⟩ := (lineage_iff_walkBack (by decide)
        hhop.links.authentic).mp (Option.isSome_iff_exists.mpr ⟨origin, hwalk⟩)
      exact ⟨prev, records, hhop, hlineage, hlen⟩
    · intro h
      obtain ⟨prev, records, hhop, hlineage, hlen⟩ := h.resolve_left hself
      have hwalk := (lineage_iff_walkBack (show 15 ≤ transferMaxDepth by decide)
        hhop.links.authentic).mpr ⟨records, hlineage, hlen⟩
      rw [(handoffStep_eq_some_iff hroot).mpr hhop, Option.bind_some]
      exact hwalk

/-! ## The agreement -/

/-- **Store and verifier agree** on a linked newcomer exactly when it is authentic and
certifies itself or keeps the name and takes the next sequence. -/
theorem store_verifier_agree_iff (P : Primitives) (s : EnvelopeStore) (k : Bytes) (cur : Entry)
    (env : SignedEnvelope) (t : Int) (verify : Bool) (evidence : Bytes)
    (fetchPredecessor : Bytes → Option SignedEnvelope)
    (fetch : Bytes → Option RecoveryEvidence) (now : UInt64) (lineage : List SignedEnvelope)
    (hcur : s.entries.lookup k = some cur) (halive : alive cur.env t = true)
    (hlineage : Lineage P (HandoffHop P 1 fetchPredecessor (some fetch) now) cur.env lineage)
    (hops : lineage.length ≤ 15 + 1) (hlink : env.record.hasPrevHash = true)
    (hnew : env.recordHash P ≠ cur.env.recordHash P)
    (hacc : (putWithEvidence P s k env t verify evidence).1 = .ok true)
    (hhistory : fetchPredecessor (cur.env.recordHash P) = some cur.env)
    (hretained : ∀ ev, decodeRecoveryEvidence P (evidenceFor P s env evidence) = some ev →
      fetch (env.recordHash P) = some ev ∧ ev.notBefore ≤ now) :
    verifyAuthorityChainWithHandoffs P fetchPredecessor (some fetch) now [env] = true ↔
      env.verifySignature P = true ∧
        (selfCertifiedTldRoot P env = true ∨
          (env.record.sequence.toNat = cur.env.record.sequence.toNat + 1 ∧
            env.record.name = cur.env.record.name)) := by
  have hsucceeds := succeeds_of_accepted hcur halive hlink hnew hacc
  have hauthentic : cur.env.verifySignature P = true :=
    hlineage.authentic cur.env (List.mem_of_mem_head? hlineage.tip)
  rw [single_accepted_iff,
    ← handoffHop_iff_of_succeeds hsucceeds hauthentic hhistory (fun _ => hretained)]
  refine and_congr_right (fun _ => or_congr_right ?_)
  constructor
  · intro h
    obtain ⟨prev, records, hhop, _, _⟩ := h
    -- the hash the newcomer names leads to the incumbent and to no one else
    have hsame : some prev = some cur.env := by
      rw [← hhop.links.fetched, hsucceeds.hash, hhistory]
    injection hsame with hsame
    exact hsame ▸ hhop
  · intro hhop
    exact ⟨cur.env, lineage, hhop, hlineage, hops⟩

namespace Sample

def historyOf (env : SignedEnvelope) (h : Bytes) : Option SignedEnvelope :=
  if h = env.recordHash Toy.primitives then some env else none

def declaredFor (h : Bytes) : Option RecoveryEvidence :=
  if h = (recovered 2).recordHash Toy.primitives then some declared else none

theorem lineage_recoverable (now : UInt64) :
    Lineage Toy.primitives (HandoffHop Toy.primitives 1 (historyOf recoverable)
      (some declaredFor) now) recoverable [recoverable] :=
  Lineage.single (by decide +kernel) (by decide +kernel)

def skipping : SignedEnvelope :=
  Toy.signedBy 1 { Toy.tldRecord 1 2 3 200 9000 with
    prevHash := some (recoverable.recordHash Toy.primitives) }

end Sample

theorem recovery_agreed :
    verifyAuthorityChainWithHandoffs Toy.primitives (Sample.historyOf Sample.recoverable)
      (some Sample.declaredFor) 1000 [Sample.recovered 2] = true := by
  have hdecoded : decodeRecoveryEvidence Toy.primitives
      (evidenceFor Toy.primitives (Sample.holding Sample.recoverable) (Sample.recovered 2)
        Sample.declared.bytes) = some Sample.declared := by
    decide +kernel
  refine (store_verifier_agree_iff Toy.primitives (Sample.holding Sample.recoverable) Sample.tld
    (Sample.entry Sample.recoverable) (Sample.recovered 2) 200 true Sample.declared.bytes
    (Sample.historyOf Sample.recoverable) Sample.declaredFor 1000 [Sample.recoverable]
    (by decide +kernel) (by decide +kernel) (Sample.lineage_recoverable 1000) (by decide)
    (by decide +kernel) (by decide +kernel) (by decide +kernel) (by decide +kernel) ?_).mpr
    ⟨by decide +kernel, .inr ⟨rfl, rfl⟩⟩
  intro ev hev
  rw [hdecoded, Option.some.injEq] at hev
  rw [← hev]
  exact ⟨by decide +kernel, by decide⟩

/-- **A skipped number divides them.** The store takes a transfer of sequence 3 after 1; the
verifier never does. -/
theorem skipped_sequence_stored :
    (Sample.holding Sample.recoverable).entries.lookup Sample.tld
      = some (Sample.entry Sample.recoverable) ∧
    alive Sample.recoverable 200 = true ∧
    (∀ now, Lineage Toy.primitives (HandoffHop Toy.primitives 1
      (Sample.historyOf Sample.recoverable) (some Sample.declaredFor) now) Sample.recoverable
      [Sample.recoverable]) ∧
    Sample.skipping.record.hasPrevHash = true ∧
    Sample.skipping.verifySignature Toy.primitives = true ∧
    (putWithEvidence Toy.primitives (Sample.holding Sample.recoverable) Sample.tld Sample.skipping
      200 true []).1 = .ok true ∧
    Sample.historyOf Sample.recoverable (Sample.recoverable.recordHash Toy.primitives)
      = some Sample.recoverable ∧
    decodeRecoveryEvidence Toy.primitives (evidenceFor Toy.primitives
      (Sample.holding Sample.recoverable) Sample.skipping []) = none ∧
    ∀ now, verifyAuthorityChainWithHandoffs Toy.primitives (Sample.historyOf Sample.recoverable)
      (some Sample.declaredFor) now [Sample.skipping] = false := by
  refine ⟨by decide +kernel, by decide +kernel, Sample.lineage_recoverable, by decide +kernel,
    by decide +kernel, by decide +kernel, by decide +kernel, by decide +kernel, ?_⟩
  intro now
  rw [Bool.eq_false_iff, ne_eq, single_accepted_iff]
  rintro ⟨_, hself | ⟨prev, records, hhop, _, _⟩⟩
  · exact absurd hself (by decide +kernel)
  · -- the only predecessor the reader can find has sequence 1
    have hfetched : Sample.historyOf Sample.recoverable Sample.skipping.record.prevHashBytes
        = some Sample.recoverable := by
      decide +kernel
    have hsame : some prev = some Sample.recoverable := hhop.links.fetched.symm.trans hfetched
    injection hsame with hsame
    have hnext := hhop.links.sequence
    rw [hsame] at hnext
    exact absurd hnext (by decide)

end Freens.Dht
