/-
**WHAT THE AUTHORITY VERIFIERS DECIDE.** The declarative side of
`Freens.Wire.Authority`: self-certification, descent, one hand-off hop and
the lineage of a root, each with the theorem that the code's check decides
exactly it.
-/
import Freens.Toy
import Freens.Wire.Authority

namespace Freens.Wire

open Library Naming

variable {P : Primitives}

/-! ## Roots and descents -/

variable {chain : List SignedEnvelope} {parent child : SignedEnvelope} {now' : UInt64}

theorem chainWellFormed_iff :
    chainWellFormed P chain = true ↔
      1 ≤ chain.length ∧ chain.length ≤ 9 ∧ ∀ e ∈ chain, e.verifySignature P = true := by
  unfold chainWellFormed
  rw [← List.all_eq_true]
  grind

theorem selfCertifiedTldRoot_iff {e : SignedEnvelope} :
    selfCertifiedTldRoot P e = true ↔ e.signer = e.record.owner ∧ e.record.owner.length = 32 ∧
      e.record.name = wireImage [] (P.sha256 e.record.owner) := by
  have hdecode : ∀ {tldID : Bytes}, decodeWireName e.record.name = .ok ([], tldID) ↔
      e.record.name = wireImage [] tldID ∧ tldID.length = 32 := by
    intro tldID
    rw [decodeWireName_eq_ok_iff]
    constructor
    · intro h
      exact ⟨h.1, h.2.tld_length⟩
    · intro h
      exact ⟨h.1, ⟨by simp, by simp, h.2⟩⟩
  unfold selfCertifiedTldRoot Crypto.tldID
  constructor
  · intro h
    split at h
    next => cases h
    next hsigner =>
      split at h
      next => cases h
      next labels tldID hname =>
        split at h
        next => cases h
        next hlabels =>
          have hnil : labels = [] := List.length_eq_zero_iff.mp (not_not.mp hlabels)
          subst hnil
          split at h
          next => cases h
          next owner howner =>
            rw [decide_eq_true_eq] at h
            subst h
            split at howner
            next => cases howner
            next hlen =>
              injection howner with howner
              subst howner
              exact ⟨not_not.mp hsigner, not_not.mp hlen, (hdecode.mp hname).1⟩
  · intro h
    obtain ⟨hsigner, hlen, hname⟩ := h
    have hok := hdecode.mpr ⟨hname, P.sha256_length _⟩
    simp [hsigner, hlen, hok]

theorem tldID_of_selfCertified {env : SignedEnvelope} {T : Bytes}
    (hroot : selfCertifiedTldRoot P env = true) (hname : env.record.name = wireImage [] T) :
    T = P.sha256 env.record.owner := by
  have h := (selfCertifiedTldRoot_iff.mp hroot).2.2
  rw [hname] at h
  simpa [wireImage] using h

/-- The parent delegates to `pk`. -/
def Delegates (parent : SignedEnvelope) (pk : Bytes) : Prop :=
  parent.record.delegation = some pk ∧ pk ≠ []

/-- **Authorised strict descent** (§3.4): signed by the parent's delegate or owner, in one
TLD, with properly more labels. -/
structure Descends (parent child : SignedEnvelope) : Prop where
  authorized : Delegates parent child.signer ∨ parent.record.owner = child.signer
  names : ∃ pLabels cLabels tldID, decodeWireName parent.record.name = .ok (pLabels, tldID) ∧
    decodeWireName child.record.name = .ok (cLabels, tldID) ∧
    pLabels.length < cLabels.length ∧ pLabels <:+ cLabels

theorem authorizes_iff :
    authorizes parent child = true ↔
      Delegates parent child.signer ∨ parent.record.owner = child.signer := by
  unfold authorizes Delegates Record.delegationBytes
  cases hd : parent.record.delegation with
  | none => simp
  | some d =>
    have hlen : 0 < d.length ∧ d = child.signer ↔ some d = some child.signer ∧ child.signer ≠ [] := by
      rw [Option.some.injEq, List.length_pos_iff]
      grind
    simp only [Option.getD_some, hlen]
    split
    next h => simp [h]
    next h => rw [decide_eq_true_eq]; grind

theorem verifyDescent_iff : verifyDescent parent child = true ↔ Descends parent child := by
  unfold verifyDescent
  constructor
  · intro h
    split at h
    next => cases h
    next hauth =>
      split at h
      next pLabels pTldID cLabels cTldID hp hc =>
        simp only [Bool.if_false_left, Bool.and_eq_true, Bool.not_eq_true', decide_eq_false_iff_not,
          not_not, decide_eq_true_eq, Nat.not_le] at h
        obtain ⟨htld, hlen, hdrop⟩ := h
        refine ⟨authorizes_iff.mp (by simpa using hauth), pLabels, cLabels, pTldID, hp,
          htld ▸ hc, hlen, ?_⟩
        rw [← hdrop]
        exact List.drop_suffix _ _
      next => cases h
  · intro h
    obtain ⟨hauth, pLabels, cLabels, tldID, hp, hc, hlen, hsuffix⟩ := h
    have hdrop : cLabels.drop (cLabels.length - pLabels.length) = pLabels :=
      (List.suffix_iff_eq_drop.mp hsuffix).symm
    simp [authorizes_iff.mpr hauth, hp, hc, hdrop, Nat.not_le.mpr hlen]

theorem verifyDescents_iff : verifyDescents chain = true ↔ chain.IsChain Descends := by
  induction chain with
  | nil => simp [verifyDescents]
  | cons parent rest ih =>
    cases rest with
    | nil => simp [verifyDescents]
    | cons child rest =>
      rw [verifyDescents, Bool.and_eq_true, verifyDescent_iff, ih, List.isChain_cons_cons]

/-! ## Hand-off hops -/

/-- `cur` names `prev`, and the source yields it: authentic, of the name, one sequence below. -/
structure Links (P : Primitives) (fetchPredecessor : Bytes → Option SignedEnvelope)
    (cur prev : SignedEnvelope) : Prop where
  fetched : fetchPredecessor cur.record.prevHashBytes = some prev
  hash : cur.record.prevHashBytes = prev.recordHash P
  authentic : prev.verifySignature P = true
  sequence : cur.record.sequence.toNat = prev.record.sequence.toNat + 1
  name : cur.record.name = prev.record.name

variable {prev cur root : SignedEnvelope}

theorem linkedPredecessor_eq_some_iff {fetchPredecessor : Bytes → Option SignedEnvelope} :
    linkedPredecessor P fetchPredecessor cur = some prev ↔ Links P fetchPredecessor cur prev := by
  constructor
  · intro h
    unfold linkedPredecessor at h
    split at h
    next => cases h
    next hlen =>
      split at h
      next => cases h
      next p hfetch =>
        have hprev : p = prev := by grind
        subst hprev
        have hsig : p.verifySignature P = true := by grind
        have hseq : p.record.sequence + 1 = cur.record.sequence := by grind
        have hname : p.record.name = cur.record.name := by grind
        have hlink : verifyChainLink P cur (some p) = true := by grind
        rw [verifyChainLink_some_iff] at hlink
        have hhas : cur.record.hasPrevHash = true := by
          simp only [Record.hasPrevHash, not_not.mp hlen]
          decide
        refine ⟨hfetch, hlink.1 hhas, hsig, ?_, hname.symm⟩
        -- the increment cannot have wrapped: the chain link makes it greater
        have hlt := UInt64.lt_iff_toNat_lt.mp hlink.2
        have hadd := congrArg UInt64.toNat hseq
        rw [UInt64.toNat_add] at hadd
        have hone : (1 : UInt64).toNat = 1 := rfl
        have hbound := p.record.sequence.toNat_lt
        omega
  · intro h
    have hlink : verifyChainLink P cur (some prev) = true := by
      rw [verifyChainLink_some_iff, UInt64.lt_iff_toNat_lt, h.sequence]
      exact ⟨fun _ => h.hash, Nat.lt_succ_self _⟩
    have hseq : prev.record.sequence + 1 = cur.record.sequence := by
      apply UInt64.toNat_inj.mp
      rw [UInt64.toNat_add, h.sequence]
      have hone : (1 : UInt64).toNat = 1 := rfl
      have hbound := cur.record.sequence.toNat_lt
      rw [h.sequence] at hbound
      omega
    have hlen : cur.record.prevHashBytes.length = 32 := by
      rw [h.hash]
      exact recordHash_length prev
    simp [linkedPredecessor, hlen, h.fetched, h.authentic, hseq, h.name, hlink]

variable (P) in
/-- **Quorum-backed recovery**: a declaration that names the owner of `cur`, has a quorum of
at least `least`, respects the timelock and has taken effect. -/
def RecoveryBacked (least : UInt64) (fetchEvidence : Option (Bytes → Option RecoveryEvidence))
    (now : UInt64) (cur prev : SignedEnvelope) : Prop :=
  ∃ fetch ev policy, fetchEvidence = some fetch ∧ fetch (cur.recordHash P) = some ev ∧
    ev.newOwnerPK = cur.record.owner ∧ prev.record.recovery = some policy ∧
    least ≤ policy.threshold ∧ Quorum P policy ev (prev.recordHash P) ∧ ev.notBefore ≤ now ∧
    TimelockBound policy prev.record.created ev.notBefore

variable (P) in
/-- **One hand-off**: signed by the previous owner (§8.3) or by the quorum-backed new one (§8.4). -/
structure HandoffHop (least : UInt64) (fetchPredecessor : Bytes → Option SignedEnvelope)
    (fetchEvidence : Option (Bytes → Option RecoveryEvidence)) (now : UInt64)
    (cur prev : SignedEnvelope) : Prop where
  links : Links P fetchPredecessor cur prev
  authorized : cur.signer = prev.record.owner ∨
    (cur.signer = cur.record.owner ∧ RecoveryBacked P least fetchEvidence now cur prev)

variable {fetchPredecessor : Bytes → Option SignedEnvelope}
  {fetchEvidence : Option (Bytes → Option RecoveryEvidence)} {now : UInt64}

theorem verifyRecoveryHop_iff (howner : cur.record.owner.length = 32) :
    verifyRecoveryHop P fetchEvidence now cur prev = true ↔
      RecoveryBacked P 1 fetchEvidence now cur prev := by
  unfold verifyRecoveryHop RecoveryBacked
  cases fetchEvidence with
  | none => simp
  | some fetch =>
    cases hev : fetch (cur.recordHash P) with
    | none => simp [hev]
    | some ev =>
      simp only [Bool.if_false_left, Bool.and_eq_true, Bool.not_eq_true', decide_eq_false_iff_not,
        not_not, verifyRecovery_iff (recordHash_length prev), hev, ne_eq, Option.some.injEq]
      constructor
      · intro h
        obtain ⟨hnames, policy, hpolicy, hthr, _, hbound, hquorum, hnow⟩ := h
        exact ⟨fetch, ev, policy, rfl, hev, hnames, hpolicy, hthr, hquorum, hnow, hbound⟩
      · intro h
        obtain ⟨fetch', ev', policy, hfetch, hev', hnames, hpolicy, hthr, hquorum, hnow, hbound⟩ := h
        subst hfetch
        rw [hev] at hev'
        injection hev' with hev'
        subst hev'
        exact ⟨hnames, policy, hpolicy, hthr, hnames ▸ howner, hbound, hquorum, hnow⟩

/-- **One round of the walk is one hop**, from an authentic record. -/
theorem handoffStep_eq_some_iff (hcur : cur.verifySignature P = true) :
    handoffStep P fetchPredecessor fetchEvidence now cur = some prev ↔
      HandoffHop P 1 fetchPredecessor fetchEvidence now cur prev := by
  have hsigner : cur.signer.length = 32 := (verifySignature_iff.mp hcur).2.1
  unfold handoffStep
  constructor
  · intro h
    split at h
    next => cases h
    next p hlinked =>
      have hlinks := linkedPredecessor_eq_some_iff.mp hlinked
      split at h
      next htransfer =>
        injection h with h
        subst h
        exact ⟨hlinks, .inl htransfer⟩
      next =>
        split at h
        next hself =>
          split at h
          next hhop =>
            injection h with h
            subst h
            exact ⟨hlinks, .inr ⟨hself.1, (verifyRecoveryHop_iff (hself.1 ▸ hsigner)).mp hhop⟩⟩
          next => cases h
        next => cases h
  · intro h
    rw [linkedPredecessor_eq_some_iff.mpr h.links]
    by_cases htransfer : cur.signer = prev.record.owner
    · simp [htransfer]
    · rcases h.authorized with hprev | ⟨hself, hbacked⟩
      · exact absurd hprev htransfer
      · have hhop := (verifyRecoveryHop_iff (hself ▸ hsigner)).mpr hbacked
        have hchange : cur.signer = cur.record.owner ∧ prev.record.owner ≠ cur.signer :=
          ⟨hself, fun heq => htransfer heq.symm⟩
        simp only [if_neg htransfer, if_pos hchange, hhop, if_true]

/-! ## Lineages and the verifier -/

/-- **A lineage of `root`**: authentic records, each handed over by the next, to the first
self-certifying one within 16 hops. -/
structure Lineage (P : Primitives) (hop : SignedEnvelope → SignedEnvelope → Prop)
    (root : SignedEnvelope) (records : List SignedEnvelope) : Prop where
  tip : records.head? = some root
  hops : records.length ≤ transferMaxDepth + 1
  authentic : ∀ e ∈ records, e.verifySignature P = true
  linked : records.IsChain hop
  origin : ∃ e, records.getLast? = some e ∧ selfCertifiedTldRoot P e = true
  first : ∀ e ∈ records.dropLast, selfCertifiedTldRoot P e = false

theorem lineage_iff_walkBack {budget : Nat} (hbudget : budget ≤ transferMaxDepth)
    (hroot : root.verifySignature P = true) :
    (walkBack (selfCertifiedTldRoot P) (handoffStep P fetchPredecessor fetchEvidence now)
        budget root).isSome = true ↔
      ∃ records, Lineage P (HandoffHop P 1 fetchPredecessor fetchEvidence now) root records ∧
        records.length ≤ budget + 1 := by
  rw [Option.isSome_iff_exists]
  simp only [walkBack_eq_some_iff]
  constructor
  · intro h
    obtain ⟨origin, records, hlen, htrail⟩ := h
    -- authenticity is carried along: each hop checks the record it reaches
    have hauth : ∀ e ∈ records, e.verifySignature P = true := by
      refine htrail.forall_mem ?_ hroot
      intro x y hxy hx
      exact ((handoffStep_eq_some_iff hx).mp hxy).links.authentic
    refine ⟨records, ⟨htrail.start, by omega, hauth, ?_, ⟨origin, htrail.finish, htrail.stops⟩,
      htrail.before⟩, hlen⟩
    refine (List.IsChain.iff_of_mem_imp ?_).mp htrail.steps
    intro x y hx _
    exact handoffStep_eq_some_iff (hauth x hx)
  · intro h
    obtain ⟨records, hl, hlen⟩ := h
    obtain ⟨origin, hlast, hself⟩ := hl.origin
    refine ⟨origin, records, hlen, hl.tip, hlast, ?_, hl.first, hself⟩
    refine (List.IsChain.iff_of_mem_imp ?_).mpr hl.linked
    intro x y hx _
    exact handoffStep_eq_some_iff (hl.authentic x hx)

theorem walkBack_isSome_iff (hroot : root.verifySignature P = true) :
    (walkBack (selfCertifiedTldRoot P) (handoffStep P fetchPredecessor fetchEvidence now)
        transferMaxDepth root).isSome = true ↔
      ∃ records, Lineage P (HandoffHop P 1 fetchPredecessor fetchEvidence now) root records := by
  rw [lineage_iff_walkBack (Nat.le_refl _) hroot]
  constructor
  · intro h
    obtain ⟨records, hl, _⟩ := h
    exact ⟨records, hl⟩
  · intro h
    obtain ⟨records, hl⟩ := h
    exact ⟨records, hl, hl.hops⟩

theorem root_accepted_iff :
    (selfCertifiedTldRoot P root || verifyHandoffWalk P fetchPredecessor fetchEvidence now root)
        = true ↔
      (walkBack (selfCertifiedTldRoot P) (handoffStep P fetchPredecessor fetchEvidence now)
        transferMaxDepth root).isSome = true := by
  rw [Bool.or_eq_true]
  constructor
  · intro h
    rcases h with hself | hwalk
    · simp [walkBack, hself]
    · exact hwalk
  · intro h
    exact .inr h

theorem verifyAuthorityChainWithHandoffs_single :
    verifyAuthorityChainWithHandoffs P fetchPredecessor fetchEvidence now [root] = true ↔
      root.verifySignature P = true ∧
        (walkBack (selfCertifiedTldRoot P) (handoffStep P fetchPredecessor fetchEvidence now)
          transferMaxDepth root).isSome = true := by
  rw [← root_accepted_iff]
  simp [verifyAuthorityChainWithHandoffs, chainWellFormed, verifyDescents]

theorem verifyRecoveryHop_mono (hle : now ≤ now')
    (h : verifyRecoveryHop P fetchEvidence now cur prev = true) :
    verifyRecoveryHop P fetchEvidence now' cur prev = true := by
  unfold verifyRecoveryHop at h ⊢
  split at h
  next => cases h
  next fetch =>
    split at h
    next => cases h
    next ev _ =>
      split at h
      next => cases h
      next hnames =>
        rw [if_neg hnames]
        rw [verifyRecovery_iff (recordHash_length prev)] at h ⊢
        obtain ⟨pol, hpol, hthr, hlen, hbound, hquorum, hstart⟩ := h
        exact ⟨pol, hpol, hthr, hlen, hbound, hquorum, UInt64.le_trans hstart hle⟩

theorem handoffStep_mono (hle : now ≤ now')
    (h : handoffStep P fetchPredecessor fetchEvidence now cur = some prev) :
    handoffStep P fetchPredecessor fetchEvidence now' cur = some prev := by
  unfold handoffStep at h ⊢
  cases hlinked : linkedPredecessor P fetchPredecessor cur with
  | none =>
    rw [hlinked] at h
    cases h
  | some p =>
    rw [hlinked] at h
    simp only at h ⊢
    split
    next htransfer =>
      rw [if_pos htransfer] at h
      exact h
    next htransfer =>
      rw [if_neg htransfer] at h
      split
      next hchange =>
        rw [if_pos hchange] at h
        split at h
        next hbacked =>
          rw [Option.some.injEq] at h
          subst h
          rw [if_pos (verifyRecoveryHop_mono hle hbacked)]
        next => cases h
      next hchange =>
        rw [if_neg hchange] at h
        exact h

theorem Lineage.name {least : UInt64} {records : List SignedEnvelope}
    (h : Lineage P (HandoffHop P least fetchPredecessor fetchEvidence now) root records) :
    ∀ e ∈ records, e.record.name = root.record.name := by
  have hchain : ∀ {l : List SignedEnvelope} {a : SignedEnvelope},
      (a :: l).IsChain (HandoffHop P least fetchPredecessor fetchEvidence now) →
      ∀ e ∈ a :: l, e.record.name = a.record.name := by
    intro l
    induction l with
    | nil =>
      intro a _ e he
      rw [List.mem_singleton.mp he]
    | cons b l ih =>
      intro a hl e he
      rw [List.isChain_cons_cons] at hl
      rcases List.mem_cons.mp he with hhead | htail
      · rw [hhead]
      · rw [ih hl.2 e htail, hl.1.links.name]
  obtain ⟨rest, hrecords⟩ : ∃ rest, records = root :: rest := List.head?_eq_some_iff.mp h.tip
  have hlinked := h.linked
  rw [hrecords] at hlinked ⊢
  exact hchain hlinked

theorem Lineage.single {hop : SignedEnvelope → SignedEnvelope → Prop}
    (hroot : root.verifySignature P = true) (hself : selfCertifiedTldRoot P root = true) :
    Lineage P hop root [root] :=
  ⟨rfl, by simp, by simpa using hroot, List.isChain_singleton root, ⟨root, rfl, hself⟩, by simp⟩

theorem handoffHop_of_transferStep (h : transferStep P fetchPredecessor cur = some prev) :
    HandoffHop P 1 fetchPredecessor fetchEvidence now cur prev := by
  unfold transferStep at h
  split at h
  next => cases h
  next p hlinked =>
    split at h
    next howner =>
      injection h with h
      subst h
      exact ⟨linkedPredecessor_eq_some_iff.mp hlinked, .inl howner.symm⟩
    next => cases h

/-- **A transferred root has a lineage**: the walk ends at a record signed by its own owner. -/
theorem lineage_of_verifyTransferWalk {root : SignedEnvelope}
    (hroot : root.verifySignature P = true)
    (h : verifyTransferWalk P fetchPredecessor root = true) :
    ∃ records, Lineage P (HandoffHop P 1 fetchPredecessor fetchEvidence now) root records := by
  unfold verifyTransferWalk at h
  obtain ⟨origin, hwalk, hself⟩ := (Option.any_eq_true _ _).mp h
  obtain ⟨records, hlen, htrail⟩ := walkBack_eq_some_iff.mp hwalk
  have hstep : ∀ x y, transferStep P fetchPredecessor x = some y →
      HandoffHop P 1 fetchPredecessor fetchEvidence now x y :=
    fun _ _ => handoffHop_of_transferStep
  refine ⟨records, htrail.start, hlen, ?_, htrail.steps.imp hstep, ⟨origin, htrail.finish, hself⟩,
    ?_⟩
  · exact htrail.forall_mem (fun x y hxy _ => (hstep x y hxy).links.authentic) hroot
  · -- before the last record no one signed for itself
    intro e he
    have hother := htrail.before e he
    rw [Bool.eq_false_iff]
    intro hcert
    rw [decide_eq_false_iff_not] at hother
    exact hother (selfCertifiedTldRoot_iff.mp hcert).1

/-- **The hand-off verifier is exact**: 1 to 9 authentic envelopes, each child descending
from its parent, the root the tip of a lineage. -/
theorem verifyAuthorityChainWithHandoffs_iff (P : Primitives)
    (fetchPredecessor : Bytes → Option SignedEnvelope)
    (fetchEvidence : Option (Bytes → Option RecoveryEvidence)) (now : UInt64)
    (chain : List SignedEnvelope) :
    verifyAuthorityChainWithHandoffs P fetchPredecessor fetchEvidence now chain = true ↔
      (1 ≤ chain.length ∧ chain.length ≤ 9 ∧ ∀ e ∈ chain, e.verifySignature P = true) ∧
      chain.IsChain Descends ∧
      ∃ root records, chain.head? = some root ∧
        Lineage P (HandoffHop P 1 fetchPredecessor fetchEvidence now) root records := by
  unfold verifyAuthorityChainWithHandoffs
  rw [Bool.and_eq_true, Bool.and_eq_true, chainWellFormed_iff, verifyDescents_iff,
    Option.any_eq_true]
  constructor
  · intro h
    obtain ⟨⟨hwf, root, hhead, hroot⟩, hdescents⟩ := h
    have hauth : root.verifySignature P = true := hwf.2.2 root (List.mem_of_mem_head? hhead)
    obtain ⟨records, hlineage⟩ := (walkBack_isSome_iff hauth).mp (root_accepted_iff.mp hroot)
    exact ⟨hwf, hdescents, root, records, hhead, hlineage⟩
  · intro h
    obtain ⟨hwf, hdescents, root, records, hhead, hlineage⟩ := h
    have hauth : root.verifySignature P = true := hwf.2.2 root (List.mem_of_mem_head? hhead)
    exact ⟨⟨hwf, root, hhead,
      root_accepted_iff.mpr ((walkBack_isSome_iff hauth).mpr ⟨records, hlineage⟩)⟩, hdescents⟩

namespace Sample

def openPolicy : RecoveryPolicyWire := { threshold := 0, keys := [], timelock := 5 }

def openRoot : SignedEnvelope :=
  Toy.signedBy 1 { Toy.tldRecord 1 1 1 100 900 with recovery := some openPolicy }

def openRecovery : SignedEnvelope :=
  Toy.signedBy 2 { Toy.tldRecord 1 2 2 200 900 with
    prevHash := some (openRoot.recordHash Toy.primitives) }

def unsigned : RecoveryEvidence :=
  { newOwnerPK := Toy.publicKey 2, signatures := [], notBefore := 105 }

theorem lineage_openRecovery :
    Lineage Toy.primitives (HandoffHop Toy.primitives 0 (fun _ => some openRoot)
      (some (fun _ => some unsigned)) 300) openRecovery [openRecovery, openRoot] := by
  refine ⟨rfl, by decide, by decide +kernel, ?_, ⟨openRoot, rfl, by decide +kernel⟩,
    by decide +kernel⟩
  rw [List.isChain_pair]
  refine ⟨⟨rfl, rfl, by decide +kernel, rfl, rfl⟩, .inr ⟨rfl, ?_⟩⟩
  refine ⟨fun _ => some unsigned, unsigned, openPolicy, rfl, rfl, rfl, rfl, by decide, ?_,
    by decide, ?_⟩
  · exact ⟨∅, by simp, by decide⟩
  · intro _
    decide +kernel

end Sample

/-- **A zero threshold is refused**, though every other condition of a recovery holds. -/
theorem zero_threshold_rejected :
    ∃ (fetchPredecessor : Bytes → Option SignedEnvelope)
      (fetchEvidence : Option (Bytes → Option RecoveryEvidence)) (now : UInt64)
      (chain : List SignedEnvelope),
      ((1 ≤ chain.length ∧ chain.length ≤ 9 ∧
          ∀ e ∈ chain, e.verifySignature Toy.primitives = true) ∧
        chain.IsChain Descends ∧
        ∃ root records, chain.head? = some root ∧
          Lineage Toy.primitives (HandoffHop Toy.primitives 0 fetchPredecessor fetchEvidence now)
            root records) ∧
      verifyAuthorityChainWithHandoffs Toy.primitives fetchPredecessor fetchEvidence now chain
        = false := by
  refine ⟨fun _ => some Sample.openRoot, some (fun _ => some Sample.unsigned), 300,
    [Sample.openRecovery], ⟨⟨by decide, by decide, by decide +kernel⟩, by simp, ?_⟩,
    by decide +kernel⟩
  exact ⟨Sample.openRecovery, [Sample.openRecovery, Sample.openRoot], rfl,
    Sample.lineage_openRecovery⟩

end Freens.Wire
