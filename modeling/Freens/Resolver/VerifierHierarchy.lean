/-
**THE THREE CHAIN VERIFIERS, ORDERED** (`wire.go`: `VerifyAuthorityChain`;
`transfer.go`; `recovery_walk.go`; `resolver.go`: `verifyAuthorityChain`).

They differ in what they ask of the root only. A transfer lineage has no
self-certifying record before its end, so the hand-off walk runs along it too.
-/
import Freens.Resolver.FreensResolve
import Freens.Wire.Lineage

namespace Freens.Resolver

open Library Wire

variable {P : Primitives} {fetchPredecessor : Bytes → Option SignedEnvelope}
  {fetchEvidence : Option (Bytes → Option RecoveryEvidence)} {now : UInt64}
  {chain : List SignedEnvelope}

/-! ## Each verifier accepts what the one before it does -/

theorem chain_accepted_mono {accepts accepts' : SignedEnvelope → Bool}
    (h : ∀ root, root.verifySignature P = true → accepts root = true → accepts' root = true)
    (hchain : (chainWellFormed P chain && chain.head?.any accepts && verifyDescents chain) = true) :
    (chainWellFormed P chain && chain.head?.any accepts' && verifyDescents chain) = true := by
  rw [Bool.and_eq_true, Bool.and_eq_true, Option.any_eq_true] at hchain ⊢
  obtain ⟨⟨hwf, root, hhead, hroot⟩, hdescents⟩ := hchain
  have hauth : root.verifySignature P = true :=
    (chainWellFormed_iff.mp hwf).2.2 root (List.mem_of_mem_head? hhead)
  exact ⟨⟨hwf, root, hhead, h root hauth hroot⟩, hdescents⟩

theorem verifyAuthorityChainWithTransfers_of_plain (h : verifyAuthorityChain P chain = true) :
    verifyAuthorityChainWithTransfers P fetchPredecessor chain = true := by
  refine chain_accepted_mono ?_ h
  intro root _ hself
  rw [if_pos (selfCertifiedTldRoot_iff.mp hself).1]
  exact hself

theorem verifyAuthorityChainWithHandoffs_of_transfers
    (h : verifyAuthorityChainWithTransfers P fetchPredecessor chain = true) :
    verifyAuthorityChainWithHandoffs P fetchPredecessor fetchEvidence now chain = true := by
  refine chain_accepted_mono ?_ h
  intro root hauth hroot
  split at hroot
  next => rw [hroot, Bool.true_or]
  obtain ⟨records, hlineage⟩ := lineage_of_verifyTransferWalk hauth hroot
  exact root_accepted_iff.mpr ((walkBack_isSome_iff hauth).mpr ⟨records, hlineage⟩)

theorem verifyHandoffWalk_unlinked {root : SignedEnvelope}
    (h : root.record.prevHashBytes.length = 0) :
    verifyHandoffWalk P fetchPredecessor fetchEvidence now root = selfCertifiedTldRoot P root := by
  have hnone : linkedPredecessor P fetchPredecessor root = none := by
    unfold linkedPredecessor
    rw [if_pos (by rw [h]; decide)]
  unfold verifyHandoffWalk walkBack handoffStep
  rw [hnone]
  cases selfCertifiedTldRoot P root <;> rfl

theorem verifyAuthorityChain_of_handoffs
    (hlink : ∀ root ∈ chain.head?, root.record.prevHashBytes.length = 0)
    (h : verifyAuthorityChainWithHandoffs P fetchPredecessor fetchEvidence now chain = true) :
    verifyAuthorityChain P chain = true := by
  unfold verifyAuthorityChainWithHandoffs at h
  rw [Bool.and_eq_true, Bool.and_eq_true, Option.any_eq_true] at h
  obtain ⟨⟨hwf, root, hhead, hroot⟩, hdescents⟩ := h
  rw [verifyHandoffWalk_unlinked (hlink root hhead), Bool.or_self] at hroot
  rw [verifyAuthorityChain, hwf, hhead, hdescents]
  simpa using hroot

/-- **The verifier hierarchy.** Each verifier accepts what the one before accepts, the three
agree on roots without prev_hash, and the resolver decides as the hand-off verifier does at
its own clock. -/
theorem verifier_hierarchy (P : Primitives) (chain : List SignedEnvelope)
    (fetchPredecessor : Bytes → Option SignedEnvelope)
    (fetchEvidence : Option (Bytes → Option RecoveryEvidence)) (now : UInt64) :
    (verifyAuthorityChain P chain = true →
      verifyAuthorityChainWithTransfers P fetchPredecessor chain = true) ∧
    (verifyAuthorityChainWithTransfers P fetchPredecessor chain = true →
      verifyAuthorityChainWithHandoffs P fetchPredecessor fetchEvidence now chain = true) ∧
    ((∀ root ∈ chain.head?, root.record.prevHashBytes.length = 0) →
      verifyAuthorityChain P chain = verifyAuthorityChainWithTransfers P fetchPredecessor chain ∧
      verifyAuthorityChainWithTransfers P fetchPredecessor chain =
        verifyAuthorityChainWithHandoffs P fetchPredecessor fetchEvidence now chain) ∧
    ∀ (src : Source) (evidence : Bytes → Option RecoveryEvidence) (clock : Int),
      src.lookupByHash = some fetchPredecessor → src.recoveryEvidence = some evidence →
      verifyServedChain P src clock chain =
        verifyAuthorityChainWithHandoffs P fetchPredecessor (some evidence) (uint64 clock) chain := by
  -- two of the three Booleans that imply each other in a circle
  have hagree : ∀ {evidence : Option (Bytes → Option RecoveryEvidence)} {now : UInt64},
      (∀ root ∈ chain.head?, root.record.prevHashBytes.length = 0) →
      verifyAuthorityChain P chain =
        verifyAuthorityChainWithHandoffs P fetchPredecessor evidence now chain := by
    intro evidence now hlink
    rw [Bool.eq_iff_iff]
    exact ⟨fun h => verifyAuthorityChainWithHandoffs_of_transfers
      (verifyAuthorityChainWithTransfers_of_plain h), verifyAuthorityChain_of_handoffs hlink⟩
  refine ⟨verifyAuthorityChainWithTransfers_of_plain,
    verifyAuthorityChainWithHandoffs_of_transfers, ?_, ?_⟩
  · intro hlink
    have hplain : verifyAuthorityChain P chain =
        verifyAuthorityChainWithTransfers P fetchPredecessor chain := by
      rw [Bool.eq_iff_iff]
      exact ⟨verifyAuthorityChainWithTransfers_of_plain, fun h => verifyAuthorityChain_of_handoffs
        hlink (@verifyAuthorityChainWithHandoffs_of_transfers P fetchPredecessor fetchEvidence now
          chain h)⟩
    exact ⟨hplain, hplain ▸ hagree hlink⟩
  · intro src evidence clock hhistory hevidence
    cases chain with
    | nil => rfl
    | cons root rest =>
      simp only [verifyServedChain, hhistory, hevidence]
      split
      next hlen =>
        refine hagree ?_
        intro root' hroot'
        rw [List.head?_cons, Option.mem_some_iff] at hroot'
        exact hroot' ▸ hlen
      next => rfl

namespace HierarchySample

open Toy

def origin : SignedEnvelope := signedBy 1 (tldRecord 1 1 1 100 900)

def transferred : SignedEnvelope :=
  signedBy 1 { tldRecord 1 2 2 200 900 with prevHash := some (origin.recordHash primitives) }

/-- A name below it, of key 3 and signed by key 2; and one below that. -/
def child : SignedEnvelope :=
  signedBy 2 { tldRecord 1 3 1 200 900 with
    name := Naming.wireImage [[0x77]] (checksum (publicKey 1)) }

def grandchild : SignedEnvelope :=
  signedBy 3 { tldRecord 1 3 1 200 900 with
    name := Naming.wireImage [[0x78], [0x77]] (checksum (publicKey 1)) }

def fetch (h : Bytes) : Option SignedEnvelope :=
  if h = origin.recordHash primitives then some origin else none

end HierarchySample

section
open HierarchySample

/-- The plain rules refuse a transferred root; the others follow its lineage. -/
theorem transferred_chain_accepted :
    verifyAuthorityChain Toy.primitives [transferred, child, grandchild] = false ∧
    verifyAuthorityChainWithTransfers Toy.primitives fetch [transferred, child, grandchild] = true ∧
    verifyAuthorityChainWithHandoffs Toy.primitives fetch none 300 [transferred, child, grandchild]
      = true := by
  have htransfers : verifyAuthorityChainWithTransfers Toy.primitives fetch
      [transferred, child, grandchild] = true := by decide +kernel
  exact ⟨by decide +kernel, htransfers,
    (verifier_hierarchy Toy.primitives [transferred, child, grandchild] fetch none 300).2.1
      htransfers⟩

end

end Freens.Resolver
