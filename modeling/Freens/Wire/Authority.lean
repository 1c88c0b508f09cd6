/-
**AUTHORITY CHAINS** (`wire.go` §3.4, `transfer.go` §8.3, `recovery_walk.go` §8.4).
The root of a chain must be self-certifying, or be the tip of a lineage of
hand-offs back to such a root; every child must be authorised by its parent.
-/
import Freens.Library.Walk
import Freens.Wire.Recovery

namespace Freens.Wire

open Library Naming

/-! ## The checks on one chain -/

abbrev transferMaxDepth : Nat := 16

section
variable (P : Primitives)

/-- 1 to 9 envelopes, every signature verifying. -/
def chainWellFormed (chain : List SignedEnvelope) : Bool :=
  if chain.length = 0 then false
  else if chain.length > Constants.maxLabels + 1 then false
  else chain.all (·.verifySignature P)

/-- Signed by its owner, no labels, and the owner's hash is the tld_id of the
name. -/
def selfCertifiedTldRoot (e : SignedEnvelope) : Bool :=
  if e.signer ≠ e.record.owner then false
  -- the signer is the owner, so its hash is what the name must carry
  else match decodeWireName e.record.name with
    | .error _ => false
    | .ok (labels, tldID) =>
      if labels.length ≠ 0 then false
      else match Crypto.tldID P e.record.owner with
        | none => false
        | some ownerTldID => ownerTldID = tldID

/-- The delegate or the owner of the parent signed the child. -/
def authorizes (parent child : SignedEnvelope) : Bool :=
  if 0 < parent.record.delegationBytes.length ∧ parent.record.delegationBytes = child.signer then
    true
  else parent.record.owner = child.signer

/-- The child is authorised by its parent and a strict descendant of it. -/
def verifyDescent (parent child : SignedEnvelope) : Bool :=
  if !authorizes parent child then false
  else match decodeWireName parent.record.name, decodeWireName child.record.name with
    | .ok (pLabels, pTldID), .ok (cLabels, cTldID) =>
      if cTldID ≠ pTldID then false
      -- strictly longer: a child may skip levels but not repeat its parent
      else if cLabels.length ≤ pLabels.length then false
      else cLabels.drop (cLabels.length - pLabels.length) = pLabels
    | _, _ => false

/-- Each consecutive pair of a chain descends. -/
def verifyDescents : List SignedEnvelope → Bool
  | parent :: child :: rest => verifyDescent parent child && verifyDescents (child :: rest)
  | _ => true

/-- `VerifyAuthorityChain` (§3.4), its three parts named as in `transfer.go`. -/
def verifyAuthorityChain (chain : List SignedEnvelope) : Bool :=
  chainWellFormed P chain && chain.head?.any (selfCertifiedTldRoot P) && verifyDescents chain

/-! ## Hand-off lineages.

`fetchPredecessor` and `fetchEvidence` are the callbacks of the source; an
error and a nil result are both `none`. -/

variable (fetchPredecessor : Bytes → Option SignedEnvelope)

/-- The fetched predecessor of `cur`, when authentic, of the name, one sequence below and
named by prev_hash. -/
def linkedPredecessor (cur : SignedEnvelope) : Option SignedEnvelope :=
  if cur.record.prevHashBytes.length ≠ Constants.sha256Len then none
  else match fetchPredecessor cur.record.prevHashBytes with
    | none => none
    | some prev =>
      if !prev.verifySignature P then none
      -- unsigned addition, which wraps around as in the source
      else if prev.record.sequence + 1 ≠ cur.record.sequence then none
      else if prev.record.name ≠ cur.record.name then none
      else if !verifyChainLink P cur (some prev) then none
      else some prev

/-- One round of `verifyTransferWalk`: the previous owner signed. -/
def transferStep (cur : SignedEnvelope) : Option SignedEnvelope :=
  match linkedPredecessor P fetchPredecessor cur with
  | none => none
  | some prev => if prev.record.owner = cur.signer then some prev else none

/-- Back to the first record signed by its own owner, which must be a
self-certifying root. -/
def verifyTransferWalk (tip : SignedEnvelope) : Bool :=
  (walkBack (fun e => e.signer = e.record.owner) (transferStep P fetchPredecessor)
    transferMaxDepth tip).any (selfCertifiedTldRoot P)

/-- `VerifyAuthorityChainWithTransfers` (§8.3). -/
def verifyAuthorityChainWithTransfers (chain : List SignedEnvelope) : Bool :=
  chainWellFormed P chain &&
  chain.head?.any (fun root =>
    if root.signer = root.record.owner then selfCertifiedTldRoot P root
    else verifyTransferWalk P fetchPredecessor root) &&
  verifyDescents chain

variable (fetchEvidence : Option (Bytes → Option RecoveryEvidence)) (now : UInt64)

/-- Evidence for `cur` that names its owner and satisfies the policy of `prev`
at `now`. -/
def verifyRecoveryHop (cur prev : SignedEnvelope) : Bool :=
  match fetchEvidence with
  | none => false
  | some fetchEvidence =>
    match fetchEvidence (cur.recordHash P) with
    | none => false
    | some ev =>
      if ev.newOwnerPK ≠ cur.record.owner then false
      else verifyRecovery P prev.record.recovery ev (prev.recordHash P) prev.record.created now

/-- One round of `verifyHandoffWalk`: a transfer hop, or a recovery hop. -/
def handoffStep (cur : SignedEnvelope) : Option SignedEnvelope :=
  match linkedPredecessor P fetchPredecessor cur with
  | none => none
  | some prev =>
    if cur.signer = prev.record.owner then some prev
    -- a stranger's record: only a recovery can explain it
    else if cur.signer = cur.record.owner ∧ prev.record.owner ≠ cur.signer then
      if verifyRecoveryHop P fetchEvidence now cur prev then some prev else none
    else none

/-- Unlike the transfer walk it goes on until a record self-certifies. -/
def verifyHandoffWalk (tip : SignedEnvelope) : Bool :=
  (walkBack (selfCertifiedTldRoot P) (handoffStep P fetchPredecessor fetchEvidence now)
    transferMaxDepth tip).isSome

/-- `VerifyAuthorityChainWithHandoffs` (§8.3, §8.4). -/
def verifyAuthorityChainWithHandoffs (chain : List SignedEnvelope) : Bool :=
  chainWellFormed P chain &&
  chain.head?.any (fun root =>
    selfCertifiedTldRoot P root || verifyHandoffWalk P fetchPredecessor fetchEvidence now root) &&
  verifyDescents chain

end

end Freens.Wire
