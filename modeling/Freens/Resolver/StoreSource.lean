/-
**A STORE AS RECORD SOURCE** (`dht/history.go`: `LookupByHash`;
`dht/evidence.go`: `LookupEvidence`): what a resolver gets from its
own store, its retained history and its retained evidence when no peer is
asked.
-/
import Freens.Dht.Store
import Freens.Resolver.FreensResolve

namespace Freens.Resolver

open Library Naming Wire Dht

section
variable (P : Primitives) (s : EnvelopeStore)

/-- The history first, then a live entry stored under the hash. -/
def lookupByHash (now : Int) (h : Bytes) : Option SignedEnvelope :=
  if h.length ≠ Constants.sha256Len then none
  else match getHistory s h with
    | some env => some env
    | none =>
      match (get P s h now).1 with
      | .ok (some env) => if env.recordHash P = h then some env else none
      | _ => none

/-- `LookupEvidence`: by a 32-byte hash, decoded. -/
def lookupEvidence (recordHash : Bytes) : Option RecoveryEvidence :=
  if recordHash.length ≠ Constants.sha256Len then none
  else (s.evidence.lookup recordHash).bind (decodeRecoveryEvidence P)

/-- The store at a time, as the record source of a resolver. -/
def storeSource (now : Int) : Source :=
  { lookup := fun wn t =>
      match keyForWireName P wn with
      | .error _ => .error ()
      | .ok key => .ok (get P s key t).1.toOption.join
    lookupByHash := some (lookupByHash P s now)
    recoveryEvidence := some (lookupEvidence P s) }

end

end Freens.Resolver
