/-
**A LOCAL COPY AFTER A FAILED WALK** (`dht/transport.go`: `Lookup`, `LookupClaim`;
`resolver/resolver.go`: `freensResolve`).

After a failed walk `Lookup` serves the store's copy whatever its age; the resolver
finds a lapsed one invalid and answers NXDOMAIN. `LookupClaim` lets the failure
through for a lapsed copy.
-/
import Freens.Dht.LookupSpec
import Freens.Resolver.FreensResolve

namespace Freens.Resolver

open Library Naming Wire Dht

/-- The lookup as the record source of a resolver, under one outcome of its
walks. -/
def lookupSource (P : Primitives) (l : DHTLookup) (walk retry : Walk) : Source :=
  { lookup := fun wireName now =>
      (Dht.lookup P l wireName now walk retry).1.mapError (fun _ => ())
    lookupByHash := none
    recoveryEvidence := none }

/-- The copy the store holds under a key, while it is in its grace. -/
def localCopy (P : Primitives) (l : DHTLookup) (key : Bytes) (now : Int) : Option SignedEnvelope :=
  (get P l.store key now).1.toOption.join

variable {P : Primitives}

/-! ## The two lookups -/

variable {now : Int} {e : WalkError} {retry walk : Walk} {l : DHTLookup} {key aliasName : Bytes}

theorem walkResult_of_failed (h : iterativeGetDetailed P walk = (none, some e)) :
    walkResult P walk retry now = (none, some e) := by
  unfold walkResult
  rw [h]

theorem lookupAt_of_failed {kind : LookupKind} (hnode : l.hasNode = true)
    (h : iterativeGetDetailed P walk = (none, some e)) :
    (lookupAt P kind l key now walk retry).1 =
      if (localCopy P l key now).any (fun env => l.fresh key env now) then
        .ok (localCopy P l key now)
      else serveMiss kind (localCopy P l key now) (some e) now := by
  have hread : (readLocal P l key now).1 =
      (localCopy P l key now, (localCopy P l key now).any (fun env => l.fresh key env now)) := by
    unfold readLocal
    simp only [hnode, Bool.not_true, Bool.false_or]
    rfl
  unfold lookupAt
  rcases hlocal : readLocal P l key now with ⟨⟨cached, served⟩, l'⟩
  rw [hlocal] at hread
  obtain ⟨hcached, hserved⟩ := Prod.mk.inj hread
  rw [← hserved, ← hcached]
  cases served with
  | true => rfl
  | false =>
    simp only [Bool.false_eq_true, if_false]
    unfold finishLookup
    rw [walkResult_of_failed h]

variable {env : SignedEnvelope} {labels : List Bytes} {src : Source} {wn : Bytes} {k : Nat}

theorem not_fresh_of_lapsed (h : int64 env.record.expires ≤ now) : l.fresh key env now = false := by
  unfold DHTLookup.fresh
  rw [if_pos h]

theorem lookup_of_failed {l : DHTLookup} {wireName key : Bytes} {now : Int} {walk retry : Walk}
    {e : WalkError} (hkey : keyForWireName P wireName = .ok key) (hnode : l.hasNode = true)
    (h : iterativeGetDetailed P walk = (none, some e)) :
    (Dht.lookup P l wireName now walk retry).1 =
      match localCopy P l key now with
      | some env => .ok (some env)
      | none => .error (.walk e) := by
  have hlookup : Dht.lookup P l wireName now walk retry =
      lookupAt P .record l key now walk retry := by
    rw [Dht.lookup, lookupKey, hkey]
  rw [hlookup, lookupAt_of_failed hnode h]
  cases localCopy P l key now with
  | none => rfl
  | some env =>
    split
    · rfl
    · simp [serveMiss]

theorem lookupClaim_of_failed (hkey : keyForClaim P aliasName = .ok key) (hnode : l.hasNode = true)
    (h : iterativeGetDetailed P walk = (none, some e)) :
    (lookupClaim P l aliasName now walk retry).1 =
      match localCopy P l key now with
      | some env => if int64 env.record.expires ≤ now then .error (.walk e) else .ok (some env)
      | none => .error (.walk e) := by
  have hlookup : lookupClaim P l aliasName now walk retry =
      lookupAt P .claim l key now walk retry := by
    rw [lookupClaim, lookupKey, hkey]
  rw [hlookup, lookupAt_of_failed hnode h]
  cases localCopy P l key now with
  | none => rfl
  | some env =>
    by_cases hlapsed : int64 env.record.expires ≤ now
    · rw [Option.any_some, not_fresh_of_lapsed hlapsed]
      simp [serveMiss, hlapsed]
    · simp only [Option.any_some, if_neg hlapsed]
      split
      · rfl
      · simp [serveMiss, hlapsed]

/-! ## What the resolver makes of it -/

theorem serveHop_of_lapsed {tldID : Bytes} (hname : hopName P labels aliasName tldID k = .ok wn)
    (hlookup : src.lookup wn now = .ok (some env)) (hlapsed : env.record.expires ≤ uint64 now) :
    serveHop P src labels aliasName tldID now k = .error .nameError := by
  have hinvalid : isBasicValid P env (uint64 now) = false := by
    rw [Bool.eq_false_iff, ne_eq, isBasicValid_iff]
    intro hvalid
    exact UInt64.lt_irrefl _ (UInt64.lt_of_le_of_lt hlapsed hvalid.2.2.2)
  unfold serveHop
  rw [hname]
  dsimp only
  rw [hlookup]
  simp [hinvalid]

theorem serveHop_of_error {tldID : Bytes} (hname : hopName P labels aliasName tldID k = .ok wn)
    (hlookup : src.lookup wn now = .error ()) :
    serveHop P src labels aliasName tldID now k = .error .serverFailure := by
  unfold serveHop
  rw [hname]
  dsimp only
  rw [hlookup]

/-- **After a failed walk** `Lookup` serves the store's copy, lapsed or not, else the
failure; a lapsed copy makes NXDOMAIN, a failure SERVFAIL. `LookupClaim` serves only what
has not lapsed. -/
theorem failed_walk_outcome (l : DHTLookup) (now : Int) (walk retry : Walk) (e : WalkError)
    (hnode : l.hasNode = true) (hfailed : iterativeGetDetailed P walk = (none, some e)) :
    (∀ wireName key, keyForWireName P wireName = .ok key →
      (Dht.lookup P l wireName now walk retry).1 =
        (match localCopy P l key now with
        | some env => .ok (some env)
        | none => .error (.walk e)) ∧
      ∀ labels aliasName tldID k, hopName P labels aliasName tldID k = .ok wireName →
        (∀ env, localCopy P l key now = some env → env.record.expires ≤ uint64 now →
          serveHop P (lookupSource P l walk retry) labels aliasName tldID now k =
            .error .nameError) ∧
        (localCopy P l key now = none →
          serveHop P (lookupSource P l walk retry) labels aliasName tldID now k =
            .error .serverFailure)) ∧
    (∀ aliasName key, keyForClaim P aliasName = .ok key →
      (lookupClaim P l aliasName now walk retry).1 =
        match localCopy P l key now with
        | some env => if int64 env.record.expires ≤ now then .error (.walk e) else .ok (some env)
        | none => .error (.walk e)) := by
  refine ⟨?_, fun aliasName key hkey => lookupClaim_of_failed hkey hnode hfailed⟩
  intro wireName key hkey
  have hlookup := @lookup_of_failed P l wireName key now walk retry e hkey hnode hfailed
  refine ⟨hlookup, ?_⟩
  intro labels aliasName tldID k hname
  refine ⟨?_, ?_⟩
  · intro env hcopy hlapsed
    rw [hcopy] at hlookup
    refine serveHop_of_lapsed hname ?_ hlapsed
    show (Dht.lookup P l wireName now walk retry).1.mapError (fun _ => ()) = .ok (some env)
    rw [hlookup]
    rfl
  · intro hcopy
    rw [hcopy] at hlookup
    refine serveHop_of_error hname ?_
    show (Dht.lookup P l wireName now walk retry).1.mapError (fun _ => ()) = .error ()
    rw [hlookup]
    rfl

/-! ## A lapsed apex and a dead network -/

namespace LapsedSample

def tldID : Bytes := Toy.checksum (Toy.publicKey 1)

def apex : SignedEnvelope := Toy.signedBy 1 (Toy.tldRecord 1 1 1 100 900)

def holding : DHTLookup :=
  { store := (put Toy.primitives (newEnvelopeStore 0) tldID apex 200 true).2, fetchedAt := ∅,
    hasNode := true }

def deadPeer : Walk := .probes [.failed]

theorem deadPeer_degraded :
    iterativeGetDetailed Toy.primitives deadPeer = (none, some .degradedMiss) := by decide +kernel

end LapsedSample

section
open LapsedSample

theorem failed_walk_outcome_lapsed :
    localCopy Toy.primitives holding tldID 1000 = some apex ∧
    (Dht.lookup Toy.primitives holding (Toy.tldName 1) 1000 deadPeer deadPeer).1 =
      (match localCopy Toy.primitives holding tldID 1000 with
      | some env => .ok (some env)
      | none => .error (.walk .degradedMiss)) := by
  have houtcome := failed_walk_outcome (P := Toy.primitives) holding 1000 deadPeer deadPeer
    .degradedMiss rfl deadPeer_degraded
  refine ⟨by decide +kernel, ?_⟩
  exact (houtcome.1 (Toy.tldName 1) tldID (by decide +kernel)).1

/-- **A lapsed copy served**: at 1000 `Lookup` returns the copy that expired at 900 and no
error, and the apex counts as absent. -/
theorem lapsed_copy_served :
    iterativeGetDetailed Toy.primitives deadPeer = (none, some .degradedMiss) ∧
    int64 apex.record.expires ≤ 1000 ∧
    (Dht.lookup Toy.primitives holding (Toy.tldName 1) 1000 deadPeer deadPeer).1 =
      .ok (some apex) ∧
    serveHop Toy.primitives (lookupSource Toy.primitives holding deadPeer deadPeer)
      [] [0x78] tldID 1000 0 = .error .nameError := by
  refine ⟨deadPeer_degraded, by decide +kernel, by decide +kernel, by decide +kernel⟩

end

end Freens.Resolver
