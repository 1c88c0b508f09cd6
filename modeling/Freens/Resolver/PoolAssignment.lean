/-
**WHICH QUESTIONS PAY FOR A WALK** (`resolver/resolver.go`: `canWalkFreens`,
`ResolveQuestion`, `resolveRouted`; `config.go`: `RouteFor`; `naming/reserved.go`).

The acting code is given the list of sources it asks, its legs. The rescue gate
tests the alias; the prediction tests the last label in front of it, and does not
look at whether the route is an explicit entry.
-/
import Freens.Resolver.Routing
import Freens.Toy

namespace Freens.Resolver

open Library Naming

/-- `canWalkFreens`: whether the question takes a walk slot. -/
def canWalkFreens (P : Primitives) (r : RoutingResolver) (q : ClassedQuestion) : Bool :=
  if r.freens.isNone || q.qclass ≠ 1 then false
  else match decomposeName P (unescapeName q.name) with
    | .error _ => false
    | .ok (labels, aliasName) =>
      match routeFor P r.cfg aliasName with
      | some .freens => true
      | some .freensFirst => true
      | some .dns =>
        match r.cfg with
        | none => false
        | some cfg =>
          if !cfg.suffixRescue || labels.length = 0 then false
          -- the last label, not the alias
          else !isPublicTLD r.reservedTLDs (labels.getLastD [])
      | _ => false

/-! ## The legs of a question -/

/-- One leg of a resolution. -/
inductive Leg where
  | walk (labels : List Bytes) (aliasName : Bytes)
  | forward
  deriving DecidableEq, Repr

section
variable (P : Primitives) (r : RoutingResolver)

/-- `freensResolve` is asked; without a record source it misses at once. -/
def walkLegs (labels : List Bytes) (aliasName : Bytes) : List Leg :=
  if r.freens.isSome then [.walk labels aliasName] else []

/-- The legs of a routed name. -/
def routedLegs (labels : List Bytes) (aliasName : Bytes) (q : Question) (now : Int) : List Leg :=
  match routeFor P r.cfg aliasName with
  | some .deny => []
  | some .freens => walkLegs r labels aliasName
  | some .dns => [.forward]
  | some .freensFirst =>
    walkLegs r labels aliasName ++
      (if (freensReply P r labels aliasName q now).isNegative then [.forward] else [])
  | some .dnsFirst =>
    .forward ::
      (if (forwardDNS r q).rcode = rcodeNameError then walkLegs r labels aliasName else [])
  | none => []

/-- The legs of the suffix rescue. -/
def rescueLegs (labels : List Bytes) (aliasName : Bytes) (q : Question) (now : Int) : List Leg :=
  let routed := resolveRouted P r labels aliasName q now
  if rescues P r labels aliasName && !routed.failed && routed.rcode = rcodeNameError then
    match decomposeName P (fqdn (List.intercalate [0x2e] labels)) with
    | .error _ => []
    | .ok (strippedLabels, strippedAlias) => walkLegs r strippedLabels strippedAlias
  else []

/-- The legs of a question. -/
def questionLegs (q : ClassedQuestion) (now : Int) : List Leg :=
  if q.qclass ≠ 1 then []
  else match decomposeName P (unescapeName q.name) with
    | .error _ => []
    | .ok (labels, aliasName) =>
      routedLegs P r labels aliasName q.toQuestion now ++
        rescueLegs P r labels aliasName q.toQuestion now

/-- The resolver without its freens source. -/
def RoutingResolver.sourceless : RoutingResolver :=
  { r with toResolver := { r.toResolver with freens := none } }

end

variable {P : Primitives} {r : RoutingResolver}

theorem walkLegs_of_isSome (h : r.freens.isSome = true) (labels : List Bytes) (aliasName : Bytes) :
    walkLegs r labels aliasName = [.walk labels aliasName] := if_pos h

@[simp] theorem freensReply_sourceless (labels : List Bytes) (aliasName : Bytes) (q : Question)
    (now : Int) : freensReply P r.sourceless labels aliasName q now = ⟨[], rcodeNameError, false⟩ := rfl

variable {labels : List Bytes} {aliasName : Bytes} {now : Int} {q : ClassedQuestion}

theorem resolveRouted_of_no_walk (hfreens : r.freens.isSome = true) {q : Question}
    (h : ∀ l a, Leg.walk l a ∉ routedLegs P r labels aliasName q now) :
    resolveRouted P r.sourceless labels aliasName q now = resolveRouted P r labels aliasName q now := by
  have hcfg : routeFor P r.sourceless.cfg aliasName = routeFor P r.cfg aliasName := rfl
  have hup : forwardDNS r.sourceless q = forwardDNS r q := rfl
  unfold resolveRouted
  unfold routedLegs at h
  rw [hcfg, hup]
  cases hroute : routeFor P r.cfg aliasName with
  | none => rfl
  | some route =>
    rw [hroute] at h
    cases route with
    | deny | dns => rfl
    | freens | freensFirst =>
      exact absurd (by simp [walkLegs_of_isSome hfreens]) (h labels aliasName)
    | dnsFirst =>
      by_cases hmiss : (forwardDNS r q).rcode = rcodeNameError
      · exact absurd (by simp [walkLegs_of_isSome hfreens, hmiss]) (h labels aliasName)
      · simp only [hmiss, if_false]

theorem rescued_sourceless (labels : List Bytes) (aliasName : Bytes) (q : Question) (now : Int) :
    rescued P r.sourceless labels aliasName q now = none := by
  unfold rescued bareReply
  simp only
  split
  · split
    · rfl
    · rw [freensReply_sourceless]
      rfl
  · rfl

theorem resolveQuestion_of_no_walk (h : ∀ l a, Leg.walk l a ∉ questionLegs P r q now) :
    resolveQuestion P r.sourceless q now = resolveQuestion P r q now := by
  by_cases hfreens : r.freens.isSome = true
  · unfold resolveQuestion
    unfold questionLegs at h
    split
    next => rfl
    next hclass =>
      rw [if_neg hclass] at h
      cases hname : decomposeName P (unescapeName q.name) with
      | error e => rfl
      | ok parts =>
        obtain ⟨labels, aliasName⟩ := parts
        rw [hname] at h
        simp only [List.mem_append, not_or] at h
        have hrouted := resolveRouted_of_no_walk hfreens (fun l a => (h l a).1)
        -- nothing is rescued on the other side either: the rescue is a walk
        have hnone : rescued P r labels aliasName q.toQuestion now = none := by
          unfold rescued bareReply
          simp only
          split
          next hrescue =>
            cases hbare : decomposeName P (fqdn (List.intercalate [0x2e] labels)) with
            | error e => rfl
            | ok bare =>
              have hleg := (h bare.1 bare.2).2
              unfold rescueLegs at hleg
              simp only [hrescue, if_true, hbare, walkLegs_of_isSome hfreens, List.mem_singleton,
                not_true_eq_false] at hleg
          next => rfl
        show resolveNamed P r.sourceless labels aliasName q.toQuestion now =
          resolveNamed P r labels aliasName q.toQuestion now
        unfold resolveNamed
        rw [rescued_sourceless, hnone]
        exact hrouted
  · have hsource : r.freens = none := by simpa using hfreens
    have hsame : r.sourceless = r := by
      unfold RoutingResolver.sourceless
      rw [← hsource]
    rw [hsame]

/-! ## What the prediction should be -/

/-- **The rescue is open**: the wildcard routes the name to dns, the rescue is on, there is
a label and the alias is no public TLD. -/
def RescueOpen (P : Primitives) (r : RoutingResolver) (labels : List Bytes) (aliasName : Bytes) :
    Prop :=
  ∃ cfg, r.cfg = some cfg ∧ routeFor P r.cfg aliasName = some .dns ∧
    cfg.tldRoutes aliasName = none ∧ cfg.suffixRescue = true ∧ labels ≠ [] ∧
    isPublicTLD r.reservedTLDs aliasName = false

/-- The first leg is a walk, or a walk follows an upstream miss through the rescue. -/
def WalkExpected (P : Primitives) (r : RoutingResolver) (q : ClassedQuestion) (labels : List Bytes)
    (aliasName : Bytes) (now : Int) : Prop :=
  (questionLegs P r q now).head? = some (.walk labels aliasName) ∨
    (r.freens.isSome = true ∧ q.qclass = 1 ∧ RescueOpen P r labels aliasName)

/-- Where the prediction looks at the last label and not at the entry, both come to the same. -/
def GatesAgree (P : Primitives) (r : RoutingResolver) (q : ClassedQuestion) (labels : List Bytes)
    (aliasName : Bytes) : Prop :=
  ∀ cfg, r.cfg = some cfg → r.freens.isSome = true → q.qclass = 1 →
    routeFor P r.cfg aliasName = some .dns → cfg.suffixRescue = true → labels ≠ [] →
    isPublicTLD r.reservedTLDs (labels.getLastD []) =
      ((cfg.tldRoutes aliasName).isSome || isPublicTLD r.reservedTLDs aliasName)

theorem rescueLegs_of_refused {q : Question}
    (h : (resolveRouted P r labels aliasName q now).rcode = rcodeRefused) :
    rescueLegs P r labels aliasName q now = [] := by
  unfold rescueLegs
  simp [h]

theorem questionLegs_of_sourceless (h : r.freens.isSome = false) {q : ClassedQuestion} {now : Int}
    {labels : List Bytes} {aliasName : Bytes} : Leg.walk labels aliasName ∉ questionLegs P r q now := by
  have hnone : ∀ l a, walkLegs r l a = [] := by
    intro l a
    simp [walkLegs, h]
  unfold questionLegs routedLegs rescueLegs
  split
  next => simp
  split
  next => simp
  simp only [hnone, List.mem_append, not_or]
  constructor
  · split <;> simp
  · split
    · split <;> simp
    · simp

section
variable (hname : decomposeName P (unescapeName q.name) = .ok (labels, aliasName))
include hname

theorem head_questionLegs_iff :
    (questionLegs P r q now).head? = some (.walk labels aliasName) ↔
      r.freens.isSome = true ∧ q.qclass = 1 ∧
        (routeFor P r.cfg aliasName = some .freens ∨
          routeFor P r.cfg aliasName = some .freensFirst) := by
  by_cases hfreens : r.freens.isSome = true
  · by_cases hclass : q.qclass = 1
    · have hlegs : questionLegs P r q now = routedLegs P r labels aliasName q.toQuestion now ++
          rescueLegs P r labels aliasName q.toQuestion now := by
        rw [questionLegs, if_neg (not_not.mpr hclass), hname]
      rw [hlegs]
      cases hroute : routeFor P r.cfg aliasName with
      | none =>
        rw [rescueLegs_of_refused (by simp [resolveRouted, hroute])]
        simp [routedLegs, hroute]
      | some route =>
        cases route with
        | deny =>
          rw [rescueLegs_of_refused (by simp [resolveRouted, hroute])]
          simp [routedLegs, hroute]
        | dns | dnsFirst => simp [routedLegs, hroute]
        | freens | freensFirst =>
          simp [routedLegs, hroute, walkLegs_of_isSome hfreens, hfreens, hclass]
    · simp [questionLegs, hclass]
  · have hno := @questionLegs_of_sourceless P r (by simpa using hfreens) q now labels aliasName
    refine iff_of_false ?_ (fun h => hfreens h.1)
    intro hhead
    exact hno (List.mem_of_head? hhead)

theorem canWalkFreens_iff :
    canWalkFreens P r q = true ↔ r.freens.isSome = true ∧ q.qclass = 1 ∧
      (routeFor P r.cfg aliasName = some .freens ∨ routeFor P r.cfg aliasName = some .freensFirst ∨
        ∃ cfg, r.cfg = some cfg ∧ routeFor P r.cfg aliasName = some .dns ∧
          cfg.suffixRescue = true ∧ labels ≠ [] ∧
          isPublicTLD r.reservedTLDs (labels.getLastD []) = false) := by
  by_cases hfreens : r.freens.isSome = true
  · by_cases hclass : q.qclass = 1
    · have hopen : (r.freens.isNone || q.qclass ≠ 1) = false := by
        simp [hclass, hfreens]
      rw [canWalkFreens, hopen, hname]
      simp only [hfreens, hclass, true_and, Bool.false_eq_true, if_false]
      cases hroute : routeFor P r.cfg aliasName with
      | none => simp
      | some route =>
        cases route with
        | deny | freens | freensFirst | dnsFirst => simp
        | dns =>
          cases hcfg : r.cfg with
          | none => simp
          | some cfg => simp [and_assoc]
    · simp [canWalkFreens, hclass]
  · have hnone : r.freens = none := by simpa using hfreens
    simp [canWalkFreens, hnone]

theorem walk_mem_questionLegs_iff
    (hroute : routeFor P r.cfg aliasName = some .dns) {rrs : List AnswerRR}
    (hmiss : forwardDNS r q.toQuestion = ⟨rrs, rcodeNameError, false⟩) :
    (∃ l a, Leg.walk l a ∈ questionLegs P r q now) ↔
      (r.freens.isSome = true ∧ q.qclass = 1 ∧ RescueOpen P r labels aliasName) ∧
        ∃ bare, decomposeName P (fqdn (List.intercalate [0x2e] labels)) = .ok bare := by
  by_cases hfreens : r.freens.isSome = true
  · by_cases hclass : q.qclass = 1
    · have hrouted : resolveRouted P r labels aliasName q.toQuestion now =
          ⟨⟨rrs, rcodeNameError, false⟩, false⟩ := by
        rw [resolveRouted, hroute, hmiss]
      have hopen : rescues P r labels aliasName = true ↔ RescueOpen P r labels aliasName := by
        unfold rescues RescueOpen
        cases hcfg : r.cfg with
        | none => simp
        | some cfg =>
          rw [hcfg] at hroute
          simp only [hroute, Option.some.injEq, reduceCtorEq, decide_false, Bool.or_false,
            Bool.and_eq_true, Option.isNone_iff_eq_none, Bool.not_eq_true', exists_eq_left', true_and,
            decide_eq_true_eq, ge_iff_le, Nat.one_le_iff_ne_zero, ne_eq, List.length_eq_zero_iff]
          tauto
      rw [questionLegs, if_neg (not_not.mpr hclass), hname]
      simp only [routedLegs, hroute, rescueLegs, hrouted, List.cons_append, List.nil_append,
        List.mem_cons, reduceCtorEq, false_or, Bool.not_false, Bool.and_true, decide_true, hfreens,
        hclass, true_and]
      rw [← hopen]
      by_cases hrescue : rescues P r labels aliasName = true
      · cases hbare : decomposeName P (fqdn (List.intercalate [0x2e] labels)) with
        | error e => simp [hrescue]
        | ok bare => simp [hrescue, walkLegs_of_isSome hfreens]
      · simp [hrescue]
    · simp [questionLegs, hclass]
  · have hno : ∀ l a, Leg.walk l a ∉ questionLegs P r q now :=
      fun l a => questionLegs_of_sourceless (by simpa using hfreens)
    simp [hno, hfreens]

end

/-! ## Prediction and routing -/

/-- **Pool assignment against routing.** `canWalkFreens` says whether the first leg is a
walk or the rescue is open, exactly when the two gates agree; on an upstream miss the rescue
walk is tried exactly when it is open and a name is left. -/
theorem pool_assignment_iff (P : Primitives) (r : RoutingResolver) (q : ClassedQuestion)
    {labels : List Bytes} {aliasName : Bytes}
    (hname : decomposeName P (unescapeName q.name) = .ok (labels, aliasName)) (now : Int) :
    ((canWalkFreens P r q = true ↔ WalkExpected P r q labels aliasName now) ↔
      GatesAgree P r q labels aliasName) ∧
    (routeFor P r.cfg aliasName = some .dns → ∀ rrs,
      forwardDNS r q.toQuestion = ⟨rrs, rcodeNameError, false⟩ →
      ((∃ l a, Leg.walk l a ∈ questionLegs P r q now) ↔
        (r.freens.isSome = true ∧ q.qclass = 1 ∧ RescueOpen P r labels aliasName) ∧
          ∃ bare, decomposeName P (fqdn (List.intercalate [0x2e] labels)) = .ok bare)) ∧
    ((∀ l a, Leg.walk l a ∉ questionLegs P r q now) →
      resolveQuestion P r.sourceless q now = resolveQuestion P r q now) := by
  refine ⟨?_, fun hroute rrs hmiss => walk_mem_questionLegs_iff hname hroute hmiss,
    resolveQuestion_of_no_walk⟩
  rw [canWalkFreens_iff hname, WalkExpected, head_questionLegs_iff hname]
  constructor
  · intro hagree cfg hcfg hfreens hclass hroute hswitch hlabels
    -- the name is on the dns route, so both sides are their last case
    rw [hcfg] at hroute
    simp only [hfreens, hclass, true_and, hcfg, hroute, RescueOpen, Option.some.injEq, reduceCtorEq,
      false_or, exists_eq_left', hswitch, ne_eq, hlabels, not_false_eq_true] at hagree
    cases hlast : isPublicTLD r.reservedTLDs (labels.getLastD []) with
    | false =>
      obtain ⟨hfree, hpublic⟩ := hagree.mp hlast
      rw [hfree, hpublic]
      rfl
    | true =>
      by_contra hgate
      have hboth : (cfg.tldRoutes aliasName).isSome = false ∧
          isPublicTLD r.reservedTLDs aliasName = false := by
        simpa using hgate
      have hopen := hagree.mpr ⟨by simpa using hboth.1, hboth.2⟩
      rw [hlast] at hopen
      cases hopen
  · intro hgates
    constructor
    · rintro ⟨hfreens, hclass, hfirst | hfirst | ⟨cfg, hcfg, hroute, hswitch, hlabels, hlast⟩⟩
      · exact .inl ⟨hfreens, hclass, .inl hfirst⟩
      · exact .inl ⟨hfreens, hclass, .inr hfirst⟩
      · have hgate := hgates cfg hcfg hfreens hclass hroute hswitch hlabels
        rw [hlast] at hgate
        obtain ⟨hfree, hpublic⟩ := Bool.or_eq_false_iff.mp hgate.symm
        exact .inr ⟨hfreens, hclass, cfg, hcfg, hroute, by simpa using hfree, hswitch, hlabels, hpublic⟩
    · rintro (⟨hfreens, hclass, hfirst⟩ |
        ⟨hfreens, hclass, cfg, hcfg, hroute, hfree, hswitch, hlabels, hpublic⟩)
      · exact ⟨hfreens, hclass, hfirst.imp_right .inl⟩
      · have hgate := hgates cfg hcfg hfreens hclass hroute hswitch hlabels
        rw [hfree, hpublic] at hgate
        exact ⟨hfreens, hclass, .inr (.inr ⟨cfg, hcfg, hroute, hswitch, hlabels, hgate⟩)⟩

namespace AssignmentSample

def com : Bytes := [0x63, 0x6f, 0x6d]

def lan : Bytes := [0x6c, 0x61, 0x6e]

def myhost : Bytes := [0x6d, 0x79, 0x68, 0x6f, 0x73, 0x74]

def address (label aliasName : Bytes) : ClassedQuestion :=
  { name := label ++ 0x2e :: aliasName ++ [0x2e], qtype := 1, qclass := 1 }

/-- A resolver that only forwards; `com` is reserved. -/
def upstreamOnly : RoutingResolver where
  freens := some { lookup := fun _ _ => .ok none, lookupByHash := none, recoveryEvidence := none }
  aliasPins _ := []
  reservedTLDs a := a = com
  allowReserved := false
  resolveAliasClaim _ _ := ⟨[], false, false⟩
  clock := 0
  cfg := some { tldRoutes := fun a => if a = wildcard then some .dns else none, suffixRescue := true }
  upstream := some (fun _ => some ([], rcodeNameError))

def reservedAllowed : RoutingResolver := { upstreamOnly with allowReserved := true }

end AssignmentSample

section
open Toy AssignmentSample

theorem local_host_walks :
    canWalkFreens primitives upstreamOnly (address myhost lan) = true ↔
      WalkExpected primitives upstreamOnly (address myhost lan) [myhost] lan 0 := by
  have hname : decomposeName primitives (unescapeName (address myhost lan).name) =
      .ok ([myhost], lan) := by
    decide +kernel
  refine ((pool_assignment_iff primitives upstreamOnly (address myhost lan) hname 0).1).mpr ?_
  intro cfg hcfg _ _ _ _ _
  obtain rfl : cfg = _ := (Option.some.inj hcfg).symm
  decide +kernel

/-- **A public name takes a walk slot, a rescued one does not.** `myhost.com` is only
forwarded; where reserved aliases are allowed, `com.lan` is rescued with a walk. -/
theorem public_name_takes_walk_slot :
    canWalkFreens primitives upstreamOnly (address myhost com) = true ∧
      questionLegs primitives upstreamOnly (address myhost com) 0 = [.forward] ∧
      canWalkFreens primitives reservedAllowed (address com lan) = false ∧
      questionLegs primitives reservedAllowed (address com lan) 0 = [.forward, .walk [] com] := by
  decide +kernel

end

end Freens.Resolver
