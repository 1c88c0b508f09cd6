/-
**THE ROUTES OF A QUESTION** (`resolver/resolver.go`: `ResolveQuestion`,
`resolveRouted`, `forwardDNS`; `config.go`: `RouteFor`; `dnsname.go`:
`unescapeName`; `naming/naming.go`: `DecomposeName`).

An outcome is authoritative (`aa`) when freens had the last word. The suffix rescue
gives a name that nobody knows one more chance without its last label.
-/
import Freens.Resolver.Cache

namespace Freens.Resolver

open Library Naming

/-! ## Names of questions -/

/-- The octets behind the presentation escapes. -/
def unescapeName : Bytes → Bytes
  | [] => []
  | c :: rest =>
    if c ≠ 0x5c then c :: unescapeName rest
    else match rest with
      -- a lone backslash at the end stays
      | [] => [0x5c]
      | a :: b :: d :: tail =>
        let v := (a.toNat - 0x30) * 100 + (b.toNat - 0x30) * 10 + (d.toNat - 0x30)
        if isDigit a && isDigit b && isDigit d && v ≤ 255 then UInt8.ofNat v :: unescapeName tail
        else a :: unescapeName (b :: d :: tail)
      | a :: tail => a :: unescapeName tail

/-- Why a name is not split. -/
inductive DecomposeError where
  /-- "empty label or alias in name %q" -/
  | emptyPart (name : Bytes)
  /-- "too many labels in name %q: max 8" -/
  | tooManyLabels (name : Bytes)
  /-- The error of a label or of the alias. -/
  | part (e : NamingError)
  deriving DecidableEq, Repr

/-- `strings.TrimSuffix(s, ".")`. -/
def trimDot (s : Bytes) : Bytes := if s.getLast? = some 0x2e then s.dropLast else s

/-- The labels in display order and the alias, normalised. -/
def decomposeName (P : Primitives) (name : Bytes) : Except DecomposeError (List Bytes × Bytes) :=
  let parts := (trimDot (trimSpace name)).splitOn 0x2e
  if parts.any List.isEmpty then .error (.emptyPart name)
  else if parts.length - 1 > Constants.maxLabels then .error (.tooManyLabels name)
  else match parts.dropLast.mapM (validateLabel P), validateAlias P (parts.getLastD []) with
    | .error e, _ => .error (.part e)
    | .ok _, .error e => .error (.part e)
    | .ok labels, .ok aliasName => .ok (labels, aliasName)

/-! ## Routes -/

/-- How a TLD is routed. -/
inductive Route where
  | dns
  | freens
  | freensFirst
  | dnsFirst
  | deny
  deriving DecidableEq, Repr

abbrev defaultRoute : Route := .dnsFirst

/-- The key of the wildcard route, `"*"`. -/
abbrev wildcard : Bytes := [0x2a]

/-- The parts of `Config` that routing reads. -/
structure Config where
  /-- `TLDRoutes`, by validated alias or `"*"`. -/
  tldRoutes : Bytes → Option Route
  suffixRescue : Bool

/-- `RouteFor`. An invalid alias takes the wildcard's entry; a missing one is no route. -/
def routeFor (P : Primitives) (cfg : Option Config) (aliasName : Bytes) : Option Route :=
  match cfg with
  | none => some defaultRoute
  | some cfg =>
    match validateAlias P aliasName with
    | .error _ => cfg.tldRoutes wildcard
    | .ok a =>
      match cfg.tldRoutes a with
      | some route => some route
      | none => some ((cfg.tldRoutes wildcard).getD defaultRoute)

/-- The resolver with its routing configuration and its upstream. -/
structure RoutingResolver extends Resolver where
  cfg : Option Config
  /-- `Upstream.Forward`: answer section and response code; `none` is an error
  or no response. -/
  upstream : Option (Question → Option (List AnswerRR × Nat))

/-- What one source says: records, response code, and whether there is an error. -/
structure Reply where
  rrs : List AnswerRR
  rcode : Nat
  failed : Bool
  deriving DecidableEq, Repr

/-- The outcome of a question: the reply, and whether freens gave it. -/
structure Outcome extends Reply where
  aa : Bool
  deriving DecidableEq, Repr

/-- NXDOMAIN or no data. -/
def Reply.isNegative (reply : Reply) : Bool :=
  reply.rcode = rcodeNameError || (reply.rcode = rcodeSuccess && reply.rrs.length = 0)

/-- The DNS code. -/
def Rcode.code : Rcode → Nat
  | .success => rcodeSuccess
  | .nameError => rcodeNameError
  | .serverFailure => rcodeServerFailure

section
variable (P : Primitives) (r : RoutingResolver)

/-- `forwardDNS`: refused without an upstream. -/
def forwardDNS (q : Question) : Reply :=
  match r.upstream with
  | none => ⟨[], rcodeRefused, false⟩
  | some forward =>
    match forward q with
    | none => ⟨[], rcodeServerFailure, true⟩
    | some (rrs, rcode) => ⟨rrs, rcode, false⟩

/-- `freensResolve` as a reply; its error goes with SERVFAIL. -/
def freensReply (labels : List Bytes) (aliasName : Bytes) (q : Question) (now : Int) : Reply :=
  let answer := freensResolve P r.toResolver labels aliasName q now
  ⟨answer.1.map .freens, answer.2.code, answer.2 = .serverFailure⟩

/-- `resolveRouted`: by the route of the alias. -/
def resolveRouted (labels : List Bytes) (aliasName : Bytes) (q : Question) (now : Int) : Outcome :=
  let freens := freensReply P r labels aliasName q now
  let upstream := forwardDNS r q
  match routeFor P r.cfg aliasName with
  | some .deny => ⟨⟨[], rcodeRefused, false⟩, false⟩
  | some .freens => ⟨freens, true⟩
  | some .dns => ⟨upstream, false⟩
  -- a miss is NXDOMAIN or no data, and the upstream's word is not authoritative
  | some .freensFirst => if freens.isNegative then ⟨upstream, false⟩ else ⟨freens, true⟩
  -- only NXDOMAIN hands the question on
  | some .dnsFirst =>
    if upstream.rcode = rcodeNameError then ⟨freens, true⟩ else ⟨upstream, false⟩
  -- an unknown route token
  | none => ⟨⟨[], rcodeRefused, true⟩, false⟩

/-- The suffix rescue may run: on, a label left, an implicit or freens-first route, no
public TLD. -/
def rescues (labels : List Bytes) (aliasName : Bytes) : Bool :=
  match r.cfg with
  | none => false
  | some cfg =>
    cfg.suffixRescue && labels.length ≥ 1 &&
      ((cfg.tldRoutes aliasName).isNone || routeFor P r.cfg aliasName = some .freensFirst) &&
      !isPublicTLD r.reservedTLDs aliasName

/-- What freens says of the name without its last label; the question stays. -/
def bareReply (labels : List Bytes) (q : Question) (now : Int) : Option Reply :=
  match decomposeName P (fqdn (List.intercalate [0x2e] labels)) with
  | .error _ => none
  | .ok (strippedLabels, strippedAlias) => some (freensReply P r strippedLabels strippedAlias q now)

/-- A rescue hits on records only. -/
def Reply.isHit (reply : Reply) : Bool :=
  !reply.failed && reply.rcode = rcodeSuccess && reply.rrs.length > 0

/-- The rescue's hit in place of a routed NXDOMAIN. -/
def rescued (labels : List Bytes) (aliasName : Bytes) (q : Question) (now : Int) : Option Reply :=
  let routed := resolveRouted P r labels aliasName q now
  if rescues P r labels aliasName && !routed.failed && routed.rcode = rcodeNameError then
    (bareReply P r labels q now).filter Reply.isHit
  else none

/-- The suffix rescue, else the routed answer. -/
def resolveNamed (labels : List Bytes) (aliasName : Bytes) (q : Question) (now : Int) : Outcome :=
  match rescued P r labels aliasName q now with
  | some bare => ⟨⟨bare.rrs, rcodeSuccess, false⟩, true⟩
  | none => resolveRouted P r labels aliasName q now

/-- `ResolveQuestion`: class, name, then the routes. -/
def resolveQuestion (q : ClassedQuestion) (now : Int) : Outcome :=
  -- only the Internet class is served
  if q.qclass ≠ 1 then ⟨⟨[], rcodeRefused, false⟩, false⟩
  else match decomposeName P (unescapeName q.name) with
    | .error _ => ⟨⟨[], rcodeNameError, false⟩, false⟩
    | .ok (labels, aliasName) => resolveNamed P r labels aliasName q.toQuestion now

end

end Freens.Resolver
