/-
**THE FREENS ROUTE OF THE RESOLVER** (`resolver/resolver.go`: `freensResolve`,
`verifyAuthorityChain`, `freensRRToDNS`).

The source is an argument; what it answers is arbitrary. Notifications to the
trust store are left out: they run beside the answer.
-/
import Freens.Library.Lists
import Freens.Wire.Authority

namespace Freens.Resolver

open Library Naming Wire

/-! ## The resolver and its sources -/

/-- The response codes of the freens path. -/
inductive Rcode where
  | success
  | nameError
  | serverFailure
  deriving DecidableEq, Repr

/-- The record source and its two optional capabilities, whose errors and nil results are `none`. -/
structure Source where
  /-- `Lookup wireName now`; the error is the source's own. -/
  lookup : Bytes → Int → Except Unit (Option SignedEnvelope)
  lookupByHash : Option (Bytes → Option SignedEnvelope)
  recoveryEvidence : Option (Bytes → Option RecoveryEvidence)

/-- What the claim lookup says of an alias. -/
structure ClaimOutcome where
  tldID : Bytes
  contested : Bool
  degraded : Bool
  deriving DecidableEq, Repr

end Freens.Resolver

open Freens Freens.Library Freens.Resolver in
/-- The parts of `Resolver` and its `Config` that the freens route reads. -/
structure Freens.Resolver where
  freens : Option Source
  /-- `Cfg.AliasPins`, by validated alias; empty when there is none. -/
  aliasPins : Bytes → Bytes
  /-- The table of public TLDs. -/
  reservedTLDs : Bytes → Bool
  allowReserved : Bool
  /-- `resolveAliasClaim alias now`. -/
  resolveAliasClaim : Bytes → Int → ClaimOutcome
  /-- `r.now()`, the clock of the timelock gate. -/
  clock : Int

namespace Freens.Resolver

open Library Naming Wire

/-- A question of the Internet class. -/
structure Question where
  name : Bytes
  qtype : UInt16
  deriving DecidableEq, Repr

/-! ## DNS records -/

/-- The record data served. -/
inductive RData where
  | a (ip : Bytes)
  | aaaa (ip : Bytes)
  | txt (strings : List Bytes)
  | ns (target : Bytes)
  | cname (target : Bytes)
  | mx (preference : Nat) (target : Bytes)
  | srv (priority weight port : Nat) (target : Bytes)
  | sshfp (algorithm type : UInt8) (fingerPrint : Bytes)
  | tlsa (usage selector matchingType : UInt8) (certificate : Bytes)
  | caa (flag : UInt8) (tag value : Bytes)
  deriving DecidableEq, Repr

/-- A `dns.RR` of class IN. -/
structure DnsRR where
  name : Bytes
  ttl : Nat
  rdata : RData
  deriving DecidableEq, Repr

/-- A final dot that is not escaped. -/
def isFqdn (s : Bytes) : Bool :=
  match s.reverse with
  | [] => false
  | last :: rest => last = 0x2e && (rest.takeWhile (· = 0x5c)).length % 2 = 0

/-- `dns.Fqdn`. -/
def fqdn (s : Bytes) : Bytes := if isFqdn s then s else s ++ [0x2e]

/-- A trimmed domain name, with its final dot. -/
def dnsNameFromRdata (P : Primitives) (b : Bytes) : Option Bytes :=
  let s := trimSpace b
  if !P.isDomainName s then none else some (fqdn s)

/-- The character-strings of a TXT record, 255 bytes at a time; `fuel` is the
length. -/
def txtChunks : Nat → Bytes → List Bytes
  | 0, _ => []
  | fuel + 1, b => if b.length = 0 then [] else b.take 255 :: txtChunks fuel (b.drop 255)

/-- The type switch of `freensRRToDNS`; malformed or unknown rdata is dropped. -/
def rdataToDNS (P : Primitives) (rr : RR) : Option RData :=
  if rr.type = 1 then
    if rr.rdata.length ≠ 4 then none else some (.a rr.rdata)
  else if rr.type = 28 then
    if rr.rdata.length ≠ 16 then none else some (.aaaa rr.rdata)
  else if rr.type = 16 then
    -- an empty TXT is one empty string
    if rr.rdata.length = 0 then some (.txt [[]])
    else some (.txt (txtChunks rr.rdata.length rr.rdata))
  else if rr.type = 2 then (dnsNameFromRdata P rr.rdata).map .ns
  else if rr.type = 5 then (dnsNameFromRdata P rr.rdata).map .cname
  else if rr.type = 15 then
    if rr.rdata.length < 3 then none
    else (dnsNameFromRdata P (rr.rdata.drop 2)).map (.mx (ofBigEndian (rr.rdata.take 2)))
  else if rr.type = 33 then
    if rr.rdata.length < 7 then none
    else (dnsNameFromRdata P (rr.rdata.drop 6)).map
      (.srv (ofBigEndian (rr.rdata.take 2)) (ofBigEndian ((rr.rdata.drop 2).take 2))
        (ofBigEndian ((rr.rdata.drop 4).take 2)))
  else if rr.type = 44 then
    match rr.rdata with
    | algorithm :: type :: fp :: rest => some (.sshfp algorithm type (hexEncode (fp :: rest)))
    | _ => none
  else if rr.type = 52 then
    match rr.rdata with
    | usage :: selector :: matching :: c :: rest =>
      some (.tlsa usage selector matching (hexEncode (c :: rest)))
    | _ => none
  else if rr.type = 257 then
    match rr.rdata with
    | flag :: tagLen :: rest =>
      if tagLen.toNat < 1 ∨ 2 + tagLen.toNat > rr.rdata.length then none
      else some (.caa flag (rest.take tagLen.toNat) (rest.drop tagLen.toNat))
    | _ => none
  else none

/-- The TTL of an answer: what is left of the record, at most an hour. -/
def answerTTL (rr : RR) (expires now : Int) : Nat :=
  let ttl := int64 rr.ttl
  let rem := wrap64 (expires - now)
  -- never past the record's own expiry
  let ttl := if rem < ttl then rem else ttl
  let ttl := if ttl > Constants.responseTTLCap then Constants.responseTTLCap else ttl
  (if ttl < 0 then 0 else ttl).toNat

/-- An RR with its answer TTL. -/
def freensRRToDNS (P : Primitives) (name : Bytes) (rr : RR) (expires now : Int) : Option DnsRR :=
  (rdataToDNS P rr).map (fun rdata => { name, ttl := answerTTL rr expires now, rdata })

abbrev contestedClaimTTLCap : Nat := 60

/-- The terminal's RRs of the asked type, with the TTL cap of a contested alias. -/
def answerRRs (P : Primitives) (q : Question) (terminal : SignedEnvelope) (contested : Bool)
    (now : Int) : List DnsRR :=
  let out := (terminal.record.rrset.filter (fun rr => rr.type = q.qtype.toUInt64)).filterMap
    (fun rr => freensRRToDNS P q.name rr (int64 terminal.record.expires) now)
  if contested then out.map (fun rr => { rr with ttl := min rr.ttl contestedClaimTTLCap }) else out

/-! ## The route -/

section
variable (P : Primitives)

/-- `resolvePin`: none for an invalid alias. -/
def resolvePin (r : Resolver) (aliasName : Bytes) : Bytes :=
  match validateAlias P aliasName with
  | .error _ => []
  | .ok a => r.aliasPins a

/-- Step 3a: the tld_id of the alias and whether it is contested. -/
def resolveTld (r : Resolver) (aliasName : Bytes) (now : Int) : Except Rcode (Bytes × Bool) :=
  -- a pin decides before the reserved list and the network are asked
  if (resolvePin P r aliasName).length ≠ 0 then .ok (resolvePin P r aliasName, false)
  else if isReservedTLD r.reservedTLDs aliasName && !r.allowReserved then .error .nameError
  -- a degraded miss is no answer about the name
  else if (r.resolveAliasClaim aliasName now).degraded then .error .serverFailure
  else if (r.resolveAliasClaim aliasName now).tldID.length = 0 then .error .nameError
  else .ok ((r.resolveAliasClaim aliasName now).tldID, (r.resolveAliasClaim aliasName now).contested)

/-- The wire name of hop `k`: the last `k` labels. -/
def hopName (labels : List Bytes) (aliasName tldID : Bytes) (k : Nat) : Except NamingError Bytes :=
  encodeWireName P (labels.drop (labels.length - k)) aliasName tldID

/-- One round of step 3b: the envelope of hop `k`, valid now and not revoked. -/
def serveHop (src : Source) (labels : List Bytes) (aliasName tldID : Bytes) (now : Int) (k : Nat) :
    Except Rcode SignedEnvelope :=
  match hopName P labels aliasName tldID k with
  | .error _ => .error .nameError
  | .ok wn =>
    -- the answer is not compared with `wn`, here or later
    match src.lookup wn now with
    | .error _ => .error .serverFailure
    | .ok none => .error .nameError
    | .ok (some env) =>
      if !isBasicValid P env (uint64 now) then .error .nameError
      else if env.isRevoked then .error .nameError
      else .ok env

/-- Step 3b: the served chain, root first. -/
def serveChain (src : Source) (labels : List Bytes) (aliasName tldID : Bytes) (now : Int) :
    Except Rcode (List SignedEnvelope) :=
  (List.range (labels.length + 1)).mapM (serveHop P src labels aliasName tldID now)

/-- The plain rules for a root without prev_hash, else the walk the capabilities allow. -/
def verifyServedChain (src : Source) (clock : Int) (chain : List SignedEnvelope) : Bool :=
  match chain with
  | [] => false
  | root :: _ =>
    if root.record.prevHashBytes.length = 0 then verifyAuthorityChain P chain
    else match src.lookupByHash, src.recoveryEvidence with
      | none, _ => verifyAuthorityChain P chain
      | some fetchPredecessor, some fetchEvidence =>
        verifyAuthorityChainWithHandoffs P fetchPredecessor (some fetchEvidence) (uint64 clock) chain
      | some fetchPredecessor, none => verifyAuthorityChainWithTransfers P fetchPredecessor chain

/-- Steps 3b to 3d under a known tld_id. -/
def resolveUnder (src : Source) (clock : Int) (labels : List Bytes) (aliasName tldID : Bytes)
    (contested : Bool) (q : Question) (now : Int) : List DnsRR × Rcode :=
  match serveChain P src labels aliasName tldID now with
  | .error rcode => ([], rcode)
  | .ok chain =>
    match chain.getLast? with
    | none => ([], .nameError)
    | some terminal =>
      -- the terminal was checked in its own round; the source checks it again
      if !isBasicValid P terminal (uint64 now) then ([], .nameError)
      else if !verifyServedChain P src clock chain then ([], .nameError)
      else (answerRRs P q terminal contested now, .success)

/-- `freensResolve`: the TLD, the chain, the answer. -/
def freensResolve (r : Resolver) (labels : List Bytes) (aliasName : Bytes) (q : Question)
    (now : Int) : List DnsRR × Rcode :=
  match r.freens with
  | none => ([], .nameError)
  | some src =>
    match resolveTld P r aliasName now with
    | .error rcode => ([], rcode)
    | .ok (tldID, contested) =>
      resolveUnder P src r.clock labels aliasName tldID contested q now

end

end Freens.Resolver
