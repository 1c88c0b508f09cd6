/-
**THE TRUST ENGINE** (`trustsync/trustsync.go`): what the machine keeps for each
alias whose certificate authority it was told about, and the calls that change it.

An X.509 certificate is the record of what the code reads in it. Each call is given
the listing of the spool directory it finds. The clock is in nanoseconds.
-/
import Freens.Library.Table
import Freens.Resolver.FreensResolve

namespace Freens.TrustSync

open Library

/-! ## Certificates (`tlsca/tlsca.go`) -/

/-- What the code reads of a parsed certificate. -/
structure Certificate where
  isCA : Bool
  /-- The `KeyUsageCertSign` bit. -/
  certSign : Bool
  commonName : Bytes
  /-- `cert.CheckSignatureFrom(cert)` succeeds. -/
  selfSigned : Bool
  /-- Unix seconds. -/
  notAfter : Int
  /-- `RawSubjectPublicKeyInfo`. -/
  subjectPublicKeyInfo : Bytes
  deriving DecidableEq, Repr

/-- `validateOwnerCA`. -/
def validateOwnerCA (cert : Certificate) (aliasName : Bytes) : Bool :=
  cert.isCA && cert.certSign && cert.commonName = aliasName && cert.selfSigned

/-- The hash of the key, stable over re-issued certificates. -/
def caIdentity (P : Primitives) (cert : Certificate) : Bytes :=
  hexEncode (P.sha256 cert.subjectPublicKeyInfo)

/-! ## The state of an alias -/

/-- The state of a cross-certificate. -/
inductive Status where
  | installed
  | quarantined
  | rotating
  deriving DecidableEq, Repr

/-- A CA change that serves its observation grace. -/
structure PendingCA where
  caSha256 : Bytes
  since : Int
  deriving DecidableEq, Repr

/-- `crossState`; empty status and identity are those of an old state file. -/
structure CrossState where
  tldIDB32 : Bytes
  caSha256 : Bytes
  /-- Unix seconds; 0 while no cross-certificate was minted. -/
  notAfter : Int := 0
  status : Option Status
  pending : Option PendingCA := none
  system : Bool := false
  caIdentity : Bytes
  mintedAt : Int := 0
  deriving DecidableEq, Repr

/-- An entry without a status counts as installed. -/
def statusOf (st : CrossState) : Status := st.status.getD .installed

/-- The recorded aliases, and those in the system store. -/
structure Engine where
  state : Table Bytes CrossState
  installed : Table Bytes Bool

/-- No entry, no mark. -/
def Engine.new : Engine := ⟨∅, ∅⟩

/-- Installed, or installed with a rotation under observation. -/
def CrossState.trusted (st : CrossState) : Prop := statusOf st ≠ .quarantined

instance (st : CrossState) : Decidable st.trusted :=
  inferInstanceAs (Decidable (statusOf st ≠ .quarantined))

/-! ## Times and identifiers -/

abbrev refreshWithin : Int := 6 * 3600
abbrev rotationGrace : Int := 3600
abbrev mintThrottle : Int := 3600

/-- `time.Unix(sec, 0)` on the nanosecond clock. -/
def unixTime (sec : Int) : Int := sec * 10 ^ 9

/-- `now.Unix()`. -/
def unix (now : Int) : Int := now / 10 ^ 9

/-- The bits of a byte, most significant first. -/
def bitsOf (b : UInt8) : List Bool := (List.range 8).map (fun i => b.toNat.testBit (7 - i))

/-- The digit of a group of up to five bits, padded with zeros. -/
def base32Digit (bits : List Bool) : UInt8 :=
  let n := ((List.range 5).map (fun i => if bits.getD i false then 2 ^ (4 - i) else 0)).sum
  if n < 26 then UInt8.ofNat (97 + n) else UInt8.ofNat (24 + n)

/-- Lower-case base32 without padding, as the state file writes a tld_id. -/
def tldB32 (tldID : Bytes) : Bytes :=
  let bits := tldID.flatMap bitsOf
  (List.range ((bits.length + 4) / 5)).map (fun i => base32Digit ((bits.drop (5 * i)).take 5))

/-! ## The sweep -/

/-- A cross-certificate file of the spool, by alias; unreadable ones are not listed. -/
structure SpoolFile where
  aliasName : Bytes
  /-- The expiry of the certificate inside; `none` when it does not parse. -/
  notAfter : Option Int
  deriving DecidableEq, Repr

/-- The file's certificate has lapsed or does not parse. -/
def SpoolFile.expired (now : Int) (f : SpoolFile) : Bool :=
  match f.notAfter with
  | none => true
  | some t => ¬ unixTime t > now

/-- The entry is what a sweep deletes together with its file. -/
def CrossState.lapsed (now : Int) (st : CrossState) : Bool :=
  st.notAfter ≠ 0 ∧ ¬ unixTime st.notAfter > now

/-- A lapsed entry is dropped. -/
def purgeIfExpired (now : Int) (e : Engine) (aliasName : Bytes) : Engine :=
  match e.state.lookup aliasName with
  | none => e
  | some st =>
    if st.lapsed now then ⟨e.state.erase aliasName, e.installed.erase aliasName⟩ else e

/-- `sweepSpool` on the listing it finds, with the aliases that have a file left. -/
def sweepSpool (e : Engine) (spool : Option (List SpoolFile)) (now : Int) : Engine × List Bytes :=
  match spool with
  | none => (e, [])
  | some files =>
    (((files.filter (SpoolFile.expired now)).map SpoolFile.aliasName).foldl (purgeIfExpired now) e,
      (files.filter (fun f => !f.expired now)).map SpoolFile.aliasName)

/-! ## `OnOwnerCA` -/

/-- The arguments of `OnOwnerCA` and what the call finds outside the engine. -/
structure OwnerCACall where
  aliasName : Bytes
  tldID : Bytes
  /-- What `caDER` parses to. -/
  ca : Option Certificate
  recordExpires : Int
  claimYoung : Bool
  /-- The clock of the call, and the one its sweep reads. -/
  now : Int
  sweepNow : Int
  spool : Option (List SpoolFile)
  /-- `x509.CreateCertificate` makes a certificate that parses. -/
  minted : Bool
  /-- The certificate reached the system store. -/
  systemOK : Bool

/-- What the locked region decides. -/
inductive CAAction where
  | none
  | install
  | quarantine
  | defer
  deriving DecidableEq, Repr

/-- The installed certificate outlives the refresh margin. -/
def CrossState.fresh (now : Int) (st : CrossState) : Bool :=
  st.notAfter > 0 ∧ now + unixTime refreshWithin < unixTime st.notAfter

/-- The decision under the same CA identity, once no rotation is pending. -/
def decideSameCA (now : Int) (present claimYoung : Bool) (st : CrossState) : CAAction :=
  if statusOf st = .quarantined then
    if claimYoung then .none else .install
  else if claimYoung then .none
  -- state fresh but the spool file vanished: re-mint before the throttle is asked
  else if st.fresh now ∧ present = false then .install
  else if st.mintedAt ≠ 0 ∧ wrap64 (unix now - st.mintedAt) < mintThrottle then .none
  else if st.fresh now ∧ present = true then .none
  else .install

/-- The entry of a young claim. -/
def quarantineEntry (tld caHash : Bytes) : CrossState :=
  { tldIDB32 := tld, caSha256 := caHash, status := some .quarantined, caIdentity := caHash }

/-- The decision under another CA identity: the rotation gate. -/
def decideOtherCA (now : Int) (claimYoung : Bool) (tld caHash : Bytes) (st : CrossState) :
    CrossState × CAAction :=
  if statusOf st = .quarantined then
    if claimYoung then (quarantineEntry tld caHash, .none) else (st, .install)
  -- the installed CA already expired: a routine re-mint
  else if ¬ st.notAfter > unix now then (st, .install)
  else match st.pending with
    | none =>
      ({ st with pending := some ⟨caHash, unix now⟩, status := some .rotating }, .defer)
    | some p =>
      if p.caSha256 ≠ caHash then
        ({ st with pending := some ⟨caHash, unix now⟩, status := some .rotating }, .defer)
      else if wrap64 (unix now - p.since) ≥ rotationGrace then
        ({ st with pending := none, status := some .installed }, .install)
      else (st, .none)

/-- What `OnOwnerCA` writes under the lock, and what it does after. -/
def decideCA (now : Int) (present claimYoung : Bool) (tld caHash : Bytes) :
    Option CrossState → Option CrossState × CAAction
  | none => (none, if claimYoung then .quarantine else .install)
  | some st =>
    -- identity changed under the alias: the contest flag is not looked at
    if st.tldIDB32 ≠ tld then (some st, .install)
    else if st.caIdentity = [] ∨ st.caIdentity = caHash then
      let st := { st with caIdentity := caHash }
      -- back to the installed CA: the rotation is aborted
      if st.pending.isSome then (some { st with pending := none, status := some .installed }, .none)
      else (some st, decideSameCA now present claimYoung st)
    else
      let (st, act) := decideOtherCA now claimYoung tld caHash st
      (some st, act)

/-- The entry of an installed certificate. -/
def installEntry (tld caHash : Bytes) (ca : Certificate) (now : Int) (systemOK : Bool) :
    CrossState :=
  { tldIDB32 := tld, caSha256 := caHash, notAfter := ca.notAfter, status := some .installed,
    caIdentity := caHash, mintedAt := unix now, system := systemOK }

/-- The entry a decision writes under the lock, if any. -/
def Engine.write (e : Engine) (aliasName : Bytes) : Option CrossState → Engine
  | none => e
  | some st => { e with state := e.state.insert aliasName st }

/-- The decision written, then carried out. -/
def settleCA (P : Primitives) (e : Engine) (c : OwnerCACall) (ca : Certificate)
    (d : Option CrossState × CAAction) : Engine :=
  let caHash := caIdentity P ca
  let e := e.write c.aliasName d.1
  match d.2 with
  | .none => e
  | .defer => e
  | .quarantine =>
    { e with state := e.state.insert c.aliasName (quarantineEntry (tldB32 c.tldID) caHash) }
  | .install =>
    -- `CrossCert` refuses an expired owner CA
    if ¬ unixTime ca.notAfter > c.now ∨ c.minted = false then e
    else
      { state := e.state.insert c.aliasName
          (installEntry (tldB32 c.tldID) caHash ca c.now c.systemOK)
        installed := e.installed.insert c.aliasName c.systemOK }

/-- The certificate of a call that passes the screen. -/
def OwnerCACall.screened (c : OwnerCACall) : Option Certificate :=
  if c.aliasName = [] ∨ c.recordExpires ≤ 0 then none
  else c.ca.filter (fun ca => validateOwnerCA ca c.aliasName)

/-- The sweep that opens a call. -/
def OwnerCACall.swept (c : OwnerCACall) (e : Engine) : Engine × List Bytes :=
  sweepSpool e c.spool c.sweepNow

/-- `OnOwnerCA`: screened, swept, decided, carried out. -/
def onOwnerCA (P : Primitives) (e : Engine) (c : OwnerCACall) : Engine :=
  match c.screened with
  | none => e
  | some ca =>
    let (e, present) := c.swept e
    settleCA P e c ca
      (decideCA c.now (present.any (fun a => a = c.aliasName)) c.claimYoung (tldB32 c.tldID)
        (caIdentity P ca) (e.state.lookup c.aliasName))

/-! ## The other calls, and runs -/

/-- Entry and mark dropped. -/
def removeAlias (e : Engine) (aliasName : Bytes) : Engine :=
  ⟨e.state.erase aliasName, e.installed.erase aliasName⟩

/-- A stale signal for a superseded identity is ignored. -/
def onAliasDead (e : Engine) (aliasName tldID : Bytes) : Engine :=
  match e.state.lookup aliasName with
  | none => e
  | some st =>
    if 0 < tldID.length ∧ tldB32 tldID ≠ st.tldIDB32 then e
    else removeAlias e aliasName

/-- The calls of the engine. -/
inductive Call where
  | ownerCA (c : OwnerCACall)
  | aliasDead (aliasName tldID : Bytes)
  | removeAlias (aliasName : Bytes)
  | sweep (spool : Option (List SpoolFile)) (now : Int)

/-- One call of the engine. -/
def step (P : Primitives) (e : Engine) : Call → Engine
  | .ownerCA c => onOwnerCA P e c
  | .aliasDead aliasName tldID => onAliasDead e aliasName tldID
  | .removeAlias aliasName => removeAlias e aliasName
  | .sweep spool now => (sweepSpool e spool now).1

end Freens.TrustSync
