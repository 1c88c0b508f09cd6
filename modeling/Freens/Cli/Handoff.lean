/-
**HANDING A NAME OVER** (`cli/lifecycle.go`: `buildHandoffEnvelope`;
`dht/store.go`: `PutWithEvidence`; `wire/recovery_walk.go`, `transfer.go`).

The current owner signs a record that names its successor and points back at the
record it replaces. The put that installs it also moves that record to the
history, where the verifier will look for it.
-/
import Freens.Dht.AuditTrail
import Freens.Library.CborItem
import Freens.Wire.DecodedBounds

namespace Freens.Cli

open Library Naming Wire Dht

/-! ## The command -/

/-- Why a hand-off is not built. -/
inductive HandoffError where
  /-- "spec 8.3: the hand-off must be signed by the CURRENT owner %s, got %s" -/
  | notCurrentOwner (owner signer : Bytes)
  /-- "invalid -expires: %v" -/
  | invalidExpires
  | record (e : RecordError)
  /-- "invalid IPv4 address %q" -/
  | invalidIPv4 (ip : Bytes)
  /-- "A rdata must be exactly 4 bytes, got %d" -/
  | rdata (got : Nat)
  | rr (e : NewRRError)
  /-- The error of `SignRecord`. -/
  | encode
  deriving DecidableEq, Repr

/-- The flags that reach the record; an empty string is a flag not given. -/
structure HandoffFlags where
  ip : Bytes
  expiresStr : Bytes
  ttl : UInt64
  deriving DecidableEq, Repr

abbrev rrTypeA : UInt64 := 1

/-- An A record of four bytes. -/
def aRR (ip4 : Bytes) (ttl : UInt64) : Except HandoffError RR :=
  if ip4.length ≠ 4 then .error (.rdata ip4.length)
  else (newRR rrTypeA ttl ip4).mapError .rr

section

/-! `parseIPv4` is `net.ParseIP(·).To4()` and `parseUint` is
`strconv.ParseUint(·, 10, 64)`; both fail as `none`. -/

variable (P : Primitives) (parseIPv4 : Bytes → Option Bytes) (parseUint : Bytes → Option UInt64)

/-- The expiry: a day from now, or what the flag says. -/
def handoffExpires (now : UInt64) (expiresStr : Bytes) : Except HandoffError UInt64 :=
  if expiresStr.length = 0 then .ok (now + uint64 Constants.recordDefaultTTL)
  else expect .invalidExpires (parseUint expiresStr)

/-- The RRset: carried over, or one A record in its place. -/
def handoffRRset (prev : Record) (flags : HandoffFlags) : Except HandoffError (List RR) :=
  if flags.ip.length = 0 then .ok prev.rrset
  else do
    let ip4 ← expect (.invalidIPv4 flags.ip) (parseIPv4 flags.ip)
    let rr ← aRR ip4 flags.ttl
    return [rr]

/-- The fields set after `NewRecord`: a delegation to the previous owner, or none, follows
the name; another's survives. A revocation is not carried over. -/
def handoffRecord (prev : SignedEnvelope) (fresh : Record) (newOwnerPK : Bytes)
    (rrset : List RR) : Record :=
  { fresh with
    prevHash := some (prev.recordHash P)
    rrset
    delegation :=
      if prev.record.delegationBytes.length = 0
          ∨ prev.record.delegationBytes = prev.record.owner then some newOwnerPK
      else prev.record.delegation
    recovery := prev.record.recovery
    claim := prev.record.claim }

/-- `buildHandoffEnvelope`: the next record, signed by the current owner. -/
def buildHandoffEnvelope (prev : SignedEnvelope) (newOwnerPK : Bytes) (signerKP : Crypto.Keypair)
    (flags : HandoffFlags) (now : UInt64) : Except HandoffError SignedEnvelope :=
  if signerKP.publicKey P ≠ prev.record.owner then
    .error (.notCurrentOwner prev.record.owner (signerKP.publicKey P))
  else do
    let expires ← handoffExpires parseUint now flags.expiresStr
    let fresh ← (newRecord prev.record.name newOwnerPK (prev.record.sequence + 1) now
      expires).mapError .record
    let rrset ← handoffRRset parseIPv4 prev.record flags
    expect .encode (signRecord P (handoffRecord P prev fresh newOwnerPK rrset) signerKP)

end

/-- `VerifyAuthorityChainWithHandoffs` with the history and the evidence of
one store. -/
def verifyFromStore (P : Primitives) (s : EnvelopeStore) (now : UInt64)
    (chain : List SignedEnvelope) : Bool :=
  verifyAuthorityChainWithHandoffs P (getHistory s) (some (storedEvidence P s)) now chain

variable {P : Primitives} {parseIPv4 : Bytes → Option Bytes} {parseUint : Bytes → Option UInt64}

/-! ## The record -/

/-- **What the hand-off record is**: the next of its name, linked to the predecessor and
signed by its owner; another delegate stays. -/
structure HandedOver (P : Primitives) (prev env : SignedEnvelope) : Prop where
  name : env.record.name = prev.record.name
  signer : env.signer = prev.record.owner
  sequence : env.record.sequence.toNat = prev.record.sequence.toNat + 1
  link : env.record.prevHashBytes = prev.recordHash P
  authentic : env.verifySignature P = true
  delegate : ∀ pk, Delegates prev pk → pk ≠ prev.record.owner → Delegates env pk

variable {prev root : SignedEnvelope} {newOwnerPK : Bytes}
  {rrset : List RR} {signerKP : Crypto.Keypair} {flags : HandoffFlags}

theorem handoffRecord_delegation {fresh : Record} {pk : Bytes} (hdelegates : Delegates prev pk)
    (hother : pk ≠ prev.record.owner) :
    (handoffRecord P prev fresh newOwnerPK rrset).delegation = some pk := by
  have hbytes : prev.record.delegationBytes = pk := by
    rw [Record.delegationBytes, hdelegates.1, Option.getD_some]
  have hkept : ¬ (prev.record.delegationBytes.length = 0
      ∨ prev.record.delegationBytes = prev.record.owner) := by
    rw [hbytes, List.length_eq_zero_iff]
    exact not_or.mpr ⟨hdelegates.2, hother⟩
  show (if _ then _ else prev.record.delegation) = some pk
  rw [if_neg hkept, hdelegates.1]

theorem handedOver_of_build {env : SignedEnvelope} {now : UInt64}
    (h : buildHandoffEnvelope P parseIPv4 parseUint prev newOwnerPK signerKP flags now = .ok env) :
    HandedOver P prev env := by
  simp only [buildHandoffEnvelope, guard_eq_ok, bind_eq_ok, mapError_eq_ok, expect_eq_ok, ne_eq,
    not_not] at h
  obtain ⟨howner, expires, _, fresh, hfresh, rrset, _, hsigned⟩ := h
  obtain ⟨hvalid, hrec⟩ := newRecord_eq_ok_iff.mp hfresh
  have hseq := hvalid.sequence
  have hauthentic := verifySignature_signRecord hsigned
  obtain ⟨_, henv⟩ := signRecord_eq_some_iff.mp hsigned
  subst henv hrec
  exact {
    name := rfl
    signer := howner
    sequence := sequence_succ hseq
    link := rfl
    authentic := hauthentic
    delegate := fun pk hpk hother => ⟨handoffRecord_delegation hpk hother, hpk.2⟩ }

/-- **When there is a hand-off record**: readable flags, an expiry not before now, a next
sequence number. -/
theorem exists_handoff {now expires : UInt64} (hsigner : signerKP.publicKey P = prev.record.owner)
    (hexpires : handoffExpires parseUint now flags.expiresStr = .ok expires)
    (hrrset : handoffRRset parseIPv4 prev.record flags = .ok rrset) (hlease : now ≤ expires)
    (hname : prev.record.name ≠ []) (hencodes : prev.record.encodes = true)
    (hkey : newOwnerPK.length = 32) (hseq : prev.record.sequence.toNat + 1 < 2 ^ 64) :
    ∃ env, buildHandoffEnvelope P parseIPv4 parseUint prev newOwnerPK signerKP flags now
      = .ok env := by
  have hvalid : (Record.mk 1 prev.record.name newOwnerPK (prev.record.sequence + 1) now expires
      [] none none none [] none).Valid :=
    ⟨rfl, hname, hkey, one_le_succ hseq, hlease, by simp, by simp, by simp⟩
  simp only [buildHandoffEnvelope, guard_eq_ok, bind_eq_ok, mapError_eq_ok, expect_eq_ok, ne_eq,
    not_not]
  exact ⟨_, hsigner, expires, hexpires, _, newRecord_eq_ok_iff.mpr ⟨hvalid, rfl⟩, rrset, hrrset,
    signRecord_eq_some_iff.mpr ⟨hencodes, rfl⟩⟩

/-! ## In the store -/

section

variable {s : EnvelopeStore} {k : Bytes} {cur : Entry} {env : SignedEnvelope} {t : Int}

section
variable (h : HandedOver P cur.env env)
include h

theorem HandedOver.later :
    cur.env.record.sequence < env.record.sequence := by
  rw [UInt64.lt_iff_toNat_lt, h.sequence]
  exact Nat.lt_succ_self _

theorem HandedOver.hash_ne (halone : Alone P s env cur.env) :
    env.recordHash P ≠ cur.env.recordHash P := by
  intro hsame
  have hseq := h.sequence
  rw [halone.2 hsame] at hseq
  omega

theorem HandedOver.installed (hkey : k.length = 32)
    (hcur : s.entries.lookup k = some cur) (halive : alive cur.env t = true)
    (hne : env.recordHash P ≠ cur.env.recordHash P) (verify : Bool) (evidence : Bytes) :
    putWithEvidence P s k env t verify evidence = (.ok true, install P s k env t) := by
  have hwins : envelopeWins P env cur.env = true := envelopeWins_iff.mpr (.inl h.later)
  have hverdict : judge P s k env t evidence = .install := by
    rw [judge_of_alive hcur halive, judgeIncumbent_install_iff]
    exact ⟨hne, hwins, .inl ⟨h.link, h.later, .inl h.signer⟩⟩
  rw [putWithEvidence_eq hkey (fun _ => h.authentic), hverdict]
  rfl

end

theorem storedEvidence_install (s : EnvelopeStore) (k : Bytes) (env : SignedEnvelope) (t : Int) :
    storedEvidence P (install P s k env t) = storedEvidence P s := by
  funext hash
  unfold storedEvidence getEvidence
  rw [install_evidence]

end

/-! ## One lineage, two histories -/

section

variable {fetch fetch' : Bytes → Option SignedEnvelope}
  {fetchEvidence : Option (Bytes → Option RecoveryEvidence)} {now now' : UInt64}
  {rest : List SignedEnvelope}

theorem fetched_of_chain {root : SignedEnvelope}
    (h : (root :: rest).IsChain (HandoffHop P 1 fetch fetchEvidence now)) :
    ∀ r ∈ rest, fetch (r.recordHash P) = some r := by
  induction rest generalizing root with
  | nil =>
    intro r hr
    exact absurd hr List.not_mem_nil
  | cons prev rest ih =>
    intro r hr
    rw [List.isChain_cons_cons] at h
    rcases List.mem_cons.mp hr with hhead | htail
    · rw [hhead, ← h.1.links.hash]
      exact h.1.links.fetched
    · exact ih h.2 r htail

theorem handoffHop_carry {cur : SignedEnvelope}
    (h : HandoffHop P 1 fetch fetchEvidence now cur prev)
    (hkept : fetch' (prev.recordHash P) = some prev) (hle : now ≤ now') :
    HandoffHop P 1 fetch' fetchEvidence now' cur prev := by
  refine ⟨⟨?_, h.links.hash, h.links.authentic, h.links.sequence, h.links.name⟩, ?_⟩
  · rw [h.links.hash]
    exact hkept
  · rcases h.authorized with howner | ⟨hself, source, ev, policy, hsource, hev, hnames, hpolicy,
      hthreshold, hquorum, hstart, hbound⟩
    · exact .inl howner
    · exact .inr ⟨hself, source, ev, policy, hsource, hev, hnames, hpolicy, hthreshold, hquorum,
        UInt64.le_trans hstart hle, hbound⟩

theorem lineage_carry {root : SignedEnvelope} {records : List SignedEnvelope}
    (h : Lineage P (HandoffHop P 1 fetch fetchEvidence now) root records)
    (hkept : ∀ r ∈ records, fetch' (r.recordHash P) = some r) (hle : now ≤ now') :
    Lineage P (HandoffHop P 1 fetch' fetchEvidence now') root records := by
  refine ⟨h.tip, h.hops, h.authentic, h.linked.imp_of_mem_imp ?_, h.origin, h.first⟩
  intro cur prev _ hprev hhop
  exact handoffHop_carry hhop (hkept prev hprev) hle

/-- **And only to such a history**: a second walk from the same root has found them all. -/
theorem kept_of_second_walk {root : SignedEnvelope} {rest' : List SignedEnvelope}
    (hchain : (root :: rest).IsChain (HandoffHop P 1 fetch fetchEvidence now))
    (hfirst : ∀ e ∈ (root :: rest).dropLast, selfCertifiedTldRoot P e = false)
    (hchain' : (root :: rest').IsChain (HandoffHop P 1 fetch' fetchEvidence now'))
    (horigin' : ∃ e, (root :: rest').getLast? = some e ∧ selfCertifiedTldRoot P e = true)
    (honly : ∀ r ∈ rest, ∀ x, fetch' (r.recordHash P) = some x → x = r) :
    ∀ r ∈ rest, fetch' (r.recordHash P) = some r := by
  induction rest generalizing root rest' with
  | nil =>
    intro r hr
    exact absurd hr List.not_mem_nil
  | cons prev rest ih =>
    rw [List.isChain_cons_cons] at hchain
    rw [List.dropLast_cons_cons] at hfirst
    have hroot : selfCertifiedTldRoot P root = false := hfirst root List.mem_cons_self
    cases rest' with
    | nil =>
      -- the second walk cannot have stopped here
      obtain ⟨e, hlast, hself⟩ := horigin'
      rw [List.getLast?_singleton, Option.some.injEq] at hlast
      rw [← hlast, hroot] at hself
      cases hself
    | cons prev' rest' =>
      rw [List.isChain_cons_cons] at hchain'
      have hfetched : fetch' (prev.recordHash P) = some prev' := by
        rw [← hchain.1.links.hash]
        exact hchain'.1.links.fetched
      have hsame : prev' = prev := honly prev List.mem_cons_self prev' hfetched
      subst hsame
      rw [List.getLast?_cons_cons] at horigin'
      intro r hr
      rcases List.mem_cons.mp hr with hhead | htail
      · rw [hhead]
        exact hfetched
      · exact ih hchain.2 (fun e he => hfirst e (List.mem_cons_of_mem root he)) hchain'.2 horigin'
          (fun x hx => honly x (List.mem_cons_of_mem prev' hx)) r htail

end

/-! ## Soundness -/

section

variable {s s' : EnvelopeStore} {cur env : SignedEnvelope} {rest : List SignedEnvelope}
  {now now' : UInt64}

/-- **One more hop on a lineage**: the new record verifies exactly when it certifies itself
or the history has kept the lineage. -/
theorem HandedOver.verifies_iff (h : HandedOver P cur env)
    (hlineage : Lineage P (HandoffHop P 1 (getHistory s) (some (storedEvidence P s)) now) cur
      (cur :: rest)) (hops : (cur :: rest).length ≤ transferMaxDepth) (hle : now ≤ now')
    (hevidence : storedEvidence P s' = storedEvidence P s)
    (honly : ∀ r ∈ cur :: rest, Yields s' (r.recordHash P) (· = r)) :
    verifyFromStore P s' now' [env] = true ↔
      selfCertifiedTldRoot P env = true ∨ ∀ r ∈ cur :: rest, Remembers P s' r := by
  unfold verifyFromStore
  rw [single_accepted_iff, and_iff_right h.authentic, hevidence]
  refine or_congr_right ?_
  constructor
  · intro hfound
    obtain ⟨prev, records, hhop, hwalk, _⟩ := hfound
    have hfetched : getHistory s' (cur.recordHash P) = some prev := by
      rw [← h.link]
      exact hhop.links.fetched
    have hsame : prev = cur := honly cur List.mem_cons_self prev hfetched
    subst hsame
    obtain ⟨rest', hrecords⟩ : ∃ rest', records = prev :: rest' :=
      List.head?_eq_some_iff.mp hwalk.tip
    subst hrecords
    have hrest := kept_of_second_walk hlineage.linked hlineage.first hwalk.linked hwalk.origin
      (fun r hr => honly r (List.mem_cons_of_mem prev hr))
    intro r hr
    rcases List.mem_cons.mp hr with hhead | htail
    · rw [hhead]
      exact hfetched
    · exact hrest r htail
  · intro hkept
    have hcur : getHistory s' (cur.recordHash P) = some cur := hkept cur List.mem_cons_self
    have hauthentic : cur.verifySignature P = true := hlineage.authentic cur List.mem_cons_self
    refine ⟨cur, cur :: rest, ⟨⟨?_, h.link, hauthentic, h.sequence, h.name⟩, .inl h.signer⟩,
      lineage_carry hlineage hkept hle, hops⟩
    rw [h.link]
    exact hcur

theorem HandedOver.descendants (h : HandedOver P cur env) {child : SignedEnvelope}
    (haccepted : verifyFromStore P s now (cur :: child :: rest) = true)
    (hdelegates : Delegates cur child.signer) (hother : child.signer ≠ cur.record.owner) :
    verifyFromStore P s' now' (env :: child :: rest) = verifyFromStore P s' now' [env] := by
  unfold verifyFromStore verifyAuthorityChainWithHandoffs at haccepted ⊢
  rw [Bool.and_eq_true, Bool.and_eq_true, chainWellFormed_iff, verifyDescents_iff,
    List.isChain_cons_cons] at haccepted
  obtain ⟨⟨⟨_, hlength, hsigned⟩, _⟩, hdescends, hbelow⟩ := haccepted
  have hformed : chainWellFormed P (env :: child :: rest) = true := by
    refine chainWellFormed_iff.mpr ⟨by simp, by simpa using hlength, ?_⟩
    intro e he
    rcases List.mem_cons.mp he with hhead | htail
    · rw [hhead]
      exact h.authentic
    · exact hsigned e (List.mem_cons_of_mem cur htail)
  have hchild : Descends env child := by
    refine ⟨.inl (h.delegate child.signer hdelegates hother), ?_⟩
    rw [h.name]
    exact hdescends.names
  have hdescents : verifyDescents (env :: child :: rest) = true :=
    verifyDescents_iff.mpr (List.isChain_cons_cons.mpr ⟨hchild, hbelow⟩)
  have halone : chainWellFormed P [env] = true := by
    simp [chainWellFormed, h.authentic]
  rw [hformed, hdescents, halone]
  rfl

end

theorem name_ne_nil_of_lineage {hop : SignedEnvelope → SignedEnvelope → Prop}
    {records : List SignedEnvelope} (h : Lineage P hop root records)
    (hname : ∀ e ∈ records, e.record.name = root.record.name) : root.record.name ≠ [] := by
  obtain ⟨origin, hlast, hself⟩ := h.origin
  rw [← hname origin (List.mem_of_getLast? hlast), (selfCertifiedTldRoot_iff.mp hself).2.2]
  simp [wireImage]

/-- **Hand-offs are sound.** The record is built and installed. It verifies from the store
exactly when it certifies itself or the put has left the lineage in the history; what
verified below the root through another delegate then still does. -/
theorem handoff_sound (P : Primitives) (parseIPv4 : Bytes → Option Bytes)
    (parseUint : Bytes → Option UInt64) (s : EnvelopeStore) (k : Bytes) (cur : Entry)
    (lineage : List SignedEnvelope) (newOwnerPK : Bytes) (signerKP : Crypto.Keypair)
    (flags : HandoffFlags) (rrset : List RR) (clock expires : UInt64) (t : Int) (verify : Bool)
    (evidence : Bytes) (now now' : UInt64)
    (hkey : k.length = 32) (hcur : s.entries.lookup k = some cur)
    (halive : alive cur.env t = true)
    (hlineage : Lineage P (HandoffHop P 1 (getHistory s) (some (storedEvidence P s)) now) cur.env
      lineage)
    (hops : lineage.length ≤ 15 + 1) (hseq : cur.env.record.sequence.toNat < 2 ^ 64 - 1)
    (hsigner : signerKP.publicKey P = cur.env.record.owner) (hnew : newOwnerPK.length = 32)
    (hrrset : handoffRRset parseIPv4 cur.env.record flags = .ok rrset)
    (hexpires : handoffExpires parseUint clock flags.expiresStr = .ok expires)
    (hlater : clock < expires) (hle : now ≤ now')
    (halone : ∀ env, buildHandoffEnvelope P parseIPv4 parseUint cur.env newOwnerPK signerKP flags
      clock = .ok env → ∀ r ∈ lineage, Alone P s env r) :
    ∃ env s', buildHandoffEnvelope P parseIPv4 parseUint cur.env newOwnerPK signerKP flags clock
        = .ok env ∧
      putWithEvidence P s k env t verify evidence = (.ok true, s') ∧
      (verifyFromStore P s' now' [env] = true ↔
        selfCertifiedTldRoot P env = true ∨ ∀ r ∈ lineage, Remembers P s' r) ∧
      (InstallFits P s k env t → ∀ r ∈ lineage, Remembers P s' r) ∧
      ∀ child rest, verifyFromStore P s now (cur.env :: child :: rest) = true →
        Delegates cur.env child.signer → child.signer ≠ cur.env.record.owner →
        verifyFromStore P s' now' (env :: child :: rest) = verifyFromStore P s' now' [env] := by
  obtain ⟨rest, hrecords⟩ : ∃ rest, lineage = cur.env :: rest :=
    List.head?_eq_some_iff.mp hlineage.tip
  subst hrecords
  have hname : cur.env.record.name ≠ [] := name_ne_nil_of_lineage hlineage hlineage.name
  have hencodes : cur.env.record.encodes = true :=
    encodes_of_verifySignature (hlineage.authentic cur.env List.mem_cons_self)
  obtain ⟨env, henv⟩ := exists_handoff hsigner hexpires hrrset (UInt64.le_of_lt hlater) hname
    hencodes hnew (by omega)
  have hover := handedOver_of_build henv
  have hbearer := halone env henv
  have hne := hover.hash_ne (hbearer cur.env List.mem_cons_self)
  -- every record of the lineage is the incumbent or in the history already
  have hbefore : ∀ r ∈ cur.env :: rest, r = cur.env ∨ Remembers P s r := by
    intro r hr
    rcases List.mem_cons.mp hr with hhead | htail
    · exact .inl hhead
    · exact .inr (fetched_of_chain hlineage.linked r htail)
  refine ⟨env, install P s k env t, henv, hover.installed hkey hcur halive hne verify evidence,
    hover.verifies_iff hlineage hops hle (storedEvidence_install s k env t) ?_, ?_, ?_⟩
  · intro r hr
    exact yields_install_alone hcur (hbefore r hr) (hbearer r hr)
  · intro hfits r hr
    rcases hbefore r hr with hcurrent | hs
    · rw [hcurrent]
      exact remembers_displaced hcur hfits (hbearer cur.env List.mem_cons_self)
    · exact hs.install hfits (hbearer r hr)
  · intro child below haccepted hdelegates hother
    exact hover.descendants haccepted hdelegates hother

namespace Transfer

/-- The root of owner 1. -/
def quiet : SignedEnvelope := Toy.signedBy 1 (Toy.tldRecord 1 1 1 50 9000)

/-- A store that serves `root` and remembers `history`. -/
def storeOf (root : SignedEnvelope) (history : Table Bytes Entry) (historyBytes : Int) :
    EnvelopeStore :=
  { newEnvelopeStore 0 with
    entries := (∅ : Table Bytes Entry).insert Sample.tld (Sample.entry root)
    bytes := root.bytes.length
    history, historyBytes }

/-- No `-ip`, no `-expires`. -/
def noFlags : HandoffFlags := { ip := [], expiresStr := [], ttl := 300 }

/-- Owner 1 hands `quiet` to owner 2. -/
def handOver (P : Primitives) : Except HandoffError SignedEnvelope :=
  buildHandoffEnvelope P (fun _ => none) (fun _ => none) quiet (Toy.publicKey 2) (Toy.keypair 1)
    noFlags 300

/-- The record that results. -/
def handed (P : Primitives) : SignedEnvelope :=
  signedWith P
    { Toy.tldRecord 1 2 2 300 86700 with
      prevHash := some (quiet.recordHash P)
      delegation := some (Toy.publicKey 2) }
    (Toy.keypair 1)

variable {history : Table Bytes Entry} {historyBytes : Int}

theorem lookup_storeOf {k : Bytes} {e : Entry}
    (h : (storeOf root history historyBytes).entries.lookup k = some e) :
    k = Sample.tld ∧ e = Sample.entry root := by
  replace h : ((∅ : Table Bytes Entry).insert Sample.tld (Sample.entry root)).lookup k = some e := h
  rcases Table.lookup_insert_cases h with hnew | ⟨_, hold⟩
  · exact hnew
  · cases hold

theorem alone_storeOf {newcomer : SignedEnvelope}
    (hne : newcomer.recordHash P ≠ root.recordHash P) :
    Alone P (storeOf root history historyBytes) newcomer root := by
  refine ⟨?_, fun hsame => absurd hsame hne⟩
  intro k e hholds _
  obtain ⟨slot, hslot, henv⟩ := Option.map_eq_some_iff.mp hholds
  rw [← henv, (lookup_storeOf hslot).2]
  rfl

end Transfer

theorem quiet_root_handed_over :
    ∃ env s', Transfer.handOver Toy.primitives = .ok env ∧
      putWithEvidence Toy.primitives (Transfer.storeOf Transfer.quiet ∅ 0) Sample.tld env 300 true []
        = (.ok true, s') ∧
      verifyFromStore Toy.primitives s' 300 [env] = true := by
  have hbuild : Transfer.handOver Toy.primitives = .ok (Transfer.handed Toy.primitives) := by
    decide +kernel
  have hlineage : Lineage Toy.primitives (HandoffHop Toy.primitives 1
      (getHistory (Transfer.storeOf Transfer.quiet ∅ 0))
      (some (storedEvidence Toy.primitives (Transfer.storeOf Transfer.quiet ∅ 0))) 300)
      Transfer.quiet [Transfer.quiet] :=
    Lineage.single (by decide +kernel) (by decide +kernel)
  obtain ⟨env, s', henv, hput, hverifies, hfits, _⟩ := handoff_sound Toy.primitives
    (fun _ => none) (fun _ => none) (Transfer.storeOf Transfer.quiet ∅ 0) Sample.tld
    (Sample.entry Transfer.quiet) [Transfer.quiet] (Toy.publicKey 2) (Toy.keypair 1)
    Transfer.noFlags [] 300 86700 300 true [] 300 300 (by decide +kernel) (by decide +kernel)
    (by decide +kernel) hlineage (by decide) (by decide) rfl (by decide +kernel) rfl rfl (by decide)
    (UInt64.le_refl _) (by
      intro env henv r hr
      rw [List.mem_singleton.mp hr]
      have hsame := Except.ok.inj (hbuild.symm.trans henv)
      refine Transfer.alone_storeOf ?_
      rw [← hsame]
      decide +kernel)
  refine ⟨env, s', henv, hput, hverifies.mpr (.inr (hfits ?_))⟩
  rw [← Except.ok.inj (hbuild.symm.trans henv)]
  decide +kernel

/-! ## A full history -/

namespace Transfer

/-- The toy instance with the length for the hash of a long input, so that many long records
are told apart cheaply. -/
def sizing : Primitives :=
  { Toy.primitives with
    sha256 := fun b => if b.length < 1000 then Toy.checksum b else bigEndian 32 b.length
    sha256_length := by
      intro b
      split
      next => exact Toy.checksum_length b
      next => exact bigEndian_length 32 _ }

theorem sizing_of_long {b : Bytes} (h : 1000 ≤ b.length) :
    sizing.sha256 b = bigEndian 32 b.length :=
  if_neg (Nat.not_lt.mpr h)

/-- The `n`-th superseded record of another TLD. -/
def superseded (n : Nat) : SignedEnvelope :=
  Toy.signedBy 3 { Toy.tldRecord 3 3 (UInt64.ofNat (256 + n)) 150 9000 with
    rrset := [⟨16, 300, List.replicate (1000 + n) 0⟩] }

variable {m : Nat}

theorem length_head_of_two_bytes {major : Nat} (hle : 2 ^ 8 ≤ m) (hlt : m < 2 ^ 16) :
    (Cbor.head major m).length = 3 := by
  unfold Cbor.head
  rw [if_neg (by omega), if_neg (by omega), if_pos hlt, List.length_cons, bigEndian_length]

variable {n count : Nat}

theorem superseded_record_length (h : n < 4096) :
    (superseded n).record.canonicalBytes.length = 1095 + n := by
  have hseq : (Cbor.uint (UInt64.ofNat (256 + n))).length = 3 := by
    unfold Cbor.uint
    rw [UInt64.toNat_ofNat', Nat.mod_eq_of_lt (by omega)]
    exact length_head_of_two_bytes (by omega) (by omega)
  have hdata : (Cbor.bstr (List.replicate (1000 + n) 0)).length = 1003 + n := by
    unfold Cbor.bstr
    rw [List.length_append, List.length_replicate,
      length_head_of_two_bytes (by omega) (by omega)]
    omega
  have hname : (Cbor.bstr (Toy.tldName 3)).length = 35 := by decide +kernel
  have howner : (Cbor.bstr (Toy.publicKey 3)).length = 34 := by decide +kernel
  show (Cbor.map [(1, Cbor.uint 1), (2, Cbor.bstr (Toy.tldName 3)),
    (3, Cbor.bstr (Toy.publicKey 3)), (4, Cbor.uint (UInt64.ofNat (256 + n))), (5, Cbor.uint 150),
    (6, Cbor.uint 9000), (7, Cbor.array [Cbor.array [Cbor.uint 16, Cbor.uint 300,
      Cbor.bstr (List.replicate (1000 + n) 0)]])]).length = _
  simp only [Cbor.map, Cbor.array, List.map_cons, List.map_nil, List.flatten_cons, List.flatten_nil,
    List.length_append, List.length_nil, hseq, hdata, hname, howner, List.length_cons]
  simp +arith [Cbor.uint, Cbor.head, bigEndian]

theorem superseded_length (h : n < 4096) : (superseded n).bytes.length = 1199 + n := by
  have hsig : (Cbor.bstr (superseded n).sig).length = 66 := by
    have hlen : (superseded n).sig.length = 64 := Toy.primitives.sign_length _ _
    unfold Cbor.bstr
    rw [List.length_append, hlen]
    rfl
  have hsigner : (Cbor.bstr (superseded n).signer).length = 34 := by
    show (Cbor.bstr (Toy.publicKey 3)).length = 34
    decide +kernel
  unfold SignedEnvelope.bytes
  simp only [Cbor.map, List.map_cons, List.map_nil, List.flatten_cons, List.flatten_nil,
    List.length_append, List.length_nil, superseded_record_length h, hsig, hsigner,
    List.length_cons]
  simp +arith [Cbor.uint, Cbor.head]

theorem superseded_recordHash (h : n < 4096) :
    (superseded n).recordHash sizing = bigEndian 32 (1199 + n) := by
  have hlength := superseded_length h
  unfold SignedEnvelope.recordHash
  rw [sizing_of_long (by omega), hlength]

theorem superseded_recordHash_inj (hn : n < 4096) (hm : m < 4096)
    (h : (superseded n).recordHash sizing = (superseded m).recordHash sizing) : n = m := by
  rw [superseded_recordHash hn, superseded_recordHash hm] at h
  have hlength := bigEndian_inj (by omega) (by omega) h
  omega

theorem quiet_recordHash_ne (h : n < 4096) :
    (superseded n).recordHash sizing ≠ quiet.recordHash sizing := by
  intro hsame
  have hvalue := congrArg ofBigEndian hsame
  rw [superseded_recordHash h, ofBigEndian_bigEndian, Nat.mod_eq_of_lt (by omega)] at hvalue
  have hlarge : 2 ^ 200 < ofBigEndian (quiet.recordHash sizing) := by decide +kernel
  omega

/-- Its entry. -/
def supersededEntry (n : Nat) : Entry :=
  { env := superseded n, size := (superseded n).bytes.length, lastAccess := 200 }

/-- The first `count` of them as a history. -/
def updates (count : Nat) (h : count ≤ 4096) : Table Bytes Entry where
  entries := (List.range count).map (fun n => ⟨(superseded n).recordHash sizing, supersededEntry n⟩)
  nodupKeys := by
    rw [List.NodupKeys, List.keys, List.map_map]
    refine List.Nodup.map_on ?_ List.nodup_range
    intro n hn m hm hsame
    have hn' := List.mem_range.mp hn
    have hm' := List.mem_range.mp hm
    simp only [Function.comp_apply] at hsame
    exact superseded_recordHash_inj (by omega) (by omega) hsame

/-- Their bytes. -/
def updatesBytes (count : Nat) : Int :=
  ((List.range count).map (fun n => (supersededEntry n).size)).sum

section
variable (h : count ≤ 4096)
include h

theorem length_keys_updates : (updates count h).keys.length = count := by
  rw [updates, AList.keys, List.keys, List.length_map, List.length_map, List.length_range]

theorem lookup_updates {hash : Bytes} {e : Entry} (he : (updates count h).lookup hash = some e) :
    ∃ n < 4096, (superseded n).recordHash sizing = hash ∧ supersededEntry n = e := by
  have hmem := AList.mem_lookup_iff.mp (Option.mem_def.mpr he)
  obtain ⟨n, hn, heq⟩ := List.mem_map.mp hmem
  rw [Sigma.mk.injEq] at heq
  exact ⟨n, Nat.lt_of_lt_of_le (List.mem_range.mp hn) h, heq.1, eq_of_heq heq.2⟩

theorem updatesBytes_eq : 2 * updatesBytes count = count * (2397 + count) := by
  induction count with
  | zero => rfl
  | succ count ih =>
    have hsize : (supersededEntry count).size = 1199 + count := by
      show ((superseded count).bytes.length : Int) = _
      rw [superseded_length (by omega)]
      push_cast
      rfl
    have hsum : updatesBytes (count + 1) = updatesBytes count + (supersededEntry count).size := by
      unfold updatesBytes
      rw [List.range_succ, List.map_append, List.sum_append, List.map_singleton, List.sum_singleton]
    rw [hsum, hsize, mul_add, ih (by omega)]
    push_cast
    ring

theorem updatesBytes_le : updatesBytes count ≤ historyMaxBytes := by
  have hsum := updatesBytes_eq h
  have hcount : (count : Int) ≤ 4096 := by exact_mod_cast h
  have hprod : (count : Int) * (2397 + count) ≤ 4096 * (2397 + 4096) := by gcongr
  show updatesBytes count ≤ 16 * 1024 * 1024
  omega

end

theorem storeOf_within {history : Table Bytes Entry} {historyBytes : Int}
    (h : historyBytes ≤ historyMaxBytes) :
    (storeOf root history historyBytes).historyBytes
      ≤ (storeOf root history historyBytes).histMaxBytes := h

/-- A history at its entry bound. -/
def flooded : EnvelopeStore := storeOf quiet (updates 4096 (Nat.le_refl _)) (updatesBytes 4096)

theorem flooded_full : flooded.history.keys.length = historyMax :=
  length_keys_updates (Nat.le_refl 4096)

theorem flooded_within : flooded.historyBytes ≤ flooded.histMaxBytes :=
  storeOf_within (updatesBytes_le (Nat.le_refl 4096))

theorem flooded_forgets {env : SignedEnvelope} {t : Int}
    (hne : env.recordHash sizing ≠ quiet.recordHash sizing) :
    getHistory (install sizing flooded Sample.tld env t) (quiet.recordHash sizing) = none := by
  have hfree : flooded.history.lookup (quiet.recordHash sizing) = none := by
    rw [Option.eq_none_iff_forall_not_mem]
    intro e he
    obtain ⟨n, hn, hsame, _⟩ := lookup_updates (Nat.le_refl 4096) he
    exact quiet_recordHash_ne hn hsame
  have hretained : getHistory (retainHistory sizing flooded (Sample.entry quiet))
      (quiet.recordHash sizing) = none := by
    refine @retain_full_forgets sizing flooded (Sample.entry quiet)
      (Nat.le_of_eq flooded_full.symm) hfree ?_
    intro hash old hold
    obtain ⟨n, _, _, hentry⟩ := lookup_updates (Nat.le_refl 4096) hold
    rw [← hentry]
    show (100 : Int) < 200
    decide
  have hcur : flooded.entries.lookup Sample.tld = some (Sample.entry quiet) :=
    AList.lookup_insert _
  have hnowhere : Yields (install sizing flooded Sample.tld env t) (quiet.recordHash sizing)
      (fun _ => False) := by
    refine yields_install hcur ?_ ?_
    · intro x hx
      rw [hretained] at hx
      cases hx
    · intro v hv hsame
      -- the only slot the sweeps can empty is the newcomer's
      have hbound := sweepVictims_bound v hv
      rw [displace_entries] at hbound
      rcases Table.lookup_insert_cases hbound with ⟨_, hself⟩ | ⟨hk, hold⟩
      · rw [hself] at hsame
        exact hne hsame.symm
      · exact hk (lookup_storeOf hold).1
  exact Option.eq_none_iff_forall_not_mem.mpr hnowhere

end Transfer

/-- **A flood unsettles a hand-off.** Another owner has filled the history; the root handed
over is its oldest record, is dropped at once, and the new one never verifies. -/
theorem quiet_root_forgotten :
    Transfer.flooded.history.keys.length = historyMax ∧
    Transfer.flooded.historyBytes ≤ Transfer.flooded.histMaxBytes ∧
    Transfer.flooded.entries.lookup Sample.tld = some (Sample.entry Transfer.quiet) ∧
    alive Transfer.quiet 300 = true ∧
    (∀ now, verifyFromStore Transfer.sizing Transfer.flooded now [Transfer.quiet] = true) ∧
    ∃ env s', Transfer.handOver Transfer.sizing = .ok env ∧
      putWithEvidence Transfer.sizing Transfer.flooded Sample.tld env 300 true [] = (.ok true, s') ∧
      ∀ now, verifyFromStore Transfer.sizing s' now [env] = false := by
  have hcur : Transfer.flooded.entries.lookup Sample.tld = some (Sample.entry Transfer.quiet) :=
    AList.lookup_insert _
  have halive : alive Transfer.quiet 300 = true := by decide +kernel
  have hbuild : Transfer.handOver Transfer.sizing = .ok (Transfer.handed Transfer.sizing) := by
    decide +kernel
  have hover := handedOver_of_build hbuild
  have hne : (Transfer.handed Transfer.sizing).recordHash Transfer.sizing
      ≠ Transfer.quiet.recordHash Transfer.sizing := by
    decide +kernel
  refine ⟨Transfer.flooded_full, Transfer.flooded_within, hcur, halive, ?_,
    Transfer.handed Transfer.sizing, _, hbuild,
    @HandedOver.installed _ _ _ (Sample.entry Transfer.quiet) _ _ hover (by decide +kernel) hcur
      halive hne true [], ?_⟩
  · intro now
    exact single_accepted_iff.mpr ⟨by decide +kernel, .inl (by decide +kernel)⟩
  · intro now
    rw [Bool.eq_false_iff, ne_eq, verifyFromStore, single_accepted_iff]
    rintro ⟨_, hself | ⟨prev, records, hhop, _, _⟩⟩
    · exact absurd hself (by decide +kernel)
    · have hfetched := hhop.links.fetched
      rw [hover.link, Transfer.flooded_forgets hne] at hfetched
      cases hfetched

end Freens.Cli
