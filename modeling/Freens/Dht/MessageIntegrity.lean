/-
**WHAT A VERIFIED MESSAGE SAYS OF ITS SENDER** (`wire/wire.go`: `SigningInput`;
`dht/transport.go`: `handle`, `getFromPeer`).

The kind of the message, the method of a query and the transient flag are outside
of the signature. What the honest keys signed is a log (`SignedStatement`), and an
attacker has no signature of theirs that is not in it.
-/
import Freens.Dht.Rpc
import Freens.Dht.WalkLoop
import Freens.Turn.Codec
import Freens.Wire.Files

namespace Freens.Dht

open Library Library.Cbor Wire

/-! ## What keys sign -/

/-- A message as its sender built it (`NewQuery`, `NewResponse`, `NewError`). -/
structure SentMessage where
  y : MsgType
  t : Bytes
  q : Bytes
  a : Bytes
  recipientID : Bytes
  t_length : t.length ≤ 16
  recipient_length : recipientID.length = nodeIDLen
  deriving DecidableEq

/-- **Everything the program signs.** -/
inductive Statement where
  | message (s : SentMessage)
  /-- `NewWitnessAttestation`. -/
  | attestation (claimPrefixHash : Bytes) (ts : UInt64)
  /-- `SignRecord`. -/
  | record (r : Record)
  | recovery (prevRecordHash newOwnerPK : Bytes) (notBefore : UInt64)
  | turnRequest (txid : Bytes) (lifetime : Nat)

/-- The message before it is signed. -/
def SentMessage.unsigned (P : Primitives) (key : Bytes) (s : SentMessage) : Message :=
  { y := some s.y, t := s.t, q := s.q, a := s.a, id := P.sha256 key, pk := key, sig := [],
    x := false }

/-- A statement and the key that signed it. -/
structure SignedStatement where
  key : Bytes
  statement : Statement

/-- The bytes that were signed. -/
def SignedStatement.bytes (P : Primitives) (e : SignedStatement) : Option Bytes :=
  match e.statement with
  | .message s => (s.unsigned P e.key).signingInput s.recipientID
  | .attestation claimPrefixHash ts => Claims.witnessSigningMessage claimPrefixHash ts
  | .record r => some r.canonicalBytes
  | .recovery prevRecordHash newOwnerPK notBefore =>
    recoverySigningMessage prevRecordHash newOwnerPK notBefore
  | .turnRequest txid lifetime => some (Turn.authMessage txid e.key lifetime)

/-- The message, if `key` sent it. -/
def SignedStatement.sent (key : Bytes) (e : SignedStatement) : Option SentMessage :=
  match e.statement with
  | .message s => if e.key = key then some s else none
  | _ => none

/-- The messages of a key. -/
def sentBy (log : List SignedStatement) (key : Bytes) : List SentMessage :=
  log.filterMap (SignedStatement.sent key)

variable {m : Message} {raw : Option Message} {allowed : Bool} {n : Rpc}

theorem signingInput_eq {recipientID input : Bytes} (h : m.signingInput recipientID = some input) :
    recipientID.length = nodeIDLen ∧
      input = array [bstr m.t, bstr m.id, bstr recipientID, m.a] := by
  unfold Message.signingInput at h
  split at h
  next => cases h
  next hlen => exact ⟨not_not.mp hlen, (Option.some.inj h).symm⟩

variable {items : List Bytes}

theorem tagged_ne_array {rest : Bytes} (h : items.length = 4) :
    (0x66 : UInt8) :: rest ≠ array items := by
  intro heq
  unfold array at heq
  rw [h, show head 4 4 = [0x84] from rfl, List.cons_append, List.cons.injEq] at heq
  exact absurd heq.1 (by decide)

theorem map_ne_array (entries : List (UInt64 × Bytes)) (items : List Bytes) :
    Cbor.map entries ≠ array items := by
  intro heq
  have hread := congrArg readHead heq
  unfold Cbor.map array at hread
  rw [readHead_head (by decide), readHead_head (by decide), Option.some.injEq,
    Prod.mk.injEq] at hread
  exact absurd hread.1 (by decide)

/-- **Domain separation**: the bytes of a message are signed only as a message. -/
theorem message_of_bytes {P : Primitives} {e : SignedStatement} (hlen : items.length = 4)
    (h : e.bytes P = some (array items)) : ∃ s, e.statement = .message s := by
  unfold SignedStatement.bytes at h
  split at h
  next s hs => exact ⟨s, hs⟩
  next claimPrefixHash ts _ =>
    unfold Claims.witnessSigningMessage at h
    split at h
    next => cases h
    next => exact absurd (Option.some.inj h) (tagged_ne_array hlen)
  next r _ => exact absurd (Option.some.inj h) (map_ne_array _ _)
  next =>
    unfold recoverySigningMessage at h
    split at h
    next => cases h
    split at h
    next => cases h
    next => exact absurd (Option.some.inj h) (tagged_ne_array hlen)
  next => exact absurd (Option.some.inj h) (tagged_ne_array hlen)

theorem signed_array_inj {t t' id id' rcp rcp' a a' : Bytes} (ht : t.length < 2 ^ 64)
    (ht' : t'.length < 2 ^ 64) (hid : id.length < 2 ^ 64) (hid' : id'.length < 2 ^ 64)
    (hrcp : rcp.length < 2 ^ 64) (hrcp' : rcp'.length < 2 ^ 64)
    (h : array [bstr t, bstr id, bstr rcp, a] = array [bstr t', bstr id', bstr rcp', a']) :
    t = t' ∧ id = id' ∧ rcp = rcp' ∧ a = a' := by
  unfold array at h
  simp only [List.length_cons, List.length_nil, List.flatten_cons, List.flatten_nil,
    List.append_nil, List.append_cancel_left_eq] at h
  obtain ⟨h₁, hrest⟩ := bstr_append_inj ht ht' h
  obtain ⟨h₂, hrest⟩ := bstr_append_inj hid hid' hrest
  obtain ⟨h₃, h₄⟩ := bstr_append_inj hrcp hrcp' hrest
  exact ⟨h₁, h₂, h₃, h₄⟩

/-! ## What the attacker cannot do -/

section
variable (P : Primitives) (own : Bytes)

/-- The sender signed these arguments with this transaction id for this node. -/
def SignedFor (log : List SignedStatement) (m : Message) : Prop :=
  m.id = P.sha256 m.pk ∧
    ∃ s ∈ sentBy log m.pk, s.t = m.t ∧ s.a = m.a ∧ s.recipientID = own

/-- The sender signed a message of this kind, and of this method if a query. -/
def SameKind (log : List SignedStatement) (m : Message) : Prop :=
  ∃ s ∈ sentBy log m.pk, s.t = m.t ∧ s.a = m.a ∧ s.recipientID = own ∧
    m.y = some s.y ∧ (s.y = .query → s.q = m.q)

instance (log : List SignedStatement) (m : Message) : Decidable (SameKind own log m) :=
  inferInstanceAs (Decidable (∃ s ∈ sentBy log m.pk, _))

/-- No signature of an honest key on this message but those in the log. -/
def Unforged (honest : Bytes → Prop) (log : List SignedStatement) (m : Message) : Prop :=
  honest m.pk → ∀ input ∈ m.signingInput own, Crypto.verify P m.pk m.sig input = true →
    ∃ e ∈ log, e.key = m.pk ∧ e.bytes P = some input

instance (honest : Bytes → Prop) [DecidablePred honest] (log : List SignedStatement) (m : Message) :
    Decidable (Unforged P own honest log m) :=
  inferInstanceAs (Decidable (honest m.pk → ∀ input ∈ m.signingInput own, _))

/-- `handle` up to where the message is acted on: learned from, delivered or
answered. -/
def handled (n : Rpc) (allowed : Bool) (raw : Option Message) : Option Message :=
  if !allowed then none
  else match decodeMessage P raw with
    | none => none
    | some m =>
      if (m.y = some .response ∨ m.y = some .error) ∧ (n.pending.lookup m.t).isNone then none
      else if !m.verify P own then none
      else some m

end

variable {P : Primitives} {own : Bytes} {honest : Bytes → Prop} {log : List SignedStatement}

theorem handled_eq_some (h : handled P own n allowed raw = some m) :
    decodeMessage P raw = some m ∧ m.verify P own = true := by
  unfold handled at h
  split at h
  next => cases h
  split at h
  next => cases h
  next m' hm' =>
    split at h
    next => cases h
    split at h
    next => cases h
    next hverify =>
      rw [Option.some.injEq] at h
      subst h
      exact ⟨hm', by simpa using hverify⟩

theorem signedFor_of_verify (hvalid : m.validate P = true) (hverify : m.verify P own = true)
    (hunforged : Unforged P own honest log m) (hhonest : honest m.pk) : SignedFor P own log m := by
  obtain ⟨hid, hsig⟩ := signed_of_verify hverify
  have hown : own.length = nodeIDLen := by
    by_contra hne
    unfold Message.verify at hverify
    rw [if_pos hne] at hverify
    cases hverify
  have hinput : m.signingInput own = some (array [bstr m.t, bstr m.id, bstr own, m.a]) := by
    unfold Message.signingInput
    rw [if_neg (not_not.mpr hown)]
  obtain ⟨e, he, hkey, hbytes⟩ := hunforged hhonest _ hinput hsig
  obtain ⟨s, hs⟩ := message_of_bytes rfl hbytes
  unfold SignedStatement.bytes at hbytes
  rw [hs] at hbytes
  obtain ⟨_, harray⟩ := signingInput_eq hbytes
  -- the lengths that make the encoding injective
  have ht : m.t.length ≤ 16 := by
    unfold Message.validate at hvalid
    simp only [Bool.and_eq_true, decide_eq_true_eq] at hvalid
    tauto
  have hidlen : m.id.length = 32 := by rw [← hid, P.sha256_length]
  have hidlen' : (P.sha256 e.key).length = 32 := P.sha256_length _
  have hrcp := s.recipient_length
  have ht' := s.t_length
  simp only [nodeIDLen] at hown hrcp
  obtain ⟨h₁, _, h₃, h₄⟩ := signed_array_inj (by omega) (show s.t.length < 2 ^ 64 by omega)
    (by omega) (show (P.sha256 e.key).length < 2 ^ 64 by omega) (by omega) (by omega) harray
  refine ⟨hid.symm, s, ?_, h₁.symm, h₄.symm, h₃.symm⟩
  exact List.mem_filterMap.mpr ⟨e, he, by unfold SignedStatement.sent; rw [hs]; exact if_pos hkey⟩

theorem signedFor_of_handled (h : handled P own n allowed raw = some m)
    (hunforged : ∀ m ∈ decodeMessage P raw, Unforged P own honest log m) (hhonest : honest m.pk) :
    SignedFor P own log m := by
  obtain ⟨hdecoded, hverify⟩ := handled_eq_some h
  have hvalid : m.validate P = true := by
    unfold decodeMessage at hdecoded
    exact (Option.filter_eq_some_iff.mp hdecoded).2
  exact signedFor_of_verify hvalid hverify (hunforged m hdecoded) hhonest

/-! ## Runs -/

/-- **The invariant**: whatever the transport holds of an honest key was signed
for this node. -/
def AllSigned (P : Primitives) (own : Bytes) (honest : Bytes → Prop) (log : List SignedStatement) :
    Rpc → Prop :=
  Conveys (fun m => honest m.pk → SignedFor P own log m)
    (fun _ m => honest m.pk → SignedFor P own log m)

theorem AllSigned.step {n : Rpc} {act : RpcAction} (h : AllSigned P own honest log n)
    (hunforged : ∀ m ∈ act.decoded P, Unforged P own honest log m) :
    AllSigned P own honest log (rpcStep P own n act) := by
  refine Conveys.step h (fun _ _ _ _ _ hsigned => hsigned) ?_ ?_
  · intro m hdecoded hverify
    refine signedFor_of_verify ?_ hverify (hunforged m hdecoded)
    cases act with
    | datagram allowed raw => exact (Option.filter_eq_some_iff.mp hdecoded).2
    | send | deliver | receive | giveUp => cases hdecoded
  · intro j m i q _ hj _ _
    exact h.arrived m (List.mem_of_getElem? hj)

/-- **Message integrity over whole runs.** With no signature of an honest key forged, every
message of such a key that is acted on or returned has the arguments, transaction id, sender
and recipient it signed. -/
theorem handled_signed (P : Primitives) (own : Bytes) (honest : Bytes → Prop)
    (log : List SignedStatement) (actions : List RpcAction)
    (hunforged : ∀ act ∈ actions, ∀ m ∈ act.decoded P, Unforged P own honest log m) :
    (∀ i allowed raw, actions[i]? = some (.datagram allowed raw) → ∀ m,
      handled P own ((actions.take i).foldl (rpcStep P own) Rpc.new) allowed raw = some m →
        honest m.pk → SignedFor P own log m) ∧
    ∀ q ∈ (actions.foldl (rpcStep P own) Rpc.new).queries, ∀ m, q.returned = some m →
      honest m.pk → SignedFor P own log m := by
  constructor
  · intro i allowed raw hi m hm hhonest
    exact signedFor_of_handled hm (hunforged _ (List.mem_of_getElem? hi)) hhonest
  · have hrun : EachStep (rpcStep P own)
        (fun _ act => ∀ m ∈ act.decoded P, Unforged P own honest log m) Rpc.new actions :=
      EachStep.of_forall_mem (fun act hact _ => hunforged act hact)
    intro q hq m hm
    exact (EachStep.invariant (fun _ _ hn hok => AllSigned.step hn hok) Conveys.new hrun).calls q hq m
      (.inr hm)

/-! ## The lookup's reading of a response -/

/-- What `getFromPeer` reads of an argument map. -/
structure GetArguments where
  code : Option Int
  envelopes : List Bytes
  envelope : Option Bytes
  nodes : List NodeContact

/-- The message a get query returned, as `getFromPeer` takes it. -/
def getAnswer (read : Bytes → GetArguments) (unmarshal : Bytes → Option SignedEnvelope)
    (m : Message) : Response :=
  let args := read m.a
  -- an error is read for its code only, whatever else it carries
  if m.y = some .error then .error args.code
  else .data ((args.envelopes ++ args.envelope.toList).filterMap (fun eb =>
    if eb = [] then none else (decodeEnvelope unmarshal eb).toOption)) args.nodes

namespace IntegritySample

def env : SignedEnvelope := Toy.signedBy 3 (Toy.tldRecord 3 3 1 0 100)

def envelopeArgs : Bytes :=
  [0xa1, 0x68, 0x65, 0x6e, 0x76, 0x65, 0x6c, 0x6f, 0x70, 0x65] ++ bstr env.bytes

def read (a : Bytes) : GetArguments :=
  { code := none, envelopes := [], envelope := (readSized 2 (a.drop 10)).map (·.1), nodes := [] }

def unmarshal (b : Bytes) : Option SignedEnvelope := if b = env.bytes then some env else none

def answer : SentMessage :=
  ⟨.response, [7, 7], [], envelopeArgs, Sample.nodeID 1, by decide, by decide +kernel⟩

def ping : SentMessage :=
  ⟨.query, [8, 8], [0x70, 0x69, 0x6e, 0x67], [0xa0], Sample.nodeID 1, by decide, by decide +kernel⟩

def signedLog : List SignedStatement :=
  [⟨Toy.publicKey 2, .message answer⟩, ⟨Toy.publicKey 2, .message ping⟩]

def signed (s : SentMessage) : Message :=
  let m := s.unsigned Toy.primitives (Toy.publicKey 2)
  { m with sig := (Toy.keypair 2).sign Toy.primitives ((m.signingInput s.recipientID).getD []) }

/-- A query and the message that comes back. -/
def run (m : Message) : List RpcAction :=
  [.send (Sample.nodeID 2) [7, 7], .datagram true (some m), .deliver 0, .receive 0]

def isHonest (key : Bytes) : Prop := key = Toy.publicKey 2

instance : DecidablePred isHonest := fun key => inferInstanceAs (Decidable (key = Toy.publicKey 2))

def after (m : Message) : Rpc :=
  (run m).foldl (rpcStep Toy.primitives (Sample.nodeID 1)) Rpc.new

def outcome (m : Message) : Option SignedEnvelope × Option WalkError :=
  iterativeGetDetailed Toy.primitives (.probes [getFromPeer (getAnswer read unmarshal m)])

end IntegritySample

section
open IntegritySample

theorem handled_signed_answer :
    SignedFor Toy.primitives (Sample.nodeID 1) signedLog (signed answer) :=
  (handled_signed Toy.primitives (Sample.nodeID 1) isHonest signedLog (run (signed answer))
    (by decide +kernel)).2
    ⟨Sample.nodeID 2, [7, 7], some (signed answer), some (signed answer), true⟩
    (by decide +kernel) _ rfl rfl

/-- **A kind that was never signed.** Key 2's answer is returned as an error, an
authoritative miss; its ping is handled as a put. -/
theorem kind_changed :
    let error : Message := { signed answer with y := some .error }
    let put : Message := { signed ping with q := [0x70, 0x75, 0x74] }
    (∀ act ∈ run error ++ run put, ∀ m ∈ act.decoded Toy.primitives,
      Unforged Toy.primitives (Sample.nodeID 1) isHonest signedLog m) ∧
    (after error).queries.map Query.returned = [some error] ∧
    ¬ SameKind (Sample.nodeID 1) signedLog error ∧
    outcome (signed answer) = (some env, none) ∧ outcome error = (none, none) ∧
    handled Toy.primitives (Sample.nodeID 1) Rpc.new true (some put) = some put ∧
    ¬ SameKind (Sample.nodeID 1) signedLog put := by
  decide +kernel

end

end Freens.Dht
