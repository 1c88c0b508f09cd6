/-
**QUERIES AND THEIR RESPONSES** (`wire/wire.go`: `Message`; `dht/transport.go`:
`sendQuery`, `handle`, `deliver`).

A query waits under its transaction id. Nothing compares the sender of a response
with the node the query was addressed to.
-/
import Freens.Library.Lists
import Freens.Library.Run
import Freens.Library.Table
import Freens.Toy

namespace Freens.Dht

open Library Library.Cbor

/-! ## Messages -/

/-- The three kinds of message. -/
inductive MsgType where
  | query
  | response
  | error
  deriving DecidableEq, Repr

/-- A datagram, decoded. -/
structure Message where
  /-- `none` stands for any other text. -/
  y : Option MsgType
  t : Bytes
  q : Bytes
  /-- The canonical encoding of the argument map. -/
  a : Bytes
  id : Bytes
  pk : Bytes
  sig : Bytes
  /-- The sender is transient; not signed. -/
  x : Bool
  deriving DecidableEq, Repr

abbrev nodeIDLen : Nat := 32

/-- What a message's signature covers. -/
def Message.signingInput (m : Message) (recipientID : Bytes) : Option Bytes :=
  if recipientID.length ≠ nodeIDLen then none
  else some (array [bstr m.t, bstr m.id, bstr recipientID, m.a])

section
variable (P : Primitives)

/-- `Verify`: for this recipient, by the key of the id. -/
def Message.verify (m : Message) (recipientID : Bytes) : Bool :=
  if recipientID.length ≠ nodeIDLen then false
  else if m.sig.length ≠ Constants.ed25519SignatureLen then false
  else if Crypto.tldID P m.pk ≠ some m.id then false
  else match m.signingInput recipientID with
    | none => false
    | some input => Crypto.verify P m.pk m.sig input

/-- `validate`: the fields' presence and lengths. -/
def Message.validate (m : Message) : Bool :=
  m.y.isSome && decide (1 ≤ m.t.length ∧ m.t.length ≤ 16) &&
    !(m.y = some .query && m.q = []) &&
    m.id.length = nodeIDLen && m.pk.length = Constants.ed25519PublicKeyLen &&
    Crypto.tldID P m.pk = some m.id &&
    (m.sig.length = 0 || m.sig.length = Constants.ed25519SignatureLen)

/-- `DecodeMessage`, on what the CBOR library makes of the bytes. -/
def decodeMessage (raw : Option Message) : Option Message :=
  raw.filter (Message.validate P)

end

/-! ## The pending table -/

/-- A query under way. -/
structure Query where
  recipientID : Bytes
  txid : Bytes
  /-- The channel of capacity one. -/
  inbox : Option Message
  returned : Option Message
  done : Bool
  deriving DecidableEq, Repr

/-- The pending table, all calls so far, and the verified responses to deliver. -/
structure Rpc where
  pending : Table Bytes Nat
  queries : List Query
  arrived : List Message

/-- Nothing under way. -/
def Rpc.new : Rpc := ⟨∅, [], []⟩

/-- What can happen next. -/
inductive RpcAction where
  /-- `sendQuery` registers and sends; the transaction id is random. -/
  | send (recipientID txid : Bytes)
  /-- `handle` up to the signature check; `allowed` is the packet budget. -/
  | datagram (allowed : Bool) (raw : Option Message)
  /-- `deliver` of an arrived response. -/
  | deliver (j : Nat)
  /-- The `select` of a call takes its channel. -/
  | receive (i : Nat)
  /-- The call times out, or its context ends, or the write failed. -/
  | giveUp (i : Nat)

section
variable (P : Primitives) (own : Bytes)

/-- `hasPending`, and the type test before it. -/
def awaited (n : Rpc) (m : Message) : Bool :=
  (m.y = some .response ∨ m.y = some .error) ∧ (n.pending.lookup m.t).isSome

/-- One step of the transport. Queries from peers do not touch the table. -/
def rpcStep (n : Rpc) : RpcAction → Rpc
  | .send recipientID txid =>
    { n with
      -- an equal transaction id in flight loses its entry
      pending := n.pending.insert txid n.queries.length
      queries := n.queries ++ [⟨recipientID, txid, none, none, false⟩] }
  | .datagram allowed raw =>
    if !allowed then n
    else match decodeMessage P raw with
      | none => n
      | some m =>
        -- a stray response is dropped before its signature is checked
        if !awaited n m then n
        else if !m.verify P own then n
        else { n with arrived := m :: n.arrived }
  | .deliver j =>
    match n.arrived[j]? with
    | none => n
    | some m =>
      match n.pending.lookup m.t with
      | none => { n with arrived := n.arrived.eraseIdx j }
      | some i =>
        { pending := n.pending.erase m.t
          queries := n.queries.modify i (fun q => { q with inbox := q.inbox.or (some m) })
          arrived := n.arrived.eraseIdx j }
  | .receive i =>
    match n.queries[i]? with
    | none => n
    | some q =>
      if q.done ∨ q.inbox = none then n
      else
        { n with
          pending := n.pending.erase q.txid
          queries := n.queries.modify i (fun q => { q with returned := q.inbox, done := true }) }
  | .giveUp i =>
    match n.queries[i]? with
    | none => n
    | some q =>
      if q.done then n
      else
        { n with
          pending := n.pending.erase q.txid
          queries := n.queries.modify i (fun q => { q with done := true }) }

end

/-! ## Authentic responses -/

variable {P : Primitives} {own : Bytes}

/-- **The message is the addressee's**: its id, and its signature over this node's id and
the query's transaction id. -/
structure Authentic (P : Primitives) (own : Bytes) (q : Query) (m : Message) : Prop where
  sender : m.id = q.recipientID
  key : P.sha256 m.pk = q.recipientID
  signed : Crypto.verify P m.pk m.sig
    (array [bstr q.txid, bstr q.recipientID, bstr own, m.a]) = true

theorem signed_of_verify {m : Message} (h : m.verify P own = true) :
    P.sha256 m.pk = m.id ∧
      Crypto.verify P m.pk m.sig (array [bstr m.t, bstr m.id, bstr own, m.a]) = true := by
  unfold Message.verify at h
  split at h
  · cases h
  · next hlen =>
    split at h
    · cases h
    split at h
    · cases h
    · next hid =>
      unfold Message.signingInput at h
      rw [if_neg hlen] at h
      refine ⟨?_, h⟩
      have htld := not_not.mp hid
      unfold Crypto.tldID at htld
      split at htld
      · cases htld
      · exact Option.some.inj htld

/-- A delivered message comes from the node its query was addressed to. -/
def FromAddressee (n : Rpc) : RpcAction → Prop
  | .deliver j => ∀ m i q, n.arrived[j]? = some m → n.pending.lookup m.t = some i →
      n.queries[i]? = some q → m.id = q.recipientID
  | _ => True

/-- The message answers the query. -/
def Belongs (P : Primitives) (own : Bytes) (q : Query) (m : Message) : Prop :=
  m.verify P own = true ∧ m.t = q.txid ∧ m.id = q.recipientID

/-! ## What a step can do -/

/-- The message in a datagram. -/
def RpcAction.decoded (P : Primitives) : RpcAction → Option Message
  | .datagram _ raw => decodeMessage P raw
  | _ => none

/-- **What a step can do**: open a call, take a verified message in, drop one, or change one
call. -/
inductive Moves (P : Primitives) (own : Bytes) (n : Rpc) (a : RpcAction) : Rpc → Prop where
  | stay : Moves P own n a n
  | send {recipientID txid : Bytes} : Moves P own n a
      { n with
        pending := n.pending.insert txid n.queries.length
        queries := n.queries ++ [⟨recipientID, txid, none, none, false⟩] }
  | accept {m : Message} (hdecoded : a.decoded P = some m) (hverify : m.verify P own = true) :
      Moves P own n a { n with arrived := m :: n.arrived }
  | stray {j : Nat} : Moves P own n a { n with arrived := n.arrived.eraseIdx j }
  | change {table : Table Bytes Nat} {i : Nat} {f : Query → Query} {arrived : List Message}
      (hsub : Table.Sub table n.pending) (harrived : ∀ m ∈ arrived, m ∈ n.arrived)
      (hcall : ∀ q, (f q).txid = q.txid ∧ (f q).recipientID = q.recipientID)
      (hmessages : ∀ q m, (f q).inbox = some m ∨ (f q).returned = some m →
        (q.inbox = some m ∨ q.returned = some m) ∨
          ∃ j, a = .deliver j ∧ n.arrived[j]? = some m ∧ n.pending.lookup m.t = some i) :
      Moves P own n a { pending := table, queries := n.queries.modify i f, arrived }

theorem rpcStep_moves (n : Rpc) (a : RpcAction) : Moves P own n a (rpcStep P own n a) := by
  cases a with
  | send recipientID txid => exact .send
  | datagram allowed raw =>
    simp only [rpcStep]
    split
    · exact .stay
    split
    · exact .stay
    · next m hm =>
      split
      · exact .stay
      split
      · exact .stay
      · next hverify => exact .accept hm (by simpa using hverify)
  | deliver j =>
    simp only [rpcStep]
    cases hm : n.arrived[j]? with
    | none => exact .stay
    | some m =>
      dsimp only
      cases hi : n.pending.lookup m.t with
      | none => exact .stray
      | some i =>
        refine .change (Table.erase_sub _ _) (fun _ => List.mem_of_mem_eraseIdx)
          (fun _ => ⟨rfl, rfl⟩) ?_
        rintro q m' (hin | hret)
        · rcases Option.or_eq_some_iff.mp hin with hhad | ⟨_, hgot⟩
          · exact .inl (.inl hhad)
          · cases hgot
            exact .inr ⟨j, rfl, hm, hi⟩
        · exact .inl (.inr hret)
  | receive i =>
    simp only [rpcStep]
    split
    · exact .stay
    split
    · exact .stay
    · -- what is returned was in the channel
      exact .change (Table.erase_sub _ _) (fun _ => id) (fun _ => ⟨rfl, rfl⟩)
        fun q m hm => .inl (.inl (hm.elim id id))
  | giveUp i =>
    simp only [rpcStep]
    split
    · exact .stay
    split
    · exact .stay
    · exact .change (Table.erase_sub _ _) (fun _ => id) (fun _ => ⟨rfl, rfl⟩)
        fun q m hm => .inl hm

/-- **What the transport conveys**: `A` holds of what arrived, `B` of what a call has or
returned. -/
structure Conveys (A : Message → Prop) (B : Query → Message → Prop) (n : Rpc) : Prop where
  arrived : ∀ m ∈ n.arrived, A m
  calls : ∀ q ∈ n.queries, ∀ m, q.inbox = some m ∨ q.returned = some m → B q m

theorem Conveys.new {A : Message → Prop} {B : Query → Message → Prop} : Conveys A B Rpc.new :=
  ⟨fun _ h => absurd h List.not_mem_nil, fun _ h => absurd h List.not_mem_nil⟩

/-- `A` is asked of what is let in, `B` of what is delivered; `B` reads of a call only its
addressee and id. -/
theorem Conveys.step {A : Message → Prop} {B : Query → Message → Prop} {n : Rpc} {a : RpcAction}
    (h : Conveys A B n)
    (hB : ∀ q q' m, q'.txid = q.txid → q'.recipientID = q.recipientID → B q m → B q' m)
    (hnew : ∀ m, a.decoded P = some m → m.verify P own = true → A m)
    (hgiven : ∀ j m i q, a = .deliver j → n.arrived[j]? = some m →
      n.pending.lookup m.t = some i → n.queries[i]? = some q → B q m) :
    Conveys A B (rpcStep P own n a) := by
  have hmoves := @rpcStep_moves P own n a
  generalize rpcStep P own n a = after at hmoves ⊢
  cases hmoves with
  | stay => exact h
  | send =>
    refine ⟨h.arrived, fun q hq m hm => ?_⟩
    rcases List.mem_append.mp hq with hold | hadded
    · exact h.calls q hold m hm
    · rw [List.mem_singleton.mp hadded] at hm
      simp at hm
  | accept hdecoded hverify =>
    refine ⟨fun m' hm' => ?_, h.calls⟩
    rcases List.mem_cons.mp hm' with rfl | hold
    · exact hnew m' hdecoded hverify
    · exact h.arrived m' hold
  | stray => exact ⟨fun m hm => h.arrived m (List.mem_of_mem_eraseIdx hm), h.calls⟩
  | change hsub harrived hcall hmessages =>
    refine ⟨fun m hm => h.arrived m (harrived m hm), fun q hq m hm => ?_⟩
    rcases mem_modify hq with hold | ⟨y, hy, rfl⟩
    · exact h.calls q hold m hm
    · refine hB y _ m (hcall y).1 (hcall y).2 ?_
      rcases hmessages y m hm with hhad | ⟨j, ha, hj, hi⟩
      · exact h.calls y (List.mem_of_getElem? hy) m hhad
      · exact hgiven j m _ y ha hj hi hy

/-- The table leads to the call with that transaction id. -/
def Numbered (n : Rpc) : Prop :=
  ∀ t i, n.pending.lookup t = some i → ∃ q, n.queries[i]? = some q ∧ q.txid = t

theorem Numbered.step {n : Rpc} {a : RpcAction} (h : Numbered n) :
    Numbered (rpcStep P own n a) := by
  have hmoves := @rpcStep_moves P own n a
  generalize rpcStep P own n a = after at hmoves ⊢
  cases hmoves with
  | stay => exact h
  | @send recipientID txid =>
    intro t i hi
    by_cases ht : t = txid
    · subst ht
      have hi' := (AList.lookup_insert n.pending).symm.trans hi
      rw [Option.some.injEq] at hi'
      refine ⟨⟨recipientID, t, none, none, false⟩, ?_, rfl⟩
      rw [← hi']
      exact List.getElem?_concat_length
    · obtain ⟨q, hq, hid⟩ := h t i ((AList.lookup_insert_ne ht).symm.trans hi)
      refine ⟨q, ?_, hid⟩
      show (n.queries ++ [_])[i]? = some q
      rw [List.getElem?_append_left (List.getElem?_eq_some_iff.mp hq).1, hq]
  | accept | stray => exact h
  | @change table j f _ hsub _ hcall _ =>
    intro t i hi
    obtain ⟨q, hq, ht⟩ := h t i (hsub t i hi)
    show ∃ q, (n.queries.modify j f)[i]? = some q ∧ q.txid = t
    rw [List.getElem?_modify, hq]
    by_cases hij : j = i
    · exact ⟨f q, by simp [hij], (hcall q).1.trans ht⟩
    · exact ⟨q, by simp [hij], ht⟩

/-- **The invariant**: calls are found by their ids, what arrived is verified, what a call
has belongs to it. -/
def Routed (P : Primitives) (own : Bytes) (n : Rpc) : Prop :=
  Numbered n ∧ Conveys (fun m => m.verify P own = true) (Belongs P own) n

theorem Routed.step {n : Rpc} {a : RpcAction} (h : Routed P own n) (hok : FromAddressee n a) :
    Routed P own (rpcStep P own n a) := by
  refine ⟨h.1.step, h.2.step ?_ (fun _ _ hverify => hverify) ?_⟩
  · intro q q' m htxid hrecipient hbelongs
    exact ⟨hbelongs.1, hbelongs.2.1.trans htxid.symm, hbelongs.2.2.trans hrecipient.symm⟩
  · rintro j m i q rfl hj hi hq
    -- the call the table names has this transaction id
    obtain ⟨q', hq', ht⟩ := h.1 m.t i hi
    rw [hq, Option.some.injEq] at hq'
    exact ⟨h.2.arrived m (List.mem_of_getElem? hj), (hq' ▸ ht).symm, hok m i q hj hi hq⟩

/-- **Response authenticity over whole runs**: as long as what is delivered to a query comes
from its addressee, every response returned is authentic. -/
theorem responses_authentic (P : Primitives) (own : Bytes) (actions : List RpcAction)
    (hrun : EachStep (rpcStep P own) FromAddressee Rpc.new actions) :
    ∀ q ∈ (actions.foldl (rpcStep P own) Rpc.new).queries, ∀ m, q.returned = some m →
      Authentic P own q m := by
  intro q hq m hm
  have hrouted : Routed P own (actions.foldl (rpcStep P own) Rpc.new) :=
    EachStep.invariant (fun _ _ hn hok => hn.step hok)
      ⟨fun _ _ h => absurd h (by simp [Rpc.new]), .new⟩ hrun
  obtain ⟨hverify, ht, hid⟩ := hrouted.2.calls q hq m (.inr hm)
  obtain ⟨hkey, hsigned⟩ := signed_of_verify hverify
  rw [ht, hid] at hsigned
  exact ⟨hid, hkey.trans hid, hsigned⟩

namespace Sample

def nodeID (n : UInt8) : Bytes := Toy.checksum (Toy.publicKey n)

def response (n : UInt8) (t : Bytes) : Message :=
  { y := some .response, t, q := [], a := [0xa0], id := nodeID n, pk := Toy.publicKey n,
    sig := (Toy.keypair n).sign Toy.primitives
      (array [bstr t, bstr (nodeID n), bstr (nodeID 1), [0xa0]]),
    x := false }

/-- A query to node 2, answered by node `n`. -/
def answeredBy (n : UInt8) : List RpcAction :=
  [.send (nodeID 2) [7, 7], .datagram true (some (response n [7, 7])), .deliver 0, .receive 0]

end Sample

theorem response_of_addressee :
    Authentic Toy.primitives (Sample.nodeID 1)
      ⟨Sample.nodeID 2, [7, 7], some (Sample.response 2 [7, 7]), some (Sample.response 2 [7, 7]), true⟩
      (Sample.response 2 [7, 7]) := by
  refine responses_authentic Toy.primitives (Sample.nodeID 1) (Sample.answeredBy 2)
    ⟨trivial, trivial, ?_, trivial, trivial⟩ _ (by decide +kernel) _ rfl
  intro m i q hm hi hq
  have harrived : (rpcStep Toy.primitives (Sample.nodeID 1)
      (rpcStep Toy.primitives (Sample.nodeID 1) Rpc.new (.send (Sample.nodeID 2) [7, 7]))
      (.datagram true (some (Sample.response 2 [7, 7])))).arrived = [Sample.response 2 [7, 7]] := by
    decide +kernel
  have hqueries : (rpcStep Toy.primitives (Sample.nodeID 1)
      (rpcStep Toy.primitives (Sample.nodeID 1) Rpc.new (.send (Sample.nodeID 2) [7, 7]))
      (.datagram true (some (Sample.response 2 [7, 7])))).queries =
        [⟨Sample.nodeID 2, [7, 7], none, none, false⟩] := by
    decide +kernel
  rw [harrived, List.getElem?_cons_zero, Option.some.injEq] at hm
  rw [hqueries] at hq
  have hmem := List.mem_singleton.mp (List.mem_of_getElem? hq)
  rw [← hm, hmem]
  rfl

/-- **A foreign response.** A third node that knows the transaction id answers in the
addressee's place. -/
theorem foreign_response_returned :
    ∃ q ∈ ((Sample.answeredBy 3).foldl (rpcStep Toy.primitives (Sample.nodeID 1)) Rpc.new).queries,
      q.recipientID = Sample.nodeID 2 ∧ q.returned = some (Sample.response 3 [7, 7]) ∧
      (Sample.response 3 [7, 7]).id ≠ q.recipientID := by
  decide +kernel

end Freens.Dht
