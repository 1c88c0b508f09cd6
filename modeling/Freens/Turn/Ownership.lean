/-
**WHO ACTS ON AN ALLOCATION.** The server keeps no key with an allocation: a
request acts on the allocation of the address it came from, and what the key signed
leaves out the kind of the request and its peer addresses. Which key created an
allocation is recorded beside the server (`Watched`).
-/
import Freens.Turn.Server
import Freens.Library.Run
import Freens.Toy

namespace Freens.Turn

open Library

/-! ## What keys signed -/

/-- A request as its sender meant it when it signed. -/
structure Request where
  key : Bytes
  txid : Bytes
  method : UInt16
  lifetime : Nat
  peers : List UdpAddr
  txid_length : txid.length = txidLen
  lifetime_lt : lifetime < 2 ^ 32
  deriving DecidableEq

/-- The key of the message signed the bytes its signature is checked against. -/
def Signed (issued : List Request) (m : Message) : Prop :=
  ∃ r ∈ issued, r.key = m.get attrNodeKey ∧
    authMessage r.txid r.key r.lifetime = authMessage m.txid (m.get attrNodeKey) m.lifetime

instance (issued : List Request) (m : Message) : Decidable (Signed issued m) :=
  inferInstanceAs (Decidable (∃ r ∈ issued, _))

/-- Key `K` signed a request of that kind with that lifetime and those peers. -/
def SignedAs (issued : List Request) (K : Bytes) (m : Message) : Prop :=
  ∃ r ∈ issued, r.key = K ∧ r.method = m.method ∧ r.lifetime = m.lifetime ∧ r.peers = m.peers

instance (issued : List Request) (K : Bytes) (m : Message) : Decidable (SignedAs issued K m) :=
  inferInstanceAs (Decidable (∃ r ∈ issued, _))

/-- What `K` signed under this transaction id and lifetime has its kind and peers. -/
def NotRetyped (issued : List Request) (K : Bytes) (m : Message) : Prop :=
  ∀ r ∈ issued, r.key = K → r.txid = m.txid → r.lifetime = m.lifetime →
    r.method = m.method ∧ r.peers = m.peers

instance (issued : List Request) (K : Bytes) (m : Message) : Decidable (NotRetyped issued K m) :=
  inferInstanceAs (Decidable (∀ r ∈ issued, _))

variable {m : Message} {act : ServerAction} {P : Primitives}

theorem signedAs_of_signed {issued : List Request} (htxid : m.txid.length = txidLen)
    (hsigned : Signed issued m) (htyped : NotRetyped issued (m.get attrNodeKey) m) :
    SignedAs issued (m.get attrNodeKey) m := by
  obtain ⟨r, hr, hkey, hbytes⟩ := hsigned
  have hlen : r.txid.length = m.txid.length := r.txid_length.trans htxid.symm
  obtain ⟨htx, _, hlt⟩ := authMessage_inj hlen (congrArg List.length hkey) r.lifetime_lt
    m.lifetime_lt hbytes
  obtain ⟨hmethod, hpeers⟩ := htyped r hr hkey htx hlt
  exact ⟨r, hr, hkey, hmethod, hlt, hpeers⟩

/-! ## The server with its creators -/

/-- The server, and for each serial the key that made the allocation. -/
structure Watched where
  server : Server
  creator : Table Nat Bytes

/-- A fresh server, nothing created. -/
def Watched.start (cfg : ServerConfig) (now : Int) : Watched := ⟨listenTURN cfg now, ∅⟩

/-- A step; a new serial is recorded with the key of the request. -/
def watchStep (P : Primitives) (w : Watched) (act : ServerAction) : Watched :=
  let s' := (serverStep P w.server act).1
  { server := s'
    creator :=
      if s'.nextSerial = w.server.nextSerial then w.creator
      else (act.message.map (fun p =>
        w.creator.insert w.server.nextSerial (p.2.get attrNodeKey))).getD w.creator }

/-- Every allocation's creator is on record. -/
def Watched.Known (w : Watched) : Prop :=
  ∀ x a, w.server.allocs.lookup x = some a →
    a.serial < w.server.nextSerial ∧ ∃ K, w.creator.lookup a.serial = some K

theorem known_start (cfg : ServerConfig) (now : Int) : (Watched.start cfg now).Known :=
  fun _ _ h => absurd h (by simp [Watched.start, listenTURN])

variable {w : Watched}

theorem watchStep_creator_of_eq
    (h : (serverStep P w.server act).1.nextSerial = w.server.nextSerial) :
    (watchStep P w act).creator = w.creator := if_pos h

variable {raddr : UdpAddr}

theorem watchStep_creator_of_new (hm : act.message = some (raddr, m))
    (h : (serverStep P w.server act).1.nextSerial = w.server.nextSerial + 1) :
    (watchStep P w act).creator
      = w.creator.insert w.server.nextSerial (m.get attrNodeKey) := by
  have hne : (serverStep P w.server act).1.nextSerial ≠ w.server.nextSerial := by omega
  unfold watchStep
  simp only
  rw [if_neg hne, hm, Option.map_some, Option.getD_some]

theorem known_watchStep (hw : w.Known) : (watchStep P w act).Known := by
  intro x a ha
  replace ha : (serverStep P w.server act).1.allocs.lookup x = some a := ha
  show a.serial < (serverStep P w.server act).1.nextSerial ∧ _
  obtain ⟨raddr, m, hm, _, hhandled⟩ | hidle := serverStep_effect P w.server act
  · obtain hcreates | hkeeps := hhandled.own
    · rw [watchStep_creator_of_new hm hcreates.serial, hcreates.serial]
      by_cases hx : x = raddr.text
      · -- the new allocation
        obtain ⟨a', ha', hserial⟩ := hcreates.allocation
        rw [hx, ha', Option.some.injEq] at ha
        rw [← ha, hserial]
        exact ⟨Nat.lt_succ_self _, _, AList.lookup_insert _⟩
      · rw [hhandled.others x hx] at ha
        obtain ⟨hlt, K, hK⟩ := hw x a ha
        refine ⟨Nat.lt_succ_of_lt hlt, K, ?_⟩
        rw [AList.lookup_insert_ne (Nat.ne_of_lt hlt), hK]
    · rw [watchStep_creator_of_eq hkeeps.serial, hkeeps.serial]
      by_cases hx : x = raddr.text
      · rw [hx] at ha
        obtain ⟨a₀, ha₀, hserial⟩ := hkeeps.allocation a ha
        rw [← hserial]
        exact hw _ a₀ ha₀
      · rw [hhandled.others x hx] at ha
        exact hw x a ha
  · rw [watchStep_creator_of_eq hidle.serial, hidle.serial]
    exact hw x a (hidle.sub x a ha)

theorem known_run {cfg : ServerConfig} {start : Int} (acts : List ServerAction) :
    (acts.foldl (watchStep P) (.start cfg start)).Known :=
  @EachStep.invariant _ _ (watchStep P) (fun _ _ => True) Watched.Known
    (fun _ _ hw _ => known_watchStep hw) acts _ (known_start cfg start)
    (EachStep.of_forall_mem (fun _ _ _ => trivial))

/-! ## Acting on an allocation -/

/-- The allocation at `x` is changed, or a request about it succeeds. -/
def Acts (P : Primitives) (w : Watched) (act : ServerAction) (x : AddrText) : Prop :=
  (watchStep P w act).server.allocs.lookup x ≠ w.server.allocs.lookup x ∨
    (serverStep P w.server act).2.Grants x

instance (P : Primitives) (w : Watched) (act : ServerAction) (x : AddrText) :
    Decidable (Acts P w act x) := inferInstanceAs (Decidable (_ ∨ _))

instance (P : Primitives) (m : Message) : Decidable (m.Authentic P) :=
  decidable_of_iff (verifyAuth P m = true ∧ m.cls = classRequest ∧
      (m.method = methodAllocate ∨ m.method = methodRefresh ∨ m.method = methodCreatePermission))
    ⟨fun h => ⟨h.1, h.2.1, h.2.2⟩, fun h => ⟨h.verified, h.request, h.method⟩⟩

/-- **The condition on a datagram**: an authenticated request at a live allocation is signed
by its creator, as that kind and with those peers. -/
def Guarded (P : Primitives) (issued : List Request) (w : Watched) (act : ServerAction) : Prop :=
  ∀ p ∈ act.message, p.2.Authentic P → ∀ a ∈ w.server.allocs.lookup p.1.text,
    act.now < a.expires → ∀ K ∈ w.creator.lookup a.serial,
      p.2.get attrNodeKey = K ∧ NotRetyped issued K p.2

instance (P : Primitives) (issued : List Request) (w : Watched) (act : ServerAction) :
    Decidable (Guarded P issued w act) :=
  inferInstanceAs (Decidable (∀ p ∈ act.message, _))

theorem authentic_of_acts {x : AddrText} {a : Allocation} (ha : w.server.allocs.lookup x = some a)
    (hlive : act.now < a.expires) (hacts : Acts P w act x) :
    ∃ raddr m, act.message = some (raddr, m) ∧ raddr.text = x ∧ m.Authentic P := by
  obtain ⟨raddr, m, hm, hauth, hhandled⟩ | hidle := serverStep_effect P w.server act
  · refine ⟨raddr, m, hm, ?_, hauth⟩
    by_contra hne
    obtain hchanged | hgrants := hacts
    · exact hchanged (hhandled.others x (Ne.symm hne))
    · exact hne (hhandled.grants x hgrants).symm
  · obtain hchanged | hgrants := hacts
    · exact absurd ((hidle.live x a ha hlive).trans ha.symm) hchanged
    · exact absurd hgrants (hidle.grants x)

theorem txid_length_of_message (hm : act.message = some (raddr, m)) : m.txid.length = txidLen := by
  cases act with
  | datagram data raddr' bind now =>
    obtain ⟨m', hm', heq⟩ := Option.map_eq_some_iff.mp
      (show (received data).map (raddr', ·) = some (raddr, m) from hm)
    have hsame : m' = m := (Prod.ext_iff.mp heq).2
    rw [← hsame]
    exact parseMessage_txid hm'
  | timer key serial now | peer key peer data now =>
    exact absurd hm (by simp [ServerAction.message])

/-- **Allocations are their creators'.** With no signature forged and every datagram
guarded, a step that acts on an unexpired allocation is a request from its address that its
creator signed. -/
theorem allocation_owned (P : Primitives) (cfg : ServerConfig) (start : Int)
    (issued : List Request) (acts : List ServerAction)
    (hunforged : ∀ act ∈ acts, ∀ p ∈ act.message, verifyAuth P p.2 = true → Signed issued p.2)
    (hguarded : EachStep (watchStep P) (Guarded P issued) (.start cfg start) acts)
    (i : Nat) (act : ServerAction) (hi : acts[i]? = some act) (x : AddrText) (a : Allocation)
    (ha : ((acts.take i).foldl (watchStep P) (.start cfg start)).server.allocs.lookup x = some a)
    (hlive : act.now < a.expires)
    (hacts : Acts P ((acts.take i).foldl (watchStep P) (.start cfg start)) act x) :
    ∃ K, ((acts.take i).foldl (watchStep P) (.start cfg start)).creator.lookup a.serial = some K ∧
      ∃ raddr m, act.message = some (raddr, m) ∧ raddr.text = x ∧ SignedAs issued K m := by
  obtain ⟨_, K, hK⟩ := known_run (acts.take i) x a ha
  obtain ⟨raddr, m, hm, hx, hauth⟩ := authentic_of_acts ha hlive hacts
  refine ⟨K, hK, raddr, m, hm, hx, ?_⟩
  -- the guard at this step: the key is the creator's, and nothing was re-typed
  obtain ⟨hkey, htyped⟩ := hguarded.at hi (raddr, m) hm hauth a (hx ▸ ha) hlive K hK
  have hsigned : Signed issued m :=
    hunforged act (List.mem_of_getElem? hi) (raddr, m) hm hauth.verified
  subst hkey
  exact signedAs_of_signed (txid_length_of_message hm) hsigned htyped

/-! ## Runs -/

namespace OwnershipSample

def client : UdpAddr := { ip := [192, 0, 2, 1], port := 4000 }
def relayed : UdpAddr := { ip := [192, 0, 2, 9], port := 5000 }
def stranger : UdpAddr := { ip := [203, 0, 113, 7], port := 6000 }

def txid (n : UInt8) : Bytes := List.replicate 12 n

def request (key n : UInt8) (method : UInt16) (lifetime : Nat)
    (h : lifetime < 2 ^ 32 := by decide) : Request :=
  ⟨Toy.publicKey key, txid n, method, lifetime, [], by rfl, h⟩

def message (key n : UInt8) (method : UInt16) (lifetime : Nat) : Message :=
  sign Toy.primitives ⟨method, classRequest, txid n, [(attrLifetime, bigEndian 4 lifetime)]⟩
    (Toy.keypair key)

/-- Under another kind, with a peer of the attacker's; the signature stays. -/
def retyped (m : Message) : Message :=
  { m with
    method := methodCreatePermission
    attrs := m.attrs ++ addrAttr attrXORPeerAddress stranger m.txid }

def send (m : Message) (now : Int) : ServerAction :=
  .datagram m.encode client (.bound relayed) (now * second)

def allocate : ServerAction := send (message 1 1 methodAllocate 600) 0

end OwnershipSample

section
open OwnershipSample

theorem allocation_owned_refreshed :
    ∃ K, ([allocate].foldl (watchStep Toy.primitives) (.start {} 0)).creator.lookup 0 = some K ∧
      ∃ raddr m, (send (message 1 2 methodRefresh 300) 5).message = some (raddr, m) ∧
        raddr.text = client.text ∧
        SignedAs [request 1 1 methodAllocate 600, request 1 2 methodRefresh 300] K m :=
  allocation_owned Toy.primitives {} 0
    [request 1 1 methodAllocate 600, request 1 2 methodRefresh 300]
    [allocate, send (message 1 2 methodRefresh 300) 5] (by decide +kernel) (by decide +kernel) 1 _
    rfl client.text ⟨0, client, relayed, ∅, 600 * second⟩ (by decide +kernel) (by decide +kernel)
    (by decide +kernel)

/-- **An allocation in other hands.** Key 2's Refresh from the same address releases it; key
1's re-typed Allocate opens it to a peer key 1 never named. -/
theorem acted_on_by_stranger :
    let issued := [request 1 1 methodAllocate 600, request 2 2 methodRefresh 0]
    let held := [allocate].foldl (watchStep Toy.primitives) (.start {} 0)
    let release := message 2 2 methodRefresh 0
    let permit := retyped (message 1 1 methodAllocate 600)
    (∀ act ∈ [allocate, send release 5, send permit 5], ∀ p ∈ act.message,
      verifyAuth Toy.primitives p.2 = true → Signed issued p.2) ∧
    held.server.allocs.lookup client.text = some ⟨0, client, relayed, ∅, 600 * second⟩ ∧
    held.creator.lookup 0 = some (Toy.publicKey 1) ∧
    (watchStep Toy.primitives held (send release 5)).server.allocs.lookup client.text = none ∧
    (∀ p ∈ (send release 5).message, ¬ SignedAs issued (Toy.publicKey 1) p.2) ∧
    ((watchStep Toy.primitives held (send permit 5)).server.allocs.lookup client.text).map
      (fun a => a.perms.lookup stranger.text) = some (some stranger) ∧
    (∀ p ∈ (send permit 5).message, ¬ SignedAs issued (Toy.publicKey 1) p.2) := by
  decide +kernel

end

end Freens.Turn
