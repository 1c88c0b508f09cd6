/-
**TURN MESSAGES** (`turn/codec.go`): the STUN header, the attribute
list, XOR addresses, and the bytes a node key signs.

A request carries a node key and a signature over the transaction id, the
key and the lifetime. Neither the method nor any other attribute is among
the signed bytes (`authMessage`).
-/
import Freens.Data
import Freens.Library.Table

namespace Freens.Turn

open Library

/-! ## Constants -/

/-- The cookie of every message. -/
def magicCookie : Bytes := [0x21, 0x12, 0xa4, 0x42]

abbrev headerLen : Nat := 20
abbrev txidLen : Nat := 12
abbrev attrHdrLen : Nat := 4
abbrev maxMessageLen : Nat := 2048

abbrev classRequest : UInt16 := 0
abbrev classIndication : UInt16 := 1

abbrev methodBinding : UInt16 := 0x001
abbrev methodAllocate : UInt16 := 0x003
abbrev methodRefresh : UInt16 := 0x004
abbrev methodSend : UInt16 := 0x006
abbrev methodCreatePermission : UInt16 := 0x008

abbrev attrLifetime : UInt16 := 0x000d
abbrev attrXORPeerAddress : UInt16 := 0x0012
abbrev attrData : UInt16 := 0x0013
abbrev attrNodeKey : UInt16 := 0x8022
abbrev attrNodeSignature : UInt16 := 0x8023

/-- `"freens-turn-v1"` -/
def authTag : Bytes :=
  [0x66, 0x72, 0x65, 0x65, 0x6e, 0x73, 0x2d, 0x74, 0x75, 0x72, 0x6e, 0x2d, 0x76, 0x31]

/-! ## Addresses -/

/-- Only link-local IPv6 addresses have a zone. -/
structure UdpAddr where
  ip : Bytes
  port : Nat
  zone : Bytes := []
  deriving DecidableEq, Repr

/-- An IPv4 address in IPv6 form prints as the IPv4 address. -/
def ipText (ip : Bytes) : Bytes :=
  if ip.length = 16 ∧ ip.take 12 = List.replicate 10 0 ++ [0xff, 0xff] then ip.drop 12 else ip

/-- `UDPAddr.String`, by its parts. -/
structure AddrText where
  ip : Bytes
  zone : Bytes
  port : Nat
  deriving DecidableEq, Repr

/-- The text of an address. -/
def UdpAddr.text (a : UdpAddr) : AddrText := ⟨ipText a.ip, a.zone, a.port⟩

/-! ## Messages -/

/-- The attributes in the order they came. -/
structure Message where
  method : UInt16
  cls : UInt16
  txid : Bytes
  attrs : List (UInt16 × Bytes)
  deriving DecidableEq, Repr

/-- Every value of an attribute. -/
def Message.all (m : Message) (t : UInt16) : List Bytes :=
  (m.attrs.filter (·.1 = t)).map (·.2)

/-- Nil when absent, and an empty value is nil too. -/
def Message.get (m : Message) (t : UInt16) : Bytes := (m.all t).headD []

/-- Seconds, zero when absent. -/
def Message.lifetime (m : Message) : Nat :=
  if (m.get attrLifetime).length = 4 then ofBigEndian (m.get attrLifetime) else 0

/-- Method and class interleaved. -/
def msgType (method cls : UInt16) : UInt16 :=
  ((method &&& 0x1f80) <<< 2) ||| ((cls &&& 2) <<< 7) ||| ((method &&& 0x0070) <<< 1) |||
    ((cls &&& 1) <<< 4) ||| (method &&& 0x000f)

/-- The two read back. -/
def splitMsgType (t : UInt16) : UInt16 × UInt16 :=
  (((t &&& 0x3e00) >>> 2) ||| ((t &&& 0x00e0) >>> 1) ||| (t &&& 0x000f),
    ((t &&& 0x0100) >>> 7) ||| ((t &&& 0x0010) >>> 4))

/-- Two bytes, big-endian. -/
def uint16 (b : Bytes) : Nat := ofBigEndian (b.take 2)

/-- Values are aligned to four bytes. -/
def padding (n : Nat) : Nat := (4 - n % 4) % 4

/-- The attribute loop of `parseMessage`; a round takes at least four bytes. -/
def parseAttrs : Nat → Bytes → Option (List (UInt16 × Bytes))
  | 0, _ => some []
  | fuel + 1, body =>
    if body.length < attrHdrLen then some []
    else
      let al := uint16 (body.drop 2)
      if al > maxMessageLen ∨ attrHdrLen + al > body.length then none
      else (parseAttrs fuel (body.drop (attrHdrLen + al + padding al))).map
        ((UInt16.ofNat (uint16 body), (body.drop attrHdrLen).take al) :: ·)

/-- `parseMessage`: the header, then the attributes. -/
def parseMessage (data : Bytes) : Option Message :=
  if data.length < headerLen then none
  else
    let mlen := uint16 (data.drop 2)
    if mlen > maxMessageLen then none
    else if (data.drop 4).take 4 ≠ magicCookie then none
    else if mlen + headerLen > data.length then none
    else
      let (method, cls) := splitMsgType (UInt16.ofNat (uint16 data))
      let body := (data.drop headerLen).take mlen
      (parseAttrs body.length body).map fun attrs =>
        { method, cls, txid := (data.drop 8).take txidLen, attrs }

/-- Type, length, value and padding. -/
def encodeAttr (a : UInt16 × Bytes) : Bytes :=
  bigEndian 2 a.1.toNat ++ bigEndian 2 a.2.length ++ a.2 ++ List.replicate (padding a.2.length) 0

/-- The attributes by ascending type. -/
def Message.encode (m : Message) : Bytes :=
  let body := ((m.attrs.insertionSort (fun a b => a.1 ≤ b.1)).map encodeAttr).flatten
  bigEndian 2 (msgType m.method m.cls).toNat ++ bigEndian 2 body.length ++ magicCookie ++ m.txid ++
    body

/-- The mask of an XOR address. -/
def xorMask (txid : Bytes) : Bytes := magicCookie ++ txid

/-- `decodeXORAddr`: four or sixteen bytes, by the family. -/
def decodeXORAddr (v txid : Bytes) : Option UdpAddr :=
  if v.length < 8 then none
  else
    let port := uint16 (v.drop 2) ^^^ 0x2112
    let ip := (v.drop 4).zipWith (· ^^^ ·) (xorMask txid)
    if v[1]? = some 0x01 then (if v.length ≠ 8 then none else some { ip, port })
    else if v[1]? = some 0x02 then (if v.length ≠ 20 then none else some { ip, port })
    else none

/-- `xorAddr`: none for an address of another length. -/
def xorAddr (a : UdpAddr) (txid : Bytes) : Option Bytes :=
  let raw := ipText a.ip
  let encoded (family : UInt8) : Bytes :=
    [0, family] ++ bigEndian 2 (a.port ^^^ 0x2112) ++ raw.zipWith (· ^^^ ·) (xorMask txid)
  if raw.length = 4 then some (encoded 0x01)
  else if raw.length = 16 then some (encoded 0x02)
  else none

/-- The peer addresses of a message; an undecodable one is skipped. -/
def Message.peers (m : Message) : List UdpAddr :=
  (m.all attrXORPeerAddress).filterMap (fun v => decodeXORAddr v m.txid)

/-! ## Authentication -/

/-- What a node signs. -/
def authMessage (txid nodeKey : Bytes) (lifetimeSec : Nat) : Bytes :=
  authTag ++ txid ++ nodeKey ++ bigEndian 8 lifetimeSec

section
variable (P : Primitives)

/-- `sign`: key and signature appended. -/
def sign (m : Message) (kp : Crypto.Keypair) : Message :=
  let nodeKey := kp.publicKey P
  { m with attrs := m.attrs ++ [(attrNodeKey, nodeKey),
      (attrNodeSignature, kp.sign P (authMessage m.txid nodeKey m.lifetime))] }

/-- `verifyAuth`: both lengths, then the signature. -/
def verifyAuth (m : Message) : Bool :=
  if (m.get attrNodeKey).length ≠ Constants.ed25519PublicKeyLen
      ∨ (m.get attrNodeSignature).length ≠ Constants.ed25519SignatureLen then false
  else Crypto.verify P (m.get attrNodeKey) (m.get attrNodeSignature)
    (authMessage m.txid (m.get attrNodeKey) m.lifetime)

end

theorem Message.lifetime_lt (m : Message) : m.lifetime < 2 ^ 32 := by
  unfold Message.lifetime
  split
  next h =>
    have hlt := ofBigEndian_lt (m.get attrLifetime)
    rw [h] at hlt
    exact hlt
  next => norm_num

theorem authMessage_inj {txid txid' key key' : Bytes} {lt lt' : Nat}
    (htxid : txid.length = txid'.length) (hkey : key.length = key'.length)
    (hlt : lt < 2 ^ 32) (hlt' : lt' < 2 ^ 32)
    (h : authMessage txid key lt = authMessage txid' key' lt') :
    txid = txid' ∧ key = key' ∧ lt = lt' := by
  unfold authMessage at h
  simp only [List.append_assoc, List.append_cancel_left_eq] at h
  obtain ⟨hid, hrest⟩ := List.append_inj h htxid
  obtain ⟨hk, hnum⟩ := List.append_inj hrest hkey
  refine ⟨hid, hk, ?_⟩
  have hval := congrArg ofBigEndian hnum
  rw [ofBigEndian_bigEndian, ofBigEndian_bigEndian, Nat.mod_eq_of_lt (by omega),
    Nat.mod_eq_of_lt (by omega)] at hval
  exact hval

theorem parseMessage_txid {data : Bytes} {m : Message} (h : parseMessage data = some m) :
    m.txid.length = txidLen := by
  unfold parseMessage at h
  split at h
  next => cases h
  next hlen =>
    simp only at h
    split at h
    next => cases h
    split at h
    next => cases h
    split at h
    next => cases h
    obtain ⟨attrs, _, heq⟩ := Option.map_eq_some_iff.mp h
    rw [← heq]
    show ((data.drop 8).take txidLen).length = txidLen
    rw [List.length_take, List.length_drop]
    have hheader : 20 ≤ data.length := Nat.le_of_not_lt hlen
    show min 12 (data.length - 8) = 12
    omega

end Freens.Turn
