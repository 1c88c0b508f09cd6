/-
**STUN BINDING** (`stun/stun.go`; `turn/server.go`:
`replyBinding`): the client's parser against the replies of both servers.

The two encoders are written separately and turn out to send the same bytes.
-/
import Freens.Turn.Framing

namespace Freens.Stun

open Library Turn

/-! ## The client -/

abbrev msgBindingRequest : Nat := 0x0001
abbrev msgBindingSuccess : Nat := 0x0101
abbrev attrMappedAddress : Nat := 0x0001
abbrev attrXORMappedAddress : Nat := 0x0020
abbrev maxMessageLen : Nat := 548
abbrev readBufSize : Nat := 2048

/-- `buildBindingRequest`. -/
def buildBindingRequest (txid : Bytes) : Bytes :=
  bigEndian 2 msgBindingRequest ++ bigEndian 2 0 ++ magicCookie ++ txid

/-- Family, port and raw address. -/
def splitAddress (val : Bytes) : Option (UInt8 × Nat × Bytes) :=
  if val.length < 8 then none
  else if val[0]? ≠ some 0 then none
  else
    let port := uint16 (val.drop 2)
    let raw := val.drop 4
    if val[1]? = some 0x01 then (if raw.length ≠ 4 then none else some (0x01, port, raw))
    else if val[1]? = some 0x02 then (if raw.length ≠ 16 then none else some (0x02, port, raw))
    else none

/-- What an address is XORed with. -/
def addressKey (fam : UInt8) (txid : Bytes) : Bytes :=
  if fam = 0x01 then magicCookie else magicCookie ++ txid

/-- The masked form of an address. -/
def parseXORAddress (val txid : Bytes) : Option UdpAddr :=
  (splitAddress val).map fun p =>
    { ip := p.2.2.zipWith (· ^^^ ·) (addressKey p.1 txid), port := p.2.1 ^^^ 0x2112 }

/-- The plain form of an address. -/
def parseMappedAddress (val : Bytes) : Option UdpAddr :=
  (splitAddress val).map fun p => { ip := p.2.2, port := p.2.1 }

/-- The first attribute of a kind wins; a later one is not even parsed. -/
def firstAddress (seen parsed : Option UdpAddr) : Option (Option UdpAddr) :=
  match seen with
  | some a => some (some a)
  | none => parsed.map some

/-- The attribute walk: the XOR address and the plain one, as found so far. -/
def walkAttrs (txid : Bytes) :
    Nat → Bytes → Option UdpAddr → Option UdpAddr → Option (Option UdpAddr × Option UdpAddr)
  | 0, _, xorAddr, plainAddr => some (xorAddr, plainAddr)
  | fuel + 1, body, xorAddr, plainAddr =>
    if body = [] then some (xorAddr, plainAddr)
    else if body.length < attrHdrLen then none
    else
      let kind := uint16 body
      let al := uint16 (body.drop 2)
      if al > body.length - attrHdrLen then none
      else
        let val := (body.drop attrHdrLen).take al
        let rest := body.drop (attrHdrLen + al + padding al)
        if kind = attrXORMappedAddress then
          (firstAddress xorAddr (parseXORAddress val txid)).bind
            fun found => walkAttrs txid fuel rest found plainAddr
        else if kind = attrMappedAddress then
          (firstAddress plainAddr (parseMappedAddress val)).bind
            fun found => walkAttrs txid fuel rest xorAddr found
        else walkAttrs txid fuel rest xorAddr plainAddr

/-- `parseBindingResponse`: header, transaction, then the attributes. -/
def parseBindingResponse (msg txid : Bytes) : Option UdpAddr :=
  if msg.length < headerLen then none
  else if uint16 msg ≠ msgBindingSuccess then none
  else if (msg.drop 4).take 4 ≠ magicCookie then none
  else if (msg.drop 8).take txidLen ≠ txid then none
  else
    let mlen := uint16 (msg.drop 2)
    if mlen > maxMessageLen then none
    else if headerLen + mlen > msg.length then none
    else
      let body := (msg.drop headerLen).take mlen
      -- the legacy attribute only where there is no XOR address
      (walkAttrs txid body.length body none none).bind fun found => found.1.or found.2

/-! ## The server -/

/-- The attribute walk of `isBindingRequest`. -/
def walksCleanly : Nat → Bytes → Bool
  | 0, _ => true
  | fuel + 1, body =>
    if body = [] then true
    else if body.length < attrHdrLen then false
    else
      let al := uint16 (body.drop 2)
      let size := attrHdrLen + (al + padding al)
      if size > body.length then false else walksCleanly fuel (body.drop size)

/-- `isBindingRequest`: header and length. -/
def isBindingRequest (m : Bytes) : Bool :=
  if m.length < headerLen then false
  else if uint16 m ≠ msgBindingRequest then false
  else if (m.drop 4).take 4 ≠ magicCookie then false
  else
    let mlen := uint16 (m.drop 2)
    if mlen > maxMessageLen ∨ headerLen + mlen > m.length then false
    else walksCleanly mlen ((m.drop headerLen).take mlen)

/-- The transaction id of a datagram. -/
def requestId (data : Bytes) : Bytes := (data.drop 8).take txidLen

/-- `To16` of an address that is none is nil. -/
def buildBindingSuccess (txid : Bytes) (raddr : UdpAddr) : Bytes :=
  let ip := ipText raddr.ip
  let fam := family ip
  let raw := if ip.length = 4 ∨ ip.length = 16 then ip else []
  let vlen := 4 + raw.length
  bigEndian 2 msgBindingSuccess ++ bigEndian 2 (attrHdrLen + vlen) ++ magicCookie ++ txid ++
    (bigEndian 2 attrXORMappedAddress ++ bigEndian 2 vlen ++
      ([0, fam] ++ bigEndian 2 (raddr.port ^^^ 0x2112) ++
        raw.zipWith (· ^^^ ·) (addressKey fam txid)))

/-- `serve`, one datagram: the reply, if any. -/
def serve (data : Bytes) (raddr : UdpAddr) : Option Bytes :=
  let buf := data.take readBufSize
  if isBindingRequest buf then some (buildBindingSuccess (requestId buf) raddr) else none

/-! ## One reply, two encoders -/

/-- The relay's answer, as a message. -/
def bindingSuccess (txid : Bytes) (a : UdpAddr) : Message :=
  ⟨methodBinding, classSuccess, txid, addrAttr Turn.attrXORMappedAddress a txid⟩

theorem msgType_binding : (msgType methodBinding classRequest).toNat = msgBindingRequest ∧
    (msgType methodBinding classSuccess).toNat = msgBindingSuccess := by
  decide

section
variable {a : UdpAddr} {txid : Bytes}

theorem zipWith_addressKey {ip : Bytes} (h : ip.length = 4 ∨ ip.length = 16) (txid : Bytes) :
    ip.zipWith (· ^^^ ·) (addressKey (family ip) txid) = ip.zipWith (· ^^^ ·) (xorMask txid) := by
  rcases h with h | h
  · have hfamily : family ip = 0x01 := if_pos h
    have happend : (ip ++ []).zipWith (· ^^^ ·) (magicCookie ++ txid)
        = ip.zipWith (· ^^^ ·) magicCookie ++ ([] : Bytes).zipWith (· ^^^ ·) txid :=
      List.zipWith_append h
    rw [List.append_nil, List.zipWith_nil_left, List.append_nil] at happend
    rw [hfamily, addressKey, if_pos rfl]
    exact happend.symm
  · have hfamily : family ip = 0x02 := if_neg (by omega)
    rw [hfamily, addressKey, if_neg (by decide)]
    rfl

section
variable (ha : a.Proper) (htxid : txid.length = 12)
include ha htxid

theorem body_bindingSuccess :
    ∃ v, xorAddr a txid = some v ∧ v.length = 4 + (ipText a.ip).length ∧
      padding v.length = 0 ∧ (bindingSuccess txid a).body = encodeAttr (0x0020, v) ∧
      (bindingSuccess txid a).body.length = 4 + v.length := by
  obtain ⟨v, hv⟩ : ∃ v, xorAddr a txid = some v := ⟨_, xorAddr_eq ha txid⟩
  obtain ⟨hlen, _, _⟩ := xorAddr_parts ha htxid hv
  have hpad : padding v.length = 0 := by
    rw [hlen]
    rcases ha.1 with h | h <;> rw [h] <;> rfl
  have hbody : (bindingSuccess txid a).body = encodeAttr (0x0020, v) := by
    rw [Message.body, Message.sorted, bindingSuccess, addrAttr, hv]
    exact List.append_nil _
  refine ⟨v, hv, hlen, hpad, hbody, ?_⟩
  rw [hbody, length_encodeAttr]
  show 4 + v.length + padding v.length = _
  omega

theorem buildBindingSuccess_eq :
    buildBindingSuccess txid a = (bindingSuccess txid a).encode := by
  obtain ⟨v, hv, hlen, hpad, hbody, hsize⟩ := body_bindingSuccess ha htxid
  have henc : (bindingSuccess txid a).encode = bigEndian 2 (msgType methodBinding classSuccess).toNat ++
      bigEndian 2 (bindingSuccess txid a).body.length ++ magicCookie ++ txid ++
        (bindingSuccess txid a).body := rfl
  rw [xorAddr_eq ha, Option.some.injEq] at hv
  rw [henc, msgType_binding.2, hsize, hbody, encodeAttr]
  dsimp only
  rw [hpad, List.replicate_zero, List.append_nil, buildBindingSuccess, if_pos ha.1,
    zipWith_addressKey ha.1, ← hlen, hv]
  rfl

/-! ## The parser on the reply -/

theorem parseXORAddress_xorAddr {v : Bytes}
    (hv : xorAddr a txid = some v) : parseXORAddress v txid = some a.plain := by
  obtain ⟨hlen, hport, hip⟩ := xorAddr_parts ha htxid hv
  have hraw : (v.drop 4).length = (ipText a.ip).length := by
    rw [List.length_drop]
    omega
  have hhead : v[0]? = some 0 ∧ v[1]? = some (family (ipText a.ip)) := by
    rw [xorAddr_eq ha, Option.some.injEq] at hv
    rw [← hv]
    exact ⟨rfl, rfl⟩
  have hfamily : family (v.drop 4) = family (ipText a.ip) := by
    rw [family, family, hraw]
  have hplain : (v.drop 4).zipWith (· ^^^ ·) (addressKey (family (ipText a.ip)) txid)
      = ipText a.ip := by
    rw [← hfamily, zipWith_addressKey (hraw ▸ ha.1)]
    exact hip
  have hlong : ¬ v.length < 8 := by
    rcases ha.1 with h | h <;> omega
  rw [parseXORAddress, splitAddress, if_neg hlong, if_neg (by simp [hhead.1]), hhead.2]
  dsimp only
  rw [hraw]
  rcases ha.1 with h | h
  · have hv4 : family (ipText a.ip) = 0x01 := if_pos h
    rw [hv4] at hplain ⊢
    rw [if_pos rfl, if_neg (by omega), Option.map_some, hport, hplain]
    rfl
  · have hv6 : family (ipText a.ip) = 0x02 := if_neg (by omega)
    rw [hv6] at hplain ⊢
    rw [if_neg (by decide), if_pos rfl, if_neg (by omega), Option.map_some, hport, hplain]
    rfl

end

/-- A reply is understood by who sent the request, and by nobody else. -/
def Understood (a : UdpAddr) (txid reply : Bytes) : Prop :=
  ∀ other, parseBindingResponse reply other = if other = txid then some a.plain else none

theorem understood_bindingSuccess (ha : a.Proper) (htxid : txid.length = 12) :
    Understood a txid (bindingSuccess txid a).encode := by
  intro other
  obtain ⟨v, hv, hlen, hpad, hbody, hsize⟩ := body_bindingSuccess ha htxid
  have hsmall : v.length ≤ 20 := by
    rcases ha.1 with h | h <;> omega
  obtain ⟨hwhole, htype, hmlen, hcookie, hid, hrest⟩ :=
    @encode_parts (bindingSuccess txid a) htxid (by omega)
  obtain ⟨hkind, hal, hvalue, hend⟩ :=
    @encodeAttr_parts (0x0020, v) (hsmall.trans (by decide)) []
  rw [List.append_nil] at hkind hal hvalue hend
  have hattr : (encodeAttr (0x0020, v)).length = 4 + v.length := by rw [← hbody, hsize]
  have hwalk : ∀ fuel, walkAttrs txid (fuel + 1) (encodeAttr (0x0020, v)) none none
      = some (some a.plain, none) := by
    intro fuel
    have hne : encodeAttr (0x0020, v) ≠ [] := List.ne_nil_of_length_pos (by omega)
    have hfits : ¬ v.length > (encodeAttr (0x0020, v)).length - 4 := by omega
    rw [walkAttrs, if_neg hne, if_neg (show ¬ (encodeAttr (0x0020, v)).length < 4 by omega)]
    dsimp only at hal hvalue hend ⊢
    rw [hal, if_neg hfits, show uint16 (encodeAttr (0x0020, v)) = attrXORMappedAddress from hkind,
      if_pos rfl, hvalue, hend, firstAddress,
      parseXORAddress_xorAddr ha htxid hv]
    cases fuel <;> rfl
  have htype' : uint16 (bindingSuccess txid a).encode = msgBindingSuccess :=
    htype.trans msgType_binding.2
  have hlong : ¬ (bindingSuccess txid a).encode.length < 20 := by omega
  have hfits : ¬ 4 + v.length > 548 ∧
      ¬ 20 + (4 + v.length) > (bindingSuccess txid a).encode.length := by
    omega
  rw [parseBindingResponse, if_neg hlong, if_neg (not_not.mpr htype'),
    if_neg (not_not.mpr hcookie), show ((bindingSuccess txid a).encode.drop 8).take txidLen = txid
      from hid]
  by_cases hother : other = txid
  · subst hother
    rw [if_neg (by simp), if_pos rfl]
    dsimp only
    rw [hmlen, hsize, if_neg hfits.1, if_neg hfits.2, hrest, hbody, ← hattr, List.take_length, hattr,
      Nat.add_comm 4, hwalk (v.length + 3)]
    rfl
  · rw [if_pos (Ne.symm hother), if_neg hother]

end

/-! ## Requests -/

theorem requestId_take {data : Bytes} {n : Nat} (hn : 20 ≤ n) :
    requestId (data.take n) = requestId data := by
  rw [requestId, requestId, List.drop_take, List.take_take]
  show (data.drop 8).take (min 12 (n - 8)) = _
  rw [Nat.min_eq_left (by omega)]

theorem length_requestId {data : Bytes} (h : 20 ≤ data.length) : (requestId data).length = 12 := by
  rw [requestId, List.length_take, List.length_drop]
  show min 12 _ = 12
  omega

theorem txid_of_parseMessage {data : Bytes} {m : Message} (h : parseMessage data = some m) :
    m.txid = requestId data := by
  simp only [parseMessage, Option.ite_none_left_eq_some, Option.map_eq_some_iff] at h
  obtain ⟨_, _, _, _, _, _, rfl⟩ := h
  rfl

/-- **Binding replies are understood** by the client under the request's transaction id
only; both servers answer the client's own request. -/
theorem binding_replies_understood :
    (∀ (a : UdpAddr) (data reply : Bytes), a.Proper → serve data a = some reply →
      Understood a (requestId data) reply) ∧
    (∀ (P : Primitives) (s : Server) (a : UdpAddr) (data : Bytes) (m : Message) (bind : RelayBind)
      (now : Int), a.Proper → received data = some m → m.method = methodBinding →
      m.cls = classRequest → ∃ resp, Turn.serve P s data a bind now = (s, .toClient resp a) ∧
        Understood a (requestId data) resp.encode) ∧
    ∀ (a : UdpAddr) (txid : Bytes), txid.length = txidLen →
      requestId (buildBindingRequest txid) = txid ∧
      (serve (buildBindingRequest txid) a).isSome = true ∧
      received (buildBindingRequest txid) = some ⟨methodBinding, classRequest, txid, []⟩ := by
  refine ⟨?_, ?_, ?_⟩
  · intro a data reply ha h
    dsimp only [serve] at h
    split at h
    next hrequest =>
      have hlen : 20 ≤ (data.take readBufSize).length := by
        by_contra hshort
        rw [isBindingRequest, if_pos (Nat.not_le.mp hshort)] at hrequest
        cases hrequest
      rw [requestId_take (by decide), Option.some.injEq] at h
      have hid : (requestId data).length = 12 := by
        rw [← @requestId_take data readBufSize (by decide)]
        exact length_requestId hlen
      rw [← h, buildBindingSuccess_eq ha hid]
      exact understood_bindingSuccess ha hid
    next => cases h
  · intro P s a data m bind now ha hm hmethod hcls
    refine ⟨bindingSuccess m.txid a, ?_, ?_⟩
    · rw [Turn.serve, hm]
      exact if_pos ⟨hmethod, hcls⟩
    · have hid : m.txid = requestId data := by
        rw [txid_of_parseMessage hm]
        exact requestId_take (by decide)
      rw [← hid]
      exact understood_bindingSuccess ha (parseMessage_txid hm)
  · intro a txid htxid
    have henc : buildBindingRequest txid
        = (⟨methodBinding, classRequest, txid, []⟩ : Message).encode := by
      show _ = bigEndian 2 (msgType methodBinding classRequest).toNat ++ bigEndian 2 0 ++ magicCookie ++
        txid ++ []
      rw [msgType_binding.1, List.append_nil]
      rfl
    obtain ⟨hwhole, htype, hmlen, hcookie, hid, hrest⟩ :=
      @encode_parts ⟨methodBinding, classRequest, txid, []⟩ htxid (show 0 < 65536 by decide)
    rw [← henc] at hwhole htype hmlen hcookie hid hrest
    replace hwhole : (buildBindingRequest txid).length = 20 := hwhole
    replace hmlen : uint16 ((buildBindingRequest txid).drop 2) = 0 := hmlen
    refine ⟨hid, ?_, ?_⟩
    · have hrequest : isBindingRequest (buildBindingRequest txid) = true := by
        rw [isBindingRequest, if_neg (show ¬ _ < 20 by omega),
          if_neg (not_not.mpr (htype.trans msgType_binding.1)), if_neg (not_not.mpr hcookie)]
        dsimp only
        rw [hmlen, hwhole]
        rfl
      rw [serve, List.take_of_length_le (by rw [hwhole]; decide), if_pos hrequest]
      rfl
    · have hparse := @parseMessage_encode ⟨methodBinding, classRequest, txid, []⟩
        (show methodBinding < 4096 by decide) (show classRequest < 4 by decide) htxid
        (show 0 < 65536 by decide)
      rw [received, List.take_of_length_le (by rw [hwhole]; decide), henc, hparse]
      rfl

end Freens.Stun
