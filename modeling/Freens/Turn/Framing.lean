/-
**FRAMING OF TURN MESSAGES** (`turn/codec.go`: `encode`, `parseMessage`, `xorAddr`,
`decodeXORAddr`; `turn/server.go`: `relayLoop`; `turn/client.go`: `readLoop`).

The parser takes bodies of at most 2048 bytes; the relay's limit for a payload is
what fits beside an IPv4 address.
-/
import Freens.Turn.Server

namespace Freens.Turn

open Library

/-! ## Attributes -/

section
variable {n : Nat}

theorem uint16_append (h : n < 65536) (rest : Bytes) : uint16 (bigEndian 2 n ++ rest) = n := by
  rw [uint16, List.take_left' (bigEndian_length 2 n), ofBigEndian_bigEndian]
  exact Nat.mod_eq_of_lt h

theorem length_encodeAttr (a : UInt16 × Bytes) :
    (encodeAttr a).length = 4 + a.2.length + padding a.2.length := by
  simp only [encodeAttr, List.length_append, bigEndian_length, List.length_replicate]

theorem encodeAttr_parts {a : UInt16 × Bytes} (ha : a.2.length ≤ 2048) (rest : Bytes) :
    uint16 (encodeAttr a ++ rest) = a.1.toNat ∧
      uint16 ((encodeAttr a ++ rest).drop 2) = a.2.length ∧
      ((encodeAttr a ++ rest).drop 4).take a.2.length = a.2 ∧
      (encodeAttr a ++ rest).drop (4 + a.2.length + padding a.2.length) = rest := by
  refine ⟨?_, ?_, ?_, List.drop_left' (length_encodeAttr a)⟩
  · simp only [encodeAttr, List.append_assoc]
    exact uint16_append a.1.toNat_lt _
  · simp only [encodeAttr, List.append_assoc]
    rw [List.drop_left' (bigEndian_length 2 _)]
    exact uint16_append (by omega) _
  · have hheader : (bigEndian 2 a.1.toNat ++ bigEndian 2 a.2.length).length = 4 := by
      rw [List.length_append, bigEndian_length, bigEndian_length]
    rw [encodeAttr, List.append_assoc _ a.2, List.append_assoc, List.drop_left' hheader,
      List.append_assoc, List.take_left]

theorem parseAttrs_encodeAttr {a : UInt16 × Bytes} (ha : a.2.length ≤ 2048) (fuel : Nat)
    (rest : Bytes) :
    parseAttrs (fuel + 1) (encodeAttr a ++ rest) = (parseAttrs fuel rest).map (a :: ·) := by
  have hlen := length_encodeAttr a
  obtain ⟨htype, hal, hvalue, hrest⟩ := encodeAttr_parts ha rest
  have hlong : ¬ (encodeAttr a ++ rest).length < 4 := by
    rw [List.length_append]
    omega
  have hfits : ¬ (a.2.length > 2048 ∨ 4 + a.2.length > (encodeAttr a ++ rest).length) := by
    rw [List.length_append]
    omega
  rw [parseAttrs, if_neg hlong]
  dsimp only
  rw [hal, if_neg hfits, htype, hvalue, hrest, UInt16.ofNat_toNat]

theorem parseAttrs_flatten {attrs : List (UInt16 × Bytes)}
    (hsmall : ∀ a ∈ attrs, a.2.length ≤ 2048) :
    ∀ fuel, (attrs.map encodeAttr).flatten.length ≤ fuel →
      parseAttrs fuel (attrs.map encodeAttr).flatten = some attrs := by
  induction attrs with
  | nil =>
    intro fuel _
    cases fuel <;> rfl
  | cons a attrs ih =>
    intro fuel hfuel
    have hlen := length_encodeAttr a
    rw [List.map_cons, List.flatten_cons, List.length_append] at hfuel
    obtain ⟨fuel, rfl⟩ : ∃ k, fuel = k + 1 := ⟨fuel - 1, by omega⟩
    rw [List.map_cons, List.flatten_cons, parseAttrs_encodeAttr (hsmall a List.mem_cons_self),
      ih (fun b hb => hsmall b (List.mem_cons_of_mem _ hb)) fuel (by omega)]
    rfl

end

/-! ## Messages -/

section
variable {m : Message}

/-- The attributes in wire order. -/
def Message.sorted (m : Message) : List (UInt16 × Bytes) :=
  m.attrs.insertionSort (fun a b => a.1 ≤ b.1)

/-- Their encodings in a row. -/
def Message.body (m : Message) : Bytes := (m.sorted.map encodeAttr).flatten

theorem bit_of_lt {x : UInt16} {k i : Nat} (h : x.toNat < 2 ^ k) (hi : i < 16) (hk : k ≤ i) :
    x.toBitVec[i] = false := by
  have hpow : x.toNat < 2 ^ i := lt_of_lt_of_le h (Nat.pow_le_pow_right (by decide) hk)
  rw [BitVec.getElem_eq_testBit_toNat]
  exact Nat.testBit_lt_two_pow hpow

theorem splitMsgType_msgType {method cls : UInt16} (hmethod : method < 4096) (hcls : cls < 4) :
    splitMsgType (msgType method cls) = (method, cls) := by
  have hm : ∀ i (hi : i < 16), 12 ≤ i → method.toBitVec[i] = false :=
    fun i hi hk => bit_of_lt hmethod hi hk
  have hc : ∀ i (hi : i < 16), 2 ≤ i → cls.toBitVec[i] = false :=
    fun i hi hk => bit_of_lt hcls hi hk
  simp only [splitMsgType, msgType, Prod.mk.injEq]
  constructor
  · apply UInt16.eq_of_toBitVec_eq
    apply BitVec.eq_of_getElem_eq
    intro i hi
    interval_cases i <;> simp [hm]
  · apply UInt16.eq_of_toBitVec_eq
    apply BitVec.eq_of_getElem_eq
    intro i hi
    interval_cases i <;> simp [hc]

theorem header_parts {T L C X B : Bytes} (hT : T.length = 2) (hL : L.length = 2) (hC : C.length = 4)
    (hX : X.length = 12) :
    (T ++ L ++ C ++ X ++ B).drop 2 = L ++ (C ++ X ++ B) ∧
      ((T ++ L ++ C ++ X ++ B).drop 4).take 4 = C ∧
      ((T ++ L ++ C ++ X ++ B).drop 8).take 12 = X ∧ (T ++ L ++ C ++ X ++ B).drop 20 = B := by
  have h4 : (T ++ L).length = 4 := by rw [List.length_append, hT, hL]
  have h8 : (T ++ L ++ C).length = 8 := by rw [List.length_append, h4, hC]
  have h20 : (T ++ L ++ C ++ X).length = 20 := by rw [List.length_append, h8, hX]
  refine ⟨?_, ?_, ?_, List.drop_left' h20⟩
  · rw [List.append_assoc T, List.append_assoc T, List.append_assoc T, List.drop_left' hT]
    simp only [List.append_assoc]
  · rw [List.append_assoc (T ++ L), List.append_assoc (T ++ L), List.drop_left' h4,
      List.append_assoc, List.take_left' hC]
  · rw [List.append_assoc (T ++ L ++ C), List.drop_left' h8, List.take_left' hX]

theorem encode_parts (htxid : m.txid.length = 12) (hbody : m.body.length < 65536) :
    m.encode.length = 20 + m.body.length ∧ uint16 m.encode = (msgType m.method m.cls).toNat ∧
      uint16 (m.encode.drop 2) = m.body.length ∧ (m.encode.drop 4).take 4 = magicCookie ∧
      (m.encode.drop 8).take 12 = m.txid ∧ m.encode.drop 20 = m.body := by
  obtain ⟨hlength, hcookie, hid, hrest⟩ := @header_parts
    (bigEndian 2 (msgType m.method m.cls).toNat) (bigEndian 2 m.body.length) magicCookie m.txid m.body
    (bigEndian_length 2 _) (bigEndian_length 2 _) rfl htxid
  refine ⟨?_, ?_, ?_, hcookie, hid, hrest⟩
  · show (_ ++ _ ++ _ ++ _ ++ m.body).length = _
    simp only [List.length_append, bigEndian_length, htxid]
    rfl
  · simp only [Message.encode, List.append_assoc]
    exact uint16_append (UInt16.toNat_lt _) _
  · rw [show m.encode.drop 2 = _ from hlength]
    exact uint16_append hbody _

theorem parseMessage_encode (hmethod : m.method < 4096) (hcls : m.cls < 4)
    (htxid : m.txid.length = 12) (hbody : m.body.length < 65536) :
    parseMessage m.encode =
      if m.body.length ≤ 2048 then some { m with attrs := m.sorted } else none := by
  obtain ⟨hlen, htype, hmlen, hcookie, hid, hrest⟩ := encode_parts htxid hbody
  have hheader : ¬ m.encode.length < 20 := by omega
  have hwhole : ¬ m.body.length + 20 > m.encode.length := by omega
  rw [parseMessage, if_neg hheader]
  dsimp only
  rw [hmlen, hcookie, hid, htype, UInt16.ofNat_toNat, splitMsgType_msgType hmethod hcls, hrest,
    List.take_length]
  by_cases hfits : m.body.length ≤ 2048
  · have hsmall : ∀ a ∈ m.sorted, a.2.length ≤ 2048 := by
      intro a ha
      have hle := (List.sublist_flatten_of_mem (List.mem_map_of_mem (f := encodeAttr) ha)).length_le
      rw [length_encodeAttr] at hle
      exact (by omega : a.2.length ≤ (m.sorted.map encodeAttr).flatten.length).trans hfits
    rw [if_neg (Nat.not_lt.mpr hfits), if_neg (by simp), if_neg hwhole, if_pos hfits,
      show parseAttrs m.body.length m.body = some m.sorted from parseAttrs_flatten hsmall _ le_rfl]
    rfl
  · rw [if_pos (Nat.not_le.mp hfits), if_neg hfits]

theorem all_sorted (m : Message) (t : UInt16) : { m with attrs := m.sorted }.all t = m.all t := by
  have hsub : (m.attrs.filter (·.1 = t)).Sublist m.sorted := by
    refine List.sublist_insertionSort ?_ List.filter_sublist
    apply List.pairwise_of_forall_mem_list
    intro a ha b hb
    rw [List.mem_filter, decide_eq_true_eq] at ha hb
    rw [ha.2, hb.2]
    exact UInt16.le_refl t
  have hperm := (List.perm_insertionSort (fun a b => a.1 ≤ b.1) m.attrs).filter (·.1 = t)
  have heq : m.attrs.filter (·.1 = t) = m.sorted.filter (·.1 = t) := by
    refine List.Sublist.eq_of_length ?_ hperm.length_eq.symm
    have hfilter := hsub.filter (·.1 = t)
    simpa only [List.filter_filter, Bool.and_self] using hfilter
  simp only [Message.all, heq]

end

/-! ## Addresses -/

/-- `net.UDPAddr` as a socket reports it. -/
def UdpAddr.Proper (a : UdpAddr) : Prop :=
  ((ipText a.ip).length = 4 ∨ (ipText a.ip).length = 16) ∧ a.port < 65536

/-- What the wire keeps of an address. -/
def UdpAddr.plain (a : UdpAddr) : UdpAddr := { ip := ipText a.ip, port := a.port }

section
variable {a peer : UdpAddr} {txid data : Bytes}

theorem zipWith_xor_cancel : ∀ {raw mask : Bytes}, raw.length ≤ mask.length →
    (raw.zipWith (· ^^^ ·) mask).zipWith (· ^^^ ·) mask = raw
  | [], _, _ => rfl
  | _ :: _, [], h => absurd h (by simp)
  | x :: raw, y :: mask, h => by
    rw [List.zipWith_cons_cons, List.zipWith_cons_cons, UInt8.xor_assoc, UInt8.xor_self,
      UInt8.xor_zero, zipWith_xor_cancel (Nat.le_of_succ_le_succ h)]

/-- The family byte. -/
def family (raw : Bytes) : UInt8 := if raw.length = 4 then 0x01 else 0x02

theorem xorAddr_eq (ha : a.Proper) (txid : Bytes) :
    xorAddr a txid = some ([0, family (ipText a.ip)] ++ bigEndian 2 (a.port ^^^ 0x2112) ++
      (ipText a.ip).zipWith (· ^^^ ·) (xorMask txid)) := by
  rw [xorAddr, family]
  rcases ha.1 with h | h
  · rw [if_pos h, if_pos h]
  · rw [if_neg (by omega), if_pos h, if_neg (by omega)]

section
variable (ha : a.Proper) (htxid : txid.length = 12) {v : Bytes} (hv : xorAddr a txid = some v)
include ha htxid hv

theorem xorAddr_parts :
    v.length = 4 + (ipText a.ip).length ∧ uint16 (v.drop 2) ^^^ 0x2112 = a.port ∧
      (v.drop 4).zipWith (· ^^^ ·) (xorMask txid) = ipText a.ip := by
  have hmask : (ipText a.ip).length ≤ (xorMask txid).length := by
    have hlen : (xorMask txid).length = 16 := by
      rw [xorMask, List.length_append, htxid]
      rfl
    rcases ha.1 with h | h <;> omega
  rw [xorAddr_eq ha, Option.some.injEq] at hv
  subst hv
  refine ⟨?_, ?_, ?_⟩
  · rw [List.length_append, List.length_append, bigEndian_length, List.length_zipWith,
      Nat.min_eq_left hmask]
    rfl
  · have hport : a.port ^^^ 0x2112 < 65536 := Nat.xor_lt_two_pow (n := 16) ha.2 (by decide)
    rw [List.append_assoc]
    show uint16 (bigEndian 2 (a.port ^^^ 0x2112) ++ _) ^^^ 0x2112 = a.port
    rw [uint16_append hport, Nat.xor_assoc, Nat.xor_self, Nat.xor_zero]
  · rw [List.drop_left' (by rw [List.length_append, bigEndian_length]; rfl),
      zipWith_xor_cancel hmask]

theorem decodeXORAddr_xorAddr : decodeXORAddr v txid = some a.plain := by
  obtain ⟨hlen, hport, hip⟩ := xorAddr_parts ha htxid hv
  have hfamily : v[1]? = some (family (ipText a.ip)) := by
    rw [xorAddr_eq ha, Option.some.injEq] at hv
    rw [← hv]
    rfl
  have hlong : ¬ v.length < 8 := by
    rcases ha.1 with h | h <;> omega
  rw [decodeXORAddr, if_neg hlong]
  dsimp only
  rw [hport, hip, hfamily]
  rcases ha.1 with h | h
  · have hv4 : family (ipText a.ip) = 0x01 := if_pos h
    rw [hv4, if_pos rfl, if_neg (by omega)]
    rfl
  · have hv6 : family (ipText a.ip) = 0x02 := if_neg (by omega)
    rw [hv6, if_neg (by decide), if_pos rfl, if_neg (by omega)]
    rfl

end

/-! ## Data indications -/

/-- The indication that carries a peer's data. -/
def dataIndication (peer : UdpAddr) (data : Bytes) : Message :=
  ⟨methodData, classIndication, List.replicate txidLen 0,
    addrAttr attrXORPeerAddress peer (List.replicate txidLen 0) ++ [(attrData, data)]⟩

/-- The client's `readLoop` on an indication; an empty value is nil and skipped. -/
def receiveData (b : Bytes) : Option (UdpAddr × Bytes) :=
  match parseMessage b with
  | none => none
  | some m =>
    if m.cls ≠ classIndication ∨ m.method ≠ methodData then none
    else if m.get attrXORPeerAddress = [] ∨ m.get attrData = [] then none
    else (decodeXORAddr (m.get attrXORPeerAddress) m.txid).map (·, m.get attrData)

theorem eq_dataIndication_of_relayed {s : Server} {key : AddrText} {m : Message} {client : UdpAddr}
    (h : relayDatagram s key peer data = .toClient m client) :
    m = dataIndication peer data ∧ data.length ≤ 2032 := by
  unfold relayDatagram at h
  split at h
  next => cases h
  split at h
  next => cases h
  split at h
  next => cases h
  next hlimit =>
    cases h
    exact ⟨rfl, Nat.not_lt.mp hlimit⟩

theorem parse_dataIndication (hpeer : peer.Proper) (hlimit : data.length ≤ 2032) :
    parseMessage (dataIndication peer data).encode =
      if (ipText peer.ip).length = 4 ∨ data.length ≤ 2020 then some (dataIndication peer data)
      else none := by
  have hvalue := xorAddr_eq hpeer (List.replicate txidLen 0)
  obtain ⟨hlen, _, _⟩ := xorAddr_parts hpeer (by rfl) hvalue
  generalize hv : [0, family (ipText peer.ip)] ++ _ ++ _ = v at hvalue hlen
  have hattrs : (dataIndication peer data).attrs = [(attrXORPeerAddress, v), (attrData, data)] := by
    rw [dataIndication, addrAttr, hvalue]
    rfl
  have hsorted : (dataIndication peer data).sorted = (dataIndication peer data).attrs := by
    rw [Message.sorted, hattrs]
    rfl
  have hbody : (dataIndication peer data).body.length
      = 12 + (ipText peer.ip).length + data.length + padding data.length := by
    have hpad : padding (4 + (ipText peer.ip).length) = 0 := by
      rcases hpeer.1 with h | h <;> rw [h] <;> rfl
    rw [Message.body, hsorted, hattrs]
    simp only [List.map_cons, List.map_nil, List.flatten_cons, List.flatten_nil, List.append_nil,
      List.length_append, length_encodeAttr, hlen, hpad]
    omega
  have hpadding : padding data.length < 4 ∧ (data.length + padding data.length) % 4 = 0 := by
    unfold padding
    omega
  have hfits : (dataIndication peer data).body.length ≤ 2048 ↔
      ((ipText peer.ip).length = 4 ∨ data.length ≤ 2020) := by
    rw [hbody]
    rcases hpeer.1 with h | h <;> omega
  have hsmall : (dataIndication peer data).body.length < 65536 := by
    rw [hbody]
    rcases hpeer.1 with h | h <;> omega
  rw [parseMessage_encode (show methodData < 4096 by decide) (show classIndication < 4 by decide)
    (by rfl) hsmall, hsorted, if_congr hfits rfl rfl]

theorem receive_dataIndication_iff (hpeer : peer.Proper) (hlimit : data.length ≤ 2032) :
    receiveData (dataIndication peer data).encode = some (peer.plain, data) ↔
      data ≠ [] ∧ ((ipText peer.ip).length = 4 ∨ data.length ≤ 2020) := by
  obtain ⟨v, hv⟩ : ∃ v, xorAddr peer (List.replicate txidLen 0) = some v := ⟨_, xorAddr_eq hpeer _⟩
  have hpeerValue : (dataIndication peer data).get attrXORPeerAddress = v := by
    rw [Message.get, Message.all, dataIndication, addrAttr, hv]
    rfl
  have hdataValue : (dataIndication peer data).get attrData = data := by
    rw [Message.get, Message.all, dataIndication, addrAttr, hv]
    rfl
  have hne : v ≠ [] := by
    intro hnil
    have hlen := (xorAddr_parts hpeer (by rfl) hv).1
    rw [hnil, List.length_nil] at hlen
    omega
  have hdecoded : decodeXORAddr v (dataIndication peer data).txid = some peer.plain :=
    decodeXORAddr_xorAddr hpeer (by rfl) hv
  rw [receiveData, parse_dataIndication hpeer hlimit]
  by_cases hfits : (ipText peer.ip).length = 4 ∨ data.length ≤ 2020
  · rw [if_pos hfits]
    dsimp only
    rw [if_neg (by simp [dataIndication]), hpeerValue, hdataValue, hdecoded]
    by_cases hempty : data = []
    · simp [hempty]
    · simp [hempty, hne, hfits]
  · rw [if_neg hfits]
    simp [hfits]

/-- **Framing.** A message that fits is read back. Of what the relay sends, the parser takes
what came from an IPv4 peer or has at most 2020 bytes, and the client gets it unless it is
empty. -/
theorem turn_framing_iff (s : Server) (key : AddrText) (peer client : UdpAddr) (data : Bytes) :
    (∀ m : Message, m.method < 4096 → m.cls < 4 → m.txid.length = txidLen →
      m.body.length ≤ maxMessageLen → ∃ m', parseMessage m.encode = some m' ∧
        m'.method = m.method ∧ m'.cls = m.cls ∧ m'.txid = m.txid ∧ ∀ t, m'.all t = m.all t) ∧
    ∀ m : Message, peer.Proper → relayDatagram s key peer data = .toClient m client →
      ((parseMessage m.encode).isSome = true ↔
        ((ipText peer.ip).length = 4 ∨ data.length ≤ 2020)) ∧
      (receiveData m.encode = some (peer.plain, data) ↔
        data ≠ [] ∧ ((ipText peer.ip).length = 4 ∨ data.length ≤ 2020)) := by
  constructor
  · intro m hmethod hcls htxid hbody
    refine ⟨{ m with attrs := m.sorted }, ?_, rfl, rfl, rfl, all_sorted m⟩
    rw [parseMessage_encode hmethod hcls htxid (Nat.lt_of_le_of_lt hbody (by decide)), if_pos hbody]
  · intro m hpeer hrelayed
    obtain ⟨rfl, hlimit⟩ := eq_dataIndication_of_relayed hrelayed
    refine ⟨?_, receive_dataIndication_iff hpeer hlimit⟩
    rw [parse_dataIndication hpeer hlimit]
    split
    next hfits => exact iff_of_true rfl hfits
    next hlarge => exact iff_of_false (by simp) hlarge

end

namespace Framing

/-- A client. -/
def client : UdpAddr := { ip := [192, 0, 2, 1], port := 4000 }
/-- An IPv6 peer. -/
def peer : UdpAddr := { ip := List.replicate 16 0x20, port := 5000 }

/-- The client's allocation, open to the peer. -/
def allocation : Allocation := ⟨0, client, client, (∅ : Table _ _).insert peer.text peer, 600⟩

/-- A server with it. -/
def server : Server :=
  { listenTURN {} 0 with allocs := (∅ : Table _ _).insert client.text allocation }

end Framing

/-- **A payload within the limit is lost**: 2021 bytes of an IPv6 peer. -/
theorem ipv6_payload_lost :
    ∃ m, relayDatagram Framing.server Framing.client.text Framing.peer
        (List.replicate 2021 0) = .toClient m Framing.client ∧
      parseMessage m.encode = none ∧ receiveData m.encode = none := by
  have hpeer : Framing.peer.Proper := ⟨.inr (by decide +kernel), by decide⟩
  have hlarge : ¬ ((ipText Framing.peer.ip).length = 4 ∨
      (List.replicate 2021 (0 : UInt8)).length ≤ 2020) := by
    rw [List.length_replicate]
    decide +kernel
  have hlimit : (List.replicate 2021 (0 : UInt8)).length ≤ 2032 := by
    rw [List.length_replicate]
    decide
  have hforwarded : ¬ (List.replicate 2021 (0 : UInt8)).length > maxDataPayload :=
    Nat.not_lt.mpr hlimit
  have hparse := parse_dataIndication hpeer hlimit
  rw [if_neg hlarge] at hparse
  refine ⟨dataIndication Framing.peer (List.replicate 2021 0), ?_, hparse, by rw [receiveData, hparse]⟩
  rw [relayDatagram, show Framing.server.allocs.lookup Framing.client.text
    = some Framing.allocation from AList.lookup_insert _]
  dsimp only
  rw [if_neg (by decide +kernel), if_neg hforwarded]
  rfl

end Freens.Turn
