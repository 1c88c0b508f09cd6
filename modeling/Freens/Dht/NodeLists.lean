/-
**NODE LISTS ON THE WIRE** (`dht/transport.go`: `encodeNodes`, `encodeNodeEntry`,
`advertiseableAddr`, `parseNodes`): the bytes of the IP and the number of the port
of each address that is the text of one; the receiver writes the canonical text.
-/
import Freens.Dht.Contacts
import Freens.Dht.TableInvariant
import Freens.Dht.WriteTokens

namespace Freens.Dht.Routing

open Library

/-! ## The encoder -/

/-- **Address texts**: the calls into `net` and `strconv`. A text is taken apart into what
it was made of, and a mapped IPv4 address is written like the IPv4 one. -/
structure AddrTexts extends Net where
  splitHostPort : Bytes → Option (Bytes × Bytes)
  /-- In the 16-byte form. -/
  parseIP : Bytes → Option Bytes
  /-- The number `strconv.Atoi` returns, beside an error or not. -/
  atoi : Bytes → Int
  splitHostPort_nil : splitHostPort [] = none
  parseIP_length : ∀ host, ∀ ip ∈ parseIP host, ip.length = 16
  joinHostPort_normIP : ∀ ip port, joinHostPort (normIP ip) port = joinHostPort ip port
  splitHostPort_joinHostPort : ∀ (ip : Bytes) (port : Nat), ip.length = 4 ∨ ip.length = 16 →
    port ≤ 65535 → ∃ host p ip', splitHostPort (joinHostPort ip port) = some (host, p) ∧
      parseIP host = some ip' ∧ normIP ip' = normIP ip ∧ atoi p = port

section
variable (T : AddrTexts)

/-- The host of an address. -/
def hostOf (addr : Bytes) : Bytes := (T.splitHostPort addr).elim addr Prod.fst

/-- The port of an address. -/
def portOf (addr : Bytes) : Int := (T.splitHostPort addr).elim 0 (fun x => T.atoi x.2)

/-- `advertiseableAddr`. -/
def advertiseableAddr (addr : Bytes) : Bool :=
  if portOf T addr ≤ 0 ∨ 65535 < portOf T addr then false
  else (T.parseIP (hostOf T addr)).elim false (fun ip => !isUnspecified ip)

/-- One element of the list, as the decoder hands it to the receiver. -/
def encodeNodeEntry (addr nodeID pk : Bytes) : Value :=
  let ipBytes := (T.parseIP (hostOf T addr)).elim [] normIP
  .array [.bytes ipBytes, .uint (uint64 (portOf T addr)), .bytes nodeID, .bytes pk]

/-- `encodeNodes`: one entry per usable address. -/
def encodeNodes (contacts : List NodeContact) : List Value :=
  contacts.flatMap fun c => (c.addrs.filter (advertiseableAddr T)).map
    (fun addr => encodeNodeEntry T addr c.nodeID c.publicKey)

/-! ## The addresses that are sent -/

/-- **The canonical form of a literal address**: of a specified IP and a port
from 1 to 65535. -/
def canonicalAddr (addr : Bytes) : Option Bytes := do
  let (host, p) ← T.splitHostPort addr
  let ip ← T.parseIP host
  if 0 < T.atoi p ∧ T.atoi p ≤ 65535 ∧ isUnspecified ip = false then
    some (T.joinHostPort ip (T.atoi p).toNat)
  else none

end

/-- The contact a receiver makes of an address. -/
def NodeContact.heardAt (c : NodeContact) (addr : Bytes) : NodeContact :=
  { nodeID := c.nodeID, publicKey := c.publicKey, addr, lastSeen := 0, confirmedAt := 0,
    firstSeen := 0, alts := [] }

variable {T : AddrTexts} {ip : Bytes}

theorem length_normIP (h : ip.length = 4 ∨ ip.length = 16) :
    (normIP ip).length = 4 ∨ (normIP ip).length = 16 := by
  unfold normIP
  split
  next hmapped =>
    rw [List.length_drop]
    omega
  next => exact h

/-- The unspecified address is so in both forms. -/
theorem isUnspecified_normIP (h : ip.length = 4 ∨ ip.length = 16) :
    isUnspecified (normIP ip) = isUnspecified ip := by
  unfold normIP
  split
  next hmapped =>
    obtain ⟨hlen, hhead⟩ := hmapped
    have hip := List.take_append_drop 12 ip
    rw [hhead] at hip
    have hrest : (ip.drop 12).length = 4 := by rw [List.length_drop, hlen]
    generalize ip.drop 12 = v4 at hip hrest
    subst hip
    have hshort : ∀ l : Bytes, l.length ≠ 4 → v4 ≠ l := fun l hl heq => hl (heq ▸ hrest)
    simp [isUnspecified, hshort, List.replicate]
  next => rfl

theorem joinHostPort_ne_nil {port : Nat} (hip : ip.length = 4 ∨ ip.length = 16)
    (hport : port ≤ 65535) : T.joinHostPort ip port ≠ [] := by
  intro hnil
  obtain ⟨host, p, ip', hsplit, _⟩ := T.splitHostPort_joinHostPort ip port hip hport
  rw [hnil, T.splitHostPort_nil] at hsplit
  cases hsplit

/-- **The encoder on an address**: left out without a canonical form, else its bytes and port. -/
theorem addr_cases (T : AddrTexts) (addr : Bytes) :
    (advertiseableAddr T addr = false ∧ canonicalAddr T addr = none) ∨
      ∃ ip, ∃ port : Nat, ip.length = 16 ∧ isUnspecified ip = false ∧ 0 < port ∧ port ≤ 65535 ∧
        advertiseableAddr T addr = true ∧ canonicalAddr T addr = some (T.joinHostPort ip port) ∧
        ∀ nodeID pk, encodeNodeEntry T addr nodeID pk =
          .array [.bytes (normIP ip), .uint (uint64 port), .bytes nodeID, .bytes pk] := by
  cases hsplit : T.splitHostPort addr with
  | none => simp [advertiseableAddr, canonicalAddr, portOf, hsplit]
  | some x =>
    obtain ⟨host, p⟩ := x
    have hhost : hostOf T addr = host := by simp [hostOf, hsplit]
    have hport : portOf T addr = T.atoi p := by simp [portOf, hsplit]
    cases hparse : T.parseIP host with
    | none => simp [advertiseableAddr, canonicalAddr, hhost, hsplit, hparse]
    | some ip =>
      by_cases hgood : 0 < T.atoi p ∧ T.atoi p ≤ 65535 ∧ isUnspecified ip = false
      · right
        obtain ⟨hpos, hle, hspecified⟩ := hgood
        obtain ⟨port, hnat⟩ := Int.eq_ofNat_of_zero_le (le_of_lt hpos)
        rw [hnat] at hport hpos hle
        refine ⟨ip, port, T.parseIP_length host ip hparse, hspecified, by omega, by omega, ?_, ?_, ?_⟩
        · simp [advertiseableAddr, hport, hhost, hparse, hspecified]
          omega
        · simp [canonicalAddr, hsplit, hparse, hnat, hspecified]
          omega
        · intro nodeID pk
          simp [encodeNodeEntry, hport, hhost, hparse]
      · left
        simp only [advertiseableAddr, canonicalAddr, hport, hhost, hsplit, hparse]
        grind

variable {net : Net} {c : NodeContact}

theorem parseNode_entry {port : Nat} {nodeID pk : Bytes} (hip : ip.length = 4 ∨ ip.length = 16)
    (hspecified : isUnspecified ip = false) (hpos : 0 < port) (hle : port ≤ 65535) :
    parseNode net (.array [.bytes ip, .uint (uint64 port), .bytes nodeID, .bytes pk]) =
      (newNodeContact nodeID pk (net.joinHostPort ip port) 0).toOption := by
  have hport : (uint64 port).toNat = port := by
    have hnat := uint64_toNat (Int.natCast_nonneg port) (by omega)
    omega
  have hrange : ¬ (uint64 port = 0 ∨ uint64 port > 65535) := by
    rw [← UInt64.toNat_inj, gt_iff_lt, UInt64.lt_iff_toNat_lt, hport]
    show ¬ (port = 0 ∨ 65535 < port)
    omega
  show (if uint64 port = 0 ∨ uint64 port > 65535 then none else _) = _
  rw [if_neg hrange, if_neg (by omega), if_neg (by simp [hspecified]), hport]

theorem parseNode_eq_some {v : Value} (h : parseNode net v = some c) :
    ∃ ip, ∃ port : Nat, (ip.length = 4 ∨ ip.length = 16) ∧ isUnspecified ip = false ∧ 0 < port ∧
      port ≤ 65535 ∧ c.nodeID.length = 32 ∧ c.publicKey.length = 32 ∧
      c.addr = net.joinHostPort ip port ∧ c.heardAt c.addr = c := by
  unfold parseNode at h
  split at h
  next ip portValue nodeID pk =>
    split at h
    next => cases h
    next port hport =>
      simp only [Option.ite_none_left_eq_some, not_or, not_and_or, not_not, gt_iff_lt,
        UInt64.not_lt, Bool.not_eq_true] at h
      obtain ⟨⟨hpos, hle⟩, hip, hspecified, hc⟩ := h
      cases hnew : newNodeContact nodeID pk (net.joinHostPort ip port.toNat) 0 with
      | error e =>
        rw [hnew] at hc
        cases hc
      | ok c' =>
        rw [hnew] at hc
        obtain rfl := Option.some.inj hc
        simp only [newNodeContact, guard_eq_ok, not_not, Except.ok.injEq] at hnew
        obtain ⟨hid, hpk, _, rfl⟩ := hnew
        rw [← UInt64.toNat_inj] at hpos
        exact ⟨ip, port.toNat, hip, hspecified, Nat.pos_of_ne_zero hpos,
          UInt64.le_iff_toNat_le.mp hle, hid, hpk, rfl, rfl⟩
  next => cases h

/-- **One address**: what is sent of it is read as its canonical form. -/
theorem parse_encodeNodeEntry (hid : c.nodeID.length = 32) (hpk : c.publicKey.length = 32)
    (addr : Bytes) :
    (if advertiseableAddr T addr then
        parseNode T.toNet (encodeNodeEntry T addr c.nodeID c.publicKey) else none) =
      (canonicalAddr T addr).map c.heardAt := by
  rcases addr_cases T addr with ⟨hno, hnone⟩ |
    ⟨ip, port, hlen, hspecified, hpos, hle, hyes, hcanon, hentry⟩
  · rw [hno, hnone]
    rfl
  · have hip : ip.length = 4 ∨ ip.length = 16 := .inr hlen
    rw [hyes, hcanon, hentry, if_pos rfl, parseNode_entry (length_normIP hip)
      ((isUnspecified_normIP hip).trans hspecified) hpos hle, T.joinHostPort_normIP, newNodeContact,
      if_neg (not_not.mpr hid), if_neg (not_not.mpr hpk), if_neg (joinHostPort_ne_nil hip hle)]
    rfl

theorem canonicalAddr_joinHostPort {port : Nat} (hip : ip.length = 4 ∨ ip.length = 16)
    (hspecified : isUnspecified ip = false) (hpos : 0 < port) (hle : port ≤ 65535) :
    canonicalAddr T (T.joinHostPort ip port) = some (T.joinHostPort ip port) := by
  obtain ⟨host, p, ip', hsplit, hparse, hsame, hport⟩ :=
    T.splitHostPort_joinHostPort ip port hip hle
  have hspecified' : isUnspecified ip' = false := by
    rw [← isUnspecified_normIP (.inr (T.parseIP_length host ip' hparse)), hsame,
      isUnspecified_normIP hip, hspecified]
  have hjoin : T.joinHostPort ip' port = T.joinHostPort ip port := by
    rw [← T.joinHostPort_normIP, hsame, T.joinHostPort_normIP]
  simp [canonicalAddr, hsplit, hparse, hport, hspecified', hjoin, hpos, hle]

/-- **The node-list codec.** The receiver gets, in order, one contact for each literal
address, at its canonical form; what is read from any list is at such addresses and is read
back when sent on. -/
theorem node_list_codec (T : AddrTexts) :
    (∀ contacts : List NodeContact,
      (∀ c ∈ contacts, c.nodeID.length = 32 ∧ c.publicKey.length = 32) →
      parseNodes T.toNet (.array (encodeNodes T contacts)) =
        contacts.flatMap fun c => (c.addrs.filterMap (canonicalAddr T)).map c.heardAt) ∧
    ∀ raw, ∀ c ∈ parseNodes T.toNet raw, canonicalAddr T c.addr = some c.addr ∧
      parseNodes T.toNet (.array (encodeNodes T [c])) = [c] := by
  have hsent : ∀ contacts : List NodeContact,
      (∀ c ∈ contacts, c.nodeID.length = 32 ∧ c.publicKey.length = 32) →
      parseNodes T.toNet (.array (encodeNodes T contacts)) =
        contacts.flatMap fun c => (c.addrs.filterMap (canonicalAddr T)).map c.heardAt := by
    intro contacts hlen
    show (encodeNodes T contacts).filterMap (parseNode T.toNet) = _
    rw [encodeNodes, List.filterMap_flatMap]
    refine List.flatMap_congr fun c hc => ?_
    rw [List.filterMap_map, List.map_filterMap, List.filterMap_filter]
    refine List.filterMap_congr fun addr _ => ?_
    exact parse_encodeNodeEntry (hlen c hc).1 (hlen c hc).2 addr
  refine ⟨hsent, ?_⟩
  intro raw c hc
  obtain ⟨v, hv⟩ : ∃ v, parseNode T.toNet v = some c := by
    cases raw with
    | array entries =>
      obtain ⟨v, _, hv⟩ := List.mem_filterMap.mp hc
      exact ⟨v, hv⟩
    | _ => exact absurd hc List.not_mem_nil
  obtain ⟨ip, port, hip, hspecified, hpos, hle, hid, hpk, haddr, hself⟩ := parseNode_eq_some hv
  have hcanon : canonicalAddr T c.addr = some c.addr := by
    rw [haddr]
    exact canonicalAddr_joinHostPort hip hspecified hpos hle
  have halts : c.alts = [] := (congrArg NodeContact.alts hself).symm
  refine ⟨hcanon, ?_⟩
  rw [hsent [c] (by simp [hid, hpk])]
  simp [NodeContact.addrs, halts, hcanon, hself]

namespace ListSample

theorem normIP_normIP (ip : Bytes) : normIP (normIP ip) = normIP ip := by
  unfold normIP
  split
  next h => exact if_neg (by simp [h.1])
  next => rfl

/-- Two bytes for the port, then those of the address. -/
def texts : AddrTexts where
  joinHostPort ip port := bigEndian 2 port ++ normIP ip
  parseAdvertisedAddr _ := none
  viable _ := true
  splitHostPort b := if b = [] then none else some (b.drop 2, b.take 2)
  parseIP host :=
    if host.length = 4 then some (List.replicate 10 0 ++ [0xff, 0xff] ++ host)
    else if host.length = 16 then some host else none
  atoi p := ofBigEndian p
  splitHostPort_nil := rfl
  parseIP_length host ip hip := by grind
  joinHostPort_normIP ip port := by rw [normIP_normIP]
  splitHostPort_joinHostPort ip port hip hport := by
    have hport : (ofBigEndian (bigEndian 2 port) : Int) = port := by
      rw [ofBigEndian_bigEndian]
      omega
    have hsplit : (if bigEndian 2 port ++ normIP ip = [] then none
        else some ((bigEndian 2 port ++ normIP ip).drop 2, (bigEndian 2 port ++ normIP ip).take 2))
        = some (normIP ip, bigEndian 2 port) := by simp [bigEndian]
    rcases length_normIP hip with h4 | h16
    · refine ⟨_, _, _, hsplit, if_pos h4, ?_, hport⟩
      generalize normIP ip = v4 at h4
      simp [normIP, h4]
    · exact ⟨_, _, _, hsplit, by simp [h16], normIP_normIP ip, hport⟩

def contact : NodeContact :=
  ⟨List.replicate 32 1, List.replicate 32 2, [0, 53, 192, 0, 2, 1], 7, 7, 0,
    [⟨[0, 0, 192, 0, 2, 1], 0, 0⟩]⟩

end ListSample

open ListSample

/-- The alternate has port zero and is left out. -/
theorem node_list_codec_contact :
    parseNodes texts.toNet (.array (encodeNodes texts [contact])) = [contact.heardAt contact.addr] :=
  ((node_list_codec texts).1 [contact] (by decide)).trans (by decide +kernel)

end Freens.Dht.Routing
