/-
**THE TURN RELAY SERVER** (`turn/server.go`): allocations keyed by the source
address of the datagrams that made them, the four request handlers, the expiry
timer, and the two directions of the relayed traffic. One datagram is one step.
-/
import Freens.Turn.Codec

namespace Freens.Turn

open Library

/-! ## Configuration and state -/

abbrev second : Int := 1000000000

abbrev defaultMaxAllocsPerIP : Int := 8
abbrev defaultMaxTotalAllocs : Int := 128
abbrev defaultLifetime : Int := 600 * second
abbrev defaultMaxLifetime : Int := 3600 * second
abbrev defaultMaxPermissions : Int := 64
abbrev authFailWindow : Int := 60 * second
abbrev authFailBudget : Nat := 10
abbrev maxRelayedReadBuf : Nat := 2048
abbrev errInsufficientCapacity : Nat := 508

/-- Durations in nanoseconds. -/
structure ServerConfig where
  maxAllocsPerIP : Int := 0
  maxTotalAllocs : Int := 0
  defaultLifetime : Int := 0
  maxLifetime : Int := 0
  maxPermissions : Int := 0
  deriving DecidableEq, Repr

/-- The serial stands for the pointer. -/
structure Allocation where
  serial : Nat
  client : UdpAddr
  relayed : UdpAddr
  perms : Table AddrText UdpAddr
  expires : Int

theorem Allocation.eq_iff (a b : Allocation) :
    (a.serial = b.serial ∧ a.client = b.client ∧ a.relayed = b.relayed ∧
      a.perms.entries = b.perms.entries ∧ a.expires = b.expires) ↔ a = b := by
  constructor
  · rintro ⟨hserial, hclient, hrelayed, hperms, hexpires⟩
    have htable : a.perms = b.perms := AList.ext hperms
    cases a
    cases b
    simp only at hserial hclient hrelayed htable hexpires
    rw [hserial, hclient, hrelayed, htable, hexpires]
  · rintro rfl
    exact ⟨rfl, rfl, rfl, rfl, rfl⟩

-- compared by entries, so that the kernel can evaluate it
instance : DecidableEq Allocation := fun a b => decidable_of_iff _ (Allocation.eq_iff a b)

/-- The server's state under its lock. -/
structure Server where
  cfg : ServerConfig
  allocs : Table AddrText Allocation
  perIP : Table Bytes Nat
  fails : Table Bytes Nat
  window : Int
  nextSerial : Nat

/-- A setting that is not positive selects its default. -/
def orDefault (v dflt : Int) : Int := if v ≤ 0 then dflt else v

/-- `ListenTURN`: unset limits get their defaults. -/
def listenTURN (cfg : ServerConfig) (now : Int) : Server where
  cfg := {
    maxAllocsPerIP := orDefault cfg.maxAllocsPerIP defaultMaxAllocsPerIP
    maxTotalAllocs := orDefault cfg.maxTotalAllocs defaultMaxTotalAllocs
    defaultLifetime := orDefault cfg.defaultLifetime Turn.defaultLifetime
    maxLifetime := orDefault cfg.maxLifetime defaultMaxLifetime
    maxPermissions := orDefault cfg.maxPermissions defaultMaxPermissions }
  allocs := ∅
  perIP := ∅
  fails := ∅
  window := now
  nextSerial := 0

/-- What the server sends. -/
inductive Output where
  | silent
  /-- To a client, from the server's own socket. -/
  | toClient (m : Message) (client : UdpAddr)
  /-- To a peer, from an allocation's relayed socket. -/
  | toPeer (relayed peer : UdpAddr) (data : Bytes)
  deriving DecidableEq

/-! ## Replies and counters -/

abbrev classSuccess : UInt16 := 2
abbrev classError : UInt16 := 3
abbrev methodData : UInt16 := 0x007
abbrev attrErrorCode : UInt16 := 0x0009
abbrev attrXORRelayedAddress : UInt16 := 0x0016
abbrev attrXORMappedAddress : UInt16 := 0x0020
abbrev maxDataPayload : Nat := maxMessageLen - 2 * attrHdrLen - 8

/-- The reasons are ASCII. -/
def encodeErrorCode (code : Nat) (reason : String) : Bytes :=
  ([0, 0, UInt8.ofNat (code / 100) ||| (UInt8.ofNat (code % 100 >>> 8) <<< 3),
    UInt8.ofNat (code % 100)] : Bytes) ++ reason.toList.map (fun c => UInt8.ofNat c.toNat)

/-- An address attribute; left out when the address cannot be rendered. -/
def addrAttr (t : UInt16) (a : UdpAddr) (txid : Bytes) : List (UInt16 × Bytes) :=
  ((xorAddr a txid).map (t, ·)).toList

/-- An error answer. -/
def errorResp (m : Message) (raddr : UdpAddr) (code : Nat) (reason : String) : Output :=
  .toClient ⟨m.method, classError, m.txid, [(attrErrorCode, encodeErrorCode code reason)]⟩ raddr

/-- A Binding answer. -/
def replyBinding (m : Message) (raddr : UdpAddr) : Output :=
  .toClient ⟨methodBinding, classSuccess, m.txid, addrAttr attrXORMappedAddress raddr m.txid⟩ raddr

/-- The LIFETIME attribute. -/
def lifetimeAttr (lt : Int) : UInt16 × Bytes := (attrLifetime, bigEndian 4 (lt / second).toNat)

/-- Count a failed authentication; true beyond the budget. -/
def failLimited (s : Server) (ip : Bytes) (now : Int) : Server × Bool :=
  let expired := now - s.window > authFailWindow
  let fails := if expired then ∅ else s.fails
  let n := (fails.lookup ip).getD 0 + 1
  ({ s with window := if expired then now else s.window, fails := fails.insert ip n },
    n > authFailBudget)

/-- A success clears the count of failures. -/
def clearFails (s : Server) (ip : Bytes) : Server := { s with fails := s.fails.erase ip }

/-- One allocation fewer for `ip`. -/
def decPerIP (perIP : Table Bytes Nat) (ip : Bytes) : Table Bytes Nat :=
  let n := (perIP.lookup ip).getD 0
  if n > 1 then perIP.insert ip (n - 1) else perIP.erase ip

/-- The lifetime granted: at least a second, at most the limit. -/
def grantLifetime (cfg : ServerConfig) (requested : Nat) : Int :=
  if requested = 0 then cfg.defaultLifetime
  else max (min (requested * second) cfg.maxLifetime) second

/-- What every handler does with a request it cannot authenticate. -/
def unauthenticated (s : Server) (m : Message) (raddr : UdpAddr) (now : Int) : Server × Output :=
  let (s', limited) := failLimited s (ipText raddr.ip) now
  (s', if limited then .silent else errorResp m raddr 401 "unauthenticated")

/-! ## The handlers -/

/-- The outcome of binding the relayed socket. -/
inductive RelayBind where
  /-- `net.ListenUDP` failed. -/
  | noPort
  /-- The bound address does not resolve. -/
  | badPort
  | bound (relayed : UdpAddr)
  deriving DecidableEq

/-- The table part of a granted Allocate: an allocation of the same source is
replaced. -/
def installAllocation (s : Server) (raddr relayed : UdpAddr) (expires : Int) : Server :=
  let ip := ipText raddr.ip
  let perIP := if (s.allocs.lookup raddr.text).isSome then decPerIP s.perIP ip else s.perIP
  { s with
    allocs := s.allocs.insert raddr.text ⟨s.nextSerial, raddr, relayed, ∅, expires⟩
    perIP := perIP.insert ip ((perIP.lookup ip).getD 0 + 1)
    nextSerial := s.nextSerial + 1 }

section
variable (P : Primitives)

/-- `handleAllocate`, its checks in order. -/
def handleAllocate (s : Server) (m : Message) (raddr : UdpAddr) (bind : RelayBind) (now : Int) :
    Server × Output :=
  let ip := ipText raddr.ip
  if !verifyAuth P m then unauthenticated s m raddr now
  else
    let s := clearFails s ip
    if (s.allocs.keys.length : Int) ≥ s.cfg.maxTotalAllocs then
      (s, errorResp m raddr errInsufficientCapacity "insufficient capacity")
    else
      let lt := grantLifetime s.cfg m.lifetime
      match bind with
      | .noPort => (s, errorResp m raddr 508 "no relay port")
      | .badPort => (s, errorResp m raddr 508 "bad relay port")
      | .bound relayed =>
        -- checked before a replaced allocation is discounted
        if (((s.perIP.lookup ip).getD 0 : Nat) : Int) ≥ s.cfg.maxAllocsPerIP then
          (s, errorResp m raddr 438 "allocation capacity exhausted")
        else
          (installAllocation s raddr relayed (now + lt),
            .toClient ⟨methodAllocate, classSuccess, m.txid,
              addrAttr attrXORRelayedAddress relayed m.txid ++ [lifetimeAttr lt]⟩ raddr)

/-- `handleRefresh`: a lifetime of 0 releases. -/
def handleRefresh (s : Server) (m : Message) (raddr : UdpAddr) (now : Int) : Server × Output :=
  if !verifyAuth P m then unauthenticated s m raddr now
  else
    match s.allocs.lookup raddr.text with
    | none => (s, errorResp m raddr 437 "no allocation")
    | some a =>
      if m.lifetime = 0 then
        ({ s with
            allocs := s.allocs.erase raddr.text
            perIP := decPerIP s.perIP (ipText raddr.ip) },
          .toClient ⟨methodRefresh, classSuccess, m.txid, [lifetimeAttr 0]⟩ raddr)
      else
        let lt := grantLifetime s.cfg m.lifetime
        ({ s with allocs := s.allocs.insert raddr.text { a with expires := now + lt } },
          .toClient ⟨methodRefresh, classSuccess, m.txid, [lifetimeAttr lt]⟩ raddr)

/-- The loop of `handleCreatePermission`, and whether there was room for all. What was added
stays. -/
def addPerms (maxPermissions : Int) (txid : Bytes) :
    List Bytes → Table AddrText UdpAddr → Table AddrText UdpAddr × Bool
  | [], perms => (perms, true)
  | raw :: rest, perms =>
    match decodeXORAddr raw txid with
    | none => addPerms maxPermissions txid rest perms
    | some peer =>
      if (perms.keys.length : Int) ≥ maxPermissions then (perms, false)
      else addPerms maxPermissions txid rest (perms.insert peer.text peer)

/-- `handleCreatePermission`: peers in turn, until the table is full. -/
def handleCreatePermission (s : Server) (m : Message) (raddr : UdpAddr) (now : Int) :
    Server × Output :=
  if !verifyAuth P m then unauthenticated s m raddr now
  else
    match s.allocs.lookup raddr.text with
    | none => (s, errorResp m raddr 437 "no allocation")
    | some a =>
      let added := addPerms s.cfg.maxPermissions m.txid (m.all attrXORPeerAddress) a.perms
      ({ s with allocs := s.allocs.insert raddr.text { a with perms := added.1 } },
        if added.2 then .toClient ⟨methodCreatePermission, classSuccess, m.txid, []⟩ raddr
        else errorResp m raddr 508 "permission table full")

/-- Not authenticated, the source address decides. -/
def handleSend (s : Server) (m : Message) (raddr : UdpAddr) : Output :=
  match s.allocs.lookup raddr.text with
  | none => .silent
  | some a =>
    if m.get attrXORPeerAddress = [] ∨ m.get attrData = [] then .silent
    else
      match decodeXORAddr (m.get attrXORPeerAddress) m.txid with
      | none => .silent
      | some peer =>
        if (a.perms.lookup peer.text).isSome then .toPeer a.relayed peer (m.get attrData)
        else .silent

/-- A parsed datagram of `serve`. -/
def dispatch (s : Server) (m : Message) (raddr : UdpAddr) (bind : RelayBind) (now : Int) :
    Server × Output :=
  if m.method = methodBinding ∧ m.cls = classRequest then (s, replyBinding m raddr)
  else if m.method = methodAllocate ∧ m.cls = classRequest then
    handleAllocate P s m raddr bind now
  else if m.method = methodRefresh ∧ m.cls = classRequest then handleRefresh P s m raddr now
  else if m.method = methodCreatePermission ∧ m.cls = classRequest then
    handleCreatePermission P s m raddr now
  else if m.method = methodSend ∧ m.cls = classIndication then (s, handleSend s m raddr)
  else (s, .silent)

/-- What the read buffer of `serve` holds of a datagram, parsed. -/
def received (data : Bytes) : Option Message :=
  parseMessage (data.take (maxRelayedReadBuf + headerLen))

/-- A datagram parsed and dispatched. -/
def serve (s : Server) (data : Bytes) (raddr : UdpAddr) (bind : RelayBind) (now : Int) :
    Server × Output :=
  match received data with
  | none => (s, .silent)
  | some m => dispatch P s m raddr bind now

end

/-- `expire`, called by the timer of the allocation with that serial. -/
def expire (s : Server) (key : AddrText) (serial : Nat) (now : Int) : Server :=
  match s.allocs.lookup key with
  | none => s
  | some a =>
    if a.serial ≠ serial then s
    else if now < a.expires then s
    else { s with allocs := s.allocs.erase key, perIP := decPerIP s.perIP (ipText a.client.ip) }

/-- `relayLoop`, one datagram from a peer; the transaction id stays zero. -/
def relayDatagram (s : Server) (key : AddrText) (peer : UdpAddr) (data : Bytes) : Output :=
  match s.allocs.lookup key with
  | none => .silent
  | some a =>
    if (a.perms.lookup peer.text).isNone then .silent
    else if data.length > maxDataPayload then .silent
    else
      let txid := List.replicate txidLen 0
      .toClient ⟨methodData, classIndication, txid,
        addrAttr attrXORPeerAddress peer txid ++ [(attrData, data)]⟩ a.client

/-! ## Steps -/

/-- What can happen to the server. -/
inductive ServerAction where
  /-- A datagram on the server's socket. -/
  | datagram (data : Bytes) (raddr : UdpAddr) (bind : RelayBind) (now : Int)
  | timer (key : AddrText) (serial : Nat) (now : Int)
  /-- A datagram on the relayed socket of the allocation at `key`. -/
  | peer (key : AddrText) (peer : UdpAddr) (data : Bytes) (now : Int)
  deriving DecidableEq

/-- When it happens. -/
def ServerAction.now : ServerAction → Int
  | .datagram _ _ _ now => now
  | .timer _ _ now => now
  | .peer _ _ _ now => now

/-- The message a datagram carries. -/
def ServerAction.message : ServerAction → Option (UdpAddr × Message)
  | .datagram data raddr _ _ => (received data).map (raddr, ·)
  | .timer .. => none
  | .peer .. => none

/-- One action. -/
def serverStep (P : Primitives) (s : Server) : ServerAction → Server × Output
  | .datagram data raddr bind now => serve P s data raddr bind now
  | .timer key serial now => (expire s key serial now, .silent)
  | .peer key peer data _ => (s, relayDatagram s key peer data)

/-! ## What a step can do -/

/-- A success response to a request about an allocation. -/
def Output.Grants (x : AddrText) : Output → Prop
  | .toClient m client => client.text = x ∧ m.cls = classSuccess ∧ m.method ≠ methodBinding
  | _ => False

instance (x : AddrText) : (o : Output) → Decidable (o.Grants x)
  | .silent => isFalse id
  | .toClient m client =>
    inferInstanceAs (Decidable (client.text = x ∧ m.cls = classSuccess ∧ m.method ≠ methodBinding))
  | .toPeer .. => isFalse id

/-- An authenticated request about an allocation. -/
structure Message.Authentic (P : Primitives) (m : Message) : Prop where
  verified : verifyAuth P m = true
  request : m.cls = classRequest
  method : m.method = methodAllocate ∨ m.method = methodRefresh ∨ m.method = methodCreatePermission

/-- A new allocation is the answered Allocate's. -/
structure Creates (s s' : Server) (x : AddrText) : Prop where
  serial : s'.nextSerial = s.nextSerial + 1
  allocation : ∃ a, s'.allocs.lookup x = some a ∧ a.serial = s.nextSerial

/-- No allocation is new: what is at the address keeps its serial. -/
structure Keeps (s s' : Server) (x : AddrText) : Prop where
  serial : s'.nextSerial = s.nextSerial
  allocation : ∀ a', s'.allocs.lookup x = some a' → ∃ a, s.allocs.lookup x = some a ∧
    a.serial = a'.serial

/-- **What a handler does**: other allocations stay, and nobody else is answered. -/
structure Handled (s : Server) (r : Server × Output) (x : AddrText) : Prop where
  others : ∀ y, y ≠ x → r.1.allocs.lookup y = s.allocs.lookup y
  own : Creates s r.1 x ∨ Keeps s r.1 x
  grants : ∀ y, r.2.Grants y → y = x

/-- The action touches no allocation and grants nothing. -/
structure Untouched (s : Server) (r : Server × Output) : Prop where
  allocs : r.1.allocs = s.allocs
  serial : r.1.nextSerial = s.nextSerial
  grants : ∀ x, ¬ r.2.Grants x

theorem not_grants_errorResp (m : Message) (raddr : UdpAddr) (code : Nat) (reason : String)
    (x : AddrText) : ¬ (errorResp m raddr code reason).Grants x := by
  rintro ⟨_, hcls, _⟩
  exact absurd (show classError = classSuccess from hcls) (by decide)

theorem untouched_unauthenticated (s : Server) (m : Message) (raddr : UdpAddr) (now : Int) :
    Untouched s (unauthenticated s m raddr now) where
  allocs := rfl
  serial := rfl
  grants x := by
    unfold unauthenticated
    simp only
    split
    next => exact id
    next => exact not_grants_errorResp m raddr _ _ x

theorem handled_insert {s s' : Server} {x : AddrText} {a a' : Allocation} {o : Output}
    (ha : s.allocs.lookup x = some a) (hserial : a'.serial = a.serial)
    (hallocs : s'.allocs = s.allocs.insert x a') (hnext : s'.nextSerial = s.nextSerial)
    (hgrants : ∀ y, o.Grants y → y = x) : Handled s (s', o) x where
  others y hy := by
    show s'.allocs.lookup y = s.allocs.lookup y
    rw [hallocs, AList.lookup_insert_ne hy]
  own := by
    refine .inr ⟨hnext, fun b hb => ⟨a, ha, ?_⟩⟩
    rw [show (s', o).1.allocs = s'.allocs from rfl, hallocs, AList.lookup_insert,
      Option.some.injEq] at hb
    rw [← hb, hserial]
  grants := hgrants

section
variable {P : Primitives} {s : Server} {m : Message} {raddr : UdpAddr} {bind : RelayBind} {now : Int}

theorem handleAllocate_cases :
    (verifyAuth P m = true ∧ Handled s (handleAllocate P s m raddr bind now) raddr.text) ∨
      Untouched s (handleAllocate P s m raddr bind now) := by
  unfold handleAllocate
  simp only
  split
  next => exact .inr (untouched_unauthenticated s m raddr now)
  next hauth =>
    have herror : ∀ code reason, Untouched s (clearFails s (ipText raddr.ip),
        errorResp m raddr code reason) :=
      fun code reason => ⟨rfl, rfl, not_grants_errorResp m raddr code reason⟩
    split
    next => exact .inr (herror _ _)
    cases bind with
    | noPort | badPort => exact .inr (herror _ _)
    | bound relayed =>
      simp only
      split
      next => exact .inr (herror _ _)
      refine .inl ⟨by simpa using hauth, ⟨fun y hy => ?_, .inl ⟨rfl, ?_⟩, fun y hy => hy.1.symm⟩⟩
      · exact AList.lookup_insert_ne hy
      · exact ⟨_, AList.lookup_insert _, rfl⟩

theorem handleRefresh_cases :
    (verifyAuth P m = true ∧ Handled s (handleRefresh P s m raddr now) raddr.text) ∨
      Untouched s (handleRefresh P s m raddr now) := by
  unfold handleRefresh
  split
  next => exact .inr (untouched_unauthenticated s m raddr now)
  next hauth =>
    split
    next => exact .inr ⟨rfl, rfl, not_grants_errorResp m raddr _ _⟩
    next a ha =>
      refine .inl ⟨by simpa using hauth, ?_⟩
      split
      next =>
        refine ⟨fun y hy => AList.lookup_erase_ne hy, .inr ⟨rfl, fun b hb => ?_⟩,
          fun y hy => hy.1.symm⟩
        exact absurd (hb.symm.trans (AList.lookup_erase _ _)) (by simp)
      next =>
        exact @handled_insert s _ raddr.text a
          { a with expires := now + grantLifetime s.cfg m.lifetime } _ ha rfl rfl rfl
          (fun y hy => hy.1.symm)

theorem handleCreatePermission_cases :
    (verifyAuth P m = true ∧ Handled s (handleCreatePermission P s m raddr now) raddr.text) ∨
      Untouched s (handleCreatePermission P s m raddr now) := by
  unfold handleCreatePermission
  split
  next => exact .inr (untouched_unauthenticated s m raddr now)
  next hauth =>
    split
    next => exact .inr ⟨rfl, rfl, not_grants_errorResp m raddr _ _⟩
    next a ha =>
      refine .inl ⟨by simpa using hauth, ?_⟩
      let added := addPerms s.cfg.maxPermissions m.txid (m.all attrXORPeerAddress) a.perms
      refine @handled_insert s _ raddr.text a { a with perms := added.1 } _ ha rfl rfl rfl ?_
      intro y hy
      split at hy
      next => exact hy.1.symm
      next => exact absurd hy (not_grants_errorResp m raddr _ _ y)

theorem not_grants_handleSend (x : AddrText) : ¬ (handleSend s m raddr).Grants x := by
  unfold handleSend
  split
  next => exact id
  split
  next => exact id
  split
  next => exact id
  next => split <;> exact id

/-- **A datagram acts on an allocation only as an authenticated request** from its address. -/
theorem dispatch_cases :
    (m.Authentic P ∧ Handled s (dispatch P s m raddr bind now) raddr.text) ∨
      Untouched s (dispatch P s m raddr bind now) := by
  unfold dispatch
  split
  next => exact .inr ⟨rfl, rfl, fun _ h => h.2.2 rfl⟩
  split
  next h =>
    exact handleAllocate_cases.imp_left (fun hc => ⟨⟨hc.1, h.2, .inl h.1⟩, hc.2⟩)
  next =>
    split
    next h =>
      exact handleRefresh_cases.imp_left (fun hc => ⟨⟨hc.1, h.2, .inr (.inl h.1)⟩, hc.2⟩)
    next =>
      split
      next h =>
        exact handleCreatePermission_cases.imp_left
          (fun hc => ⟨⟨hc.1, h.2, .inr (.inr h.1)⟩, hc.2⟩)
      next =>
        split
        next => exact .inr ⟨rfl, rfl, not_grants_handleSend⟩
        next => exact .inr ⟨rfl, rfl, fun _ h => h⟩

end

theorem lookup_expire {s : Server} {key : AddrText} {serial : Nat} {now : Int} {x : AddrText}
    {a : Allocation} (ha : s.allocs.lookup x = some a) (hlive : now < a.expires) :
    (expire s key serial now).allocs.lookup x = some a := by
  unfold expire
  split
  next => exact ha
  next b hb =>
    split
    next => exact ha
    split
    next => exact ha
    next hdue =>
      have hne : x ≠ key := by
        rintro rfl
        rw [ha, Option.some.injEq] at hb
        exact hdue (hb ▸ hlive)
      show (s.allocs.erase key).lookup x = some a
      rw [AList.lookup_erase_ne hne, ha]

theorem expire_sub (s : Server) (key : AddrText) (serial : Nat) (now : Int) :
    Table.Sub (expire s key serial now).allocs s.allocs ∧
      (expire s key serial now).nextSerial = s.nextSerial := by
  unfold expire
  split
  next => exact ⟨Table.Sub.refl _, rfl⟩
  split
  next => exact ⟨Table.Sub.refl _, rfl⟩
  split
  next => exact ⟨Table.Sub.refl _, rfl⟩
  next => exact ⟨Table.erase_sub _ _, rfl⟩

theorem not_grants_relayDatagram (s : Server) (key : AddrText) (peer : UdpAddr) (data : Bytes)
    (x : AddrText) : ¬ (relayDatagram s key peer data).Grants x := by
  unfold relayDatagram
  split
  next => exact id
  split
  next => exact id
  split
  next => exact id
  rintro ⟨_, hcls, _⟩
  exact absurd (show classIndication = classSuccess from hcls) (by decide)

/-- **A step without a request**: allocations only expire, and nothing is granted. -/
structure Idle (s : Server) (r : Server × Output) (now : Int) : Prop where
  sub : Table.Sub r.1.allocs s.allocs
  serial : r.1.nextSerial = s.nextSerial
  grants : ∀ x, ¬ r.2.Grants x
  live : ∀ x a, s.allocs.lookup x = some a → now < a.expires → r.1.allocs.lookup x = some a

theorem Untouched.idle {s : Server} {r : Server × Output} (h : Untouched s r) (now : Int) :
    Idle s r now where
  sub := by rw [h.allocs]; exact Table.Sub.refl _
  serial := h.serial
  grants := h.grants
  live x a ha _ := by rw [h.allocs]; exact ha

/-- **The effect of a step**: an authenticated request is handled, anything else is idle. -/
theorem serverStep_effect (P : Primitives) (s : Server) (act : ServerAction) :
    (∃ raddr m, act.message = some (raddr, m) ∧ m.Authentic P ∧
        Handled s (serverStep P s act) raddr.text) ∨
      Idle s (serverStep P s act) act.now := by
  cases act with
  | datagram data raddr bind now =>
    show (∃ raddr' m, (received data).map (raddr, ·) = some (raddr', m) ∧ m.Authentic P ∧
        Handled s (serve P s data raddr bind now) raddr'.text) ∨
      Idle s (serve P s data raddr bind now) now
    unfold serve
    cases received data with
    | none =>
      have huntouched : Untouched s (s, .silent) := ⟨rfl, rfl, fun _ h => h⟩
      exact .inr (huntouched.idle now)
    | some m =>
      obtain ⟨hauth, hhandled⟩ | huntouched := @dispatch_cases P s m raddr bind now
      · exact .inl ⟨raddr, m, rfl, hauth, hhandled⟩
      · exact .inr (huntouched.idle now)
  | timer key serial now =>
    have hsub := expire_sub s key serial now
    exact .inr ⟨hsub.1, hsub.2, fun _ h => h, fun x a => lookup_expire⟩
  | peer key peer data now =>
    have huntouched : Untouched s (s, relayDatagram s key peer data) :=
      ⟨rfl, rfl, not_grants_relayDatagram s key peer data⟩
    exact .inr (huntouched.idle now)

end Freens.Turn
