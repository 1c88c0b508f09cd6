/-
**NO OPEN RELAY** (`turn/server.go`: `handleSend`, `relayLoop`).

What is relayed, to a peer or to a client, goes through an allocation that
the client's address asked for, and the same address has since asked for a
permission for that peer. A new allocation starts without permissions,
whatever the one it replaces had.
-/
import Freens.Turn.Ownership

namespace Freens.Turn

open Library

variable {P : Primitives} {s s' : Server} {act : ServerAction} {x t : AddrText} {a' : Allocation}

/-! ## Requests -/

/-- An authenticated request of that kind from the address. -/
def ServerAction.Asks (P : Primitives) (act : ServerAction) (x : AddrText) (method : UInt16)
    (m : Message) : Prop :=
  ∃ raddr, act.message = some (raddr, m) ∧ raddr.text = x ∧ verifyAuth P m = true ∧
    m.cls = classRequest ∧ m.method = method

/-- A CreatePermission that names the peer. -/
def ServerAction.Permits (P : Primitives) (act : ServerAction) (x t : AddrText) : Prop :=
  ∃ m, act.Asks P x methodCreatePermission m ∧ ∃ peer ∈ m.peers, peer.text = t

/-! ## Where an allocation and its permissions come from -/

/-- Made by the step, without permissions. -/
structure Made (P : Primitives) (s : Server) (act : ServerAction) (x : AddrText) (a' : Allocation) :
    Prop where
  asked : ∃ m, act.Asks P x methodAllocate m
  serial : a'.serial = s.nextSerial
  client : a'.client.text = x
  perms : a'.perms = ∅

/-- The same allocation as before, with no permission but those the step adds. -/
structure Continues (P : Primitives) (act : ServerAction) (x : AddrText) (a a' : Allocation) :
    Prop where
  serial : a'.serial = a.serial
  client : a'.client = a.client
  perms : ∀ t ∈ a'.perms, t ∈ a.perms ∨ act.Permits P x t

/-- The allocation is new, or continues an old one. -/
def Derived (P : Primitives) (s : Server) (act : ServerAction) (x : AddrText) (a' : Allocation) :
    Prop :=
  Made P s act x a' ∨ ∃ a, s.allocs.lookup x = some a ∧ Continues P act x a a'

/-- **What a handler does**: it derives every allocation, and sends to no peer. -/
structure Answered (P : Primitives) (s : Server) (act : ServerAction) (r : Server × Output) :
    Prop where
  derived : ∀ x a', r.1.allocs.lookup x = some a' → Derived P s act x a'
  answers : ∀ relayed peer data, r.2 ≠ .toPeer relayed peer data

section
variable {m : Message} {raddr : UdpAddr} {bind : RelayBind} {now : Int} {o : Output}

theorem answered_of_sub (h : Table.Sub s'.allocs s.allocs)
    (ho : ∀ relayed peer data, o ≠ .toPeer relayed peer data) : Answered P s act (s', o) :=
  ⟨fun x a' ha' => .inr ⟨a', h x a' ha', rfl, rfl, fun _ => .inl⟩, ho⟩

theorem answered_insert (hallocs : s'.allocs = s.allocs.insert x a') (h : Derived P s act x a')
    (ho : ∀ relayed peer data, o ≠ .toPeer relayed peer data) : Answered P s act (s', o) := by
  refine ⟨fun y b hb => ?_, ho⟩
  rw [hallocs] at hb
  obtain ⟨rfl, rfl⟩ | ⟨_, hb⟩ := Table.lookup_insert_cases hb
  · exact h
  · exact .inr ⟨b, hb, rfl, rfl, fun _ => .inl⟩

theorem answered_unauthenticated : Answered P s act (unauthenticated s m raddr now) := by
  unfold unauthenticated
  simp only
  refine answered_of_sub (Table.Sub.refl s.allocs) (fun relayed peer data => ?_)
  split <;> exact nofun

theorem answered_handleAllocate
    (hask : verifyAuth P m = true → act.Asks P raddr.text methodAllocate m) :
    Answered P s act (handleAllocate P s m raddr bind now) := by
  unfold handleAllocate
  simp only
  split
  next => exact answered_unauthenticated
  next hauth =>
    have hrefused : ∀ code reason,
        Answered P s act (clearFails s (ipText raddr.ip), errorResp m raddr code reason) :=
      fun _ _ => answered_of_sub (Table.Sub.refl s.allocs) nofun
    split
    next => exact hrefused _ _
    cases bind with
    | noPort | badPort => exact hrefused _ _
    | bound relayed =>
      simp only
      split
      next => exact hrefused _ _
      exact answered_insert rfl (.inl ⟨⟨m, hask (by simpa using hauth)⟩, rfl, rfl, rfl⟩) nofun

theorem answered_handleRefresh : Answered P s act (handleRefresh P s m raddr now) := by
  unfold handleRefresh
  split
  next => exact answered_unauthenticated
  split
  next => exact answered_of_sub (Table.Sub.refl _) nofun
  next a ha =>
    split
    next => exact answered_of_sub (Table.erase_sub _ _) nofun
    next => exact answered_insert rfl (.inr ⟨a, ha, rfl, rfl, fun _ => .inl⟩) nofun

theorem mem_addPerms {n : Int} {txid : Bytes} {raws : List Bytes} {perms : Table AddrText UdpAddr}
    (h : t ∈ (addPerms n txid raws perms).1) :
    t ∈ perms ∨ ∃ peer ∈ raws.filterMap (decodeXORAddr · txid), peer.text = t := by
  induction raws generalizing perms with
  | nil => exact .inl h
  | cons raw raws ih =>
    rw [addPerms] at h
    split at h
    next hraw =>
      rw [@List.filterMap_cons_none _ _ (decodeXORAddr · txid) _ _ hraw]
      exact ih h
    next peer hraw =>
      rw [@List.filterMap_cons_some _ _ (decodeXORAddr · txid) _ _ _ hraw]
      split at h
      next => exact .inl h
      obtain hmem | ⟨q, hq, hqt⟩ := ih h
      · obtain rfl | hmem := (AList.mem_insert _).mp hmem
        · exact .inr ⟨peer, List.mem_cons_self, rfl⟩
        · exact .inl hmem
      · exact .inr ⟨q, List.mem_cons_of_mem _ hq, hqt⟩

theorem answered_handleCreatePermission
    (hask : verifyAuth P m = true → act.Asks P raddr.text methodCreatePermission m) :
    Answered P s act (handleCreatePermission P s m raddr now) := by
  unfold handleCreatePermission
  split
  next => exact answered_unauthenticated
  next hauth =>
    split
    next => exact answered_of_sub (Table.Sub.refl _) nofun
    next a ha =>
      refine answered_insert rfl (.inr ⟨a, ha, rfl, rfl, fun t ht => ?_⟩) ?_
      · exact (mem_addPerms ht).imp_right (fun hpeer => ⟨m, hask (by simpa using hauth), hpeer⟩)
      · intro relayed peer data
        split <;> exact nofun

theorem answered_relayDatagram {key : AddrText} {peer : UdpAddr} {data : Bytes} :
    Answered P s act (s, relayDatagram s key peer data) := by
  refine answered_of_sub (Table.Sub.refl _) (fun relayed peer' data' => ?_)
  unfold relayDatagram
  split
  next => exact nofun
  split
  next => exact nofun
  next => split <;> exact nofun

end

/-- **The step lemma**: only a Send indication goes to a peer, and it changes
nothing. -/
theorem serverStep_answered (P : Primitives) (s : Server) (act : ServerAction) :
    Answered P s act (serverStep P s act) ∨
      ∃ raddr m, act.message = some (raddr, m) ∧
        serverStep P s act = (s, handleSend s m raddr) := by
  cases act with
  | timer key serial now => exact .inl (answered_of_sub (expire_sub s key serial now).1 (by simp))
  | peer key peer data now => exact .inl answered_relayDatagram
  | datagram data raddr bind now =>
    show Answered P s _ (serve P s data raddr bind now) ∨
      ∃ raddr' m, (received data).map (raddr, ·) = some (raddr', m) ∧
        serve P s data raddr bind now = (s, handleSend s m raddr')
    unfold serve
    cases hm : received data with
    | none => exact .inl (answered_of_sub (Table.Sub.refl _) (by simp))
    | some m =>
      have hask : ∀ method, m.method = method ∧ m.cls = classRequest → verifyAuth P m = true →
          (ServerAction.datagram data raddr bind now).Asks P raddr.text method m :=
        fun method h hauth => ⟨raddr, by rw [ServerAction.message, hm]; rfl, rfl, hauth, h.2, h.1⟩
      simp only
      unfold dispatch
      split
      next => exact .inl (answered_of_sub (Table.Sub.refl _) (by simp [replyBinding]))
      split
      next h => exact .inl (answered_handleAllocate (hask _ h))
      split
      next => exact .inl answered_handleRefresh
      split
      next h => exact .inl (answered_handleCreatePermission (hask _ h))
      split
      next => exact .inr ⟨raddr, m, rfl, rfl⟩
      next => exact .inl (answered_of_sub (Table.Sub.refl _) (by simp))

/-! ## Runs -/

/-- The server after the actions. -/
def serverRun (P : Primitives) (cfg : ServerConfig) (start : Int) (acts : List ServerAction) :
    Server :=
  acts.foldl (fun s act => (serverStep P s act).1) (listenTURN cfg start)

/-- **Opened**: an Allocate of the address made it, new and without permissions, and each
permission stems from a later CreatePermission of that address. -/
structure Opened (P : Primitives) (cfg : ServerConfig) (start : Int) (past : List ServerAction)
    (x : AddrText) (a : Allocation) : Prop where
  client : a.client.text = x
  origin : ∃ before made after, past = before ++ made :: after ∧ (∃ m, made.Asks P x methodAllocate m) ∧
    (serverRun P cfg start before).nextSerial = a.serial ∧
    (∃ new, (serverRun P cfg start (before ++ [made])).allocs.lookup x = some new ∧
      new.serial = a.serial ∧ new.perms = ∅) ∧
    ∀ t ∈ a.perms, ∃ act ∈ after, act.Permits P x t

section
variable {cfg : ServerConfig} {start : Int} {past : List ServerAction} {a : Allocation}

theorem derived_of_step (ha : (serverStep P s act).1.allocs.lookup x = some a) :
    Derived P s act x a := by
  obtain hanswered | ⟨raddr, m, _, heq⟩ := serverStep_answered P s act
  · exact hanswered.derived x a ha
  · rw [heq] at ha
    exact .inr ⟨a, ha, rfl, rfl, fun _ => .inl⟩

/-- **The run lemma.** -/
theorem opened_serverRun (ha : (serverRun P cfg start past).allocs.lookup x = some a) :
    Opened P cfg start past x a := by
  induction past using List.reverseRecOn generalizing x a with
  | nil => exact absurd ha (by simp [serverRun, listenTURN])
  | append_singleton past act ih =>
    have hnow := ha
    rw [serverRun, List.foldl_append] at ha
    obtain hmade | ⟨b, hb, hcont⟩ := derived_of_step ha
    · refine ⟨hmade.client, past, act, [], rfl, hmade.asked, hmade.serial.symm,
        ⟨a, hnow, rfl, hmade.perms⟩, fun t ht => ?_⟩
      rw [hmade.perms] at ht
      exact absurd ht (AList.notMem_empty t)
    · obtain ⟨hclient, before, made, after, rfl, hasked, hserial, ⟨new, hnew, hsame, hempty⟩, hperms⟩ :=
        ih hb
      refine ⟨hcont.client ▸ hclient, before, made, after ++ [act], by simp, hasked,
        hserial.trans hcont.serial.symm, ⟨new, hnew, hsame.trans hcont.serial.symm, hempty⟩,
        fun t ht => ?_⟩
      obtain hold | hnew := hcont.perms t ht
      · obtain ⟨act', hmem, hpermits⟩ := hperms t hold
        exact ⟨act', List.mem_append_left _ hmem, hpermits⟩
      · exact ⟨act, by simp, hnew⟩

theorem handleSend_toPeer {m : Message} {raddr relayed peer : UdpAddr} {data : Bytes}
    (h : handleSend s m raddr = .toPeer relayed peer data) :
    ∃ a, s.allocs.lookup raddr.text = some a ∧ a.relayed = relayed ∧ peer.text ∈ a.perms := by
  unfold handleSend at h
  split at h
  next => cases h
  next a ha =>
    split at h
    next => cases h
    split at h
    next => cases h
    split at h
    next hperm =>
      cases h
      exact ⟨a, ha, rfl, AList.lookup_isSome.mp hperm⟩
    next => cases h

theorem relayDatagram_toClient {key : AddrText} {peer client : UdpAddr} {data : Bytes} {m : Message}
    (h : relayDatagram s key peer data = .toClient m client) :
    ∃ a, s.allocs.lookup key = some a ∧ a.client = client ∧ peer.text ∈ a.perms := by
  unfold relayDatagram at h
  split at h
  next => cases h
  next a ha =>
    split at h
    next => cases h
    next hperm =>
      rw [Bool.not_eq_true, Option.isNone_eq_false_iff] at hperm
      split at h
      next => cases h
      cases h
      exact ⟨a, ha, rfl, AList.lookup_isSome.mp hperm⟩

end

open OwnershipSample

end Freens.Turn
