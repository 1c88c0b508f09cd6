/-
**ALLOCATION COUNTERS** (`turn/server.go`: `handleAllocate`, `handleRefresh`,
`expire`), one locked region at a time. A release looks its allocation up in one
region and discounts it in the next, also when it has expired in between.
-/
import Freens.Library.Ledger
import Freens.Library.Run
import Freens.Toy
import Freens.Turn.Server

namespace Freens.Turn

open Library

/-! ## Locked regions -/

/-- Where the server stands between two locked regions. -/
inductive Serving where
  | ready
  /-- `handleAllocate` has found the total below its limit. -/
  | allocating (m : Message) (raddr : UdpAddr)
  /-- `handleRefresh` has found an allocation. -/
  | refreshing (m : Message) (raddr : UdpAddr) (serial : Nat)

/-- The server and what it is serving. -/
structure TurnState where
  server : Server
  serving : Serving

/-- What can happen next. -/
inductive TurnEvent where
  /-- A request up to the end of its first locked region. -/
  | request (m : Message) (raddr : UdpAddr)
  | proceed (bind : RelayBind) (now : Int)
  | expire (key : AddrText) (serial : Nat) (now : Int)

/-- The first region; the other requests and the refused ones count nothing. -/
def beginRequest (P : Primitives) (s : Server) (m : Message) (raddr : UdpAddr) : Serving :=
  if !verifyAuth P m ∨ m.cls ≠ classRequest then .ready
  else if m.method = methodAllocate then
    if (s.allocs.keys.length : Int) ≥ s.cfg.maxTotalAllocs then .ready else .allocating m raddr
  else if m.method = methodRefresh then
    match s.allocs.lookup raddr.text with
    | none => .ready
    | some a => .refreshing m raddr a.serial
  else .ready

/-- The second locked region of `handleAllocate`. -/
def finishAllocate (s : Server) (m : Message) (raddr : UdpAddr) (bind : RelayBind) (now : Int) :
    Server :=
  match bind with
  | .noPort | .badPort => s
  | .bound relayed =>
    if (((s.perIP.lookup (ipText raddr.ip)).getD 0 : Nat) : Int) ≥ s.cfg.maxAllocsPerIP then s
    else installAllocation s raddr relayed (now + grantLifetime s.cfg m.lifetime)

/-- The second locked region of `handleRefresh`. -/
def finishRefresh (s : Server) (m : Message) (raddr : UdpAddr) (serial : Nat) (now : Int) :
    Server :=
  -- a release does not look again
  if m.lifetime = 0 then
    { s with
      allocs := s.allocs.erase raddr.text
      perIP := decPerIP s.perIP (ipText raddr.ip) }
  else
    match s.allocs.lookup raddr.text with
    | none => s
    | some a =>
      if a.serial ≠ serial then s
      else
        let expires := now + grantLifetime s.cfg m.lifetime
        { s with allocs := s.allocs.insert raddr.text { a with expires } }

/-- One event of an interleaving. -/
def turnStep (P : Primitives) (s : TurnState) : TurnEvent → TurnState
  | .request m raddr =>
    match s.serving with
    | .ready => { s with serving := beginRequest P s.server m raddr }
    | _ => s
  | .proceed bind now =>
    match s.serving with
    | .ready => s
    | .allocating m raddr => ⟨finishAllocate s.server m raddr bind now, .ready⟩
    | .refreshing m raddr serial => ⟨finishRefresh s.server m raddr serial now, .ready⟩
  | .expire key serial now => { s with server := Turn.expire s.server key serial now }

section
variable {P : Primitives} {s : Server} {m : Message} {raddr : UdpAddr} {bind : RelayBind}
  {now : Int}

/-- **Undisturbed, the two regions are the handler.** -/
theorem regions_eq_handler (hauth : verifyAuth P m = true) (hcls : m.cls = classRequest)
    (hmethod : m.method = methodAllocate ∨ m.method = methodRefresh) :
    (dispatch P s m raddr bind now).1 =
      { (turnStep P (turnStep P ⟨s, .ready⟩ (.request m raddr)) (.proceed bind now)).server with
        fails := if m.method = methodAllocate then s.fails.erase (ipText raddr.ip) else s.fails } := by
  rcases hmethod with h | h
  · simp only [dispatch, handleAllocate, turnStep, beginRequest, clearFails, h, hcls, hauth]
    grind [finishAllocate, installAllocation]
  · simp only [dispatch, handleRefresh, turnStep, beginRequest, h, hcls, hauth]
    cases hlookup : s.allocs.lookup raddr.text with
    | none => rfl
    | some a => grind [finishRefresh]

end

/-! ## Counters -/

/-- Whether an allocation counts for `ip`. -/
def ownedBy (ip : Bytes) (a : Allocation) : Int := if ipText a.client.ip = ip then 1 else 0

/-- The live allocations of `ip`. -/
def liveAt (allocs : Table AddrText Allocation) (ip : Bytes) : Int := Table.total (ownedBy ip) allocs

/-- Every count is the number of live allocations. -/
def Counted (allocs : Table AddrText Allocation) (perIP : Table Bytes Nat) : Prop :=
  ∀ ip, (((perIP.lookup ip).getD 0 : Nat) : Int) = liveAt allocs ip

section
variable {allocs : Table AddrText Allocation} {perIP : Table Bytes Nat} {k : AddrText}
  {a : Allocation}

theorem lookup_decPerIP (perIP : Table Bytes Nat) (ip ip' : Bytes) :
    ((decPerIP perIP ip).lookup ip').getD 0 =
      (perIP.lookup ip').getD 0 - if ip' = ip then 1 else 0 := by
  unfold decPerIP
  dsimp only
  by_cases h : ip' = ip
  · subst h
    rw [if_pos rfl]
    split
    next => rw [AList.lookup_insert, Option.getD_some]
    next hle =>
      rw [AList.lookup_erase, Option.getD_none]
      omega
  · rw [if_neg h]
    split
    next => rw [AList.lookup_insert_ne h, Nat.sub_zero]
    next => rw [AList.lookup_erase_ne h, Nat.sub_zero]

theorem liveAt_nonneg (allocs : Table AddrText Allocation) (ip : Bytes) : 0 ≤ liveAt allocs ip := by
  apply List.sum_nonneg
  intro n hn
  obtain ⟨x, _, rfl⟩ := List.mem_map.mp hn
  unfold ownedBy
  split <;> omega

theorem Counted.remove (h : Counted allocs perIP) (ha : allocs.lookup k = some a) :
    Counted (allocs.erase k) (decPerIP perIP (ipText a.client.ip)) := by
  intro ip
  have hcount := h ip
  have hrest := liveAt_nonneg (allocs.erase k) ip
  rw [liveAt, Table.total_erase, Table.weightAt_of_lookup ha] at hrest ⊢
  rw [lookup_decPerIP]
  unfold liveAt at hcount
  unfold ownedBy at hrest hcount ⊢
  split at hrest
  next hip =>
    rw [if_pos hip.symm, if_pos hip]
    omega
  next hip =>
    rw [if_neg (Ne.symm hip), if_neg hip]
    omega

theorem Counted.install (h : Counted (allocs.erase k) perIP) (a : Allocation) :
    Counted (allocs.insert k a)
      (perIP.insert (ipText a.client.ip) ((perIP.lookup (ipText a.client.ip)).getD 0 + 1)) := by
  intro ip
  have hcount := h ip
  rw [liveAt, Table.total_erase] at hcount
  rw [liveAt, Table.total_insert, ← hcount]
  by_cases hip : ip = ipText a.client.ip
  · subst hip
    rw [AList.lookup_insert, ownedBy, if_pos rfl, Option.getD_some]
    exact Int.natCast_succ _
  · rw [AList.lookup_insert_ne hip, ownedBy, if_neg (Ne.symm hip), add_zero]

theorem Counted.update (h : Counted allocs perIP) (ha : allocs.lookup k = some a) {a' : Allocation}
    (hclient : a'.client = a.client) : Counted (allocs.insert k a') perIP := by
  intro ip
  rw [liveAt, Table.total_insert, Table.weightAt_of_lookup ha, ownedBy, ownedBy, hclient,
    Int.sub_add_cancel]
  exact h ip

end

/-! ## One region -/

/-- Allocations stand under the address of their client. -/
def KeyedByClient (s : Server) : Prop := ∀ k a, s.allocs.lookup k = some a → a.client.text = k

/-- A release finds its allocation still there, or nothing left to miscount. -/
def ReleaseInTime (s : TurnState) : TurnEvent → Prop
  | .proceed _ _ => ∀ m raddr serial, s.serving = .refreshing m raddr serial → m.lifetime = 0 →
      s.server.allocs.lookup raddr.text ≠ none ∨ liveAt s.server.allocs (ipText raddr.ip) = 0
  | _ => True

/-- **What a region does to the tables.** -/
inductive Effect (s : TurnState) (e : TurnEvent) : Server → Prop
  | keep (hok : ReleaseInTime s e) : Effect s e s.server
  | remove {k : AddrText} {a : Allocation} (ha : s.server.allocs.lookup k = some a)
      (hok : ReleaseInTime s e) :
      Effect s e { s.server with
        allocs := s.server.allocs.erase k
        perIP := decPerIP s.server.perIP (ipText a.client.ip) }
  | update {k : AddrText} {a : Allocation} {expires : Int}
      (ha : s.server.allocs.lookup k = some a) (hok : ReleaseInTime s e) :
      Effect s e { s.server with allocs := s.server.allocs.insert k { a with expires } }
  | install {m : Message} {raddr relayed : UdpAddr} {expires : Int} {bind : RelayBind} {now : Int}
      (he : e = .proceed bind now) (hserving : s.serving = .allocating m raddr)
      (hok : ReleaseInTime s e)
      (hroom : (((s.server.perIP.lookup (ipText raddr.ip)).getD 0 : Nat) : Int)
        < s.server.cfg.maxAllocsPerIP) :
      Effect s e (installAllocation s.server raddr relayed expires)
  /-- A release of an allocation that has expired. -/
  | miss {raddr : UdpAddr} (hfree : s.server.allocs.lookup raddr.text = none)
      (hok : ReleaseInTime s e ↔ liveAt s.server.allocs (ipText raddr.ip) = 0) :
      Effect s e { s.server with perIP := decPerIP s.server.perIP (ipText raddr.ip) }

section
variable {P : Primitives} {s : TurnState} {e : TurnEvent}

theorem ip_of_keyed {s : Server} (h : KeyedByClient s) {raddr : UdpAddr} {a : Allocation}
    (ha : s.allocs.lookup raddr.text = some a) : ipText a.client.ip = ipText raddr.ip :=
  congrArg AddrText.ip (h _ a ha)

theorem finishRefresh_effect (hkeyed : KeyedByClient s.server) {m : Message} {raddr : UdpAddr}
    {serial : Nat} (hserving : s.serving = .refreshing m raddr serial) {bind : RelayBind}
    {now : Int} :
    Effect s (.proceed bind now) (finishRefresh s.server m raddr serial now) := by
  have hok : ReleaseInTime s (.proceed bind now) ↔ (m.lifetime = 0 →
      s.server.allocs.lookup raddr.text ≠ none ∨
        liveAt s.server.allocs (ipText raddr.ip) = 0) := by
    constructor
    · exact fun h => h m raddr serial hserving
    · intro h m' raddr' serial' hserving'
      rw [hserving] at hserving'
      cases hserving'
      exact h
  unfold finishRefresh
  by_cases hlifetime : m.lifetime = 0
  · rw [if_pos hlifetime]
    cases ha : s.server.allocs.lookup raddr.text with
    | some a =>
      rw [← ip_of_keyed hkeyed ha]
      exact .remove ha (hok.mpr (by simp [ha]))
    | none =>
      rw [Table.erase_of_free ha]
      exact .miss ha (hok.trans (by simp [ha, hlifetime]))
  · rw [if_neg hlifetime]
    have hin : ReleaseInTime s (.proceed bind now) := hok.mpr (fun h => absurd h hlifetime)
    cases ha : s.server.allocs.lookup raddr.text with
    | none => exact .keep hin
    | some a =>
      dsimp only
      split
      next => exact .keep hin
      next => exact .update ha hin

theorem turnStep_effect (hkeyed : KeyedByClient s.server) : Effect s e (turnStep P s e).server := by
  cases e with
  | request m raddr =>
    unfold turnStep
    dsimp only
    split <;> exact .keep trivial
  | proceed bind now =>
    unfold turnStep
    dsimp only
    cases hserving : s.serving with
    | ready => exact .keep (by simp [ReleaseInTime, hserving])
    | refreshing m raddr serial => exact finishRefresh_effect hkeyed hserving
    | allocating m raddr =>
      have hok : ReleaseInTime s (.proceed bind now) := by simp [ReleaseInTime, hserving]
      unfold finishAllocate
      cases bind with
      | noPort | badPort => exact .keep hok
      | bound relayed =>
        dsimp only
        split
        next => exact .keep hok
        next hroom => exact .install rfl hserving hok (not_le.mp hroom)
  | expire key serial now =>
    unfold turnStep expire
    dsimp only
    cases ha : s.server.allocs.lookup key with
    | none => exact .keep trivial
    | some a =>
      dsimp only
      split
      next => exact .keep trivial
      split
      next => exact .keep trivial
      next => exact .remove ha trivial

variable {s' : Server}

section
variable (heffect : Effect s e s')
include heffect

theorem Effect.counted_iff (hkeyed : KeyedByClient s.server)
    (h : Counted s.server.allocs s.server.perIP) :
    Counted s'.allocs s'.perIP ↔ ReleaseInTime s e := by
  cases heffect with
  | keep hok => exact iff_of_true h hok
  | remove ha hok => exact iff_of_true (h.remove ha) hok
  | update ha hok => exact iff_of_true (h.update ha rfl) hok
  | @install m raddr relayed expires _ _ _ _ hok _ =>
    refine iff_of_true (Counted.install ?_ ⟨_, raddr, relayed, ∅, expires⟩) hok
    cases ha : s.server.allocs.lookup raddr.text with
    | none =>
      rw [Table.erase_of_free ha]
      exact h
    | some old =>
      rw [← ip_of_keyed hkeyed ha]
      exact h.remove ha
  | @miss raddr hfree hok =>
    rw [hok]
    constructor
    · intro hcounted
      have hbefore := h (ipText raddr.ip)
      have hafter : _ = liveAt s.server.allocs (ipText raddr.ip) := hcounted (ipText raddr.ip)
      rw [lookup_decPerIP, if_pos rfl] at hafter
      omega
    · intro hnone ip
      have hbefore := h ip
      show (((decPerIP _ _).lookup ip).getD 0 : Int) = liveAt s.server.allocs ip
      rw [lookup_decPerIP]
      split
      next heq =>
        rw [heq] at hbefore ⊢
        omega
      next => exact hbefore

theorem Effect.keyed (h : KeyedByClient s.server) : KeyedByClient s' := by
  have hinsert : ∀ {k : AddrText} {a : Allocation}, a.client.text = k → ∀ k' a',
      (s.server.allocs.insert k a).lookup k' = some a' → a'.client.text = k' := by
    intro k a ha k' a' hlookup
    rcases Table.lookup_insert_cases hlookup with ⟨rfl, rfl⟩ | ⟨_, hold⟩
    · exact ha
    · exact h k' a' hold
  cases heffect with
  | keep => exact h
  | remove => exact fun k a ha => h k a (Table.erase_sub _ _ k a ha)
  | update ha _ =>
    have hkey := h _ _ ha
    exact hinsert hkey
  | install => exact hinsert rfl
  | miss => exact h

theorem Effect.counter_le {ip : Bytes}
    (h : (((s.server.perIP.lookup ip).getD 0 : Nat) : Int) ≤ s.server.cfg.maxAllocsPerIP) :
    (((s'.perIP.lookup ip).getD 0 : Nat) : Int) ≤ s.server.cfg.maxAllocsPerIP := by
  have hdec : ∀ k, ((decPerIP s.server.perIP k).lookup ip).getD 0
      ≤ (s.server.perIP.lookup ip).getD 0 := by
    intro k
    rw [lookup_decPerIP]
    exact Nat.sub_le _ _
  cases heffect with
  | keep => exact h
  | @remove k a => exact le_trans (Int.ofNat_le.mpr (hdec _)) h
  | update => exact h
  | @install m raddr relayed expires _ _ _ _ _ hroom =>
    generalize hperIP : (if (s.server.allocs.lookup raddr.text).isSome = true
      then decPerIP s.server.perIP (ipText raddr.ip) else s.server.perIP) = perIP
    have hle : (perIP.lookup ip).getD 0 ≤ (s.server.perIP.lookup ip).getD 0 := by
      rw [← hperIP]
      split
      next => exact hdec _
      next => exact Nat.le_refl _
    unfold installAllocation
    dsimp only
    rw [hperIP]
    by_cases hip : ip = ipText raddr.ip
    · subst hip
      rw [AList.lookup_insert, Option.getD_some]
      omega
    · rw [AList.lookup_insert_ne hip]
      omega
  | @miss raddr => exact le_trans (Int.ofNat_le.mpr (hdec _)) h

theorem Effect.total_le :
    s'.allocs.keys.length ≤ s.server.allocs.keys.length ∨
      (∃ m raddr, s.serving = .allocating m raddr) ∧ (∃ bind now, e = .proceed bind now) ∧
        s'.allocs.keys.length ≤ s.server.allocs.keys.length + 1 := by
  cases heffect with
  | keep => exact .inl (Nat.le_refl _)
  | remove => exact .inl (Table.count_erase_le _ _)
  | update ha _ =>
    have hmem := Table.mem_of_lookup ha
    have hpos := List.length_pos_of_mem (show _ ∈ s.server.allocs.keys from hmem)
    left
    rw [AList.keys_insert, List.length_cons, List.length_erase_of_mem hmem]
    omega
  | install he hserving =>
    exact .inr ⟨⟨_, _, hserving⟩, ⟨_, _, he⟩, Table.length_keys_insert_le _ _ _⟩
  | miss => exact .inl (Nat.le_refl _)

theorem Effect.cfg : s'.cfg = s.server.cfg := by
  cases heffect <;> rfl

end

/-! ## Every run -/

/-- What holds whatever happens. -/
structure WithinLimits (cfg : ServerConfig) (s : TurnState) : Prop where
  config : s.server.cfg = cfg
  keyed : KeyedByClient s.server
  total : (s.server.allocs.keys.length : Int) ≤ cfg.maxTotalAllocs
  /-- Between its regions `handleAllocate` still has room: only it adds. -/
  room : ∀ m raddr, s.serving = .allocating m raddr →
    (s.server.allocs.keys.length : Int) < cfg.maxTotalAllocs
  counters : ∀ ip, (((s.server.perIP.lookup ip).getD 0 : Nat) : Int) ≤ cfg.maxAllocsPerIP

theorem allocating_of_turnStep {m : Message} {raddr : UdpAddr}
    (h : (turnStep P s e).serving = .allocating m raddr) :
    (∀ bind now, e ≠ .proceed bind now) ∧ (s.serving = .allocating m raddr ∨
      (s.server.allocs.keys.length : Int) < s.server.cfg.maxTotalAllocs) := by
  cases e with
  | request m' raddr' =>
    simp only [turnStep, beginRequest] at h
    grind
  | proceed bind now =>
    simp only [turnStep] at h
    grind
  | expire key serial now => exact ⟨by simp, .inl h⟩

theorem WithinLimits.step {cfg : ServerConfig} (h : WithinLimits cfg s) :
    WithinLimits cfg (turnStep P s e) := by
  have heffect : Effect s e (turnStep P s e).server := turnStep_effect h.keyed
  have htotal := h.total
  refine ⟨heffect.cfg.trans h.config, heffect.keyed h.keyed, ?_, ?_, ?_⟩
  · rcases heffect.total_le with hle | ⟨⟨m, raddr, hserving⟩, _, hle⟩
    · omega
    · have hroom := h.room m raddr hserving
      omega
  · intro m raddr hnext
    obtain ⟨hother, hbefore⟩ := allocating_of_turnStep hnext
    have hroom : (s.server.allocs.keys.length : Int) < cfg.maxTotalAllocs :=
      hbefore.elim (h.room m raddr) (fun hlt => h.config ▸ hlt)
    rcases heffect.total_le with hle | ⟨_, ⟨bind, now, he⟩, _⟩
    · omega
    · exact absurd he (hother bind now)
  · intro ip
    have hcap := h.counters ip
    rw [← h.config] at hcap ⊢
    exact heffect.counter_le hcap

end

/-- A server ready to serve. -/
def TurnState.start (cfg : ServerConfig) (now : Int) : TurnState := ⟨listenTURN cfg now, .ready⟩

theorem withinLimits_start (cfg : ServerConfig) (now : Int) :
    WithinLimits (listenTURN cfg now).cfg (.start cfg now) := by
  have hpositive : ∀ v dflt : Int, 0 < dflt → 0 ≤ orDefault v dflt := by
    intro v dflt hdflt
    unfold orDefault
    split <;> omega
  exact ⟨rfl, fun _ _ ha => (by cases ha), hpositive _ _ (by decide), fun _ _ hno => (by cases hno),
    fun _ => hpositive _ _ (by decide)⟩

/-- **TURN accounting**, over every interleaving: the total never exceeds its limit; the
counters are exact throughout exactly when every release is in time, and then the per-IP
limit holds. -/
theorem turn_accounting_iff (P : Primitives) (cfg : ServerConfig) (now : Int)
    (events : List TurnEvent) :
    let state (n : Nat) := ((events.take n).foldl (turnStep P) (.start cfg now)).server
    (∀ n, ((state n).allocs.keys.length : Int) ≤ (listenTURN cfg now).cfg.maxTotalAllocs) ∧
    ((∀ n, Counted (state n).allocs (state n).perIP) ↔
      EachStep (turnStep P) ReleaseInTime (.start cfg now) events) ∧
    (EachStep (turnStep P) ReleaseInTime (.start cfg now) events → ∀ n ip,
      liveAt (state n).allocs ip ≤ (listenTURN cfg now).cfg.maxAllocsPerIP) := by
  intro state
  have hlimits : ∀ n, WithinLimits (listenTURN cfg now).cfg
      ((events.take n).foldl (turnStep P) (.start cfg now)) := by
    intro n
    exact EachStep.invariant (fun s e h _ => h.step) (withinLimits_start cfg now)
      (EachStep.of_forall_mem (fun _ _ _ => trivial) : EachStep _ (fun _ _ => True) _ _)
  have hcounted : (∀ n, Counted (state n).allocs (state n).perIP) ↔
      EachStep (turnStep P) ReleaseInTime (.start cfg now) events :=
    @EachStep.always_iff _ _ _ _ (WithinLimits (listenTURN cfg now).cfg)
      (fun s => Counted s.server.allocs s.server.perIP) (fun s e h => h.step)
      (fun s e h => (turnStep_effect h.keyed).counted_iff h.keyed) _ _
      (withinLimits_start cfg now) (fun _ => rfl)
  refine ⟨fun n => (hlimits n).total, hcounted, ?_⟩
  intro htime n ip
  rw [← hcounted.mpr htime n ip]
  exact (hlimits n).counters ip

namespace AccountingSample

def client (port : Nat) : UdpAddr := { ip := [192, 0, 2, 1], port }

def message (method : UInt16) (lifetime : Nat) : Message :=
  sign Toy.primitives
    ⟨method, classRequest, List.replicate 12 0, [(attrLifetime, bigEndian 4 lifetime)]⟩
    (Toy.keypair 1)

def allocate (port : Nat) (now : Int) : List TurnEvent :=
  [.request (message methodAllocate 600) (client port),
    .proceed (.bound (client (port + 100))) (now * second)]

/-- The timer runs between lookup and release of an allocation whose time is over. -/
def run : List TurnEvent :=
  allocate 1 0 ++ allocate 2 10 ++
    [.request (message methodRefresh 0) (client 1), .expire (client 1).text 0 (600 * second),
      .proceed .noPort (600 * second)] ++ allocate 3 601 ++ allocate 4 602

def after : Server := (run.foldl (turnStep Toy.primitives) (.start { maxAllocsPerIP := 2 } 0)).server

end AccountingSample

section
open AccountingSample

/-- **A released allocation that has expired** is discounted twice: under a limit of two
there are three. -/
theorem released_and_expired :
    after.cfg.maxAllocsPerIP = 2 ∧ liveAt after.allocs [192, 0, 2, 1] = 3 ∧
      after.perIP.lookup [192, 0, 2, 1] = some 2 := by
  decide +kernel

end

end Freens.Turn
