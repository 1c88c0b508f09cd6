/-
**WITNESS EXCLUSIVITY OVER TIME.** One node handles witness requests one after the
other while the rest of it does anything to its pool; `witnessStep` keeps the log
of the signatures issued.

The invariant is about each logged signature by itself: the cooldown has passed
since, or the table still guards it (`Guarded`).
-/
import Freens.Dht.Witness
import Freens.Library.Run
import Freens.Toy

namespace Freens.Dht

open Library Naming Wire Claims

/-! ## The machine -/

/-- A signature as it was issued. -/
structure Signature where
  aliasName : Bytes
  claimant : Bytes
  prefixHash : Bytes
  signedAt : Int
  deriving DecidableEq, Repr

/-- The node, its last clock reading, and the signatures issued, latest
first. -/
structure WitnessRun where
  node : WitnessNode
  clock : Int
  issued : List Signature
  deriving DecidableEq

/-- A request, or the pool changes. -/
inductive WitnessAction where
  | request (gates : WitnessGates) (m : WitnessArgs) (nowU now : Int)
  /-- The rest of the node leaves its pool in any state. -/
  | pool (p : ClaimPool)

/-- Nothing signed yet. -/
def WitnessRun.initial (kp : Crypto.Keypair) (pool : ClaimPool) : WitnessRun :=
  { node := { kp, witnessLast := ∅, pool }, clock := 0, issued := [] }

/-- The signature a request asks for. -/
def WitnessArgs.signature (P : Primitives) (m : WitnessArgs) (now : Int) : Signature :=
  { aliasName := (validateAlias P m.aliasName).toOption.getD [], claimant := m.claimant,
    prefixHash := m.prefixHash, signedAt := now }

/-- The state after the answer. -/
def WitnessRun.answered (P : Primitives) (s : WitnessRun) (m : WitnessArgs) (now : Int) :
    WitnessReply × WitnessNode → WitnessRun
  | (.attested _ _, node) => { node, clock := now, issued := m.signature P now :: s.issued }
  | (.error _ _, node) => { s with node, clock := now }

/-- One action. -/
def witnessStep (P : Primitives) (s : WitnessRun) : WitnessAction → WitnessRun
  | .request gates m nowU now => s.answered P m now (hWitness P s.node gates m nowU now)
  | .pool p => { s with node := { s.node with pool := p } }

/-! ## What the handler does -/

variable {P : Primitives}

/-- The prefix a request presents. -/
def WitnessArgs.prefixBytes (P : Primitives) (m : WitnessArgs) : Option Bytes :=
  match m.ts, validateAlias P m.aliasName with
  | some ts, .ok aliasN => ((m.claim aliasN ts).prefixBytes P).toOption
  | _, _ => none

/-- What a request has passed before the cooldown. -/
structure IsPresented (P : Primitives) (p : ClaimPool) (m : WitnessArgs) (now : Int)
    (req : Presented) : Prop where
  aliasN : validateAlias P m.aliasName = .ok req.aliasN
  want : req.want = m.prefixHash
  identity : ∃ pre, m.prefixBytes P = some pre ∧ P.sha256 pre = m.prefixHash
  claimant : m.claimant.length = 32
  noWindow : claimReuseRefusal P p req.aliasN m.prefixHash now ≤ 0
  noConflict : liveClaimConflict P p req.aliasN m.prefixHash now = false

/-- **A request that passed the checks before the clock**, and what the later ones answered. -/
structure Identified (P : Primitives) (p : ClaimPool) (m : WitnessArgs) (nowU now : Int)
    (req : Presented) (ts : UInt64) : Prop where
  time : m.ts = some ts
  aliasN : validateAlias P m.aliasName = .ok req.aliasN
  claimant : m.claimant.length = 32
  identity : (m.claim req.aliasN ts).prefixHash P = .ok m.prefixHash
  pow : (m.claim req.aliasN ts).verifyPoW P inferDifficulty = true
  inTime : presentedInTime P p m req.aliasN m.prefixHash ts (uint64 nowU) now = .ok req

/-- What of that depends on the time. -/
structure InTime (P : Primitives) (p : ClaimPool) (m : WitnessArgs) (aliasN want : Bytes)
    (ts nowU : UInt64) (now : Int) (req : Presented) : Prop where
  notFuture : ¬ ts > nowU + uint64 Constants.skewTolerance
  noWindow : claimReuseRefusal P p aliasN m.prefixHash now ≤ 0
  noConflict : liveClaimConflict P p aliasN m.prefixHash now = false
  age : ageGate P p m aliasN ts nowU now = .ok req.reattest
  aliasN : req.aliasN = aliasN
  want : req.want = want

variable {m : WitnessArgs} {req : Presented} {aliasN ph key : Bytes} {now : Int} {p : ClaimPool}
  {last : Table Bytes WitnessSigned}

theorem inTime_of_presentedInTime {want : Bytes} {ts nowU : UInt64}
    (h : presentedInTime P p m aliasN want ts nowU now = .ok req) :
    InTime P p m aliasN want ts nowU now req := by
  unfold presentedInTime at h
  rw [guard_eq_ok, guard_eq_ok, guard_eq_ok] at h
  obtain ⟨hfuture, hwindow, hconflict, h⟩ := h
  split at h
  next => cases h
  next reattest hage =>
    rw [Except.ok.injEq] at h
    subst h
    exact ⟨hfuture, not_lt.mp hwindow, by simpa using hconflict, hage, rfl, rfl⟩

variable {nowU clock : Int} {e : WitnessSigned} {claimant pre : Bytes} {g : Signature}
  {held : SignedEnvelope} {claim : AliasClaim} {ms : List WitnessArgs}

theorem identified_of_presented {gates : WitnessGates}
    (h : presented P p gates m nowU now = .ok req) : ∃ ts, Identified P p m nowU now req ts := by
  unfold presented at h
  rw [guard_eq_ok, guard_eq_ok] at h
  obtain ⟨_, _, h⟩ := h
  split at h
  next ts aliasN hts halias =>
    rw [guard_eq_ok, guard_eq_ok, guard_eq_ok] at h
    obtain ⟨_, _, hlens, h⟩ := h
    rw [not_or, not_not, not_not] at hlens
    split at h
    next => cases h
    next want hwant =>
      rw [guard_eq_ok, guard_eq_ok] at h
      obtain ⟨hph, hpow, h⟩ := h
      rw [not_or, not_not, not_not] at hph
      have hreq := (inTime_of_presentedInTime h).aliasN
      subst hreq
      rw [← hph.2] at h hwant
      exact ⟨ts, hts, halias, hlens.2, hwant, by simpa using hpow, h⟩
  next => cases h

theorem isPresented_of_presented {gates : WitnessGates}
    (h : presented P p gates m nowU now = .ok req) : IsPresented P p m now req := by
  obtain ⟨ts, hid⟩ := identified_of_presented h
  have htime := inTime_of_presentedInTime hid.inTime
  obtain ⟨pre, hpre, hsha⟩ := prefixHash_eq_ok_iff.mp hid.identity
  refine ⟨hid.aliasN, htime.want, ⟨pre, ?_, hsha⟩, hid.claimant, htime.noWindow, htime.noConflict⟩
  rw [WitnessArgs.prefixBytes, hid.time, hid.aliasN]
  show ((m.claim req.aliasN ts).prefixBytes P).toOption = some pre
  rw [hpre]
  rfl

/-- **What a request can do to the table**: nothing, or it is not cooling and is recorded. -/
theorem hWitness_cases (n : WitnessNode) (gates : WitnessGates) (m : WitnessArgs) (nowU now : Int) :
    ((∃ code text, (hWitness P n gates m nowU now).1 = .error code text) ∧
        (hWitness P n gates m nowU now).2 = n) ∨
      ∃ req, presented P n.pool gates m nowU now = .ok req ∧
        (n.witnessLast.lookup req.aliasN).any (·.cools m.prefixHash m.claimant now) = false ∧
        (hWitness P n gates m nowU now).2.witnessLast =
          recordSigned n.witnessLast req.aliasN ⟨m.prefixHash, m.claimant, now⟩ := by
  unfold hWitness
  cases hreq : presented P n.pool gates m nowU now with
  | error refusal => exact .inl ⟨⟨refusal.1, refusal.2, rfl⟩, rfl⟩
  | ok req =>
    cases hcool : (n.witnessLast.lookup req.aliasN).any (·.cools m.prefixHash m.claimant now) with
    | true => exact .inl ⟨⟨301, "cooldown", by simp [hcool]⟩, by simp [hcool]⟩
    | false =>
      right
      refine ⟨req, rfl, hcool, ?_⟩
      simp only [hcool, Bool.false_eq_true, if_false]
      split
      next => rfl
      split <;> rfl

/-! ## The table and the log -/

theorem lookup_pruneSigned {last : Table Bytes WitnessSigned} {now : Int} {a : Bytes}
    {e : WitnessSigned} (h : last.lookup a = some e) :
    (pruneSigned last now).lookup a = some e ∨ 3600 ≤ now - e.signedAt := by
  unfold pruneSigned
  split
  next =>
    by_cases hold : 3600 ≤ now - e.signedAt
    · exact .inr hold
    · left
      rw [Table.lookup_reject, decide_eq_false_iff_not]
      exact ⟨h, hold⟩
  next => exact .inl h

theorem pruneSigned_sub (last : Table Bytes WitnessSigned) (now : Int) :
    Table.Sub (pruneSigned last now) last := by
  intro a e h
  unfold pruneSigned at h
  split at h
  next => exact (Table.lookup_reject.mp h).1
  next => exact h

theorem lookup_recordSigned_self (last : Table Bytes WitnessSigned) (aliasN : Bytes)
    (entry : WitnessSigned) : (recordSigned last aliasN entry).lookup aliasN = some entry := by
  rcases @lookup_pruneSigned _ entry.signedAt aliasN entry (AList.lookup_insert last) with h | h
  · exact h
  · -- the new entry is not old enough to be pruned
    omega

theorem lookup_recordSigned_ne {last : Table Bytes WitnessSigned} {aliasN a : Bytes}
    {entry e : WitnessSigned} (hne : a ≠ aliasN) (h : last.lookup a = some e) :
    (recordSigned last aliasN entry).lookup a = some e ∨ 3600 ≤ entry.signedAt - e.signedAt := by
  refine lookup_pruneSigned ?_
  rw [AList.lookup_insert_ne hne]
  exact h

theorem of_lookup_recordSigned {a : Bytes} {entry : WitnessSigned}
    (h : (recordSigned last aliasN entry).lookup a = some e) :
    e = entry ∨ last.lookup a = some e := by
  have hinsert := pruneSigned_sub _ _ a e h
  exact (Table.lookup_insert_cases hinsert).imp And.right And.right

/-- **A guarded signature**: its cooldown has passed, or the table still separates it. -/
structure Guarded (last : Table Bytes WitnessSigned) (clock : Int) (g : Signature) : Prop where
  past : g.signedAt ≤ clock
  separated : g.signedAt + 3600 ≤ clock ∨ ∃ e, last.lookup g.aliasName = some e ∧
    g.signedAt ≤ e.signedAt ∧ (e.claimant = g.claimant ∨ g.signedAt + 3600 ≤ e.signedAt)

theorem Guarded.apart (hg : Guarded last clock g) (hclock : clock ≤ now)
    (hcool : (last.lookup aliasN).any (·.cools ph claimant now) = false)
    (hentries : ∀ a e, last.lookup a = some e → e.signedAt ≤ clock)
    (hid : ∀ e, last.lookup aliasN = some e → e.prefixHash = ph → e.claimant = claimant)
    (halias : g.aliasName = aliasN) (hne : claimant ≠ g.claimant) : g.signedAt + 3600 ≤ now := by
  rcases hg.separated with hlong | ⟨e, he, hge, hclaimant⟩
  · omega
  · have hle := hentries _ e he
    rcases hclaimant with hsame | hlater
    · -- the entry is of the other claimant, so the request would cool
      rw [halias] at he
      rw [he, Option.any_some, WitnessSigned.cools, Bool.and_eq_false_iff,
        Bool.and_eq_false_iff, decide_eq_false_iff_not, decide_eq_false_iff_not,
        decide_eq_false_iff_not] at hcool
      rcases hcool with (hsoon | hph) | hc
      · simp only [Constants.witnessCooldown] at hsoon
        omega
      · rw [not_not] at hph
        exact absurd ((hid e he hph).symm.trans hsame) hne
      · rw [not_not] at hc
        exact absurd (hc.symm.trans hsame) hne
    · omega

theorem Guarded.record (hg : Guarded last clock g) (hclock : clock ≤ now)
    (hapart : g.aliasName = aliasN → claimant ≠ g.claimant → g.signedAt + 3600 ≤ now) :
    Guarded (recordSigned last aliasN ⟨ph, claimant, now⟩) now g := by
  have hpast := hg.past
  refine ⟨by omega, ?_⟩
  by_cases halias : g.aliasName = aliasN
  · -- the new entry takes over
    right
    refine ⟨⟨ph, claimant, now⟩, ?_, ?_, ?_⟩
    · rw [halias]
      exact lookup_recordSigned_self last aliasN _
    · show g.signedAt ≤ now
      omega
    · by_cases hc : claimant = g.claimant
      · exact .inl hc
      · exact .inr (hapart halias hc)
  · rcases hg.separated with hlong | ⟨e, he, hge, hclaimant⟩
    · exact .inl (by omega)
    · rcases @lookup_recordSigned_ne last aliasN _ ⟨ph, claimant, now⟩ e halias he with hstay | hold
      · exact .inr ⟨e, hstay, hge, hclaimant⟩
      · -- pruned: then the cooldown has passed since the entry, and since the signature
        left
        have hold' : 3600 ≤ now - e.signedAt := hold
        omega

theorem Guarded.issued (last : Table Bytes WitnessSigned) (g : Signature) (ph : Bytes) :
    Guarded (recordSigned last g.aliasName ⟨ph, g.claimant, g.signedAt⟩) g.signedAt g :=
  ⟨le_refl _, .inr ⟨⟨ph, g.claimant, g.signedAt⟩, lookup_recordSigned_self _ _ _, le_refl _,
    .inl rfl⟩⟩

/-! ## The pool -/

theorem normalizedKey_eq_some {s : Bytes} (halias : validateAlias P s = .ok aliasN)
    (hkey : keyForClaim P aliasN = .ok key) : normalizedKey P aliasN = some (aliasN, key) := by
  unfold normalizedKey
  rw [validateAlias_idem halias]
  simp only [hkey]

theorem claimReuseRefusal_pos {p : ClaimPool} {aliasN key ph : Bytes} {held : SignedEnvelope}
    {now : Int} (hnow : 0 ≤ now) (hkey : normalizedKey P aliasN = some (aliasN, key))
    (hheld : held ∈ p.top2 key) (hwindow : (reuseWindowEnd P held aliasN now).1 ≠ 0)
    (hother : (reuseWindowEnd P held aliasN now).2 ≠ ph) :
    0 < claimReuseRefusal P p aliasN ph now := by
  unfold claimReuseRefusal
  simp only [hkey]
  cases hfind : (p.top2 key).find? (fun cand =>
      decide ((reuseWindowEnd P cand aliasN now).1 ≠ 0 ∧
        (reuseWindowEnd P cand aliasN now).2 ≠ ph)) with
  | none =>
    have hno := List.find?_eq_none.mp hfind held hheld
    rw [decide_eq_true_eq] at hno
    exact absurd ⟨hwindow, hother⟩ hno
  | some cand =>
    -- whichever window is found first, it ends after now
    have hcand := List.find?_some hfind
    rw [decide_eq_true_eq] at hcand
    have := lt_reuseWindowEnd hcand.1
    show 0 < (reuseWindowEnd P cand aliasN now).1
    omega

theorem liveClaimConflict_of_live {ph' : Bytes} (hkey : normalizedKey P aliasN = some (aliasN, key))
    (hheld : held ∈ p.top2 key) (hev : claimEvidence P held aliasN now = some (claim, ph'))
    (hlive : now < int64 held.record.expires) (hother : ph' ≠ ph) :
    liveClaimConflict P p aliasN ph now = true := by
  unfold liveClaimConflict
  simp only [hkey]
  rw [List.any_eq_true]
  refine ⟨held, hheld, ?_⟩
  rw [hev, Option.any_some]
  simp [hlive, hother]

/-- **No signature against open evidence**: other identities in the pool are past their
reuse window. -/
theorem IsPresented.window_closed (hreq : IsPresented P p m now req) (hnow : 0 ≤ now)
    (hmax : now + 2592000 < 2 ^ 63) (hkey : keyForClaim P req.aliasN = .ok key)
    (hheld : held ∈ p.top2 key) (hev : claimEvidence P held req.aliasN now = some (claim, ph))
    (hexp : held.record.expires.toNat < 2 ^ 63) (hother : ph ≠ m.prefixHash) :
    (held.record.expires.toNat : Int) + 2592000 ≤ now := by
  have hnkey := normalizedKey_eq_some hreq.aliasN hkey
  by_contra hopen
  by_cases hlive : now < (held.record.expires.toNat : Int)
  · have hconflict := liveClaimConflict_of_live hnkey hheld hev
      (by rw [int64_of_lt hexp]; exact hlive) hother
    rw [hreq.noConflict] at hconflict
    cases hconflict
  · have hwindow := reuseWindowEnd_of_evidence (claimEvidence_eq_some_iff.mp hev) (by omega)
      (by omega) (by omega)
    have hpos := @claimReuseRefusal_pos P p req.aliasN key m.prefixHash held now hnow hnkey hheld
      (by rw [hwindow]; show (held.record.expires.toNat : Int) + 2592000 ≠ 0; omega)
      (by rw [hwindow]; exact hother)
    have := hreq.noWindow
    omega

/-! ## Runs -/

theorem exists_front_buildPrefix (aliasName tldID : Bytes) (ts : UInt64) (claimantPK : Bytes) :
    ∃ front, buildPrefix aliasName tldID ts claimantPK = front ++ claimantPK := by
  refine ⟨Cbor.head 5 4 ++ (Cbor.uint 1 ++ Cbor.tstr aliasName ++ (Cbor.uint 2 ++ Cbor.bstr tldID ++
    (Cbor.uint 3 ++ Cbor.uint ts ++ (Cbor.uint 5 ++ Cbor.head 2 claimantPK.length)))), ?_⟩
  simp [buildPrefix, Cbor.map, Cbor.bstr, List.append_assoc]

theorem exists_front_prefixBytes
    (h : m.prefixBytes P = some pre) : ∃ front, pre = front ++ m.claimant := by
  unfold WitnessArgs.prefixBytes at h
  split at h
  next ts aliasN _ _ =>
    cases hpre : (m.claim aliasN ts).prefixBytes P with
    | error e =>
      rw [hpre] at h
      exact absurd h (by simp [Except.toOption])
    | ok pre' =>
      rw [hpre, Except.toOption, Option.some.injEq] at h
      subst h
      simp only [AliasClaim.prefixBytes, bind_eq_ok, pure_eq_ok] at hpre
      obtain ⟨a, _, hpre⟩ := hpre
      obtain ⟨front, hfront⟩ := exists_front_buildPrefix a m.tldID ts m.claimant
      exact ⟨front, hpre.symm.trans hfront⟩
  next => cases h

theorem claimant_eq_of_prefixBytes {m' : WitnessArgs} (h : m.prefixBytes P = some pre)
    (h' : m'.prefixBytes P = some pre) (hlen : m.claimant.length = 32)
    (hlen' : m'.claimant.length = 32) : m.claimant = m'.claimant := by
  obtain ⟨front, hfront⟩ := exists_front_prefixBytes h
  obtain ⟨front', hfront'⟩ := exists_front_prefixBytes h'
  exact List.append_inj_right' (hfront.symm.trans hfront') (hlen.trans hlen'.symm)

/-- The requests of a run. -/
def requests (actions : List WitnessAction) : List WitnessArgs :=
  actions.filterMap (fun
    | .request _ m _ _ => some m
    | .pool _ => none)

/-- Requests with one prefix hash have one prefix. -/
def NoCollision (P : Primitives) (ms : List WitnessArgs) : Prop :=
  ∀ m ∈ ms, ∀ m' ∈ ms, (m.prefixBytes P).map P.sha256 = (m'.prefixBytes P).map P.sha256 →
    m.prefixBytes P = m'.prefixBytes P

/-- Signatures for one alias and different claimants are a cooldown apart. -/
def Apart (later earlier : Signature) : Prop :=
  later.aliasName = earlier.aliasName → later.claimant ≠ earlier.claimant →
    earlier.signedAt + 3600 ≤ later.signedAt

/-- The entry stems from a request. -/
def Recorded (P : Primitives) (ms : List WitnessArgs) (e : WitnessSigned) : Prop :=
  ∃ m ∈ ms, m.claimant = e.claimant ∧ m.claimant.length = 32 ∧
    ∃ pre, m.prefixBytes P = some pre ∧ P.sha256 pre = e.prefixHash

/-- **The invariant of the table and the log.** -/
structure Exclusive (P : Primitives) (ms : List WitnessArgs) (s : WitnessRun) : Prop where
  clock : 0 ≤ s.clock
  entries : ∀ a e, s.node.witnessLast.lookup a = some e → e.signedAt ≤ s.clock
  recorded : ∀ a e, s.node.witnessLast.lookup a = some e → Recorded P ms e
  guarded : ∀ g ∈ s.issued, Guarded s.node.witnessLast s.clock g
  apart : s.issued.Pairwise Apart

/-- The clock does not go back and stays a window from the end of the signed range, as do
the pooled expiries. -/
def Timely (P : Primitives) (s : WitnessRun) : WitnessAction → Prop
  | .request _ m nowU now => s.clock ≤ nowU ∧ nowU ≤ now ∧ now + 2592000 < 2 ^ 63 ∧
    ∀ aliasN key, validateAlias P m.aliasName = .ok aliasN → keyForClaim P aliasN = .ok key →
      ∀ held ∈ s.node.pool.top2 key, (claimEvidence P held aliasN now).isSome = true →
        held.record.expires.toNat < 2 ^ 63
  | .pool _ => True

theorem Recorded.claimant_eq {pool : ClaimPool} (he : Recorded P ms e)
    (hcollision : NoCollision P ms) (hm : m ∈ ms) (hreq : IsPresented P pool m now req)
    (hph : e.prefixHash = m.prefixHash) : e.claimant = m.claimant := by
  obtain ⟨pre, hpre, hsha⟩ := hreq.identity
  obtain ⟨m', hm', hclaimant, hlen, pre', hpre', hsha'⟩ := he
  have heq := hcollision m' hm' m hm (by
    rw [hpre', hpre, Option.map_some, Option.map_some, hsha', hsha, hph])
  rw [← hclaimant]
  exact claimant_eq_of_prefixBytes (heq.trans hpre) hpre hlen hreq.claimant

theorem Exclusive.record {s : WitnessRun} {node : WitnessNode} (hs : Exclusive P ms s)
    (hcollision : NoCollision P ms) (hm : m ∈ ms) (hclock : s.clock ≤ now)
    (hreq : IsPresented P s.node.pool m now req)
    (hcool : (s.node.witnessLast.lookup req.aliasN).any (·.cools m.prefixHash m.claimant now)
      = false) (hnode : node.witnessLast =
      recordSigned s.node.witnessLast req.aliasN ⟨m.prefixHash, m.claimant, now⟩) :
    Exclusive P ms { s with node, clock := now } ∧
      Exclusive P ms { node, clock := now, issued := m.signature P now :: s.issued } := by
  obtain ⟨pre, hpre, hsha⟩ := hreq.identity
  have hnew : Recorded P ms ⟨m.prefixHash, m.claimant, now⟩ :=
    ⟨m, hm, rfl, hreq.claimant, pre, hpre, hsha⟩
  have halias : (m.signature P now).aliasName = req.aliasN := by
    rw [WitnessArgs.signature, hreq.aliasN]
    rfl
  have hapart : ∀ g ∈ s.issued, g.aliasName = req.aliasN → m.claimant ≠ g.claimant →
      g.signedAt + 3600 ≤ now := fun g hg =>
    (hs.guarded g hg).apart hclock hcool hs.entries
      (fun e he => (hs.recorded _ e he).claimant_eq hcollision hm hreq)
  have hguarded : ∀ g ∈ s.issued, Guarded node.witnessLast now g := by
    intro g hg
    rw [hnode]
    exact (hs.guarded g hg).record hclock (hapart g hg)
  have hentries : ∀ a e, node.witnessLast.lookup a = some e → e.signedAt ≤ now := by
    intro a e he
    rw [hnode] at he
    rcases of_lookup_recordSigned he with heq | hold
    · rw [heq]
    · have := hs.entries a e hold
      omega
  have hrecorded : ∀ a e, node.witnessLast.lookup a = some e → Recorded P ms e := by
    intro a e he
    rw [hnode] at he
    rcases of_lookup_recordSigned he with heq | hold
    · rw [heq]
      exact hnew
    · exact hs.recorded a e hold
  have hzero : 0 ≤ now := le_trans hs.clock hclock
  refine ⟨⟨hzero, hentries, hrecorded, hguarded, hs.apart⟩,
    ⟨hzero, hentries, hrecorded, ?_, ?_⟩⟩
  · intro g hg
    rcases List.mem_cons.mp hg with heq | hold
    · subst heq
      show Guarded node.witnessLast now _
      rw [hnode, ← halias]
      exact Guarded.issued _ (m.signature P now) _
    · exact hguarded g hold
  · refine List.pairwise_cons.mpr ⟨?_, hs.apart⟩
    intro g hg hsame hne
    exact hapart g hg (hsame.symm.trans halias) hne

theorem Exclusive.step {ms : List WitnessArgs} {s : WitnessRun} {a : WitnessAction}
    (hs : Exclusive P ms s) (hcollision : NoCollision P ms)
    (hm : ∀ m ∈ requests [a], m ∈ ms) (hok : Timely P s a) :
    Exclusive P ms (witnessStep P s a) := by
  cases a with
  | pool p => exact ⟨hs.clock, hs.entries, hs.recorded, hs.guarded, hs.apart⟩
  | request gates m nowU now =>
    have hclock : s.clock ≤ now := le_trans hok.1 hok.2.1
    show Exclusive P ms (s.answered P m now (hWitness P s.node gates m nowU now))
    rcases @hWitness_cases P s.node gates m nowU now with ⟨⟨code, text, herror⟩, hnode⟩ |
      ⟨req, hreq, hcool, hnode⟩
    · have hwhole : hWitness P s.node gates m nowU now = (.error code text, s.node) :=
        Prod.ext herror hnode
      rw [hwhole]
      refine ⟨by show 0 ≤ now; have := hs.clock; omega, ?_, hs.recorded, ?_, hs.apart⟩
      · intro b e he
        have := hs.entries b e he
        show e.signedAt ≤ now
        omega
      · intro g hg
        obtain ⟨hpast, hsep⟩ := hs.guarded g hg
        refine ⟨by show g.signedAt ≤ now; omega, ?_⟩
        rcases hsep with hlong | hsep
        · exact .inl (by show g.signedAt + 3600 ≤ now; omega)
        · exact .inr hsep
    · have hkeep := hs.record hcollision (hm m (by simp [requests])) hclock
        (isPresented_of_presented hreq) hcool hnode
      cases hreply : hWitness P s.node gates m nowU now with
      | mk reply node =>
        rw [hreply] at hkeep
        cases reply with
        | attested att difficulty => exact hkeep.2
        | error code text => exact hkeep.1

theorem Exclusive.run {ms : List WitnessArgs} {s : WitnessRun} {actions : List WitnessAction}
    (hs : Exclusive P ms s) (hcollision : NoCollision P ms)
    (hm : ∀ m ∈ requests actions, m ∈ ms) (hrun : EachStep (witnessStep P) (Timely P) s actions) :
    Exclusive P ms (actions.foldl (witnessStep P) s) := by
  refine @EachStep.history_mem _ _ (witnessStep P) (Timely P) (fun _ s => Exclusive P ms s) actions
    [] s ?_ hs hrun
  intro _ s a ha hinv hok
  refine hinv.step hcollision ?_ hok
  intro m hma
  refine hm m ?_
  rw [requests, List.mem_filterMap] at hma ⊢
  obtain ⟨b, hb, hbm⟩ := hma
  exact ⟨a, ha, List.mem_singleton.mp hb ▸ hbm⟩

theorem Exclusive.initial (ms : List WitnessArgs) (kp : Crypto.Keypair) (pool : ClaimPool) :
    Exclusive P ms (WitnessRun.initial kp pool) := by
  have hempty : ∀ a e, (WitnessRun.initial kp pool).node.witnessLast.lookup a ≠ some e := by
    intro a e
    show AList.lookup a (∅ : Table Bytes WitnessSigned) ≠ some e
    rw [AList.lookup_empty]
    simp
  refine ⟨le_refl _, ?_, ?_, ?_, List.Pairwise.nil⟩
  · intro a e he
    exact absurd he (hempty a e)
  · intro a e he
    exact absurd he (hempty a e)
  · intro g hg
    exact absurd hg List.not_mem_nil

/-- **Exclusivity over time.** In every timely run whose prefixes do not collide, signatures
for one alias and different claimants are an hour apart, and none is issued inside another
identity's reuse window. -/
theorem witness_exclusive (P : Primitives) {kp : Crypto.Keypair} {pool : ClaimPool}
    {actions : List WitnessAction} (hcollision : NoCollision P (requests actions))
    (hrun : EachStep (witnessStep P) (Timely P) (WitnessRun.initial kp pool) actions) :
    (actions.foldl (witnessStep P) (WitnessRun.initial kp pool)).issued.Pairwise Apart ∧
      ∀ i gates m nowU now, actions[i]? = some (.request gates m nowU now) →
        ∀ att difficulty,
          (hWitness P ((actions.take i).foldl (witnessStep P) (WitnessRun.initial kp pool)).node
            gates m nowU now).1 = .attested att difficulty →
          ∀ aliasN key, validateAlias P m.aliasName = .ok aliasN → keyForClaim P aliasN = .ok key →
            ∀ held ∈ ((actions.take i).foldl (witnessStep P)
              (WitnessRun.initial kp pool)).node.pool.top2 key,
            ∀ claim ph, claimEvidence P held aliasN now = some (claim, ph) → ph ≠ m.prefixHash →
              (held.record.expires.toNat : Int) + 2592000 ≤ now := by
  refine ⟨((Exclusive.initial _ kp pool).run hcollision (fun _ hm => hm) hrun).apart, ?_⟩
  intro i gates m nowU now hi att difficulty hatt aliasN key halias hkey held hheld claim ph hev hne
  -- the state before the request satisfies the invariant, so its clock is not negative
  have hbefore := (Exclusive.initial (requests actions) kp pool).run hcollision (by
    intro m hm
    rw [requests, List.mem_filterMap] at hm ⊢
    obtain ⟨a, ha, ham⟩ := hm
    exact ⟨a, List.mem_of_mem_take ha, ham⟩) (hrun.take i)
  have hok := hrun.at hi
  obtain ⟨hclock, hnow, hmax, hexp⟩ := hok
  have hzero := hbefore.clock
  generalize (actions.take i).foldl (witnessStep P) (WitnessRun.initial kp pool) = s at *
  rcases @hWitness_cases P s.node gates m nowU now with ⟨⟨code, text, herror⟩, _⟩ | ⟨req, hreq, _, _⟩
  · rw [herror] at hatt
    cases hatt
  · have hpresented := isPresented_of_presented hreq
    have halias' : aliasN = req.aliasN := Except.ok.inj (halias.symm.trans hpresented.aliasN)
    subst halias'
    exact hpresented.window_closed (by omega) hmax hkey hheld hev
      (hexp _ key halias hkey held hheld (by rw [hev]; rfl)) hne

namespace WitnessSample

open Toy

def gates : WitnessGates :=
  { flagged := false, allowRead := true, reservedTLDs := fun _ => false, allowReserved := false,
    difficulty := 24 }

def presents (n : UInt8) (ts : UInt64) : WitnessArgs :=
  let claim := minedClaim n aliasA ts []
  { aliasName := aliasA, tldID := claim.tldID, claimant := claim.claimantPK,
    prefixHash := minedChecksum (buildPrefix aliasA claim.tldID ts claim.claimantPK),
    nonce := claim.nonce, powHash := claim.powHash, ts := some ts, reattest := false }

def turns : List WitnessAction :=
  [.request gates (presents 2 1000) 1000 1000, .request gates (presents 3 4600) 4600 4600]

def unending : SignedEnvelope :=
  carrier 1 (minedClaim 1 aliasA 1000 quorum) 1000 0x8000000000000000

def pool : ClaimPool := (offer mined newClaimPool keyA unending 2000).2

end WitnessSample

section
open Toy WitnessSample

theorem two_claimants_signed :
    (turns.foldl (witnessStep mined) (WitnessRun.initial (keypair 9) newClaimPool)).issued.length = 2 ∧
      (turns.foldl (witnessStep mined)
        (WitnessRun.initial (keypair 9) newClaimPool)).issued.Pairwise Apart := by
  have hempty : ∀ {p : ClaimPool} {key : Bytes}, p.byKey.entries.isEmpty = true →
      p.top2 key = [] := by
    intro p key h
    have htable : p.byKey = ∅ := AList.ext (List.isEmpty_iff.mp h)
    simp [ClaimPool.top2, ClaimPool.members, htable]
  refine ⟨by decide +kernel, (witness_exclusive mined ?_ ?_).1⟩
  · unfold NoCollision
    decide +kernel
  · refine ⟨⟨by decide, by decide, by decide, ?_⟩,
      ⟨by decide +kernel, by decide, by decide, ?_⟩, trivial⟩
    · intro aliasN key _ _ held hheld
      rw [hempty (by decide)] at hheld
      exact absurd hheld List.not_mem_nil
    · intro aliasN key _ _ held hheld
      rw [hempty (by decide +kernel)] at hheld
      exact absurd hheld List.not_mem_nil

/-- **A live claim is signed over**: the signed reading of its expiry is negative. -/
theorem live_claim_signed_over :
    (([.pool pool, .request gates (presents 2 1990) 2000 2000] : List WitnessAction).foldl
        (witnessStep mined) (WitnessRun.initial (keypair 9) newClaimPool)).issued =
        [(presents 2 1990).signature mined 2000] ∧
      unending ∈ pool.top2 keyA ∧ keyForClaim mined aliasA = .ok keyA ∧
      (claimEvidence mined unending aliasA 2000).any (fun e => e.2 ≠ (presents 2 1990).prefixHash) =
        true ∧
      2000 < unending.record.expires.toNat := by
  decide +kernel

end

end Freens.Dht
