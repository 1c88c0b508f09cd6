/-
**WHAT THE STORE OPERATIONS DO TO THE SLOTS.** Eviction only removes
bindings, a sweep removes exactly the dead ones, and an install leaves the
newcomer under its key and nothing new anywhere else. `judgeIncumbent_install_iff`
lists every way a newcomer is installed over a live incumbent.
-/
import Freens.Dht.Store
import Freens.Library.Selection

namespace Freens.Dht

open Library Naming Wire

variable {P : Primitives}

/-! ## The side tables are kept beside the slots -/

/-- `retainHistoryLocked` up to its loop. -/
def insertHistory (P : Primitives) (s : EnvelopeStore) (e : Entry) : EnvelopeStore :=
  { s with
    history := s.history.insert (e.env.recordHash P) e.sized
    historyBytes := s.historyBytes - (match s.history.lookup (e.env.recordHash P) with
      | some old => old.size
      | none => 0) + e.sized.size }

theorem boundHistory_frame (fuel : Nat) (s : EnvelopeStore) :
    boundHistory fuel s = { s with
      history := (boundHistory fuel s).history
      historyBytes := (boundHistory fuel s).historyBytes } := by
  induction fuel generalizing s with
  | zero => rfl
  | succ fuel ih =>
    unfold boundHistory
    split
    next =>
      rw [ih]
      unfold evictHistoryOldest
      split <;> rfl
    next => rfl

/-- **Retention writes the history** and nothing else. -/
theorem retainHistory_frame (s : EnvelopeStore) (e : Entry) :
    retainHistory P s e = { s with
      history := (retainHistory P s e).history
      historyBytes := (retainHistory P s e).historyBytes } :=
  boundHistory_frame _ _

@[simp] theorem retainHistory_entries (s : EnvelopeStore) (e : Entry) :
    (retainHistory P s e).entries = s.entries := by
  rw [retainHistory_frame]

@[simp] theorem retainHistory_bytes (s : EnvelopeStore) (e : Entry) :
    (retainHistory P s e).bytes = s.bytes := by
  rw [retainHistory_frame]

/-- `insertEvidence` up to its loop. -/
def bindEvidence (s : EnvelopeStore) (k raw : Bytes) : EnvelopeStore :=
  match s.evidence.lookup k with
  | none => { s with
      evidenceOrder := s.evidenceOrder ++ [k]
      evidence := s.evidence.insert k raw
      evidenceBytes := s.evidenceBytes + raw.length }
  | some old => { s with
      evidence := s.evidence.insert k raw
      evidenceBytes := s.evidenceBytes - old.length + raw.length }

theorem insertEvidence_eq (s : EnvelopeStore) (k raw : Bytes) :
    insertEvidence s k raw =
      boundEvidence (bindEvidence s k raw).evidence.keys.length (bindEvidence s k raw) := by
  unfold insertEvidence bindEvidence
  cases s.evidence.lookup k <;> rfl

theorem bindEvidence_frame (s : EnvelopeStore) (k raw : Bytes) :
    bindEvidence s k raw = { s with
      evidence := s.evidence.insert k raw
      evidenceOrder := (bindEvidence s k raw).evidenceOrder
      evidenceBytes := (bindEvidence s k raw).evidenceBytes } := by
  unfold bindEvidence
  split <;> rfl

theorem boundEvidence_frame (fuel : Nat) (s : EnvelopeStore) :
    boundEvidence fuel s = { s with
      evidence := (boundEvidence fuel s).evidence
      evidenceOrder := (boundEvidence fuel s).evidenceOrder
      evidenceBytes := (boundEvidence fuel s).evidenceBytes } := by
  induction fuel generalizing s with
  | zero => rfl
  | succ fuel ih =>
    unfold boundEvidence
    split
    next =>
      split
      next => rfl
      next => rw [ih]
    next => rfl

/-- Short enough, and it decodes. -/
def wellFormedBlob (P : Primitives) (raw : Bytes) : Prop :=
  raw.length ≤ maxEvidenceBlobLen ∧ (decodeRecoveryEvidence P raw).isSome

instance (raw : Bytes) : Decidable (wellFormedBlob P raw) := inferInstanceAs (Decidable (_ ∧ _))

theorem putEvidence_eq (s : EnvelopeStore) (h raw : Bytes) :
    putEvidence P s h raw =
      if h.length = Constants.sha256Len ∧ wellFormedBlob P raw then insertEvidence s h raw
      else s := by
  unfold putEvidence wellFormedBlob
  rw [← Option.not_isSome]
  grind

/-- **Evidence is kept beside the rest** of the store. -/
theorem putEvidence_frame (s : EnvelopeStore) (h raw : Bytes) :
    putEvidence P s h raw = { s with
      evidence := (putEvidence P s h raw).evidence
      evidenceOrder := (putEvidence P s h raw).evidenceOrder
      evidenceBytes := (putEvidence P s h raw).evidenceBytes } := by
  rw [putEvidence_eq]
  split
  next => rw [insertEvidence_eq, boundEvidence_frame, bindEvidence_frame]
  next => rfl

theorem retainEvidence_frame (s : EnvelopeStore) (env : SignedEnvelope) (evidence : Bytes) :
    retainEvidence P s env evidence = { s with
      evidence := (retainEvidence P s env evidence).evidence
      evidenceOrder := (retainEvidence P s env evidence).evidenceOrder
      evidenceBytes := (retainEvidence P s env evidence).evidenceBytes } := by
  unfold retainEvidence
  split
  next => rfl
  next => exact putEvidence_frame _ _ _

theorem evict_entries (s : EnvelopeStore) (victim : Bytes × Entry) :
    (evict P s victim).entries = s.entries.erase victim.1 := by
  show (retainHistory P s victim.2).entries.erase victim.1 = _
  rw [retainHistory_entries]

/-! ## Sweeps -/

theorem foldl_evict_lookup (victims : List (Bytes × Entry)) (s : EnvelopeStore) (k : Bytes) :
    (victims.foldl (evict P) s).entries.lookup k =
      if k ∈ victims.map Prod.fst then none else s.entries.lookup k := by
  induction victims generalizing s with
  | nil => simp
  | cons v victims ih =>
    rw [List.foldl_cons, ih, evict_entries, List.map_cons]
    by_cases hk : k = v.1
    · subst hk
      simp
    · rw [AList.lookup_erase_ne hk]
      simp only [List.mem_cons, hk, false_or]

theorem evictExpired_lookup (s : EnvelopeStore) (now : Int) (k : Bytes) :
    (evictExpired P s now).entries.lookup k =
      (s.entries.lookup k).filter (fun e => alive e.env now) := by
  unfold evictExpired
  rw [foldl_evict_lookup]
  cases hk : s.entries.lookup k with
  | none => simp
  | some e =>
    by_cases halive : alive e.env now = true
    · rw [if_neg, Option.filter_some, if_pos halive]
      intro hmem
      obtain ⟨⟨k', e'⟩, hsel, hkey⟩ := List.mem_map.mp hmem
      obtain ⟨hlookup, hdead⟩ := Table.mem_select.mp hsel
      replace hkey : k' = k := hkey
      subst hkey
      rw [hk, Option.some.injEq] at hlookup
      subst hlookup
      simp [halive] at hdead
    · rw [if_pos, Option.filter_some, if_neg halive]
      refine List.mem_map.mpr ⟨(k, e), Table.mem_select.mpr ⟨hk, ?_⟩, rfl⟩
      simpa using halive

variable {candidates : List (Bytes × Entry)} {c : Bytes × Entry} {verify : Bool}

/-- The victim of an eviction is a candidate, and no candidate goes before it. -/
theorem oldest_unbeaten (h : oldest candidates = some c) : Unbeaten evictBefore candidates c := by
  refine unbeaten_of_foldl (fun a => by simp [evictBefore]) ?_ ?_
  · intro a b d hab hbd
    simp only [evictBefore, decide_eq_true_eq] at *
    rcases hab with hab | ⟨hab, hlt⟩ <;> rcases hbd with hbd | ⟨hbd, hlt'⟩
    · exact .inl (by omega)
    · exact .inl (by omega)
    · exact .inl (by omega)
    · exact .inr ⟨by omega, List.lt_trans hlt hlt'⟩
  · cases candidates with
    | nil => cases h
    | cons x rest =>
      rw [foldl_challenge_cons]
      exact h

theorem oldest_ne_none (h : c ∈ candidates) : oldest candidates ≠ none := by
  cases candidates with
  | nil => exact absurd h List.not_mem_nil
  | cons x rest => exact fun hnone => absurd hnone (by simp [oldest])

theorem shedLRU_spec (protectedKey : Bytes) (fuel : Nat) (s : EnvelopeStore) :
    (shedLRU P protectedKey fuel s).entries.lookup protectedKey = s.entries.lookup protectedKey ∧
      Table.Sub (shedLRU P protectedKey fuel s).entries s.entries := by
  induction fuel generalizing s with
  | zero => exact ⟨rfl, Table.Sub.refl _⟩
  | succ n ih =>
    unfold shedLRU
    split
    next =>
      split
      next => exact ⟨rfl, Table.Sub.refl _⟩
      next victim hvictim =>
        obtain ⟨hkeep, hsub⟩ := ih (evict P s victim)
        -- the candidates exclude the protected key
        have hne : protectedKey ≠ victim.1 := by
          intro heq
          have hsel := (oldest_unbeaten hvictim).mem
          have := Table.mem_select.mp (show (victim.1, victim.2) ∈ _ from hsel)
          simp [heq] at this
        rw [evict_entries] at hkeep hsub
        rw [AList.lookup_erase_ne hne] at hkeep
        exact ⟨hkeep, hsub.trans (Table.erase_sub _ _)⟩
    next => exact ⟨rfl, Table.Sub.refl _⟩

theorem enforceCap_spec (s : EnvelopeStore) (now : Int) (protectedKey : Bytes) :
    (enforceCap P s now protectedKey).entries.lookup protectedKey
        = s.entries.lookup protectedKey ∧
      Table.Sub (enforceCap P s now protectedKey).entries s.entries := by
  unfold enforceCap
  obtain ⟨hkeep, hsub⟩ := @shedLRU_spec P protectedKey
    ((s.entries.select (fun k e => k ≠ protectedKey && !alive e.env now)).foldl
      (evict P) s).entries.keys.length
    ((s.entries.select (fun k e => k ≠ protectedKey && !alive e.env now)).foldl (evict P) s)
  refine ⟨?_, hsub.trans ?_⟩
  · rw [hkeep, foldl_evict_lookup, if_neg]
    intro hmem
    obtain ⟨⟨k', e'⟩, hsel, hkey⟩ := List.mem_map.mp hmem
    have := (Table.mem_select.mp hsel).2
    simp [show k' = protectedKey from hkey] at this
  · intro k e h
    rw [foldl_evict_lookup] at h
    split at h
    next => cases h
    next => exact h

/-! ## Installing and touching -/

theorem displace_entries (s : EnvelopeStore) (k : Bytes) (env : SignedEnvelope) (now : Int) :
    (displace P s k env now).entries =
      s.entries.insert k { env, size := env.bytes.length, lastAccess := now } := by
  unfold displace
  split
  next => rw [bindWinner, retainHistory_entries]
  next => rfl

theorem install_lookup_self (s : EnvelopeStore) (k : Bytes) (env : SignedEnvelope) (now : Int) :
    (install P s k env now).entries.lookup k =
      if alive env now then some { env, size := env.bytes.length, lastAccess := now } else none := by
  unfold install
  rw [(enforceCap_spec _ now k).1, evictExpired_lookup, displace_entries, AList.lookup_insert,
    Option.filter_some]

variable {s : EnvelopeStore} {env cur : SignedEnvelope} {now : Int} {k evidence key : Bytes}

theorem install_lookup_of_ne {k' : Bytes} {e : Entry} (hne : k' ≠ k)
    (h : (install P s k env now).entries.lookup k' = some e) : s.entries.lookup k' = some e := by
  have hcap := (enforceCap_spec _ now k).2 k' e h
  rw [evictExpired_lookup, Option.filter_eq_some_iff, displace_entries,
    AList.lookup_insert_ne hne] at hcap
  exact hcap.1

theorem touch_lookup_env (s : EnvelopeStore) (k k' : Bytes) (now : Int) :
    ((touch s k now).entries.lookup k').map Entry.env
      = (s.entries.lookup k').map Entry.env := by
  unfold touch
  cases hk : s.entries.lookup k with
  | none => rfl
  | some e =>
    by_cases heq : k' = k
    · subst heq
      simp [hk]
    · simp [AList.lookup_insert_ne heq]

/-! ## Rule 3, case by case -/

/-- `ev` hands `prev` over to `owner`: it names that key, has a quorum and respects the timelock. -/
structure Declares (P : Primitives) (ev : RecoveryEvidence) (prev : SignedEnvelope)
    (owner : Bytes) : Prop where
  names : ev.newOwnerPK = owner
  quorum : ∃ policy, prev.record.recovery = some policy ∧ 1 ≤ policy.threshold ∧
    Quorum P policy ev (prev.recordHash P) ∧
    TimelockBound policy prev.record.created ev.notBefore

/-- **The recovery gate** passes the self-signed newcomer whose evidence declares the hand-over. -/
theorem recoveryAcceptable_iff {newEnv prevEnv : SignedEnvelope} :
    recoveryAcceptable P s newEnv prevEnv evidence = true ↔
      evidenceFor P s newEnv evidence ≠ [] ∧
      ∃ ev, decodeRecoveryEvidence P (evidenceFor P s newEnv evidence) = some ev ∧
        newEnv.signer = newEnv.record.owner ∧ Declares P ev prevEnv newEnv.record.owner := by
  unfold recoveryAcceptable
  by_cases hnil : evidenceFor P s newEnv evidence = []
  · simp [hnil]
  · rw [if_neg (fun h => hnil (List.length_eq_zero_iff.mp h))]
    cases hdec : decodeRecoveryEvidence P (evidenceFor P s newEnv evidence) with
    | none => simp
    | some ev =>
      -- decoding has checked the length that `VerifyRecovery` asks for again
      have hlen : ev.newOwnerPK.length = 32 := length_of_decodeRecoveryEvidence hdec
      simp only [Bool.if_false_left, Bool.and_eq_true, Bool.not_eq_true', decide_eq_false_iff_not,
        not_not, ne_eq, hnil, not_false_eq_true, true_and, Option.some.injEq, exists_eq_left',
        verifyRecovery_iff (recordHash_length prevEnv)]
      constructor
      · intro h
        obtain ⟨hself, hnames, policy, hpolicy, hthr, _, hbound, hquorum, _⟩ := h
        exact ⟨hself, hnames.trans hself, policy, hpolicy, hthr, hquorum, hbound⟩
      · intro h
        obtain ⟨hself, hnames, policy, hpolicy, hthr, hquorum, hbound⟩ := h
        exact ⟨hself, hnames.trans hself.symm, policy, hpolicy, hthr, hlen, hbound, hquorum,
          UInt64.le_refl _⟩

/-- The live parent stored names `pk`. -/
def ParentNames (P : Primitives) (s : EnvelopeStore) (name pk : Bytes) (now : Int) : Prop :=
  ∃ key parent, parentKey P name = some key ∧ s.entries.lookup key = some parent ∧
    alive parent.env now = true ∧
    (parent.env.record.owner = pk ∨ parent.env.record.delegation = some pk)

theorem parentAuthorizes_iff {newcomer incumbent : SignedEnvelope} :
    parentAuthorizes P s newcomer incumbent now = true ↔
      ParentNames P s incumbent.record.name newcomer.signer now := by
  unfold parentAuthorizes ParentNames
  cases hkey : parentKey P incumbent.record.name with
  | none => simp
  | some key =>
    cases hparent : s.entries.lookup key with
    | none | some parent => simp [hparent]

theorem parentAuthorizes_root {s : EnvelopeStore} {newcomer incumbent : SignedEnvelope}
    {now : Int} {tldID : Bytes} (h : decodeWireName incumbent.record.name = .ok ([], tldID)) :
    parentAuthorizes P s newcomer incumbent now = false := by
  unfold parentAuthorizes parentKey
  rw [h]

/-- **Every way to displace a live incumbent**: win, and chain to it as its owner or as a
recovery, or carry no link and be its owner or one its parent names. -/
theorem judgeIncumbent_install_iff :
    judgeIncumbent P s cur env now evidence = .install ↔
      env.recordHash P ≠ cur.recordHash P ∧ envelopeWins P env cur = true ∧
      ((env.record.prevHashBytes = cur.recordHash P ∧
          cur.record.sequence < env.record.sequence ∧
          (env.signer = cur.record.owner ∨ recoveryAcceptable P s env cur evidence = true)) ∨
        (env.record.hasPrevHash = false ∧
          (env.signer = cur.record.owner ∨ parentAuthorizes P s env cur now = true))) := by
  have hlink := @verifyChainLink_some_iff P env cur
  have hguards : judgeIncumbent P s cur env now evidence = .install ↔
      env.recordHash P ≠ cur.recordHash P ∧ envelopeWins P env cur = true ∧
      (env.record.hasPrevHash = true → verifyChainLink P env (some cur) = true ∧
        (env.signer = cur.record.owner ∨ recoveryAcceptable P s env cur evidence = true)) ∧
      (env.record.hasPrevHash = false →
        (env.signer = cur.record.owner ∨ parentAuthorizes P s env cur now = true)) := by
    unfold judgeIncumbent
    by_cases hsame : env.recordHash P = cur.recordHash P <;> cases envelopeWins P env cur <;>
      cases env.record.hasPrevHash <;> cases verifyChainLink P env (some cur) <;>
      cases recoveryAcceptable P s env cur evidence <;> cases parentAuthorizes P s env cur now <;>
      by_cases hown : env.signer = cur.record.owner <;> simp [hsame, hown]
  rw [hguards]
  cases hprev : env.record.hasPrevHash with
  | false =>
    -- no link is asserted, so the first alternative is out
    have hne : env.record.prevHashBytes ≠ cur.recordHash P := by
      intro heq
      rw [hasPrevHash_of_eq_recordHash heq] at hprev
      cases hprev
    simp [hne]
  | true =>
    rw [hprev] at hlink
    simp only [true_imp_iff] at hlink
    simp [hlink, and_assoc]

theorem judgeIncumbent_refresh_iff :
    judgeIncumbent P s cur env now evidence = .refresh ↔
      env.recordHash P = cur.recordHash P := by
  unfold judgeIncumbent
  by_cases hsame : env.recordHash P = cur.recordHash P
  · simp [hsame]
  · simp only [hsame, if_false, iff_false]
    split_ifs <;> simp

/-! ## Puts and gets -/

theorem judge_of_alive {cur : Entry} (hcur : s.entries.lookup k = some cur)
    (halive : alive cur.env now = true) :
    judge P s k env now evidence = judgeIncumbent P s cur.env env now evidence := by
  unfold judge
  simp [hcur, halive]

theorem judge_of_empty (h : ∀ cur, s.entries.lookup k = some cur → alive cur.env now = false) :
    judge P s k env now evidence = .install := by
  unfold judge
  cases hk : s.entries.lookup k with
  | none => rfl
  | some cur => simp [h cur hk]

section
variable (hkey : key.length = 32) (hsig : verify = true → env.verifySignature P = true)
include hkey hsig

theorem putWithEvidence_eq :
    putWithEvidence P s key env now verify evidence =
      enact P s key env now (judge P s key env now evidence) := by
  unfold putWithEvidence
  rw [if_neg (by simp [hkey])]
  cases verify with
  | false => rfl
  | true => simp [hsig rfl]

theorem putWithEvidence_accepted_iff :
    (putWithEvidence P s key env now verify evidence).1 = .ok true ↔
      judge P s key env now evidence ≠ .refuse := by
  rw [putWithEvidence_eq hkey hsig]
  cases judge P s key env now evidence with
  | refuse | refresh | install => simp [enact]

end

theorem judgeIncumbent_ne_refuse_iff (hne : env.recordHash P ≠ cur.recordHash P) :
    judgeIncumbent P s cur env now evidence ≠ .refuse ↔
      judgeIncumbent P s cur env now evidence = .install := by
  have hrefresh : judgeIncumbent P s cur env now evidence ≠ .refresh :=
    fun h => hne (judgeIncumbent_refresh_iff.mp h)
  cases hv : judgeIncumbent P s cur env now evidence with
  | refuse => simp
  | refresh => exact absurd hv hrefresh
  | install => simp

theorem get_eq_ok_some_iff (hkey : key.length = 32) :
    (get P s key now).1 = .ok (some env) ↔
      ∃ e, s.entries.lookup key = some e ∧ e.env = env ∧ alive env now = true := by
  unfold get
  rw [if_neg (by simp [hkey])]
  cases hk : s.entries.lookup key with
  | none => simp
  | some e =>
    by_cases halive : alive e.env now = true
    · simp only [halive, Bool.not_true, Bool.false_eq_true, if_false, Except.ok.injEq,
        Option.some.injEq, exists_eq_left']
      constructor
      · intro h
        exact ⟨h, h ▸ halive⟩
      · intro h
        exact h.1
    · simp only [Bool.eq_false_iff.mpr halive, Bool.not_false, if_true, Except.ok.injEq,
        reduceCtorEq, Option.some.injEq, exists_eq_left', false_iff, not_and]
      intro heq
      exact heq ▸ halive

end Freens.Dht
