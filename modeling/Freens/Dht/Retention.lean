/-
**WHAT THE SIDE TABLES KEEP** (`dht/store.go`: `retainHistoryLocked`;
`dht/evidence.go`: `putEvidenceLocked`): when each call of the store stays under
the bounds of the history and the evidence table, and what they hold after it.
-/
import Freens.Dht.Acceptance

namespace Freens.Dht

open Library Naming Wire

/-! ## The history under its bounds -/

section
variable (P : Primitives)

/-- The bounds take nothing when `e` enters the history. -/
def FitsHistory (s : EnvelopeStore) (e : Entry) : Prop :=
  (insertHistory P s e).history.keys.length ≤ historyMax ∧
    (insertHistory P s e).historyBytes ≤ s.histMaxBytes

instance (s : EnvelopeStore) (e : Entry) : Decidable (FitsHistory P s e) :=
  inferInstanceAs (Decidable (_ ∧ _))

/-- The entries the byte cap pushes out, in order. -/
def shedVictims (protectedKey : Bytes) : Nat → EnvelopeStore → List (Bytes × Entry)
  | 0, _ => []
  | fuel + 1, s =>
    if s.bytes > s.maxBytes ∧ s.entries.keys.length > 1 then
      match oldest (s.entries.select (fun k _ => k ≠ protectedKey)) with
      | none => []
      | some victim => victim :: shedVictims protectedKey fuel (evict P s victim)
    else []

/-- What the sweeps after an install drop, in order: the expired, the dead, and those the
cap pushes out. -/
def sweepVictims (s : EnvelopeStore) (k : Bytes) (now : Int) : List (Bytes × Entry) :=
  let expired := s.entries.select (fun _ e => !alive e.env now)
  let s₁ := expired.foldl (evict P) s
  let dead := s₁.entries.select (fun k' e => k' ≠ k && !alive e.env now)
  let s₂ := dead.foldl (evict P) s₁
  expired ++ (dead ++ shedVictims P k s₂.entries.keys.length s₂)

/-- Neither the displaced entry nor a swept one finds the history full. -/
def InstallFits (s : EnvelopeStore) (k : Bytes) (env : SignedEnvelope) (now : Int) : Prop :=
  (∀ cur ∈ s.entries.lookup k, FitsHistory P s cur) ∧
    EachStep (evict P) (fun s victim => FitsHistory P s victim.2) (displace P s k env now)
      (sweepVictims P (displace P s k env now) k now)

instance (s : EnvelopeStore) (k : Bytes) (env : SignedEnvelope) (now : Int) :
    Decidable (InstallFits P s k env now) :=
  inferInstanceAs (Decidable (_ ∧ _))

end

variable {P : Primitives} {s : EnvelopeStore} {fuel : Nat} {e cur : Entry} {hash k : Bytes}
  {env newcomer : SignedEnvelope} {now : Int} {Q : SignedEnvelope → Prop}

theorem boundHistory_of_fits (hcount : s.history.keys.length ≤ historyMax)
    (hbytes : s.historyBytes ≤ s.histMaxBytes) : boundHistory fuel s = s := by
  cases fuel with
  | zero => rfl
  | succ fuel =>
    unfold boundHistory
    rw [if_neg (by omega)]

theorem retainHistory_of_fits (h : FitsHistory P s e) : retainHistory P s e = insertHistory P s e :=
  boundHistory_of_fits (s := insertHistory P s e) h.1 h.2

theorem Entry.sized_env (e : Entry) : e.sized.env = e.env := by
  unfold Entry.sized
  split <;> rfl

theorem getHistory_eq (hlen : hash.length = 32) :
    getHistory s hash = (s.history.lookup hash).map Entry.env := by
  unfold getHistory
  exact if_neg (not_not.mpr hlen)

theorem getHistory_retain (h : FitsHistory P s e) (hash : Bytes) :
    getHistory (retainHistory P s e) hash =
      if hash = e.env.recordHash P then some e.env else getHistory s hash := by
  rw [retainHistory_of_fits h]
  by_cases hlen : hash.length = 32
  · rw [getHistory_eq hlen, getHistory_eq hlen]
    show ((s.history.insert (e.env.recordHash P) e.sized).lookup hash).map Entry.env = _
    by_cases hself : hash = e.env.recordHash P
    · rw [if_pos hself, hself, AList.lookup_insert, Option.map_some, Entry.sized_env]
    · rw [if_neg hself, AList.lookup_insert_ne hself]
  · have hself : hash ≠ e.env.recordHash P := by
      intro heq
      rw [heq] at hlen
      exact hlen (recordHash_length e.env)
    rw [if_neg hself, getHistory, getHistory, if_pos hlen, if_pos hlen]

/-- The history has the envelope under its hash. -/
def Remembers (P : Primitives) (s : EnvelopeStore) (env : SignedEnvelope) : Prop :=
  getHistory s (env.recordHash P) = some env

theorem remembers_retained (h : FitsHistory P s e) : Remembers P (retainHistory P s e) e.env := by
  unfold Remembers
  rw [getHistory_retain h, if_pos rfl]

theorem Remembers.retain (hs : Remembers P s env) (h : FitsHistory P s e)
    (hcoll : e.env.recordHash P = env.recordHash P → e.env = env) :
    Remembers P (retainHistory P s e) env := by
  unfold Remembers
  rw [getHistory_retain h]
  split
  next hsame => rw [hcoll hsame.symm]
  next => exact hs

/-! ## Sweeps and installs -/

theorem shedLRU_eq_foldl (protectedKey : Bytes) (fuel : Nat) (s : EnvelopeStore) :
    shedLRU P protectedKey fuel s = (shedVictims P protectedKey fuel s).foldl (evict P) s := by
  induction fuel generalizing s with
  | zero => rfl
  | succ fuel ih =>
    unfold shedLRU shedVictims
    split
    · cases oldest (s.entries.select (fun k _ => k ≠ protectedKey)) with
      | none => rfl
      | some victim => exact ih (evict P s victim)
    · rfl

theorem install_eq_foldl (s : EnvelopeStore) (k : Bytes) (env : SignedEnvelope) (now : Int) :
    install P s k env now =
      (sweepVictims P (displace P s k env now) k now).foldl (evict P) (displace P s k env now) := by
  unfold install enforceCap evictExpired sweepVictims
  dsimp only
  rw [List.foldl_append, List.foldl_append, ← shedLRU_eq_foldl]

theorem foldl_evict_sub (victims : List (Bytes × Entry)) (s : EnvelopeStore) :
    Table.Sub (victims.foldl (evict P) s).entries s.entries := by
  intro k e h
  rw [foldl_evict_lookup] at h
  split at h
  next => cases h
  next => exact h

theorem shedVictims_bound {protectedKey : Bytes} :
    ∀ {s : EnvelopeStore}, ∀ v ∈ shedVictims P protectedKey fuel s,
      s.entries.lookup v.1 = some v.2 := by
  induction fuel with
  | zero =>
    intro s v hv
    exact absurd hv List.not_mem_nil
  | succ fuel ih =>
    intro s v hv
    unfold shedVictims at hv
    split at hv
    · split at hv
      next => exact absurd hv List.not_mem_nil
      next victim hold =>
        rcases List.mem_cons.mp hv with hhead | htail
        · rw [hhead]
          exact (Table.mem_select.mp (oldest_unbeaten hold).mem).1
        · -- a later victim was bound before the first one went
          have hbound := ih v htail
          rw [evict_entries] at hbound
          exact Table.erase_sub _ _ _ _ hbound
    · exact absurd hv List.not_mem_nil

theorem sweepVictims_bound : ∀ v ∈ sweepVictims P s k now, s.entries.lookup v.1 = some v.2 := by
  intro v hv
  unfold sweepVictims at hv
  dsimp only at hv
  rcases List.mem_append.mp hv with hexpired | hrest
  · exact (Table.mem_select.mp hexpired).1
  · rcases List.mem_append.mp hrest with hdead | hshed
    · exact foldl_evict_sub _ s _ _ (Table.mem_select.mp hdead).1
    · exact foldl_evict_sub _ s _ _ (foldl_evict_sub _ _ _ _ (shedVictims_bound v hshed))

theorem Remembers.sweep {victims : List (Bytes × Entry)} {s : EnvelopeStore}
    (hs : Remembers P s env)
    (hfits : EachStep (evict P) (fun s victim => FitsHistory P s victim.2) s victims)
    (hcoll : ∀ v ∈ victims, v.2.env.recordHash P = env.recordHash P → v.2.env = env) :
    Remembers P (victims.foldl (evict P) s) env := by
  induction victims generalizing s with
  | nil => exact hs
  | cons v victims ih =>
    have hnext : Remembers P (evict P s v) env :=
      hs.retain hfits.1 (hcoll v List.mem_cons_self)
    exact ih hnext hfits.2 (fun w hw => hcoll w (List.mem_cons_of_mem v hw))

/-- No other envelope shares the hash. -/
def Alone (P : Primitives) (s : EnvelopeStore) (newcomer env : SignedEnvelope) : Prop :=
  (∀ k e, Holds s k e → e.recordHash P = env.recordHash P → e = env) ∧
    (newcomer.recordHash P = env.recordHash P → newcomer = env)

theorem Alone.victims (h : Alone P s newcomer env) :
    ∀ v ∈ sweepVictims P (displace P s k newcomer now) k now,
      v.2.env.recordHash P = env.recordHash P → v.2.env = env := by
  intro v hv
  have hbound := sweepVictims_bound v hv
  rw [displace_entries] at hbound
  rcases Table.lookup_insert_cases hbound with ⟨_, hself⟩ | ⟨_, hold⟩
  · rw [hself]
    exact h.2
  · exact h.1 v.1 v.2.env (holds_of_lookup hold)

theorem getHistory_displace (hcur : s.entries.lookup k = some cur) (hash : Bytes) :
    getHistory (displace P s k newcomer now) hash = getHistory (retainHistory P s cur) hash := by
  unfold displace
  rw [hcur]
  rfl

theorem Remembers.install (hs : Remembers P s env) (hfits : InstallFits P s k newcomer now)
    (halone : Alone P s newcomer env) : Remembers P (install P s k newcomer now) env := by
  rw [install_eq_foldl]
  refine Remembers.sweep ?_ hfits.2 halone.victims
  cases hcur : s.entries.lookup k with
  | none =>
    unfold displace
    rw [hcur]
    exact hs
  | some cur =>
    unfold Remembers
    rw [getHistory_displace hcur]
    exact hs.retain (hfits.1 cur hcur) (halone.1 k cur.env (holds_of_lookup hcur))

theorem remembers_displaced (hcur : s.entries.lookup k = some cur)
    (hfits : InstallFits P s k newcomer now) (halone : Alone P s newcomer cur.env) :
    Remembers P (install P s k newcomer now) cur.env := by
  rw [install_eq_foldl]
  refine Remembers.sweep ?_ hfits.2 halone.victims
  unfold Remembers
  rw [getHistory_displace hcur]
  exact remembers_retained (hfits.1 cur hcur)

theorem getHistory_touch (s : EnvelopeStore) (k : Bytes) (now : Int) (hash : Bytes) :
    getHistory (touch s k now) hash = getHistory s hash := by
  unfold touch
  split <;> rfl

/-! ## What the bounds may take.

A history at its bounds forgets, but it never answers with another envelope. -/

/-- What the history yields under the hash, if anything, satisfies `Q`. -/
def Yields (s : EnvelopeStore) (hash : Bytes) (Q : SignedEnvelope → Prop) : Prop :=
  ∀ env, getHistory s hash = some env → Q env

theorem Remembers.yields (h : Remembers P s env) : Yields s (env.recordHash P) (· = env) := by
  intro x hx
  rw [h, Option.some.injEq] at hx
  exact hx.symm

theorem evictHistoryOldest_sub (s : EnvelopeStore) :
    Table.Sub (evictHistoryOldest s).history s.history := by
  unfold evictHistoryOldest
  split
  next => exact Table.Sub.refl _
  next => exact Table.erase_sub _ _

theorem boundHistory_sub (fuel : Nat) (s : EnvelopeStore) :
    Table.Sub (boundHistory fuel s).history s.history := by
  induction fuel generalizing s with
  | zero => exact Table.Sub.refl _
  | succ fuel ih =>
    unfold boundHistory
    split
    next => exact (ih (evictHistoryOldest s)).trans (evictHistoryOldest_sub s)
    next => exact Table.Sub.refl _

theorem yields_retain (hself : hash = e.env.recordHash P → Q e.env)
    (hother : hash ≠ e.env.recordHash P → Yields s hash Q) :
    Yields (retainHistory P s e) hash Q := by
  intro env henv
  by_cases hlen : hash.length = 32
  · rw [getHistory_eq hlen, Option.map_eq_some_iff] at henv
    obtain ⟨kept, hkept, hkeptEnv⟩ := henv
    have hbefore : (s.history.insert (e.env.recordHash P) e.sized).lookup hash = some kept :=
      boundHistory_sub _ (insertHistory P s e) _ _ hkept
    rcases Table.lookup_insert_cases hbefore with ⟨hsame, rfl⟩ | ⟨hne, hold⟩
    · rw [← hkeptEnv, Entry.sized_env]
      exact hself hsame
    · refine hother hne env ?_
      rw [getHistory_eq hlen, hold, Option.map_some, hkeptEnv]
  · rw [getHistory, if_pos hlen] at henv
    cases henv

theorem Yields.sweep {victims : List (Bytes × Entry)} {s : EnvelopeStore} (hs : Yields s hash Q)
    (hvictims : ∀ v ∈ victims, hash = v.2.env.recordHash P → Q v.2.env) :
    Yields (victims.foldl (evict P) s) hash Q := by
  induction victims generalizing s with
  | nil => exact hs
  | cons v victims ih =>
    have hnext : Yields (evict P s v) hash Q :=
      yields_retain (hvictims v List.mem_cons_self) (fun _ => hs)
    exact ih hnext (fun w hw => hvictims w (List.mem_cons_of_mem v hw))

theorem yields_install (hcur : s.entries.lookup k = some cur)
    (hretained : Yields (retainHistory P s cur) hash Q)
    (hvictims : ∀ v ∈ sweepVictims P (displace P s k newcomer now) k now,
      hash = v.2.env.recordHash P → Q v.2.env) : Yields (install P s k newcomer now) hash Q := by
  rw [install_eq_foldl]
  refine Yields.sweep ?_ hvictims
  intro env henv
  rw [getHistory_displace hcur] at henv
  exact hretained env henv

theorem yields_install_alone (hcur : s.entries.lookup k = some cur)
    (hkept : env = cur.env ∨ Remembers P s env) (halone : Alone P s newcomer env) :
    Yields (install P s k newcomer now) (env.recordHash P) (· = env) := by
  have hslot := halone.1 k cur.env (holds_of_lookup hcur)
  refine yields_install hcur (yields_retain (fun hsame => hslot hsame.symm) ?_) ?_
  · intro hne
    rcases hkept with hcurrent | hs
    · exact absurd (hcurrent ▸ rfl) hne
    · exact hs.yields
  · intro v hv hsame
    exact halone.victims v hv hsame.symm

theorem oldest_first {candidates : List (Bytes × Entry)} {c : Bytes × Entry}
    (h : oldest candidates = some c) : ∀ d ∈ candidates, c.2.lastAccess ≤ d.2.lastAccess := by
  intro d hd
  have hlost := (oldest_unbeaten h).top d hd
  simp only [evictBefore, decide_eq_false_iff_not, not_or] at hlost
  omega

theorem evictHistoryOldest_eq (hbound : s.history.lookup hash = some e)
    (hlater : ∀ other old, other ≠ hash → s.history.lookup other = some old →
      e.lastAccess < old.lastAccess) : (evictHistoryOldest s).history = s.history.erase hash := by
  unfold evictHistoryOldest
  have hmem : (hash, e) ∈ s.history.select (fun _ _ => true) := Table.mem_select.mpr ⟨hbound, rfl⟩
  split
  next hnone => exact absurd hnone (oldest_ne_none hmem)
  next victim old hold =>
    have hfirst : old.lastAccess ≤ e.lastAccess := oldest_first hold _ hmem
    have hvictim : victim = hash := by
      by_contra hne
      have hlate := hlater victim old hne (Table.mem_select.mp (oldest_unbeaten hold).mem).1
      omega
    rw [hvictim]

theorem retain_full_forgets (hfull : historyMax ≤ s.history.keys.length)
    (hfree : s.history.lookup (e.env.recordHash P) = none)
    (hlater : ∀ hash old, s.history.lookup hash = some old → e.lastAccess < old.lastAccess) :
    getHistory (retainHistory P s e) (e.env.recordHash P) = none := by
  have hcount : (insertHistory P s e).history.keys.length = s.history.keys.length + 1 :=
    Table.length_keys_insert_of_free hfree _
  have hover : (insertHistory P s e).history.keys.length > historyMax := by
    rw [hcount]
    exact Nat.lt_succ_of_le hfull
  have hmany : (insertHistory P s e).history.keys.length > 1 :=
    Nat.lt_trans (by decide : 1 < historyMax) hover
  -- the first round of the loop takes the entry out again
  have hround : (evictHistoryOldest (insertHistory P s e)).history
      = (insertHistory P s e).history.erase (e.env.recordHash P) := by
    refine evictHistoryOldest_eq (AList.lookup_insert _) ?_
    intro other old hne hold
    have haccess : e.sized.lastAccess = e.lastAccess := by
      unfold Entry.sized
      split <;> rfl
    rw [haccess]
    exact hlater other old ((AList.lookup_insert_ne hne).symm.trans hold)
  have hgone : Table.Sub (retainHistory P s e).history
      ((insertHistory P s e).history.erase (e.env.recordHash P)) := by
    show Table.Sub (boundHistory (insertHistory P s e).history.keys.length
      (insertHistory P s e)).history _
    rw [hcount, boundHistory, if_pos ⟨.inl hover, hmany⟩, ← hround]
    exact boundHistory_sub _ _
  rw [getHistory_eq (recordHash_length e.env), Option.map_eq_none_iff,
    Option.eq_none_iff_forall_not_mem]
  intro kept hkept
  have hstill := hgone _ _ hkept
  rw [AList.lookup_erase] at hstill
  cases hstill

/-! ## The evidence under its bounds -/

/-- The bounds take nothing when the blob enters. -/
def FitsEvidence (s : EnvelopeStore) (k raw : Bytes) : Prop :=
  (bindEvidence s k raw).evidence.keys.length ≤ evidenceMax ∧
    (bindEvidence s k raw).evidenceBytes ≤ s.evidMaxBytes

instance (s : EnvelopeStore) (k raw : Bytes) : Decidable (FitsEvidence s k raw) :=
  inferInstanceAs (Decidable (_ ∧ _))

theorem boundEvidence_of_fits (hcount : s.evidence.keys.length ≤ evidenceMax)
    (hbytes : s.evidenceBytes ≤ s.evidMaxBytes) : boundEvidence fuel s = s := by
  cases fuel with
  | zero => rfl
  | succ fuel =>
    unfold boundEvidence
    rw [if_neg (by omega)]

theorem insertEvidence_of_fits {raw : Bytes} (h : FitsEvidence s k raw) (hash : Bytes) :
    (insertEvidence s k raw).evidence.lookup hash =
      if hash = k then some raw else s.evidence.lookup hash := by
  have hlimit : (bindEvidence s k raw).evidMaxBytes = s.evidMaxBytes := by rw [bindEvidence_frame]
  have htable : (bindEvidence s k raw).evidence = s.evidence.insert k raw := by
    rw [bindEvidence_frame]
  rw [insertEvidence_eq, boundEvidence_of_fits h.1 (hlimit ▸ h.2), htable]
  by_cases hk : hash = k
  · rw [if_pos hk, hk, AList.lookup_insert]
  · rw [if_neg hk, AList.lookup_insert_ne hk]

/-- The put has evidence that can be kept. -/
def Carries (P : Primitives) (evidence : Bytes) : Prop :=
  evidence ≠ [] ∧ wellFormedBlob P evidence

instance (P : Primitives) (evidence : Bytes) : Decidable (Carries P evidence) :=
  inferInstanceAs (Decidable (_ ∧ _ ∧ _))

variable {evidence : Bytes}

theorem retainEvidence_of_fits (hcarries : Carries P evidence)
    (hfits : FitsEvidence s (env.recordHash P) evidence) (hash : Bytes) :
    (retainEvidence P s env evidence).evidence.lookup hash =
      if hash = env.recordHash P then some evidence else s.evidence.lookup hash := by
  unfold retainEvidence
  rw [if_neg (fun h => hcarries.1 (List.length_eq_zero_iff.mp h)), putEvidence_eq,
    if_pos ⟨recordHash_length env, hcarries.2⟩]
  exact insertEvidence_of_fits hfits hash

theorem retainEvidence_of_not_carries
    (h : ¬ Carries P evidence) : retainEvidence P s env evidence = s := by
  unfold retainEvidence
  split
  next => rfl
  next hne =>
    rw [putEvidence_eq, if_neg]
    intro hok
    exact h ⟨fun hnil => hne (by rw [hnil]; rfl), hok.2⟩

theorem retainEvidence_history (s : EnvelopeStore) (env : SignedEnvelope) (evidence : Bytes) :
    (retainEvidence P s env evidence).history = s.history := by
  rw [retainEvidence_frame]

end Freens.Dht
