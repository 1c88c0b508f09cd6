/-
**MEMOIZED SIGNATURE VERIFICATION** (`crypto/verify_cache.go`,
`wire/sigmemo.go`): a direct-mapped table of verdicts, and a map above it that is
dropped whole when it is full.

Calls run concurrently: each is cut at its accesses to the shared state, and a
run is any interleaving of these steps.
-/
import Freens.Library.Run
import Freens.Library.Table
import Freens.Toy

namespace Freens.Crypto

open Library

/-! ## The two caches -/

abbrev verifyCacheBits : Nat := 13
abbrev verifyCacheSlots : Nat := 2 ^ verifyCacheBits
abbrev sigMemoSize : Nat := 8192

/-- One slot: a digest and its verdict. -/
structure VerifyCacheEntry where
  key : Bytes
  ok : Bool
  deriving DecidableEq, Repr

/-- The first eight bytes, big-endian. -/
def leadingWord (key : Bytes) : UInt64 :=
  (key.take 8).foldl (fun v b => v <<< 8 ||| b.toUInt64) 0

/-- Fibonacci hashing: the thirteen high bits of a wrapping product. -/
def verifyCacheSlot (key : Bytes) : Fin verifyCacheSlots :=
  ⟨((leadingWord key * 0x9E3779B97F4A7C15) >>> 51).toNat, by
    have hlt := (leadingWord key * 0x9E3779B97F4A7C15).toNat_lt
    rw [UInt64.toNat_shiftRight, Nat.shiftRight_eq_div_pow]
    show _ / 2 ^ 51 < 2 ^ 13
    omega⟩

/-- Key and signature have Ed25519's lengths. -/
def WellSized (publicKey signature : Bytes) : Prop :=
  publicKey.length = Constants.ed25519PublicKeyLen ∧
    signature.length = Constants.ed25519SignatureLen

instance (publicKey signature : Bytes) : Decidable (WellSized publicKey signature) :=
  inferInstanceAs (Decidable (_ ∧ _))

section
variable (P : Primitives)

/-- `verifyCacheKey` and `sigMemoKey`: the hash of the three inputs in a row. -/
def verifyCacheKey (publicKey signature message : Bytes) : Bytes :=
  P.sha256 (publicKey ++ signature ++ message)

/-! ## Calls, cut at their accesses to the caches -/

/-- Where a call stands. `memoize`: the verdict will be filed in the map. -/
inductive CallPoint where
  /-- `VerifyMemoized`, before it looks into the map. -/
  | memoLookup
  /-- `Verify`, before it loads the slot. -/
  | slotLoad (memoize : Bool)
  /-- `verifyMemoized`, with a fresh verdict to store in the slot. -/
  | slotStore (memoize ok : Bool)
  /-- `VerifyMemoized`, with a verdict to file in the map. -/
  | memoStore (ok : Bool)
  | returned (ok : Bool)
  deriving DecidableEq, Repr

/-- One verification under way. -/
structure Call where
  publicKey : Bytes
  signature : Bytes
  message : Bytes
  point : CallPoint
  deriving DecidableEq, Repr

/-- Both caches and the calls in progress. -/
structure MemoState where
  slots : Fin verifyCacheSlots → Option VerifyCacheEntry
  sigMemo : Table Bytes Bool
  calls : List Call

/-- Empty caches, no call. -/
def MemoState.new : MemoState := ⟨fun _ => none, ∅, []⟩

/-- `Verify` hands its verdict back to `VerifyMemoized`, or to its own caller. -/
def handBack (memoize ok : Bool) : CallPoint := if memoize then .memoStore ok else .returned ok

/-- The insertion at the end of `VerifyMemoized`: a full map is dropped first. -/
def fileVerdict (sigMemo : Table Bytes Bool) (key : Bytes) (ok : Bool) : Table Bytes Bool :=
  (if sigMemo.keys.length ≥ sigMemoSize then ∅ else sigMemo).insert key ok

/-- A slot written. -/
def storeSlot (slots : Fin verifyCacheSlots → Option VerifyCacheEntry) (e : VerifyCacheEntry) :
    Fin verifyCacheSlots → Option VerifyCacheEntry :=
  fun i => if i = verifyCacheSlot e.key then some e else slots i

/-- The next step of a call: both caches after it, and where the call is then. -/
def callStep (s : MemoState) (c : Call) :
    (Fin verifyCacheSlots → Option VerifyCacheEntry) × Table Bytes Bool × CallPoint :=
  let key := verifyCacheKey P c.publicKey c.signature c.message
  match c.point with
  | .memoLookup =>
    -- malformed inputs pass the map by, in both directions
    if ¬ WellSized c.publicKey c.signature then (s.slots, s.sigMemo, .slotLoad false)
    else match s.sigMemo.lookup key with
      | some v => (s.slots, s.sigMemo, .returned v)
      | none => (s.slots, s.sigMemo, .slotLoad true)
  | .slotLoad memoize =>
    if ¬ WellSized c.publicKey c.signature then (s.slots, s.sigMemo, handBack memoize false)
    else match (s.slots (verifyCacheSlot key)).filter (·.key = key) with
      | some e => (s.slots, s.sigMemo, handBack memoize e.ok)
      | none => (s.slots, s.sigMemo,
          .slotStore memoize (P.ed25519Verify c.publicKey c.signature c.message))
  | .slotStore memoize ok => (storeSlot s.slots ⟨key, ok⟩, s.sigMemo, handBack memoize ok)
  | .memoStore ok => (s.slots, fileVerdict s.sigMemo key ok, .returned ok)
  | .returned ok => (s.slots, s.sigMemo, .returned ok)

/-- A call begins, or one of them moves on. -/
inductive MemoEvent where
  | verifyMemoized (publicKey signature message : Bytes)
  | verify (publicKey signature message : Bytes)
  | advance (i : Nat)
  deriving DecidableEq, Repr

/-- One interleaving step. -/
def memoStep (s : MemoState) : MemoEvent → MemoState
  | .verifyMemoized pk sig msg => { s with calls := s.calls ++ [⟨pk, sig, msg, .memoLookup⟩] }
  | .verify pk sig msg => { s with calls := s.calls ++ [⟨pk, sig, msg, .slotLoad false⟩] }
  | .advance i =>
    match s.calls[i]? with
    | none => s
    | some c =>
      let (slots, sigMemo, next) := callStep P s c
      { slots, sigMemo, calls := s.calls.set i { c with point := next } }

theorem memoStep_advance {s : MemoState} {i : Nat} {c : Call} (hi : s.calls[i]? = some c) :
    memoStep P s (.advance i) =
      { slots := (callStep P s c).1
        sigMemo := (callStep P s c).2.1
        calls := s.calls.set i { c with point := (callStep P s c).2.2 } } := by
  simp only [memoStep, hi]

theorem memoStep_advance_none {s : MemoState} {i : Nat} (hi : s.calls[i]? = none) :
    memoStep P s (.advance i) = s := by
  simp only [memoStep, hi]

/-- A run of the caches from the start. -/
def memoRun (events : List MemoEvent) : MemoState := events.foldl (memoStep P) MemoState.new

end

/-- The inputs an event brings to the hash: those of a well-sized call. -/
def MemoEvent.hashed : MemoEvent → Option Bytes
  | .verifyMemoized pk sig msg | .verify pk sig msg =>
    if WellSized pk sig then some (pk ++ sig ++ msg) else none
  | .advance _ => none

/-- **SHA-256 is injective on the inputs seen** in a run. -/
def HashInjectiveOn (P : Primitives) (events : List MemoEvent) : Prop :=
  ∀ x ∈ events.filterMap MemoEvent.hashed, ∀ y ∈ events.filterMap MemoEvent.hashed,
    P.sha256 x = P.sha256 y → x = y

/-! ## Where a stored verdict comes from -/

variable {P : Primitives}

/-- A stored pair is the verdict of a well-sized call with that key. -/
structure Filed (P : Primitives) (calls : List Call) (key : Bytes) (ok : Bool) : Prop where
  origin : ∃ c ∈ calls, WellSized c.publicKey c.signature ∧
    key = verifyCacheKey P c.publicKey c.signature c.message ∧
    ok = P.ed25519Verify c.publicKey c.signature c.message

/-- What holds of a call at each point: a verdict it carries is its own. -/
def AtPoint (P : Primitives) (c : Call) : CallPoint → Prop
  | .memoLookup => True
  | .slotLoad memoize => memoize = true → WellSized c.publicKey c.signature
  | .slotStore _ ok => WellSized c.publicKey c.signature ∧
      ok = P.ed25519Verify c.publicKey c.signature c.message
  | .memoStore ok => WellSized c.publicKey c.signature ∧
      ok = P.ed25519Verify c.publicKey c.signature c.message
  | .returned ok => ok = verify P c.publicKey c.signature c.message

/-- **The invariant** of the process. -/
structure Transparent (P : Primitives) (s : MemoState) : Prop where
  slots : ∀ i e, s.slots i = some e → Filed P s.calls e.key e.ok
  memo : ∀ k v, s.sigMemo.lookup k = some v → Filed P s.calls k v
  calls : ∀ c ∈ s.calls, AtPoint P c c.point
  bound : s.sigMemo.keys.length ≤ sigMemoSize

variable {sig msg pk key : Bytes} {s : MemoState} {seen : List Bytes} {c : Call} {ok : Bool}

theorem verify_of_wellSized (h : WellSized pk sig) :
    verify P pk sig msg = P.ed25519Verify pk sig msg := by
  unfold verify
  rw [if_neg]
  rw [not_or, not_not, not_not]
  exact h

theorem verify_of_not_wellSized (h : ¬ WellSized pk sig) : verify P pk sig msg = false := by
  unfold verify
  rw [if_pos]
  by_contra hneg
  rw [not_or, not_not, not_not] at hneg
  exact h hneg

theorem eq_of_concat_eq {pk' sig' msg' : Bytes} (h : WellSized pk sig) (h' : WellSized pk' sig')
    (heq : pk ++ sig ++ msg = pk' ++ sig' ++ msg') : pk = pk' ∧ sig = sig' ∧ msg = msg' := by
  have hlen : (pk ++ sig).length = (pk' ++ sig').length := by
    rw [List.length_append, List.length_append, h.1, h.2, h'.1, h'.2]
  obtain ⟨hpair, hmsg⟩ := List.append_inj heq hlen
  obtain ⟨hpk, hsig⟩ := List.append_inj hpair (h.1.trans h'.1.symm)
  exact ⟨hpk, hsig, hmsg⟩

/-- Every call's triple is among those seen. -/
def CallsSeen (seen : List Bytes) (s : MemoState) : Prop :=
  ∀ c ∈ s.calls, WellSized c.publicKey c.signature →
    c.publicKey ++ c.signature ++ c.message ∈ seen

/-- **A hit is the caller's own verdict**, where the hash separates the inputs seen. -/
theorem Filed.verdict (hinj : ∀ x ∈ seen, ∀ y ∈ seen, P.sha256 x = P.sha256 y → x = y)
    (hseen : CallsSeen seen s) (hc : c ∈ s.calls) (hsize : WellSized c.publicKey c.signature)
    (h : Filed P s.calls (verifyCacheKey P c.publicKey c.signature c.message) ok) :
    ok = P.ed25519Verify c.publicKey c.signature c.message := by
  obtain ⟨d, hd, hdsize, hkey, hok⟩ := h.origin
  have hconcat := hinj _ (hseen c hc hsize) _ (hseen d hd hdsize) hkey
  obtain ⟨hpk, hsig, hmsg⟩ := eq_of_concat_eq hsize hdsize hconcat
  rw [hok, hpk, hsig, hmsg]

theorem Filed.mono {calls calls' : List Call} (h : Filed P calls key ok)
    (hkeep : ∀ c ∈ calls, ∃ c' ∈ calls', c'.publicKey = c.publicKey ∧
      c'.signature = c.signature ∧ c'.message = c.message) : Filed P calls' key ok := by
  obtain ⟨c, hc, hsize, hkey, hok⟩ := h.origin
  obtain ⟨c', hc', hpk, hsig, hmsg⟩ := hkeep c hc
  exact ⟨c', hc', by rw [hpk, hsig]; exact hsize, by rw [hpk, hsig, hmsg]; exact hkey,
    by rw [hpk, hsig, hmsg]; exact hok⟩

/-! ## One step -/

theorem atPoint_handBack {memoize : Bool} (hok : ok = verify P c.publicKey c.signature c.message)
    (hsize : memoize = true → WellSized c.publicKey c.signature) :
    AtPoint P c (handBack memoize ok) := by
  cases memoize with
  | false => exact hok
  | true => exact ⟨hsize rfl, by rw [hok, verify_of_wellSized (hsize rfl)]⟩

variable {t : Table Bytes Bool} {i : Nat}

theorem fileVerdict_bound : (fileVerdict t key ok).keys.length ≤ sigMemoSize := by
  unfold fileVerdict
  split
  next => exact (Table.length_keys_insert_le ∅ key ok).trans (by decide)
  next hroom =>
    have := Table.length_keys_insert_le t key ok
    omega

theorem lookup_fileVerdict {k : Bytes} {v : Bool} (h : (fileVerdict t key ok).lookup k = some v) :
    (k = key ∧ v = ok) ∨ t.lookup k = some v := by
  unfold fileVerdict at h
  rcases Table.lookup_insert_cases h with hnew | ⟨_, hold⟩
  · exact .inl hnew
  · split at hold
    next => cases hold
    next => exact .inr hold

/-- **What one step of a call does**: what it leaves in the caches was there or is the
call's own verdict. -/
theorem callStep_spec (hinj : ∀ x ∈ seen, ∀ y ∈ seen, P.sha256 x = P.sha256 y → x = y)
    (hseen : CallsSeen seen s) (hs : Transparent P s) (hc : c ∈ s.calls) :
    (∀ i e, (callStep P s c).1 i = some e → Filed P s.calls e.key e.ok) ∧
    (∀ k v, (callStep P s c).2.1.lookup k = some v → Filed P s.calls k v) ∧
    AtPoint P c (callStep P s c).2.2 ∧
    (callStep P s c).2.1.keys.length ≤ sigMemoSize := by
  have hpoint := hs.calls c hc
  unfold callStep
  cases hat : c.point with
  | memoLookup =>
    simp only
    split
    next hsize => exact ⟨hs.slots, hs.memo, fun h => absurd h (by simp), hs.bound⟩
    next hsize =>
      rw [not_not] at hsize
      split
      next v hv =>
        refine ⟨hs.slots, hs.memo, ?_, hs.bound⟩
        show v = verify P c.publicKey c.signature c.message
        rw [verify_of_wellSized hsize]
        exact (hs.memo _ _ hv).verdict hinj hseen hc hsize
      next => exact ⟨hs.slots, hs.memo, fun _ => hsize, hs.bound⟩
  | slotLoad memoize =>
    rw [hat] at hpoint
    simp only
    split
    next hsize =>
      exact ⟨hs.slots, hs.memo, atPoint_handBack (verify_of_not_wellSized hsize).symm hpoint,
        hs.bound⟩
    next hsize =>
      rw [not_not] at hsize
      split
      next e he =>
        obtain ⟨hslot, hkey⟩ := Option.filter_eq_some_iff.mp he
        have hfiled := hs.slots _ e hslot
        rw [of_decide_eq_true hkey] at hfiled
        refine ⟨hs.slots, hs.memo, atPoint_handBack ?_ hpoint, hs.bound⟩
        rw [verify_of_wellSized hsize]
        exact hfiled.verdict hinj hseen hc hsize
      next => exact ⟨hs.slots, hs.memo, ⟨hsize, rfl⟩, hs.bound⟩
  | slotStore memoize ok =>
    rw [hat] at hpoint
    obtain ⟨hsize, hok⟩ := hpoint
    refine ⟨?_, hs.memo, atPoint_handBack (hok.trans (verify_of_wellSized hsize).symm)
      (fun _ => hsize), hs.bound⟩
    intro i e he
    simp only [storeSlot] at he
    split at he
    next =>
      rw [Option.some.injEq] at he
      subst he
      exact ⟨c, hc, hsize, rfl, hok⟩
    next => exact hs.slots i e he
  | memoStore ok =>
    rw [hat] at hpoint
    obtain ⟨hsize, hok⟩ := hpoint
    refine ⟨hs.slots, ?_, hok.trans (verify_of_wellSized hsize).symm, fileVerdict_bound⟩
    intro k v hv
    rcases lookup_fileVerdict hv with hnew | hold
    · rw [hnew.1, hnew.2]
      exact ⟨c, hc, hsize, rfl, hok⟩
    · exact hs.memo k v hold
  | returned ok =>
    rw [hat] at hpoint
    exact ⟨hs.slots, hs.memo, hpoint, hs.bound⟩

theorem Transparent.begin (h : Transparent P s)
    (hc : AtPoint P c c.point) : Transparent P { s with calls := s.calls ++ [c] } := by
  have hkeep : ∀ d ∈ s.calls, ∃ d' ∈ s.calls ++ [c], d'.publicKey = d.publicKey ∧
      d'.signature = d.signature ∧ d'.message = d.message :=
    fun d hd => ⟨d, List.mem_append_left _ hd, rfl, rfl, rfl⟩
  refine ⟨fun i e he => (h.slots i e he).mono hkeep, fun k v hv => (h.memo k v hv).mono hkeep,
    ?_, h.bound⟩
  intro d hd
  rcases List.mem_append.mp hd with hold | hnew
  · exact h.calls d hold
  · rw [List.mem_singleton.mp hnew]
    exact hc

theorem Transparent.step {seen : List Bytes} {s : MemoState} {e : MemoEvent}
    (hinj : ∀ x ∈ seen, ∀ y ∈ seen, P.sha256 x = P.sha256 y → x = y) (hseen : CallsSeen seen s)
    (h : Transparent P s) : Transparent P (memoStep P s e) := by
  cases e with
  | verifyMemoized pk sig msg => exact h.begin trivial
  | verify pk sig msg => exact h.begin (fun hf => absurd hf (by simp))
  | advance i =>
    cases hi : s.calls[i]? with
    | none =>
      rw [memoStep_advance_none P hi]
      exact h
    | some c =>
      rw [memoStep_advance P hi]
      have hc : c ∈ s.calls := List.mem_of_getElem? hi
      obtain ⟨hslots, hmemo, hpoint, hbound⟩ := callStep_spec hinj hseen h hc
      -- the call keeps its arguments, so what was filed for it stays filed
      have hkeep : ∀ d ∈ s.calls, ∃ d' ∈ s.calls.set i { c with point := (callStep P s c).2.2 },
          d'.publicKey = d.publicKey ∧ d'.signature = d.signature ∧ d'.message = d.message := by
        intro d hd
        obtain ⟨j, hj⟩ := List.mem_iff_getElem?.mp hd
        by_cases hij : i = j
        · subst hij
          rw [hi, Option.some.injEq] at hj
          subst hj
          exact ⟨{ c with point := (callStep P s c).2.2 },
            List.mem_set (List.getElem?_eq_some_iff.mp hi).1 _, rfl, rfl, rfl⟩
        · refine ⟨d, List.mem_of_getElem? (i := j) ?_, rfl, rfl, rfl⟩
          rw [List.getElem?_set, if_neg hij]
          exact hj
      refine ⟨fun j e he => (hslots j e he).mono hkeep, fun k v hv => (hmemo k v hv).mono hkeep,
        ?_, hbound⟩
      intro d hd
      rcases List.mem_or_eq_of_mem_set hd with hold | hnew
      · exact h.calls d hold
      · rw [hnew]
        exact hpoint

/-! ## Whole runs -/

theorem callsSeen_step {e : MemoEvent} (hs : CallsSeen seen s)
    (he : ∀ x, e.hashed = some x → x ∈ seen) : CallsSeen seen (memoStep P s e) := by
  have hbegin : ∀ pk sig msg point, (WellSized pk sig → pk ++ sig ++ msg ∈ seen) →
      CallsSeen seen { s with calls := s.calls ++ [⟨pk, sig, msg, point⟩] } := by
    intro pk sig msg point hnew c hc hsize
    rcases List.mem_append.mp hc with hold | hlast
    · exact hs c hold hsize
    · rw [List.mem_singleton.mp hlast] at hsize ⊢
      exact hnew hsize
  cases e with
  | verifyMemoized pk sig msg =>
    exact hbegin pk sig msg _ (fun hsize => he _ (by rw [MemoEvent.hashed, if_pos hsize]))
  | verify pk sig msg =>
    exact hbegin pk sig msg _ (fun hsize => he _ (by rw [MemoEvent.hashed, if_pos hsize]))
  | advance i =>
    cases hi : s.calls[i]? with
    | none =>
      rw [memoStep_advance_none P hi]
      exact hs
    | some c =>
      rw [memoStep_advance P hi]
      intro d hd hsize
      rcases List.mem_or_eq_of_mem_set hd with hold | hnew
      · exact hs d hold hsize
      · rw [hnew] at hsize ⊢
        exact hs c (List.mem_of_getElem? hi) hsize

theorem transparent_run {events : List MemoEvent} (hinj : HashInjectiveOn P events) :
    Transparent P (memoRun P events) := by
  have hboth : Transparent P (memoRun P events) ∧
      CallsSeen (events.filterMap MemoEvent.hashed) (memoRun P events) := by
    refine @EachStep.invariant _ _ (memoStep P) (fun _ e => e ∈ events)
      (fun s => Transparent P s ∧ CallsSeen (events.filterMap MemoEvent.hashed) s)
      ?_ events _ ?_ (EachStep.of_forall_mem (fun _ he _ => he))
    · intro s e hs he
      exact ⟨hs.1.step hinj hs.2,
        callsSeen_step hs.2 (fun x hx => List.mem_filterMap.mpr ⟨e, he, hx⟩)⟩
    · refine ⟨⟨?_, ?_, ?_, by decide⟩, ?_⟩
      · intro i e he
        exact absurd he (by simp [MemoState.new])
      · intro k v hv
        exact absurd hv (by simp [MemoState.new])
      · intro c hc
        exact absurd hc List.not_mem_nil
      · intro c hc
        exact absurd hc List.not_mem_nil
  exact hboth.1

/-- How many steps a call still takes. -/
def CallPoint.left : CallPoint → Nat
  | .memoLookup => 4
  | .slotLoad _ => 3
  | .slotStore _ _ => 2
  | .memoStore _ => 1
  | .returned _ => 0

theorem left_handBack (memoize ok : Bool) : (handBack memoize ok).left ≤ 1 := by
  cases memoize with
  | false => exact Nat.zero_le 1
  | true => exact Nat.le_refl 1

theorem left_callStep (s : MemoState) (c : Call) :
    (callStep P s c).2.2.left ≤ c.point.left - 1 := by
  unfold callStep
  cases hat : c.point with
  | memoLookup =>
    simp only
    split
    next => exact Nat.le_refl 3
    split
    next => exact Nat.zero_le 3
    next => exact Nat.le_refl 3
  | slotLoad memoize =>
    simp only
    split
    next => exact (left_handBack memoize false).trans (show 1 ≤ 2 by decide)
    split
    next e _ => exact (left_handBack memoize e.ok).trans (show 1 ≤ 2 by decide)
    next => exact Nat.le_refl 2
  | slotStore memoize ok => exact left_handBack memoize ok
  | memoStore ok | returned ok => exact Nat.le_refl 0

theorem call_memoStep (e : MemoEvent) (hi : s.calls[i]? = some c) :
    ∃ c', (memoStep P s e).calls[i]? = some c' ∧
      c'.point.left + (if e = .advance i then 1 else 0) ≤ max c.point.left 1 ∧
      c'.point.left ≤ c.point.left := by
  have hlt : i < s.calls.length := (List.getElem?_eq_some_iff.mp hi).1
  cases e with
  | verifyMemoized pk sig msg =>
    refine ⟨c, ?_, by simp, Nat.le_refl _⟩
    show (s.calls ++ _)[i]? = some c
    rw [List.getElem?_append_left hlt, hi]
  | verify pk sig msg =>
    refine ⟨c, ?_, by simp, Nat.le_refl _⟩
    show (s.calls ++ _)[i]? = some c
    rw [List.getElem?_append_left hlt, hi]
  | advance j =>
    by_cases hij : j = i
    · subst hij
      have hleft := left_callStep (P := P) s c
      rw [memoStep_advance P hi]
      refine ⟨{ c with point := (callStep P s c).2.2 }, ?_, ?_, ?_⟩
      · show (s.calls.set j _)[j]? = _
        rw [List.getElem?_set, if_pos rfl, if_pos hlt]
      · rw [if_pos rfl]
        show (callStep P s c).2.2.left + 1 ≤ _
        omega
      · show (callStep P s c).2.2.left ≤ _
        omega
    · have hne : MemoEvent.advance j ≠ .advance i := fun h => hij (MemoEvent.advance.inj h)
      cases hj : s.calls[j]? with
      | none =>
        rw [memoStep_advance_none P hj]
        exact ⟨c, hi, by simp [hne], Nat.le_refl _⟩
      | some d =>
        rw [memoStep_advance P hj]
        refine ⟨c, ?_, by simp [hne], Nat.le_refl _⟩
        show (s.calls.set j _)[i]? = some c
        rw [List.getElem?_set, if_neg hij, hi]

theorem returned_of_count (later : List MemoEvent) {s : MemoState} {c : Call}
    (hi : s.calls[i]? = some c) (hleft : c.point.left ≤ later.count (.advance i)) :
    ∃ c' v, (later.foldl (memoStep P) s).calls[i]? = some c' ∧ c'.point = .returned v := by
  induction later generalizing s c with
  | nil =>
    cases hat : c.point with
    | returned v => exact ⟨c, v, hi, hat⟩
    | _ =>
      rw [hat] at hleft
      exact absurd hleft (by simp [CallPoint.left])
  | cons e later ih =>
    obtain ⟨c', hi', hstep, hle⟩ := call_memoStep (P := P) e hi
    refine ih hi' ?_
    rw [List.count_cons] at hleft
    by_cases he : e = .advance i
    · simp only [he, beq_self_eq_true, if_true] at hleft hstep
      omega
    · have hbeq : (e == MemoEvent.advance i) = false := beq_eq_false_iff_ne.mpr he
      simp only [hbeq, Bool.false_eq_true, if_false] at hleft
      omega

/-- **Memoized verification is transparent.** In every interleaving, with a hash that
separates the inputs seen, a call returns after four steps with the Ed25519 verdict for its
own arguments; the map holds at most 8192. -/
theorem verify_memo_transparent (P : Primitives) (events : List MemoEvent)
    (hinj : HashInjectiveOn P events) :
    (∀ c ∈ (memoRun P events).calls, ∀ v, c.point = .returned v →
      v = verify P c.publicKey c.signature c.message) ∧
    (∀ i < (memoRun P events).calls.length, ∀ later : List MemoEvent,
      4 ≤ later.count (.advance i) →
      ∃ c v, (memoRun P (events ++ later)).calls[i]? = some c ∧ c.point = .returned v) ∧
    (memoRun P events).sigMemo.keys.length ≤ 8192 := by
  have hinv := transparent_run hinj
  refine ⟨?_, ?_, hinv.bound⟩
  · intro c hc v hv
    have hpoint := hinv.calls c hc
    rw [hv] at hpoint
    exact hpoint
  · intro i hi later hcount
    have hget : (memoRun P events).calls[i]? = some ((memoRun P events).calls[i]) :=
      List.getElem?_eq_getElem hi
    have hleft : ((memoRun P events).calls[i]).point.left ≤ 4 := by
      cases ((memoRun P events).calls[i]).point <;> simp [CallPoint.left]
    rw [memoRun, List.foldl_append]
    exact returned_of_count later hget (hleft.trans hcount)

namespace Sample

/-- One signature verified twice in turn. -/
def twice : List MemoEvent :=
  let pk := Toy.publicKey 1
  let sig := (Toy.keypair 1).sign Toy.primitives [7]
  [.verifyMemoized pk sig [7], .advance 0, .advance 0, .advance 0, .advance 0,
   .verifyMemoized pk sig [7], .advance 1, .verify [1] sig [7], .advance 2]

end Sample

theorem second_call_from_memo :
    HashInjectiveOn Toy.primitives Sample.twice ∧
    (memoRun Toy.primitives Sample.twice).calls.map Call.point
      = [.returned true, .returned true, .returned false] ∧
    (memoRun Toy.primitives Sample.twice).sigMemo.keys.length ≤ 8192 := by
  have hinj : HashInjectiveOn Toy.primitives Sample.twice := by
    unfold HashInjectiveOn
    decide +kernel
  exact ⟨hinj, by decide +kernel,
    (verify_memo_transparent Toy.primitives Sample.twice hinj).2.2⟩

end Freens.Crypto
