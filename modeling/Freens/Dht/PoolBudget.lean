/-
**THE BOOKS OF THE CLAIM POOL AND ITS BUDGETS** (`dht/claims_pool.go`:
`OfferSeen`, `evictOverBudgetLocked`, `StoreReAttests`, `Sweep`).

The budgets are enforced when a key is new; a second or a larger claim under a key
that is pooled already grows the pool past them.
-/
import Freens.Dht.PoolKeys

namespace Freens.Dht

open Library Naming Wire Claims

variable {P : Primitives}

/-! ## The representation -/

/-- **The claims of a key**: one or two, in ascending order, with distinct
H_records. -/
structure TopTwo (l : List PooledClaim) : Prop where
  nonempty : l ≠ []
  length : l.length ≤ 2
  sorted : l.Pairwise NotAfter
  distinct : (l.map PooledClaim.h).Nodup

/-- What the claims weigh. -/
def bytesHeld (l : List PooledClaim) : Int := ((l.map PooledClaim.size).sum : Nat)

/-- **The books**: the claims of every key, the queue, the counter. The eviction loop holds
the queue beside the pool. -/
structure BookKept (p : ClaimPool) (order : List Bytes) : Prop where
  topTwo : ∀ k l, p.byKey.lookup k = some l → TopTwo l
  queue : Table.Lists order p.byKey
  bytes : p.bytes = Table.total bytesHeld p.byKey
  maxKeys : 0 ≤ p.maxKeys
  maxBytes : 0 ≤ p.maxBytes

/-- **Within the budgets**, unless one key is left. -/
def InBudget (p : ClaimPool) : Prop :=
  ((p.byKey.keys.length : Int) ≤ p.maxKeys ∧ p.bytes ≤ p.maxBytes) ∨ p.byKey.keys.length = 1

theorem bytesHeld_nonneg (l : List PooledClaim) : 0 ≤ bytesHeld l := Int.natCast_nonneg _

theorem weightAt_bytesHeld (p : ClaimPool) (k : Bytes) :
    p.byKey.weightAt bytesHeld k = bytesHeld (p.members k) := by
  unfold Table.weightAt ClaimPool.members
  cases p.byKey.lookup k with
  | none | some l => rfl

variable {p : ClaimPool} {order : List Bytes}

theorem overBudget_eq_false_iff :
    p.overBudget = false ↔ (p.byKey.keys.length : Int) ≤ p.maxKeys ∧ p.bytes ≤ p.maxBytes := by
  rw [ClaimPool.overBudget, Bool.or_eq_false_iff, decide_eq_false_iff_not, decide_eq_false_iff_not,
    gt_iff_lt, gt_iff_lt, not_lt, not_lt]

theorem BookKept.inBudget_of_empty (h : BookKept p order)
    (hempty : p.byKey.keys.length = 0) : InBudget p := by
  have hentries : p.byKey.entries = [] := by
    rw [AList.keys, List.keys, List.length_map, List.length_eq_zero_iff] at hempty
    exact hempty
  have hbytes := h.bytes
  rw [Table.total, hentries, List.map_nil, List.sum_nil] at hbytes
  left
  rw [hempty, hbytes]
  exact ⟨h.maxKeys, h.maxBytes⟩

theorem BookKept.inBudget_of_shrunk {p' : ClaimPool} (h : BookKept p' order) (hbudget : InBudget p)
    (hcount : p'.byKey.keys.length ≤ p.byKey.keys.length) (hbytes : p'.bytes ≤ p.bytes)
    (hmaxKeys : p'.maxKeys = p.maxKeys) (hmaxBytes : p'.maxBytes = p.maxBytes) : InBudget p' := by
  by_cases hempty : p'.byKey.keys.length = 0
  · exact h.inBudget_of_empty hempty
  · unfold InBudget at hbudget ⊢
    rw [hmaxKeys, hmaxBytes]
    omega

theorem BookKept.dropKey {oldest : Bytes} {rest : List Bytes}
    (h : BookKept p (oldest :: rest)) : BookKept (p.dropKey oldest) rest where
  topTwo := by
    intro k l hk
    exact h.topTwo k l (Table.erase_sub p.byKey oldest k l hk)
  queue := h.queue.pop
  bytes := by
    show p.bytes - bytesHeld (p.members oldest) =
      Table.total bytesHeld (p.byKey.erase oldest)
    rw [Table.total_erase, weightAt_bytesHeld, h.bytes]
  maxKeys := h.maxKeys
  maxBytes := h.maxBytes

theorem BookKept.evictLoop {newest : Bytes} {order : List Bytes} {p : ClaimPool}
    (h : BookKept p order) :
    BookKept (evictLoop newest order p) (evictLoop newest order p).order ∧
      InBudget (evictLoop newest order p) := by
  induction order generalizing p with
  | nil =>
    refine ⟨⟨h.topTwo, h.queue, h.bytes, h.maxKeys, h.maxBytes⟩, ?_⟩
    exact h.inBudget_of_empty h.queue.length_eq.symm
  | cons oldest rest ih =>
    unfold Dht.evictLoop
    split
    next hover =>
      refine ⟨⟨h.topTwo, h.queue, h.bytes, h.maxKeys, h.maxBytes⟩, .inl ?_⟩
      have hwithin : p.overBudget = false := by simpa using hover
      exact overBudget_eq_false_iff.mp hwithin
    next =>
      split
      next hlast =>
        -- the newest key is the only one
        refine ⟨⟨h.topTwo, h.queue, h.bytes, h.maxKeys, h.maxBytes⟩, .inr ?_⟩
        have hlen := h.queue.length_eq
        rw [hlast.2] at hlen
        exact hlen.symm
      next => exact ih h.dropKey

/-! ## Offers -/

theorem bytesHeld_place (cur : List PooledClaim) (pc : PooledClaim) :
    bytesHeld (place cur pc) = bytesHeld cur + pc.size := by
  unfold place bytesHeld
  split
  next a =>
    split
    · simp [add_comm]
    · simp
  next => simp

theorem TopTwo.place {cur : List PooledClaim} {pc : PooledClaim} (hshort : cur.length ≤ 1)
    (hnew : ∀ m ∈ cur, m.h ≠ pc.h) : TopTwo (place cur pc) := by
  cases cur with
  | nil => exact ⟨by simp [Dht.place], by simp [Dht.place], by simp [Dht.place], by simp [Dht.place]⟩
  | cons a cur =>
    obtain rfl : cur = [] := List.length_eq_zero_iff.mp (by simpa using hshort)
    have hne : a.h ≠ pc.h := hnew a List.mem_cons_self
    show TopTwo (if lessOrderKey pc.claim a.claim then [pc, a] else [a, pc])
    split
    next hless =>
      refine ⟨by simp, by simp, ?_, by simpa using hne.symm⟩
      exact List.pairwise_pair.mpr (lessOrderKey_asymm hless)
    next hless =>
      refine ⟨by simp, by simp, ?_, by simpa using hne⟩
      exact List.pairwise_pair.mpr (Bool.eq_false_iff.mpr hless)

variable {k : Bytes} {l : List PooledClaim}

theorem bytesHeld_eq_add_displaced (hshort : l.length ≤ 2) :
    bytesHeld l = bytesHeld (l.take 1) + displacedBytes l := by
  rcases l with _ | ⟨a, _ | ⟨b, _ | ⟨c, l⟩⟩⟩
  · rfl
  · simp [bytesHeld, displacedBytes]
  · simp [bytesHeld, displacedBytes]
  · simp only [List.length_cons] at hshort
    omega

theorem BookKept.insert {order' : List Bytes} (h : BookKept p order) (hl : TopTwo l)
    (hqueue : Table.Lists order' (p.byKey.insert k l)) {bytes : Int}
    (hbytes : bytes = p.bytes - bytesHeld (p.members k) + bytesHeld l) :
    BookKept { p with byKey := p.byKey.insert k l, bytes } order' where
  topTwo := by
    intro k' l' hk'
    rcases Table.lookup_insert_cases hk' with ⟨_, rfl⟩ | ⟨_, hold⟩
    · exact hl
    · exact h.topTwo k' l' hold
  queue := hqueue
  bytes := by
    show bytes = Table.total bytesHeld (p.byKey.insert k l)
    rw [Table.total_insert, weightAt_bytesHeld, hbytes, h.bytes]
  maxKeys := h.maxKeys
  maxBytes := h.maxBytes

theorem BookKept.enter (h : BookKept p p.order) (k : Bytes) (pc : PooledClaim) :
    BookKept (p.enter k pc).2 (p.enter k pc).2.order ∧
      ((p.byKey.lookup k = none ∧ InBudget (p.enter k pc).2) ∨
        ∃ cur, p.byKey.lookup k = some cur ∧ ((¬ Takes cur pc ∧ (p.enter k pc).2 = p) ∨
          (Takes cur pc ∧ (p.enter k pc).2.byKey.keys.length = p.byKey.keys.length ∧
            (p.enter k pc).2.bytes = p.bytes - displacedBytes cur + pc.size ∧
            (p.enter k pc).2.maxKeys = p.maxKeys ∧ (p.enter k pc).2.maxBytes = p.maxBytes))) := by
  rcases enter_cases p k pc with ⟨hfree, hnew⟩ | ⟨cur, hcur, ⟨hrefused, hsame⟩ | ⟨htakes, hgrown⟩⟩
  · have htop : TopTwo (Dht.place [] pc) := TopTwo.place (Nat.zero_le 1) (by simp)
    have hqueue : Table.Lists (p.order ++ [k]) (p.byKey.insert k (Dht.place [] pc)) :=
      h.queue.push (fun hk => AList.lookup_eq_none.mp hfree ((h.queue.keys k).mp hk)) _
    have hbytes : p.bytes + pc.size =
        p.bytes - bytesHeld (p.members k) + bytesHeld (Dht.place [] pc) := by
      rw [members_of_free hfree, bytesHeld_place]
      simp [bytesHeld]
    obtain ⟨hbooks, hbudget⟩ := @BookKept.evictLoop k _ _ (h.insert htop hqueue hbytes)
    rw [hnew]
    exact ⟨hbooks, .inl ⟨hfree, hbudget⟩⟩
  · rw [hsame]
    exact ⟨h, .inr ⟨cur, hcur, .inl ⟨hrefused, rfl⟩⟩⟩
  · have hqueue : Table.Lists p.order (p.byKey.insert k (Dht.place (cur.take 1) pc)) :=
      h.queue.update ((h.queue.keys k).mpr (Table.mem_of_lookup hcur)) _
    have htop : TopTwo (Dht.place (cur.take 1) pc) :=
      TopTwo.place (List.length_take_le 1 cur) fun m hm => htakes.1 m (List.mem_of_mem_take hm)
    have hbytes : p.bytes - displacedBytes cur + pc.size =
        p.bytes - bytesHeld (p.members k) + bytesHeld (Dht.place (cur.take 1) pc) := by
      rw [ClaimPool.members, hcur, Option.getD_some, bytesHeld_place,
        bytesHeld_eq_add_displaced (h.topTwo k cur hcur).length]
      ring
    rw [hgrown]
    exact ⟨h.insert htop hqueue hbytes, .inr ⟨cur, hcur,
      .inr ⟨htakes, hqueue.length_eq.symm.trans h.queue.length_eq, rfl, rfl, rfl⟩⟩⟩

/-! ## The sweep -/

theorem bytesHeld_filter_add (l : List PooledClaim) (gone : PooledClaim → Bool) :
    bytesHeld (l.filter (fun m => !gone m)) + bytesHeld (l.filter gone) = bytesHeld l := by
  unfold bytesHeld
  induction l with
  | nil => rfl
  | cons m l ih =>
    cases hm : gone m with
    | false | true => simp [hm] at ih ⊢; omega

theorem TopTwo.sublist {l' : List PooledClaim} (h : TopTwo l) (hsub : l'.Sublist l)
    (hne : l' ≠ []) : TopTwo l' :=
  ⟨hne, hsub.length_le.trans h.length, h.sorted.sublist hsub, h.distinct.sublist (hsub.map _)⟩

theorem BookKept.sweepKey {p : ClaimPool} (h : BookKept p p.order) (now : Int) (k : Bytes) :
    BookKept (sweepKey P now p k) (sweepKey P now p k).order ∧
      (sweepKey P now p k).byKey.keys.length ≤ p.byKey.keys.length ∧
      (sweepKey P now p k).bytes ≤ p.bytes ∧
      (sweepKey P now p k).maxKeys = p.maxKeys ∧ (sweepKey P now p k).maxBytes = p.maxBytes := by
  have hsum := bytesHeld_filter_add (p.members k) (fun m => windowClosed m.env now)
  have hnonneg := bytesHeld_nonneg ((p.members k).filter (fun m => windowClosed m.env now))
  have hbytes : p.bytes - bytesHeld ((p.members k).filter (fun m => windowClosed m.env now)) ≤
      p.bytes := by omega
  unfold Dht.sweepKey
  simp only
  split
  next hkeep =>
    -- the key goes with its last claim
    rw [hkeep] at hsum
    refine ⟨⟨?_, h.queue.remove k, ?_, h.maxKeys, h.maxBytes⟩, Table.count_erase_le _ _, hbytes,
      rfl, rfl⟩
    · intro k' l hk'
      exact h.topTwo k' l (Table.erase_sub p.byKey k k' l hk')
    · show p.bytes - bytesHeld _ = Table.total bytesHeld (p.byKey.erase k)
      rw [Table.total_erase, weightAt_bytesHeld, h.bytes, ← hsum]
      simp [bytesHeld]
  next hkeep =>
    cases hlookup : p.byKey.lookup k with
    | none => exact absurd (by rw [members_of_free hlookup]; rfl) hkeep
    | some l =>
      have hmembers : p.members k = l := by rw [ClaimPool.members, hlookup]; rfl
      have htop := (h.topTwo k l hlookup).sublist (hmembers ▸ List.filter_sublist) hkeep
      have hqueue := h.queue.update ((h.queue.keys k).mpr (Table.mem_of_lookup hlookup))
        ((p.members k).filter (fun m => !windowClosed m.env now))
      have hbooks := h.insert htop hqueue
        (show p.bytes - bytesHeld ((p.members k).filter (fun m => windowClosed m.env now)) = _ by omega)
      refine ⟨⟨hbooks.topTwo, hqueue, hbooks.bytes, h.maxKeys, h.maxBytes⟩, ?_, hbytes, rfl, rfl⟩
      exact le_of_eq (hqueue.length_eq.symm.trans h.queue.length_eq)

theorem BookKept.sweep (h : BookKept p p.order) (now : Int) :
    BookKept (sweep P p now) (sweep P p now).order ∧
      (InBudget p → InBudget (sweep P p now)) := by
  unfold Dht.sweep
  generalize p.byKey.keys = keys
  induction keys generalizing p with
  | nil => exact ⟨h, id⟩
  | cons k keys ih =>
    obtain ⟨hround, hcount, hbytes, hmaxKeys, hmaxBytes⟩ := @BookKept.sweepKey P p h now k
    obtain ⟨hbooks, hbudget⟩ := ih hround
    exact ⟨hbooks, fun hin =>
      hbudget (hround.inBudget_of_shrunk hin hcount hbytes hmaxKeys hmaxBytes)⟩

/-! ## Runs -/

/-- The calls of the pool. -/
inductive PoolCall where
  | offerSeen (key : Bytes) (env : SignedEnvelope) (now firstSeen : Int)
  | storeReAttests (key ph : Bytes) (atts : List WitnessAttestation)
  | sweep (now : Int)

/-- One call. -/
def poolCallStep (P : Primitives) (p : ClaimPool) : PoolCall → ClaimPool
  | .offerSeen key env now firstSeen => (offerSeen P p key env now firstSeen).2
  | .storeReAttests key ph atts => p.storeReAttests key ph atts
  | .sweep now => sweep P p now

/-- A pool with other bounds. -/
def budgeted (maxKeys maxBytes : Int) : ClaimPool := { newClaimPool with maxKeys, maxBytes }

/-- An offer ends within the bounds. -/
def StaysInBudget (P : Primitives) (p : ClaimPool) : PoolCall → Prop
  | .offerSeen key env now firstSeen => InBudget (offerSeen P p key env now firstSeen).2
  | _ => True

/-- **An offer under a pooled key fits**: beside what the pool holds without the claim that
makes way, or there is no other key. -/
def GrowthFits (P : Primitives) (p : ClaimPool) : PoolCall → Prop
  | .offerSeen key env _ _ => key.length = 32 → ∀ x ∈ poolScreen P env,
      ∀ cur ∈ p.byKey.lookup key, Takes cur x.1 →
        p.bytes - displacedBytes cur + x.1.size ≤ p.maxBytes ∨ p.byKey.keys.length = 1
  | _ => True

theorem storeReAttests_frame (p : ClaimPool) (key ph : Bytes) (atts : List WitnessAttestation) :
    ∃ reattests, p.storeReAttests key ph atts = { p with reattests } := by
  unfold ClaimPool.storeReAttests
  split
  next => exact ⟨p.reattests, rfl⟩
  next => exact ⟨_, rfl⟩

theorem offerSeen_cases (p : ClaimPool) (key : Bytes) (env : SignedEnvelope) (now firstSeen : Int) :
    ((offerSeen P p key env now firstSeen).2 = p ∧ (key.length ≠ 32 ∨ poolScreen P env = none)) ∨
      ∃ pc ph, poolScreen P env = some (pc, ph) ∧ key.length = 32 ∧
        (offerSeen P p key env now firstSeen).2 = ((p.stamp key ph now firstSeen).enter key pc).2 := by
  unfold offerSeen
  split
  next hlen => exact .inl ⟨rfl, .inl hlen⟩
  next hlen =>
    split
    next hscreen => exact .inl ⟨rfl, .inr hscreen⟩
    next pc ph hscreen => exact .inr ⟨pc, ph, hscreen, not_not.mp hlen, rfl⟩

section
variable {p : ClaimPool} (h : BookKept p p.order)
include h

theorem BookKept.stamp (k ph : Bytes) (now firstSeen : Int) :
    BookKept (p.stamp k ph now firstSeen) (p.stamp k ph now firstSeen).order :=
  ⟨h.topTwo, h.queue, h.bytes, h.maxKeys, h.maxBytes⟩

/-- **An offer keeps the books**, and stays within the budgets exactly when it fits. -/
theorem BookKept.offerSeen (key : Bytes) (env : SignedEnvelope) (now firstSeen : Int) :
    BookKept (offerSeen P p key env now firstSeen).2 (offerSeen P p key env now firstSeen).2.order ∧
      (InBudget p → (InBudget (offerSeen P p key env now firstSeen).2 ↔
        GrowthFits P p (.offerSeen key env now firstSeen))) := by
  rcases @offerSeen_cases P p key env now firstSeen with
    ⟨hsame, hrefused⟩ | ⟨pc, ph, hscreen, hlen, henter⟩
  · rw [hsame]
    refine ⟨h, fun hbudget => iff_of_true hbudget fun hlen x hx => ?_⟩
    rcases hrefused with hshort | hnone
    · exact absurd hlen hshort
    · rw [hnone] at hx
      cases hx
  · have hscreened : ∀ x ∈ poolScreen P env, x = (pc, ph) := by
      intro x hx
      rw [hscreen] at hx
      exact (Option.mem_some_iff.mp hx).symm
    obtain ⟨hbooks, hcases⟩ := (h.stamp key ph now firstSeen).enter key pc
    rw [henter]
    refine ⟨hbooks, fun hbudget => ?_⟩
    rcases hcases with ⟨hfree, hnew⟩ | ⟨cur, hcur, hcases⟩
    · refine iff_of_true hnew fun _ x _ cur hcur => ?_
      exact absurd (hfree.symm.trans hcur) (by simp)
    replace hcur : p.byKey.lookup key = some cur := hcur
    have hfits : GrowthFits P p (.offerSeen key env now firstSeen) ↔ (Takes cur pc →
        p.bytes - displacedBytes cur + pc.size ≤ p.maxBytes ∨ p.byKey.keys.length = 1) := by
      constructor
      · intro hfits
        exact hfits hlen (pc, ph) hscreen cur hcur
      · intro hfits _ x hx cur' hcur' htakes
        obtain rfl := hscreened x hx
        obtain rfl : cur = cur' := Option.some.inj (hcur.symm.trans hcur')
        exact hfits htakes
    rw [hfits]
    rcases hcases with ⟨hrefused, hsame⟩ | ⟨htakes, hcount, hbytes, hmaxKeys, hmaxBytes⟩
    · rw [hsame]
      exact iff_of_true hbudget fun htakes => absurd htakes hrefused
    · unfold InBudget at hbudget ⊢
      rw [hcount, hbytes, hmaxKeys, hmaxBytes]
      show ((p.byKey.keys.length : Int) ≤ p.maxKeys ∧
        p.bytes - displacedBytes cur + pc.size ≤ p.maxBytes) ∨ p.byKey.keys.length = 1 ↔ _
      constructor
      · rintro (⟨_, hroom⟩ | hone) _
        · exact .inl hroom
        · exact .inr hone
      · intro hfits
        have hroom := hfits htakes
        omega

theorem BookKept.step (call : PoolCall) :
    BookKept (poolCallStep P p call) (poolCallStep P p call).order := by
  cases call with
  | offerSeen key env now firstSeen => exact (h.offerSeen key env now firstSeen).1
  | storeReAttests key ph atts =>
    obtain ⟨reattests, hframe⟩ := storeReAttests_frame p key ph atts
    show BookKept (p.storeReAttests key ph atts) (p.storeReAttests key ph atts).order
    rw [hframe]
    exact ⟨h.topTwo, h.queue, h.bytes, h.maxKeys, h.maxBytes⟩
  | sweep now => exact (h.sweep now).1

theorem staysInBudget_iff (hbudget : InBudget p) {call : PoolCall} :
    StaysInBudget P p call ↔ GrowthFits P p call := by
  cases call with
  | offerSeen key env now firstSeen => exact (h.offerSeen key env now firstSeen).2 hbudget
  | storeReAttests key ph atts | sweep now => exact Iff.rfl

/-- The other calls do not grow the pool. -/
theorem InBudget.step (hbudget : InBudget p) {call : PoolCall} (hstays : StaysInBudget P p call) :
    InBudget (poolCallStep P p call) := by
  cases call with
  | offerSeen key env now firstSeen => exact hstays
  | storeReAttests key ph atts =>
    obtain ⟨reattests, hframe⟩ := storeReAttests_frame p key ph atts
    show InBudget (p.storeReAttests key ph atts)
    rw [hframe]
    exact hbudget
  | sweep now => exact (h.sweep now).2 hbudget

end

theorem budgeted_kept {maxKeys maxBytes : Int} (hkeys : 0 ≤ maxKeys) (hbytes : 0 ≤ maxBytes) :
    BookKept (budgeted maxKeys maxBytes) (budgeted maxKeys maxBytes).order :=
  ⟨fun _ _ h => absurd h (by simp [budgeted, newClaimPool]), Table.Lists.empty, rfl, hkeys, hbytes⟩

/-- **The pool's representation and its budget.** In every run a key holds one or two claims
in order, the queue enumerates the keys, and the counter is the sum. The budgets hold after
every offer, unless one key is left, exactly when every offer under a pooled key fits. -/
theorem pool_books_and_budget (P : Primitives) {maxKeys maxBytes : Int} (hkeys : 0 ≤ maxKeys)
    (hbytes : 0 ≤ maxBytes) (calls : List PoolCall) :
    ((∀ k l, (calls.foldl (poolCallStep P) (budgeted maxKeys maxBytes)).byKey.lookup k = some l →
        TopTwo l) ∧
      Table.Lists (calls.foldl (poolCallStep P) (budgeted maxKeys maxBytes)).order
        (calls.foldl (poolCallStep P) (budgeted maxKeys maxBytes)).byKey ∧
      (calls.foldl (poolCallStep P) (budgeted maxKeys maxBytes)).bytes =
        Table.total bytesHeld (calls.foldl (poolCallStep P) (budgeted maxKeys maxBytes)).byKey) ∧
    (EachStep (poolCallStep P) (StaysInBudget P) (budgeted maxKeys maxBytes) calls ↔
      EachStep (poolCallStep P) (GrowthFits P) (budgeted maxKeys maxBytes) calls) := by
  have hstart := budgeted_kept hkeys hbytes
  refine ⟨?_, ?_⟩
  · have hany : EachStep (poolCallStep P) (fun _ _ => True) (budgeted maxKeys maxBytes) calls :=
      EachStep.of_forall_mem fun _ _ _ => trivial
    have hbooks := @EachStep.invariant _ _ _ _ (fun p => BookKept p p.order)
      (fun p call h _ => h.step call) _ _ hstart hany
    exact ⟨hbooks.topTwo, hbooks.queue, hbooks.bytes⟩
  · refine @EachStep.iff_of_invariant _ _ _ _ _ (fun p => BookKept p p.order ∧ InBudget p) ?_ ?_ _ _
      ⟨hstart, hstart.inBudget_of_empty rfl⟩
    · rintro p call ⟨h, hbudget⟩
      exact staysInBudget_iff h hbudget
    · rintro p call ⟨h, hbudget⟩ hstays
      exact ⟨h.step call, hbudget.step h hstays⟩

namespace BudgetSample

open Freens.Toy PoolSample

def keyB : Bytes := minedChecksum (Constants.dhtKeyPrefixClaim :: Naming.claimTag ++ [0x62])

def room : Int := 2 * (forged 1 1000).bytes.length

def calls : List PoolCall :=
  [.offerSeen keyA (forged 1 1000) 2000 0, .offerSeen keyB (forged 2 1000) 2000 0,
    .offerSeen keyA (forged 3 500) 2000 0]

end BudgetSample

section
open Toy BudgetSample

/-- Three claims under two keys, with room for four. -/
theorem two_keys_in_budget :
    EachStep (poolCallStep mined) (StaysInBudget mined) (budgeted 4096 (2 * room)) calls :=
  ((pool_books_and_budget mined (by decide) (by decide +kernel) calls).2).mpr
    ⟨by show _ = 32 → _; decide +kernel, by show _ = 32 → _; decide +kernel,
      by show _ = 32 → _; decide +kernel, trivial⟩

/-- **With half the room the third claim is one too many**: it is stored and nothing is evicted. -/
theorem second_claim_over_budget :
    (calls.foldl (poolCallStep mined) (budgeted 4096 room)).byKey.keys.length = 2 ∧
      room < (calls.foldl (poolCallStep mined) (budgeted 4096 room)).bytes := by
  decide +kernel

end

end Freens.Dht
