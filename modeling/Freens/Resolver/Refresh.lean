/-
**WHAT A REFRESH DOES TO THE OLD ANSWER** (`resolver/resolver.go`: `resolveShared`;
`cache.go`: `putAnswer`, `get2`).

An NXDOMAIN that is not authoritative and an answer with a TTL of zero are not
cached, and the put then leaves the old entry where it is: it is served on until
its own window ends.
-/
import Freens.Resolver.Routing
import Freens.Toy

namespace Freens.Resolver

open Library Naming

/-- How a call of `resolveShared` enters the flight of its key. -/
inductive Admission where
  /-- No flight is open and a slot is free. -/
  | leads
  /-- No flight is open and no slot is free. -/
  | saturated
  /-- The flight that is open ends with this outcome. -/
  | joins (shared : Outcome)
  /-- The caller's context ends before the flight does. -/
  | abandons

/-- `resolveShared` by a leader, with its two clock readings. -/
def resolveShared (P : Primitives) (r : RoutingResolver) (c : ResponseCache) (q : ClassedQuestion)
    (admission : Admission) (started finished : Int) : Outcome × ResponseCache :=
  match admission with
  | .leads =>
    let outcome := resolveQuestion P r q started
    (outcome, putAnswer c (cacheKeyFor P q) outcome.rrs outcome.rcode outcome.aa finished)
  | .saturated => (⟨⟨[], rcodeServerFailure, true⟩, false⟩, c)
  | .joins shared => (shared, c)
  | .abandons => (⟨⟨[], rcodeServerFailure, true⟩, false⟩, c)

/-! ## Which outcomes are stored -/

/-- A success with a TTL of 0. -/
def Reply.ZeroTTL (reply : Reply) : Prop :=
  reply.rcode = rcodeSuccess ∧ ∃ rr ∈ reply.rrs, rr.ttl = 0

instance (reply : Reply) : Decidable reply.ZeroTTL := inferInstanceAs (Decidable (_ ∧ _))

theorem storedTTL_le_zero_iff {rrs : List AnswerRR} :
    storedTTL rrs ≤ 0 ↔ ∃ rr ∈ rrs, rr.ttl = 0 := by
  have hpos := @le_storedTTL_iff rrs 1
  rw [← not_iff_not, not_le, ← Int.add_one_le_iff, zero_add, hpos]
  push Not
  constructor
  · intro h rr hrr
    have hle := h.2 rr hrr
    omega
  · intro h
    refine ⟨by decide, fun rr hrr => ?_⟩
    have hne := h rr hrr
    omega

/-- **What a put ignores**: an NXDOMAIN that is not authoritative, and a success with a TTL
of zero. -/
theorem entryFor_eq_none_iff {outcome : Outcome} {now : Int}
    (h : outcome.isNegative = true ∨ outcome.ZeroTTL) :
    entryFor outcome.rrs outcome.rcode outcome.aa now = none ↔
      (outcome.rcode = rcodeNameError ∧ outcome.aa = false) ∨ outcome.ZeroTTL := by
  obtain ⟨⟨rrs, rcode, failed⟩, aa⟩ := outcome
  simp only [Reply.isNegative, Reply.ZeroTTL, Bool.or_eq_true, Bool.and_eq_true,
    decide_eq_true_eq] at h ⊢
  rcases h with (hname | ⟨hsuccess, hempty⟩) | ⟨hsuccess, hzero⟩
  · subst hname
    cases aa <;> simp [entryFor]
  · subst hsuccess
    rw [List.length_eq_zero_iff] at hempty
    subst hempty
    cases aa <;> simp [entryFor]
  · subst hsuccess
    have hpos : rrs.length ≠ 0 := by
      obtain ⟨rr, hrr, _⟩ := hzero
      have := List.length_pos_of_mem hrr
      omega
    have hnil : rrs ≠ [] := fun h => hpos (by rw [h]; rfl)
    have hstored := storedTTL_le_zero_iff.mpr hzero
    simp [entryFor, hpos, hnil, hstored, hzero, List.length_pos_iff]

/-! ## Which source decides -/

/-- What the upstream said takes the place of the old answer. -/
def Reply.Lasting (reply : Reply) : Prop := reply.rcode ≠ rcodeNameError ∧ ¬ reply.ZeroTTL

/-- Freens decides and sends no TTL of zero, or the upstream does and sends neither that nor
NXDOMAIN. -/
def RouteDarkens (route : Option Route) (freens upstream : Reply) : Prop :=
  match route with
  | some .freens => ¬ freens.ZeroTTL
  | some .dns => upstream.Lasting
  | some .freensFirst => if freens.isNegative then upstream.Lasting else ¬ freens.ZeroTTL
  | some .dnsFirst =>
    if upstream.rcode = rcodeNameError then ¬ freens.ZeroTTL else ¬ upstream.ZeroTTL
  -- a refusal is no outcome that would have to replace anything
  | _ => True

/-- **The refresh takes the place of the old answer**, by route and sources. -/
def Darkens (P : Primitives) (r : RoutingResolver) (q : ClassedQuestion) (now : Int) : Prop :=
  match decomposeName P (unescapeName q.name) with
  | .error _ => False
  | .ok (labels, aliasName) =>
    match rescued P r labels aliasName q.toQuestion now with
    | some bare => ¬ bare.ZeroTTL
    | none =>
      RouteDarkens (routeFor P r.cfg aliasName)
        (freensReply P r labels aliasName q.toQuestion now) (forwardDNS r q.toQuestion)

variable {P : Primitives} {r : RoutingResolver}

/-- The cache ignores the outcome. -/
def Outcome.Ignored (outcome : Outcome) : Prop :=
  (outcome.rcode = rcodeNameError ∧ outcome.aa = false) ∨ outcome.ZeroTTL

instance (outcome : Outcome) : Decidable outcome.Ignored := inferInstanceAs (Decidable (_ ∨ _))

variable {reply : Reply} {labels : List Bytes} {aliasName : Bytes} {q : ClassedQuestion}
  {c : ResponseCache}

theorem not_ignored_authoritative : ¬ Outcome.Ignored ⟨reply, true⟩ ↔ ¬ reply.ZeroTTL := by
  simp [Outcome.Ignored]

theorem not_ignored_forwarded : ¬ Outcome.Ignored ⟨reply, false⟩ ↔ reply.Lasting := by
  simp [Outcome.Ignored, Reply.Lasting]

theorem not_ignored_refused {failed : Bool} :
    ¬ Outcome.Ignored ⟨⟨[], rcodeRefused, failed⟩, false⟩ := by
  simp [Outcome.Ignored, Reply.ZeroTTL]

variable {now : Int} {key : CacheKey} {stamp : Nat}

theorem routeDarkens_iff {q : Question} :
    ¬ (resolveRouted P r labels aliasName q now).Ignored ↔
      RouteDarkens (routeFor P r.cfg aliasName) (freensReply P r labels aliasName q now)
        (forwardDNS r q) := by
  unfold resolveRouted RouteDarkens
  dsimp only
  cases routeFor P r.cfg aliasName with
  | none => exact iff_true_intro not_ignored_refused
  | some route =>
    cases route with
    | deny => exact iff_true_intro not_ignored_refused
    | freens => exact not_ignored_authoritative
    | dns => exact not_ignored_forwarded
    | freensFirst =>
      dsimp only
      split
      · exact not_ignored_forwarded
      · exact not_ignored_authoritative
    | dnsFirst =>
      dsimp only
      split
      next => exact not_ignored_authoritative
      next hname =>
        -- the upstream did not say NXDOMAIN, or freens would have been asked
        rw [not_ignored_forwarded, Reply.Lasting]
        exact and_iff_right hname

theorem isHit_of_rescued {q : Question} {bare : Reply}
    (h : rescued P r labels aliasName q now = some bare) : bare.isHit = true := by
  unfold rescued at h
  dsimp only at h
  split at h
  · exact (Option.filter_eq_some_iff.mp h).2
  · cases h

theorem darkens_iff (hclass : q.qclass = 1) :
    Darkens P r q now ↔ ¬ (resolveQuestion P r q now).Ignored := by
  unfold Darkens resolveQuestion
  rw [if_neg (not_not.mpr hclass)]
  cases decomposeName P (unescapeName q.name) with
  | error e =>
    dsimp only
    rw [not_ignored_forwarded, Reply.Lasting]
    simp
  | ok parsed =>
    obtain ⟨labels, aliasName⟩ := parsed
    dsimp only
    unfold resolveNamed
    cases hrescued : rescued P r labels aliasName q.toQuestion now with
    | none => exact routeDarkens_iff.symm
    | some bare =>
      have hhit := isHit_of_rescued hrescued
      have hcode : bare.rcode = rcodeSuccess := by
        simp only [Reply.isHit, Bool.and_eq_true, decide_eq_true_eq] at hhit
        exact hhit.1.2
      dsimp only
      rw [not_ignored_authoritative]
      simp only [Reply.ZeroTTL, hcode]

/-! ## Stamps -/

/-- No stamp is ahead of the clock. -/
def Stamped (c : ResponseCache) : Prop :=
  ∀ k e, c.entries.lookup k = some e → e.stamp ≤ c.nextStamp

theorem Stamped.step (s : ClockedCache) (call : CacheCall) (h : Stamped s.cache) :
    Stamped (cacheStep s call).cache := by
  cases call with
  | get key now =>
    intro k e he
    obtain ⟨e₀, he₀, heq⟩ := lookup_get2 he
    have hstamp : e.stamp = e₀.stamp := by rw [heq]
    show e.stamp ≤ (get2 s.cache key now).2.nextStamp
    rw [hstamp, (get2_frame s.cache key now).2]
    exact h k e₀ he₀
  | put key rrs rcode aa now =>
    show Stamped (putAnswer s.cache key rrs rcode aa now)
    cases hentry : entryFor rrs rcode aa now with
    | none => rwa [putAnswer_of_none hentry]
    | some e₁ =>
      rw [putAnswer_of_some hentry]
      intro k e he
      rw [storeEntry_nextStamp]
      by_cases hk : k = key
      · subst hk
        obtain ⟨lastHit, hself⟩ := storeEntry_lookup_self s.cache k e₁ now
        rw [hself, Option.some.injEq] at he
        rw [← he]
      · have := h k e (lookup_of_storeEntry_ne hk he)
        omega

theorem stamped_run (maxEntries start : Int) (run : List CacheCall) :
    Stamped (run.foldl cacheStep ⟨newResponseCache maxEntries, start⟩).cache := by
  have hnew : Stamped (newResponseCache maxEntries) := by
    intro k e he
    cases he
  have hall : EachStep cacheStep (fun _ _ => True) ⟨newResponseCache maxEntries, start⟩ run :=
    EachStep.of_forall_mem (fun _ _ _ => trivial)
  exact @EachStep.invariant _ _ _ _ (fun s => Stamped s.cache) (fun s call h _ => h.step s call) _ _
    hnew hall

/-! ## After the refresh -/

/-- A read of the key at `t` is answered from the entry with the given stamp. -/
def AnswersFrom (c : ResponseCache) (key : CacheKey) (t : Int) (stamp : Nat) : Prop :=
  ∃ e, c.entries.lookup key = some e ∧ e.stamp = stamp ∧ (get2 c key t).1 = e.answer t

theorem answersFrom_iff {t : Int} :
    AnswersFrom c key t stamp ↔
      ∃ e, c.entries.lookup key = some e ∧ e.stamp = stamp ∧ e.ServableAt t := by
  constructor
  · rintro ⟨e, he, hstamp, hanswer⟩
    refine ⟨e, he, hstamp, ?_⟩
    by_contra hserve
    rw [get2_of_not_servable he hserve] at hanswer
    exact CacheEntry.answer_ne_missed hanswer.symm
  · rintro ⟨e, he, hstamp, hserve⟩
    exact ⟨e, he, hstamp, by rw [get2_of_servable he hserve]⟩

/-- From here on no read of the key is answered from the entry with the stamp. -/
def NeverAnswers (s : ClockedCache) (key : CacheKey) (stamp : Nat) : Prop :=
  ∀ run t, EachStep cacheStep InOrder s run → (run.foldl cacheStep s).clock ≤ t →
    ¬ AnswersFrom (run.foldl cacheStep s).cache key t stamp

/-- The stamp was given out, and no entry of the key that carries it is served
from now on. -/
def Spent (key : CacheKey) (stamp : Nat) (s : ClockedCache) : Prop :=
  stamp ≤ s.cache.nextStamp ∧
    ∀ e, s.cache.entries.lookup key = some e → e.stamp = stamp → ¬ e.ServableAt s.clock

theorem spent_of_stored {e : CacheEntry}
    (h : stamp ≤ c.nextStamp) : Spent key stamp ⟨storeEntry c key e now, now⟩ := by
  refine ⟨by rw [storeEntry_nextStamp]; omega, ?_⟩
  intro e' he' hstamp
  obtain ⟨lastHit, hself⟩ := storeEntry_lookup_self c key e now
  rw [hself, Option.some.injEq] at he'
  rw [← he'] at hstamp
  -- the new entry's stamp is later than any given out before
  replace hstamp : c.nextStamp + 1 = stamp := hstamp
  omega

theorem Spent.step {key : CacheKey} {stamp : Nat} (s : ClockedCache) (call : CacheCall)
    (h : Spent key stamp s) (hok : InOrder s call) : Spent key stamp (cacheStep s call) := by
  obtain ⟨hgiven, hspent⟩ := h
  cases call with
  | get k now =>
    refine ⟨by rw [cacheStep, (get2_frame _ _ _).2]; exact hgiven, ?_⟩
    intro e he hstamp hserve
    obtain ⟨e₀, he₀, heq⟩ := lookup_get2 he
    rw [heq] at hstamp hserve
    exact hspent e₀ he₀ hstamp (CacheEntry.ServableAt.earlier (e := e₀) hserve hok)
  | put k rrs rcode aa now =>
    rw [cacheStep]
    cases hentry : entryFor rrs rcode aa now with
    | none =>
      rw [putAnswer_of_none hentry]
      exact ⟨hgiven, fun e he hstamp hserve => hspent e he hstamp (hserve.earlier hok)⟩
    | some e₁ =>
      rw [putAnswer_of_some hentry]
      by_cases hk : key = k
      · subst hk
        exact spent_of_stored hgiven
      · refine ⟨by rw [storeEntry_nextStamp]; omega, ?_⟩
        intro e he hstamp hserve
        exact hspent e (lookup_of_storeEntry_ne hk he) hstamp (hserve.earlier hok)

theorem Spent.neverAnswers {s : ClockedCache}
    (h : Spent key stamp s) : NeverAnswers s key stamp := by
  intro run t hrun ht
  rw [answersFrom_iff]
  rintro ⟨e, he, hstamp, hserve⟩
  exact (hrun.invariant Spent.step h).2 e he hstamp (hserve.earlier ht)

theorem qclass_of_outcome
    (h : (resolveQuestion P r q now).isNegative = true ∨ (resolveQuestion P r q now).ZeroTTL) :
    q.qclass = 1 := by
  by_contra hclass
  have hrefused : resolveQuestion P r q now = ⟨⟨[], rcodeRefused, false⟩, false⟩ := by
    unfold resolveQuestion
    rw [if_pos hclass]
  rw [hrefused] at h
  simp [Reply.isNegative, Reply.ZeroTTL] at h

/-- **A completed refresh and the old positive.** No later read is answered from the old
entry exactly when its stale window is over, or the deciding source is one whose word the
cache takes. -/
theorem refresh_ends_old_iff (P : Primitives) (r : RoutingResolver) (c : ResponseCache)
    (q : ClassedQuestion) (e : CacheEntry) (started finished : Int) (hstamped : Stamped c)
    (hold : c.entries.lookup (cacheKeyFor P q) = some e) (hpos : 0 < e.rrs.length)
    (hnew : (resolveQuestion P r q started).isNegative = true ∨
      (resolveQuestion P r q started).ZeroTTL) :
    NeverAnswers ⟨(resolveShared P r c q .leads started finished).2, finished⟩ (cacheKeyFor P q)
        e.stamp ↔
      (e.expiresAt ≤ finished ∧ e.staleUntil ≤ finished) ∨ Darkens P r q started := by
  have hgiven : e.stamp ≤ c.nextStamp := hstamped _ _ hold
  have hover : (e.expiresAt ≤ finished ∧ e.staleUntil ≤ finished) ↔ ¬ e.ServableAt finished := by
    unfold CacheEntry.ServableAt
    omega
  rw [hover, darkens_iff (qclass_of_outcome hnew), resolveShared]
  dsimp only
  cases hentry : entryFor (resolveQuestion P r q started).rrs (resolveQuestion P r q started).rcode
      (resolveQuestion P r q started).aa finished with
  | none =>
    -- the put touches nothing: the old entry is served as long as its window is open
    have hignored : (resolveQuestion P r q started).Ignored := (entryFor_eq_none_iff hnew).mp hentry
    rw [putAnswer_of_none hentry, or_iff_left (not_not.mpr hignored)]
    constructor
    · intro hnever hserve
      exact hnever [] finished trivial le_rfl (answersFrom_iff.mpr ⟨e, hold, rfl, hserve⟩)
    · intro hserve
      refine Spent.neverAnswers ⟨hgiven, ?_⟩
      intro e' he' _
      rw [hold, Option.some.injEq] at he'
      rwa [← he']
  | some e' =>
    have hstored : ¬ (resolveQuestion P r q started).Ignored := by
      intro hignored
      have hnone := (@entryFor_eq_none_iff _ finished hnew).mpr hignored
      rw [hnone] at hentry
      cases hentry
    rw [putAnswer_of_some hentry]
    exact iff_of_true (spent_of_stored hgiven).neverAnswers (.inr hstored)

/-! ## A name that is gone -/

namespace RefreshSample

def question : ClassedQuestion := { name := [0x7a, 0x7a, 0x2e], qtype := 1, qclass := 1 }

def address : AnswerRR := .freens { name := question.name, ttl := 60, rdata := .a [10, 0, 0, 1] }

def cached : ResponseCache :=
  putAnswer (newResponseCache 0) (cacheKeyFor Toy.primitives question) [address] rcodeSuccess true
    1000

def entry : CacheEntry :=
  { rrs := [address], rcode := rcodeSuccess, aa := true, expiresAt := 1060, lastHit := 1000
    stamp := 1 }

def resolver (route : Route) : RoutingResolver where
  freens := some { lookup := fun _ _ => .ok none, lookupByHash := none, recoveryEvidence := none }
  aliasPins _ := Toy.checksum (Toy.publicKey 1)
  reservedTLDs _ := false
  allowReserved := false
  resolveAliasClaim _ _ := ⟨[], false, false⟩
  clock := 1050
  cfg := some { tldRoutes := fun _ => some route, suffixRescue := false }
  upstream := some (fun _ => some ([], rcodeNameError))

theorem cached_stamped : Stamped cached :=
  stamped_run 0 1000 [.put (cacheKeyFor Toy.primitives question) [address] rcodeSuccess true 1000]

end RefreshSample

theorem refresh_ends_old_freens :
    Darkens Toy.primitives (RefreshSample.resolver .freens) RefreshSample.question 1050 ∧
    NeverAnswers
      ⟨(resolveShared Toy.primitives (RefreshSample.resolver .freens) RefreshSample.cached
        RefreshSample.question .leads 1050 1050).2, 1050⟩
      (cacheKeyFor Toy.primitives RefreshSample.question) RefreshSample.entry.stamp := by
  have hdark : Darkens Toy.primitives (RefreshSample.resolver .freens) RefreshSample.question
      1050 := by
    rw [darkens_iff rfl]
    decide +kernel
  refine ⟨hdark, ?_⟩
  exact (refresh_ends_old_iff Toy.primitives (RefreshSample.resolver .freens) RefreshSample.cached
    RefreshSample.question RefreshSample.entry 1050 1050 RefreshSample.cached_stamped
    (by decide +kernel) (by decide) (.inl (by decide +kernel))).mpr (.inr hdark)

/-- **A withdrawn name served on.** The refresh completes with NXDOMAIN, and the old address
is still served. -/
theorem withdrawn_name_served :
    freensReply Toy.primitives (RefreshSample.resolver .freensFirst) [] [0x7a, 0x7a]
      RefreshSample.question.toQuestion 1050 = ⟨[], rcodeNameError, false⟩ ∧
    let refreshed := resolveShared Toy.primitives (RefreshSample.resolver .freensFirst)
      RefreshSample.cached RefreshSample.question .leads 1050 1050
    let key := cacheKeyFor Toy.primitives RefreshSample.question
    refreshed.1 = ⟨⟨[], rcodeNameError, false⟩, false⟩ ∧
    (get2 refreshed.2 key 1055).1 =
      ⟨copyWithTTL [RefreshSample.address] 5, rcodeSuccess, true, .fresh⟩ ∧
    (get2 refreshed.2 key 1100).1 =
      ⟨copyWithTTL [RefreshSample.address] 30, rcodeSuccess, true, .stale⟩ ∧
    (get2 refreshed.2 key 22659).1 =
      ⟨copyWithTTL [RefreshSample.address] 1, rcodeSuccess, true, .stale⟩ := by
  decide +kernel

end Freens.Resolver
