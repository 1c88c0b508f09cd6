/-
**A WALK RETURNS THE BEST OFFER** (`dht/transport.go`: `IterativeGetDetailed`;
`wire/wire.go`: `EnvelopeWins`): the maximum of everything the probed peers
offered, however the offers were spread over rounds.
-/
import Freens.Dht.LookupSpec
import Freens.Dht.WalkLoop

namespace Freens.Dht

open Library Wire

variable {P : Primitives}

/-- Sequence, then hash. -/
def rank (P : Primitives) (e : SignedEnvelope) : UInt64 × Bytes :=
  (e.record.sequence, e.recordHash P)

variable {a b e : SignedEnvelope} {shortlist : List NodeContact} {rounds : Nat → Round}
  {self key : Bytes} {free : Bool}

theorem rank_eq_of_not_wins (hab : envelopeWins P a b = false)
    (hba : envelopeWins P b a = false) : rank P a = rank P b := by
  rw [Bool.eq_false_iff, ne_eq, envelopeWins_iff, Outranks] at hab hba
  unfold rank
  grind

theorem envelopeWins_of_rank_ne (h : rank P a ≠ rank P b) :
    envelopeWins P a b = true ∨ envelopeWins P b a = true := by
  by_contra hno
  rw [not_or, Bool.not_eq_true, Bool.not_eq_true] at hno
  exact h (rank_eq_of_not_wins hno.1 hno.2)

/-! ## What the probed peers offer -/

/-- The probes of a lookup: none on an island or without a free slot. -/
def probed (self key : Bytes) (shortlist : List NodeContact) (free : Bool)
    (rounds : Nat → Round) : List (NodeContact × Response) :=
  if shortlist = [] ∨ free = false then [] else (walk self key shortlist rounds).log

/-- The envelopes of an answer. -/
def Response.envs : Response → List SignedEnvelope
  | .data envs _ => envs
  | _ => []

/-- **A valid offer**: a probed peer answered with it, and its signature
verifies. -/
def Offered (P : Primitives) (probes : List (NodeContact × Response)) (e : SignedEnvelope) : Prop :=
  (∃ c response, (c, response) ∈ probes ∧ e ∈ response.envs) ∧ e.verifySignature P = true

theorem envs_getFromPeer (response : Response) : (getFromPeer response).envs = response.envs := by
  cases response with
  | error code =>
    show (if code = some 301 then Probe.throttled else Probe.answered []).envs = []
    split <;> rfl
  | _ => rfl

theorem mem_offers_walkOutcome :
    e ∈ (walkOutcome self key shortlist free rounds).offers ↔
      ∃ c response, (c, response) ∈ probed self key shortlist free rounds ∧ e ∈ response.envs := by
  unfold walkOutcome probed
  by_cases hnil : shortlist = []
  · simp [hnil, Walk.offers]
  · cases free with
    | false => simp [hnil, Walk.offers]
    | true => simp [hnil, Walk.offers, WalkState.probes, envs_getFromPeer]

theorem mem_validOffers_walkOutcome :
    e ∈ validOffers P (walkOutcome self key shortlist free rounds) ↔
      Offered P (probed self key shortlist free rounds) e := by
  rw [validOffers, List.mem_filter, mem_offers_walkOutcome]
  rfl

theorem iterativeGetDetailed_rank_congr {w w' : Walk} (h : ∀ e, e ∈ w.offers ↔ e ∈ w'.offers) :
    (iterativeGetDetailed P w).1.map (rank P) = (iterativeGetDetailed P w').1.map (rank P) := by
  have hvalid : ∀ e, e ∈ validOffers P w ↔ e ∈ validOffers P w' := by
    intro e
    rw [validOffers, validOffers, List.mem_filter, List.mem_filter, h e]
  rcases @iterativeGetDetailed_cases P w with ⟨hnil, hnone⟩ | ⟨a, ha, hbest⟩
  · rcases @iterativeGetDetailed_cases P w' with ⟨_, hnone'⟩ | ⟨b, _, hbest'⟩
    · rw [hnone, hnone']
    · have hmem := (hvalid b).mpr hbest'.mem
      rw [hnil] at hmem
      exact absurd hmem List.not_mem_nil
  · rcases @iterativeGetDetailed_cases P w' with ⟨hnil', _⟩ | ⟨b, hb, hbest'⟩
    · have hmem := (hvalid a).mp hbest.mem
      rw [hnil'] at hmem
      exact absurd hmem List.not_mem_nil
    · -- each is a valid offer of the other walk, so neither wins
      rw [ha, hb, Option.map_some, Option.map_some, rank_eq_of_not_wins
        (hbest'.top a ((hvalid a).mp hbest.mem)) (hbest.top b ((hvalid b).mpr hbest'.mem))]

/-- **The walk's result is the best offer.** `EnvelopeWins` is a strict order, total on
different ranks; the lookup returns nothing exactly when nothing valid is offered, else an
offer that wins over every other one. -/
theorem walk_returns_maximum (P : Primitives) :
    ((∀ e, envelopeWins P e e = false) ∧
      (∀ a b c, envelopeWins P a b = true → envelopeWins P b c = true →
        envelopeWins P a c = true) ∧
      ∀ a b, rank P a ≠ rank P b → envelopeWins P a b = true ∨ envelopeWins P b a = true) ∧
    (∀ (self key : Bytes) (shortlist : List NodeContact) (free : Bool) (rounds : Nat → Round),
      match (iterativeGetDetailed P (walkOutcome self key shortlist free rounds)).1 with
      | none => ∀ e, ¬ Offered P (probed self key shortlist free rounds) e
      | some best => Offered P (probed self key shortlist free rounds) best ∧
          ∀ e, Offered P (probed self key shortlist free rounds) e → rank P e ≠ rank P best →
            envelopeWins P best e = true) ∧
    ∀ w w' : Walk, (∀ e, e ∈ w.offers ↔ e ∈ w'.offers) →
      (iterativeGetDetailed P w).1.map (rank P) = (iterativeGetDetailed P w').1.map (rank P) := by
  refine ⟨⟨envelopeWins_irrefl, fun _ _ _ => envelopeWins_trans,
    fun _ _ => envelopeWins_of_rank_ne⟩, ?_, fun _ _ => iterativeGetDetailed_rank_congr⟩
  intro self key shortlist free rounds
  rcases @iterativeGetDetailed_cases P (walkOutcome self key shortlist free rounds) with
    ⟨hnil, hnone⟩ | ⟨best, hbest, htop⟩
  · rw [hnone]
    intro e he
    have hmem := mem_validOffers_walkOutcome.mpr he
    rw [hnil] at hmem
    exact absurd hmem List.not_mem_nil
  · rw [hbest]
    refine ⟨mem_validOffers_walkOutcome.mp htop.mem, ?_⟩
    intro e he hrank
    have hloses := htop.top e (mem_validOffers_walkOutcome.mpr he)
    refine (envelopeWins_of_rank_ne hrank).resolve_left ?_
    rw [hloses]
    simp

theorem walk_returns_maximum_split :
    (iterativeGetDetailed Toy.primitives (.probes [.answered
        [Toy.signedBy 1 (Toy.tldRecord 1 1 1 100 900),
          Toy.signedBy 1 (Toy.tldRecord 1 1 2 100 900)]])).1.map (rank Toy.primitives) =
      (iterativeGetDetailed Toy.primitives (.probes [
        .answered [Toy.signedBy 1 (Toy.tldRecord 1 1 2 100 900)], .failed,
        .answered [Toy.signedBy 1 (Toy.tldRecord 1 1 1 100 900)]])).1.map
          (rank Toy.primitives) := by
  refine (walk_returns_maximum Toy.primitives).2.2 _ _ ?_
  intro e
  simp only [Walk.offers, Probe.envs, List.flatMap_cons, List.flatMap_nil, List.append_nil,
    List.nil_append, List.cons_append, List.mem_cons, List.not_mem_nil, or_false]
  exact or_comm

end Freens.Dht
