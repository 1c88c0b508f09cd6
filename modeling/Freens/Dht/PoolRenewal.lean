/-
**A RENEWAL ON ITS WAY INTO THE POOL** (`dht/claims_pool.go`: `OfferSeen`).

The pool orders carriers by the claim's tuple and does not look at identities: a
full key refuses a carrier that does not precede its second claim, and one that
does drops the second claim, whoever made it.
-/
import Freens.Dht.PoolOrder

namespace Freens.Dht

open Library Naming Wire Claims

variable {P : Primitives}

/-! ## What an offer makes of a held key -/

/-- The claim has this identity. -/
def HasPrefix (P : Primitives) (ph : Bytes) (m : PooledClaim) : Prop := m.claim.prefixHash P = .ok ph

/-- The identities of a key's claims. -/
def identities (P : Primitives) (l : List PooledClaim) : Finset (Except NamingError Bytes) :=
  (l.map (fun m => m.claim.prefixHash P)).toFinset

theorem mem_identities {l : List PooledClaim} {i : Except NamingError Bytes} :
    i ∈ identities P l ↔ ∃ m ∈ l, m.claim.prefixHash P = i := by
  simp [identities]

variable {pc : PooledClaim} {cur : List PooledClaim} {ph : Bytes}
  {p : ClaimPool} {key : Bytes} {env : SignedEnvelope} {rest : List PooledClaim}
  {best : PooledClaim}

theorem noEviction_of_held (hheld : p.members key ≠ []) : NoEviction p key pc := by
  intro hnew
  rw [ClaimPool.members, hnew] at hheld
  exact absurd rfl hheld

theorem members_offerSeen {now fs : Int} (hkey : key.length = 32) (hheld : p.members key ≠ []) :
    (offerSeen P p key env now fs).2.members key =
      match poolScreen P env with
      | none => p.members key
      | some (pc, _) => admitTo (p.members key) pc := by
  unfold offerSeen
  rw [if_neg (by simp [hkey])]
  cases poolScreen P env with
  | none => rfl
  | some screened =>
    obtain ⟨pc, ph⟩ := screened
    show (ClaimPool.enter _ _ _).2.members key = admitTo (p.members key) pc
    rw [members_enter (noEviction_of_held (by simpa using hheld)), if_pos rfl, stamp_members]

/-! ## Which newcomers a key takes in -/

/-- Pooled already, or the key is full and the newcomer does not precede its second claim. -/
def TurnedAway (cur : List PooledClaim) (pc : PooledClaim) : Prop :=
  (∃ m ∈ cur, m.h = pc.h) ∨
    ∃ best worst rest, cur = best :: worst :: rest ∧ lessOrderKey pc.claim worst.claim = false

theorem takes_iff : Takes cur pc ↔ ¬ TurnedAway cur pc := by
  constructor
  · rintro htakes (⟨m, hm, hh⟩ | ⟨best, worst, rest, rfl, hless⟩)
    · exact htakes.1 m hm hh
    · exact absurd (htakes.2 worst rfl) (by simp [hless])
  · intro h
    refine ⟨fun m hm hh => h (.inl ⟨m, hm, hh⟩), fun worst hworst => ?_⟩
    rcases cur with _ | ⟨a, _ | ⟨b, rest⟩⟩
    · cases hworst
    · cases hworst
    · obtain rfl := Option.some.inj hworst
      by_contra hno
      exact h (.inr ⟨a, b, rest, rfl, by simpa using hno⟩)

theorem admitTo_of_turnedAway (h : TurnedAway cur pc) : admitTo cur pc = cur := by
  rw [admitTo_eq, if_neg fun htakes => takes_iff.mp htakes h]

theorem mem_admitTo_of_taken (hcur : cur = best :: rest) (h : ¬ TurnedAway cur pc)
    (m : PooledClaim) : m ∈ admitTo cur pc ↔ m = best ∨ m = pc := by
  rw [admitTo_eq, if_pos (takes_iff.mpr h), mem_place, hcur, List.take_succ_cons, List.take_zero,
    List.mem_singleton]

/-! ## Renewals -/

/-- **The renewal reached the key**: a carrier lasts as long as the offered one, and no
identity was lost. -/
structure Renewed (P : Primitives) (cur after : List PooledClaim) (ph : Bytes) (expires : UInt64) :
    Prop where
  lasting : ∃ m ∈ after, HasPrefix P ph m ∧ expires ≤ m.env.record.expires
  kept : (identities P cur).card ≤ (identities P after).card

/-- **The renewal has a place**: turned away it is not needed, taken in it drops no third
identity. -/
structure HasPlace (P : Primitives) (cur : List PooledClaim) (env : SignedEnvelope) (ph : Bytes) :
    Prop where
  refused : (∀ pc ph', poolScreen P env = some (pc, ph') → TurnedAway cur pc) →
    ∃ m ∈ cur, HasPrefix P ph m ∧ env.record.expires ≤ m.env.record.expires
  taken : ∀ pc ph', poolScreen P env = some (pc, ph') → ¬ TurnedAway cur pc →
    ∀ best rest, cur = best :: rest → ∀ m ∈ rest,
      HasPrefix P ph m ∨ m.claim.prefixHash P = best.claim.prefixHash P

theorem hasPlace_iff_of_refused
    (h : ∀ pc ph', poolScreen P env = some (pc, ph') → TurnedAway cur pc) :
    HasPlace P cur env ph ↔
      ∃ m ∈ cur, HasPrefix P ph m ∧ env.record.expires ≤ m.env.record.expires :=
  ⟨fun hplace => hplace.refused h,
    fun hlasting => ⟨fun _ => hlasting, fun pc ph' hscreen hno => absurd (h pc ph' hscreen) hno⟩⟩

theorem renewed_self_iff {expires : UInt64} :
    Renewed P cur cur ph expires ↔
      ∃ m ∈ cur, HasPrefix P ph m ∧ expires ≤ m.env.record.expires :=
  ⟨fun h => h.lasting, fun h => ⟨h, le_rfl⟩⟩

theorem renewed_taken_iff (hcur : cur = best :: rest) (htaken : ¬ TurnedAway cur pc)
    (hpc : HasPrefix P ph pc) (hpooled : ∃ m ∈ cur, HasPrefix P ph m) :
    Renewed P cur (admitTo cur pc) ph pc.env.record.expires ↔
      ∀ m ∈ rest, HasPrefix P ph m ∨ m.claim.prefixHash P = best.claim.prefixHash P := by
  have hmem := mem_admitTo_of_taken hcur htaken
  have hsub : identities P (admitTo cur pc) ⊆ identities P cur := by
    intro i hi
    obtain ⟨m, hm, hid⟩ := mem_identities.mp hi
    rcases (hmem m).mp hm with heq | heq
    · exact mem_identities.mpr ⟨best, by simp [hcur], heq ▸ hid⟩
    · obtain ⟨m', hm', hcarries⟩ := hpooled
      refine mem_identities.mpr ⟨m', hm', ?_⟩
      rw [heq, show pc.claim.prefixHash P = .ok ph from hpc] at hid
      rw [← hid]
      exact hcarries
  constructor
  · intro h m hm
    -- as many identities and none new: the same ones
    have hall := Finset.eq_of_subset_of_card_le hsub h.kept
    have hid : m.claim.prefixHash P ∈ identities P cur :=
      mem_identities.mpr ⟨m, by simp [hcur, hm], rfl⟩
    rw [← hall] at hid
    obtain ⟨m', hm', heq⟩ := mem_identities.mp hid
    rcases (hmem m').mp hm' with hbest | hnew
    · right
      rw [← heq, hbest]
    · left
      show m.claim.prefixHash P = .ok ph
      rw [← heq, hnew]
      exact hpc
  · intro h
    have hin : pc ∈ admitTo cur pc := (hmem pc).mpr (.inr rfl)
    refine ⟨⟨pc, hin, hpc, UInt64.le_refl _⟩, Finset.card_le_card ?_⟩
    intro i hi
    obtain ⟨m, hm, hid⟩ := mem_identities.mp hi
    rw [hcur] at hm
    rcases List.mem_cons.mp hm with heq | hrest
    · exact mem_identities.mpr ⟨best, (hmem best).mpr (.inl rfl), heq ▸ hid⟩
    · rcases h m hrest with hcarries | hsame
      · refine mem_identities.mpr ⟨pc, hin, ?_⟩
        rw [← hid, show m.claim.prefixHash P = .ok ph from hcarries]
        exact hpc
      · exact mem_identities.mpr ⟨best, (hmem best).mpr (.inl rfl), hsame ▸ hid⟩

/-- **When a renewal reaches the pool**: exactly when it has a place. -/
theorem renewal_lands_iff (P : Primitives) {p : ClaimPool} {key ph : Bytes} {env : SignedEnvelope}
    {claim : AliasClaim} {now fs : Int} (hkey : key.length = 32)
    (hclaim : decodeAliasClaim P env.record.claim = .ok claim) (hph : claim.prefixHash P = .ok ph)
    (hpooled : ∃ m ∈ p.members key, HasPrefix P ph m) :
    Renewed P (p.members key) ((offerSeen P p key env now fs).2.members key) ph
        env.record.expires ↔
      HasPlace P (p.members key) env ph := by
  obtain ⟨held, hheld, _⟩ := hpooled
  have hne : p.members key ≠ [] := List.ne_nil_of_mem hheld
  rw [members_offerSeen hkey hne]
  generalize p.members key = cur at *
  cases hscreen : poolScreen P env with
  | none =>
    show Renewed P cur cur ph env.record.expires ↔ _
    rw [renewed_self_iff, hasPlace_iff_of_refused]
    intro pc ph' heq
    exact absurd (hscreen.symm.trans heq) (by simp)
  | some screened =>
    obtain ⟨pc, ph'⟩ := screened
    obtain ⟨henv, _, hdecode, _⟩ := poolScreen_fields hscreen
    have hpc : HasPrefix P ph pc := by
      rw [hclaim, Except.ok.injEq] at hdecode
      rw [hdecode] at hph
      exact hph
    show Renewed P cur (admitTo cur pc) ph env.record.expires ↔ _
    by_cases haway : TurnedAway cur pc
    · rw [admitTo_of_turnedAway haway, renewed_self_iff, hasPlace_iff_of_refused]
      intro pc' ph'' heq
      rw [hscreen, Option.some.injEq, Prod.mk.injEq] at heq
      exact heq.1 ▸ haway
    · obtain ⟨best, rest, hcur⟩ := List.exists_cons_of_ne_nil hne
      have hiff := renewed_taken_iff hcur haway hpc ⟨held, hheld, ‹_›⟩
      rw [henv] at hiff
      rw [hiff]
      constructor
      · intro h
        refine ⟨fun hall => absurd (hall pc ph' hscreen) haway, ?_⟩
        intro pc' ph'' _ _ best' rest' hcur' m hm
        rw [hcur, List.cons.injEq] at hcur'
        rw [← hcur'.1]
        exact h m (hcur'.2 ▸ hm)
      · intro h
        exact h.taken pc ph' hscreen haway best rest hcur

namespace PoolSample

open Toy

def first : AliasClaim := minedClaim 1 aliasA 200 quorum

def second : AliasClaim := minedClaim 2 aliasA 500 quorum

def lone : ClaimPool := (offerSeen mined newClaimPool keyA (carrier 2 second 1000 87400) 2000 0).2

def pair : ClaimPool := (offerSeen mined lone keyA (carrier 1 first 1000 87400) 2000 0).2

def renewed (n : UInt8) (claim : AliasClaim) : SignedEnvelope := carrier n claim 50000 137400

def secondIdentity : Bytes :=
  minedChecksum (buildPrefix aliasA second.tldID second.timestamp second.claimantPK)

end PoolSample

section
open Toy PoolSample

theorem lone_renewal_lands :
    Renewed mined (lone.members keyA)
      ((offerSeen mined lone keyA (renewed 2 second) 60000 0).2.members keyA) secondIdentity
      137400 := by
  have hone : (lone.members keyA).length = 1 ∧
      (lone.members keyA).any (fun m => m.claim.prefixHash mined = .ok secondIdentity) = true ∧
      ((poolScreen mined (renewed 2 second)).all
        (fun s => (lone.members keyA).all (fun m => m.h ≠ s.1.h))) = true ∧
      (poolScreen mined (renewed 2 second)).isSome = true := by
    decide +kernel
  obtain ⟨hlen, hident, hfresh, hscreened⟩ := hone
  obtain ⟨m, hlist⟩ := List.length_eq_one_iff.mp hlen
  obtain ⟨⟨pc, ph⟩, hscreen⟩ := Option.isSome_iff_exists.mp hscreened
  rw [hlist] at hident
  rw [hlist, hscreen] at hfresh
  have hheld : m.claim.prefixHash mined = .ok secondIdentity := by simpa using hident
  have hnew : m.h ≠ pc.h := by simpa using hfresh
  refine (@renewal_lands_iff mined lone keyA secondIdentity (renewed 2 second) second 60000 0
    (by decide +kernel) (by decide +kernel) (by decide +kernel)
    ⟨m, by simp [hlist], hheld⟩).mpr ⟨?_, ?_⟩
  · intro hall
    rcases hall pc ph hscreen with ⟨m', hm', heq⟩ | ⟨best, worst, rest, hfull, _⟩
    · rw [hlist, List.mem_singleton] at hm'
      exact absurd (hm' ▸ heq) hnew
    · rw [hlist] at hfull
      cases hfull
  · intro pc' ph' _ _ best rest hcur m' hm'
    rw [hlist, List.cons.injEq] at hcur
    rw [← hcur.2] at hm'
    exact absurd hm' List.not_mem_nil

/-- **Renewals that do not reach the pool**: in a full key the second's is refused, and the
first's drops the second. -/
theorem renewals_lost :
    (pair.members keyA).map (·.env) = [carrier 1 first 1000 87400, carrier 2 second 1000 87400] ∧
      ((offerSeen mined pair keyA (renewed 2 second) 60000 0).2.members keyA).map (·.env) =
        [carrier 1 first 1000 87400, carrier 2 second 1000 87400] ∧
      ((offerSeen mined pair keyA (renewed 1 first) 60000 0).2.members keyA).map (·.env) =
        [carrier 1 first 1000 87400, renewed 1 first] := by
  decide +kernel

end

end Freens.Dht
