/-
**THE REUSE WINDOW AT THE RESOLVER** (§8.4).

With a tombstone in the set the resolver answers only when some claim left by the
ratchet continues the lease that died last. The order of claims then picks the
winner, so what bounds its age is the date of a claim that continues the lease.
-/
import Freens.Resolver.ClaimSet
import Freens.Toy

namespace Freens.Resolver

open Library Wire Claims Dht

/-- **A tombstone**: a carrier that proves the lease of `ph`, expired, its window open. -/
structure Tombstone (P : Primitives) (c : Collected) (aliasName : Bytes) (now : Int) (ph : Bytes)
    (expires : Nat) : Prop where
  carried : ∃ env ∈ c.offered, env.record.expires.toNat = expires ∧
    ∃ claim, claimEvidence P env aliasName now = some (claim, ph)
  dead : (expires : Int) ≤ now
  inWindow : now < expires + 2592000

variable {P : Primitives} {c : Collected} {aliasName : Bytes} {now : Int} {ph : Bytes}

theorem Tombstone.screened {expires : Nat} (h : Tombstone P c aliasName now ph expires)
    (hnow : now + 2592000 < 2 ^ 63) :
    .dead expires ph ∈ c.offered.map (screenEnvelope P c aliasName now) := by
  obtain ⟨env, henv, hexpires, claim, hevidence⟩ := h.carried
  have hdead := h.dead
  have hopen := h.inWindow
  subst hexpires
  refine List.mem_map.mpr ⟨env, henv, ?_⟩
  exact screenEnvelope_of_evidence (claimEvidence_eq_some_iff.mp hevidence) (by omega) hdead hopen

theorem tombstone_of_screened {expires : Int} (hzero : 0 ≤ now) (hnow : now + 2592000 < 2 ^ 63)
    (hpos : 0 < expires) (h : .dead expires ph ∈ c.offered.map (screenEnvelope P c aliasName now)) :
    ∃ n : Nat, expires = n ∧ Tombstone P c aliasName now ph n := by
  obtain ⟨env, henv, hdead⟩ := List.mem_map.mp h
  obtain ⟨hexpires, hpast, hopen, claim, hevidence⟩ := evidence_of_screenEnvelope hdead
  -- a positive signed reading is the expiry itself
  have hlt : env.record.expires.toNat < 2 ^ 63 := by
    by_contra hge
    have hneg := int64_of_ge (not_lt.mp hge)
    have hword := env.record.expires.toNat_lt
    omega
  rw [int64_of_lt hlt] at hexpires
  have hdead : (env.record.expires.toNat : Int) ≤ now := by
    rw [UInt64.le_iff_toNat_le, uint64_toNat hzero (by omega)] at hpast
    omega
  rw [windowEnd_of_lt (by omega)] at hopen
  exact ⟨env.record.expires.toNat, hexpires,
    ⟨env, henv, rfl, claim, claimEvidence_eq_some_iff.mpr hevidence⟩, hdead, hopen⟩

/-- **Inside a reuse window** a tld_id is served only behind a kept claim, dated no earlier,
that is the lease's own or has a carrier created before the lease expired. -/
theorem served_behind_continuity {l : PastHorizonLedger} {ph : Bytes} {expires : Nat}
    (htomb : Tombstone P c aliasName now ph expires) (hpos : 0 < expires)
    (hnow : now + 2592000 < 2 ^ 63)
    (hserved : (resolveClaimSet P l aliasName now c).1.tldID ≠ []) :
    ∃ w ∈ keptClaims P l aliasName now c,
      (resolveClaimSet P l aliasName now c).1.tldID = w.claim.tldID ∧
      (∀ lc ∈ keptClaims P l aliasName now c, lessOrderKey lc.claim w.claim = false) ∧
      ∃ lastPH last, Tombstone P c aliasName now lastPH last ∧
        (∀ ph' expires', Tombstone P c aliasName now ph' expires' → expires' ≤ last) ∧
        ∃ lc ∈ keptClaims P l aliasName now c,
          (lc.ph = lastPH ∨ lc.created < last) ∧ w.claim.timestamp ≤ lc.claim.timestamp := by
  have hspec := scan_spec (P := P) c aliasName now c.offered
  have hzero : 0 ≤ now := by
    have hdead := htomb.dead
    omega
  have hlatest : ∀ ph' expires', Tombstone P c aliasName now ph' expires' →
      (expires' : Int) ≤ (scan P c aliasName now c.offered).maxDeadExpires := by
    intro ph' expires' h
    exact hspec.latest _ _ (h.screened hnow)
  have hopen : 0 < (scan P c aliasName now c.offered).maxDeadExpires := by
    have hle := hlatest ph expires htomb
    omega
  obtain ⟨last, hlast, hfound⟩ := tombstone_of_screened hzero hnow hopen (hspec.found hopen)
  obtain ⟨w, hw, htld, hfirst, hcontinuity⟩ := winner_of_resolveClaimSet hserved
  obtain ⟨lc, hlc, hcontinues⟩ := hcontinuity hopen
  refine ⟨w, hw, htld, hfirst, _, last, hfound, ?_, lc, hlc, ?_,
    timestamp_le_of_not_less (hfirst lc hlc)⟩
  · intro ph' expires' h
    have hle := hlatest ph' expires' h
    omega
  · -- the code's test, with the expiry it remembers
    rw [ClaimScan.continues, Bool.or_eq_true, Bool.and_eq_true, decide_eq_true_eq,
      decide_eq_true_eq, decide_eq_true_eq] at hcontinues
    rcases hcontinues with hcreated | ⟨_, hph⟩
    · exact .inr (by rw [← hlast]; exact hcreated)
    · exact .inl hph

namespace ReuseSample

open Toy

/-- These envelopes collected, nothing else. -/
def offers (envs : List SignedEnvelope) : Collected :=
  { envs := .ok envs, witnessSet := none, oracle := none, reAttestSets := ∅ }

def lapsed : AliasClaim := minedClaim 1 aliasA 1000 quorum

def lapsedCarrier : SignedEnvelope := carrier 1 lapsed 1000 5000

def lapsedPH : Bytes :=
  minedChecksum (buildPrefix aliasA (minedChecksum (publicKey 1)) 1000 (publicKey 1))

def renewed : Collected := offers [lapsedCarrier, carrier 1 lapsed 6000 1000000]

def usurped : Collected :=
  offers [lapsedCarrier, carrier 2 (minedClaim 2 aliasA 10000 quorum) 4000 1000000]

theorem lapsed_evidence : claimEvidence mined lapsedCarrier aliasA 20000 = some (lapsed, lapsedPH) := by
  decide +kernel

theorem tombstone_of_mem {c : Collected} (h : lapsedCarrier ∈ c.offered) :
    Tombstone mined c aliasA 20000 lapsedPH 5000 :=
  ⟨⟨lapsedCarrier, h, rfl, lapsed, lapsed_evidence⟩, by decide, by decide⟩

end ReuseSample

theorem resumed_lease_served :
    (resolveClaimSet Toy.mined ∅ Toy.aliasA 20000 ReuseSample.renewed).1.tldID ≠ [] ∧
    ∃ w ∈ keptClaims Toy.mined ∅ Toy.aliasA 20000 ReuseSample.renewed,
      (resolveClaimSet Toy.mined ∅ Toy.aliasA 20000 ReuseSample.renewed).1.tldID = w.claim.tldID ∧
      ∃ lc ∈ keptClaims Toy.mined ∅ Toy.aliasA 20000 ReuseSample.renewed,
        w.claim.timestamp ≤ lc.claim.timestamp := by
  have hserved : (resolveClaimSet Toy.mined ∅ Toy.aliasA 20000 ReuseSample.renewed).1.tldID ≠ [] := by
    decide +kernel
  have htomb : Tombstone Toy.mined ReuseSample.renewed Toy.aliasA 20000 ReuseSample.lapsedPH 5000 :=
    ReuseSample.tombstone_of_mem List.mem_cons_self
  obtain ⟨w, hw, htld, _, _, _, _, _, lc, hlc, _, hle⟩ :=
    served_behind_continuity htomb (by decide) (by decide) hserved
  exact ⟨hserved, w, hw, htld, lc, hlc, hle⟩

/-- **A new claim is served inside the window** of a dead lease, its carrier dated before
the expiry. -/
theorem new_claim_served_in_window :
    Tombstone Toy.mined ReuseSample.usurped Toy.aliasA 20000 ReuseSample.lapsedPH 5000 ∧
      (resolveClaimSet Toy.mined ∅ Toy.aliasA 20000 ReuseSample.usurped).1.tldID ≠ [] ∧
      ¬ ∃ lc ∈ (scan Toy.mined ReuseSample.usurped Toy.aliasA 20000
          ReuseSample.usurped.offered).liveClaims,
        (resolveClaimSet Toy.mined ∅ Toy.aliasA 20000 ReuseSample.usurped).1.tldID =
            lc.claim.tldID ∧
          (lc.ph = ReuseSample.lapsedPH ∨ lc.claim.timestamp.toNat < 5000) := by
  have hserved : (resolveClaimSet Toy.mined ∅ Toy.aliasA 20000 ReuseSample.usurped).1.tldID ≠ [] ∧
      ∀ lc ∈ (scan Toy.mined ReuseSample.usurped Toy.aliasA 20000
        ReuseSample.usurped.offered).liveClaims,
        lc.ph ≠ ReuseSample.lapsedPH ∧ 5000 ≤ lc.claim.timestamp.toNat := by
    decide +kernel
  obtain ⟨hany, hnew⟩ := hserved
  refine ⟨ReuseSample.tombstone_of_mem List.mem_cons_self, hany, ?_⟩
  rintro ⟨lc, hlc, _, hph | hearlier⟩
  · exact (hnew lc hlc).1 hph
  · have hlater := (hnew lc hlc).2
    omega

end Freens.Resolver
