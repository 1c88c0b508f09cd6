/-
**THE OWNER-CA BINDING OF AN APEX** (`renewal/renewal.go`: `EnsureTLSCA`).

Of the TLSCA slots of an RRset the current ones stay, and of the bad ones the
first is reused if no slot is current. A second current slot stays too.
-/
import Freens.Claims.Decoding
import Freens.Renewal.Renew

namespace Freens.Renewal

open Library Naming Wire

/-! ## The slots -/

section Slots

variable {P : Primitives} {wantDER : Bytes} {now : Int}

theorem isTLSCA_of_isBad {rr : RR} (h : isBad P wantDER now rr = true) : isTLSCA rr = true := by
  rw [isBad, Bool.and_eq_true] at h
  exact h.1

theorem isBad_of_not_isCurrent {rr : RR} (hca : isTLSCA rr = true)
    (hnot : isCurrent P wantDER now rr = false) : isBad P wantDER now rr = true := by
  unfold isCurrent at hnot
  unfold isBad
  rw [hca] at hnot ⊢
  rw [Bool.true_and] at hnot
  rw [hnot]
  rfl

theorem isTLSCA_and_not_isBad (rr : RR) :
    (isTLSCA rr && !isBad P wantDER now rr) = isCurrent P wantDER now rr := by
  unfold isBad isCurrent
  cases isTLSCA rr <;> cases P.sameCA rr.rdata wantDER now <;> rfl

theorem isOther_and_not_isBad (rr : RR) :
    (!isTLSCA rr && !isBad P wantDER now rr) = !isTLSCA rr := by
  unfold isBad
  cases isTLSCA rr <;> rfl

/-! ## The rebuild -/

theorem replaceFirst_filter {l : List RR}
    (hbad : ∀ rr ∈ l, isTLSCA rr = true → isBad P wantDER now rr = true)
    (hany : l.any (isBad P wantDER now) = true) :
    (replaceFirst (isBad P wantDER now) (freshSlot wantDER) l).filter isTLSCA = [freshSlot wantDER] ∧
      (replaceFirst (isBad P wantDER now) (freshSlot wantDER) l).filter (fun rr => !isTLSCA rr)
        = l.filter (fun rr => !isTLSCA rr) := by
  have hfresh : isTLSCA (freshSlot wantDER) = true := rfl
  induction l with
  | nil => cases hany
  | cons rr l ih =>
    have hrest : ∀ rr ∈ l, isTLSCA rr = true → isBad P wantDER now rr = true :=
      fun x hx => hbad x (List.mem_cons_of_mem rr hx)
    rw [replaceFirst]
    split
    next hrr =>
      -- the first bad slot: behind it every TLSCA slot goes
      have hnone : (l.filter (fun rr => !isBad P wantDER now rr)).filter isTLSCA = [] := by
        rw [List.filter_filter]
        refine List.filter_eq_nil_iff.mpr ?_
        intro x hx
        cases hca : isTLSCA x with
        | false => simp
        | true => simp [hrest x hx hca]
      refine ⟨?_, ?_⟩
      · rw [List.filter_cons_of_pos hfresh, hnone]
      · rw [List.filter_cons_of_neg (by simp [hfresh]),
          List.filter_cons_of_neg (by simp [isTLSCA_of_isBad hrr]), List.filter_filter]
        exact congrArg (fun p => l.filter p) (funext isOther_and_not_isBad)
    next hrr =>
      have hother : isTLSCA rr = false := by
        rw [Bool.eq_false_iff]
        intro hca
        exact hrr (hbad rr List.mem_cons_self hca)
      have hany' : l.any (isBad P wantDER now) = true := by
        rw [List.any_cons, Bool.or_eq_true] at hany
        exact hany.resolve_left hrr
      obtain ⟨hone, hothers⟩ := ih hrest hany'
      refine ⟨?_, ?_⟩
      · rw [List.filter_cons_of_neg (by simp [hother]), hone]
      · rw [List.filter_cons_of_pos (by simp [hother]), List.filter_cons_of_pos (by simp [hother]),
          hothers]

theorem isCurrent_of_any {rrset : List RR} (h : ¬ rrset.any (isCurrent P wantDER now) = true) :
    ∀ rr ∈ rrset, isCurrent P wantDER now rr = false := by
  intro rr hrr
  rw [Bool.eq_false_iff]
  intro hcurrent
  exact h (List.any_eq_true.mpr ⟨rr, hrr, hcurrent⟩)

theorem bindTLSCA_others (rrset : List RR) :
    (bindTLSCA P rrset wantDER now).filter (fun rr => !isTLSCA rr)
      = rrset.filter (fun rr => !isTLSCA rr) := by
  unfold bindTLSCA
  split
  next =>
    rw [List.filter_filter]
    exact congrArg (fun p => rrset.filter p) (funext isOther_and_not_isBad)
  next hcurrent =>
    split
    next hany =>
      exact (replaceFirst_filter (fun rr hrr hca =>
        isBad_of_not_isCurrent hca (isCurrent_of_any hcurrent rr hrr)) hany).2
    next =>
      split
      next => rfl
      rw [List.filter_append]
      exact List.append_nil _

/-- **Bound once**: one TLSCA record, with the current CA, and the others as they were; or a
full RRset unchanged. -/
def BoundOnce (P : Primitives) (wantDER : Bytes) (now : Int) (old new : List RR) : Prop :=
  (∃ rr, new.filter isTLSCA = [rr] ∧ P.sameCA rr.rdata wantDER now = true ∧
      new.filter (fun rr => !isTLSCA rr) = old.filter (fun rr => !isTLSCA rr)) ∨
    (Constants.maxRRsPerRecord ≤ old.length ∧ old.filter isTLSCA = [] ∧ new = old)

theorem bindTLSCA_boundOnce_iff (hsame : P.sameCA wantDER wantDER now = true) (rrset : List RR) :
    BoundOnce P wantDER now rrset (bindTLSCA P rrset wantDER now) ↔
      (rrset.filter (isCurrent P wantDER now)).length ≤ 1 := by
  simp only [BoundOnce, bindTLSCA_others, and_true]
  unfold bindTLSCA
  split
  next hcurrent =>
    -- what is left of the TLSCA slots are the current ones
    have hleft : (rrset.filter (fun rr => !isBad P wantDER now rr)).filter isTLSCA
        = rrset.filter (isCurrent P wantDER now) := by
      rw [List.filter_filter]
      exact congrArg (fun p => rrset.filter p) (funext isTLSCA_and_not_isBad)
    obtain ⟨cur, hcur, hcurrent⟩ := List.any_eq_true.mp hcurrent
    have hmem : cur ∈ rrset.filter (isCurrent P wantDER now) := List.mem_filter.mpr ⟨hcur, hcurrent⟩
    constructor
    · rintro (⟨rr, hone, _⟩ | ⟨_, hnone, _⟩)
      · rw [← hleft, hone]
        exact Nat.le_refl 1
      · have hca : isTLSCA cur = true := by
          rw [isCurrent, Bool.and_eq_true] at hcurrent
          exact hcurrent.1
        exact absurd (List.mem_filter.mpr ⟨hcur, hca⟩) (by rw [hnone]; exact List.not_mem_nil)
    · intro hle
      have hpos := List.length_pos_of_mem hmem
      obtain ⟨rr, hrr⟩ := List.length_eq_one_iff.mp (Nat.le_antisymm hle hpos)
      have hrr_current : isCurrent P wantDER now rr = true := by
        have hin : rr ∈ rrset.filter (isCurrent P wantDER now) := by simp [hrr]
        exact (List.mem_filter.mp hin).2
      rw [isCurrent, Bool.and_eq_true] at hrr_current
      exact .inl ⟨rr, hleft.trans hrr, hrr_current.2⟩
  next hcurrent =>
    have hnone := isCurrent_of_any hcurrent
    have hzero : (rrset.filter (isCurrent P wantDER now)).length ≤ 1 := by
      rw [List.filter_eq_nil_iff.mpr (fun rr hrr => by simp [hnone rr hrr])]
      exact Nat.zero_le 1
    refine iff_of_true ?_ hzero
    split
    next hany =>
      exact .inl ⟨freshSlot wantDER, (replaceFirst_filter
        (fun rr hrr hca => isBad_of_not_isCurrent hca (hnone rr hrr)) hany).1, hsame⟩
    next hany =>
      have hfree : rrset.filter isTLSCA = [] := by
        refine List.filter_eq_nil_iff.mpr ?_
        intro rr hrr hca
        exact hany (List.any_eq_true.mpr ⟨rr, hrr, isBad_of_not_isCurrent hca (hnone rr hrr)⟩)
      split
      next hfull => exact .inr ⟨hfull, hfree, rfl⟩
      refine .inl ⟨freshSlot wantDER, ?_, hsame⟩
      rw [List.filter_append, hfree]
      rfl

end Slots

/-! ## The apex -/

theorem claimAlias_of_decode {P : Primitives} {claim : Bytes} {c : Claims.AliasClaim}
    (h : Claims.decodeAliasClaim P claim = .ok c) :
    claimAlias P claim = c.aliasName ∧ 0 < c.aliasName.length := by
  have hsome : 0 < claim.length := by
    rcases claim with _ | ⟨b, rest⟩
    · rw [Claims.decodeAliasClaim_nil] at h
      cases h
    · exact Nat.succ_pos _
  refine ⟨?_, ?_⟩
  · rw [claimAlias, if_pos hsome, h]
  · -- the decoder stores the normalised alias, which is not empty
    cases hraw : P.unmarshalClaim claim with
    | none =>
      rw [Claims.decodeAliasClaim_of_not_unmarshal hraw] at h
      cases h
    | some raw =>
      rw [Claims.decodeAliasClaim_of_unmarshal hraw, bind_eq_ok] at h
      obtain ⟨a, ha, h⟩ := h
      simp only [bind_eq_ok, pure_eq_ok] at h
      obtain ⟨_, _, h⟩ := h
      rw [← h]
      unfold Claims.normalizedAlias at ha
      split at ha
      next => cases ha
      next a' hvalid =>
        rw [← Except.ok.inj ha]
        exact (checkLDH_length (checkLDH_of_validateAlias hvalid)).1

/-- **Exactly one owner-CA binding**: so the apex comes out, or unchanged when it was full
without any, exactly when it had at most one slot with the current CA. -/
theorem ensureTLSCA_bound_once_iff (P : Primitives) (r : Record) (kp : Crypto.Keypair) (now : UInt64)
    (c : Claims.AliasClaim) (tldID wantDER : Bytes) (hapex : decodeWireName r.name = .ok ([], tldID))
    (hclaim : Claims.decodeAliasClaim P r.claim = .ok c)
    (hca : P.ownerCA kp.seed c.aliasName (int64 now) = some wantDER)
    (hsame : P.sameCA wantDER wantDER (int64 now) = true) :
    BoundOnce P wantDER (int64 now) r.rrset (ensureTLSCA P r kp now).rrset ↔
      (r.rrset.filter (isCurrent P wantDER (int64 now))).length ≤ 1 := by
  obtain ⟨halias, hpos⟩ := claimAlias_of_decode hclaim
  have hrebuilt : ensureTLSCA P r kp now
      = { r with rrset := bindTLSCA P r.rrset wantDER (int64 now) } := by
    rw [ensureTLSCA, hapex]
    simp only [halias, hca, if_neg (Nat.ne_of_gt hpos)]
  rw [hrebuilt]
  exact bindTLSCA_boundOnce_iff hsame r.rrset

namespace Binding

/-- An authority per seed, compared by its bytes. -/
def primitives : Primitives :=
  { Toy.primitives with
    ownerCA := fun seed _ _ => some (Toy.checksum seed)
    sameCA := fun a b _ => decide (a = b) }

def apex (rrset : List RR) : Record :=
  { Toy.tldRecord 1 1 1 0 100 with rrset, claim := Toy.claim 1 [0x61] }

def current : RR := freshSlot (Toy.checksum [1])

def foreign : RR := freshSlot [9]

def address : RR := { type := 1, ttl := 60, rdata := [1, 2, 3, 4] }

end Binding

/-- Beside an address the current slot stays, the foreign one goes. -/
theorem foreign_slot_dropped :
    BoundOnce Binding.primitives (Toy.checksum [1]) (int64 0)
      [Binding.foreign, Binding.address, Binding.current]
      (ensureTLSCA Binding.primitives
        (Binding.apex [Binding.foreign, Binding.address, Binding.current]) (Toy.keypair 1) 0).rrset :=
  (ensureTLSCA_bound_once_iff Binding.primitives
    (Binding.apex [Binding.foreign, Binding.address, Binding.current]) (Toy.keypair 1) 0
    ⟨[0x61], Toy.checksum (Toy.publicKey 1), 0, [], Toy.publicKey 1, Toy.checksum [], []⟩
    (Toy.checksum (Toy.publicKey 1)) (Toy.checksum [1]) (by decide +kernel) (by decide +kernel)
    (by decide +kernel) (by decide +kernel)).mpr (by decide +kernel)

theorem two_current_slots_kept :
    ¬ BoundOnce Binding.primitives (Toy.checksum [1]) (int64 0)
      [Binding.current, Binding.address, Binding.current]
      (ensureTLSCA Binding.primitives
        (Binding.apex [Binding.current, Binding.address, Binding.current]) (Toy.keypair 1)
        0).rrset := by
  have hrrset : (ensureTLSCA Binding.primitives
      (Binding.apex [Binding.current, Binding.address, Binding.current]) (Toy.keypair 1) 0).rrset
      = [Binding.current, Binding.address, Binding.current] := by
    decide +kernel
  rw [hrrset]
  rintro (⟨rr, hone, _⟩ | ⟨hfull, _⟩)
  · have hlen : ([Binding.current, Binding.address, Binding.current].filter isTLSCA).length = 1 := by
      rw [hone]
      rfl
    exact absurd hlen (by decide +kernel)
  · exact absurd hfull (by decide)

end Freens.Renewal
