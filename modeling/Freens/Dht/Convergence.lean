/-
**REPLICA CONVERGENCE** (`dht/store.go`: `PutWithEvidence`; `wire/wire.go`:
`EnvelopeWins`).

As long as the byte cap evicts nothing, the slot is the champion of what was
delivered so far (`Tracks`), and the champion of a strict total order does not
depend on the order of the deliveries.
-/
import Freens.Dht.Accounting
import Freens.Toy

namespace Freens.Dht

open Library Naming Wire

variable {P : Primitives}

/-! ## Under the cap, an install elsewhere keeps a live slot -/

variable {s : EnvelopeStore} {m : Int} {k owner : Bytes} {records : Finset SignedEnvelope}

theorem shedLRU_of_under (protectedKey : Bytes) (fuel : Nat)
    (h : s.bytes ≤ s.maxBytes) : shedLRU P protectedKey fuel s = s := by
  cases fuel with
  | zero => rfl
  | succ fuel =>
    rw [shedLRU, if_neg]
    omega

theorem foldl_evict_bytes_le {victims : List (Bytes × Entry)} :
    ∀ {s : EnvelopeStore}, Accounted m s → (victims.map Prod.fst).Nodup →
      (∀ k e, (k, e) ∈ victims → s.entries.lookup k = some e) →
      (victims.foldl (evict P) s).bytes ≤ s.bytes := by
  induction victims with
  | nil => exact fun _ _ _ => le_rfl
  | cons v victims ih =>
    intro s h hnodup hbound
    rw [List.map_cons, List.nodup_cons] at hnodup
    obtain ⟨k, e⟩ := v
    have hk := hbound k e List.mem_cons_self
    have hsize : 0 ≤ e.size := by
      rw [h.entries.cached k e hk]
      exact Int.natCast_nonneg _
    have hrest := ih (h.evict (P := P) hk) hnodup.2 (evict_bound hnodup.1 hbound)
    rw [evict_bytes h hk] at hrest
    show (victims.foldl (evict P) (evict P s (k, e))).bytes ≤ s.bytes
    omega

theorem sweep_bytes_le (h : Accounted m s) (p : Bytes → Entry → Bool) :
    ((s.entries.select p).foldl (evict P) s).bytes ≤ s.bytes :=
  foldl_evict_bytes_le h (Table.select_nodup s.entries p)
    (fun _ _ hmem => (Table.mem_select.mp hmem).1)

variable {e : Entry} {env : SignedEnvelope} {now : Int}

theorem sweep_lookup_of_kept {p : Bytes → Entry → Bool} (hk : s.entries.lookup k = some e)
    (hp : p k e = false) : ((s.entries.select p).foldl (evict P) s).entries.lookup k = some e := by
  rw [foldl_evict_lookup, if_neg, hk]
  intro hmem
  obtain ⟨⟨k', e'⟩, hsel, hkey⟩ := List.mem_map.mp hmem
  replace hkey : k' = k := hkey
  subst hkey
  obtain ⟨hlookup, hpass⟩ := Table.mem_select.mp hsel
  rw [hk, Option.some.injEq] at hlookup
  rw [← hlookup, hp] at hpass
  cases hpass

theorem install_keeps_live {k' : Bytes} (h : Accounted m s) (hne : k' ≠ k)
    (hcap : (displace P s k env now).bytes ≤ s.maxBytes) (hk' : s.entries.lookup k' = some e)
    (halive : alive e.env now = true) : (install P s k env now).entries.lookup k' = some e := by
  have hdisplaced := h.displace (P := P) k env now
  have hbound : (displace P s k env now).entries.lookup k' = some e := by
    rw [displace_entries, AList.lookup_insert_ne hne, hk']
  -- both sweeps look for dead entries
  have hexpired := hdisplaced.sweep (P := P) (fun _ e => !alive e.env now)
  have hswept₁ := sweep_lookup_of_kept (P := P) (p := fun _ e => !alive e.env now) hbound
    (by rw [halive]; rfl)
  have hbytes₁ := sweep_bytes_le (P := P) hdisplaced (fun _ e => !alive e.env now)
  have hswept₂ := sweep_lookup_of_kept (P := P)
    (p := fun k' e => decide (k' ≠ k) && !alive e.env now) hswept₁ (by rw [halive]; simp)
  have hbytes₂ := sweep_bytes_le (P := P) hexpired
    (fun k' e => decide (k' ≠ k) && !alive e.env now)
  have hlimit := (hexpired.sweep (P := P)
    (fun k' e => decide (k' ≠ k) && !alive e.env now)).limits.1
  rw [install, enforceCap, evictExpired, shedLRU_of_under]
  · exact hswept₂
  · rw [hlimit, ← h.limits.1]
    exact (hbytes₂.trans hbytes₁).trans hcap

/-! ## Deliveries -/

/-- An envelope that arrives. -/
structure Delivery where
  key : Bytes
  env : SignedEnvelope
  now : Int
  verifySignature : Bool
  evidence : Bytes
  deriving DecidableEq

/-- Its put. -/
def deliver (P : Primitives) (s : EnvelopeStore) (d : Delivery) : EnvelopeStore :=
  (putWithEvidence P s d.key d.env d.now d.verifySignature d.evidence).2

/-- What a key serves. -/
def slot (s : EnvelopeStore) (k : Bytes) : Option SignedEnvelope :=
  (s.entries.lookup k).map Entry.env

/-- The put stays within the byte bound. -/
def UnderCap (P : Primitives) (s : EnvelopeStore) (d : Delivery) : Prop :=
  (displace P s d.key d.env d.now).bytes ≤ s.maxBytes

/-- The records of `owner` under a key: signed and owned by it, unlinked, told apart by
their hashes. -/
structure OwnerRecords (P : Primitives) (records : Finset SignedEnvelope) (owner : Bytes) :
    Prop where
  signer : ∀ e ∈ records, e.signer = owner
  owner : ∀ e ∈ records, e.record.owner = owner
  unlinked : ∀ e ∈ records, e.record.hasPrevHash = false
  collisionFree : ∀ e ∈ records, ∀ e' ∈ records, e.recordHash P = e'.recordHash P → e = e'

/-- A delivery sequence of `records` at `k`: each arrives, nothing else does, all are alive,
and the cap is never reached. -/
structure Delivers (P : Primitives) (k : Bytes) (records : Finset SignedEnvelope) (maxBytes : Int)
    (ds : List Delivery) : Prop where
  complete : ∀ e ∈ records, ∃ d ∈ ds, d.key = k ∧ d.env = e
  sound : ∀ d ∈ ds, d.key = k → d.env ∈ records
  signed : ∀ d ∈ ds, d.key = k → d.verifySignature = true → d.env.verifySignature P = true
  alive : ∀ d ∈ ds, ∀ e ∈ records, alive e d.now = true
  underCap : EachStep (deliver P) (UnderCap P) (newEnvelopeStore maxBytes) ds

/-- What arrives at `k`. -/
def arrivals (k : Bytes) (ds : List Delivery) : List SignedEnvelope :=
  (ds.filter (fun d => d.key = k)).map Delivery.env

variable {past : List Delivery} {d : Delivery}

theorem arrivals_append_self (h : d.key = k) :
    arrivals k (past ++ [d]) = arrivals k past ++ [d.env] := by
  simp [arrivals, h]

theorem arrivals_append_other (h : d.key ≠ k) : arrivals k (past ++ [d]) = arrivals k past := by
  simp [arrivals, h]

theorem deliver_other (h : Accounted m s) (hne : k ≠ d.key) (hcap : UnderCap P s d)
    (halive : ∀ e, slot s k = some e → alive e d.now = true) :
    slot (deliver P s d) k = slot s k := by
  unfold deliver putWithEvidence
  split
  · rfl
  split
  · rfl
  · cases judge P s d.key d.env d.now d.evidence with
    | refuse => rfl
    | refresh => exact touch_lookup_env s d.key k d.now
    | install =>
      show ((install P s d.key d.env d.now).entries.lookup k).map Entry.env = slot s k
      cases hk : s.entries.lookup k with
      | some e =>
        have hlive := halive e.env (by rw [slot, hk]; rfl)
        rw [install_keeps_live h hne hcap hk hlive, slot, hk]
      | none =>
        -- an install binds no other key
        cases hafter : (install P s d.key d.env d.now).entries.lookup k with
        | none => rw [slot, hk]
        | some e =>
          have hbefore := install_lookup_of_ne hne hafter
          rw [hk] at hbefore
          cases hbefore

theorem judgeIncumbent_same_owner {cur : SignedEnvelope} {evidence : Bytes}
    (hsigner : env.signer = cur.record.owner) (hunlinked : env.record.hasPrevHash = false)
    (hne : env.recordHash P ≠ cur.recordHash P) :
    judgeIncumbent P s cur env now evidence =
      if envelopeWins P env cur then .install else .refuse := by
  cases hwins : envelopeWins P env cur with
  | true => exact judgeIncumbent_install_iff.mpr ⟨hne, hwins, .inr ⟨hunlinked, .inl hsigner⟩⟩
  | false =>
    unfold judgeIncumbent
    simp [hne, hwins]

theorem deliver_self (hrec : OwnerRecords P records owner) (hkey : d.key.length = 32)
    (hmem : d.env ∈ records) (hsig : d.verifySignature = true → d.env.verifySignature P = true)
    (halive : ∀ e ∈ records, alive e d.now = true)
    (hslot : ∀ e, slot s d.key = some e → e ∈ records) :
    slot (deliver P s d) d.key = challenge (envelopeWins P) (slot s d.key) d.env := by
  have hinstalled : slot (install P s d.key d.env d.now) d.key = some d.env := by
    rw [slot, install_lookup_self, if_pos (halive d.env hmem)]
    rfl
  unfold deliver
  rw [putWithEvidence_eq hkey hsig]
  cases hk : s.entries.lookup d.key with
  | none =>
    rw [judge_of_empty (fun cur hcur => absurd hcur (by simp [hk]))]
    have hfree : slot s d.key = none := by rw [slot, hk]; rfl
    rw [hfree]
    exact hinstalled
  | some cur =>
    have hcur : slot s d.key = some cur.env := by rw [slot, hk]; rfl
    have hcur_mem := hslot cur.env hcur
    rw [judge_of_alive hk (halive cur.env hcur_mem), hcur, challenge]
    by_cases hsame : d.env.recordHash P = cur.env.recordHash P
    · -- the stored record again: nothing beats itself
      have heq := hrec.collisionFree d.env hmem cur.env hcur_mem hsame
      rw [judgeIncumbent_refresh_iff.mpr hsame, heq, envelopeWins_irrefl]
      exact (touch_lookup_env s d.key d.key d.now).trans hcur
    · have hsigner : d.env.signer = cur.env.record.owner := by
        rw [hrec.signer d.env hmem, hrec.owner cur.env hcur_mem]
      rw [judgeIncumbent_same_owner hsigner (hrec.unlinked d.env hmem) hsame]
      cases envelopeWins P d.env cur.env with
      | true => exact hinstalled
      | false => exact hcur

/-! ## Whole sequences -/

/-- The slot is the champion of what arrived so far. -/
structure Tracks (P : Primitives) (k : Bytes) (records : Finset SignedEnvelope) (m : Int)
    (past : List Delivery) (s : EnvelopeStore) : Prop where
  books : Kept m s
  champion : slot s k = (arrivals k past).foldl (challenge (envelopeWins P)) none
  arrived : ∀ e, slot s k = some e → e ∈ records

theorem Tracks.deliver (h : Tracks P k records m past s) (hrec : OwnerRecords P records owner)
    (hkey : k.length = 32) (hsound : d.key = k → d.env ∈ records)
    (hsigned : d.key = k → d.verifySignature = true → d.env.verifySignature P = true)
    (halive : ∀ e ∈ records, Dht.alive e d.now = true) (hcap : UnderCap P s d) :
    Tracks P k records m (past ++ [d]) (deliver P s d) := by
  have hbooks : Kept m (Dht.deliver P s d) := h.books.putWithEvidence d.key d.env d.now _ _
  by_cases hk : d.key = k
  · subst hk
    have hslot := deliver_self hrec hkey (hsound rfl) (hsigned rfl) halive h.arrived
    refine ⟨hbooks, ?_, ?_⟩
    · rw [hslot, h.champion, arrivals_append_self rfl, List.foldl_append, List.foldl_cons,
        List.foldl_nil]
    · intro e he
      rw [hslot] at he
      cases hcur : slot s d.key with
      | none =>
        rw [hcur, challenge, Option.some.injEq] at he
        exact he ▸ hsound rfl
      | some cur =>
        rw [hcur, challenge] at he
        split at he
        · exact Option.some.inj he ▸ hsound rfl
        · exact Option.some.inj he ▸ h.arrived cur hcur
  · have hslot : slot (Dht.deliver P s d) k = slot s k :=
      deliver_other h.books.1 (fun heq => hk heq.symm) hcap
        (fun e he => halive e (h.arrived e he))
    refine ⟨hbooks, ?_, ?_⟩
    · rw [hslot, h.champion, arrivals_append_other hk]
    · intro e he
      exact h.arrived e (hslot ▸ he)

theorem Tracks.run {k : Bytes} {records : Finset SignedEnvelope} {owner : Bytes} {maxBytes : Int}
    {ds : List Delivery} (hrec : OwnerRecords P records owner) (hkey : k.length = 32)
    (h : Delivers P k records maxBytes ds) :
    Tracks P k records (newEnvelopeStore maxBytes).maxBytes ds
      (ds.foldl (Dht.deliver P) (newEnvelopeStore maxBytes)) :=
  @EachStep.history_mem _ _ _ _
    (fun past s => Tracks P k records (newEnvelopeStore maxBytes).maxBytes past s) _ [] _
    (fun _ _ d hd htracks hcap => htracks.deliver hrec hkey (h.sound d hd) (h.signed d hd)
      (h.alive d hd) hcap)
    ⟨Kept.new maxBytes, rfl, fun e he => absurd he (by simp [slot, newEnvelopeStore])⟩ h.underCap

theorem Delivers.mem_arrivals {maxBytes : Int} {ds : List Delivery}
    (h : Delivers P k records maxBytes ds) (e : SignedEnvelope) :
    e ∈ arrivals k ds ↔ e ∈ records := by
  constructor
  · intro he
    obtain ⟨d, hd, rfl⟩ := List.mem_map.mp he
    obtain ⟨hds, hkey⟩ := List.mem_filter.mp hd
    exact h.sound d hds (of_decide_eq_true hkey)
  · intro he
    obtain ⟨d, hd, hkey, rfl⟩ := h.complete e he
    exact List.mem_map_of_mem (List.mem_filter.mpr ⟨hd, decide_eq_true hkey⟩)

theorem envelopeWins_total (hrec : OwnerRecords P records owner) {a b : SignedEnvelope}
    (ha : a ∈ records)
    (hb : b ∈ records) : a = b ∨ envelopeWins P a b = true ∨ envelopeWins P b a = true := by
  rw [envelopeWins_iff, envelopeWins_iff, Outranks, Outranks]
  by_cases heq : a = b
  · exact .inl heq
  · right
    have hhash : a.recordHash P ≠ b.recordHash P :=
      fun h => heq (hrec.collisionFree a ha b hb h)
    have hless : a.recordHash P < b.recordHash P ∨ b.recordHash P < a.recordHash P := by grind
    have hseq : a.record.sequence < b.record.sequence ∨
        a.record.sequence = b.record.sequence ∨ b.record.sequence < a.record.sequence := by grind
    rcases hseq with hlt | hseq | hgt
    · exact .inr (.inl hlt)
    · rcases hless with hless | hmore
      · exact .inr (.inr ⟨hseq, hless⟩)
      · exact .inl (.inr ⟨hseq.symm, hmore⟩)
    · exact .inl (.inl hgt)

/-- **Replica convergence.** Two replicas that were delivered the same records of one owner
end with the one of highest (sequence, H_record). -/
theorem replicas_converge (k : Bytes) (records : Finset SignedEnvelope) (owner : Bytes)
    (max₁ max₂ : Int) (ds₁ ds₂ : List Delivery) (hkey : k.length = 32)
    (hrec : OwnerRecords P records owner) (h₁ : Delivers P k records max₁ ds₁)
    (h₂ : Delivers P k records max₂ ds₂) :
    slot (ds₁.foldl (deliver P) (newEnvelopeStore max₁)) k =
        slot (ds₂.foldl (deliver P) (newEnvelopeStore max₂)) k ∧
      (records.Nonempty → ∃ top ∈ records, (∀ e ∈ records, e ≠ top → Outranks P top e) ∧
        slot (ds₁.foldl (deliver P) (newEnvelopeStore max₁)) k = some top) := by
  have hirrefl := envelopeWins_irrefl (P := P)
  have htrans : ∀ a b c, envelopeWins P a b = true → envelopeWins P b c = true →
      envelopeWins P a c = true := fun _ _ _ => envelopeWins_trans
  have hchamp₁ := (Tracks.run hrec hkey h₁).champion
  have hchamp₂ := (Tracks.run hrec hkey h₂).champion
  refine ⟨?_, ?_⟩
  · rw [hchamp₁, hchamp₂]
    refine champion_congr hirrefl htrans ?_ ?_
    · exact fun e => (h₁.mem_arrivals e).trans (h₂.mem_arrivals e).symm
    · exact fun a ha b hb =>
        envelopeWins_total hrec ((h₁.mem_arrivals a).mp ha) ((h₁.mem_arrivals b).mp hb)
  · intro hne
    obtain ⟨e₀, he₀⟩ := hne
    rw [hchamp₁]
    rcases foldl_challenge hirrefl htrans (arrivals k ds₁) with ⟨hnil, _⟩ | ⟨top, htop, hbest⟩
    · exact absurd ((h₁.mem_arrivals e₀).mpr he₀) (by simp [hnil])
    · have htop_mem := (h₁.mem_arrivals top).mp hbest.mem
      refine ⟨top, htop_mem, ?_, htop⟩
      intro e he hother
      rcases envelopeWins_total hrec he htop_mem with heq | hbeats | hbeats
      · exact absurd heq hother
      · rw [hbest.top e ((h₁.mem_arrivals e).mpr he)] at hbeats
        cases hbeats
      · exact envelopeWins_iff.mp hbeats

/-! ## Two replicas -/

namespace Replicas

/-- A record of owner 1. -/
def record (sequence : UInt64) : SignedEnvelope :=
  Toy.signedBy 1 (Toy.tldRecord 1 1 sequence 100 900)

/-- Its key. -/
def key : Bytes := Toy.checksum (Toy.tldName 1)

/-- Its arrival. -/
def arrival (sequence : UInt64) (now : Int) : Delivery :=
  { key, env := record sequence, now, verifySignature := true, evidence := [] }

theorem ownerRecords :
    OwnerRecords Toy.primitives {record 1, record 2} (Toy.publicKey 1) where
  signer := by decide +kernel
  owner := by decide +kernel
  unlinked := by decide +kernel
  collisionFree := by decide +kernel

theorem inOrder : Delivers Toy.primitives key {record 1, record 2} 0 [arrival 1 200, arrival 2 300]
    where
  complete := by decide +kernel
  sound := by decide +kernel
  signed := by decide +kernel
  alive := by decide +kernel
  underCap := ⟨by unfold UnderCap; decide +kernel, by unfold UnderCap; decide +kernel, trivial⟩

theorem outOfOrder : Delivers Toy.primitives key {record 1, record 2} 0
    [arrival 2 200, arrival 1 250, arrival 2 300] where
  complete := by decide +kernel
  sound := by decide +kernel
  signed := by decide +kernel
  alive := by decide +kernel
  underCap := ⟨by unfold UnderCap; decide +kernel, by unfold UnderCap; decide +kernel,
    by unfold UnderCap; decide +kernel, trivial⟩

end Replicas

section
open Replicas

theorem replicas_converge_update :
    slot ([arrival 1 200, arrival 2 300].foldl (deliver Toy.primitives)
        (newEnvelopeStore 0)) key =
      slot ([arrival 2 200, arrival 1 250, arrival 2 300].foldl (deliver Toy.primitives)
        (newEnvelopeStore 0)) key :=
  (replicas_converge key {record 1, record 2} (Toy.publicKey 1) 0 0
    [arrival 1 200, arrival 2 300] [arrival 2 200, arrival 1 250, arrival 2 300]
    (by decide +kernel) ownerRecords inOrder outOfOrder).1

end

end Freens.Dht
