/-
**RENEWAL AFTER RENEWAL.** The three components a renewed root passes through, over
any number of generations: the store, the scan and the resolver.

All three play along for the self-certifying roots only: a renewal sets no
prev_hash, and the scan looks for the signer of a record in the keychain, for a
transferred root the previous owner.
-/
import Freens.Renewal.Scan
import Freens.Resolver.StoreSource

namespace Freens.Renewal

open Library Naming Wire Dht Resolver

/-! ## What staying alive asks for -/

section
variable (P : Primitives)

/-- `g` is alive under `k`, and no other unrevoked record of its signer and name comes
before it in the scan. -/
def Leads (s : EnvelopeStore) (now : Int) (k : Bytes) (g : SignedEnvelope) : Prop :=
  LiveAt s now k g ∧ ∀ k' e, LiveAt s now k' e → k' < k → e.isRevoked = false →
    e.signer = g.signer → e.record.name = g.record.name → e = g

/-- **The scan selects `g`** whenever it is due, leads its name and its key is in the keychain. -/
def ScanSelects (kp : Crypto.Keypair) (k : Bytes) (g : SignedEnvelope) : Prop :=
  ∀ s now keychain published, Leads s now k g → kp ∈ keychain →
    shouldRenew now (int64 g.record.created) (int64 g.record.expires) = true →
    ∃ a ∈ (renewOnce P keychain published s now).attempts, a.prev = g

/-- **The store accepts `fresh` at `t`** over a live `g`. -/
def StoreAccepts (k : Bytes) (g fresh : SignedEnvelope) (t : Int) : Prop :=
  ∀ s verify, LiveAt s t k g → (put P s k fresh t verify).1 = .ok true

/-- **The resolver verifies `g`** alone, throughout its window, whatever the store retains. -/
def ResolverVerifies (g : SignedEnvelope) : Prop :=
  ∀ s t, int64 g.record.created ≤ t → t < int64 g.record.expires →
    verifyServedChain P (storeSource P s t) t [g] = true

/-- **Renewals at these times keep `g` alive**: each is selected, signed and accepted, and
the last verifies. -/
def KeepsAlive (kp : Crypto.Keypair) (k : Bytes) : SignedEnvelope → List Int → Prop
  | g, [] => ScanSelects P kp k g ∧ ResolverVerifies P g
  | g, t :: ts => ScanSelects P kp k g ∧
      ∃ fresh, renewEnvelope P g kp t = .ok fresh ∧ StoreAccepts P k g fresh t ∧
        KeepsAlive kp k fresh ts

end

variable {P : Primitives}

/-! ## The scan -/

section
variable {keychain : List Crypto.Keypair} {published : SignedEnvelope → Bool} {now : Int}

theorem entriesAt_sorted (s : EnvelopeStore) (now : Int) :
    (entriesAt s now).Pairwise (fun a b => a.1 ≤ b.1) :=
  List.pairwise_insertionSort _ _

theorem attempts_subset_foldl (entries : List (Bytes × SignedEnvelope)) (sc : Scan) :
    sc.attempts ⊆ (entries.foldl (renewEntry P keychain published now) sc).attempts := by
  induction entries generalizing sc with
  | nil => exact fun _ h => h
  | cons ent entries ih =>
    intro a ha
    apply ih
    rcases @renewEntry_cases P keychain published now sc ent with
      ⟨hattempts, _, _⟩ | ⟨_, _, kp, _, heq⟩
    · rw [hattempts]
      exact ha
    · rw [heq]
      exact List.mem_append_left _ ha

theorem mem_seen_renewEntry {sc : Scan} {ent : Bytes × SignedEnvelope} {x : Bytes × Bytes}
    (h : x ∈ (renewEntry P keychain published now sc ent).seen) :
    x ∈ sc.seen ∨ (ent.2.isRevoked = false ∧ x = (ent.2.signer, ent.2.record.name)) := by
  unfold renewEntry at h
  split at h
  next => exact .inl h
  next hrevoked =>
    have hlive : ent.2.isRevoked = false := Bool.eq_false_iff.mpr hrevoked
    split at h
    next => exact .inl h
    next kp _ =>
      split at h
      next => exact .inl h
      split at h
      next =>
        rcases List.mem_cons.mp h with hx | hold
        · exact .inr ⟨hlive, hx⟩
        · exact .inl hold
      next =>
        rcases List.mem_cons.mp h with hx | hold
        · exact .inr ⟨hlive, hx⟩
        · exact .inl hold

theorem attempt_of_renewable {sc : Scan} {ent : Bytes × SignedEnvelope}
    (hrenew : renewable P keychain now ent.2 = true)
    (hnew : (ent.2.signer, ent.2.record.name) ∉ sc.seen) :
    ∃ a ∈ (renewEntry P keychain published now sc ent).attempts, a.prev = ent.2 := by
  simp only [renewable, Bool.and_eq_true, Bool.not_eq_true', Option.isSome_iff_exists] at hrenew
  obtain ⟨⟨hrevoked, kp, hmine⟩, hdue⟩ := hrenew
  unfold renewEntry
  rw [if_neg (by simp [hrevoked]), hmine]
  simp only
  rw [if_neg hnew, if_neg (by simp [hdue])]
  exact ⟨_, List.mem_append_right _ (List.mem_singleton_self _), rfl⟩

/-- **A renewable entry is attempted** at the latest in its own round. -/
theorem attempt_of_leading {k : Bytes} {g : SignedEnvelope}
    (hrenew : renewable P keychain now g = true) (before : List (Bytes × SignedEnvelope))
    (sc : Scan)
    (hbefore : ∀ x ∈ before, x.2.isRevoked = false → x.2.signer = g.signer →
      x.2.record.name = g.record.name → x.2 = g)
    (hnew : (g.signer, g.record.name) ∉ sc.seen) :
    ∃ a ∈ ((before ++ [(k, g)]).foldl (renewEntry P keychain published now) sc).attempts,
      a.prev = g := by
  induction before generalizing sc with
  | nil => exact attempt_of_renewable hrenew hnew
  | cons ent before ih =>
    by_cases hsame : ent.2 = g
    · -- the record itself, under a smaller key: this round attempts it
      obtain ⟨a, ha, hprev⟩ := @attempt_of_renewable P keychain published now sc ent
        (hsame ▸ hrenew) (hsame ▸ hnew)
      exact ⟨a, attempts_subset_foldl (before ++ [(k, g)]) _ ha, hprev.trans hsame⟩
    · -- another identity, or a revocation: the identity of `g` stays new
      refine ih _ (fun x hx => hbefore x (List.mem_cons_of_mem _ hx)) ?_
      intro hseen
      rcases mem_seen_renewEntry hseen with hold | ⟨hlive, hid⟩
      · exact hnew hold
      · rw [Prod.mk.injEq] at hid
        exact hsame (hbefore ent List.mem_cons_self hlive hid.1.symm hid.2.symm)

variable {k : Bytes} {kp : Crypto.Keypair}

theorem scanSelects_of_signer {g : SignedEnvelope} (hsigner : g.signer = kp.publicKey P)
    (hrevoked : g.isRevoked = false) : ScanSelects P kp k g := by
  intro s now keychain published hleads hkp hdue
  have hmine : (ownerKey P keychain g.signer).isSome = true := by
    rw [ownerKey, List.find?_isSome]
    exact ⟨kp, hkp, by simp [hsigner]⟩
  have hrenew : renewable P keychain now g = true := by
    simp only [renewable, Bool.and_eq_true, Bool.not_eq_true']
    exact ⟨⟨hrevoked, hmine⟩, hdue⟩
  obtain ⟨before, after, hsplit⟩ := List.append_of_mem (mem_entriesAt_iff.mpr hleads.1)
  have hsorted := entriesAt_sorted s now
  rw [hsplit, List.pairwise_append] at hsorted
  -- what comes before the entry of `g` has a smaller key or is that entry
  have hbefore : ∀ x ∈ before, x.2.isRevoked = false → x.2.signer = g.signer →
      x.2.record.name = g.record.name → x.2 = g := by
    intro x hx hlive hxsigner hxname
    have hxat : LiveAt s now x.1 x.2 := mem_entriesAt_iff.mp (by rw [hsplit]; simp [hx])
    have hle : x.1 ≤ k := hsorted.2.2 x hx (k, g) List.mem_cons_self
    by_cases heq : x.1 = k
    · exact (heq ▸ hxat).unique hleads.1
    · exact hleads.2 x.1 x.2 hxat (Std.lt_of_le_of_ne hle heq) hlive hxsigner hxname
  obtain ⟨a, ha, hprev⟩ := @attempt_of_leading P keychain published now k g hrenew before
    { store := s, seen := [], attempts := [] } hbefore (by simp)
  refine ⟨a, ?_, hprev⟩
  have hcut : renewOnce P keychain published s now =
      after.foldl (renewEntry P keychain published now)
        ((before ++ [(k, g)]).foldl (renewEntry P keychain published now)
          { store := s, seen := [], attempts := [] }) := by
    rw [renewOnce, hsplit, ← List.foldl_append, List.append_assoc, List.singleton_append]
  rw [hcut]
  exact attempts_subset_foldl _ _ ha

theorem exists_due (g : SignedEnvelope) : ∃ now, alive g now = true ∧
    shouldRenew now (int64 g.record.created) (int64 g.record.expires) = true := by
  refine ⟨wrap64 (int64 g.record.expires + Constants.expiryGrace) - 1, ?_, ?_⟩
  · unfold alive
    rw [decide_eq_true_eq]
    omega
  · -- the remaining time is negative, whatever wraps around on the way
    have hremaining : wrap64 (int64 g.record.expires -
        (wrap64 (int64 g.record.expires + Constants.expiryGrace) - 1)) = -86399 := by
      rw [show int64 g.record.expires -
          (wrap64 (int64 g.record.expires + Constants.expiryGrace) - 1)
          = int64 g.record.expires + 1 - wrap64 (int64 g.record.expires + Constants.expiryGrace)
          from by omega]
      unfold wrap64
      rw [Int.sub_bmod_bmod, show int64 g.record.expires + 1
          - (int64 g.record.expires + Constants.expiryGrace) = -86399 from by
            simp only [Constants.expiryGrace]
            omega]
      rfl
    unfold shouldRenew
    simp only [hremaining]
    rfl

/-- A store with one entry. -/
def holdingOnly (k : Bytes) (g : SignedEnvelope) : EnvelopeStore :=
  { newEnvelopeStore 0 with
    entries := (∅ : Table Bytes Entry).insert k { env := g, size := 0, lastAccess := 0 } }

theorem liveAt_holdingOnly {k' : Bytes} {g e : SignedEnvelope} :
    LiveAt (holdingOnly k g) now k' e ↔ k' = k ∧ e = g ∧ alive g now = true := by
  unfold LiveAt Holds holdingOnly
  by_cases hk : k' = k
  · subst hk
    simp only [AList.lookup_insert, Option.map_some, Option.some.injEq, true_and]
    constructor
    · rintro ⟨rfl, halive⟩
      exact ⟨rfl, halive⟩
    · rintro ⟨rfl, halive⟩
      exact ⟨rfl, halive⟩
  · simp only [AList.lookup_insert_ne hk, AList.lookup_empty, Option.map_none, reduceCtorEq,
      false_and, hk]

theorem signer_of_scanSelects {g : SignedEnvelope}
    (h : ScanSelects P kp k g) : g.signer = kp.publicKey P := by
  obtain ⟨now, halive, hdue⟩ := exists_due g
  have hlive : LiveAt (holdingOnly k g) now k g := liveAt_holdingOnly.mpr ⟨rfl, rfl, halive⟩
  have hleads : Leads (holdingOnly k g) now k g :=
    ⟨hlive, fun _ _ he _ _ _ _ => (liveAt_holdingOnly.mp he).2.1⟩
  obtain ⟨a, ha, hprev⟩ := h (holdingOnly k g) now [kp] (fun _ => true) hleads
    (List.mem_singleton_self kp) hdue
  have hrenew := (attempts_sound P (holdingOnly k g) ⟨now, [kp], fun _ => true⟩ a ha).2.1
  rw [hprev] at hrenew
  simp only [renewable, ownerKey, Bool.and_eq_true, List.find?_isSome, List.mem_singleton,
    exists_eq_left, decide_eq_true_eq] at hrenew
  exact hrenew.1.2.symm

end

variable {g fresh : SignedEnvelope} {t : Int}

theorem storeAccepts_of_renewed {k : Bytes} (hk : k.length = 32)
    (h : Renewed P g t fresh) : StoreAccepts P k g fresh t := by
  intro s verify hlive
  have hseq : g.record.sequence < fresh.record.sequence := by
    rw [UInt64.lt_iff_toNat_lt, h.sequence]
    omega
  have hunlinked : fresh.record.hasPrevHash = false := by
    rw [hasPrevHash_eq_false, Record.prevHashBytes, h.unlinked]
    rfl
  apply accepted_over_held hk h.authentic hlive.1
  intro hne
  rw [judgeIncumbent_install_iff]
  exact ⟨hne, envelopeWins_iff.mpr (.inl hseq), .inr ⟨hunlinked, .inl h.signer⟩⟩

/-! ## The resolver -/

/-- The owner of a record hashes to the tld_id of its root name. -/
def OwnerCertifies (P : Primitives) (g : SignedEnvelope) : Prop :=
  g.record.owner.length = 32 ∧ g.record.name = wireImage [] (P.sha256 g.record.owner)

theorem selfCertified_iff_ownerCertifies :
    selfCertifiedTldRoot P g = true ↔ g.signer = g.record.owner ∧ OwnerCertifies P g :=
  selfCertifiedTldRoot_iff

theorem ownerCertifies_renewed (h : Renewed P g t fresh) :
    OwnerCertifies P fresh ↔ OwnerCertifies P g := by
  unfold OwnerCertifies
  rw [h.name, h.owner]

theorem verifyAuthorityChain_single :
    verifyAuthorityChain P [g] = true ↔
      g.verifySignature P = true ∧ selfCertifiedTldRoot P g = true := by
  simp [verifyAuthorityChain, chainWellFormed, verifyDescents]

theorem verifyServedChain_unlinked {src : Source} {clock : Int} (h : g.record.prevHash = none) :
    verifyServedChain P src clock [g] = verifyAuthorityChain P [g] := by
  unfold verifyServedChain
  simp [Record.prevHashBytes, h]

theorem resolverVerifies_renewed_iff (h : Renewed P g t fresh) (hlo : 0 ≤ t) (hhi : t < 2 ^ 62) :
    ResolverVerifies P fresh ↔ OwnerCertifies P fresh := by
  have hself : fresh.signer = fresh.record.owner := h.signer.trans h.owner.symm
  constructor
  · intro hverifies
    -- the window starts at the time of the renewal
    have hcreated : int64 fresh.record.created = t := by
      rw [h.created, int64_uint64 hlo (by omega)]
    have hexpires : int64 fresh.record.expires = t + 86400 := by
      rw [h.expires, wrap64_of_range (by simp only [Constants.recordDefaultTTL]; omega)
        (by simp only [Constants.recordDefaultTTL]; omega), int64_uint64
        (by simp only [Constants.recordDefaultTTL]; omega)
        (by simp only [Constants.recordDefaultTTL]; omega)]
    have hchain := hverifies (newEnvelopeStore 0) t (by omega) (by omega)
    rw [verifyServedChain_unlinked h.unlinked, verifyAuthorityChain_single] at hchain
    exact (selfCertified_iff_ownerCertifies.mp hchain.2).2
  · intro hcert s u _ _
    rw [verifyServedChain_unlinked h.unlinked, verifyAuthorityChain_single]
    exact ⟨h.authentic, selfCertified_iff_ownerCertifies.mpr ⟨hself, hcert⟩⟩

/-! ## Generations -/

section
variable {kp : Crypto.Keypair} {k : Bytes}

theorem OwnerCertifies.name_ne_nil (h : OwnerCertifies P g) : g.record.name ≠ [] := by
  rw [h.2]
  simp [wireImage]

/-- **The step lemma**: a certified, unrevoked record can be renewed, and the store takes it. -/
theorem exists_accepted_renewal (hk : k.length = 32) (hkp : kp.publicKey P = g.record.owner)
    (hcert : OwnerCertifies P g) (hencodes : g.record.encodes = true) (hrevoked : g.isRevoked = false)
    (hseq : g.record.sequence.toNat + 1 < 2 ^ 64) (hlo : 0 ≤ t) (hhi : t < 2 ^ 62) :
    ∃ fresh, renewEnvelope P g kp t = .ok fresh ∧ StoreAccepts P k g fresh t := by
  obtain ⟨fresh, hfresh⟩ := exists_renewEnvelope hkp hencodes hrevoked hseq hcert.name_ne_nil
    hlo hhi
  exact ⟨fresh, hfresh, storeAccepts_of_renewed hk (renewed_of_renewEnvelope hfresh)⟩

/-- **The run lemma**: from a certified renewal on, every further renewal goes through. -/
theorem keepsAlive_of_renewed (hk : k.length = 32) (ts : List Int) (prev g : SignedEnvelope)
    (u : Int) (hg : Renewed P prev u g) (hlo : 0 ≤ u) (hhi : u < 2 ^ 62)
    (hkp : kp.publicKey P = g.record.owner) (hcert : OwnerCertifies P g)
    (htimes : ∀ t ∈ ts, 0 ≤ t ∧ t < 2 ^ 62) (hseq : g.record.sequence.toNat + ts.length < 2 ^ 64) :
    KeepsAlive P kp k g ts := by
  induction ts generalizing prev g u with
  | nil =>
    have hsigner : g.signer = kp.publicKey P := by rw [hkp, hg.signer, hg.owner]
    exact ⟨scanSelects_of_signer hsigner hg.unrevoked,
      (resolverVerifies_renewed_iff hg hlo hhi).mpr hcert⟩
  | cons t ts ih =>
    rw [List.length_cons] at hseq
    obtain ⟨hlo', hhi'⟩ := htimes t List.mem_cons_self
    have hsigner : g.signer = kp.publicKey P := by rw [hkp, hg.signer, hg.owner]
    obtain ⟨fresh, hfresh, haccepts⟩ := exists_accepted_renewal hk hkp hcert
      (encodes_of_verifySignature hg.authentic) hg.unrevoked (by omega) hlo' hhi'
    have hrenewed := renewed_of_renewEnvelope hfresh
    refine ⟨scanSelects_of_signer hsigner hg.unrevoked, fresh, hfresh, haccepts, ?_⟩
    refine ih g fresh t hrenewed hlo' hhi' (hkp.trans hrenewed.owner.symm)
      ((ownerCertifies_renewed hrenewed).mpr hcert)
      (fun v hv => htimes v (List.mem_cons_of_mem _ hv)) ?_
    rw [hrenewed.sequence]
    omega

theorem sequence_of_keepsAlive (ts : List Int) (g : SignedEnvelope) (h : KeepsAlive P kp k g ts) :
    g.record.sequence.toNat + ts.length < 2 ^ 64 := by
  induction ts generalizing g with
  | nil => exact g.record.sequence.toNat_lt
  | cons t ts ih =>
    obtain ⟨_, fresh, hfresh, _, hrest⟩ := h
    have hnext := ih fresh hrest
    rw [(renewed_of_renewEnvelope hfresh).sequence] at hnext
    rw [List.length_cons]
    omega

theorem ownerCertifies_of_keepsAlive (ts : List Int) (prev g : SignedEnvelope) (u : Int)
    (hg : Renewed P prev u g) (hlo : 0 ≤ u) (hhi : u < 2 ^ 62)
    (htimes : ∀ t ∈ ts, 0 ≤ t ∧ t < 2 ^ 62) (h : KeepsAlive P kp k g ts) : OwnerCertifies P g := by
  induction ts generalizing prev g u with
  | nil => exact (resolverVerifies_renewed_iff hg hlo hhi).mp h.2
  | cons t ts ih =>
    obtain ⟨_, fresh, hfresh, _, hrest⟩ := h
    obtain ⟨hlo, hhi⟩ := htimes t List.mem_cons_self
    have hrenewed := renewed_of_renewEnvelope hfresh
    exact (ownerCertifies_renewed hrenewed).mp (ih g fresh t hrenewed hlo hhi
      (fun v hv => htimes v (List.mem_cons_of_mem _ hv)) hrest)

end

/-- **Which roots renewals keep alive**: selected by the scan, accepted and verified at any
times, exactly when the root certifies itself, encodes, is not revoked and has sequence
numbers left. -/
theorem renewals_keep_alive_iff (P : Primitives) (kp : Crypto.Keypair) (T : Bytes)
    (R : SignedEnvelope) (t : Int) (ts : List Int) (hT : T.length = 32)
    (hkp : kp.publicKey P = R.record.owner) (htimes : ∀ u ∈ t :: ts, 0 ≤ u ∧ u < 2 ^ 62) :
    KeepsAlive P kp T R (t :: ts) ↔
      selfCertifiedTldRoot P R = true ∧ R.record.encodes = true ∧ R.isRevoked = false ∧
        R.record.sequence.toNat + (ts.length + 1) < 2 ^ 64 := by
  obtain ⟨hlo, hhi⟩ := htimes t List.mem_cons_self
  have hlater : ∀ u ∈ ts, 0 ≤ u ∧ u < 2 ^ 62 := fun u hu => htimes u (List.mem_cons_of_mem _ hu)
  constructor
  · intro h
    have hseq := sequence_of_keepsAlive (t :: ts) R h
    obtain ⟨hselects, fresh, hfresh, _, hrest⟩ := h
    have hrenewed := renewed_of_renewEnvelope hfresh
    have hcert := (ownerCertifies_renewed hrenewed).mp
      (ownerCertifies_of_keepsAlive ts R fresh t hrenewed hlo hhi hlater hrest)
    have hsigner : R.signer = R.record.owner := (signer_of_scanSelects hselects).trans hkp
    have hencodes : R.record.encodes = true :=
      (encodes_congr hrenewed.claim).symm.trans (encodes_of_verifySignature hrenewed.authentic)
    refine ⟨selfCertified_iff_ownerCertifies.mpr ⟨hsigner, hcert⟩, hencodes, ?_, hseq⟩
    -- a revoked record is never re-signed
    simp only [renewEnvelope, guard_eq_ok] at hfresh
    exact Bool.eq_false_iff.mpr hfresh.2.1
  · intro h
    obtain ⟨hroot, hencodes, hrevoked, hseq⟩ := h
    obtain ⟨hsigner, hcert⟩ := selfCertified_iff_ownerCertifies.mp hroot
    obtain ⟨fresh, hfresh, haccepts⟩ := exists_accepted_renewal hT hkp hcert hencodes hrevoked
      (by omega) hlo hhi
    have hrenewed := renewed_of_renewEnvelope hfresh
    refine ⟨scanSelects_of_signer (hsigner.trans hkp.symm) hrevoked, fresh, hfresh, haccepts, ?_⟩
    refine keepsAlive_of_renewed hT ts R fresh t hrenewed hlo hhi
      (hkp.trans hrenewed.owner.symm) ((ownerCertifies_renewed hrenewed).mpr hcert) hlater ?_
    rw [hrenewed.sequence]
    omega

theorem renewals_keep_alive_first :
    KeepsAlive Toy.primitives (Toy.keypair 1) Dht.Sample.tld Dht.Sample.first [800, 80000] :=
  (renewals_keep_alive_iff Toy.primitives (Toy.keypair 1) Dht.Sample.tld Dht.Sample.first 800
    [80000] (by decide +kernel) rfl (by decide)).mpr
    ⟨by decide +kernel, by decide +kernel, by decide +kernel, by decide +kernel⟩

namespace Sample

/-- The recovery put with its declaration. -/
def recoveredStore : EnvelopeStore :=
  retainEvidence Toy.primitives Dht.Sample.pending (Dht.Sample.recovered 2)
    Dht.Sample.declared.bytes

def renewedRoot : SignedEnvelope := Toy.signedBy 2 (Toy.tldRecord 1 2 3 2000 88400)

def renewedStore : EnvelopeStore :=
  (put Toy.primitives recoveredStore Dht.Sample.tld renewedRoot 2000 true).2

def transferred : SignedEnvelope :=
  Toy.signedBy 1 { Toy.tldRecord 1 2 2 200 9000 with
    prevHash := some (Dht.Sample.recoverable.recordHash Toy.primitives) }

def transferredStore : EnvelopeStore :=
  (put Toy.primitives (Dht.Sample.holding Dht.Sample.recoverable) Dht.Sample.tld transferred 200
    true).2

end Sample

/-- **A handed-off root is lost.** The renewal of the recovered root is accepted and not
verified; of the transferred root the new owner's scan selects nothing. -/
theorem handed_off_root_lost :
    verifyServedChain Toy.primitives (storeSource Toy.primitives Sample.recoveredStore 2000) 2000
      [Dht.Sample.recovered 2] = true ∧
    LiveAt Sample.recoveredStore 2000 Dht.Sample.tld (Dht.Sample.recovered 2) ∧
    renewEnvelope Toy.primitives (Dht.Sample.recovered 2) (Toy.keypair 2) 2000
      = .ok Sample.renewedRoot ∧
    (put Toy.primitives Sample.recoveredStore Dht.Sample.tld Sample.renewedRoot 2000 true).1
      = .ok true ∧
    isBasicValid Toy.primitives Sample.renewedRoot 2000 = true ∧
    verifyServedChain Toy.primitives (storeSource Toy.primitives Sample.renewedStore 2000) 2000
      [Sample.renewedRoot] = false ∧
    verifyServedChain Toy.primitives (storeSource Toy.primitives Sample.transferredStore 8000) 8000
      [Sample.transferred] = true ∧
    Sample.transferred.record.owner = Toy.publicKey 2 ∧
    LiveAt Sample.transferredStore 8000 Dht.Sample.tld Sample.transferred ∧
    shouldRenew 8000 (int64 Sample.transferred.record.created)
      (int64 Sample.transferred.record.expires) = true ∧
    (renewOnce Toy.primitives [Toy.keypair 2] (fun _ => true) Sample.transferredStore
      8000).attempts.length = 0 := by
  unfold LiveAt Holds
  refine ⟨?_, ⟨?_, ?_⟩, ?_, ?_, ?_, ?_, ?_, rfl, ⟨?_, ?_⟩, ?_, ?_⟩ <;> decide +kernel

end Freens.Renewal
