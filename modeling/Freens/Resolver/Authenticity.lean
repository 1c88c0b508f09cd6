/-
**ARE ANSWERS ABOUT THE NAME THAT WAS ASKED?** The chain verifier checks that the
served chain is consistent in itself; nothing compares its names with those the
source was asked for. When the terminal record carries the requested name, every
hop carries its own and the root belongs to the tld_id.
-/
import Freens.Resolver.FreensResolve
import Freens.Wire.Lineage

namespace Freens.Resolver

open Library Naming Wire

/-! ## Authentic answers -/

/-- A hand-off hop, with the predecessors and the evidence the source has. -/
def SourceHop (P : Primitives) (src : Source) (clock : Int) (cur prev : SignedEnvelope) : Prop :=
  HandoffHop P 1 (src.lookupByHash.getD (fun _ => none)) src.recoveryEvidence (uint64 clock) cur prev

/-- The root self-certifies for `T`, or reaches such a root through a lineage of the same name. -/
def CertifiedFor (P : Primitives) (hop : SignedEnvelope → SignedEnvelope → Prop) (T : Bytes)
    (root : SignedEnvelope) : Prop :=
  ∃ records origin, Lineage P hop root records ∧
    (∀ e ∈ records, e.record.name = root.record.name) ∧
    records.getLast? = some origin ∧ selfCertifiedTldRoot P origin = true ∧
    P.sha256 origin.record.owner = T

/-- **Authenticity**: every hop's envelope carries that hop's wire name, and the root is
certified. -/
structure AnswerAuthentic (P : Primitives) (src : Source) (clock : Int) (labels : List Bytes)
    (aliasName T : Bytes) (now : Int) : Prop where
  hops : ∀ k ≤ labels.length, ∃ wn env,
    encodeWireName P (labels.drop (labels.length - k)) aliasName T = .ok wn ∧
    src.lookup wn now = .ok (some env) ∧ env.record.name = wn
  root : ∃ wn root, encodeWireName P [] aliasName T = .ok wn ∧
    src.lookup wn now = .ok (some root) ∧ CertifiedFor P (SourceHop P src clock) T root

/-- The source serves hop `k` with `env`, valid now and not revoked. -/
def ServesHop (P : Primitives) (src : Source) (labels : List Bytes) (aliasName T : Bytes)
    (now : Int) (k : Nat) (env : SignedEnvelope) : Prop :=
  ∃ wn, hopName P labels aliasName T k = .ok wn ∧ src.lookup wn now = .ok (some env) ∧
    isBasicValid P env (uint64 now) = true ∧ env.isRevoked = false

/-- Each record of the chain is what the source serves for its name. -/
def Serves (P : Primitives) (src : Source) (labels : List Bytes) (aliasName T : Bytes)
    (now : Int) (chain : List SignedEnvelope) : Prop :=
  List.Forall₂ (ServesHop P src labels aliasName T now) (List.range (labels.length + 1)) chain

/-- **The condition on the source**: a chain that verifies and has an answer ends at the
requested name. -/
def TerminalNamed (P : Primitives) (src : Source) (clock : Int) (labels : List Bytes)
    (aliasName T : Bytes) (contested : Bool) (q : Question) (now : Int) : Prop :=
  ∀ chain terminal, Serves P src labels aliasName T now chain → chain.getLast? = some terminal →
    verifyServedChain P src clock chain = true → answerRRs P q terminal contested now ≠ [] →
    encodeWireName P labels aliasName T = .ok terminal.record.name

variable {P : Primitives}

/-! ## What an answer rests on -/

variable {labels : List Bytes} {aliasName T : Bytes} {src : Source} {now : Int} {k : Nat}
  {chain : List SignedEnvelope}

theorem serveHop_eq_ok_iff {env : SignedEnvelope} :
    serveHop P src labels aliasName T now k = .ok env ↔
      ServesHop P src labels aliasName T now k env := by
  unfold serveHop ServesHop
  cases hopName P labels aliasName T k with
  | error e => simp
  | ok wn =>
    simp only [Except.ok.injEq, exists_eq_left']
    cases src.lookup wn now with
    | error e => simp
    | ok answer =>
      cases answer with
      | none => simp
      | some e =>
        simp only [guard_eq_ok, Bool.not_eq_true', Bool.not_eq_false, Except.ok.injEq,
          Option.some.injEq, Bool.not_eq_true]
        constructor
        · intro h
          obtain ⟨hvalid, hrevoked, heq⟩ := h
          subst heq
          exact ⟨rfl, hvalid, hrevoked⟩
        · intro h
          obtain ⟨heq, hvalid, hrevoked⟩ := h
          subst heq
          exact ⟨hvalid, hrevoked, rfl⟩

theorem serveChain_eq_ok_iff :
    serveChain P src labels aliasName T now = .ok chain ↔
      Serves P src labels aliasName T now chain := by
  unfold serveChain Serves
  rw [mapM_eq_ok]
  simp only [serveHop_eq_ok_iff]

theorem Serves.length (h : Serves P src labels aliasName T now chain) :
    chain.length = labels.length + 1 := by
  have := List.Forall₂.length_eq h
  rw [List.length_range] at this
  exact this.symm

theorem Serves.hop (h : Serves P src labels aliasName T now chain) (hk : k ≤ labels.length) :
    ∃ env, chain[k]? = some env ∧ ServesHop P src labels aliasName T now k env := by
  apply forall₂_getElem? h
  rw [List.getElem?_range (by omega)]

theorem Serves.terminal {terminal : SignedEnvelope} (h : Serves P src labels aliasName T now chain)
    (hlast : chain.getLast? = some terminal) :
    ServesHop P src labels aliasName T now labels.length terminal := by
  obtain ⟨env, henv, hserves⟩ := h.hop (Nat.le_refl _)
  rw [List.getLast?_eq_getElem?, h.length, Nat.add_sub_cancel, henv, Option.some.injEq] at hlast
  exact hlast ▸ hserves

theorem answered_iff {r : Resolver} {contested : Bool} {q : Question} (hsrc : r.freens = some src)
    (htld : resolveTld P r aliasName now = .ok (T, contested)) :
    (freensResolve P r labels aliasName q now).1 ≠ [] ↔
      ∃ chain terminal, Serves P src labels aliasName T now chain ∧
        chain.getLast? = some terminal ∧ verifyServedChain P src r.clock chain = true ∧
        answerRRs P q terminal contested now ≠ [] := by
  simp only [freensResolve, hsrc, htld, resolveUnder, ← serveChain_eq_ok_iff]
  cases hserve : serveChain P src labels aliasName T now with
  | error rcode => simp
  | ok chain =>
    simp only [Except.ok.injEq, exists_and_left, exists_eq_left']
    cases hlast : chain.getLast? with
    | none => simp
    | some terminal =>
      -- every hop was checked when it was served, the last one included
      obtain ⟨_, _, _, hvalid, _⟩ := (serveChain_eq_ok_iff.mp hserve).terminal hlast
      simp only [hvalid, Option.some.injEq, exists_eq_left', Bool.not_true, Bool.false_eq_true,
        if_false]
      cases verifyServedChain P src r.clock chain with
      | false | true => simp

theorem chain_parts {accepts : SignedEnvelope → Bool}
    (h : (chainWellFormed P chain && chain.head?.any accepts && verifyDescents chain) = true) :
    chain.IsChain Descends ∧ ∃ root, chain.head? = some root ∧ root.verifySignature P = true ∧
      accepts root = true := by
  rw [Bool.and_eq_true, Bool.and_eq_true, chainWellFormed_iff, verifyDescents_iff,
    Option.any_eq_true] at h
  obtain ⟨⟨hwf, root, hhead, hroot⟩, hdescents⟩ := h
  exact ⟨hdescents, root, hhead, hwf.2.2 root (List.mem_of_mem_head? hhead), hroot⟩

variable {clock : Int} {rest : List SignedEnvelope} {L : List Bytes}

/-- **A verified chain** descends from a root with a lineage, whichever verifier is selected. -/
theorem verifyServedChain_sound (h : verifyServedChain P src clock chain = true) :
    chain.IsChain Descends ∧ ∃ root records, chain.head? = some root ∧
      Lineage P (SourceHop P src clock) root records := by
  have hplain : verifyAuthorityChain P chain = true → chain.IsChain Descends ∧
      ∃ root records, chain.head? = some root ∧ Lineage P (SourceHop P src clock) root records := by
    intro hv
    obtain ⟨hdescents, root, hhead, hsig, hself⟩ := chain_parts hv
    exact ⟨hdescents, root, [root], hhead, Lineage.single hsig hself⟩
  unfold verifyServedChain at h
  split at h
  next => cases h
  split at h
  next => exact hplain h
  split at h
  next => exact hplain h
  next fetchPredecessor fetchEvidence hhist hevid =>
    obtain ⟨hdescents, root, hhead, hsig, hroot⟩ := chain_parts h
    obtain ⟨records, hl⟩ := (walkBack_isSome_iff hsig).mp (root_accepted_iff.mp hroot)
    refine ⟨hdescents, root, records, hhead, ?_⟩
    unfold SourceHop
    rw [hhist, hevid]
    exact hl
  next fetchPredecessor hhist hevid =>
    obtain ⟨hdescents, root, hhead, hsig, hroot⟩ := chain_parts h
    by_cases hown : root.signer = root.record.owner
    · rw [if_pos hown] at hroot
      exact ⟨hdescents, root, [root], hhead, Lineage.single hsig hroot⟩
    · rw [if_neg hown] at hroot
      obtain ⟨records, hl⟩ := @lineage_of_verifyTransferWalk P fetchPredecessor
        src.recoveryEvidence (uint64 clock) root hsig hroot
      refine ⟨hdescents, root, records, hhead, ?_⟩
      unfold SourceHop
      rw [hhist]
      exact hl

/-! ## The terminal name fixes every hop name -/

section
variable {terminal : SignedEnvelope} (hterminal : decodeWireName terminal.record.name = .ok (L, T))
  {a : SignedEnvelope}
include hterminal

theorem descends_suffix
    (hchain : (a :: rest).IsChain Descends) (hlast : (a :: rest).getLast? = some terminal) :
    ∃ La, decodeWireName a.record.name = .ok (La, T) ∧ La <:+ L ∧
      La.length + rest.length ≤ L.length := by
  induction rest generalizing a with
  | nil =>
    rw [List.getLast?_singleton, Option.some.injEq] at hlast
    rw [hlast]
    exact ⟨L, hterminal, List.suffix_refl L, Nat.le_refl _⟩
  | cons b rest ih =>
    rw [List.isChain_cons_cons] at hchain
    rw [List.getLast?_cons_cons] at hlast
    obtain ⟨Lb, hb, hsuffix, hlen⟩ := ih hchain.2 hlast
    obtain ⟨pLabels, cLabels, tldID, hp, hc, hlt, hpc⟩ := hchain.1.names
    rw [hb, Except.ok.injEq, Prod.mk.injEq] at hc
    obtain ⟨hLb, hT⟩ := hc
    subst hLb hT
    refine ⟨pLabels, hp, hpc.trans hsuffix, ?_⟩
    rw [List.length_cons]
    omega

/-- **A descent without gaps**: with as many labels as hops every record carries the suffix
of its position. -/
theorem descends_exact {La : List Bytes} (hchain : (a :: rest).IsChain Descends)
    (hlast : (a :: rest).getLast? = some terminal) (ha : decodeWireName a.record.name = .ok (La, T))
    (hlen : La.length + rest.length = L.length) {i : Nat} {e : SignedEnvelope}
    (he : (a :: rest)[i]? = some e) :
    decodeWireName e.record.name = .ok (L.drop (L.length - (La.length + i)), T) := by
  induction rest generalizing a La i e with
  | nil =>
    cases i with
    | zero =>
      rw [List.getElem?_cons_zero, Option.some.injEq] at he
      rw [List.getLast?_singleton, Option.some.injEq] at hlast
      rw [List.length_nil] at hlen
      rw [← he, hlast, hterminal]
      simp [hlen]
    | succ i => cases he
  | cons b rest ih =>
    have hsuffix : La <:+ L := by
      obtain ⟨La', ha', hsuffix, _⟩ := descends_suffix hterminal hchain hlast
      rw [ha, Except.ok.injEq, Prod.mk.injEq] at ha'
      exact ha'.1 ▸ hsuffix
    cases i with
    | zero =>
      rw [List.getElem?_cons_zero, Option.some.injEq] at he
      rw [← he, ha, Nat.add_zero, ← List.suffix_iff_eq_drop.mp hsuffix]
    | succ i =>
      rw [List.getElem?_cons_succ] at he
      rw [List.isChain_cons_cons] at hchain
      rw [List.getLast?_cons_cons] at hlast
      rw [List.length_cons] at hlen
      obtain ⟨Lb, hb, _, hle⟩ := descends_suffix hterminal hchain.2 hlast
      obtain ⟨pLabels, cLabels, tldID, hp, hc, hlt, _⟩ := hchain.1.names
      rw [ha, Except.ok.injEq, Prod.mk.injEq] at hp
      rw [hb, Except.ok.injEq, Prod.mk.injEq] at hc
      rw [← hp.1, ← hc.1] at hlt
      -- there is room for one label a hop only
      have hone : Lb.length = La.length + 1 := by omega
      have htail := ih hchain.2 hlast hb (by omega) he
      rw [htail, hone]
      congr 3
      omega

end

theorem hop_names {terminal : SignedEnvelope} (hserves : Serves P src labels aliasName T now chain)
    (hlast : chain.getLast? = some terminal) (hdescents : chain.IsChain Descends)
    (hname : encodeWireName P labels aliasName T = .ok terminal.record.name)
    (hk : k ≤ labels.length) :
    ∃ wn env, chain[k]? = some env ∧ hopName P labels aliasName T k = .ok wn ∧
      src.lookup wn now = .ok (some env) ∧ env.record.name = wn := by
  obtain ⟨L, hL, hterminal⟩ := decodeWireName_encodeWireName hname
  have hcount : L.length = labels.length := (mapM_length hL).symm
  obtain ⟨env, henv, wn, hwn, hlookup, _⟩ := hserves.hop hk
  refine ⟨wn, env, henv, hwn, hlookup, ?_⟩
  -- the name asked for decodes to the last labels ...
  obtain ⟨Lk, hLk, hdecode⟩ := decodeWireName_encodeWireName hwn
  rw [mapM_drop _ hL, Except.ok.injEq] at hLk
  -- ... and so does the one served
  have hchain := hserves.length
  cases chain with
  | nil => cases hchain
  | cons root rest =>
    rw [List.length_cons] at hchain
    obtain ⟨L₀, hroot, _, hle⟩ := descends_suffix hterminal hdescents hlast
    have hzero : L₀.length = 0 := by omega
    have hserved := descends_exact hterminal hdescents hlast hroot (by omega) henv
    rw [hzero, Nat.zero_add, hcount, hLk] at hserved
    exact decodeWireName_injective hserved hdecode

theorem certifiedFor_of_lineage {root : SignedEnvelope} {records : List SignedEnvelope}
    (h : Lineage P (SourceHop P src clock) root records)
    (hname : root.record.name = wireImage [] T) :
    CertifiedFor P (SourceHop P src clock) T root := by
  obtain ⟨origin, hlast, hself⟩ := h.origin
  have hnames := Lineage.name h
  refine ⟨records, origin, h, hnames, hlast, hself, ?_⟩
  have horigin := hnames origin (List.mem_of_getLast? hlast)
  exact (tldID_of_selfCertified hself (horigin.trans hname)).symm

/-- **When answers are authentic.** A non-empty answer is authentic exactly when the source
serves the requested name itself at the last hop of every chain that gets through. -/
theorem answer_authentic_iff (P : Primitives) (r : Resolver) (src : Source) (labels : List Bytes)
    (aliasName T : Bytes) (contested : Bool) (q : Question) (now : Int)
    (hsrc : r.freens = some src) (htld : resolveTld P r aliasName now = .ok (T, contested)) :
    ((freensResolve P r labels aliasName q now).1 ≠ [] →
        AnswerAuthentic P src r.clock labels aliasName T now) ↔
      TerminalNamed P src r.clock labels aliasName T contested q now := by
  rw [answered_iff hsrc htld]
  constructor
  · intro h chain terminal hserves hlast hverified hrrs
    have hauth := h ⟨chain, terminal, hserves, hlast, hverified, hrrs⟩
    obtain ⟨wn, env, hwn, hlookup, hname⟩ := hauth.hops labels.length (Nat.le_refl _)
    obtain ⟨wn', hwn', hlookup', _⟩ := hserves.terminal hlast
    rw [hopName, hwn, Except.ok.injEq] at hwn'
    subst hwn'
    rw [hlookup, Except.ok.injEq, Option.some.injEq] at hlookup'
    rw [Nat.sub_self, List.drop_zero] at hwn
    rw [← hlookup', hname, hwn]
  · intro h hanswered
    obtain ⟨chain, terminal, hserves, hlast, hverified, hrrs⟩ := hanswered
    have hname := h chain terminal hserves hlast hverified hrrs
    obtain ⟨hdescents, root, records, hhead, hlineage⟩ := verifyServedChain_sound hverified
    refine ⟨?_, ?_⟩
    · intro k hk
      obtain ⟨wn, env, _, hwn, hlookup, hnames⟩ := hop_names hserves hlast hdescents hname hk
      exact ⟨wn, env, hwn, hlookup, hnames⟩
    · obtain ⟨wn, env, henv, hwn, hlookup, hnames⟩ :=
        hop_names hserves hlast hdescents hname (Nat.zero_le _)
      rw [← List.head?_eq_getElem?, hhead, Option.some.injEq] at henv
      subst henv
      rw [hopName, Nat.sub_zero, List.drop_length] at hwn
      refine ⟨wn, root, hwn, hlookup, certifiedFor_of_lineage hlineage ?_⟩
      obtain ⟨_, _, L, hL, _, hwire⟩ := encodeWireName_eq_ok_iff.mp hwn
      rw [List.mapM_nil, pure_eq_ok] at hL
      rw [hnames, hwire, hL]

namespace Sample

def zz : Bytes := [0x7a, 0x7a]

def www : Bytes := [0x77, 0x77, 0x77]

def tld : Bytes := Toy.checksum (Toy.publicKey 1)

def root (n : UInt8) : SignedEnvelope := Toy.signedBy n (Toy.tldRecord n n 1 100 900)

def host (n : UInt8) : SignedEnvelope :=
  Toy.signedBy n { Toy.tldRecord n n 1 100 900 with
    name := wireImage [www] (Toy.checksum (Toy.publicKey n))
    rrset := [{ type := 1, ttl := 300, rdata := [192, 0, 2, n] }] }

/-- A source that serves owner `n`'s records. -/
def source (n : UInt8) : Source :=
  { lookup := fun wn _ => .ok (some (if wn = Toy.tldName 1 then root n else host n))
    lookupByHash := none
    recoveryEvidence := none }

/-- A resolver on that source, with the pin. -/
def resolver (n : UInt8) : Resolver :=
  { freens := some (source n)
    aliasPins := fun _ => tld
    reservedTLDs := fun _ => false
    allowReserved := false
    resolveAliasClaim := fun _ _ => { tldID := [], contested := false, degraded := false }
    clock := 200 }

def question : Question := { name := www ++ 0x2e :: zz ++ [0x2e], qtype := 1 }

end Sample

theorem answer_authentic_served :
    AnswerAuthentic Toy.primitives (Sample.source 1) 200 [Sample.www] Sample.zz Sample.tld 200 := by
  apply (answer_authentic_iff Toy.primitives (Sample.resolver 1) (Sample.source 1) [Sample.www]
    Sample.zz Sample.tld false Sample.question 200 rfl (by decide +kernel)).mpr
  · intro chain terminal hserves hlast _ _
    obtain ⟨wn, hwn, hlookup, _⟩ := hserves.terminal hlast
    have hasked : hopName Toy.primitives [Sample.www] Sample.zz Sample.tld 1
        = .ok (Sample.host 1).record.name := by decide +kernel
    rw [show [Sample.www].length = 1 from rfl, hasked, Except.ok.injEq] at hwn
    subst hwn
    have hhost : (Sample.source 1).lookup (Sample.host 1).record.name 200
        = .ok (some (Sample.host 1)) := by decide +kernel
    rw [hhost, Except.ok.injEq, Option.some.injEq] at hlookup
    rw [← hlookup]
    exact hasked
  · decide +kernel

/-- **A foreign chain is answered**: the chain of key 2's TLD, served for names of key 1's. -/
theorem foreign_chain_answered :
    resolveTld Toy.primitives (Sample.resolver 2) Sample.zz 200 = .ok (Sample.tld, false) ∧
    (freensResolve Toy.primitives (Sample.resolver 2) [Sample.www] Sample.zz Sample.question 200).1
      = [{ name := Sample.question.name, ttl := 300, rdata := .a [192, 0, 2, 2] }] ∧
    ¬ AnswerAuthentic Toy.primitives (Sample.source 2) 200 [Sample.www] Sample.zz Sample.tld 200 := by
  refine ⟨by decide +kernel, by decide +kernel, ?_⟩
  intro h
  obtain ⟨wn, env, hwn, hlookup, hname⟩ := h.hops 0 (Nat.zero_le _)
  have hasked : encodeWireName Toy.primitives [] Sample.zz Sample.tld = .ok (Toy.tldName 1) := by
    decide +kernel
  rw [Nat.sub_zero, List.drop_length, hasked, Except.ok.injEq] at hwn
  subst hwn
  have hserved : (Sample.source 2).lookup (Toy.tldName 1) 200 = .ok (some (Sample.root 2)) := by
    decide +kernel
  rw [hserved, Except.ok.injEq, Option.some.injEq] at hlookup
  rw [← hlookup] at hname
  exact absurd hname (by decide +kernel)

end Freens.Resolver
