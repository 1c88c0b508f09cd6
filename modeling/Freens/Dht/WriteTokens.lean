/-
**WRITE TOKENS** (`dht/tokens.go`; `dht/transport.go`:
`hPing`, `hFindNode`, `hGet`, `hPut`, `normIP`).

A token is the MAC of the sender's address under the secret of the current
five minutes, and is honoured in these and the next five.
-/
import Freens.Toy
import Mathlib.Data.Nat.Digits.Defs

namespace Freens.Dht

open Library

/-! ## The token store -/

abbrev tokenRotation : Int := 300
abbrev minRootSecretLen : Nat := 16

/-- The clock is handed to each call. -/
structure TokenStore where
  rotationSeconds : Int
  rootSecret : Bytes
  deriving DecidableEq

/-- Why a token store is not made. -/
inductive TokenStoreError where
  /-- "rotation must be > 0" -/
  | rotation
  /-- "root_secret too short" -/
  | secretTooShort (got : Nat)
  deriving DecidableEq

/-- `NewTokenStore`. -/
def newTokenStore (rotationSeconds : Int) (rootSecret : Bytes) :
    Except TokenStoreError TokenStore :=
  if rotationSeconds ≤ 0 then .error .rotation
  else if rootSecret.length < minRootSecretLen then .error (.secretTooShort rootSecret.length)
  else .ok { rotationSeconds, rootSecret }

/-- `strconv.Itoa`. -/
def itoa (n : Int) : Bytes :=
  let digits := if n = 0 then [0] else (Nat.digits 10 n.natAbs).reverse
  (if n < 0 then [0x2d] else []) ++ digits.map (fun d => UInt8.ofNat (0x30 + d))

/-- Division truncates. -/
def TokenStore.epoch (ts : TokenStore) (now : Int) : Int := now.tdiv ts.rotationSeconds

/-- An IPv4 address in IPv6 form is its last four bytes. -/
def normIP (ip : Bytes) : Bytes :=
  if ip.length = 16 ∧ ip.take 12 = List.replicate 10 0 ++ [0xff, 0xff] then ip.drop 12 else ip

section
/- HMAC-SHA256 of a key and a message. -/
variable (hmac : Bytes → Bytes → Bytes)

/-- The secret of an epoch. -/
def TokenStore.secretForEpoch (ts : TokenStore) (epoch : Int) : Bytes :=
  hmac ts.rootSecret (itoa epoch)

/-- The token of an address in an epoch. -/
def TokenStore.mac (ts : TokenStore) (epoch : Int) (peerIP : Bytes) : Bytes :=
  hmac (ts.secretForEpoch hmac epoch) peerIP

/-- `Issue`. -/
def TokenStore.issue (ts : TokenStore) (peerIP : Bytes) (now : Int) : Bytes :=
  ts.mac hmac (ts.epoch now) peerIP

/-- `Verify`: this epoch's token, or one within the tolerance. -/
def TokenStore.verify (ts : TokenStore) (peerIP token : Bytes) (toleranceEpochs now : Int) :
    Bool :=
  if token.length ≠ Constants.sha256Len then false
  else if toleranceEpochs < 0 then false
  else (List.range (toleranceEpochs.toNat + 1)).any
    fun off => ts.mac hmac (ts.epoch now - off) peerIP = token

/-! ## The node -/

/-- A request and the address it comes from; `allowRead` is the verdict of the
throttle. -/
inductive TokenEvent where
  | ping (source : Bytes)
  | findNode (source : Bytes) (allowRead : Bool) (target : Bytes)
  | get (source : Bytes) (allowRead : Bool) (key : Bytes)
  | put (source token : Bytes)
  deriving DecidableEq

/-- Where a request comes from. -/
def TokenEvent.source : TokenEvent → Bytes
  | .ping source | .findNode source _ _ | .get source _ _ | .put source _ => source

/-- The token in the response of `hPing`, `hFindNode` and `hGet`. -/
def TokenStore.answer (ts : TokenStore) (now : Int) : TokenEvent → Option Bytes
  | .ping source => some (ts.issue hmac (normIP source) now)
  | .findNode source allowRead target =>
    if !allowRead then none
    else if target.length ≠ 32 then none
    else some (ts.issue hmac (normIP source) now)
  | .get source allowRead key =>
    if !allowRead then none
    else if key.length ≠ Constants.sha256Len then none
    else some (ts.issue hmac (normIP source) now)
  | .put _ _ => none

/-- What the node computes a MAC of: the epochs, and under their secrets the addresses. -/
def macInputs (ts : TokenStore) (run : List (Int × TokenEvent)) : List (Bytes × Bytes) :=
  run.flatMap fun x => [ts.epoch x.1, ts.epoch x.1 - 1].flatMap fun e =>
    [(ts.rootSecret, itoa e), (ts.secretForEpoch hmac e, normIP x.2.source)]

/-- **An ideal MAC**, as far as a run can tell: 32 bytes, injective, and never guessed. -/
structure IdealMac (ts : TokenStore) (run : List (Int × TokenEvent)) : Prop where
  length : ∀ key msg, (hmac key msg).length = 32
  injective : ∀ x ∈ macInputs hmac ts run, ∀ y ∈ macInputs hmac ts run,
    hmac x.1 x.2 = hmac y.1 y.2 → x = y
  unforged : ∀ i < run.length, ∀ t source token, run[i]? = some (t, .put source token) →
    ∀ x ∈ macInputs hmac ts run, hmac x.1 x.2 = token →
      ∃ j < i, ∃ y ∈ run[j]?, ts.answer hmac y.1 y.2 = some token

end

/-- The clock of a run does not go back, and starts no earlier than 1970. -/
structure Clocked (run : List (Int × TokenEvent)) : Prop where
  nonneg : ∀ x ∈ run, 0 ≤ x.1
  mono : run.Pairwise (fun a b => a.1 ≤ b.1)

/-! ## Epochs and addresses -/

/-- The number the digits spell. -/
def decimal (digits : Bytes) : Nat :=
  Nat.ofDigits 10 (digits.map (fun d => d.toNat - 0x30)).reverse

/-- The integer read back. -/
def atoi (b : Bytes) : Int := if b.head? = some 0x2d then -decimal b.tail else decimal b

theorem atoi_itoa (n : Int) : atoi (itoa n) = n := by
  obtain ⟨digits, hlt, hvalue, hitoa⟩ : ∃ digits : List Nat, (∀ d ∈ digits, d < 10) ∧
      Nat.ofDigits 10 digits.reverse = n.natAbs ∧
      itoa n = (if n < 0 then [0x2d] else []) ++ digits.map (fun d => UInt8.ofNat (0x30 + d)) := by
    by_cases hn : n = 0
    · exact ⟨[0], by simp, by simp [hn], by simp [itoa, hn]⟩
    · refine ⟨(Nat.digits 10 n.natAbs).reverse, ?_, ?_, by simp [itoa, hn]⟩
      · intro d hd
        exact Nat.digits_lt_base (by decide) (List.mem_reverse.mp hd)
      · rw [List.reverse_reverse, Nat.ofDigits_digits]
  have hbyte : ∀ d ∈ digits, (UInt8.ofNat (0x30 + d)).toNat = 0x30 + d := by
    intro d hd
    have h10 := hlt d hd
    rw [UInt8.toNat_ofNat']
    omega
  have hback : decimal (digits.map (fun d => UInt8.ofNat (0x30 + d))) = n.natAbs := by
    have hid : ∀ d ∈ digits, (UInt8.ofNat (0x30 + d)).toNat - 0x30 = id d := by
      intro d hd
      rw [hbyte d hd]
      exact Nat.add_sub_cancel_left _ _
    rw [decimal, List.map_map, ← hvalue]
    exact congrArg (fun l => Nat.ofDigits 10 l.reverse)
      ((List.map_congr_left hid).trans (List.map_id _))
  -- no digit is a minus sign
  have hplain : (digits.map (fun d => UInt8.ofNat (0x30 + d))).head? ≠ some 0x2d := by
    intro hhead
    obtain ⟨d, hd, hminus⟩ := List.mem_map.mp (List.mem_of_mem_head? hhead)
    have hnat := congrArg UInt8.toNat hminus
    rw [hbyte d hd] at hnat
    change 0x30 + d = 0x2d at hnat
    omega
  rw [hitoa]
  by_cases hneg : n < 0
  · rw [if_pos hneg]
    show -(decimal (digits.map _) : Int) = n
    rw [hback]
    omega
  · rw [if_neg hneg, List.nil_append, atoi, if_neg hplain, hback]
    omega

theorem normIP_mapped {v4 : Bytes} (h : v4.length = 4) :
    normIP (List.replicate 10 0 ++ [0xff, 0xff] ++ v4) = normIP v4 := by
  have hv4 : normIP v4 = v4 := if_neg (by omega)
  rw [hv4, normIP, if_pos ⟨by simp [h], List.take_left' rfl⟩]
  exact List.drop_left' rfl

section
variable {hmac : Bytes → Bytes → Bytes} {ts : TokenStore} {run : List (Int × TokenEvent)}

theorem answer_eq_some {now : Int} {ev : TokenEvent} {token : Bytes}
    (h : ts.answer hmac now ev = some token) :
    token = ts.mac hmac (ts.epoch now) (normIP ev.source) := by
  cases ev with
  | ping source => exact (Option.some.inj h).symm
  | findNode source allowRead target =>
    simp only [TokenStore.answer, Option.ite_none_left_eq_some, Option.some.injEq] at h
    exact h.2.2.symm
  | get source allowRead key =>
    simp only [TokenStore.answer, Option.ite_none_left_eq_some, Option.some.injEq] at h
    exact h.2.2.symm
  | put source token => cases h

theorem verify_iff (hlength : ∀ key msg, (hmac key msg).length = 32) {ip token : Bytes} {now : Int} :
    ts.verify hmac ip token 1 now = true ↔
      ∃ e, (e = ts.epoch now ∨ e = ts.epoch now - 1) ∧ ts.mac hmac e ip = token := by
  have hlen : ∀ e, (ts.mac hmac e ip).length = 32 := fun e => hlength _ _
  rw [TokenStore.verify]
  constructor
  · intro h
    split at h
    next => cases h
    simp only [Int.reduceLT, if_false, List.any_eq_true, List.mem_range, decide_eq_true_eq] at h
    obtain ⟨off, hoff, heq⟩ := h
    refine ⟨ts.epoch now - off, ?_, heq⟩
    change off < 2 at hoff
    omega
  · rintro ⟨e, he, heq⟩
    rw [if_neg (by rw [← heq, hlen]; decide), if_neg (by decide), List.any_eq_true]
    rcases he with rfl | rfl
    · exact ⟨0, by decide, by simpa using heq⟩
    · exact ⟨1, by decide, by simpa using heq⟩

theorem mem_macInputs {x : Int × TokenEvent} (hx : x ∈ run) {e : Int}
    (he : e = ts.epoch x.1 ∨ e = ts.epoch x.1 - 1) :
    (ts.rootSecret, itoa e) ∈ macInputs hmac ts run ∧
      (ts.secretForEpoch hmac e, normIP x.2.source) ∈ macInputs hmac ts run := by
  have hmem : e ∈ [ts.epoch x.1, ts.epoch x.1 - 1] := by simpa using he
  constructor
  · exact List.mem_flatMap.mpr ⟨x, hx, List.mem_flatMap.mpr ⟨e, hmem, by simp⟩⟩
  · exact List.mem_flatMap.mpr ⟨x, hx, List.mem_flatMap.mpr ⟨e, hmem, by simp⟩⟩

theorem IdealMac.mac_inj (h : IdealMac hmac ts run) {x y : Int × TokenEvent} (hx : x ∈ run)
    (hy : y ∈ run) {e e' : Int} (he : e = ts.epoch x.1 ∨ e = ts.epoch x.1 - 1)
    (he' : e' = ts.epoch y.1 ∨ e' = ts.epoch y.1 - 1)
    (heq : ts.mac hmac e (normIP x.2.source) = ts.mac hmac e' (normIP y.2.source)) :
    e = e' ∧ normIP x.2.source = normIP y.2.source := by
  obtain ⟨hroot, hsecret⟩ := @mem_macInputs hmac ts run x hx e he
  obtain ⟨hroot', hsecret'⟩ := @mem_macInputs hmac ts run y hy e' he'
  have hpair := Prod.mk.inj (h.injective _ hsecret _ hsecret' heq)
  have hitoa := (Prod.mk.inj (h.injective _ hroot _ hroot' hpair.1)).2
  exact ⟨by rw [← atoi_itoa e, hitoa, atoi_itoa], hpair.2⟩

end

/-- **Write tokens prove a recent exchange.** A put passes only with a token given to the
same address less than ten minutes before; a token passes for five minutes, from every form
of the address. -/
theorem write_tokens_recent (hmac : Bytes → Bytes → Bytes) (rootSecret : Bytes) (ts : TokenStore)
    (hts : newTokenStore tokenRotation rootSecret = .ok ts) (run : List (Int × TokenEvent))
    (hclock : Clocked run) (hideal : IdealMac hmac ts run) :
    (∀ (i : Nat) (t : Int) (source token : Bytes), run[i]? = some (t, .put source token) →
      ts.verify hmac (normIP source) token 1 t = true →
      ∃ j < i, ∃ t' ev, run[j]? = some (t', ev) ∧ ts.answer hmac t' ev = some token ∧
        normIP ev.source = normIP source ∧ t - 600 < t' ∧ t' ≤ t) ∧
    (∀ (j : Nat) (t₀ : Int) (ev : TokenEvent) (token : Bytes), run[j]? = some (t₀, ev) →
      ts.answer hmac t₀ ev = some token → ∀ (t : Int) (source : Bytes), t₀ ≤ t → t ≤ t₀ + 300 →
        normIP source = normIP ev.source → ts.verify hmac (normIP source) token 1 t = true) ∧
    ∀ v4 : Bytes, v4.length = 4 → normIP (List.replicate 10 0 ++ [0xff, 0xff] ++ v4) = normIP v4 := by
  have hrotation : ts.rotationSeconds = 300 := by
    unfold newTokenStore at hts
    split at hts
    next => cases hts
    split at hts
    next => cases hts
    cases hts
    rfl
  have hepoch : ∀ x ∈ run, ts.epoch x.1 = x.1 / 300 := by
    intro x hx
    rw [TokenStore.epoch, hrotation, Int.tdiv_eq_ediv_of_nonneg (hclock.nonneg x hx)]
  refine ⟨?_, ?_, fun v4 h => normIP_mapped h⟩
  · intro i t source token hi hpass
    have hput : (t, TokenEvent.put source token) ∈ run := List.mem_of_getElem? hi
    obtain ⟨hlt, hget⟩ := List.getElem?_eq_some_iff.mp hi
    obtain ⟨e, he, hmac⟩ := (verify_iff hideal.length).mp hpass
    obtain ⟨j, hj, ⟨t', ev⟩, hy, hanswer⟩ := hideal.unforged i hlt t source token hi _
      (mem_macInputs hput he).2 hmac
    have hev : (t', ev) ∈ run := List.mem_of_getElem? hy
    have hissued := answer_eq_some hanswer
    rw [← hmac] at hissued
    obtain ⟨hepochs, hsource⟩ := hideal.mac_inj hput hev he (.inl rfl) hissued
    refine ⟨j, hj, t', ev, hy, hanswer, hsource.symm, ?_, ?_⟩
    · rw [hepoch _ hput, hepoch _ hev] at *
      dsimp only at *
      omega
    · obtain ⟨hlt', hget'⟩ := List.getElem?_eq_some_iff.mp hy
      have hmono := List.pairwise_iff_getElem.mp hclock.mono j i hlt' hlt hj
      rw [hget', hget] at hmono
      exact hmono
  · intro j t₀ ev token hj hanswer t source hle hwithin hsource
    have hev : (t₀, ev) ∈ run := List.mem_of_getElem? hj
    have hnonneg : 0 ≤ t₀ := hclock.nonneg _ hev
    have hnow : ts.epoch t = t / 300 := by
      rw [TokenStore.epoch, hrotation, Int.tdiv_eq_ediv_of_nonneg (by omega)]
    rw [verify_iff hideal.length]
    refine ⟨ts.epoch t₀, ?_, ?_⟩
    · rw [hnow, hepoch _ hev]
      dsimp only
      omega
    · rw [hsource]
      exact (answer_eq_some hanswer).symm

namespace TokenSample

def hmac (key msg : Bytes) : Bytes := Toy.checksum (key ++ msg)

def store : TokenStore := ⟨300, List.replicate 16 7⟩

def v4 : Bytes := [192, 0, 2, 1]

/-- Issued to it, used by its mapped form. -/
def run : List (Int × TokenEvent) :=
  [(290, .ping v4), (310, .put (List.replicate 10 0 ++ [0xff, 0xff] ++ v4) (store.issue hmac v4 290))]

theorem ideal : IdealMac hmac store run where
  length _ _ := Toy.checksum_length _
  injective := by decide +kernel
  unforged := by
    intro i hi t source token hput x _ hx
    have hi : i < 2 := hi
    interval_cases i
    · cases hput
    · cases hput
      exact ⟨0, by decide, _, rfl, by decide +kernel⟩

end TokenSample

section
open TokenSample

theorem token_across_epochs :
    ∃ j < 1, ∃ t' ev, run[j]? = some (t', ev) ∧
      store.answer hmac t' ev = some (store.issue hmac v4 290) ∧
      normIP ev.source = normIP (List.replicate 10 0 ++ [0xff, 0xff] ++ v4) ∧
      (310 : Int) - 600 < t' ∧ t' ≤ 310 :=
  (write_tokens_recent hmac (List.replicate 16 7) store rfl run ⟨by decide, by decide⟩ ideal).1 1 310
    _ _ rfl (by decide +kernel)

end

end Freens.Dht
