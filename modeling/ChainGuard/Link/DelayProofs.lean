import ChainGuard.Evm.VDFVerifier
import ChainGuard.OffChain.Vdf

/-! Delay proofs on the chain and off it. Both verifiers pack, reduce and mask alike, in words and uint64
there and in bigints here; only the halving of the delay is done in 32 bits by one of them. -/
namespace ChainGuard.Link
open Guarded Evm OffChain
open VDFVerifier (oddChallenge roundChallenge)
set_option autoImplicit false

variable {chain : VDFVerifier.Chain} {rt : Vdf.Runtime}

/-- The two sides hash alike, and what they call does what it documents. -/
structure DelayLibraries (chain : VDFVerifier.Chain) (rt : Vdf.Runtime) : Prop where
  keccak256 : rt.keccak256 = chain.keccak256
  modexp : chain.ModexpCorrect
  packs : rt.PacksTightly
  log2 : ∀ k : ℕ, rt.log2 (2 ^ k) = k

/-! ## Challenges -/

theorem encoding_bytes (data : Bytes) : (Vdf.PackedValue.bytes data).encoding = some data := rfl

theorem encoding_uint64 {T : ℕ} (hT : T < 2 ^ 64) :
    (Vdf.PackedValue.uint64 T).encoding = some (bytesBE 8 T) := by
  have hfits : (0 : ℤ) ≤ T ∧ (T : ℤ) < 2 ^ 64 := ⟨Int.natCast_nonneg T, by exact_mod_cast hT⟩
  rw [Vdf.PackedValue.encoding, if_pos hfits, Int.toNat_natCast]

theorem packed_eq (hpacks : rt.PacksTightly) {values : List Vdf.PackedValue} {data : List Bytes}
    (h : values.mapM Vdf.PackedValue.encoding = some data) : Vdf.packed rt values = .ok data.flatten := by
  rw [Vdf.packed, hpacks, h]
  rfl

theorem fiatShamirChallenge_eq (hpacks : rt.PacksTightly) (x y : ℕ) {T N : ℕ} (hN : N ≠ 0)
    (hword : N < 2 ^ 256) (hT : T < 2 ^ 64) (challengeBits : ℕ) :
    Vdf.fiatShamirChallenge rt x y T N challengeBits = .ok (Int.ofNat (oddChallenge challengeBits
      (rt.keccak256 (word (x % N) ++ word (y % N) ++ bytesBE 8 T ++ word N)))) := by
  have hlt : ∀ a, a % N < 2 ^ 256 := fun a => (Nat.mod_lt a (Nat.pos_of_ne_zero hN)).trans hword
  have hencodings : [Vdf.PackedValue.bytes (word (x % N)), .bytes (word (y % N)), .uint64 T,
      .bytes (word N)].mapM Vdf.PackedValue.encoding =
        some [word (x % N), word (y % N), bytesBE 8 T, word N] := by
    simp [encoding_bytes, encoding_uint64 hT]
  have hdata := packed_eq hpacks hencodings
  simp only [List.flatten_cons, List.flatten_nil, List.append_nil] at hdata
  unfold Vdf.fiatShamirChallenge
  rw [Vdf.packedWidth_word hword, Vdf.rem_natCast x hN, Vdf.rem_natCast y hN]
  simp only [bind, Except.bind, Vdf.toBytesBEPadded_natCast (hlt x), Vdf.toBytesBEPadded_natCast (hlt y),
    Vdf.toBytesBEPadded_natCast hword, hdata, Vdf.bytesToBigInt_eq, Nat.and_two_pow_sub_one_eq_mod,
    Nat.and_one_is_mod, List.append_assoc]
  rfl

theorem pietrzakChallenge_eq (hpacks : rt.PacksTightly) (x y mu : ℕ) {T N : ℕ} (hN : N ≠ 0)
    (hword : N < 2 ^ 256) (hT : T < 2 ^ 64) :
    Vdf.pietrzakChallenge rt x y mu T N = .ok (Int.ofNat (roundChallenge
      (rt.keccak256 (word (x % N) ++ word (y % N) ++ word (mu % N) ++ bytesBE 8 T ++ word N)))) := by
  have hlt : ∀ a, a % N < 2 ^ 256 := fun a => (Nat.mod_lt a (Nat.pos_of_ne_zero hN)).trans hword
  have hencodings : [Vdf.PackedValue.bytes (word (x % N)), .bytes (word (y % N)), .bytes (word (mu % N)),
      .uint64 T, .bytes (word N)].mapM Vdf.PackedValue.encoding =
        some [word (x % N), word (y % N), word (mu % N), bytesBE 8 T, word N] := by
    simp [encoding_bytes, encoding_uint64 hT]
  have hdata := packed_eq hpacks hencodings
  simp only [List.flatten_cons, List.flatten_nil, List.append_nil] at hdata
  unfold Vdf.pietrzakChallenge
  rw [Vdf.packedWidth_word hword, Vdf.rem_natCast x hN, Vdf.rem_natCast y hN, Vdf.rem_natCast mu hN]
  simp only [bind, Except.bind, Vdf.toBytesBEPadded_natCast (hlt x), Vdf.toBytesBEPadded_natCast (hlt y),
    Vdf.toBytesBEPadded_natCast (hlt mu), Vdf.toBytesBEPadded_natCast hword, hdata, Vdf.bytesToBigInt_eq,
    Nat.and_two_pow_sub_one_eq_mod, List.append_assoc]
  rfl

/-! ## Wesolowski -/

/-- Group elements and the delay as the contract takes them. -/
structure WesolowskiInput (x y pi N T : ℕ) : Prop where
  modulus : 3 ≤ N ∧ N < 2 ^ 256
  delay : 1 ≤ T ∧ T < 2 ^ 64
  nonzero : x ≠ 0 ∧ y ≠ 0 ∧ pi ≠ 0
  reduced : x < N ∧ y < N ∧ pi < N

theorem check_eq (hmodexp : chain.ModexpCorrect) {x y pi N T l : ℕ} (h : WesolowskiInput x y pi N T)
    (hl : 3 ≤ l) (hword : l < 2 ^ 256) : VDFVerifier.check chain x y pi N T l =
      .ok (decide (pi ^ l % N * (x ^ (2 ^ T % l) % N) % N = y)) := by
  obtain ⟨⟨hN, hNword⟩, ⟨_, hT⟩, _, hx, _, hpi⟩ := h
  have hr : 2 ^ T % l < 2 ^ 256 := (Nat.mod_lt _ (by omega)).trans hword
  have htwo : VDFVerifier.modExp chain 2 T l = .ok (2 ^ T % l) :=
    VDFVerifier.modExp_eq hmodexp (by norm_num) (hT.trans (by norm_num)) hword (by omega)
  have hleft := VDFVerifier.modExp_eq hmodexp (hpi.trans hNword) hword hNword (by omega)
  have hright := VDFVerifier.modExp_eq hmodexp (hx.trans hNword) hr hNword (by omega)
  simp only [VDFVerifier.check, bind, Except.bind, htwo, hleft, hright, VDFVerifier.mulmod, pure,
    Except.pure, beq_eq_decide]

theorem verifyWesolowskiView_iff (hmodexp : chain.ModexpCorrect) {x y pi N T l : ℕ}
    (h : WesolowskiInput x y pi N T) : VDFVerifier.verifyWesolowskiView chain x y pi N T l = .ok true ↔
      VDFVerifier.fiatShamir chain x y T N = l ∧ pi ^ l % N * (x ^ (2 ^ T % l) % N) % N = y := by
  unfold VDFVerifier.verifyWesolowskiView
  by_cases hl : VDFVerifier.fiatShamir chain x y T N = l
  · have hge : 3 ≤ l := by
      rw [← hl]
      exact VDFVerifier.oddChallenge_ge _ _
    have hodd : l % 2 = 1 := by
      rw [← hl]
      exact VDFVerifier.oddChallenge_odd _ _
    have hword : l < 2 ^ 256 := by
      rw [← hl]
      exact VDFVerifier.oddChallenge_lt _
    have hinputs : VDFVerifier.inputsOk x y pi N T l = true := by
      have hT : T ≠ 0 := by have := h.delay; omega
      exact (VDFVerifier.inputsOk_iff ..).mpr ⟨h.modulus.1, hT, h.nonzero, h.reduced, hge, hodd⟩
    rw [if_neg (by rw [hinputs]; decide), if_neg (not_not.mpr hl), check_eq hmodexp h hge hword]
    simp [hl]
  · rw [if_pos hl]
    simp only [hl, false_and, iff_false]
    split
    · rintro ⟨⟩
    · rintro ⟨⟩

theorem wesolowski_agree (hlib : DelayLibraries chain rt) {x y pi N T : ℕ} (h : WesolowskiInput x y pi N T)
    (l : ℕ) : VDFVerifier.verifyWesolowskiView chain x y pi N T l = .ok true ↔
      Vdf.verifyWesolowski rt x T N ⟨y, pi, l, ((2 ^ T % l : ℕ) : ℤ)⟩ 128 = .ok true := by
  obtain ⟨⟨hN, hNword⟩, ⟨hTpos, hT⟩, _, hx, hy, hpi⟩ := id h
  have hne : N ≠ 0 := by omega
  have hchallenge : Vdf.fiatShamirChallenge rt ((x % N : ℕ) : ℤ) y T N 128 =
      .ok ((VDFVerifier.fiatShamir chain x y T N : ℕ) : ℤ) := by
    rw [fiatShamirChallenge_eq hlib.packs _ _ hne hNword hT, Nat.mod_mod, Nat.mod_eq_of_lt hx,
      Nat.mod_eq_of_lt hy, hlib.keccak256]
    rfl
  rw [verifyWesolowskiView_iff hlib.modexp h]
  by_cases hl : VDFVerifier.fiatShamir chain x y T N = l
  · have hge : 3 ≤ l := by
      rw [← hl]
      exact VDFVerifier.oddChallenge_ge _ _
    rw [hl] at hchallenge
    rw [Vdf.verifyWesolowski_of_challenge (by omega) (by omega) (by omega) hchallenge]
    simp [hl, Nat.mod_eq_of_lt hx, Nat.mod_eq_of_lt hy]
  · have hother : (l : ℤ) ≠ ((VDFVerifier.fiatShamir chain x y T N : ℕ) : ℤ) := by
      exact_mod_cast Ne.symm hl
    rw [Vdf.verifyWesolowski_of_ne hne (by omega) (Vdf.rem_natCast x hne) hchallenge hother]
    simp [hl]

/-! ## Halving -/

def halve (keccak256 : Bytes → Bytes32) (N : ℕ) (statement : ℕ × ℕ × ℕ) (mu : ℕ) : ℕ × ℕ × ℕ :=
  let (x, y, T) := statement
  let r := roundChallenge (keccak256 (word x ++ word y ++ word mu ++ bytesBE 8 T ++ word N))
  (x ^ r % N * mu % N, mu ^ r % N * y % N, T / 2)

def NonzeroRounds (keccak256 : Bytes → Bytes32) (N : ℕ) : List ℕ → ℕ × ℕ × ℕ → Prop
  | [], _ => True
  | mu :: mus, (x, y, T) => x ≠ 0 ∧ y ≠ 0 ∧ NonzeroRounds keccak256 N mus (halve keccak256 N (x, y, T) mu)

/-- All rounds of the contract return, and the last statement is a squaring. -/
def RoundsAccepted (chain : VDFVerifier.Chain) (N : ℕ) (mus : List ℕ) (statement : ℕ × ℕ × ℕ) : Prop :=
  ∃ x y T, VDFVerifier.verifyPietrzakRounds chain N mus statement = .ok (x, y, T) ∧ x * x % N = y % N

theorem two_pow_and (k : ℕ) : 2 ^ k &&& (2 ^ k - 1) = 0 := by
  rw [Nat.and_two_pow_sub_one_eq_mod, Nat.mod_self]

theorem verifyPietrzakRound_eq (hmodexp : chain.ModexpCorrect) {x y mu N k : ℕ}
    (hN : 3 ≤ N ∧ N < 2 ^ 256) (hnonzero : x ≠ 0 ∧ y ≠ 0 ∧ mu ≠ 0) (hreduced : x < N ∧ y < N ∧ mu < N) :
    VDFVerifier.verifyPietrzakRound chain x y mu N (2 ^ (k + 1)) =
      .ok (halve chain.keccak256 N (x, y, 2 ^ (k + 1)) mu) := by
  have hT : ¬ (2 ^ (k + 1) < 2 ∨ 2 ^ (k + 1) &&& (2 ^ (k + 1) - 1) ≠ 0) := by
    have hpos : 0 < 2 ^ k := Nat.two_pow_pos k
    rw [two_pow_and, pow_succ]
    omega
  have hr := VDFVerifier.roundChallenge_lt
    (chain.keccak256 (word x ++ word y ++ word mu ++ bytesBE 8 (2 ^ (k + 1)) ++ word N))
  have hleft := VDFVerifier.modExp_eq hmodexp (hreduced.1.trans hN.2) hr hN.2 (by omega)
  have hright := VDFVerifier.modExp_eq hmodexp (hreduced.2.2.trans hN.2) hr hN.2 (by omega)
  simp only [VDFVerifier.verifyPietrzakRound, bind_ok, revertIf_ok, exists_const, pure_ok]
  refine ⟨by omega, hT, by omega, _, hleft, _, hright, ?_⟩
  rw [Nat.shiftRight_eq_div_pow, pow_one]
  rfl

theorem halve_delay (keccak256 : Bytes → Bytes32) (N mu : ℕ) {statement : ℕ × ℕ × ℕ} {k : ℕ}
    (h : statement.2.2 = 2 ^ (k + 1)) : (halve keccak256 N statement mu).2.2 = 2 ^ k := by
  rw [halve, h, pow_succ]
  exact Nat.mul_div_cancel _ (by decide)

theorem halve_pow (keccak256 : Bytes → Bytes32) {N x y mu k : ℕ} (hN : 0 < N) :
    ∃ x' y', halve keccak256 N (x, y, 2 ^ (k + 1)) mu = (x', y', 2 ^ k) ∧ x' < N ∧ y' < N :=
  ⟨_, _, Prod.ext rfl (Prod.ext rfl (halve_delay keccak256 N mu rfl)), Nat.mod_lt _ hN, Nat.mod_lt _ hN⟩

theorem verifyPietrzakRound_reverts {x y mu N T : ℕ}
    (h : x = 0 ∨ y = 0 ∨ mu = 0 ∨ N ≤ x ∨ N ≤ y ∨ N ≤ mu) (state : ℕ × ℕ × ℕ) :
    VDFVerifier.verifyPietrzakRound chain x y mu N T ≠ .ok state := by
  intro hround
  simp only [VDFVerifier.verifyPietrzakRound, bind_ok, revertIf_ok, exists_const] at hround
  exact hround.2.2.1 h

/-- The midpoints are nonzero group elements. -/
def Midpoints (N : ℕ) (mus : List ℕ) : Prop := ∀ mu ∈ mus, mu ≠ 0 ∧ mu < N

theorem verifyPietrzakRounds_eq (hmodexp : chain.ModexpCorrect) {N : ℕ} (hN : 3 ≤ N ∧ N < 2 ^ 256)
    {mus : List ℕ} (hmus : Midpoints N mus) : ∀ {x y : ℕ}, x < N → y < N →
      NonzeroRounds chain.keccak256 N mus (x, y, 2 ^ mus.length) →
      VDFVerifier.verifyPietrzakRounds chain N mus (x, y, 2 ^ mus.length) =
        .ok (mus.foldl (halve chain.keccak256 N) (x, y, 2 ^ mus.length)) := by
  induction mus with
  | nil =>
    intro x y _ _ _
    rfl
  | cons mu mus ih =>
    intro x y hx hy hnonzero
    obtain ⟨hx0, hy0, hrest⟩ := hnonzero
    obtain ⟨hmu0, hmu⟩ := hmus mu (List.mem_cons_self ..)
    rw [List.length_cons] at hrest
    have hround := verifyPietrzakRound_eq hmodexp (k := mus.length) hN ⟨hx0, hy0, hmu0⟩ ⟨hx, hy, hmu⟩
    obtain ⟨x', y', hhalf, hx', hy'⟩ :=
      halve_pow chain.keccak256 (x := x) (y := y) (k := mus.length) (N := N) (by omega)
    rw [hhalf] at hround hrest
    rw [List.length_cons, List.foldl_cons, hhalf, VDFVerifier.verifyPietrzakRounds, hround]
    exact ih (fun m hm => hmus m (List.mem_cons_of_mem _ hm)) hx' hy' hrest

theorem verifyPietrzakRounds_reverts {N : ℕ} {mus : List ℕ} (hmus : ¬ Midpoints N mus) :
    ∀ statement state, VDFVerifier.verifyPietrzakRounds chain N mus statement ≠ .ok state := by
  induction mus with
  | nil => exact absurd (fun mu hmu => absurd hmu List.not_mem_nil) hmus
  | cons mu mus ih =>
    rintro ⟨x, y, T⟩ state hrounds
    rw [VDFVerifier.verifyPietrzakRounds, bind_ok] at hrounds
    obtain ⟨mid, hround, hrounds⟩ := hrounds
    by_cases hmu : mu ≠ 0 ∧ mu < N
    · refine ih (fun hrest => hmus ?_) mid state hrounds
      intro m hm
      rcases List.mem_cons.mp hm with rfl | hm
      · exact hmu
      · exact hrest m hm
    · exact verifyPietrzakRound_reverts (by omega) mid hround

/-! ## Halving in 32 bits -/

theorem shiftRight_eq {T : ℤ} (hlow : -2 ^ 31 ≤ T) (hhigh : T < 2 ^ 31) : shiftRight T 1 = T / 2 := by
  rw [shiftRight, BitVec.toInt_sshiftRight, BitVec.toInt_ofInt, Int.bmod_eq_of_le (by omega) (by omega),
    Int.shiftRight_eq_div_pow]
  rfl

theorem bitAnd_two_pow (k : ℕ) : bitAnd (2 ^ k) (2 ^ k - 1) = 0 := by
  have hpow : (2 : ℤ) ^ k = ((2 ^ k : ℕ) : ℤ) := by push_cast; rfl
  have hpred : (2 : ℤ) ^ k - 1 = ((2 ^ k - 1 : ℕ) : ℤ) := by
    have hpos := Nat.two_pow_pos k
    rw [hpow, Nat.cast_sub hpos]
    rfl
  rw [bitAnd, hpred, hpow, BitVec.ofInt_natCast, BitVec.ofInt_natCast, ← BitVec.ofNat_and, two_pow_and]
  rfl

/-- A statement of naturals as the engine holds it. -/
def bigints (statement : ℕ × ℕ × ℕ) : ℤ × ℤ × ℤ := (statement.1, statement.2.1, statement.2.2)

theorem pietrzakRound_eq (hpacks : rt.PacksTightly) {x y mu N k : ℕ} (hN : 3 ≤ N ∧ N < 2 ^ 256)
    (hreduced : x < N ∧ y < N) (hmu : mu ≠ 0 ∧ mu < N) (hk : k < 30) :
    Vdf.pietrzakRound rt N mu (bigints (x, y, 2 ^ (k + 1))) =
      .ok (some (bigints (halve rt.keccak256 N (x, y, 2 ^ (k + 1)) mu))) := by
  have hne : N ≠ 0 := by omega
  have hT : (2 : ℕ) ^ (k + 1) < 2 ^ 31 := Nat.pow_lt_pow_right (by decide) (by omega)
  have hhalf : shiftRight ((2 ^ (k + 1) : ℕ) : ℤ) 1 = ((2 ^ (k + 1) / 2 : ℕ) : ℤ) := by
    have hlow : (-2 ^ 31 : ℤ) ≤ 0 := by norm_num
    rw [shiftRight_eq (hlow.trans (Int.natCast_nonneg _)) (by exact_mod_cast hT)]
    rfl
  have hchallenge := pietrzakChallenge_eq hpacks x y mu hne hN.2 (hT.trans (by norm_num))
  rw [Nat.mod_eq_of_lt hreduced.1, Nat.mod_eq_of_lt hreduced.2, Nat.mod_eq_of_lt hmu.2] at hchallenge
  have hrange : ¬ ((mu : ℤ) ≤ 0 ∨ (N : ℤ) ≤ mu) := by omega
  rw [bigints, Vdf.pietrzakRound, if_neg hrange, hhalf, hchallenge]
  simp only [bind, Except.bind, Int.ofNat_eq_natCast, Vdf.modPow_natCast _ _ (show N ≠ 0 by omega),
    ← Int.natCast_mul, Vdf.rem_natCast _ hne]
  rfl

theorem pietrzakRounds_eq (hpacks : rt.PacksTightly) {N : ℕ} (hN : 3 ≤ N ∧ N < 2 ^ 256) {mus : List ℕ}
    (hmus : Midpoints N mus) : ∀ {x y : ℕ}, x < N → y < N → mus.length < 31 →
      Vdf.pietrzakRounds rt N (mus.map Nat.cast) (bigints (x, y, 2 ^ mus.length)) =
        .ok (some (bigints (mus.foldl (halve rt.keccak256 N) (x, y, 2 ^ mus.length)))) := by
  induction mus with
  | nil =>
    intro x y _ _ _
    rfl
  | cons mu mus ih =>
    intro x y hx hy hlength
    rw [List.length_cons] at hlength
    have hround := pietrzakRound_eq hpacks hN ⟨hx, hy⟩ (hmus mu (List.mem_cons_self ..))
      (k := mus.length) (by omega)
    obtain ⟨x', y', hhalf, hx', hy'⟩ :=
      halve_pow rt.keccak256 (x := x) (y := y) (k := mus.length) (N := N) (by omega)
    rw [hhalf] at hround
    rw [List.length_cons, List.foldl_cons, hhalf, List.map_cons, Vdf.pietrzakRounds, hround]
    exact ih (fun m hm => hmus m (List.mem_cons_of_mem _ hm)) hx' hy' (by omega)

theorem pietrzakRounds_refuses {N : ℕ} {mus : List ℕ} (hmus : ¬ Midpoints N mus) :
    ∀ statement state, Vdf.pietrzakRounds rt N (mus.map Nat.cast) statement ≠ .ok (some state) := by
  induction mus with
  | nil => exact absurd (fun mu hmu => absurd hmu List.not_mem_nil) hmus
  | cons mu mus ih =>
    rintro ⟨x, y, T⟩ state hrounds
    rw [List.map_cons, Vdf.pietrzakRounds, bind_ok] at hrounds
    obtain ⟨mid, hround, hrounds⟩ := hrounds
    by_cases hmu : mu ≠ 0 ∧ mu < N
    · cases mid with
      | none => cases hrounds
      | some mid =>
        refine ih (fun hrest => hmus ?_) mid state hrounds
        intro m hm
        rcases List.mem_cons.mp hm with rfl | hm
        · exact hmu
        · exact hrest m hm
    · have hrange : (mu : ℤ) ≤ 0 ∨ (N : ℤ) ≤ mu := by omega
      rw [Vdf.pietrzakRound, if_pos hrange] at hround
      obtain rfl := (pure_ok _ _).mp hround
      cases hrounds

theorem foldl_halve_delay (keccak256 : Bytes → Bytes32) (N : ℕ) (mus : List ℕ) :
    ∀ statement : ℕ × ℕ × ℕ, statement.2.2 = 2 ^ mus.length →
      (mus.foldl (halve keccak256 N) statement).2.2 = 1 := by
  induction mus with
  | nil => exact fun _ h => h
  | cons mu mus ih => exact fun statement h => ih _ (halve_delay keccak256 N mu h)

theorem foldl_halve_lt (keccak256 : Bytes → Bytes32) {N : ℕ} (hN : 0 < N) (mus : List ℕ) :
    ∀ statement : ℕ × ℕ × ℕ, statement.2.1 < N → (mus.foldl (halve keccak256 N) statement).2.1 < N := by
  induction mus with
  | nil => exact fun _ h => h
  | cons mu mus ih => exact fun statement _ => ih _ (Nat.mod_lt _ hN)

theorem pietrzakRound_delay {N mu x y T : ℤ} {state : ℤ × ℤ × ℤ}
    (h : Vdf.pietrzakRound rt N mu (x, y, T) = .ok (some state)) : state.2.2 = shiftRight T 1 := by
  unfold Vdf.pietrzakRound at h
  dsimp only at h
  split at h
  · cases h
  · simp only [bind_ok, pure_ok, Option.some.injEq] at h
    obtain ⟨_, _, _, _, _, _, _, _, _, _, rfl⟩ := h
    rfl

/-- From a delay that is not positive the engine never comes to 1. -/
theorem pietrzakRounds_nonpos {N : ℤ} {mus : List ℤ} : ∀ {statement state : ℤ × ℤ × ℤ},
    -2 ^ 31 ≤ statement.2.2 → statement.2.2 ≤ 0 →
      Vdf.pietrzakRounds rt N mus statement = .ok (some state) → state.2.2 ≤ 0 := by
  induction mus with
  | nil =>
    intro statement state _ hT h
    obtain rfl := Option.some.inj ((pure_ok _ _).mp h)
    exact hT
  | cons mu mus ih =>
    rintro ⟨x, y, T⟩ state hlow hT h
    dsimp only at hlow hT
    rw [Vdf.pietrzakRounds, bind_ok] at h
    obtain ⟨mid, hround, hrounds⟩ := h
    cases mid with
    | none => cases hrounds
    | some mid =>
      have hhalf : mid.2.2 = T / 2 := by rw [pietrzakRound_delay hround, shiftRight_eq hlow (by omega)]
      exact ih (by omega) (by omega) hrounds

/-- The first halving of a delay from 2^31 on leaves nothing positive of it. -/
theorem shiftRight_large {k : ℕ} (hk : 31 ≤ k) :
    -2 ^ 31 ≤ shiftRight (2 ^ k) 1 ∧ shiftRight (2 ^ k) 1 ≤ 0 := by
  have hsigned : (BitVec.ofInt 32 (2 ^ k)).toInt = -2 ^ 31 ∨ (BitVec.ofInt 32 (2 ^ k)).toInt = 0 := by
    obtain rfl | hk := Nat.eq_or_lt_of_le hk
    · exact .inl (by decide)
    · refine .inr ?_
      have hsplit : (2 : ℤ) ^ k = 2 ^ 32 * 2 ^ (k - 32) := by rw [← pow_add, Nat.add_sub_cancel' hk]
      rw [BitVec.toInt_ofInt, hsplit]
      exact Int.mul_bmod_right _ _
  rw [shiftRight, BitVec.toInt_sshiftRight, Int.shiftRight_eq_div_pow]
  rcases hsigned with hsigned | hsigned
  · rw [hsigned]
    norm_num
  · rw [hsigned]
    norm_num

theorem verifyPietrzak_ok {x T N : ℤ} {proof : Vdf.PietrzakProof} :
    Vdf.verifyPietrzak rt x T N proof = .ok true ↔ 0 < N ∧ ¬ (T < 2 ∨ bitAnd T (T - 1) ≠ 0) ∧
      (proof.mus.length : ℚ) = rt.log2 T ∧ ∃ curX curY state, Vdf.rem x N = .ok curX ∧
        Vdf.rem proof.y N = .ok curY ∧ Vdf.pietrzakRounds rt N proof.mus (curX, curY, T) = .ok (some state) ∧
        state.2.2 = 1 ∧ Vdf.rem (state.1 * state.1) N = .ok state.2.1 := by
  unfold Vdf.verifyPietrzak Vdf.assertPositiveBigInt
  rw [revertIf_bind, not_le]
  refine and_congr_right fun hN => ?_
  split
  · next h =>
    constructor
    · intro hfalse
      cases hfalse
    · rintro ⟨hnot, _⟩
      exact absurd h hnot
  next hT =>
  rw [and_iff_right hT]
  split
  · next h => simp [h]
  next hlength =>
  rw [and_iff_right (not_not.mp hlength)]
  simp only [bind_ok]
  refine exists_congr fun curX => ?_
  constructor
  · rintro ⟨hx, curY, hy, state, hrounds, h⟩
    cases state with
    | none => cases h
    | some state =>
      obtain ⟨x', y', T'⟩ := state
      simp only [bind_ok, pure_ok, Bool.and_eq_true, beq_iff_eq] at h
      obtain ⟨_, hsquare, hone, rfl⟩ := h
      exact ⟨curY, (x', _, T'), hx, hy, hrounds, hone, hsquare⟩
  · rintro ⟨curY, ⟨x', y', T'⟩, hx, hy, hrounds, hone, hsquare⟩
    refine ⟨hx, curY, hy, some (x', y', T'), hrounds, ?_⟩
    simp only [bind_ok, pure_ok, Bool.and_eq_true, beq_iff_eq]
    exact ⟨y', hsquare, hone, rfl⟩

theorem verifyPietrzak_large {k : ℕ} (hk : 31 ≤ k) (x N : ℤ) (proof : Vdf.PietrzakProof)
    (hlength : proof.mus.length = k) : Vdf.verifyPietrzak rt x (2 ^ k) N proof ≠ .ok true := by
  intro h
  obtain ⟨_, _, _, curX, curY, state, _, _, hrounds, hone, _⟩ := verifyPietrzak_ok.mp h
  cases hmus : proof.mus with
  | nil =>
    rw [hmus, List.length_nil] at hlength
    omega
  | cons mu mus =>
    rw [hmus, Vdf.pietrzakRounds, bind_ok] at hrounds
    obtain ⟨mid, hround, hrounds⟩ := hrounds
    cases mid with
    | none => cases hrounds
    | some mid =>
      obtain ⟨hlow, hhigh⟩ := shiftRight_large hk
      rw [← pietrzakRound_delay hround] at hlow hhigh
      have hle := pietrzakRounds_nonpos hlow hhigh hrounds
      omega

def Squared (N : ℕ) (statement : ℕ × ℕ × ℕ) : Prop := statement.1 * statement.1 % N = statement.2.1 % N

theorem verifyPietrzak_iff (hlib : DelayLibraries chain rt) {N : ℕ} (hN : 3 ≤ N ∧ N < 2 ^ 256)
    (mus : List ℕ) (hlength : 1 ≤ mus.length ∧ mus.length < 31) (x y : ℕ) :
    Vdf.verifyPietrzak rt x (2 ^ mus.length) N ⟨y, mus.map Nat.cast⟩ = .ok true ↔ Midpoints N mus ∧
      Squared N (mus.foldl (halve chain.keccak256 N) (x % N, y % N, 2 ^ mus.length)) := by
  have hne : N ≠ 0 := by omega
  have hlt : ∀ a, a % N < N := fun a => Nat.mod_lt a (by omega)
  have hpow : (2 : ℤ) ^ mus.length = ((2 ^ mus.length : ℕ) : ℤ) := by push_cast; rfl
  have htwo : ¬ ((2 : ℤ) ^ mus.length < 2 ∨ bitAnd (2 ^ mus.length) (2 ^ mus.length - 1) ≠ 0) := by
    have hge : (2 : ℕ) ^ 1 ≤ 2 ^ mus.length := Nat.pow_le_pow_right (by decide) hlength.1
    rw [bitAnd_two_pow, hpow]
    omega
  rw [verifyPietrzak_ok, and_iff_right (by omega : (0 : ℤ) < N), and_iff_right htwo, List.length_map,
    hlib.log2, and_iff_right rfl, Vdf.rem_natCast x hne, Vdf.rem_natCast y hne]
  by_cases hmus : Midpoints N mus
  · have hrounds := pietrzakRounds_eq hlib.packs hN hmus (hlt x) (hlt y) hlength.2
    have hone := foldl_halve_delay rt.keccak256 N mus (x % N, y % N, 2 ^ mus.length) rfl
    have hlast := foldl_halve_lt rt.keccak256 (by omega) mus (x % N, y % N, 2 ^ mus.length) (hlt y)
    rw [bigints, ← hpow] at hrounds
    rw [← hlib.keccak256, and_iff_right hmus, Squared]
    generalize mus.foldl (halve rt.keccak256 N) (x % N, y % N, 2 ^ mus.length) = last at *
    rw [Nat.mod_eq_of_lt hlast]
    have hsquare : Vdf.rem ((last.1 : ℤ) * last.1) N = .ok ((last.1 * last.1 % N : ℕ) : ℤ) := by
      rw [← Int.natCast_mul, Vdf.rem_natCast _ hne]
    constructor
    · rintro ⟨curX, curY, state, hx, hy, hstate, _, hlasts⟩
      obtain rfl := Except.ok.inj hx
      obtain rfl := Except.ok.inj hy
      obtain rfl := Option.some.inj (Except.ok.inj (hrounds.symm.trans hstate))
      have hequal : ((last.1 * last.1 % N : ℕ) : ℤ) = last.2.1 := Except.ok.inj (hsquare.symm.trans hlasts)
      exact_mod_cast hequal
    · intro heq
      refine ⟨_, _, bigints last, rfl, rfl, hrounds, ?_, ?_⟩
      · rw [bigints, hone]
        rfl
      · rw [bigints, hsquare, heq]
  · simp only [hmus, false_and, iff_false]
    rintro ⟨curX, curY, state, _, _, hrounds, _⟩
    exact pietrzakRounds_refuses hmus _ _ hrounds

theorem roundsAccepted_iff (hmodexp : chain.ModexpCorrect) {N : ℕ} (hN : 3 ≤ N ∧ N < 2 ^ 256) (mus : List ℕ)
    {x y : ℕ} (hx : x < N) (hy : y < N)
    (hnonzero : NonzeroRounds chain.keccak256 N mus (x, y, 2 ^ mus.length)) :
    RoundsAccepted chain N mus (x, y, 2 ^ mus.length) ↔ Midpoints N mus ∧
      Squared N (mus.foldl (halve chain.keccak256 N) (x, y, 2 ^ mus.length)) := by
  by_cases hmus : Midpoints N mus
  · have hrounds := verifyPietrzakRounds_eq hmodexp hN hmus hx hy hnonzero
    rw [and_iff_right hmus]
    constructor
    · rintro ⟨x', y', T', hlast, hsquared⟩
      rw [Except.ok.inj (hrounds.symm.trans hlast)]
      exact hsquared
    · exact fun hsquared => ⟨_, _, _, hrounds, hsquared⟩
  · simp only [hmus, false_and, iff_false]
    rintro ⟨x', y', T', hlast, _⟩
    exact verifyPietrzakRounds_reverts hmus _ _ hlast

/-! ## Agreement -/

/-- The two verifiers agree on statements below `bound` with a delay of `2 ^ k`. -/
def PietrzakAgree (chain : VDFVerifier.Chain) (rt : Vdf.Runtime) (N k bound : ℕ) : Prop :=
  ∀ x y (mus : List ℕ), x < bound → y < bound → mus.length = k →
    NonzeroRounds chain.keccak256 N mus (x % N, y % N, 2 ^ k) →
    (RoundsAccepted chain N mus (x, y, 2 ^ k) ↔
      Vdf.verifyPietrzak rt x (2 ^ k) N ⟨y, mus.map Nat.cast⟩ = .ok true)

/-- Every round of the trivial statement is the trivial statement. -/
theorem halve_one (keccak256 : Bytes → Bytes32) {N : ℕ} (hN : 3 ≤ N) (T : ℕ) :
    halve keccak256 N (1, 1, T) 1 = (1, 1, T / 2) := by
  have hone : 1 % N = 1 := Nat.mod_eq_of_lt (by omega)
  simp [halve, hone]

theorem foldl_halve_one (keccak256 : Bytes → Bytes32) {N : ℕ} (hN : 3 ≤ N) (k : ℕ) :
    ∀ T, Squared N ((List.replicate k 1).foldl (halve keccak256 N) (1, 1, T)) ∧
      NonzeroRounds keccak256 N (List.replicate k 1) (1, 1, T) := by
  induction k with
  | zero => exact fun T => ⟨rfl, trivial⟩
  | succ k ih =>
    intro T
    obtain ⟨hsquared, hnonzero⟩ := ih (T / 2)
    rw [List.replicate_succ, List.foldl_cons, NonzeroRounds, halve_one keccak256 hN]
    exact ⟨hsquared, one_ne_zero, one_ne_zero, hnonzero⟩

theorem midpoints_one {N : ℕ} (hN : 3 ≤ N) (k : ℕ) : Midpoints N (List.replicate k 1) := by
  intro mu hmu
  rw [List.eq_of_mem_replicate hmu]
  omega

theorem pietrzakAgree_iff (hlib : DelayLibraries chain rt) {N k bound : ℕ} (hN : 3 ≤ N ∧ N < 2 ^ 256)
    (hk : 1 ≤ k) (hbound : 2 ≤ bound) :
    PietrzakAgree chain rt N k bound ↔ 2 ^ k < 2 ^ 31 ∧ bound ≤ N + 1 := by
  have hsmall : 2 ^ k < 2 ^ 31 ↔ k < 31 := Nat.pow_lt_pow_iff_right (by decide)
  have hone : 1 % N = 1 := Nat.mod_eq_of_lt (by omega)
  have hlength : (List.replicate k 1).length = k := List.length_replicate
  obtain ⟨hsquared, hnonzero⟩ := foldl_halve_one chain.keccak256 hN.1 k (2 ^ k)
  rw [hsmall]
  constructor
  · intro hagree
    have hdelay : k < 31 := by
      by_contra hlarge
      have haccepted : RoundsAccepted chain N (List.replicate k 1) (1, 1, 2 ^ k) := by
        have hlt : 1 < N := by omega
        have hiff := roundsAccepted_iff hlib.modexp hN (List.replicate k 1) hlt hlt
        rw [hlength] at hiff
        exact (hiff hnonzero).mpr ⟨midpoints_one hN.1 k, hsquared⟩
      have hengine := (hagree 1 1 (List.replicate k 1) (by omega) (by omega) hlength
        (by rwa [hone])).mp haccepted
      exact verifyPietrzak_large (by omega) _ _ _ (by simp) hengine
    refine ⟨hdelay, ?_⟩
    -- The engine reduces N + 1 to 1 where the contract reverts.
    by_contra hover
    have hreduce : (N + 1) % N = 1 := by rw [Nat.add_mod_left, hone]
    have hengine : Vdf.verifyPietrzak rt ((N + 1 : ℕ) : ℤ) (2 ^ k) N
        ⟨(1 : ℕ), (List.replicate k 1).map Nat.cast⟩ = .ok true := by
      have hiff := verifyPietrzak_iff hlib hN (List.replicate k 1) (by omega) (N + 1) 1
      rw [hlength, hreduce, hone] at hiff
      exact hiff.mpr ⟨midpoints_one hN.1 k, hsquared⟩
    obtain ⟨x', y', T', hlast, _⟩ := (hagree (N + 1) 1 (List.replicate k 1) (by omega) (by omega) hlength
      (by rwa [hreduce, hone])).mpr hengine
    obtain ⟨j, rfl⟩ := Nat.exists_eq_add_of_le' hk
    rw [List.replicate_succ, VDFVerifier.verifyPietrzakRounds, bind_ok] at hlast
    obtain ⟨mid, hround, _⟩ := hlast
    exact verifyPietrzakRound_reverts (by omega) mid hround
  · rintro ⟨hdelay, hle⟩ x y mus hx hy rfl hnonzero
    have hreduced : x < N ∧ y < N := by
      cases mus with
      | nil => cases hk
      | cons mu mus =>
        obtain ⟨hx0, hy0, _⟩ := hnonzero
        have hx0 : x ≠ N := fun h => hx0 (by rw [h, Nat.mod_self])
        have hy0 : y ≠ N := fun h => hy0 (by rw [h, Nat.mod_self])
        omega
    rw [verifyPietrzak_iff hlib hN mus ⟨hk, hdelay⟩]
    rw [Nat.mod_eq_of_lt hreduced.1, Nat.mod_eq_of_lt hreduced.2] at hnonzero ⊢
    exact roundsAccepted_iff hlib.modexp hN mus hreduced.1 hreduced.2 hnonzero

/-- The verifiers accept the same Wesolowski proofs. They agree on the Pietrzak proofs of statements
below a bound exactly when the delay is below 2^31 and the bound admits nothing above the modulus. -/
theorem delay_verifiers_agree_iff (hlib : DelayLibraries chain rt) :
    (∀ x y pi N T l : ℕ, WesolowskiInput x y pi N T →
        (VDFVerifier.verifyWesolowskiView chain x y pi N T l = .ok true ↔
          Vdf.verifyWesolowski rt x T N ⟨y, pi, l, ((2 ^ T % l : ℕ) : ℤ)⟩ 128 = .ok true)) ∧
      ∀ N k bound : ℕ, 3 ≤ N ∧ N < 2 ^ 256 → 1 ≤ k ∧ k < 53 → 2 ≤ bound →
        (PietrzakAgree chain rt N k bound ↔ 2 ^ k < 2 ^ 31 ∧ bound ≤ N + 1) :=
  ⟨fun _ _ _ _ _ l h => wesolowski_agree hlib h l,
    fun _ _ _ hN hk hbound => pietrzakAgree_iff hlib hN hk.1 hbound⟩

theorem localLibraries : DelayLibraries VDFVerifier.localChain Vdf.localRuntime where
  keccak256 := rfl
  modexp := VDFVerifier.localChain_correct
  packs := fun _ => rfl
  log2 := by
    intro k
    have hpow : ((2 : ℤ) ^ k).toNat = 2 ^ k := by
      rw [← Nat.cast_ofNat, ← Nat.cast_pow, Int.toNat_natCast]
    have hlog : Vdf.localRuntime.log2 (2 ^ k) = ((2 : ℤ) ^ k).toNat.log2 := rfl
    rw [hlog, hpow, Nat.log2_two_pow]

/-- Four squarings of 2 modulo 15. -/
theorem delay_verifiers_agree_four : RoundsAccepted VDFVerifier.localChain 15 [1, 4] (2, 1, 2 ^ 2) ∧
    Vdf.verifyPietrzak Vdf.localRuntime (2 : ℕ) (2 ^ 2) (15 : ℕ) ⟨(1 : ℕ), [1, 4]⟩ = .ok true := by
  have haccepted : RoundsAccepted VDFVerifier.localChain 15 [1, 4] (2, 1, 2 ^ 2) :=
    ⟨8, 4, 1, by decide +kernel, by decide⟩
  have hagree := ((delay_verifiers_agree_iff localLibraries).2 15 2 15 (by norm_num) (by norm_num)
    (by norm_num)).mpr (by norm_num)
  refine ⟨haccepted, (hagree 2 1 [1, 4] (by norm_num) (by norm_num) rfl ?_).mp haccepted⟩
  exact ⟨by decide, by decide, by decide +kernel, by decide +kernel, trivial⟩

/-- The trivial statement with a delay of 2^31: its rounds are accepted on the chain and not off it. -/
theorem pietrzak_disagree_large :
    NonzeroRounds VDFVerifier.localChain.keccak256 15 (List.replicate 31 1) (1, 1, 2 ^ 31) ∧
      RoundsAccepted VDFVerifier.localChain 15 (List.replicate 31 1) (1, 1, 2 ^ 31) ∧
      Vdf.verifyPietrzak Vdf.localRuntime 1 (2 ^ 31) 15 ⟨1, List.replicate 31 1⟩ ≠ .ok true := by
  obtain ⟨hsquared, hnonzero⟩ := foldl_halve_one VDFVerifier.localChain.keccak256 (N := 15) (by norm_num) 31
    (2 ^ 31)
  refine ⟨hnonzero, ?_, verifyPietrzak_large (by norm_num) _ _ _ (by simp)⟩
  have hiff := roundsAccepted_iff VDFVerifier.localChain_correct (N := 15) (by norm_num)
    (List.replicate 31 1) (x := 1) (y := 1) (by norm_num) (by norm_num)
  rw [List.length_replicate] at hiff
  exact (hiff hnonzero).mpr ⟨midpoints_one (by norm_num) 31, hsquared⟩

end ChainGuard.Link
