import ChainGuard.Link.DelayProofs
import ChainGuard.OffChain.Timelock

/-! Wrong outputs of the delay function. Every challenge is odd, so that the negative of an honest proof
proves the negative of the output. -/
namespace ChainGuard.Link
open Guarded Evm OffChain
set_option autoImplicit false

variable {chain : VDFVerifier.Chain} {rt : Vdf.Runtime} {x y pi N T l challengeBits : ℕ}

/-! ## Challenges for any modulus -/

theorem toBytesBEPadded_ok (n width : ℕ) : ∃ data, Vdf.toBytesBEPadded n width = .ok data := by
  obtain ⟨raw, hraw, _⟩ := Vdf.toBytesBE_natCast n
  rw [Vdf.toBytesBEPadded, hraw]
  simp only [bind, Except.bind]
  split
  · exact ⟨_, rfl⟩
  · split
    · exact ⟨_, rfl⟩
    · exact ⟨_, rfl⟩

theorem fiatShamirChallenge_odd (hpacks : rt.PacksTightly) (x y : ℕ) (hN : N ≠ 0) (hT : T < 2 ^ 64)
    (challengeBits : ℕ) : ∃ l : ℕ, Vdf.fiatShamirChallenge rt x y T N challengeBits = .ok (l : ℤ) ∧
      3 ≤ l ∧ l % 2 = 1 := by
  obtain ⟨xBytes, hx⟩ := toBytesBEPadded_ok (x % N) (Vdf.packedWidth N)
  obtain ⟨yBytes, hy⟩ := toBytesBEPadded_ok (y % N) (Vdf.packedWidth N)
  obtain ⟨NBytes, hNBytes⟩ := toBytesBEPadded_ok N (Vdf.packedWidth N)
  have hencodings : [Vdf.PackedValue.bytes xBytes, .bytes yBytes, .uint64 T, .bytes NBytes].mapM
      Vdf.PackedValue.encoding = some [xBytes, yBytes, bytesBE 8 T, NBytes] := by
    simp [encoding_bytes, encoding_uint64 hT]
  have hdata := packed_eq hpacks hencodings
  unfold Vdf.fiatShamirChallenge
  rw [Vdf.rem_natCast x hN, Vdf.rem_natCast y hN]
  simp only [bind, Except.bind, hx, hy, hNBytes, hdata, Vdf.bytesToBigInt_eq, Nat.and_two_pow_sub_one_eq_mod,
    Nat.and_one_is_mod]
  exact ⟨_, rfl, VDFVerifier.oddChallenge_ge _ _, VDFVerifier.oddChallenge_odd _ _⟩

theorem fiatShamirChallenge_throws (hpacks : rt.PacksTightly) {x y N : ℤ} (hT : 2 ^ 64 ≤ T) (l : ℤ) :
    Vdf.fiatShamirChallenge rt x y T N challengeBits ≠ .ok l := by
  have hout : ¬ ((0 : ℤ) ≤ T ∧ (T : ℤ) < 2 ^ 64) := by
    rintro ⟨_, hlt⟩
    exact absurd (by exact_mod_cast hlt) (not_lt.mpr hT)
  have hlarge : (Vdf.PackedValue.uint64 T).encoding = none := by
    rw [Vdf.PackedValue.encoding, if_neg hout]
  intro h
  simp only [Vdf.fiatShamirChallenge, bind_ok] at h
  obtain ⟨_, _, xBytes, _, _, _, yBytes, _, NBytes, _, data, hdata, _⟩ := h
  rw [Vdf.packed, hpacks] at hdata
  simp [encoding_bytes, hlarge] at hdata

theorem fiatShamirChallenge_reduced (hN : N ≠ 0) (x : ℕ) (y T : ℤ) (challengeBits : ℕ) :
    Vdf.fiatShamirChallenge rt ((x % N : ℕ) : ℤ) y T N challengeBits =
      Vdf.fiatShamirChallenge rt x y T N challengeBits := by
  unfold Vdf.fiatShamirChallenge
  rw [Vdf.rem_natCast _ hN, Vdf.rem_natCast _ hN, Nat.mod_mod]

/-! ## The equation -/

theorem equation_iff_zmod : pi ^ l % N * ((x % N) ^ (2 ^ T % l) % N) % N = y % N ↔
    (pi : ZMod N) ^ l * (x : ZMod N) ^ (2 ^ T % l) = y := by
  have hcast : ((pi ^ l % N * ((x % N) ^ (2 ^ T % l) % N) : ℕ) : ZMod N) =
      (pi : ZMod N) ^ l * (x : ZMod N) ^ (2 ^ T % l) := by
    push_cast [ZMod.natCast_mod]
    rfl
  rw [← hcast]
  exact (ZMod.natCast_eq_natCast_iff' _ _ _).symm

def vdfOutput (x T N : ℕ) : ℕ := x ^ 2 ^ T % N
def honestProof (x T N l : ℕ) : ℕ := x ^ (2 ^ T / l) % N

theorem honest_equation : ((honestProof x T N l : ℕ) : ZMod N) ^ l * (x : ZMod N) ^ (2 ^ T % l) =
    (vdfOutput x T N : ℕ) := by
  rw [honestProof, vdfOutput, ZMod.natCast_mod, ZMod.natCast_mod, Nat.cast_pow, Nat.cast_pow, ← pow_mul,
    ← pow_add, Nat.mul_comm, Nat.div_add_mod]

theorem cast_sub_mod (a : ℕ) (hN : N ≠ 0) : ((N - a % N : ℕ) : ZMod N) = -(a : ZMod N) := by
  have hlt := Nat.mod_lt a (Nat.pos_of_ne_zero hN)
  rw [Nat.cast_sub hlt.le, ZMod.natCast_self, ZMod.natCast_mod, zero_sub]

theorem negated_equation (hN : N ≠ 0) (hl : l % 2 = 1) :
    ((N - honestProof x T N l : ℕ) : ZMod N) ^ l * (x : ZMod N) ^ (2 ^ T % l) =
      ((N - vdfOutput x T N : ℕ) : ZMod N) := by
  have hodd : Odd l := Nat.odd_iff.mpr hl
  have hhonest := honest_equation (x := x) (T := T) (N := N) (l := l)
  rw [honestProof, vdfOutput, ZMod.natCast_mod, ZMod.natCast_mod] at hhonest
  rw [honestProof, vdfOutput, cast_sub_mod _ hN, cast_sub_mod _ hN, hodd.neg_pow, neg_mul, hhonest]

theorem honest_ne_negated (hN : 3 ≤ N) (hodd : N % 2 = 1) (hx : x.Coprime N) :
    ((vdfOutput x T N : ℕ) : ZMod N) ≠ ((N - vdfOutput x T N : ℕ) : ZMod N) := by
  rw [vdfOutput, cast_sub_mod _ (by omega), ZMod.natCast_mod]
  intro h
  have hdouble : ((2 * x ^ 2 ^ T : ℕ) : ZMod N) = 0 := by
    have hsum := add_eq_zero_iff_eq_neg.mpr h
    rw [Nat.cast_mul, Nat.cast_ofNat, two_mul]
    exact hsum
  have hdvd : N ∣ 2 * x ^ 2 ^ T := (ZMod.natCast_eq_zero_iff _ _).mp hdouble
  have htwo : N.Coprime 2 := (Nat.coprime_two_left.mpr (Nat.odd_iff.mpr hodd)).symm
  have hpow : N.Coprime (x ^ 2 ^ T) := (Nat.Coprime.pow_left _ hx).symm
  have hone : N = 1 := Nat.Coprime.eq_one_of_dvd (htwo.mul_right hpow) hdvd
  omega

/-! ## Negated outputs -/

/-- The proofs that are assembled for a challenge: the honest one and its negative. -/
def Assembled (x T N l pi : ℕ) : Prop := pi = honestProof x T N l ∨ pi = N - honestProof x T N l

def EngineRejects (rt : Vdf.Runtime) (x T N challengeBits : ℕ) : Prop :=
  ∀ l pi : ℕ, Vdf.fiatShamirChallenge rt x ((N - vdfOutput x T N : ℕ) : ℤ) T N challengeBits = .ok (l : ℤ) →
    Assembled x T N l pi → Vdf.verifyWesolowski rt x T N
      ⟨((N - vdfOutput x T N : ℕ) : ℤ), pi, l, ((2 ^ T % l : ℕ) : ℤ)⟩ challengeBits ≠ .ok true

def ContractRejects (chain : VDFVerifier.Chain) (x T N : ℕ) : Prop :=
  ∀ pi, Assembled x T N (VDFVerifier.fiatShamir chain x (N - vdfOutput x T N) T N) pi →
    VDFVerifier.verifyWesolowskiView chain x (N - vdfOutput x T N) pi N T
      (VDFVerifier.fiatShamir chain x (N - vdfOutput x T N) T N) ≠ .ok true

theorem engine_negated (hN : 3 ≤ N) (hodd : N % 2 = 1) (hx : x.Coprime N) (hT : 1 ≤ T)
    (hl : 3 ≤ l ∧ l % 2 = 1)
    (h : Vdf.fiatShamirChallenge rt x ((N - vdfOutput x T N : ℕ) : ℤ) T N challengeBits = .ok (l : ℤ)) :
    Vdf.verifyWesolowski rt x T N ⟨((N - vdfOutput x T N : ℕ) : ℤ), ((N - honestProof x T N l : ℕ) : ℤ), l,
        ((2 ^ T % l : ℕ) : ℤ)⟩ challengeBits = .ok true ∧
      Vdf.verifyWesolowski rt x T N ⟨((N - vdfOutput x T N : ℕ) : ℤ), (honestProof x T N l : ℕ), l,
        ((2 ^ T % l : ℕ) : ℤ)⟩ challengeBits = .ok false := by
  have hne : N ≠ 0 := by omega
  rw [← fiatShamirChallenge_reduced hne] at h
  rw [Vdf.verifyWesolowski_of_challenge (by omega) (by omega) (by omega) h,
    Vdf.verifyWesolowski_of_challenge (by omega) (by omega) (by omega) h, Except.ok.injEq, Except.ok.injEq,
    decide_eq_true_eq, decide_eq_false_iff_not, equation_iff_zmod, equation_iff_zmod, honest_equation]
  exact ⟨negated_equation hne hl.2, honest_ne_negated hN hodd hx⟩

theorem engineRejects_iff (hpacks : rt.PacksTightly) (hN : 3 ≤ N) (hodd : N % 2 = 1) (hx : x.Coprime N)
    (hT : 1 ≤ T) : EngineRejects rt x T N challengeBits ↔ 2 ^ 64 ≤ T := by
  constructor
  · intro hrejects
    by_contra hsmall
    obtain ⟨l, hchallenge, hl⟩ := fiatShamirChallenge_odd hpacks x (N - vdfOutput x T N) (N := N)
      (by omega) (not_le.mp hsmall) challengeBits
    obtain ⟨haccepted, _⟩ := engine_negated hN hodd hx hT hl hchallenge
    exact hrejects l _ hchallenge (.inr rfl) haccepted
  · intro hlarge l pi hchallenge _
    exact absurd hchallenge (fiatShamirChallenge_throws hpacks hlarge l)

theorem coprime_mod_ne (hN : 3 ≤ N) {a : ℕ} (ha : a.Coprime N) : a % N ≠ 0 := by
  intro hzero
  have hone : N = 1 := Nat.Coprime.eq_one_of_dvd ha.symm (Nat.dvd_of_mod_eq_zero hzero)
  omega

theorem negatedInput (hN : 3 ≤ N) (hword : N < 2 ^ 256) (hx : x.Coprime N) (hlt : x < N) (hT : 1 ≤ T)
    (hfits : T < 2 ^ 64) (l : ℕ) :
    WesolowskiInput x (N - vdfOutput x T N) (N - honestProof x T N l) N T := by
  have hoff : ∀ a : ℕ, a.Coprime N → N - a % N ≠ 0 ∧ N - a % N < N := by
    intro a ha
    have hmod := Nat.mod_lt a (show 0 < N by omega)
    have hne := coprime_mod_ne hN ha
    omega
  have hx0 := coprime_mod_ne hN hx
  rw [Nat.mod_eq_of_lt hlt] at hx0
  have hy := hoff (x ^ 2 ^ T) (hx.pow_left _)
  have hpi := hoff (x ^ (2 ^ T / l)) (hx.pow_left _)
  exact ⟨⟨hN, hword⟩, ⟨hT, hfits⟩, ⟨hx0, hy.1, hpi.1⟩, ⟨hlt, hy.2, hpi.2⟩⟩

theorem contract_negated (hmodexp : chain.ModexpCorrect) (hN : 3 ≤ N) (hword : N < 2 ^ 256)
    (hx : x.Coprime N) (hlt : x < N) (hT : 1 ≤ T) (hfits : T < 2 ^ 64) : ¬ ContractRejects chain x T N := by
  intro hrejects
  refine hrejects _ (.inr rfl) ?_
  have hinput := negatedInput hN hword hx hlt hT hfits
    (VDFVerifier.fiatShamir chain x (N - vdfOutput x T N) T N)
  have hequation := negated_equation (x := x) (T := T) (show N ≠ 0 by omega)
    (VDFVerifier.oddChallenge_odd _ _ : VDFVerifier.fiatShamir chain x (N - vdfOutput x T N) T N % 2 = 1)
  rw [← equation_iff_zmod, Nat.mod_eq_of_lt hlt, Nat.mod_eq_of_lt hinput.reduced.2.1] at hequation
  exact (verifyWesolowskiView_iff hmodexp hinput).mpr ⟨rfl, hequation⟩

/-- A proof of the negated output that is assembled from the honest chain is accepted, unless the delay
does not fit what it is packed as. -/
theorem negated_output_rejected_iff (hlib : DelayLibraries chain rt) (hN : 3 ≤ N) (hodd : N % 2 = 1)
    (hx : x.Coprime N) (hT : 1 ≤ T) : (EngineRejects rt x T N challengeBits ↔ 2 ^ 64 ≤ T) ∧
      (N < 2 ^ 256 → x < N → T < 2 ^ 64 → ¬ ContractRejects chain x T N) :=
  ⟨engineRejects_iff hlib.packs hN hodd hx hT,
    fun hword hlt hfits => contract_negated hlib.modexp hN hword hx hlt hT hfits⟩

/-- A delay of 2^64 is refused. -/
theorem negated_output_rejected_large : EngineRejects Vdf.localRuntime 2 (2 ^ 64) 15 128 :=
  (negated_output_rejected_iff localLibraries (by norm_num) (by norm_num) (by decide)
    (by norm_num)).1.mpr le_rfl

/-- One squaring of 2 modulo 15 is 4: a proof of 11 is accepted by both. -/
theorem negated_output_accepted :
    vdfOutput 2 1 15 = 4 ∧
      Vdf.fiatShamirChallenge Vdf.localRuntime 2 11 1 15 128 = .ok (3 : ℕ) ∧ Assembled 2 1 15 3 14 ∧
      Vdf.verifyWesolowski Vdf.localRuntime 2 1 15 ⟨11, 14, 3, 2⟩ 128 = .ok true ∧
      VDFVerifier.verifyWesolowskiView VDFVerifier.localChain 2 11 14 15 1 3 = .ok true := by
  refine ⟨by decide, ?_, .inr (by decide), ?_, ?_⟩
  · decide +kernel
  · decide +kernel
  · decide +kernel

/-! What the provers of the delay functions make, their verifiers accept. -/
open Vdf (Run proveWesolowskiWithin provePietrzakWithin proveRound proveRounds ended_bind)

variable {rt : Vdf.TimelockRuntime} {x N T k rounds challengeBits : ℕ}

/-! ## Wesolowski -/

/-- A proof is made, it is the honest one for its challenge, and it is accepted. -/
def WesolowskiComplete (rt : Vdf.TimelockRuntime) (x T N challengeBits : ℕ) : Prop :=
  ∃ rounds l, proveWesolowskiWithin rt rounds x T N challengeBits = .ended (.ok (Vdf.honestProof x T N l)) ∧
    Vdf.verifyWesolowski rt.toRuntime x T N (Vdf.honestProof x T N l) challengeBits = .ok true

/-- Every delay that a counter reaches. -/
theorem wesolowski_complete (hpacks : rt.PacksTightly) (hN : 0 < N) (hx : 0 < x) (hT : 1 ≤ T) (hlimit : T ≤ 2 ^ 53)
    (challengeBits : ℕ) : WesolowskiComplete rt x T N challengeBits := by
  have hne : N ≠ 0 := Nat.ne_of_gt hN
  obtain ⟨l, hl, hge, _⟩ := fiatShamirChallenge_odd hpacks (x % N) (x ^ 2 ^ T % N) hne (T := T) (by omega) challengeBits
  refine ⟨T, l, ?_, Vdf.verify_honest hne hT (by omega) hl⟩
  rw [Vdf.proveWesolowskiWithin_eq hlimit le_rfl, Vdf.proveWesolowski_ok hne hx hT (by omega) hl]

theorem wesolowski_complete_fifteen : WesolowskiComplete (Vdf.localTimelock 5) 2 3 15 128 :=
  wesolowski_complete (fun _ => rfl) (by decide) (by decide) (by decide) (by decide) 128

/-- Past `2 ** 53` no number of rounds ends the first loop. -/
theorem wesolowski_incomplete : ¬ WesolowskiComplete (Vdf.localTimelock 5) 2 (2 ^ 53 + 2) 15 128 := by
  rintro ⟨rounds, l, hprove, _⟩
  rw [Vdf.proveWesolowskiWithin_none (by decide) (by decide) (by decide)] at hprove
  cases hprove

/-! ## Pietrzak -/

theorem pietrzakChallenge_ok {rt : Vdf.Runtime} (hpacks : rt.PacksTightly) (x y mu : ℕ) (hN : N ≠ 0) (hT : T < 2 ^ 64) :
    ∃ r : ℕ, Vdf.pietrzakChallenge rt x y mu T N = .ok (r : ℤ) := by
  obtain ⟨xBytes, hx⟩ := toBytesBEPadded_ok (x % N) (Vdf.packedWidth N)
  obtain ⟨yBytes, hy⟩ := toBytesBEPadded_ok (y % N) (Vdf.packedWidth N)
  obtain ⟨muBytes, hmu⟩ := toBytesBEPadded_ok (mu % N) (Vdf.packedWidth N)
  obtain ⟨NBytes, hNBytes⟩ := toBytesBEPadded_ok N (Vdf.packedWidth N)
  have hencodings : [Vdf.PackedValue.bytes xBytes, .bytes yBytes, .bytes muBytes, .uint64 T, .bytes NBytes].mapM
      Vdf.PackedValue.encoding = some [xBytes, yBytes, muBytes, bytesBE 8 T, NBytes] := by
    simp [encoding_bytes, encoding_uint64 hT]
  have hdata := packed_eq hpacks hencodings
  unfold Vdf.pietrzakChallenge
  rw [Vdf.rem_natCast x hN, Vdf.rem_natCast y hN, Vdf.rem_natCast mu hN]
  simp only [bind, Except.bind, hx, hy, hmu, hNBytes, hdata]
  exact ⟨_, rfl⟩

/-- A claim that the second is the first squared `2 ** k` times, on reduced units. -/
structure Claimed (N k x y : ℕ) : Prop where
  reduced : x < N
  coprime : x.Coprime N
  power : y = x ^ 2 ^ 2 ^ k % N

/-- The rounds of the prover and of the verifier on the same midpoints, challenges and folded pairs. -/
inductive SameRounds (rt : Vdf.TimelockRuntime) (rounds : ℕ) (N : ℤ) : ℤ × ℤ × ℤ → List ℤ → Prop
  | done {state : ℤ × ℤ × ℤ} (hend : state.2.2 = 1) : SameRounds rt rounds N state []
  | round {x y T mu r : ℤ} {state : ℤ × ℤ × ℤ} {mus : List ℤ}
      (challenge : Vdf.pietrzakChallenge rt.toRuntime x y mu T N = .ok r)
      (prover : proveRound rt rounds N (x, y, T) = .ended (.ok (mu, state)))
      (verifier : Vdf.pietrzakRound rt.toRuntime N mu (x, y, T) = .ok (some state))
      (rest : SameRounds rt rounds N state mus) : SameRounds rt rounds N (x, y, T) (mu :: mus)

theorem coprime_mod_iff (a N : ℕ) : (a % N).Coprime N ↔ a.Coprime N := by
  rw [Nat.Coprime, ← Nat.gcd_rec, Nat.gcd_comm]

theorem Claimed.fold {y : ℕ} (h : Claimed N (k + 1) x y) (hN : 2 ≤ N) (r : ℕ) :
    Claimed N k (x ^ r % N * (x ^ 2 ^ 2 ^ k % N) % N) ((x ^ 2 ^ 2 ^ k % N) ^ r % N * y % N) where
  reduced := Nat.mod_lt _ (by omega)
  coprime := by
    rw [coprime_mod_iff]
    exact Nat.Coprime.mul_left ((coprime_mod_iff _ N).mpr (h.coprime.pow_left r))
      ((coprime_mod_iff _ N).mpr (h.coprime.pow_left _))
  power := by
    have htwice : 2 ^ 2 ^ (k + 1) = 2 ^ 2 ^ k * 2 ^ 2 ^ k := by rw [← pow_add, ← two_mul, pow_succ']
    rw [h.power, htwice]
    refine (ZMod.natCast_eq_natCast_iff' _ _ _).mp ?_
    push_cast [ZMod.natCast_mod]
    generalize 2 ^ 2 ^ k = squarings
    rw [mul_pow, ← pow_mul, ← pow_mul, ← pow_mul, Nat.mul_comm r]

theorem Claimed.round {y : ℕ} (h : Claimed N (k + 1) x y) (hpacks : rt.PacksTightly) (hN : 2 ≤ N) (hk : k < 30)
    (hrounds : 2 ^ k ≤ rounds) : ∃ mu r x' y' : ℕ,
      Vdf.pietrzakChallenge rt.toRuntime x y mu (2 ^ (k + 1) : ℕ) N = .ok (r : ℤ) ∧
      proveRound rt rounds N (x, y, (2 ^ (k + 1) : ℕ)) = .ended (.ok (mu, x', y', (2 ^ k : ℕ))) ∧
      Vdf.pietrzakRound rt.toRuntime N mu (x, y, (2 ^ (k + 1) : ℕ)) = .ok (some (x', y', (2 ^ k : ℕ))) ∧
      Claimed N k x' y' := by
  have hne : N ≠ 0 := by omega
  have hpow : (2 : ℕ) ^ (k + 1) < 2 ^ 31 := Nat.pow_lt_pow_right (by decide) (by omega)
  have hlimit : 2 ^ k ≤ 2 ^ 53 := Nat.pow_le_pow_right (by decide) (by omega)
  have hhalf : shiftRight ((2 ^ (k + 1) : ℕ) : ℤ) 1 = ((2 ^ k : ℕ) : ℤ) := by
    have hlow : (-2 ^ 31 : ℤ) ≤ 0 := by norm_num
    have hdouble : 2 ^ (k + 1) / 2 = 2 ^ k := by rw [pow_succ, Nat.mul_div_cancel _ (by decide)]
    rw [shiftRight_eq (hlow.trans (Int.natCast_nonneg _)) (by exact_mod_cast hpow), ← hdouble]
    rfl
  have hx : 0 < x := by
    refine Nat.pos_of_ne_zero fun hzero => ?_
    have hcoprime := h.coprime
    rw [hzero, Nat.coprime_zero_left] at hcoprime
    omega
  have hmu : x ^ 2 ^ 2 ^ k % N ≠ 0 := by
    intro hzero
    have hcoprime := (coprime_mod_iff _ N).mpr (h.coprime.pow_left (2 ^ 2 ^ k))
    rw [hzero, Nat.coprime_zero_left] at hcoprime
    omega
  have hlt : x ^ 2 ^ 2 ^ k % N < N := Nat.mod_lt _ (by omega)
  have hvdf : Vdf.evaluateVdfWithin rounds x (2 ^ k : ℕ) N = .ended (.ok ((x ^ 2 ^ 2 ^ k % N : ℕ) : ℤ)) := by
    rw [Vdf.evaluateVdfWithin_eq hlimit hrounds, Vdf.evaluateVdf_ok hne hx Nat.one_le_two_pow]
  obtain ⟨r, hr⟩ := pietrzakChallenge_ok hpacks x y (x ^ 2 ^ 2 ^ k % N) hne (T := 2 ^ (k + 1)) (by omega)
  refine ⟨_, r, _, _, hr, ?_, ?_, h.fold hN r⟩
  · rw [proveRound, hhalf, hvdf]
    simp only [Vdf.ended_ok_bind, hr, Vdf.lift_ok_bind, Vdf.modPow_natCast _ _ hne, ← Int.natCast_mul,
      Vdf.rem_natCast _ hne]
    rfl
  · have hrange : ¬ (((x ^ 2 ^ 2 ^ k % N : ℕ) : ℤ) ≤ 0 ∨ (N : ℤ) ≤ ((x ^ 2 ^ 2 ^ k % N : ℕ) : ℤ)) := by omega
    rw [Vdf.pietrzakRound, if_neg hrange, hhalf, hr]
    simp only [ok_bind, Vdf.modPow_natCast _ _ hne, ← Int.natCast_mul, Vdf.rem_natCast _ hne]
    rfl

theorem Claimed.allRounds {y : ℕ} (h : Claimed N k x y) (hpacks : rt.PacksTightly) (hN : 2 ≤ N) (hk : k ≤ 30)
    (hrounds : 2 ^ k ≤ rounds) : ∃ mus : List ℤ, ∃ x' y' : ℕ, mus.length = k ∧
      SameRounds rt rounds N (x, y, (2 ^ k : ℕ)) mus ∧
      (∀ n, k ≤ n → proveRounds rt rounds N n (x, y, (2 ^ k : ℕ)) = .ended (.ok mus)) ∧
      Vdf.pietrzakRounds rt.toRuntime N mus (x, y, (2 ^ k : ℕ)) = .ok (some (x', y', 1)) ∧ Claimed N 0 x' y' := by
  induction k generalizing x y with
  | zero =>
    refine ⟨[], x, y, rfl, .done rfl, fun n _ => ?_, rfl, h⟩
    cases n <;> rfl
  | succ k ih =>
    have hless : 2 ^ k ≤ rounds := (Nat.pow_le_pow_right (by decide) (Nat.le_succ k)).trans hrounds
    obtain ⟨mu, r, x₁, y₁, hr, hprover, hverifier, hclaim⟩ := h.round hpacks hN (by omega) hless
    obtain ⟨mus, x', y', hlength, hsame, hproved, hverified, hlast⟩ := ih hclaim (by omega) hless
    refine ⟨mu :: mus, x', y', by rw [List.length_cons, hlength], .round hr hprover hverifier hsame, fun n hn => ?_, ?_,
      hlast⟩
    · obtain ⟨n, rfl⟩ : ∃ m, n = m + 1 := ⟨n - 1, by omega⟩
      have hmore : (1 : ℤ) < ((2 ^ (k + 1) : ℕ) : ℤ) := by exact_mod_cast Nat.one_lt_two_pow (Nat.succ_ne_zero k)
      rw [proveRounds, if_pos hmore, hprover, Vdf.ended_ok_bind]
      dsimp only
      rw [hproved n (by omega)]
      rfl
    · rw [Vdf.pietrzakRounds, hverifier]
      exact hverified

/-- A proof with `k` midpoints is made and accepted, and both sides go through the same rounds. -/
def PietrzakComplete (rt : Vdf.TimelockRuntime) (x T N k : ℕ) : Prop :=
  ∃ rounds, ∃ proof : Vdf.PietrzakProof, provePietrzakWithin rt rounds x T N = .ended (.ok proof) ∧
    proof.mus.length = k ∧ Vdf.verifyPietrzak rt.toRuntime x T N proof = .ok true ∧
    SameRounds rt rounds N ((x % N : ℕ), proof.y, T) proof.mus

theorem pietrzak_complete (hpacks : rt.PacksTightly) (hlog2 : rt.log2 (2 ^ k) = k) (hN : 2 ≤ N) (hx : 0 < x)
    (hcoprime : x.Coprime N) (hk : 1 ≤ k ∧ k ≤ 30) : PietrzakComplete rt x (2 ^ k) N k := by
  have hne : N ≠ 0 := by omega
  have hlimit : 2 ^ k ≤ 2 ^ 53 := Nat.pow_le_pow_right (by decide) (by omega)
  have htwo : 2 ≤ 2 ^ k := Nat.pow_le_pow_right (by decide : 1 ≤ 2) hk.1
  have hclaim : Claimed N k (x % N) (x ^ 2 ^ 2 ^ k % N) :=
    ⟨Nat.mod_lt _ (by omega), (coprime_mod_iff x N).mpr hcoprime, Nat.pow_mod x _ N⟩
  obtain ⟨mus, x', y', hlength, hsame, hproved, hverified, hlast⟩ :=
    hclaim.allRounds hpacks hN hk.2 (le_refl (2 ^ k))
  have hpos : x % N ≠ 0 := by
    intro hzero
    have hunit := (coprime_mod_iff x N).mpr hcoprime
    rw [hzero, Nat.coprime_zero_left] at hunit
    omega
  have hcast : ((2 ^ k : ℕ) : ℤ) = 2 ^ k := by push_cast; rfl
  have hpower : ¬ (((2 ^ k : ℕ) : ℤ) < 2 ∨ bitAnd ((2 ^ k : ℕ) : ℤ) (((2 ^ k : ℕ) : ℤ) - 1) ≠ 0) := by
    rw [hcast, bitAnd_two_pow, ← hcast]
    omega
  have hevaluated : Vdf.evaluateVdfWithin (2 ^ k) (x % N : ℕ) (2 ^ k : ℕ) N = .ended (.ok ((x ^ 2 ^ 2 ^ k % N : ℕ) : ℤ)) := by
    rw [Vdf.evaluateVdfWithin_eq hlimit le_rfl, Vdf.evaluateVdf_ok hne (Nat.pos_of_ne_zero hpos) (by omega), ← Nat.pow_mod]
  refine ⟨2 ^ k, ⟨_, mus⟩, ?_, hlength, ?_, hsame⟩
  · rw [provePietrzakWithin, Vdf.assertPositiveBigInt_natCast hne, Vdf.assertPositiveBigInt_natCast (by omega),
      Vdf.rem_natCast x hne]
    simp only [Vdf.lift_ok_bind, revertIf, if_neg hpower, hevaluated, Vdf.ended_ok_bind]
    rw [hproved _ (Nat.lt_two_pow_self).le]
    rfl
  · have hlog : ¬ ((mus.length : ℚ) ≠ rt.log2 ((2 ^ k : ℕ) : ℤ)) := by
      rw [hcast, hlog2, hlength, not_not]
    have hfinal : x' * x' % N = y' := by
      rw [hlast.power, pow_zero, pow_one, pow_two]
    rw [Vdf.verifyPietrzak, Vdf.assertPositiveBigInt_natCast hne, ok_bind, if_neg hpower, if_neg hlog,
      Vdf.rem_natCast x hne, ok_bind, Vdf.rem_natCast _ hne, ok_bind, Nat.mod_mod, hverified, ok_bind]
    dsimp only
    rw [← Int.natCast_mul, Vdf.rem_natCast _ hne, ok_bind, hfinal]
    simp

theorem pietrzak_complete_four : PietrzakComplete (Vdf.localTimelock 5) 2 (2 ^ 2) 15 2 :=
  pietrzak_complete (fun _ => rfl) rfl (by decide) (by decide) (by decide) (by decide)

end ChainGuard.Link
