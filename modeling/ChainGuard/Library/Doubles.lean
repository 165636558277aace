import Mathlib

/-! Numbers of binary64 and decimals: the number nearest to a decimal, and for every finite number a decimal that it is
nearest to. -/
namespace Doubles
open Float.Model (Format totalExponent)
open Float.Model.UnpackedFloat
set_option autoImplicit false

/-! ## Fields of a number -/

/-- What the fields of a finite number are: with all the digits unless the exponent is the least. -/
structure Canonical (m : ℕ) (e : ℤ) : Prop where
  lt : m < 2 ^ 53
  least : -1074 ≤ e
  greatest : e ≤ 971
  full : m.log2 = 52 ∨ e = -1074

theorem implicit_bit (mantissa : BitVec 52) : (1#1 ++ mantissa).toNat = 2 ^ 52 + mantissa.toNat := by
  have hlt := mantissa.isLt
  rw [BitVec.toNat_append, ← Nat.shiftLeft_add_eq_or_of_lt hlt]
  rfl

theorem log2_implicit {n : ℕ} (h : n < 2 ^ 52) : (2 ^ 52 + n).log2 = 52 := by
  apply (Nat.log2_eq_iff (by omega)).mpr
  omega

theorem packComponents_fields (b : BitVec 64) : packComponents .binary64 (.ofBitVec (@unpackSign .binary64 b))
    (@unpackExponent .binary64 b) (@unpackMantissa .binary64 b) = b := by
  have hsign : (Sign.ofBitVec (@unpackSign .binary64 b)).toBitVec = @unpackSign .binary64 b := by
    generalize @unpackSign .binary64 b = s
    revert s
    decide
  rw [packComponents, hsign]
  apply BitVec.eq_of_getLsbD_eq
  intro i hi
  simp only [BitVec.getLsbD_append, unpackSign, unpackExponent, unpackMantissa, BitVec.getLsbD_cast,
    BitVec.getLsbD_extractLsb]
  change i < 64 at hi
  by_cases hmantissa : i < 52
  · simp [hmantissa]
  by_cases hexponent : i < 63
  · have hindex : 52 + (i - 52) = i := by omega
    have hlow : i - 52 < 11 := by omega
    simp [hmantissa, hindex, hlow]
  · have htop : i = 63 := by omega
    subst htop
    simp
    rfl

theorem pack_normal (s : Sign) {m : ℕ} {e : ℤ} (hm : 0 < m) (hlog : m.log2 = 52) (hleast : -1074 ≤ e)
    (hgreatest : e ≤ 971) : pack .binary64 (.finite s m e hm) =
      packComponents .binary64 s (BitVec.ofNat 11 (e + 1075).toNat) (BitVec.ofNat 52 m) := by
  have hbiased : (e + (1023 : ℕ) + (52 : ℕ)).toNat = (e + 1075).toNat := by omega
  have hbound : ¬ 2 ^ 11 ≤ (e + (1023 : ℕ) + (52 : ℕ)).toNat + 1 := by omega
  simp only [pack]
  rw [show Format.binary64.exponentBias = 1023 from rfl, if_neg hbound, hlog, hbiased]
  rfl

theorem pack_subnormal (s : Sign) {m : ℕ} (hm : 0 < m) (hlog : m.log2 < 52) : pack .binary64 (.finite s m (-1074) hm) =
    packComponents .binary64 s 0#11 (BitVec.ofNat 52 m) := by
  have hbound : ¬ 2 ^ 11 ≤ ((-1074 : ℤ) + (1023 : ℕ) + (52 : ℕ)).toNat + 1 := by decide
  have hbits : ¬ m.log2 + 1 = Format.binary64.mantissaBits := by
    rw [show Format.binary64.mantissaBits = 53 from rfl]
    omega
  simp only [pack]
  rw [show Format.binary64.exponentBias = 1023 from rfl, if_neg hbound, if_neg hbits]

theorem fields_of_unpack {b : BitVec 64} {s : Sign} {m : ℕ} {e : ℤ} {hm : 0 < m}
    (h : unpack .binary64 b = .finite s m e hm) :
    Canonical m e ∧ pack .binary64 (.finite s m e hm) = b := by
  have hparts := packComponents_fields b
  have hmantissa : (@unpackMantissa .binary64 b).toNat < 2 ^ 52 := (@unpackMantissa .binary64 b).isLt
  have hexponent : (@unpackExponent .binary64 b).toNat < 2 ^ 11 := (@unpackExponent .binary64 b).isLt
  have hbias : ((Format.binary64.exponentBias : ℕ) : ℤ) + ((52 : ℕ) : ℤ) = 1075 := rfl
  unfold unpack at h
  dsimp only at h
  split at h
  · split at h <;> cases h
  next hfinite =>
  have hne : (@unpackExponent .binary64 b).toNat ≠ 2047 := fun heq => hfinite (BitVec.eq_of_toNat_eq heq)
  split at h
  · next hzero =>
    split at h
    · cases h
    · have hlog : (@unpackMantissa .binary64 b).toNat.log2 < 52 := by
        by_cases hnil : (@unpackMantissa .binary64 b).toNat = 0
        · rw [hnil]
          decide
        · exact (Nat.log2_lt hnil).mpr hmantissa
      have he : ((@unpackExponent .binary64 b).toNat : ℤ) - (Format.binary64.exponentBias + (52 : ℕ)) + 1 =
          -1074 := by
        rw [hzero]
        rfl
      cases h
      rw [hzero] at hparts
      simp only [he]
      refine ⟨⟨by omega, by omega, by omega, Or.inr rfl⟩, ?_⟩
      rw [pack_subnormal _ _ hlog, BitVec.ofNat_toNat, BitVec.setWidth_eq]
      exact hparts
  · next hnormal =>
    have hpos : (@unpackExponent .binary64 b).toNat ≠ 0 := fun heq => hnormal (BitVec.eq_of_toNat_eq heq)
    cases h
    have himplicit := implicit_bit (@unpackMantissa .binary64 b)
    have hlog := log2_implicit hmantissa
    rw [← himplicit] at hlog
    have hmantissa' : BitVec.ofNat 52 (1#1 ++ @unpackMantissa .binary64 b).toNat =
        @unpackMantissa .binary64 b := by
      apply BitVec.eq_of_toNat_eq
      rw [BitVec.toNat_ofNat, himplicit]
      omega
    have hexponent' : BitVec.ofNat 11 (((@unpackExponent .binary64 b).toNat : ℤ) -
        (Format.binary64.exponentBias + (52 : ℕ)) + 1075).toNat = @unpackExponent .binary64 b := by
      apply BitVec.eq_of_toNat_eq
      rw [BitVec.toNat_ofNat]
      omega
    refine ⟨⟨by omega, by omega, by omega, Or.inl hlog⟩, ?_⟩
    rw [pack_normal _ _ hlog (by omega) (by omega), hmantissa', hexponent']
    exact hparts

/-! ## Rounding -/

theorem targetExponent_eq (x : ℤ) : Format.binary64.targetExponent x = max (x - 53) (-1074) := rfl

theorem log2_mul_two_pow {m : ℕ} (hm : 0 < m) (c : ℕ) : (m * 2 ^ c).log2 = m.log2 + c := by
  induction c with
  | zero => simp
  | succ c ih =>
    have hpos : m * 2 ^ c ≠ 0 := by positivity
    rw [pow_succ, ← mul_assoc, mul_comm, Nat.log2_two_mul hpos, ih]
    omega

theorem log2_mul_le {a b : ℕ} (ha : 0 < a) (hb : 0 < b) : (a * b).log2 ≤ a.log2 + b.log2 + 1 := by
  have hpos : a * b ≠ 0 := by positivity
  have halt : a < 2 ^ (a.log2 + 1) := Nat.lt_log2_self
  have hblt : b < 2 ^ (b.log2 + 1) := Nat.lt_log2_self
  have hlt : a * b < 2 ^ (a.log2 + b.log2 + 2) := by
    calc a * b < 2 ^ (a.log2 + 1) * 2 ^ (b.log2 + 1) := Nat.mul_lt_mul'' halt hblt
      _ = 2 ^ (a.log2 + b.log2 + 2) := by ring
  have hlog := (Nat.log2_lt hpos).mpr hlt
  omega

/-- Zeros below the digits of a mantissa are shifted out without a trace. -/
theorem shiftRight_exact (m c : ℕ) :
    (ExtendedMantissa.ofMantissaAndAccuracy (m * 2 ^ c) .exact) >>> c = ⟨m, false, false⟩ := by
  change Nat.repeat ExtendedMantissa.shiftRightOne c _ = _
  induction c generalizing m with
  | zero => simp [Nat.repeat, ExtendedMantissa.ofMantissaAndAccuracy]
  | succ c ih =>
    have hmore : m * 2 ^ (c + 1) = m * 2 * 2 ^ c := by ring
    rw [Nat.repeat, hmore, ih]
    simp [ExtendedMantissa.shiftRightOne]

theorem shiftToTargetExponent_exact {m : ℕ} {e : ℤ} (hm : 0 < m) (h : Canonical m e) (c : ℕ) :
    shiftToTargetExponent .binary64 (m * 2 ^ c) (e - c) .exact = (⟨m, false, false⟩, e) := by
  have htarget : Format.binary64.targetExponent (totalExponent (m * 2 ^ c) (e - c)) = e := by
    have hlog : m.log2 < 53 := (Nat.log2_lt (by omega)).mpr h.lt
    have hleast := h.least
    have hfull := h.full
    rw [targetExponent_eq, totalExponent, log2_mul_two_pow hm]
    omega
  have hamount : (e - (e - c)).toNat = c := by omega
  rw [shiftToTargetExponent, htarget]
  simp only [shiftToExponent, hamount, shiftRight_exact]
  rw [sub_add_cancel]

theorem roundWithAccuracy_exact (s : Sign) {m : ℕ} {e : ℤ} (hm : 0 < m) (h : Canonical m e) (c : ℕ) :
    roundWithAccuracy .binary64 s (m * 2 ^ c) (e - c) .exact = .finite s m e hm := by
  have hsecond := shiftToTargetExponent_exact hm h 0
  simp only [pow_zero, mul_one, Nat.cast_zero, sub_zero] at hsecond
  have hrounded : (⟨m, false, false⟩ : ExtendedMantissa).roundedMantissa = m := rfl
  simp only [roundWithAccuracy, shiftToTargetExponent_exact hm h c, hrounded, hsecond]
  rw [dif_neg (by omega)]

/-! ## Decimals -/

/-- The number nearest to `m * 10 ^ e`. -/
def magnitude (m : ℕ) (e : ℤ) : Float.Model.UnpackedFloat :=
  if 0 ≤ e then ofScientific .binary64 (m * 10 ^ e.toNat) 0 else ofScientific .binary64 m e

/-- The number nearest to a decimal with a sign. -/
def ofDecimal (negative : Bool) (m : ℕ) (e : ℤ) : Float :=
  .ofModel (.pack (if negative then (magnitude m e).neg else magnitude m e))

/-- The decimal that the number `m * 2 ^ e` is. -/
def exactDecimal (m : ℕ) (e : ℤ) : ℕ × ℤ :=
  if 0 ≤ e then (m * 2 ^ e.toNat, 0) else (m * 5 ^ (-e).toNat, e)

theorem ofScientific_natural {m : ℕ} {e : ℤ} (hm : 0 < m) (h : Canonical m e) (he : 0 ≤ e) :
    ofScientific .binary64 (m * 2 ^ e.toNat) 0 = .finite .positive m e hm := by
  have hpos : m * 2 ^ e.toNat ≠ 0 := by positivity
  have hround := roundWithAccuracy_exact .positive hm h (e.toNat + 53)
  have hmantissa : (m * 2 ^ e.toNat) <<< 53 * 10 ^ (0 : ℤ).toNat = m * 2 ^ (e.toNat + 53) := by
    rw [Nat.shiftLeft_eq]
    simp
    ring
  have hexponent : (-(53 : ℕ) : ℤ) + 0 = e - (e.toNat + 53 : ℕ) := by omega
  have hlow : ¬ (0 : ℤ) < -((2 : ℤ) ^ 11 + ((m * 2 ^ e.toNat).log2 : ℤ)) := by omega
  rw [ofScientific, dif_neg hpos, if_neg (by decide), if_neg hlow, if_pos le_rfl]
  simp only [mul]
  rw [show Format.binary64.mantissaBits = 53 from rfl, hmantissa, hexponent]
  exact hround

theorem ofScientific_fraction {m : ℕ} {e : ℤ} (hm : 0 < m) (h : Canonical m e) (he : e < 0) :
    ofScientific .binary64 (m * 5 ^ (-e).toNat) e = .finite .positive m e hm := by
  obtain ⟨j, rfl⟩ : ∃ j : ℕ, e = -(j : ℤ) := ⟨(-e).toNat, by omega⟩
  have hj : (j : ℤ) ≤ 1074 := by
    have hleast := h.least
    omega
  have hpos : m * 5 ^ j ≠ 0 := by positivity
  have hlow : ¬ -(j : ℤ) < -((2 : ℤ) ^ 11 + ((m * 5 ^ j).log2 : ℤ)) := by omega
  have hhigh : ¬ -(j : ℤ) > 2 ^ 11 := by omega
  rw [neg_neg, Int.toNat_natCast, ofScientific, dif_neg hpos, if_neg hhigh, if_neg hlow, if_neg (by omega)]
  simp only [div, neg_neg, Int.toNat_natCast]
  -- the quotient is taken with at least as many bits as there are decimals
  obtain ⟨c, hc⟩ : ∃ c : ℕ, Format.binary64.targetExponent
      (totalExponent (m * 5 ^ j) 0 - totalExponent (10 ^ j) 0) = -((j + c : ℕ) : ℤ) := by
    have hm' : m.log2 < 53 := (Nat.log2_lt (by omega)).mpr h.lt
    have hfives : 0 < 5 ^ j := by positivity
    have hnumerator := log2_mul_le hm hfives
    have hdenominator : (10 ^ j).log2 = (5 ^ j).log2 + j := by
      rw [← log2_mul_two_pow hfives, ← mul_pow]
      norm_num
    rw [targetExponent_eq, totalExponent, totalExponent, hdenominator]
    refine ⟨(-(max ((m * 5 ^ j).log2 - (5 ^ j).log2 - j - 53 : ℤ) (-1074)) - j).toNat, ?_⟩
    omega
  have hcore : divCore .binary64 (m * 5 ^ j) 0 (10 ^ j) 0 = (m * 2 ^ c, -(j : ℤ) - c, .exact) := by
    have hproduct : (m * 5 ^ j) <<< (j + c) = m * 2 ^ c * 10 ^ j := by
      rw [Nat.shiftLeft_eq, show (10 : ℕ) = 2 * 5 from rfl, mul_pow, pow_add]
      ring
    have hmin : min ((0 : ℤ) - 0) (-((j + c : ℕ) : ℤ)) = -((j + c : ℕ) : ℤ) := by omega
    have hamount : ((0 : ℤ) - 0 - -((j + c : ℕ) : ℤ)).toNat = j + c := by omega
    have hten : 0 < 10 ^ j := by positivity
    simp only [divCore, hc, hmin, hamount, hproduct, Nat.mul_div_cancel _ hten, Nat.mul_mod_left]
    refine Prod.ext rfl (Prod.ext ?_ rfl)
    dsimp only
    omega
  rw [hcore]
  exact roundWithAccuracy_exact .positive hm h c

theorem magnitude_exact {m : ℕ} {e : ℤ} (hm : 0 < m) (h : Canonical m e) :
    magnitude (exactDecimal m e).1 (exactDecimal m e).2 = .finite .positive m e hm := by
  rw [exactDecimal]
  by_cases he : 0 ≤ e
  · rw [if_pos he, magnitude, if_pos le_rfl, Int.toNat_zero, pow_zero, mul_one]
    exact ofScientific_natural hm h he
  · rw [if_neg he, magnitude, if_neg he]
    exact ofScientific_fraction hm h (by omega)

/-- A finite number other than zero is the one nearest to the decimal that it is. -/
theorem ofDecimal_exact {x : Float} {s : Sign} {m : ℕ} {e : ℤ} {hm : 0 < m} (hx : x.toModel.unpack = .finite s m e hm) :
    ofDecimal (s == .negative) (exactDecimal m e).1 (exactDecimal m e).2 = x := by
  obtain ⟨hcanonical, hpack⟩ := fields_of_unpack hx
  rw [ofDecimal, magnitude_exact hm hcanonical]
  have hsign : (if (s == .negative) = true then (finite .positive m e hm).neg else finite .positive m e hm) =
      finite s m e hm := by
    cases s <;> rfl
  obtain ⟨⟨bits, hvalid⟩⟩ := x
  rw [hsign]
  simp only [Float.Model.pack, hpack]

/-! ## Shortest decimals -/

/-- The multiples of a power of ten below and above a number: the nearer one first, of two as near the even one. -/
def neighbours (q : ℚ) (t : ℤ) : List ℕ :=
  let lower := ⌊q / 10 ^ t⌋.toNat
  let below := q - lower * 10 ^ t
  let above := (lower + 1) * 10 ^ t - q
  if below < above ∨ below = above ∧ lower % 2 = 0 then [lower, lower + 1] else [lower + 1, lower]

/-- The decimals of up to 17 digits next to a number, those of fewer digits first. -/
def candidates (q : ℚ) : List (ℕ × ℤ) :=
  let n := Int.log 10 q + 1
  (List.range 17).flatMap fun j =>
    let t := n - (j + 1 : ℕ)
    (neighbours q t).map fun s => if s = 10 ^ (j + 1) then (1, n) else (s, t)

/-- The shortest decimal that a number is the nearest to. Seventeen digits are enough for every number, so the exact
decimal is not needed. -/
def shortestDecimal (x : Float) (negative : Bool) (m : ℕ) (e : ℤ) : ℕ × ℤ :=
  ((candidates (m * 2 ^ e)).find? fun decimal => ofDecimal negative decimal.1 decimal.2 = x).getD (exactDecimal m e)

theorem ofDecimal_shortest {x : Float} {s : Sign} {m : ℕ} {e : ℤ} {hm : 0 < m}
    (hx : x.toModel.unpack = .finite s m e hm) :
    let decimal := shortestDecimal x (s == .negative) m e
    ofDecimal (s == .negative) decimal.1 decimal.2 = x := by
  dsimp only
  rw [shortestDecimal]
  cases hfind : (candidates (m * 2 ^ e)).find? fun decimal => ofDecimal (s == .negative) decimal.1 decimal.2 = x with
  | none => exact ofDecimal_exact hx
  | some decimal =>
    have hnearest := List.find?_some hfind
    exact of_decide_eq_true hnearest

example : shortestDecimal (ofDecimal false 1 (-1)) false 7205759403792794 (-56) = (1, -1) := by decide +kernel

end Doubles
