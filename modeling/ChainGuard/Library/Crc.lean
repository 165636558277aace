import Mathlib

/-! Cyclic redundancy checks: the check of a message is the remainder of its polynomial over the field of two elements,
and a shift register computes it. -/
namespace Crc
open Polynomial
set_option autoImplicit false

/-! ## Polynomials of bits -/

/-- The polynomial whose coefficients are the bits of a word. -/
noncomputable def poly {w : ℕ} (x : BitVec w) : (ZMod 2)[X] :=
  ∑ i ∈ Finset.range w, if x.getLsbD i then X ^ i else 0

theorem coeff_poly {w : ℕ} (x : BitVec w) (i : ℕ) : (poly x).coeff i = if x.getLsbD i then 1 else 0 := by
  have hterm : ∀ j ∈ Finset.range w, (if x.getLsbD j then X ^ j else 0 : (ZMod 2)[X]).coeff i =
      if i = j then (if x.getLsbD j then 1 else 0) else 0 := fun j _ => by
    split <;> simp [coeff_X_pow]
  rw [poly, finsetSum_coeff, Finset.sum_congr rfl hterm, Finset.sum_ite_eq]
  split
  · rfl
  · next hi =>
    rw [BitVec.getLsbD_of_ge _ _ (by simpa using hi), if_neg Bool.false_ne_true]

theorem degree_poly {w : ℕ} (x : BitVec w) : (poly x).degree < w := by
  rw [degree_lt_iff_coeff_zero]
  intro i hi
  rw [coeff_poly, BitVec.getLsbD_of_ge _ _ hi, if_neg Bool.false_ne_true]

theorem poly_injective {w : ℕ} {x y : BitVec w} (h : poly x = poly y) : x = y := by
  refine BitVec.eq_of_getLsbD_eq fun i _ => ?_
  have hcoeff := congrArg (fun p => p.coeff i) h
  simp only [coeff_poly] at hcoeff
  revert hcoeff
  cases x.getLsbD i <;> cases y.getLsbD i <;> decide

/-- Bits add without carries. -/
theorem poly_xor {w : ℕ} (x y : BitVec w) : poly (x ^^^ y) = poly x + poly y := by
  ext i
  rw [coeff_add, coeff_poly, coeff_poly, coeff_poly, BitVec.getLsbD_xor]
  cases x.getLsbD i <;> cases y.getLsbD i <;> decide

theorem poly_shiftLeft_setWidth {v w n : ℕ} (x : BitVec v) (h : v + n ≤ w) :
    poly (x.setWidth w <<< n) = poly x * X ^ n := by
  ext i
  rw [coeff_poly, coeff_mul_X_pow', coeff_poly, BitVec.getLsbD_shiftLeft, BitVec.getLsbD_setWidth]
  by_cases hn : n ≤ i
  · rw [if_pos hn]
    by_cases hi : i < w
    · have hin : i - n < w := by omega
      simp [hi, hn, hin]
    · rw [BitVec.getLsbD_of_ge x (i - n) (by omega)]
      simp [hi]
  · simp [hn, Nat.lt_of_not_le hn]

/-! ## The check -/

variable {w : ℕ}

/-- The power of the width, and the low coefficients of the generator. -/
noncomputable def generator (low : BitVec w) : (ZMod 2)[X] := X ^ w + poly low

theorem monic_generator (low : BitVec w) : (generator low).Monic := monic_X_pow_add (degree_poly low)

theorem degree_generator (low : BitVec w) : (generator low).degree = w := by
  have hlow : (poly low).degree < (X ^ w : (ZMod 2)[X]).degree := by
    rw [degree_X_pow]
    exact degree_poly low
  rw [generator, degree_add_eq_left_of_degree_lt hlow, degree_X_pow]

noncomputable def message (data : List UInt8) : (ZMod 2)[X] :=
  data.foldl (fun p byte => p * X ^ 8 + poly byte.toBitVec) 0

/-- The word is the remainder of the message, moved up by the width. -/
def IsCheck (low : BitVec w) (data : List UInt8) (check : BitVec w) : Prop :=
  poly check = (message data * X ^ w) %ₘ generator low

theorem IsCheck.unique {low : BitVec w} {data : List UInt8} {c d : BitVec w} (hc : IsCheck low data c)
    (hd : IsCheck low data d) : c = d := poly_injective (hc.trans hd.symm)

theorem isCheck_iff {low : BitVec w} {data : List UInt8} {check : BitVec w} :
    IsCheck low data check ↔ generator low ∣ message data * X ^ w - poly check := by
  constructor
  · intro h
    rw [h, modByMonic_eq_sub_mul_div, sub_sub_cancel]
    exact dvd_mul_right _ _
  · rintro ⟨q, hq⟩
    have hdegree : (poly check).degree < (generator low).degree := by
      rw [degree_generator]
      exact degree_poly check
    have hsum : poly check + generator low * q = message data * X ^ w := by rw [← hq, add_sub_cancel]
    exact (div_modByMonic_unique q (poly check) (monic_generator low) ⟨hsum, hdegree⟩).2.symm

/-! ## The register -/

/-- A shift of the register: what leaves it is added back as the low part of the generator. -/
def shift (low c : BitVec w) : BitVec w := if c.msb then c <<< 1 ^^^ low else c <<< 1

/-- The register takes a byte in at its top. -/
def feed (low c : BitVec w) (byte : UInt8) : BitVec w :=
  (shift low)^[8] (c ^^^ (byte.toBitVec.setWidth w <<< (w - 8)))

theorem poly_mul_X (c : BitVec w) : poly c * X = poly (c <<< 1) + if c.msb then X ^ w else 0 := by
  have hterm : ∀ i, (if c.msb then X ^ w else 0 : (ZMod 2)[X]).coeff i = if i = w ∧ c.msb = true then 1 else 0 :=
    fun i => by
      cases c.msb <;> simp [coeff_X_pow]
  ext i
  rw [coeff_add, hterm, coeff_poly, BitVec.getLsbD_shiftLeft, BitVec.msb_eq_getLsbD_last]
  cases i with
  | zero =>
    rw [coeff_mul_X_zero]
    rcases w with _ | w
    · simp [BitVec.getLsbD_of_ge]
    · simp
  | succ i =>
    rw [coeff_mul_X, coeff_poly]
    rcases Nat.lt_trichotomy (i + 1) w with h | h | h
    · simp [h, Nat.ne_of_lt h]
    · subst h
      simp
    · simp [BitVec.getLsbD_of_ge c i (by omega), Nat.ne_of_gt h]

/-- A shift multiplies by the variable. -/
theorem shift_dvd (low c : BitVec w) : generator low ∣ poly c * X - poly (shift low c) := by
  rw [poly_mul_X, shift]
  cases c.msb with
  | false => simp
  | true =>
    have hdifference : poly (c <<< 1) + X ^ w - (poly (c <<< 1) + poly low) = generator low := by
      rw [add_sub_add_left_eq_sub, CharTwo.sub_eq_add, generator]
    simp only [if_true, poly_xor, hdifference, dvd_refl]

theorem shifts_dvd (low c : BitVec w) (n : ℕ) : generator low ∣ poly c * X ^ n - poly ((shift low)^[n] c) := by
  induction n with
  | zero => simp
  | succ n ih =>
    have hsplit : poly c * X ^ (n + 1) - poly ((shift low)^[n + 1] c) =
        (poly c * X ^ n - poly ((shift low)^[n] c)) * X +
          (poly ((shift low)^[n] c) * X - poly (shift low ((shift low)^[n] c))) := by
      rw [Function.iterate_succ_apply']
      ring
    rw [hsplit]
    exact dvd_add (dvd_mul_of_dvd_left ih X) (shift_dvd low _)

theorem feed_dvd (low c : BitVec w) (byte : UInt8) (hw : 8 ≤ w) :
    generator low ∣ poly c * X ^ 8 + poly byte.toBitVec * X ^ w - poly (feed low c byte) := by
  have hshifts := shifts_dvd low (c ^^^ (byte.toBitVec.setWidth w <<< (w - 8))) 8
  have hpower : (X : (ZMod 2)[X]) ^ (w - 8) * X ^ 8 = X ^ w := by rw [← pow_add, Nat.sub_add_cancel hw]
  rw [poly_xor, poly_shiftLeft_setWidth _ (by omega), add_mul, mul_assoc, hpower] at hshifts
  exact hshifts

/-- The register of a message is its check. -/
theorem isCheck_feed (low : BitVec w) (data : List UInt8) (hw : 8 ≤ w) :
    IsCheck low data (data.foldl (feed low) 0) := by
  rw [isCheck_iff]
  induction data using List.reverseRecOn with
  | nil =>
    have hzero : poly (0 : BitVec w) = 0 := by
      ext i
      simp [coeff_poly]
    rw [List.foldl_nil, hzero, message, List.foldl_nil, zero_mul, sub_zero]
    exact dvd_zero _
  | append_singleton data byte ih =>
    have hfeed := feed_dvd low (data.foldl (feed low) 0) byte hw
    have hsplit : message (data ++ [byte]) * X ^ w - poly ((data ++ [byte]).foldl (feed low) 0) =
        (message data * X ^ w - poly (data.foldl (feed low) 0)) * X ^ 8 +
          (poly (data.foldl (feed low) 0) * X ^ 8 + poly byte.toBitVec * X ^ w -
            poly (feed low (data.foldl (feed low) 0) byte)) := by
      rw [message, message, List.foldl_concat, List.foldl_concat]
      ring
    rw [hsplit]
    exact dvd_add (dvd_mul_of_dvd_left ih _) hfeed

end Crc
