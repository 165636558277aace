import Mathlib.NumberTheory.LegendreSymbol.Basic
import Mathlib.Tactic.ReduceModChar
import ChainGuard.Library.Edwards
import ChainGuard.Library.PrimeCertificates

/-! The field of `2^255 - 19` elements, its square roots, and the group of edwards25519. -/
namespace Edwards25519
set_option autoImplicit false

/-! ## The field -/

def p : ℕ := 57896044618658097711785492504343953926634992332820282019728792003956564819949

theorem prime_p : Nat.Prime p := by
  refine Lucas.prime_of_table [2, 3, 5, 7, 13, 19, 31, 43, 47, 103, 107, 127, 223, 353, 991, 2437, 3727, 4153, 57467,
    65147, 75707, 132049, 430751, 569003] ?_
    ⟨p, 2, [2, 2, 3, 65147, 74058212732561358302231226437062788676166966415465897661863160754340907]⟩
    [⟨74058212732561358302231226437062788676166966415465897661863160754340907, 2, [2, 3, 353, 57467, 132049, 1923133,
        31757755568855353, 75445702479781427272750846543864801]⟩,
      ⟨1923133, 2, [2, 2, 3, 43, 3727]⟩,
      ⟨31757755568855353, 10, [2, 2, 2, 3, 31, 107, 223, 4153, 430751]⟩,
      ⟨75445702479781427272750846543864801, 7, [2, 2, 2, 2, 2, 3, 3, 5, 5, 75707, 72106336199, 1919519569386763]⟩,
      ⟨1919519569386763, 2, [2, 3, 7, 19, 47, 47, 127, 8574133]⟩,
      ⟨8574133, 2, [2, 2, 3, 7, 103, 991]⟩,
      ⟨72106336199, 7, [2, 13, 2773320623]⟩,
      ⟨2773320623, 5, [2, 2437, 569003]⟩] (by decide +kernel)
  simp only [List.forall_mem_cons]
  norm_num

instance : Fact p.Prime := ⟨prime_p⟩

abbrev Fp := ZMod p

/-! ## Square roots -/

/-- A square root of `-1`. -/
def sqrtM1 : Fp := 19681161376707505956807079304988542015446066515923890162744021073123829784752

theorem sqrtM1_sq : sqrtM1 ^ 2 = -1 := by
  decide +kernel

/-- As the order is 5 modulo 8, a power of a square is a root of it, or one times `sqrtM1`. -/
theorem sqrt_of_square {x : Fp} (hx : IsSquare x) :
    (x ^ ((p + 3) / 8)) ^ 2 = x ∨ (x ^ ((p + 3) / 8) * sqrtM1) ^ 2 = x := by
  by_cases hzero : x = 0
  · subst hzero
    left
    rw [zero_pow (by decide), zero_pow two_ne_zero]
  have heuler : x ^ (p / 2) = 1 := (ZMod.euler_criterion p hzero).mp hx
  have hquarter : (x ^ (p / 4)) ^ 2 = 1 := by
    rw [← pow_mul, show p / 4 * 2 = p / 2 by decide, heuler]
  have hroot : (x ^ ((p + 3) / 8)) ^ 2 = x * x ^ (p / 4) := by
    rw [← pow_mul, ← pow_succ', show (p + 3) / 8 * 2 = p / 4 + 1 by decide]
  rcases sq_eq_one_iff.mp hquarter with hone | hminus
  · left
    rw [hroot, hone, mul_one]
  · right
    rw [mul_pow, hroot, hminus, sqrtM1_sq]
    ring

/-! ## The curve -/

/-- `-121665 / 121666`. -/
def d : Fp := 37095705934669439343138083508754565189542113879843219016388785533085940283555

theorem d_nonsquare : ¬ IsSquare d := by
  have hne : d ≠ 0 := by decide +kernel
  rw [ZMod.euler_criterion p hne]
  have hpow : d ^ (p / 2) = -1 := by
    unfold d Fp p
    reduce_mod_char
  rw [hpow]
  decide +kernel

def parameters : Edwards.Parameters Fp where
  a := -1
  d := d
  root := sqrtM1
  root_sq := sqrtM1_sq
  root_ne := by decide +kernel
  two_ne := by decide +kernel
  d_nonsquare := d_nonsquare

@[simp] theorem parameters_a : parameters.a = -1 := rfl
@[simp] theorem parameters_d : parameters.d = d := rfl

abbrev Point := Edwards.Point parameters

/-! ## The abscissa of an ordinate -/

theorem den_ne (y : Fp) : d * (y * y) + 1 ≠ 0 := by
  intro hzero
  have hy : y ≠ 0 := by
    rintro rfl
    simp at hzero
  refine d_nonsquare ⟨sqrtM1 * y⁻¹, ?_⟩
  have hroot := sqrtM1_sq
  field_simp
  linear_combination hzero - hroot

/-- What the square of the abscissa must be. -/
def xSquared (y : Fp) : Fp := (y * y - 1) * (d * (y * y) + 1)⁻¹

theorem on_curve_iff {x y : Fp} : Edwards.OnCurve parameters x y ↔ x * x = xSquared y := by
  rw [xSquared, ← div_eq_mul_inv, eq_div_iff (den_ne y), Edwards.OnCurve, parameters_a, parameters_d]
  constructor
  · intro h
    linear_combination -h
  · intro h
    linear_combination -h

theorem neg_val_parity {x : Fp} (hx : x ≠ 0) : (-x).val % 2 ≠ x.val % 2 := by
  have hlt : x.val < p := ZMod.val_lt x
  have hodd : p % 2 = 1 := by decide
  rw [ZMod.neg_val, if_neg hx]
  omega

theorem eq_of_sq_of_parity {x x' : Fp} (hsq : x * x = x' * x') (hparity : x.val % 2 = x'.val % 2) :
    x = x' := by
  rcases mul_self_eq_mul_self_iff.mp hsq with heq | hneg
  · exact heq
  · by_cases hzero : x' = 0
    · rw [hneg, hzero, neg_zero]
    · rw [hneg] at hparity
      exact absurd hparity (neg_val_parity hzero)

end Edwards25519
