import Mathlib.AlgebraicGeometry.EllipticCurve.Affine.Point

/-! Curves `y² = x³ + c` over a field where neither two nor three is zero: the points of the equation, and the
formulas of the group. -/
namespace MordellCurve
open WeierstrassCurve.Affine (Point)
set_option autoImplicit false

variable {K : Type} [Field K] {W : WeierstrassCurve.Affine K}

/-- The equation is `y² = x³ + c` for the last coefficient, and the curve has no singular point. -/
structure IsMordell (W : WeierstrassCurve.Affine K) : Prop where
  a₁ : W.a₁ = 0
  a₂ : W.a₂ = 0
  a₃ : W.a₃ = 0
  a₄ : W.a₄ = 0
  a₆ : W.a₆ ≠ 0
  two : (2 : K) ≠ 0
  three : (3 : K) ≠ 0

namespace IsMordell
variable (hW : IsMordell W)
include hW

theorem equation_iff {x y : K} : W.Equation x y ↔ y ^ 2 = x ^ 3 + W.a₆ := by
  rw [WeierstrassCurve.Affine.equation_iff, hW.a₁, hW.a₂, hW.a₃, hW.a₄]
  simp only [zero_mul, add_zero]

theorem discriminant_ne : W.Δ ≠ 0 := by
  have hΔ : W.Δ = -(2 ^ 4 * 3 ^ 3 * W.a₆ ^ 2) := by
    simp only [WeierstrassCurve.Δ, WeierstrassCurve.b₂, WeierstrassCurve.b₄, WeierstrassCurve.b₆,
      WeierstrassCurve.b₈, hW.a₁, hW.a₂, hW.a₃, hW.a₄]
    ring
  rw [hΔ, neg_ne_zero]
  exact mul_ne_zero (mul_ne_zero (pow_ne_zero 4 hW.two) (pow_ne_zero 3 hW.three)) (pow_ne_zero 2 hW.a₆)

theorem nonsingular_iff {x y : K} : W.Nonsingular x y ↔ y ^ 2 = x ^ 3 + W.a₆ := by
  rw [← WeierstrassCurve.Affine.equation_iff_nonsingular_of_Δ_ne_zero hW.discriminant_ne, hW.equation_iff]

theorem negY_eq (x y : K) : W.negY x y = -y := by
  rw [WeierstrassCurve.Affine.negY, hW.a₁, hW.a₃, zero_mul, sub_zero, sub_zero]

theorem addX_eq (x x' m : K) : W.addX x x' m = m * m - x - x' := by
  rw [WeierstrassCurve.Affine.addX, hW.a₁, hW.a₂]
  ring

theorem addY_eq (x y x' m : K) : W.addY x x' y m = -m * (m * m - x - x') + m * x - y := by
  rw [WeierstrassCurve.Affine.addY, WeierstrassCurve.Affine.negAddY, hW.negY_eq, hW.addX_eq]
  ring

/-- Points over one first coordinate are equal or opposite. -/
theorem opposite {x y y' : K} (h : W.Nonsingular x y) (h' : W.Nonsingular x y') (hne : y ≠ y') :
    y = W.negY x y' := by
  rw [hW.negY_eq]
  have hsquares : (y - y') * (y + y') = 0 := by
    linear_combination hW.nonsingular_iff.mp h - hW.nonsingular_iff.mp h'
  exact eq_neg_of_add_eq_zero_left ((mul_eq_zero.mp hsquares).resolve_left (sub_ne_zero.mpr hne))

theorem ne_negY {x y : K} (hy : y ≠ 0) : y ≠ W.negY x y := by
  rw [hW.negY_eq]
  intro heq
  have hdouble : 2 * y = 0 := by linear_combination heq
  exact mul_ne_zero hW.two hy hdouble

variable [DecidableEq K]

theorem tangent_eq {x y : K} (hy : y ≠ 0) : W.slope x x y y = 3 * (x * x) * (2 * y)⁻¹ := by
  rw [WeierstrassCurve.Affine.slope_of_Y_ne rfl (hW.ne_negY hy), hW.negY_eq, hW.a₁, hW.a₂, hW.a₄, div_eq_mul_inv,
    sub_neg_eq_add, ← two_mul, pow_two]
  simp only [mul_zero, zero_mul, add_zero, sub_zero]

omit hW in
theorem chord_eq {x y x' y' : K} (hx : x ≠ x') : W.slope x x' y y' = (y' - y) * (x' - x)⁻¹ := by
  rw [WeierstrassCurve.Affine.slope_of_X_ne hx, ← div_eq_mul_inv, ← neg_sub y, ← neg_sub x, neg_div_neg_eq]

/-- A point whose second coordinate is zero is its own opposite. -/
theorem add_self_of_zero {x y : K} {h : W.Nonsingular x y} (hy : y = 0) : Point.some x y h + .some x y h = 0 := by
  refine Point.add_self_of_Y_eq ?_
  rw [hW.negY_eq, hy, neg_zero]

end IsMordell

end MordellCurve
