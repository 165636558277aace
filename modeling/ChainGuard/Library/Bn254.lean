import Mathlib.Tactic.ReduceModChar
import ChainGuard.Library.PrimeCertificates
import ChainGuard.Library.MordellCurves
import Mathlib.Algebra.Polynomial.OfFn
import Mathlib.Algebra.QuadraticAlgebra.Basic
import Mathlib.NumberTheory.LegendreSymbol.Basic

/-! The curve BN254, `y² = x³ + 3` over its prime field, and the encoding of its points as pairs of
numbers: an affine point as its coordinates, the point at infinity as two zeros. -/
namespace Bn254
set_option autoImplicit false

/-! ## The field -/

/-- The order of the base field. -/
def fieldModulus : ℕ := 21888242871839275222246405745257275088696311157297823662689037894645226208583

def groupOrder : ℕ := 21888242871839275222246405745257275088548364400416034343698204186575808495617

theorem prime_fieldModulus : fieldModulus.Prime := by
  refine Lucas.prime_of_table [2, 3, 5, 7, 11, 13, 19, 29, 41, 67, 73, 89, 229, 311, 911, 983, 3557, 3691, 4999,
    11003, 13327, 327599, 1853641, 4562087] ?_
    ⟨fieldModulus, 3, [2, 3, 3, 13, 29, 67, 229, 311, 983, 11003, 405928799, 11465965001, 13427688667394608761327070753331941386769]⟩
    [⟨13427688667394608761327070753331941386769, 17, [2, 2, 2, 2, 3, 7, 11, 1853641, 4562087, 173171039,
        2480874801745591]⟩,
      ⟨2480874801745591, 6, [2, 3, 3, 5, 19, 41, 35385462869]⟩,
      ⟨35385462869, 2, [2, 2, 7, 1263766531]⟩,
      ⟨1263766531, 10, [2, 3, 5, 13, 911, 3557]⟩,
      ⟨173171039, 13, [2, 73, 89, 13327]⟩,
      ⟨11465965001, 3, [2, 2, 2, 5, 5, 5, 5, 7, 327599]⟩,
      ⟨405928799, 22, [2, 11, 3691, 4999]⟩] (by decide +kernel)
  simp only [List.forall_mem_cons]
  norm_num

instance : Fact fieldModulus.Prime := ⟨prime_fieldModulus⟩

abbrev Fp := ZMod fieldModulus

/-! ## The curve -/

/-- The coordinates satisfy the equation of the curve modulo `m`, and are reduced. -/
def CurvePoint (m x y : ℕ) : Prop := x < m ∧ y < m ∧ y ^ 2 ≡ x ^ 3 + 3 [MOD m]

instance (m x y : ℕ) : Decidable (CurvePoint m x y) :=
  inferInstanceAs (Decidable (_ ∧ _ ∧ y ^ 2 % m = (x ^ 3 + 3) % m))

def curve : WeierstrassCurve.Affine Fp := { a₁ := 0, a₂ := 0, a₃ := 0, a₄ := 0, a₆ := 3 }

abbrev G1 := curve.Point

theorem isMordell_curve : MordellCurve.IsMordell curve where
  a₁ := rfl
  a₂ := rfl
  a₃ := rfl
  a₄ := rfl
  a₆ := show (3 : Fp) ≠ 0 by decide
  two := by decide
  three := by decide

theorem nonsingular_iff {x y : Fp} : curve.Nonsingular x y ↔ y ^ 2 = x ^ 3 + 3 := isMordell_curve.nonsingular_iff

theorem cast_equation_iff {x y : ℕ} :
    (y : Fp) ^ 2 = (x : Fp) ^ 3 + 3 ↔ y ^ 2 ≡ x ^ 3 + 3 [MOD fieldModulus] := by
  rw [← ZMod.natCast_eq_natCast_iff]
  push_cast
  rfl

/-- No second coordinate is zero: the negative of three is no cube. -/
theorem second_ne_zero {x y : Fp} (h : y ^ 2 = x ^ 3 + 3) : y ≠ 0 := by
  rintro rfl
  have hcube : x ^ 3 = -3 := by linear_combination -h
  have hx : x ≠ 0 := by
    rintro rfl
    exact absurd hcube (by decide +kernel)
  have hpower : (-3 : Fp) ^ ((fieldModulus - 1) / 3) = 1 := by
    have hexponent : 3 * ((fieldModulus - 1) / 3) = fieldModulus - 1 := by decide
    rw [← hcube, ← pow_mul, hexponent]
    exact ZMod.pow_card_sub_one_eq_one hx
  refine absurd hpower ?_
  unfold Fp fieldModulus
  reduce_mod_char
  decide

/-! ## Points as pairs of numbers -/

/-- The encoding of a point. -/
def coords : G1 → ℕ × ℕ
  | .zero => (0, 0)
  | .some x y _ => (x.val, y.val)

/-- The affine point with these coordinates. -/
def mk {x y : ℕ} (h : CurvePoint fieldModulus x y) : G1 :=
  .some (x : Fp) (y : Fp) (nonsingular_iff.mpr (cast_equation_iff.mpr h.2.2))

/-- The point that a pair of numbers encodes. -/
def point? (w : ℕ × ℕ) : Option G1 :=
  if w = (0, 0) then some 0
  else if h : CurvePoint fieldModulus w.1 w.2 then some (mk h) else none

theorem coords_mk {x y : ℕ} (h : CurvePoint fieldModulus x y) : coords (mk h) = (x, y) := by
  show ((x : Fp).val, (y : Fp).val) = (x, y)
  rw [ZMod.val_natCast_of_lt h.1, ZMod.val_natCast_of_lt h.2.1]

@[simp] theorem coords_zero : coords 0 = (0, 0) := rfl

theorem curvePoint_origin : ¬ CurvePoint fieldModulus 0 0 := by
  decide

theorem eq_zero_or_mk (Q : G1) : Q = 0 ∨ ∃ x y, ∃ h : CurvePoint fieldModulus x y, Q = mk h := by
  cases Q with
  | zero => exact Or.inl rfl
  | some x y hxy =>
    have hequation : (y.val : Fp) ^ 2 = (x.val : Fp) ^ 3 + 3 := by
      rw [ZMod.natCast_zmod_val, ZMod.natCast_zmod_val]
      exact nonsingular_iff.mp hxy
    have hpoint : CurvePoint fieldModulus x.val y.val :=
      ⟨ZMod.val_lt x, ZMod.val_lt y, cast_equation_iff.mp hequation⟩
    refine Or.inr ⟨x.val, y.val, hpoint, ?_⟩
    unfold mk
    congr 1
    · rw [ZMod.natCast_zmod_val]
    · rw [ZMod.natCast_zmod_val]

theorem coords_eq_zero {Q : G1} : coords Q = (0, 0) ↔ Q = 0 := by
  rcases eq_zero_or_mk Q with rfl | ⟨x, y, h, rfl⟩
  · exact iff_of_true rfl rfl
  · refine iff_of_false ?_ ?_
    · intro heq
      rw [coords_mk, Prod.mk.injEq] at heq
      obtain ⟨rfl, rfl⟩ := heq
      exact curvePoint_origin h
    · intro heq
      cases heq

theorem curvePoint_coords {Q : G1} (hne : Q ≠ 0) : CurvePoint fieldModulus (coords Q).1 (coords Q).2 := by
  rcases eq_zero_or_mk Q with rfl | ⟨x, y, h, rfl⟩
  · exact absurd rfl hne
  · rw [coords_mk]
    exact h

theorem coords_lt (Q : G1) : (coords Q).1 < fieldModulus ∧ (coords Q).2 < fieldModulus := by
  rcases eq_zero_or_mk Q with rfl | ⟨x, y, h, rfl⟩
  · exact ⟨prime_fieldModulus.pos, prime_fieldModulus.pos⟩
  · rw [coords_mk]
    exact ⟨h.1, h.2.1⟩

/-- The encoding is read back. -/
theorem point?_eq_some {w : ℕ × ℕ} {Q : G1} : point? w = some Q ↔ coords Q = w := by
  unfold point?
  split
  · next hzero =>
    rw [hzero, Option.some.injEq, coords_eq_zero, eq_comm]
  · next hne =>
    split
    · next h =>
      constructor
      · rintro ⟨rfl⟩
        exact coords_mk h
      · intro heq
        rcases eq_zero_or_mk Q with rfl | ⟨x, y, h', rfl⟩
        · exact absurd heq.symm hne
        · rw [coords_mk] at heq
          subst heq
          rfl
    · next h =>
      refine iff_of_false (fun hnone => by cases hnone) ?_
      intro heq
      refine h ?_
      rw [← heq]
      refine curvePoint_coords ?_
      rintro rfl
      exact hne heq.symm

/-! The twist of BN254, the curve of the second group: `y² = x³ + 3 / (9 + i)` over the extension of the base
field by a root `i` of `-1`. -/

/-- The extension, as the pairs of real and imaginary parts. -/
abbrev Fp2 := QuadraticAlgebra Fp (-1) 0

/-- `9 + i` -/
def xi : Fp2 := ⟨9, 1⟩

/-- `3 / (9 + i)` -/
def twistConstant : Fp2 :=
  ⟨19485874751759354771024239261021720505790618469301721065564631296452457478373,
    266929791119991161246907387137283842545076965332900288569378510910307636690⟩

/-- The points of the twist. -/
inductive Twist
  | zero
  | some (x y : Fp2) (h : y ^ 2 = x ^ 3 + twistConstant)

def Twist.coords : Twist → (ℕ × ℕ) × (ℕ × ℕ)
  | .zero => ((0, 0), (0, 0))
  | .some x y _ => ((x.re.val, x.im.val), (y.re.val, y.im.val))

/-- The point over these four numbers, each coordinate as its two parts, is reduced and on the twist. -/
structure TwistPoint (w : (ℕ × ℕ) × (ℕ × ℕ)) : Prop where
  xre : w.1.1 < fieldModulus
  xim : w.1.2 < fieldModulus
  yre : w.2.1 < fieldModulus
  yim : w.2.2 < fieldModulus
  equation : xi * (⟨w.2.1, w.2.2⟩ : Fp2) ^ 2 = xi * (⟨w.1.1, w.1.2⟩ : Fp2) ^ 3 + 3

theorem xi_mul_twistConstant : xi * twistConstant = 3 := by
  refine QuadraticAlgebra.ext ?_ ?_
  · rw [QuadraticAlgebra.re_mul]
    decide +kernel
  · rw [QuadraticAlgebra.im_mul]
    decide +kernel

/-- `9 + i` has an inverse. -/
theorem xi_cancel {a b : Fp2} (h : xi * a = xi * b) : a = b := by
  have hunit : (⟨9 / 82, -1 / 82⟩ : Fp2) * xi = 1 := by
    refine QuadraticAlgebra.ext ?_ ?_
    · rw [QuadraticAlgebra.re_mul]
      decide +kernel
    · rw [QuadraticAlgebra.im_mul]
      decide +kernel
  calc a = (⟨9 / 82, -1 / 82⟩ : Fp2) * (xi * a) := by rw [← mul_assoc, hunit, one_mul]
    _ = (⟨9 / 82, -1 / 82⟩ : Fp2) * (xi * b) := by rw [h]
    _ = b := by rw [← mul_assoc, hunit, one_mul]

theorem twist_equation_iff {x y : Fp2} : xi * y ^ 2 = xi * x ^ 3 + 3 ↔ y ^ 2 = x ^ 3 + twistConstant := by
  rw [← xi_mul_twistConstant, ← mul_add]
  exact ⟨xi_cancel, fun h => by rw [h]⟩

/-- Such numbers are the coordinates of a point. -/
def TwistPoint.point {w : (ℕ × ℕ) × (ℕ × ℕ)} (h : TwistPoint w) : Twist :=
  .some ⟨w.1.1, w.1.2⟩ ⟨w.2.1, w.2.2⟩ (twist_equation_iff.mp h.equation)

theorem TwistPoint.coords_point {w : (ℕ × ℕ) × (ℕ × ℕ)} (h : TwistPoint w) : h.point.coords = w := by
  rw [point, Twist.coords, ZMod.val_natCast_of_lt h.xre, ZMod.val_natCast_of_lt h.xim, ZMod.val_natCast_of_lt h.yre,
    ZMod.val_natCast_of_lt h.yim]

theorem fp2_val (x : Fp2) : (⟨(x.re.val : Fp), (x.im.val : Fp)⟩ : Fp2) = x := by
  rw [ZMod.natCast_zmod_val, ZMod.natCast_zmod_val]

theorem twistPoint_coords {x y : Fp2} (h : y ^ 2 = x ^ 3 + twistConstant) :
    TwistPoint (Twist.some x y h).coords where
  xre := ZMod.val_lt x.re
  xim := ZMod.val_lt x.im
  yre := ZMod.val_lt y.re
  yim := ZMod.val_lt y.im
  equation := by
    rw [Twist.coords]
    dsimp only
    rw [fp2_val, fp2_val]
    exact twist_equation_iff.mpr h

theorem twistPoint_origin : ¬ TwistPoint ((0, 0), (0, 0)) := by
  intro h
  have hequation := congrArg QuadraticAlgebra.re (twist_equation_iff.mp h.equation)
  revert hequation
  decide +kernel

/-- A point is known by its coordinates. -/
theorem Twist.coords_injective {Q R : Twist} (h : Q.coords = R.coords) : Q = R := by
  cases Q with
  | zero =>
    cases R with
    | zero => rfl
    | some x y hxy =>
      have hpoint := twistPoint_coords hxy
      rw [← h] at hpoint
      exact absurd hpoint twistPoint_origin
  | some x y hxy =>
    cases R with
    | zero =>
      have hpoint := twistPoint_coords hxy
      rw [h] at hpoint
      exact absurd hpoint twistPoint_origin
    | some x' y' hxy' =>
      simp only [coords, Prod.mk.injEq] at h
      obtain rfl : x = x' := by
        rw [← fp2_val x, h.1.1, h.1.2, fp2_val]
      obtain rfl : y = y' := by
        rw [← fp2_val y, h.2.1, h.2.2, fp2_val]
      rfl

/-! The extensions of the base field of BN254: the quadratic one is a field, the twist is a curve over it, and the
field of the pairing adjoins a sixth root of `9 + i`. -/
open Polynomial
/-! ## The quadratic extension -/

/-- The modulus is three modulo four, so `-1` is no square. -/
instance fact_no_root : Fact (∀ r : Fp, r ^ 2 ≠ -1 + 0 * r) := ⟨fun r h => by
  have hsquare : IsSquare (-1 : Fp) := ⟨r, by rw [← pow_two, h, zero_mul, add_zero]⟩
  exact absurd (ZMod.exists_sq_eq_neg_one_iff.mp hsquare) (by decide)⟩

theorem norm_eq (x : Fp2) : x.norm = x.re * x.re + x.im * x.im := by
  rw [QuadraticAlgebra.norm_def]
  ring

theorem inv_eq (x : Fp2) :
    x⁻¹ = ⟨x.re * (x.re * x.re + x.im * x.im)⁻¹, -x.im * (x.re * x.re + x.im * x.im)⁻¹⟩ := by
  rw [QuadraticAlgebra.inv_def, norm_eq]
  refine QuadraticAlgebra.ext ?_ ?_
  · rw [QuadraticAlgebra.re_smul, QuadraticAlgebra.re_star, smul_eq_mul]
    ring
  · rw [QuadraticAlgebra.im_smul, QuadraticAlgebra.im_star, smul_eq_mul]
    ring

/-! ## The curve of the twist -/

def twistCurve : WeierstrassCurve.Affine Fp2 := { a₁ := 0, a₂ := 0, a₃ := 0, a₄ := 0, a₆ := twistConstant }

/-- The second group. -/
abbrev G2 := twistCurve.Point

theorem isMordell_twist : MordellCurve.IsMordell twistCurve where
  a₁ := rfl
  a₂ := rfl
  a₃ := rfl
  a₄ := rfl
  a₆ := show twistConstant ≠ 0 by decide
  two := by decide
  three := by decide

/-- A point of the group is one of the twist. -/
def G2.toTwist : G2 → Twist
  | .zero => .zero
  | .some x y h => .some x y (isMordell_twist.nonsingular_iff.mp h)

/-! ## The field of the pairing -/

/-- `w⁶ = 9 + i` -/
noncomputable def towerPolynomial : Fp2[X] := X ^ 6 - C xi

abbrev Fp12 := AdjoinRoot towerPolynomial

theorem root_pow_six : (AdjoinRoot.root towerPolynomial) ^ 6 = AdjoinRoot.of towerPolynomial xi := by
  have hroot := AdjoinRoot.eval₂_root towerPolynomial
  rw [towerPolynomial, eval₂_sub, eval₂_pow, eval₂_X, eval₂_C] at hroot
  exact sub_eq_zero.mp hroot

/-- The element with these coefficients of the powers of the root. -/
noncomputable def ofCoefficients (c : Fin 6 → Fp2) : Fp12 :=
  ∑ i, AdjoinRoot.of towerPolynomial (c i) * AdjoinRoot.root towerPolynomial ^ (i : ℕ)

theorem ofCoefficients_eq (c : Fin 6 → Fp2) : ofCoefficients c = AdjoinRoot.mk towerPolynomial (ofFn 6 c) := by
  rw [ofFn_eq_sum_monomial, map_sum]
  refine Finset.sum_congr rfl fun i _ => ?_
  rw [← C_mul_X_pow_eq_monomial, map_mul, map_pow, AdjoinRoot.mk_C, AdjoinRoot.mk_X]

theorem ofCoefficients_injective : Function.Injective ofCoefficients := by
  intro c d h
  rw [ofCoefficients_eq, ofCoefficients_eq] at h
  have hdegree : towerPolynomial.degree = 6 := degree_X_pow_sub_C (by decide) xi
  have hsmall : (ofFn 6 c - ofFn 6 d).degree < towerPolynomial.degree := by
    rw [hdegree]
    exact (degree_sub_le _ _).trans_lt (max_lt (ofFn_degree_lt c) (ofFn_degree_lt d))
  have hequal : ofFn 6 c - ofFn 6 d = 0 := eq_zero_of_dvd_of_degree_lt (AdjoinRoot.mk_eq_mk.mp h) hsmall
  funext i
  have hcoeff := congrArg (fun q => q.coeff i) (sub_eq_zero.mp hequal)
  simpa only [ofFn_coeff_eq_val_of_lt _ i.isLt] using hcoeff

theorem ofCoefficients_surjective : Function.Surjective ofCoefficients := by
  intro z
  obtain ⟨q, rfl⟩ := AdjoinRoot.mk_surjective z
  have hmonic : towerPolynomial.Monic := monic_X_pow_sub_C xi (by decide)
  have hdegree : towerPolynomial.natDegree = 6 := natDegree_X_pow_sub_C
  have hone : towerPolynomial ≠ 1 := by
    intro hone
    rw [hone, natDegree_one] at hdegree
    exact absurd hdegree (by decide)
  have hsmall : (q %ₘ towerPolynomial).natDegree < 6 := hdegree ▸ natDegree_modByMonic_lt q hmonic hone
  refine ⟨toFn 6 (q %ₘ towerPolynomial), ?_⟩
  rw [ofCoefficients_eq, ofFn_comp_toFn_eq_id_of_natDegree_lt hsmall, AdjoinRoot.mk_eq_mk]
  refine ⟨-(q /ₘ towerPolynomial), ?_⟩
  rw [modByMonic_eq_sub_mul_div]
  ring

noncomputable def coefficientsEquiv : (Fin 6 → Fp2) ≃ Fp12 :=
  Equiv.ofBijective ofCoefficients ⟨ofCoefficients_injective, ofCoefficients_surjective⟩

end Bn254
