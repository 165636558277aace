import ChainGuard.Soroban.Bn254Codec

/-! The operations of `zk_verifier` on reduced elements: the points of both groups, the quadratic extension and the field
of the pairing. -/
namespace ChainGuard.Soroban.ZkVerifier
open Bn254 hiding Fp
open Fp (mont)
set_option autoImplicit false

/-! ## The quadratic extension -/

namespace Fq2

/-- Both parts are reduced. -/
def Canonical (a : Fq2) : Prop := a.re.Canonical ∧ a.im.Canonical

theorem canonical_iff {a : Fq2} : a.Canonical ↔ ∃ x, mont x = a := by
  constructor
  · rintro ⟨hre, him⟩
    refine ⟨⟨a.re.value, a.im.value⟩, ?_⟩
    rw [mont, ← hre.eq_mont, ← him.eq_mont]
  · rintro ⟨x, rfl⟩
    exact ⟨Fp.mont_lt _, Fp.mont_lt _⟩

theorem zero_eq : zero = mont 0 := by
  rw [zero, Fp.zero_eq]
  rfl

theorem isZero_mont {x : Fp2} : isZero (mont x) = true ↔ x = 0 := by
  rw [isZero, Bool.and_eq_true, mont, Fp.isZero_mont, Fp.isZero_mont, QuadraticAlgebra.ext_iff]
  rfl

theorem sub_mont (x y : Fp2) : sub (mont x) (mont y) = mont (x - y) := by
  simp only [sub, mont, Fp.sub_mont]
  rfl

/-- The negation, which need not be reduced, in a product. -/
theorem neg_mul_mont (x y : Fp2) : mul (neg (mont x)) (mont y) = mont (-x * y) := by
  simp only [mul, neg, mont, Fp.neg_mul_mont, Fp.sub_mont, Fp.add_mont, mk.injEq, Fp.mont_inj, QuadraticAlgebra.re_mul,
    QuadraticAlgebra.im_mul, QuadraticAlgebra.re_neg, QuadraticAlgebra.im_neg]
  constructor <;> ring

theorem inv_mont (x : Fp2) : inv (mont x) = mont x⁻¹ := by
  rw [inv_eq]
  simp only [inv, mont, Fp.sqr_mont, Fp.add_mont, Fp.inv_mont, Fp.mul_mont, Fp.neg_mul_mont]

theorem fromReal_mont (v : UInt64) : (⟨.fromU64 v, .zero⟩ : Fq2) = mont (v.toNat : Fp2) := by
  rw [Fp.fromU64_eq, Fp.zero_eq, mont, mk.injEq, Fp.mont_inj, Fp.mont_inj]
  exact ⟨(QuadraticAlgebra.re_natCast _).symm, (QuadraticAlgebra.im_natCast _).symm⟩

theorem forms : FieldForms twistCurve mont where
  injective _ _ h := mont_inj.mp h
  isZero := isZero_mont
  add := add_mont
  sub := sub_mont
  mul := mul_mont
  sqr x := by rw [← pow_two]; exact sqr_mont x
  neg_mul := neg_mul_mont
  inv _ := inv_mont _
  two := fromReal_mont 2
  three := fromReal_mont 3
  b := twistB_eq

end Fq2

/-! ## The field of the pairing -/

theorem beta_eq : beta = .mont xi := by
  rw [beta, Fp.fromU64_eq, Fp.fromU64_eq, Fq2.mont, Fq2.mk.injEq, Fp.mont_inj, Fp.mont_inj]
  exact ⟨rfl, Nat.cast_one⟩

namespace Fq12

def Canonical (a : Fq12) : Prop := a.coefficients.length = 6 ∧ ∀ c ∈ a.coefficients, c.Canonical

def form (c : Fin 6 → Fp2) : Fq12 := ⟨List.ofFn fun i => .mont (c i)⟩

/-- The form of an element of the field of the pairing. -/
noncomputable def mont (z : Fp12) : Fq12 := form (coefficientsEquiv.symm z)

theorem mont_injective : Function.Injective mont := by
  intro y z h
  rw [mont, mont, form, form, mk.injEq, List.ofFn_inj] at h
  have hcoefficients : coefficientsEquiv.symm y = coefficientsEquiv.symm z :=
    funext fun i => Fq2.mont_inj.mp (congrFun h i)
  exact coefficientsEquiv.symm.injective hcoefficients

theorem canonical_iff {a : Fq12} : a.Canonical ↔ ∃ z, mont z = a := by
  constructor
  · obtain ⟨coefficients⟩ := a
    rintro ⟨hlength, hall⟩
    have hcoefficient : ∀ i : Fin 6, ∃ x, Fq2.mont x = coefficients.get (i.cast hlength.symm) := fun i =>
      Fq2.canonical_iff.mp (hall _ (List.get_mem _ _))
    choose c hc using hcoefficient
    refine ⟨coefficientsEquiv c, ?_⟩
    rw [mont, Equiv.symm_apply_apply, form, mk.injEq]
    refine List.ext_getElem (by rw [List.length_ofFn, hlength]) fun i hi hi' => ?_
    rw [List.getElem_ofFn, hc]
    rfl
  · rintro ⟨z, rfl⟩
    refine ⟨List.length_ofFn, fun c hc => ?_⟩
    obtain ⟨i, rfl⟩ := (List.mem_ofFn' _ _).mp hc
    exact Fq2.canonical_iff.mpr ⟨_, rfl⟩

/-- The sum of the products of coefficients whose places add up to `k`. -/
def term (c d : Fin 6 → Fp2) (k : ℕ) : Fp2 :=
  (List.range 6).foldl (fun t i =>
    if i ≤ k ∧ k < i + 6 then t + (List.ofFn c).getD i 0 * (List.ofFn d).getD (k - i) 0 else t) 0

theorem getD_form (c : Fin 6 → Fp2) (i : ℕ) : (form c).coefficients.getD i .zero = .mont ((List.ofFn c).getD i 0) := by
  have hmap : (form c).coefficients = (List.ofFn c).map .mont := by
    rw [List.map_ofFn]
    rfl
  rw [hmap, Fq2.zero_eq, List.getD_map]

theorem convolution_form (c d : Fin 6 → Fp2) (k : ℕ) :
    convolution (form c).coefficients (form d).coefficients k = .mont (term c d k) := by
  refine (congrArg (fun start => List.foldl _ start (List.range 6)) Fq2.zero_eq).trans
    (List.foldl_hom Fq2.mont fun t i => ?_)
  by_cases h : i ≤ k ∧ k < i + 6
  · rw [if_pos h, if_pos h, getD_form, getD_form, Fq2.mul_mont, Fq2.add_mont]
  · rw [if_neg h, if_neg h]

/-- The coefficients of the product, after the reduction. -/
def product (c d : Fin 6 → Fp2) (k : Fin 6) : Fp2 :=
  if k = 5 then term c d 5 else term c d k + term c d (k + 6) * xi

theorem mul_form (c d : Fin 6 → Fp2) : mul (form c) (form d) = form (product c d) := by
  rw [mul]
  simp only [convolution_form, beta_eq, Fq2.mul_mont, Fq2.add_mont]
  rfl

theorem ofCoefficients_mul (c d : Fin 6 → Fp2) : ofCoefficients c * ofCoefficients d =
    ∑ k ∈ Finset.range 11, AdjoinRoot.of towerPolynomial (term c d k) * AdjoinRoot.root towerPolynomial ^ k := by
  have hrange : List.range 6 = [0, 1, 2, 3, 4, 5] := rfl
  simp [ofCoefficients, Fin.sum_univ_six, Finset.sum_range_succ, term, hrange]
  ring

/-- The high powers of the root are folded onto the low ones. -/
theorem ofCoefficients_product (c d : Fin 6 → Fp2) :
    ofCoefficients (product c d) = ofCoefficients c * ofCoefficients d := by
  have hhigh : ∀ k, AdjoinRoot.of towerPolynomial (term c d (6 + k)) * AdjoinRoot.root towerPolynomial ^ (6 + k) =
      AdjoinRoot.of towerPolynomial (term c d (k + 6) * xi) * AdjoinRoot.root towerPolynomial ^ k := fun k => by
    rw [pow_add, root_pow_six, map_mul, Nat.add_comm 6 k]
    ring
  have hsplit : Finset.range 11 = Finset.range (6 + 5) := rfl
  rw [ofCoefficients_mul, hsplit, Finset.sum_range_add, Finset.sum_congr rfl fun k _ => hhigh k]
  simp [ofCoefficients, Fin.sum_univ_six, Finset.sum_range_succ, product]
  ring

theorem mul_mont (y z : Fp12) : mul (mont y) (mont z) = mont (y * z) := by
  have hproduct : coefficientsEquiv.symm (y * z) = product (coefficientsEquiv.symm y) (coefficientsEquiv.symm z) := by
    rw [Equiv.symm_apply_eq]
    show y * z = ofCoefficients (product _ _)
    rw [ofCoefficients_product]
    show y * z = coefficientsEquiv _ * coefficientsEquiv _
    rw [Equiv.apply_symm_apply, Equiv.apply_symm_apply]
  rw [mont, mont, mont, mul_form, hproduct]

end Fq12

/-! ## Points -/

/-- The point at infinity, or reduced coordinates that the source finds on the curve. -/
def Affine.IsPoint {F : Type} [Coordinates F] [DecidableEq F] (canonical : F → Prop) (P : Affine F) : Prop :=
  P = .atInfinity ∨ P.infinity = false ∧ canonical P.x ∧ canonical P.y ∧ P.isOnCurve = true

/-- The points are the elements of a group, and the operations are those of the group. -/
structure GroupOperations {G F : Type} [AddGroup G] [Coordinates F] [DecidableEq F] (canonical : F → Prop)
    (point : G → Affine F) : Prop where
  isPoint_iff (P : Affine F) : P.IsPoint canonical ↔ ∃ Q, point Q = P
  injective : Function.Injective point
  add (Q R : G) : (point Q).add (point R) = point (Q + R)
  double (Q : G) : (point Q).double = point (Q + Q)
  scalarMul (Q : G) (scalar : Bytes) : (point Q).scalarMul scalar = point (natBE scalar • Q)

theorem FieldForms.groupOperations {K F : Type} [Field K] [DecidableEq K] [Coordinates F] [DecidableEq F]
    {W : WeierstrassCurve.Affine K} {form : K → F} {canonical : F → Prop} (hF : FieldForms W form)
    (hW : MordellCurve.IsMordell W) (hcanonical : ∀ a, canonical a ↔ ∃ x, form x = a) :
    GroupOperations canonical (formPoint form : W.Point → Affine F) where
  isPoint_iff P := by
    constructor
    · rintro (rfl | ⟨hP, hx, hy, hcurve⟩)
      · exact ⟨0, rfl⟩
      · obtain ⟨x, y, infinity⟩ := P
        obtain ⟨x, rfl⟩ := (hcanonical x).mp hx
        obtain ⟨y, rfl⟩ := (hcanonical y).mp hy
        subst hP
        exact ⟨.some x y ((hF.isOnCurve_form hW).mp hcurve), rfl⟩
    · rintro ⟨Q, rfl⟩
      cases Q with
      | zero => exact .inl rfl
      | some x y h =>
        exact .inr ⟨rfl, (hcanonical _).mpr ⟨x, rfl⟩, (hcanonical _).mpr ⟨y, rfl⟩, (hF.isOnCurve_form hW).mpr h⟩
  injective := hF.formPoint_injective
  add := hF.add_formPoint hW
  double := hF.double_formPoint hW
  scalarMul := hF.scalarMul_formPoint hW

/-- A point of the second group in the coordinates of the source. -/
def twistForm (Q : G2) : G2Affine := twistAffine Q.toTwist

theorem twistForm_eq : twistForm = formPoint .mont := by
  funext Q
  cases Q <;> rfl

theorem canonical_iff {a : Fp} : a.Canonical ↔ ∃ x, mont x = a := by
  constructor
  · intro h
    exact ⟨a.value, h.eq_mont.symm⟩
  · rintro ⟨x, rfl⟩
    exact Fp.mont_lt x

/-- The points of both groups and their operations, and the fields over the base field. -/
theorem curve_operations :
    GroupOperations Fp.Canonical affine ∧ (∀ Q : G1, (affine Q).negate = affine (-Q)) ∧
    GroupOperations Fq2.Canonical twistForm ∧
    ((∀ a : Fq2, a.Canonical ↔ ∃ x, Fq2.mont x = a) ∧ Function.Injective Fq2.mont ∧
      (∀ x y : Fp2, (Fq2.mont x).mul (.mont y) = .mont (x * y)) ∧ (∀ x : Fp2, (Fq2.mont x).sqr = .mont (x ^ 2)) ∧
      ∀ x : Fp2, (Fq2.mont x).inv = .mont x⁻¹) ∧
    (∀ a : Fq12, a.Canonical ↔ ∃ z, Fq12.mont z = a) ∧ Function.Injective Fq12.mont ∧
      ∀ y z : Fp12, (Fq12.mont y).mul (.mont z) = .mont (y * z) := by
  have hG1 : affine = formPoint mont := funext affine_eq
  refine ⟨?_, negate_affine, ?_, ⟨fun _ => Fq2.canonical_iff, fun _ _ => Fq2.mont_inj.mp, Fq2.mul_mont, Fq2.sqr_mont,
    Fq2.inv_mont⟩, fun _ => Fq12.canonical_iff, Fq12.mont_injective, Fq12.mul_mont⟩
  · rw [hG1]
    exact fieldForms.groupOperations isMordell_curve fun _ => canonical_iff
  · rw [twistForm_eq]
    exact Fq2.forms.groupOperations isMordell_twist fun _ => Fq2.canonical_iff

end ChainGuard.Soroban.ZkVerifier
