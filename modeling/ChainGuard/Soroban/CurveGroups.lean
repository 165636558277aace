import ChainGuard.Soroban.MontgomeryForms

/-! The operations on affine points, over coordinates that stand for the elements of a field: they are those of the
group of the curve. -/
namespace ChainGuard.Soroban.ZkVerifier
open MordellCurve (IsMordell)
open WeierstrassCurve.Affine (Point)
set_option autoImplicit false

/-- Coordinates that stand for the elements of a field, with operations that follow those of the field. A negation is
asked for as a factor only. -/
structure FieldForms {K F : Type} [Field K] [Coordinates F] (W : WeierstrassCurve.Affine K) (form : K → F) : Prop where
  injective : Function.Injective form
  isZero {x : K} : Coordinates.isZero (form x) = true ↔ x = 0
  add (x y : K) : Coordinates.add (form x) (form y) = form (x + y)
  sub (x y : K) : Coordinates.sub (form x) (form y) = form (x - y)
  mul (x y : K) : Coordinates.mul (form x) (form y) = form (x * y)
  sqr (x : K) : Coordinates.sqr (form x) = form (x * x)
  neg_mul (x y : K) : Coordinates.mul (Coordinates.neg (form x)) (form y) = form (-x * y)
  inv {x : K} : x ≠ 0 → Coordinates.inv (form x) = form x⁻¹
  two : Coordinates.fromU64 2 = form 2
  three : Coordinates.fromU64 3 = form 3
  b : Coordinates.b = form W.a₆

def formPoint {K F : Type} [Field K] [Coordinates F] {W : WeierstrassCurve.Affine K} (form : K → F) : W.Point → Affine F
  | .zero => .atInfinity
  | .some x y _ => ⟨form x, form y, false⟩

theorem isOnCurve_iff {F : Type} [Coordinates F] [DecidableEq F] {P : Affine F} (h : P.infinity = false) :
    P.isOnCurve = true ↔ Coordinates.sqr P.y =
      Coordinates.add (Coordinates.mul (Coordinates.sqr P.x) P.x) Coordinates.b := by
  rw [Affine.isOnCurve, h]
  exact decide_eq_true_iff

namespace FieldForms
variable {K F : Type} [Field K] [Coordinates F] {W : WeierstrassCurve.Affine K} {form : K → F}

theorem formPoint_injective (hF : FieldForms W form) : Function.Injective (formPoint form : W.Point → Affine F) := by
  intro Q R h
  cases Q with
  | zero =>
    cases R with
    | zero => rfl
    | some x y hxy => exact absurd (congrArg Affine.infinity h).symm Bool.false_ne_true
  | some x y hxy =>
    cases R with
    | zero => exact absurd (congrArg Affine.infinity h) Bool.false_ne_true
    | some x' y' hxy' =>
      obtain rfl : x = x' := hF.injective (congrArg Affine.x h)
      obtain rfl : y = y' := hF.injective (congrArg Affine.y h)
      rfl

theorem onLine_form (hF : FieldForms W form) (hW : IsMordell W) (m x y x' : K) :
    Affine.onLine (form m) (⟨form x, form y, false⟩ : Affine F) (form x') =
      ⟨form (W.addX x x' m), form (W.addY x x' y m), false⟩ := by
  rw [hW.addX_eq, hW.addY_eq, Affine.onLine]
  simp only [hF.sqr, hF.sub, hF.neg_mul, hF.mul, hF.add]

theorem isOnCurve_form [DecidableEq F] (hF : FieldForms W form) (hW : IsMordell W) {x y : K} :
    Affine.isOnCurve (⟨form x, form y, false⟩ : Affine F) = true ↔ W.Nonsingular x y := by
  rw [isOnCurve_iff rfl, hF.b, hF.sqr, hF.sqr, hF.mul, hF.add, hF.injective.eq_iff, hW.nonsingular_iff, pow_two,
    pow_succ, pow_two]

variable [DecidableEq K]

theorem double_formPoint (hF : FieldForms W form) (hW : IsMordell W) (Q : W.Point) :
    (formPoint form Q : Affine F).double = formPoint form (Q + Q) := by
  cases Q with
  | zero => rfl
  | some x y h =>
    have hpoint : (formPoint form (.some x y h) : Affine F) = ⟨form x, form y, false⟩ := rfl
    by_cases hy : y = 0
    · have hcheck : Coordinates.isZero (form y) = true := hF.isZero.mpr hy
      rw [hW.add_self_of_zero hy, hpoint, Affine.double, hcheck, Bool.or_true, if_pos rfl]
      rfl
    · have hcheck : Coordinates.isZero (form y) = false := Bool.eq_false_iff.mpr fun hzero => hy (hF.isZero.mp hzero)
      have htwo : (2 : K) * y ≠ 0 := mul_ne_zero hW.two hy
      rw [Point.add_self_of_Y_ne (hW.ne_negY hy), hpoint, Affine.double, hcheck, Bool.or_false, if_neg Bool.false_ne_true,
        hF.three, hF.two, hF.sqr, hF.mul, hF.mul, hF.inv htwo, hF.mul, ← hW.tangent_eq hy]
      exact hF.onLine_form hW _ x y x

variable [DecidableEq F]

theorem add_formPoint (hF : FieldForms W form) (hW : IsMordell W) (Q R : W.Point) :
    (formPoint form Q : Affine F).add (formPoint form R) = formPoint form (Q + R) := by
  cases Q with
  | zero => exact congrArg (formPoint form) (zero_add R).symm
  | some x y h =>
    cases R with
    | zero =>
      rw [← Point.zero_def, add_zero]
      rfl
    | some x' y' h' =>
      have hadd : (formPoint form (.some x y h) : Affine F).add (formPoint form (.some x' y' h')) =
          if form x = form x' then
            if form y = form y' then (formPoint form (.some x y h) : Affine F).double else .atInfinity
          else .onLine (Coordinates.mul (Coordinates.sub (form y') (form y))
            (Coordinates.inv (Coordinates.sub (form x') (form x)))) ⟨form x, form y, false⟩ (form x') := rfl
      rw [hadd]
      by_cases hx : x = x'
      · subst hx
        rw [if_pos rfl]
        by_cases hy : y = y'
        · subst hy
          rw [if_pos rfl, hF.double_formPoint hW]
        · rw [if_neg (mt (fun heq => hF.injective heq) hy), Point.add_of_Y_eq rfl (hW.opposite h h' hy)]
          rfl
      · have hdiff : x' - x ≠ 0 := sub_ne_zero.mpr (Ne.symm hx)
        rw [if_neg (mt (fun heq => hF.injective heq) hx), Point.add_of_X_ne hx, hF.sub, hF.sub, hF.inv hdiff, hF.mul,
          ← IsMordell.chord_eq (W := W) hx]
        exact hF.onLine_form hW _ x y x'

theorem scalarMul_formPoint (hF : FieldForms W form) (hW : IsMordell W) (Q : W.Point) (scalar : Bytes) :
    (formPoint form Q : Affine F).scalarMul scalar = formPoint form (natBE scalar • Q) := by
  have hloop := @doubleAndAdd_spec (Affine F) .add .double (fun n => formPoint form (n • Q))
    (fun m n => by rw [hF.add_formPoint hW, add_nsmul])
    (fun n => by rw [hF.double_formPoint hW, two_mul, add_nsmul]) (Affine.scalarBits scalar) 0 1
  rw [bitsValue_scalarBits, Nat.zero_add, Nat.one_mul] at hloop
  simp only [zero_nsmul, one_nsmul] at hloop
  exact hloop

end FieldForms

/-! The affine points of the first group: what `zk_verifier` reads from bytes is a point of the curve, and its
operations are those of the group. -/
open Bn254 hiding Fp
open Guarded
open Fp (mont)

/-! ## Points -/

/-- A point of the group in the coordinates of the source. -/
def affine : G1 → G1Affine
  | .zero => .atInfinity
  | .some x y _ => ⟨mont x, mont y, false⟩

theorem affine_zero : affine 0 = .atInfinity := rfl

theorem fieldForms : FieldForms curve mont where
  injective _ _ h := Fp.mont_inj.mp h
  isZero := Fp.isZero_mont
  add := Fp.add_mont
  sub := Fp.sub_mont
  mul := Fp.mul_mont
  sqr := Fp.sqr_mont
  neg_mul := Fp.neg_mul_mont
  inv _ := Fp.inv_mont _
  two := Fp.fromU64_eq 2
  three := Fp.fromU64_eq 3
  b := Fp.fromU64_eq 3

theorem affine_eq (Q : G1) : affine Q = formPoint mont Q := by
  cases Q <;> rfl

theorem affine_injective {Q R : G1} (h : affine Q = affine R) : Q = R := by
  rw [affine_eq, affine_eq] at h
  exact fieldForms.formPoint_injective h

theorem isOnCurve_mont {x y : Bn254.Fp} :
    Affine.isOnCurve (⟨mont x, mont y, false⟩ : G1Affine) = true ↔ curve.Nonsingular x y :=
  fieldForms.isOnCurve_form isMordell_curve

/-! ## Operations -/

theorem add_affine (Q R : G1) : (affine Q).add (affine R) = affine (Q + R) := by
  rw [affine_eq, affine_eq, affine_eq]
  exact fieldForms.add_formPoint isMordell_curve Q R

theorem scalarMul_bytes (Q : G1) (scalar : Bytes) : (affine Q).scalarMul scalar = affine (natBE scalar • Q) := by
  rw [affine_eq, affine_eq]
  exact fieldForms.scalarMul_formPoint isMordell_curve Q scalar

theorem scalarMul_affine (Q : G1) {n : ℕ} (hn : n < 2 ^ 256) : (affine Q).scalarMul (word n) = affine (n • Q) := by
  rw [scalarMul_bytes, natBE_word, Nat.mod_eq_of_lt hn]

theorem negate_affine (Q : G1) : (affine Q).negate = affine (-Q) := by
  cases Q with
  | zero => rfl
  | some x y h =>
    have hneg := Fp.neg_mont (second_ne_zero (nonsingular_iff.mp h))
    have hY := isMordell_curve.negY_eq x y
    show (⟨mont x, (mont y).neg, false⟩ : G1Affine) = ⟨mont x, mont (curve.negY x y), false⟩
    rw [hneg, hY]

/-! ## Decoding -/

theorem coordinateBound_lt : coordinateBound < fieldModulus := by decide

theorem all_zero_iff {bytes : Bytes} : bytes.all (· == 0) = true ↔ natBE bytes = 0 := by
  induction bytes using List.reverseRecOn with
  | nil => exact iff_of_true rfl rfl
  | append_singleton bytes byte ih =>
    rw [List.all_append, Bool.and_eq_true, ih, natBE_concat, List.all_cons, List.all_nil, Bool.and_true, beq_iff_eq,
      ← UInt8.toNat_inj, UInt8.toNat_zero]
    omega

theorem onCurve_ok {F : Type} [Coordinates F] [DecidableEq F] {P Q : Affine F} :
    onCurve P = .ok Q ↔ P.isOnCurve = true ∧ P = Q := by
  rw [onCurve]
  split
  · next h => exact ⟨fun hok => ⟨h, Except.ok.inj hok⟩, fun hok => congrArg _ hok.2⟩
  · next h => exact iff_of_false (fun herror => by cases herror) fun hok => h hok.1

theorem affine_mk {x y : ℕ} (h : CurvePoint fieldModulus x y) :
    affine (mk h) = ⟨mont (x : Bn254.Fp), mont (y : Bn254.Fp), false⟩ := rfl

theorem G1Affine.fromBytes_iff {bytes : Bytes} (hlength : bytes.length = 64) {P : G1Affine} :
    G1Affine.fromBytes bytes = .ok P ↔ ∃ Q, point? (natBE (bytes.take 32), natBE (bytes.drop 32)) = some Q ∧
      (coords Q).1 < coordinateBound ∧ (coords Q).2 < coordinateBound ∧ affine Q = P := by
  have hx : (bytes.take 32).length = 32 := by
    rw [List.length_take]
    omega
  have hy : (bytes.drop 32).length = 32 := by
    rw [List.length_drop]
    omega
  have hzero : bytes.all (· == 0) = true ↔ natBE (bytes.take 32) = 0 ∧ natBE (bytes.drop 32) = 0 := by
    rw [← all_zero_iff, ← all_zero_iff, ← Bool.and_eq_true, ← List.all_append, List.take_append_drop]
  rw [G1Affine.fromBytes]
  split
  · next hall =>
    obtain ⟨hx₀, hy₀⟩ := hzero.mp hall
    rw [hx₀, hy₀, Except.ok.injEq]
    constructor
    · rintro rfl
      exact ⟨0, point?_eq_some.mpr rfl, by decide, by decide, rfl⟩
    · rintro ⟨Q, hQ, _, _, rfl⟩
      rw [coords_eq_zero.mp (point?_eq_some.mp hQ), affine_zero]
  · next hall =>
    rw [hzero] at hall
    simp only [bind_ok, coordinate_eq hx, coordinate_eq hy, onCurve_ok]
    constructor
    · rintro ⟨_, ⟨hxb, rfl⟩, _, ⟨hyb, rfl⟩, hcurve, rfl⟩
      have hequation := nonsingular_iff.mp (isOnCurve_mont.mp hcurve)
      have hpoint : CurvePoint fieldModulus (natBE (bytes.take 32)) (natBE (bytes.drop 32)) :=
        ⟨hxb.trans coordinateBound_lt, hyb.trans coordinateBound_lt, cast_equation_iff.mp hequation⟩
      refine ⟨mk hpoint, point?_eq_some.mpr (coords_mk hpoint), ?_, ?_, affine_mk hpoint⟩
      · rw [coords_mk]
        exact hxb
      · rw [coords_mk]
        exact hyb
    · rintro ⟨Q, hQ, hxb, hyb, rfl⟩
      have hcoords := point?_eq_some.mp hQ
      rcases eq_zero_or_mk Q with rfl | ⟨x, y, hpoint, rfl⟩
      · rw [coords_zero, Prod.mk.injEq] at hcoords
        exact absurd ⟨hcoords.1.symm, hcoords.2.symm⟩ hall
      · rw [coords_mk, Prod.mk.injEq] at hcoords
        rw [coords_mk] at hxb hyb
        rw [← hcoords.1, ← hcoords.2, affine_mk]
        refine ⟨_, ⟨hxb, rfl⟩, _, ⟨hyb, rfl⟩, ?_, rfl⟩
        exact isOnCurve_mont.mpr (nonsingular_iff.mpr (cast_equation_iff.mpr hpoint.2.2))

end ChainGuard.Soroban.ZkVerifier
