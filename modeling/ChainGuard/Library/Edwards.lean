import Mathlib.Tactic.LinearCombination
import Mathlib.Tactic.FieldSimp
import Mathlib.Tactic.Ring

/-! The group of a complete twisted Edwards curve, and extended coordinates for it. -/
namespace Edwards
set_option autoImplicit false

universe u

/-! ## Polynomials that vanish on the curve -/

section Polynomials
variable {R : Type u} [CommRing R] {a d x₁ y₁ x₂ y₂ x₃ y₃ : R}

theorem closure_identity (h₁ : a * x₁ ^ 2 + y₁ ^ 2 = 1 + d * x₁ ^ 2 * y₁ ^ 2)
    (h₂ : a * x₂ ^ 2 + y₂ ^ 2 = 1 + d * x₂ ^ 2 * y₂ ^ 2) :
    a * (x₁ * y₂ + y₁ * x₂) ^ 2 * (1 - d * x₁ * x₂ * y₁ * y₂) ^ 2 +
        (y₁ * y₂ - a * x₁ * x₂) ^ 2 * (1 + d * x₁ * x₂ * y₁ * y₂) ^ 2 =
      (1 + d * x₁ * x₂ * y₁ * y₂) ^ 2 * (1 - d * x₁ * x₂ * y₁ * y₂) ^ 2 +
        d * (x₁ * y₂ + y₁ * x₂) ^ 2 * (y₁ * y₂ - a * x₁ * x₂) ^ 2 := by
  grind

theorem assoc_identity_x (h₁ : a * x₁ ^ 2 + y₁ ^ 2 = 1 + d * x₁ ^ 2 * y₁ ^ 2)
    (h₂ : a * x₂ ^ 2 + y₂ ^ 2 = 1 + d * x₂ ^ 2 * y₂ ^ 2)
    (h₃ : a * x₃ ^ 2 + y₃ ^ 2 = 1 + d * x₃ ^ 2 * y₃ ^ 2) :
    ((x₁ * y₂ + y₁ * x₂) * (1 - d * x₁ * x₂ * y₁ * y₂) * y₃ +
        (y₁ * y₂ - a * x₁ * x₂) * (1 + d * x₁ * x₂ * y₁ * y₂) * x₃) *
      ((1 + d * x₂ * x₃ * y₂ * y₃) * (1 - d * x₂ * x₃ * y₂ * y₃) +
        d * (x₂ * y₃ + y₂ * x₃) * (y₂ * y₃ - a * x₂ * x₃) * x₁ * y₁) =
    ((x₂ * y₃ + y₂ * x₃) * (1 - d * x₂ * x₃ * y₂ * y₃) * y₁ +
        (y₂ * y₃ - a * x₂ * x₃) * (1 + d * x₂ * x₃ * y₂ * y₃) * x₁) *
      ((1 + d * x₁ * x₂ * y₁ * y₂) * (1 - d * x₁ * x₂ * y₁ * y₂) +
        d * (x₁ * y₂ + y₁ * x₂) * (y₁ * y₂ - a * x₁ * x₂) * x₃ * y₃) := by
  grind

theorem assoc_identity_y (h₁ : a * x₁ ^ 2 + y₁ ^ 2 = 1 + d * x₁ ^ 2 * y₁ ^ 2)
    (h₂ : a * x₂ ^ 2 + y₂ ^ 2 = 1 + d * x₂ ^ 2 * y₂ ^ 2)
    (h₃ : a * x₃ ^ 2 + y₃ ^ 2 = 1 + d * x₃ ^ 2 * y₃ ^ 2) :
    ((y₁ * y₂ - a * x₁ * x₂) * (1 + d * x₁ * x₂ * y₁ * y₂) * y₃ -
        a * (x₁ * y₂ + y₁ * x₂) * (1 - d * x₁ * x₂ * y₁ * y₂) * x₃) *
      ((1 + d * x₂ * x₃ * y₂ * y₃) * (1 - d * x₂ * x₃ * y₂ * y₃) -
        d * (x₂ * y₃ + y₂ * x₃) * (y₂ * y₃ - a * x₂ * x₃) * x₁ * y₁) =
    ((y₂ * y₃ - a * x₂ * x₃) * (1 + d * x₂ * x₃ * y₂ * y₃) * y₁ -
        a * (x₂ * y₃ + y₂ * x₃) * (1 - d * x₂ * x₃ * y₂ * y₃) * x₁) *
      ((1 + d * x₁ * x₂ * y₁ * y₂) * (1 - d * x₁ * x₂ * y₁ * y₂) -
        d * (x₁ * y₂ + y₁ * x₂) * (y₁ * y₂ - a * x₁ * x₂) * x₃ * y₃) := by
  grind

end Polynomials

/-- The curve `a x² + y² = 1 + d x² y²` is complete when `a` is a nonzero square and `d` is none. -/
structure Parameters (F : Type u) [Field F] where
  a : F
  d : F
  root : F
  root_sq : root ^ 2 = a
  root_ne : root ≠ 0
  two_ne : (2 : F) ≠ 0
  d_nonsquare : ¬ IsSquare d

variable {F : Type u} [Field F] (c : Parameters F)

def OnCurve (x y : F) : Prop := c.a * x ^ 2 + y ^ 2 = 1 + c.d * x ^ 2 * y ^ 2

instance [DecidableEq F] (x y : F) : Decidable (OnCurve c x y) :=
  inferInstanceAs (Decidable (_ = _))

@[ext]
structure Point where
  x : F
  y : F
  on_curve : OnCurve c x y

/-! ## Completeness -/

variable {c}

theorem product_step {x₁ y₁ x₂ y₂ ε σ : F} (h₁ : OnCurve c x₁ y₁) (h₂ : OnCurve c x₂ y₂)
    (h : c.d * x₁ * x₂ * y₁ * y₂ = ε) (hε : ε ^ 2 = 1) (hσ : σ ^ 2 = 1) :
    c.d * (x₁ * y₁ * (c.root * x₂ + σ * y₂)) ^ 2 = (c.root * x₁ + σ * ε * y₁) ^ 2 := by
  have hr := c.root_sq
  unfold OnCurve at h₁ h₂
  linear_combination (c.d * x₁ ^ 2 * y₁ ^ 2 * x₂ ^ 2 - x₁ ^ 2) * hr +
    (c.d * x₁ ^ 2 * y₁ ^ 2 * y₂ ^ 2 - y₁ ^ 2) * hσ + c.d * x₁ ^ 2 * y₁ ^ 2 * h₂ - h₁ +
    (c.d * x₁ * x₂ * y₁ * y₂ + ε + 2 * c.root * σ * x₁ * y₁) * h + (1 - y₁ ^ 2 * σ ^ 2) * hε

/-- Neither denominator of the addition law vanishes: `d` would be a square. -/
theorem product_sq_ne {x₁ y₁ x₂ y₂ : F} (h₁ : OnCurve c x₁ y₁) (h₂ : OnCurve c x₂ y₂) :
    (c.d * x₁ * x₂ * y₁ * y₂) ^ 2 ≠ 1 := by
  intro hε
  have hne : c.d * x₁ * x₂ * y₁ * y₂ ≠ 0 := by
    intro hzero
    rw [hzero] at hε
    simp at hε
  have hx₁ : x₁ ≠ 0 := by rintro rfl; simp at hne
  have hy₁ : y₁ ≠ 0 := by rintro rfl; simp at hne
  have hx₂ : x₂ ≠ 0 := by rintro rfl; simp at hne
  have hvanish : ∀ σ : F, σ ^ 2 = 1 → c.root * x₂ + σ * y₂ = 0 := by
    intro σ hσ
    by_contra hsum
    have hstep := product_step h₁ h₂ rfl hε hσ
    have hden : x₁ * y₁ * (c.root * x₂ + σ * y₂) ≠ 0 := mul_ne_zero (mul_ne_zero hx₁ hy₁) hsum
    refine c.d_nonsquare ⟨(c.root * x₁ + σ * (c.d * x₁ * x₂ * y₁ * y₂) * y₁) /
      (x₁ * y₁ * (c.root * x₂ + σ * y₂)), ?_⟩
    rw [div_mul_div_comm, ← pow_two, ← hstep, ← pow_two, mul_div_assoc, div_self (pow_ne_zero 2 hden),
      mul_one]
  have hplus := hvanish 1 (one_pow 2)
  have hminus := hvanish (-1) (by ring)
  have hdouble : 2 * c.root * x₂ = 0 := by linear_combination hplus + hminus
  exact mul_ne_zero (mul_ne_zero c.two_ne c.root_ne) hx₂ hdouble

theorem one_add_ne {x₁ y₁ x₂ y₂ : F} (h₁ : OnCurve c x₁ y₁) (h₂ : OnCurve c x₂ y₂) :
    1 + c.d * x₁ * x₂ * y₁ * y₂ ≠ 0 := by
  intro hzero
  refine product_sq_ne h₁ h₂ ?_
  linear_combination (c.d * x₁ * x₂ * y₁ * y₂ - 1) * hzero

theorem one_sub_ne {x₁ y₁ x₂ y₂ : F} (h₁ : OnCurve c x₁ y₁) (h₂ : OnCurve c x₂ y₂) :
    1 - c.d * x₁ * x₂ * y₁ * y₂ ≠ 0 := by
  intro hzero
  refine product_sq_ne h₁ h₂ ?_
  linear_combination -(c.d * x₁ * x₂ * y₁ * y₂ + 1) * hzero

/-! ## The group -/

theorem sum_on_curve {x₁ y₁ x₂ y₂ : F} (h₁ : OnCurve c x₁ y₁) (h₂ : OnCurve c x₂ y₂) :
    OnCurve c ((x₁ * y₂ + y₁ * x₂) / (1 + c.d * x₁ * x₂ * y₁ * y₂))
      ((y₁ * y₂ - c.a * x₁ * x₂) / (1 - c.d * x₁ * x₂ * y₁ * y₂)) := by
  have hplus := one_add_ne h₁ h₂
  have hminus := one_sub_ne h₁ h₂
  have hcleared := closure_identity h₁ h₂
  generalize 1 + c.d * x₁ * x₂ * y₁ * y₂ = B at *
  generalize 1 - c.d * x₁ * x₂ * y₁ * y₂ = D at *
  unfold OnCurve
  field_simp
  linear_combination hcleared

instance : Zero (Point c) := ⟨0, 1, by unfold OnCurve; ring⟩

instance : Neg (Point c) := ⟨fun p => ⟨-p.x, p.y, by
  have h := p.on_curve
  unfold OnCurve at h ⊢
  linear_combination h⟩⟩

instance : Add (Point c) := ⟨fun p q => ⟨_, _, sum_on_curve p.on_curve q.on_curve⟩⟩

@[simp] theorem zero_x : (0 : Point c).x = 0 := rfl
@[simp] theorem zero_y : (0 : Point c).y = 1 := rfl
@[simp] theorem neg_x (p : Point c) : (-p).x = -p.x := rfl
@[simp] theorem neg_y (p : Point c) : (-p).y = p.y := rfl

theorem add_x (p q : Point c) :
    (p + q).x = (p.x * q.y + p.y * q.x) / (1 + c.d * p.x * q.x * p.y * q.y) := rfl

theorem add_y (p q : Point c) :
    (p + q).y = (p.y * q.y - c.a * p.x * q.x) / (1 - c.d * p.x * q.x * p.y * q.y) := rfl

theorem add_comm' (p q : Point c) : p + q = q + p := by
  apply Point.ext
  · rw [add_x, add_x]
    congr 1 <;> ring
  · rw [add_y, add_y]
    congr 1 <;> ring

theorem zero_add' (p : Point c) : 0 + p = p := by
  apply Point.ext
  · rw [add_x]
    simp
  · rw [add_y]
    simp

theorem neg_add' (p : Point c) : -p + p = 0 := by
  have h := p.on_curve
  have hden := one_sub_ne (-p).on_curve p.on_curve
  unfold OnCurve at h
  apply Point.ext
  · rw [add_x, neg_x, neg_y, zero_x, div_eq_zero_iff]
    left
    ring
  · rw [add_y, zero_y, div_eq_one_iff_eq hden, neg_x, neg_y]
    linear_combination h

/-! The sum of a sum and a point, over the product of the denominators. -/

variable {A B C D x y : F}

theorem sum_x_cleared (hB : B ≠ 0) (hD : D ≠ 0) :
    (A / B * y + C / D * x) / (1 + c.d * (A / B) * x * (C / D) * y) =
      (A * D * y + C * B * x) / (B * D + c.d * A * C * x * y) := by
  have hnum : A / B * y + C / D * x = (A * D * y + C * B * x) / (B * D) := by field_simp
  have hden : 1 + c.d * (A / B) * x * (C / D) * y = (B * D + c.d * A * C * x * y) / (B * D) := by
    field_simp
  rw [hnum, hden, div_div_div_cancel_right₀ (mul_ne_zero hB hD)]

theorem sum_y_cleared (hB : B ≠ 0) (hD : D ≠ 0) :
    (C / D * y - c.a * (A / B) * x) / (1 - c.d * (A / B) * x * (C / D) * y) =
      (C * B * y - c.a * A * D * x) / (B * D - c.d * A * C * x * y) := by
  have hnum : C / D * y - c.a * (A / B) * x = (C * B * y - c.a * A * D * x) / (B * D) := by field_simp
  have hden : 1 - c.d * (A / B) * x * (C / D) * y = (B * D - c.d * A * C * x * y) / (B * D) := by
    field_simp
  rw [hnum, hden, div_div_div_cancel_right₀ (mul_ne_zero hB hD)]

theorem sum_x_den_ne (hB : B ≠ 0) (hD : D ≠ 0)
    (hne : 1 + c.d * (A / B) * x * (C / D) * y ≠ 0) : B * D + c.d * A * C * x * y ≠ 0 := by
  have hden : B * D + c.d * A * C * x * y =
      B * D * (1 + c.d * (A / B) * x * (C / D) * y) := by field_simp
  rw [hden]
  exact mul_ne_zero (mul_ne_zero hB hD) hne

theorem sum_y_den_ne (hB : B ≠ 0) (hD : D ≠ 0)
    (hne : 1 - c.d * (A / B) * x * (C / D) * y ≠ 0) : B * D - c.d * A * C * x * y ≠ 0 := by
  have hden : B * D - c.d * A * C * x * y =
      B * D * (1 - c.d * (A / B) * x * (C / D) * y) := by field_simp
  rw [hden]
  exact mul_ne_zero (mul_ne_zero hB hD) hne

theorem add_assoc' (p q r : Point c) : p + q + r = p + (q + r) := by
  have hp := p.on_curve
  have hq := q.on_curve
  have hr := r.on_curve
  rw [add_comm' p (q + r)]
  have hB₁ := one_add_ne hp hq
  have hD₁ := one_sub_ne hp hq
  have hB₂ := one_add_ne hq hr
  have hD₂ := one_sub_ne hq hr
  have hplus₁ := sum_x_den_ne hB₁ hD₁ (one_add_ne (p + q).on_curve hr)
  have hplus₂ := sum_x_den_ne hB₂ hD₂ (one_add_ne (q + r).on_curve hp)
  have hminus₁ := sum_y_den_ne hB₁ hD₁ (one_sub_ne (p + q).on_curve hr)
  have hminus₂ := sum_y_den_ne hB₂ hD₂ (one_sub_ne (q + r).on_curve hp)
  apply Point.ext
  · rw [add_x (p + q), add_x (q + r), add_x p, add_y p, add_x q, add_y q,
      sum_x_cleared hB₁ hD₁, sum_x_cleared hB₂ hD₂, div_eq_div_iff hplus₁ hplus₂]
    exact assoc_identity_x hp hq hr
  · rw [add_y (p + q), add_y (q + r), add_x p, add_y p, add_x q, add_y q,
      sum_y_cleared hB₁ hD₁, sum_y_cleared hB₂ hD₂, div_eq_div_iff hminus₁ hminus₂]
    exact assoc_identity_y hp hq hr

instance : AddCommGroup (Point c) where
  add_assoc := add_assoc'
  zero_add := zero_add'
  add_zero p := by rw [add_comm', zero_add']
  neg_add_cancel := neg_add'
  add_comm := add_comm'
  nsmul := nsmulRec
  zsmul := zsmulRec

/-! ## Extended coordinates -/

/-- `x = X / Z`, `y = Y / Z` and `T = X Y / Z`. -/
structure Extended (p : Point c) (X Y Z T : F) : Prop where
  z_ne : Z ≠ 0
  x_eq : X = p.x * Z
  y_eq : Y = p.y * Z
  t_eq : T = p.x * p.y * Z

theorem Extended.affine (p : Point c) : Extended p p.x p.y 1 (p.x * p.y) :=
  ⟨one_ne_zero, (mul_one _).symm, (mul_one _).symm, (mul_one _).symm⟩

theorem Extended.of_ratios {p : Point c} {E F' G H : F} (hF : F' ≠ 0) (hG : G ≠ 0)
    (hx : p.x * G = E) (hy : p.y * F' = H) : Extended p (E * F') (G * H) (F' * G) (E * H) := by
  subst hx hy
  exact ⟨mul_ne_zero hF hG, by ring, by ring, by ring⟩

theorem add_x_mul (p q : Point c) :
    (p + q).x * (1 + c.d * p.x * q.x * p.y * q.y) = p.x * q.y + p.y * q.x := by
  rw [add_x, div_mul_cancel₀ _ (one_add_ne p.on_curve q.on_curve)]

theorem add_y_mul (p q : Point c) :
    (p + q).y * (1 - c.d * p.x * q.x * p.y * q.y) = p.y * q.y - c.a * p.x * q.x := by
  rw [add_y, div_mul_cancel₀ _ (one_sub_ne p.on_curve q.on_curve)]

theorem Extended.add (ha : c.a = -1) {p q : Point c} {X₁ Y₁ Z₁ T₁ X₂ Y₂ Z₂ T₂ A B C D : F}
    (hp : Extended p X₁ Y₁ Z₁ T₁) (hq : Extended q X₂ Y₂ Z₂ T₂) (hA : A = (Y₁ - X₁) * (Y₂ - X₂))
    (hB : B = (Y₁ + X₁) * (Y₂ + X₂)) (hC : C = T₁ * T₂ * (2 * c.d)) (hD : D = Z₁ * Z₂ * 2) :
    Extended (p + q) ((B - A) * (D - C)) ((D + C) * (B + A)) ((D - C) * (D + C))
      ((B - A) * (B + A)) := by
  obtain ⟨hZ₁, rfl, rfl, rfl⟩ := hp
  obtain ⟨hZ₂, rfl, rfl, rfl⟩ := hq
  have hx := add_x_mul p q
  have hy := add_y_mul p q
  have hplus : D + C = 2 * Z₁ * Z₂ * (1 + c.d * p.x * q.x * p.y * q.y) := by rw [hC, hD]; ring
  have hminus : D - C = 2 * Z₁ * Z₂ * (1 - c.d * p.x * q.x * p.y * q.y) := by rw [hC, hD]; ring
  have hscale : 2 * Z₁ * Z₂ ≠ 0 := mul_ne_zero (mul_ne_zero c.two_ne hZ₁) hZ₂
  refine of_ratios ?_ ?_ ?_ ?_
  · rw [hminus]
    exact mul_ne_zero hscale (one_sub_ne p.on_curve q.on_curve)
  · rw [hplus]
    exact mul_ne_zero hscale (one_add_ne p.on_curve q.on_curve)
  · rw [hplus, hA, hB]
    linear_combination (2 * Z₁ * Z₂) * hx
  · rw [hminus, hA, hB]
    linear_combination (2 * Z₁ * Z₂) * hy - 2 * Z₁ * Z₂ * p.x * q.x * ha

theorem Extended.double (ha : c.a = -1) {p : Point c} {X Y Z T A B C : F} (hp : Extended p X Y Z T)
    (hA : A = X * X) (hB : B = Y * Y) (hC : C = Z * Z * 2) :
    Extended (p + p) (((X + Y) * (X + Y) - A - B) * (-A + B - C)) ((-A + B) * (-A - B))
      ((-A + B - C) * (-A + B)) (((X + Y) * (X + Y) - A - B) * (-A - B)) := by
  obtain ⟨hZ, rfl, rfl, -⟩ := hp
  have hcurve := p.on_curve
  have hx := add_x_mul p p
  have hy := add_y_mul p p
  unfold OnCurve at hcurve
  have hplus : -A + B = Z ^ 2 * (1 + c.d * p.x * p.x * p.y * p.y) := by
    rw [hA, hB]
    linear_combination Z ^ 2 * hcurve - Z ^ 2 * p.x ^ 2 * ha
  have hminus : -A + B - C = -(Z ^ 2 * (1 - c.d * p.x * p.x * p.y * p.y)) := by
    rw [hplus, hC]
    ring
  have hscale : Z ^ 2 ≠ 0 := pow_ne_zero 2 hZ
  refine of_ratios ?_ ?_ ?_ ?_
  · rw [hminus]
    exact neg_ne_zero.mpr (mul_ne_zero hscale (one_sub_ne p.on_curve p.on_curve))
  · rw [hplus]
    exact mul_ne_zero hscale (one_add_ne p.on_curve p.on_curve)
  · rw [hplus, hA, hB]
    linear_combination Z ^ 2 * hx
  · rw [hminus, hA, hB]
    linear_combination -(Z ^ 2) * hy + Z ^ 2 * p.x ^ 2 * ha

theorem Extended.eq_iff {p q : Point c} {X₁ Y₁ Z₁ T₁ X₂ Y₂ Z₂ T₂ : F} (hp : Extended p X₁ Y₁ Z₁ T₁)
    (hq : Extended q X₂ Y₂ Z₂ T₂) : X₁ * Z₂ = X₂ * Z₁ ∧ Y₁ * Z₂ = Y₂ * Z₁ ↔ p = q := by
  obtain ⟨hZ₁, rfl, rfl, -⟩ := hp
  obtain ⟨hZ₂, rfl, rfl, -⟩ := hq
  have hscale : Z₁ * Z₂ ≠ 0 := mul_ne_zero hZ₁ hZ₂
  constructor
  · intro ⟨hx, hy⟩
    apply Point.ext
    · apply mul_right_cancel₀ hscale
      linear_combination hx
    · apply mul_right_cancel₀ hscale
      linear_combination hy
  · rintro rfl
    exact ⟨by ring, by ring⟩

end Edwards
