import Mathlib.LinearAlgebra.Matrix.NonsingularInverse

/-! Gauss-Jordan elimination with row exchanges. Rows are vectors of any module with a coordinate for each
column; a column is cleared when its coordinate is one in its own row and zero in the others. As long as
no combination of the columns vanishes there is a pivot, and all columns can be cleared in turn. -/
namespace GaussJordan
set_option autoImplicit false

universe u v

variable {F : Type u} [Field F] {V : Type v} [AddCommGroup V] [Module F V] {n : ℕ}
  {φ : Fin n → V →ₗ[F] F} {rows : Fin n → V} {S : Submodule F V}

/-- The columns before `k` are cleared. -/
def Cleared (φ : Fin n → V →ₗ[F] F) (k : ℕ) (rows : Fin n → V) : Prop :=
  ∀ c : Fin n, (c : ℕ) < k → ∀ r, φ c (rows r) = if r = c then 1 else 0

/-- No combination of the columns vanishes in every row. -/
def Independent (φ : Fin n → V →ₗ[F] F) (rows : Fin n → V) : Prop :=
  ∀ v : Fin n → F, (∀ r, ∑ c, v c * φ c (rows r) = 0) → v = 0

theorem cleared_zero : Cleared φ 0 rows := fun c hc => absurd hc (Nat.not_lt_zero c)

/-- A column that is not cleared yet has an entry from its own row down. -/
theorem exists_pivot {c : Fin n} (hcleared : Cleared φ c rows) (hindependent : Independent φ rows) :
    ∃ p, c ≤ p ∧ φ c (rows p) ≠ 0 := by
  by_contra hnone
  simp only [not_exists, not_and, not_not] at hnone
  have hzero := hindependent
    (fun c' => if c' = c then 1 else if c' < c then -φ c (rows c') else 0) fun r => by
      have hsplit : ∀ c' : Fin n, (if c' = c then 1 else if c' < c then -φ c (rows c') else 0) * φ c' (rows r) =
          (if c' = c then φ c (rows r) else 0) - (if c' = r then if r < c then φ c (rows r) else 0 else 0) := by
        intro c'
        by_cases hc : c' = c
        · subst hc
          by_cases hr : c' = r
          · subst hr
            simp
          · simp [hr]
        · by_cases hlt : c' < c
          · rw [if_neg hc, if_pos hlt, hcleared c' hlt r, if_neg hc]
            by_cases hr : r = c'
            · subst hr
              simp [hlt]
            · simp [hr, Ne.symm hr]
          · by_cases hr : c' = r
            · subst hr
              simp [hc, hlt]
            · simp [hc, hlt, hr]
      rw [Finset.sum_congr rfl fun c' _ => hsplit c', Finset.sum_sub_distrib, Finset.sum_ite_eq', Finset.sum_ite_eq',
        if_pos (Finset.mem_univ _), if_pos (Finset.mem_univ _)]
      by_cases hr : r < c
      · rw [if_pos hr, sub_self]
      · rw [if_neg hr, hnone r (not_lt.mp hr), sub_zero]
  have hone := congrFun hzero c
  simp at hone

/-! ## Row operations -/

/-- Two rows from the `k`-th on may change places. -/
theorem Cleared.swap {k : ℕ} (h : Cleared φ k rows) {p q : Fin n} (hp : k ≤ p) (hq : k ≤ q) :
    Cleared φ k (rows ∘ Equiv.swap p q) := by
  intro c hc r
  rw [Function.comp_apply, h c hc]
  have hcp : c ≠ p := fun heq => absurd (heq ▸ hc) (not_lt.mpr hp)
  have hcq : c ≠ q := fun heq => absurd (heq ▸ hc) (not_lt.mpr hq)
  have hsame : Equiv.swap p q r = c ↔ r = c := by
    rw [Equiv.swap_apply_eq_iff, Equiv.swap_apply_of_ne_of_ne hcp hcq]
  simp only [hsame]

theorem Independent.swap (h : Independent φ rows) (p q : Fin n) : Independent φ (rows ∘ Equiv.swap p q) := by
  intro v hv
  refine h v fun r => ?_
  have hr := hv (Equiv.swap p q r)
  rwa [Function.comp_apply, Equiv.swap_apply_self] at hr

/-- The pivot's row divided by the pivot, and its multiples taken from the others. -/
def clear (φ : Fin n → V →ₗ[F] F) (c : Fin n) (rows : Fin n → V) : Fin n → V := fun r =>
  if r = c then (φ c (rows c))⁻¹ • rows c else rows r - φ c (rows r) • (φ c (rows c))⁻¹ • rows c

theorem Cleared.clear {c : Fin n} (h : Cleared φ c rows) (hpivot : φ c (rows c) ≠ 0) :
    Cleared φ (c + 1) (clear φ c rows) := by
  intro c' hc' r
  unfold GaussJordan.clear
  by_cases hlast : c' = c
  · subst hlast
    by_cases hr : r = c'
    · rw [if_pos hr, if_pos hr, map_smul, smul_eq_mul, inv_mul_cancel₀ hpivot]
    · rw [if_neg hr, if_neg hr, map_sub, map_smul, map_smul, smul_eq_mul, smul_eq_mul, inv_mul_cancel₀ hpivot, mul_one,
        sub_self]
  · have hlt : (c' : ℕ) < c := by
      have hne : (c' : ℕ) ≠ c := fun heq => hlast (Fin.ext heq)
      omega
    have hpivotRow : φ c' (rows c) = 0 := by rw [h c' hlt c, if_neg (Ne.symm hlast)]
    by_cases hr : r = c
    · subst hr
      rw [if_pos rfl, if_neg (Ne.symm hlast), map_smul, hpivotRow, smul_zero]
    · rw [if_neg hr, map_sub, map_smul, map_smul, hpivotRow, smul_zero, smul_zero, sub_zero, h c' hlt r]

theorem Independent.clear {c : Fin n} (h : Independent φ rows) (hpivot : φ c (rows c) ≠ 0) :
    Independent φ (clear φ c rows) := by
  intro v hv
  have hc : ∑ c', v c' * φ c' (rows c) = 0 := by
    have hrow := hv c
    simp only [GaussJordan.clear, if_true, map_smul, smul_eq_mul] at hrow
    rw [Finset.sum_congr rfl fun c' _ => mul_left_comm (v c') _ _, ← Finset.mul_sum] at hrow
    exact (mul_eq_zero.mp hrow).resolve_left (inv_ne_zero hpivot)
  refine h v fun r => ?_
  by_cases hr : r = c
  · rw [hr, hc]
  · have hrow := hv r
    simp only [GaussJordan.clear, if_neg hr, map_sub, map_smul, smul_eq_mul, mul_sub, Finset.sum_sub_distrib] at hrow
    have hpulled : ∑ c', v c' * (φ c (rows r) * ((φ c (rows c))⁻¹ * φ c' (rows c))) = 0 := by
      rw [Finset.sum_congr rfl fun c' _ => show v c' * (φ c (rows r) * ((φ c (rows c))⁻¹ * φ c' (rows c))) =
        φ c (rows r) * (φ c (rows c))⁻¹ * (v c' * φ c' (rows c)) by ring, ← Finset.mul_sum, hc, mul_zero]
    rwa [hpulled, sub_zero] at hrow

theorem swap_mem (h : ∀ r, rows r ∈ S) (p q : Fin n) : ∀ r, (rows ∘ Equiv.swap p q) r ∈ S := fun _ => h _

theorem clear_mem (h : ∀ r, rows r ∈ S) (c : Fin n) : ∀ r, clear φ c rows r ∈ S := by
  intro r
  unfold GaussJordan.clear
  split
  · exact S.smul_mem _ (h c)
  · exact S.sub_mem (h r) (S.smul_mem _ (S.smul_mem _ (h c)))

/-! ## Inversion -/

/-- Rows in two halves, the right one telling which combination of a matrix's rows the left one is. -/
def combinations (A : Matrix (Fin n) (Fin n) F) : Submodule F ((Fin n → F) × (Fin n → F)) where
  carrier := { x | x.1 = Matrix.vecMul x.2 A }
  add_mem' := by
    intro x y hx hy
    show x.1 + y.1 = Matrix.vecMul (x.2 + y.2) A
    rw [Matrix.add_vecMul, hx, hy]
  zero_mem' := by
    show (0 : Fin n → F) = Matrix.vecMul 0 A
    rw [Matrix.zero_vecMul]
  smul_mem' := by
    intro a x hx
    show a • x.1 = Matrix.vecMul (a • x.2) A
    rw [Matrix.smul_vecMul, hx]

/-- The column of the left half. -/
def column (c : Fin n) : ((Fin n → F) × (Fin n → F)) →ₗ[F] F := LinearMap.proj c ∘ₗ LinearMap.fst F _ _

/-- The matrix beside the identity. -/
def augmented (A : Matrix (Fin n) (Fin n) F) : Fin n → (Fin n → F) × (Fin n → F) := fun r => (A r, Pi.single r 1)

theorem augmented_mem (A : Matrix (Fin n) (Fin n) F) (r : Fin n) : augmented A r ∈ combinations A := by
  show A r = Matrix.vecMul (Pi.single r 1) A
  rw [Matrix.single_one_vecMul]
  rfl

theorem augmented_independent {A : Matrix (Fin n) (Fin n) F} (h : ∀ v, Matrix.mulVec A v = 0 → v = 0) :
    Independent column (augmented A) := by
  intro v hv
  refine h v (funext fun r => ?_)
  calc Matrix.mulVec A v r = ∑ c, A r c * v c := rfl
    _ = ∑ c, v c * A r c := Finset.sum_congr rfl fun c _ => mul_comm _ _
    _ = 0 := hv r

theorem right_mul {A : Matrix (Fin n) (Fin n) F} {rows : Fin n → (Fin n → F) × (Fin n → F)}
    (hmem : ∀ r, rows r ∈ combinations A) (hcleared : Cleared column n rows) :
    (Matrix.of fun r => (rows r).2) * A = 1 := by
  ext r c
  have hrow : (rows r).1 = Matrix.vecMul (rows r).2 A := hmem r
  have hentry : (rows r).1 c = if r = c then 1 else 0 := hcleared c c.isLt r
  rw [Matrix.one_apply, ← hentry, hrow]
  rfl

end GaussJordan
