import Mathlib.Algebra.Field.MinimalAxioms

/-! Fields whose elements but zero are the powers of a generator. The step from one power to the next is
additive, a product is that many steps, and the field's laws follow. -/
namespace CyclicField
set_option autoImplicit false

universe u

/-- `n` steps lead from one through every element but zero and back, and multiplication and inverse go
by the number of steps. -/
structure Generated {α : Type u} [Add α] [Zero α] [Neg α] [Mul α] [One α] [Inv α] (step : α → α) (n : ℕ) :
    Prop where
  add_assoc : ∀ a b c : α, a + b + c = a + (b + c)
  zero_add : ∀ a : α, 0 + a = a
  neg_add_cancel : ∀ a : α, -a + a = 0
  one_ne_zero : (1 : α) ≠ 0
  step_zero : step 0 = 0
  step_add : ∀ a b, step (a + b) = step a + step b
  period : step^[n] 1 = 1
  reached : ∀ a : α, a ≠ 0 → ∃ i < n, step^[i] 1 = a
  zero_mul : ∀ b : α, 0 * b = 0
  mul_step : ∀ i < n, ∀ b : α, step^[i] 1 * b = step^[i] b
  inv_zero : (0 : α)⁻¹ = 0
  inv_step : ∀ i < n, (step^[i] 1)⁻¹ = step^[n - i] (1 : α)

variable {α : Type u} [Add α] [Zero α] [Neg α] [Mul α] [One α] [Inv α] {step : α → α} {n : ℕ}

namespace Generated

theorem iterate_zero (h : Generated step n) (i : ℕ) : step^[i] 0 = 0 :=
  Function.iterate_fixed h.step_zero i

theorem iterate_add (h : Generated step n) (i : ℕ) (a b : α) : step^[i] (a + b) = step^[i] a + step^[i] b := by
  induction i with
  | zero => rfl
  | succ i ih => rw [Function.iterate_succ_apply', Function.iterate_succ_apply', Function.iterate_succ_apply', ih,
      h.step_add]

/-- A zero or a power. -/
theorem cases (h : Generated step n) (a : α) : a = 0 ∨ ∃ i < n, step^[i] 1 = a := by
  by_cases ha : a = 0
  · exact .inl ha
  · exact .inr (h.reached a ha)

theorem one_mul (h : Generated step n) (a : α) : 1 * a = a := by
  obtain ⟨i, hi, _⟩ := h.reached 1 h.one_ne_zero
  exact h.mul_step 0 (Nat.zero_lt_of_lt hi) a

theorem mul_zero (h : Generated step n) (a : α) : a * 0 = 0 := by
  obtain rfl | ⟨i, hi, rfl⟩ := h.cases a
  · exact h.zero_mul 0
  · rw [h.mul_step i hi, h.iterate_zero]

theorem mul_comm (h : Generated step n) (a b : α) : a * b = b * a := by
  obtain rfl | ⟨i, hi, rfl⟩ := h.cases a
  · rw [h.zero_mul, h.mul_zero]
  obtain rfl | ⟨j, hj, rfl⟩ := h.cases b
  · rw [h.zero_mul, h.mul_zero]
  rw [h.mul_step i hi, h.mul_step j hj, ← Function.iterate_add_apply, ← Function.iterate_add_apply, Nat.add_comm]

/-- The steps around lead back from everywhere. -/
theorem iterate_period (h : Generated step n) (b : α) : step^[n] b = b := by
  obtain rfl | ⟨j, _, rfl⟩ := h.cases b
  · exact h.iterate_zero n
  · rw [← Function.iterate_add_apply, Nat.add_comm, Function.iterate_add_apply, h.period]

theorem step_one_mul (h : Generated step n) (a b : α) : step a * b = step (a * b) := by
  obtain rfl | ⟨j, hj, rfl⟩ := h.cases a
  · rw [h.step_zero, h.zero_mul, h.step_zero]
  rw [h.mul_step j hj, ← Function.iterate_succ_apply' step j 1, ← Function.iterate_succ_apply' step j b]
  by_cases hlast : j + 1 < n
  · exact h.mul_step (j + 1) hlast b
  · obtain rfl : j + 1 = n := by omega
    rw [h.period, h.iterate_period, h.one_mul]

/-- Steps may be taken before a product or after it. -/
theorem iterate_mul (h : Generated step n) (i : ℕ) (a b : α) : step^[i] a * b = step^[i] (a * b) := by
  induction i generalizing a with
  | zero => rfl
  | succ i ih => rw [Function.iterate_succ_apply, ih, h.step_one_mul, Function.iterate_succ_apply]

theorem mul_assoc (h : Generated step n) (a b c : α) : a * b * c = a * (b * c) := by
  obtain rfl | ⟨i, hi, rfl⟩ := h.cases a
  · rw [h.zero_mul, h.zero_mul, h.zero_mul]
  rw [h.mul_step i hi, h.mul_step i hi, h.iterate_mul]

theorem left_distrib (h : Generated step n) (a b c : α) : a * (b + c) = a * b + a * c := by
  obtain rfl | ⟨i, hi, rfl⟩ := h.cases a
  · rw [h.zero_mul, h.zero_mul, h.zero_mul, h.zero_add]
  · rw [h.mul_step i hi, h.mul_step i hi, h.mul_step i hi, h.iterate_add]

theorem mul_inv_cancel (h : Generated step n) (a : α) (ha : a ≠ 0) : a * a⁻¹ = 1 := by
  obtain ⟨i, hi, rfl⟩ := h.reached a ha
  rw [h.inv_step i hi, h.mul_step i hi, ← Function.iterate_add_apply, Nat.add_sub_cancel' (Nat.le_of_lt hi), h.period]

@[reducible] def field (h : Generated step n) : Field α :=
  Field.ofMinimalAxioms α h.add_assoc h.zero_add h.neg_add_cancel h.mul_assoc h.mul_comm h.one_mul
    h.mul_inv_cancel h.inv_zero h.left_distrib ⟨0, 1, h.one_ne_zero.symm⟩

end Generated

end CyclicField
