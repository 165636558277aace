import ChainGuard.Library.LinearEncryption
import Mathlib.Data.List.GetD
import Mathlib.FieldTheory.Finite.Basic

/-! Shares of a polynomial and commitments to its coefficients in the squares of the field of a safe prime
`p = 2q + 1`: a value passes against the commitments exactly where it is the polynomial's, and the values at distinct
points give back the one at zero. -/
namespace Feldman
open Polynomial
set_option autoImplicit false

universe u

/-! ## Squares -/

section Squares
variable {p q : ℕ} [Fact p.Prime] [Fact q.Prime]

omit [Fact q.Prime] in
theorem square_pow (hp : p = 2 * q + 1) {h : ZMod p} (hne : h ≠ 0) : (h * h) ^ q = 1 := by
  have hexponent : 2 * q = p - 1 := by omega
  rw [← pow_two, ← pow_mul, hexponent]
  exact ZMod.pow_card_sub_one_eq_one hne

theorem orderOf_square (hp : p = 2 * q + 1) {h : ZMod p} (hne : h ≠ 0) (hone : h * h ≠ 1) : orderOf (h * h) = q :=
  orderOf_eq_prime (square_pow hp hne) hone

/-- Exponents of a square count modulo `q`. -/
theorem square_pow_inj (hp : p = 2 * q + 1) {h : ZMod p} (hne : h ≠ 0) (hone : h * h ≠ 1) {m n : ℕ} :
    (h * h) ^ m = (h * h) ^ n ↔ (m : ZMod q) = n := by
  have horder := orderOf_square hp hne hone
  have hfinite : IsOfFinOrder (h * h) := orderOf_pos_iff.mp (by rw [horder]; exact (Fact.out : q.Prime).pos)
  rw [hfinite.pow_eq_pow_iff_modEq, horder, ZMod.natCast_eq_natCast_iff]

end Squares

/-! ## Polynomials by their coefficients -/

section Values
variable {F : Type u} [Field F]

/-- The polynomial of the first coefficients of a sequence. -/
noncomputable def polynomial (a : ℕ → F) (k : ℕ) : F[X] := ∑ j ∈ Finset.range k, C (a j) * X ^ j

theorem polynomial_eval (a : ℕ → F) (k : ℕ) (x : F) :
    (polynomial a k).eval x = ∑ j ∈ Finset.range k, a j * x ^ j := by
  simp [polynomial, eval_finsetSum]

theorem polynomial_zero (a : ℕ → F) {k : ℕ} (hk : 0 < k) : (polynomial a k).eval 0 = a 0 := by
  obtain ⟨k, rfl⟩ : ∃ k', k = k' + 1 := ⟨k - 1, by omega⟩
  rw [polynomial_eval, Finset.sum_range_succ']
  simp

theorem polynomial_degree (a : ℕ → F) (k : ℕ) : (polynomial a k).degree < k := by
  rw [polynomial, Finset.sum_range]
  exact degree_sum_fin_lt fun i : Fin k => a i

theorem polynomial_coeff {f : F[X]} {k : ℕ} (hk : 0 < k) (hf : f.degree < k) : polynomial f.coeff k = f := by
  have hnat : f.natDegree < k := by
    by_cases hzero : f = 0
    · rw [hzero, natDegree_zero]
      exact hk
    · exact (natDegree_lt_iff_degree_lt hzero).mpr hf
  conv_rhs => rw [f.as_sum_range' k hnat]
  exact Finset.sum_congr rfl fun j _ => C_mul_X_pow_eq_monomial

/-! ## Interpolation at zero -/

/-- Members with different images stand at different places. -/
theorem injOn_of_nodup {α β : Type u} {l : List α} {f : α → β} (h : (l.map f).Nodup) (d : α) :
    Set.InjOn (fun i => f (l.getD i d)) (Finset.range l.length) := by
  intro i hi j hj heq
  have hi : i < (l.map f).length := by rwa [List.length_map, ← Finset.mem_range]
  have hj : j < (l.map f).length := by rwa [List.length_map, ← Finset.mem_range]
  refine (List.Nodup.getElem_inj_iff h).mp (show (l.map f)[i] = (l.map f)[j] from ?_)
  rw [List.length_map] at hi hj
  simp only [List.getD_eq_getElem _ _ hi, List.getD_eq_getElem _ _ hj] at heq
  rw [List.getElem_map, List.getElem_map, heq]

/-- What the value at the `i`-th point counts for at zero, among the first `n` points. -/
def weight (x : ℕ → F) (n i : ℕ) : F := ∏ j ∈ (Finset.range n).erase i, x j * (x j - x i)⁻¹

theorem sum_weight {x : ℕ → F} {n : ℕ} (hx : Set.InjOn x (Finset.range n)) {f : F[X]} (hf : f.degree < n) :
    ∑ i ∈ Finset.range n, weight x n i * f.eval (x i) = f.eval 0 := by
  rw [← LinearEncryption.sum_lagrange (Finset.range n) hx (hf.trans_eq (by rw [Finset.card_range]))]
  refine Finset.sum_congr rfl fun i _ => ?_
  rw [weight, Finset.prod_mul_distrib, Finset.prod_inv_distrib]

/-- There is a polynomial with any values at distinct points. -/
theorem exists_values {x : ℕ → F} {n : ℕ} (hx : Set.InjOn x (Finset.range n)) (y : ℕ → F) :
    ∃ f : F[X], f.degree < n ∧ ∀ i ∈ Finset.range n, f.eval (x i) = y i := by
  refine ⟨Lagrange.interpolate (Finset.range n) x y, ?_, fun i hi => Lagrange.eval_interpolate_at_node y hx hi⟩
  exact (Lagrange.degree_interpolate_lt y hx).trans_eq (by rw [Finset.card_range])

theorem weight_eq_zero_iff {x : ℕ → F} {n i : ℕ} (hx : Set.InjOn x (Finset.range n)) (hi : i < n) :
    weight x n i = 0 ↔ ∃ j < n, j ≠ i ∧ x j = 0 := by
  rw [weight, Finset.prod_eq_zero_iff]
  constructor
  · rintro ⟨j, hj, hzero⟩
    obtain ⟨hne, hj⟩ := Finset.mem_erase.mp hj
    have hdistinct : x j - x i ≠ 0 := sub_ne_zero.mpr fun heq => hne (hx hj (Finset.mem_range.mpr hi) heq)
    exact ⟨j, Finset.mem_range.mp hj, hne, (mul_eq_zero.mp hzero).resolve_right (inv_ne_zero hdistinct)⟩
  · rintro ⟨j, hj, hne, hzero⟩
    exact ⟨j, Finset.mem_erase.mpr ⟨hne, Finset.mem_range.mpr hj⟩, by rw [hzero, zero_mul]⟩

end Values

/-! ## Commitments -/

/-- The product of the commitments, each to the power of the point that its coefficient goes with, is the power by
the polynomial's value. -/
theorem prod_commitments {G : Type u} [CommMonoid G] (g : G) (a : ℕ → ℕ) (x : ℕ → ℕ) (k : ℕ) :
    ∏ j ∈ Finset.range k, (g ^ a j) ^ x j = g ^ ∑ j ∈ Finset.range k, a j * x j := by
  rw [← Finset.prod_pow_eq_pow_sum]
  exact Finset.prod_congr rfl fun j _ => (pow_mul g _ _).symm

end Feldman
