import Mathlib.LinearAlgebra.Matrix.DotProduct
import Mathlib.LinearAlgebra.Lagrange

/-! Additively homomorphic encryption by masks without noise: a message is hidden under a random
combination of public samples, and decryption is linear. Secrets shared by values of a polynomial: what
the plain sum of shares stands for, and the weights that give the secret back. -/
namespace LinearEncryption
open Matrix
set_option autoImplicit false

universe u v w

variable {R : Type u} [CommRing R] {ι : Type v} [Fintype ι] {κ : Type w} [Fintype κ]

/-- A mask, and a message under it. -/
abbrev Ciphertext (ι : Type v) (R : Type u) := (ι → R) × R

/-- The samples `A` with their values `b` under the key, combined by `r`. -/
def encrypt (A : Matrix κ ι R) (b : κ → R) (r : κ → R) (m : R) : Ciphertext ι R := (r ᵥ* A, m + r ⬝ᵥ b)

def decrypt (s : ι → R) : Ciphertext ι R →+ R where
  toFun c := c.2 - c.1 ⬝ᵥ s
  map_zero' := by simp
  map_add' c d := by
    rw [Prod.snd_add, Prod.fst_add, add_dotProduct]
    ring

theorem decrypt_apply (s : ι → R) (c : Ciphertext ι R) : decrypt s c = c.2 - c.1 ⬝ᵥ s := rfl

theorem decrypt_encrypt (A : Matrix κ ι R) (s : ι → R) (r : κ → R) (m : R) :
    decrypt s (encrypt A (A *ᵥ s) r m) = m := by
  rw [decrypt_apply, encrypt, dotProduct_mulVec]
  ring

theorem decrypt_smul (s : ι → R) (r : R) (c : Ciphertext ι R) : decrypt s (r • c) = r * decrypt s c := by
  rw [decrypt_apply, decrypt_apply, Prod.smul_snd, Prod.smul_fst, smul_dotProduct, smul_eq_mul, smul_eq_mul]
  ring

/-! ## Values of a polynomial -/

/-- Horner's rule, the constant coefficient first. -/
def horner (x : R) (coeffs : List R) : R := coeffs.foldr (fun c y => y * x + c) 0

/-- The sum of the `k`-th powers of the points. -/
def powerSum (points : List R) (k : ℕ) : R := (points.map (· ^ k)).sum

/-- The sum of a polynomial's values: each coefficient counts as often as the power sum says. -/
def weightedSum (points : List R) : ℕ → List R → R
  | _, [] => 0
  | k, c :: coeffs => c * powerSum points k + weightedSum points (k + 1) coeffs

theorem sum_horner (points : List R) (coeffs : List R) :
    (points.map fun x => horner x coeffs).sum = weightedSum points 0 coeffs := by
  suffices h : ∀ k, (points.map fun x => x ^ k * horner x coeffs).sum = weightedSum points k coeffs by
    simpa using h 0
  induction coeffs with
  | nil => simp [horner, weightedSum]
  | cons c coeffs ih =>
    intro k
    have hsplit : ∀ x : R, x ^ k * horner x (c :: coeffs) = c * x ^ k + x ^ (k + 1) * horner x coeffs := by
      intro x
      show x ^ k * (horner x coeffs * x + c) = _
      ring
    simp only [hsplit, List.sum_map_add, List.sum_map_mul_left, weightedSum, powerSum, ih]

/-! ## The value at zero -/

open Polynomial in
/-- A polynomial is given back at zero by its values at distinct points, as many as its degree asks for. -/
theorem sum_lagrange {F : Type u} [Field F] {κ : Type w} [DecidableEq κ] (s : Finset κ) {x : κ → F}
    (hx : Set.InjOn x s) {f : F[X]} (hf : f.degree < s.card) :
    ∑ i ∈ s, (∏ j ∈ s.erase i, x j) * (∏ j ∈ s.erase i, (x j - x i))⁻¹ * f.eval (x i) = f.eval 0 := by
  have hinterpolate := Lagrange.eq_interpolate hx hf
  conv_rhs => rw [hinterpolate, Lagrange.interpolate_apply, eval_finsetSum]
  refine Finset.sum_congr rfl fun i hi => ?_
  have hbasis : (Lagrange.basis s x i).eval 0 = (∏ j ∈ s.erase i, x j) * (∏ j ∈ s.erase i, (x j - x i))⁻¹ := by
    rw [Lagrange.basis, eval_prod, ← Finset.prod_inv_distrib, ← Finset.prod_mul_distrib]
    refine Finset.prod_congr rfl fun j _ => ?_
    simp only [Lagrange.basisDivisor, eval_mul, eval_C, eval_sub, eval_X, zero_sub]
    rw [← neg_sub (x j) (x i), inv_neg]
    ring
  rw [eval_mul, eval_C, hbasis]
  ring

end LinearEncryption
