import Mathlib.LinearAlgebra.Lagrange

/-! The rows of an identity matrix over those of a Cauchy matrix: as many different ones as there are
columns always determine a vector. -/
namespace CauchyRows
set_option autoImplicit false

open Polynomial

universe u v w z

variable {F : Type u} [Field F] {σ : Type v} [Fintype σ] [DecidableEq σ] {κ : Type w} {ι : Type z} [Fintype ι]
  {x : σ → F} {y : κ → F}

/-- A unit vector, or the inverses of the distances from a point. -/
def row (x : σ → F) (y : κ → F) : σ ⊕ κ → σ → F
  | .inl r => Pi.single r 1
  | .inr k => fun c => (x c - y k)⁻¹

/-- The sum of a Cauchy row, cleared of its denominators. -/
noncomputable def numerator (x v : σ → F) (s : Finset σ) : F[X] :=
  ∑ c ∈ s, C (v c) * ∏ d ∈ s.erase c, (X - C (x d))

omit [Fintype σ] in
theorem numerator_degree_lt {v : σ → F} {s : Finset σ} (hs : s.Nonempty) : (numerator x v s).degree < s.card := by
  have hnat : (numerator x v s).natDegree ≤ s.card - 1 := by
    refine natDegree_sum_le_of_forall_le _ _ fun c hc => ?_
    refine (natDegree_C_mul_le _ _).trans ?_
    rw [natDegree_finsetProd_X_sub_C_eq_card, Finset.card_erase_of_mem hc]
  refine degree_le_natDegree.trans_lt ?_
  exact_mod_cast hnat.trans_lt (Nat.sub_lt hs.card_pos Nat.one_pos)

omit [Fintype σ] in
theorem numerator_eval {v : σ → F} {s : Finset σ} {a : F} (ha : ∀ c ∈ s, x c ≠ a) :
    (numerator x v s).eval a = -(∏ c ∈ s, (a - x c)) * ∑ c ∈ s, (x c - a)⁻¹ * v c := by
  rw [numerator, eval_finsetSum, Finset.mul_sum]
  refine Finset.sum_congr rfl fun c hc => ?_
  have hne : x c - a ≠ 0 := sub_ne_zero.mpr (ha c hc)
  rw [eval_mul, eval_C, eval_prod, ← Finset.mul_prod_erase s _ hc]
  simp only [eval_sub, eval_X, eval_C]
  field_simp
  ring

omit [Fintype σ] in
theorem numerator_eval_point {v : σ → F} {s : Finset σ} {c : σ} (hc : c ∈ s) :
    (numerator x v s).eval (x c) = v c * ∏ d ∈ s.erase c, (x c - x d) := by
  rw [numerator, eval_finsetSum, Finset.sum_eq_single_of_mem c hc]
  · simp [eval_prod]
  · intro d hd hne
    rw [eval_mul, eval_prod, Finset.prod_eq_zero (Finset.mem_erase.mpr ⟨Ne.symm hne, hc⟩), mul_zero]
    simp

def point (y : κ → F) : σ ⊕ κ → F := Sum.elim (fun _ => 0) y

/-- A unit row that was chosen names a column in which the vector vanishes, so there are as many Cauchy rows among the
chosen ones as there are columns in which it does not. -/
theorem support_card_le [DecidableEq F] {e : ι → σ ⊕ κ} (he : Function.Injective e)
    (hcard : Fintype.card σ ≤ Fintype.card ι) {v : σ → F} (hv : v ≠ 0) (hunit : ∀ i r, e i = .inl r → v r = 0) :
    (Finset.univ.filter fun c => v c ≠ 0).card ≤ (Finset.univ.filter fun i => (e i).isRight = true).card := by
  classical
  obtain ⟨c₀, _⟩ := Function.ne_iff.mp hv
  set support : Finset σ := Finset.univ.filter fun c => v c ≠ 0
  set chosen : Finset ι := Finset.univ.filter fun i => (e i).isRight = true
  have hothers : (Finset.univ \ chosen).card ≤ (Finset.univ \ support).card := by
    refine Finset.card_le_card_of_injOn (fun i => Sum.elim id (fun _ => c₀) (e i)) ?_ ?_
    · intro i hi
      cases hei : e i with
      | inl r => simpa [support, hei] using hunit i r hei
      | inr k => simp [chosen, hei] at hi
    · intro i hi j hj hij
      cases hei : e i with
      | inl r =>
        cases hej : e j with
        | inl r' =>
          have hrr : r = r' := by simpa [hei, hej] using hij
          exact he (by rw [hei, hej, hrr])
        | inr k => simp [chosen, hej] at hj
      | inr k => simp [chosen, hei] at hi
  rw [Finset.card_sdiff_of_subset (Finset.subset_univ _), Finset.card_sdiff_of_subset (Finset.subset_univ _),
    Finset.card_univ, Finset.card_univ] at hothers
  have hchosen := Finset.card_le_univ chosen
  have hsupport := Finset.card_le_univ support
  omega

/-- Where the chosen rows vanish, so does the vector. -/
theorem eq_zero_of_rows (hx : Function.Injective x) (hy : Function.Injective y) (hxy : ∀ c k, x c ≠ y k)
    {e : ι → σ ⊕ κ} (he : Function.Injective e) (hcard : Fintype.card σ ≤ Fintype.card ι) {v : σ → F}
    (h : ∀ i, ∑ c, row x y (e i) c * v c = 0) : v = 0 := by
  classical
  by_contra hv
  obtain ⟨c₀, hc₀⟩ := Function.ne_iff.mp hv
  -- the columns in which `v` does not vanish, and the Cauchy rows among the chosen ones
  let support : Finset σ := Finset.univ.filter fun c => v c ≠ 0
  let chosen : Finset ι := Finset.univ.filter fun i => (e i).isRight = true
  have hunit : ∀ i r, e i = .inl r → v r = 0 := by
    intro i r hi
    have hrow := h i
    rw [hi] at hrow
    simpa [row, Pi.single_apply] using hrow
  have henough : support.card ≤ chosen.card := support_card_le he hcard hv hunit
  have hdegree : (numerator x v support).degree < chosen.card :=
    (numerator_degree_lt ⟨c₀, by simpa [support] using hc₀⟩).trans_le (by exact_mod_cast henough)
  have hinj : Set.InjOn (fun i => point y (e i)) chosen := by
    intro i hi j hj hij
    cases hei : e i with
    | inl r => simp [chosen, hei] at hi
    | inr k =>
      cases hej : e j with
      | inl r => simp [chosen, hej] at hj
      | inr k' =>
        have hkk : k = k' := hy (by simpa [point, hei, hej] using hij)
        exact he (by rw [hei, hej, hkk])
  have hzero : numerator x v support = 0 := by
    refine eq_zero_of_degree_lt_of_eval_index_eq_zero _ hinj hdegree fun i hi => ?_
    cases hei : e i with
    | inl r => simp [chosen, hei] at hi
    | inr k =>
      have hrow := h i
      rw [hei] at hrow
      have hsum : ∑ c ∈ support, (x c - y k)⁻¹ * v c = 0 := by
        rw [← hrow]
        exact Finset.sum_filter_of_ne fun c _ hne => right_ne_zero_of_mul hne
      rw [show point y (.inr k : σ ⊕ κ) = y k from rfl, numerator_eval fun c _ => hxy c k, hsum, mul_zero]
  have heval := numerator_eval_point (x := x) (v := v) (show c₀ ∈ support by simpa [support] using hc₀)
  rw [hzero, eval_zero, eq_comm, mul_eq_zero, Finset.prod_eq_zero_iff] at heval
  obtain heval | ⟨d, hd, heval⟩ := heval
  · exact hc₀ heval
  · exact (Finset.ne_of_mem_erase hd).symm (hx (sub_eq_zero.mp heval))

end CauchyRows
