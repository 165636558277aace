import ChainGuard.Library.Feldman
import ChainGuard.Library.PrimeCertificates
import ChainGuard.OffChain.Secrets

/-! The field and the group of the shares: both moduli are prime, and the operations of the source, whose remainders
keep the sign of the dividend, are those of the residues. -/
namespace ChainGuard.OffChain.Secrets
set_option autoImplicit false

/-! ## The moduli are prime -/

theorem prime_VSS_Q : VSS_Q.Prime := by
  refine Lucas.prime_of_table [2, 3, 5, 7, 11, 19, 31, 41, 43, 53, 131, 149, 163, 263, 599, 859, 937, 1291, 7717,
    10663, 52183, 294131, 1136461, 6431141, 19271929] ?_
    ⟨VSS_Q, 2, [2, 5, 31, 43, 599, 10663, 1136461, 1196707388443466949965095693175748557508643059665708723817761]⟩
    [⟨1196707388443466949965095693175748557508643059665708723817761, 3, [2, 2, 2, 2, 2, 5, 149, 263, 859, 6431141,
        240205323209, 143834195958255027531178710997993]⟩,
      ⟨143834195958255027531178710997993, 10, [2, 2, 2, 3, 7, 53, 937, 1291, 4943433031, 2701360283249]⟩,
      ⟨2701360283249, 3, [2, 2, 2, 2, 11, 52183, 294131]⟩,
      ⟨240205323209, 3, [2, 2, 2, 19, 1580298179]⟩,
      ⟨4943433031, 3, [2, 3, 5, 131, 163, 7717]⟩,
      ⟨1580298179, 2, [2, 41, 19271929]⟩] (by decide +kernel)
  simp only [List.forall_mem_cons]
  norm_num

theorem prime_VSS_P : VSS_P.Prime := by
  refine Lucas.prime_of_table [2, VSS_Q] ?_ ⟨VSS_P, 5, [2, VSS_Q]⟩ [] (by decide +kernel)
  simp [prime_VSS_Q, Nat.prime_two]

instance : Fact VSS_Q.Prime := ⟨prime_VSS_Q⟩

instance : Fact VSS_P.Prime := ⟨prime_VSS_P⟩

theorem one_lt_VSS_Q : 1 < VSS_Q := prime_VSS_Q.one_lt

theorem one_lt_VSS_P : 1 < VSS_P := prime_VSS_P.one_lt

/-! ## Remainders -/

theorem tmod_mul_tmod (a b m : ℤ) : (a.tmod m * b.tmod m).tmod m = (a * b).tmod m := (Int.mul_tmod a b m).symm

theorem modPow_eq (base : ℤ) (exp : ℕ) {m : ℕ} (hm : 1 < m) : modPow base exp m = .ok ((base ^ exp).tmod m) := by
  have hstart : (1 : ℤ) = (1 : ℤ).tmod m := (Int.tmod_eq_of_lt Int.one_nonneg (by exact_mod_cast hm)).symm
  have hcombine : ∀ a b x y : ℤ, a = x.tmod m → b = y.tmod m →
      ∃ a', (.ok ((a * b).tmod m) : Result ℤ) = .ok a' ∧ a' = (x * y).tmod m :=
    fun a b x y ha hb => ⟨_, rfl, by rw [ha, hb, tmod_mul_tmod]⟩
  have hsquare : ∀ b y : ℤ, b = y.tmod m →
      ∃ b', (.ok ((b * b).tmod m) : Result ℤ) = .ok b' ∧ b' = (y * y).tmod m :=
    fun b y hb => ⟨_, rfl, by rw [hb, tmod_mul_tmod]⟩
  obtain ⟨result, hloop, hresult⟩ := BinaryPower.loop_spec hcombine hsquare (exp.log2 + 1) Nat.lt_log2_self hstart
    (rfl : base.tmod m = base.tmod m)
  rw [one_mul] at hresult
  rw [modPow, Int.toNat_natCast, hloop, hresult]

theorem natCast_tmod (n m : ℕ) : ((n : ℤ)).tmod m = ((n % m : ℕ) : ℤ) := rfl

theorem modPow_nat (base exp : ℕ) {m : ℕ} (hm : 1 < m) : modPow base exp m = .ok ((base ^ exp % m : ℕ) : ℤ) := by
  rw [modPow_eq _ _ hm, ← Nat.cast_pow, natCast_tmod]

theorem modMul_nat (a b m : ℕ) : modMul a b m = ((a * b % m : ℕ) : ℤ) := by
  rw [modMul, ← Nat.cast_mul, natCast_tmod]

theorem modAdd_nat (a b m : ℕ) : modAdd a b m = (((a + b) % m : ℕ) : ℤ) := by
  rw [modAdd, ← Nat.cast_add, natCast_tmod]

theorem cast_tmod (a : ℤ) (m : ℕ) : ((a.tmod m : ℤ) : ZMod m) = a := by
  rw [Int.tmod_def]
  push_cast
  rw [ZMod.natCast_self, zero_mul, sub_zero]

/-! ## Values -/

/-- The value of the polynomial with these coefficients. -/
def value (as : List ℕ) (x : ℕ) : ℕ := ∑ j ∈ Finset.range as.length, as.getD j 0 * x ^ j

theorem value_concat (as : List ℕ) (a x : ℕ) : value (as ++ [a]) x = value as x + a * x ^ as.length := by
  rw [value, List.length_append, List.length_singleton, Finset.sum_range_succ]
  congr 1
  · refine Finset.sum_congr rfl fun j hj => ?_
    rw [List.getD_append _ _ _ _ (Finset.mem_range.mp hj)]
  · rw [List.getD_append_right _ _ _ _ le_rfl, Nat.sub_self]
    rfl

noncomputable def residues (as : List ℕ) : Polynomial (ZMod VSS_Q) :=
  Feldman.polynomial (fun j => (as.getD j 0 : ZMod VSS_Q)) as.length

theorem value_cast (as : List ℕ) (x : ℕ) : ((value as x : ℕ) : ZMod VSS_Q) = (residues as).eval (x : ZMod VSS_Q) := by
  rw [residues, Feldman.polynomial_eval, value]
  push_cast
  rfl

theorem residues_zero {as : List ℕ} (h : as ≠ []) : (residues as).eval 0 = (as.headD 0 : ZMod VSS_Q) := by
  rw [residues, Feldman.polynomial_zero _ (List.length_pos_of_ne_nil h)]
  cases as with
  | nil => exact absurd rfl h
  | cons a as => rfl

/-- Operations that are those of the residues on naturals. -/
structure Residual (add mul : ℤ → ℤ → ℤ → ℤ) (pow : ℤ → ℤ → ℤ → Result ℤ) : Prop where
  add : ∀ a b m : ℕ, add a b m = (((a + b) % m : ℕ) : ℤ)
  mul : ∀ a b m : ℕ, mul a b m = ((a * b % m : ℕ) : ℤ)
  pow : ∀ base exp m : ℕ, 1 < m → pow base exp m = .ok ((base ^ exp % m : ℕ) : ℤ)

theorem residual : Residual modAdd modMul modPow where
  add := modAdd_nat
  mul := modMul_nat
  pow base exp _ hm := modPow_nat base exp hm

section Loops
variable {add mul : ℤ → ℤ → ℤ → ℤ} {pow : ℤ → ℤ → ℤ → Result ℤ} (hops : Residual add mul pow)
include hops

theorem Residual.evaluate (as : List ℕ) (x : ℕ) :
    (as.map Int.ofNat).foldl (fun (y, xPower) c => (add y (mul c xPower VSS_Q) VSS_Q, mul xPower x VSS_Q)) (0, 1) =
      (((value as x % VSS_Q : ℕ) : ℤ), ((x ^ as.length % VSS_Q : ℕ) : ℤ)) := by
  induction as using List.reverseRecOn with
  | nil => rw [List.length_nil, pow_zero, Nat.mod_eq_of_lt one_lt_VSS_Q]; rfl
  | append_singleton as a ih =>
    have ha : Int.ofNat a = ((a : ℕ) : ℤ) := rfl
    rw [List.map_append, List.foldl_append, ih, List.map_singleton, List.foldl_cons, List.foldl_nil, ha]
    dsimp only
    rw [hops.mul, hops.mul, hops.add, value_concat, List.length_append, List.length_singleton, pow_succ,
      Nat.mod_add_mod, Nat.add_mod_mod, Nat.mod_mul_mod, Nat.add_mod, Nat.mul_mod_mod, ← Nat.add_mod]

end Loops

/-! ## Commitments -/

theorem generator_pow_inj {m n : ℕ} : 4 ^ m % VSS_P = 4 ^ n % VSS_P ↔ (m : ZMod VSS_Q) = n := by
  have htwo : (2 : ZMod VSS_P) ≠ 0 := by decide
  have hone : (2 * 2 : ZMod VSS_P) ≠ 1 := by decide
  have hinj := Feldman.square_pow_inj (q := VSS_Q) (by decide) htwo hone (m := m) (n := n)
  have hfour : (2 * 2 : ZMod VSS_P) = ((4 : ℕ) : ZMod VSS_P) := by norm_num
  rw [hfour, ← Nat.cast_pow, ← Nat.cast_pow, ZMod.natCast_eq_natCast_iff] at hinj
  exact hinj

/-- These strings stand for commitments to these coefficients. -/
def Commits (commitments : List JsString) (as : List ℕ) : Prop :=
  List.Forall₂ (fun c a => bigInt (js "0x" ++ c) = .ok ((4 ^ a % VSS_P : ℕ) : ℤ)) commitments as

theorem Residual.committedPower {add mul : ℤ → ℤ → ℤ → ℤ} {pow : ℤ → ℤ → ℤ → Result ℤ} (hops : Residual add mul pow)
    {commitments : List JsString} {as : List ℕ} (h : Commits commitments as) (x : ℕ) :
    Loops.tryUpTo commitments.length (fun j rhs => do
      let cj ← bigInt (js "0x" ++ commitments.getD j [])
      let xPower ← pow x j VSS_Q
      let term ← pow cj xPower VSS_P
      return mul rhs term VSS_P) 1 = .ok ((4 ^ value as x % VSS_P : ℕ) : ℤ) := by
  have hlength := h.length_eq
  obtain ⟨rhs, hrun, hrhs⟩ : ∃ rhs, Loops.tryUpTo commitments.length (fun j rhs => do
      let cj ← bigInt (js "0x" ++ commitments.getD j [])
      let xPower ← pow x j VSS_Q
      let term ← pow cj xPower VSS_P
      return mul rhs term VSS_P) 1 = .ok rhs ∧
      rhs = ((∏ j ∈ Finset.range commitments.length, (4 ^ as.getD j 0) ^ (x ^ j % VSS_Q)) % VSS_P : ℕ) := by
    refine Loops.tryUpTo_spec (P := fun n rhs =>
      rhs = (((∏ j ∈ Finset.range n, (4 ^ as.getD j 0) ^ (x ^ j % VSS_Q)) % VSS_P : ℕ) : ℤ)) ?_ ?_
    · rw [Finset.range_zero, Finset.prod_empty, Nat.mod_eq_of_lt one_lt_VSS_P]
      rfl
    · rintro j hj _ rfl
      have hcj := h.get hj (hlength ▸ hj)
      rw [List.get_eq_getElem, List.get_eq_getElem, ← List.getD_eq_getElem _ [], ← List.getD_eq_getElem _ 0] at hcj
      refine ⟨_, ?_, rfl⟩
      simp only [hcj, bind, Except.bind, hops.pow _ _ _ one_lt_VSS_Q, hops.pow _ _ _ one_lt_VSS_P, pure, Except.pure,
        hops.mul]
      rw [Finset.prod_range_succ, ← Nat.mul_mod, Nat.mul_mod, ← Nat.pow_mod, ← Nat.mul_mod]
  have hexponents : ((∑ j ∈ Finset.range commitments.length, as.getD j 0 * (x ^ j % VSS_Q) : ℕ) : ZMod VSS_Q) =
      (value as x : ℕ) := by
    rw [value, hlength]
    push_cast
    refine Finset.sum_congr rfl fun j _ => ?_
    rw [← Nat.cast_pow, ZMod.natCast_mod]
  rw [hrun, hrhs, Feldman.prod_commitments, generator_pow_inj.mpr hexponents]

theorem commitment_eq (a : ℕ) : commitment a = .ok (padStart (toString16 ((4 ^ a % VSS_P : ℕ) : ℤ)) (some 66)) := by
  have hpower : modPow VSS_G a VSS_P = .ok ((4 ^ a % VSS_P : ℕ) : ℤ) := modPow_nat 4 a one_lt_VSS_P
  rw [commitment, hpower]
  rfl

end ChainGuard.OffChain.Secrets
