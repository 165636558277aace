import Mathlib.FieldTheory.Finite.Basic

/-! The square-and-multiply loop, from the low bit of the exponent up, over operations that may fail.
Where the operations represent those of a monoid, the loop returns a representative of the power. -/
namespace BinaryPower
set_option autoImplicit false

universe u v w

variable {α : Type u} {β : Type u} {ε : Type v} {M : Type w} [Monoid M]

/-- `while (e > 0) { if (e & 1) acc = combine(acc, base); base = square(base); e >>= 1; }`, so many
rounds of it. -/
def loop (combine : α → β → Except ε α) (square : β → Except ε β) : ℕ → α → β → ℕ → Except ε α
  | 0, acc, _, _ => pure acc
  | fuel + 1, acc, base, e =>
    if e = 0 then pure acc
    else do
      let acc ← if e % 2 = 1 then combine acc base else pure acc
      let base ← square base
      loop combine square fuel acc base (e / 2)

variable {combine : α → β → Except ε α} {square : β → Except ε β} {R : α → M → Prop} {S : β → M → Prop}

theorem pow_step (x y : M) {e : ℕ} (he : e % 2 = 1) : x * y * (y * y) ^ (e / 2) = x * y ^ e := by
  have hsplit : 1 + 2 * (e / 2) = e := by omega
  calc
    x * y * (y * y) ^ (e / 2) = x * (y ^ 1 * y ^ (2 * (e / 2))) := by
      rw [pow_one, pow_mul, pow_two, mul_assoc]
    _ = x * y ^ e := by rw [← pow_add, hsplit]

theorem pow_skip (x y : M) {e : ℕ} (he : e % 2 = 0) : x * (y * y) ^ (e / 2) = x * y ^ e := by
  have hsplit : 2 * (e / 2) = e := by omega
  rw [← pow_two, ← pow_mul, hsplit]

theorem loop_spec (hcombine : ∀ a b x y, R a x → S b y → ∃ a', combine a b = .ok a' ∧ R a' (x * y))
    (hsquare : ∀ b y, S b y → ∃ b', square b = .ok b' ∧ S b' (y * y)) (fuel : ℕ) :
    ∀ {acc : α} {base : β} {e : ℕ} {x y : M}, e < 2 ^ fuel → R acc x → S base y →
      ∃ a, loop combine square fuel acc base e = .ok a ∧ R a (x * y ^ e) := by
  induction fuel with
  | zero =>
    intro acc base e x y he hacc _
    obtain rfl : e = 0 := by omega
    exact ⟨acc, rfl, by rwa [pow_zero, mul_one]⟩
  | succ fuel ih =>
    intro acc base e x y he hacc hbase
    have hhalf : e / 2 < 2 ^ fuel := by omega
    obtain ⟨base', hsquared, hbase'⟩ := hsquare base y hbase
    unfold loop
    by_cases hzero : e = 0
    · subst hzero
      exact ⟨acc, if_pos rfl, by rwa [pow_zero, mul_one]⟩
    rw [if_neg hzero]
    by_cases hodd : e % 2 = 1
    · obtain ⟨acc', hcombined, hacc'⟩ := hcombine acc base x y hacc hbase
      obtain ⟨a, hloop, ha⟩ := ih hhalf hacc' hbase'
      rw [pow_step x y hodd] at ha
      refine ⟨a, ?_, ha⟩
      rw [if_pos hodd, hcombined, ← hloop]
      simp only [bind, Except.bind, hsquared]
    · obtain ⟨a, hloop, ha⟩ := ih hhalf hacc hbase'
      rw [pow_skip x y (by omega)] at ha
      refine ⟨a, ?_, ha⟩
      rw [if_neg hodd, ← hloop]
      simp only [bind, Except.bind, pure, Except.pure, hsquared]

/-- The power that loops over a prime field take for the inverse. -/
theorem inv_eq_pow {p : ℕ} [Fact p.Prime] (hp : 2 < p) (a : ZMod p) : a⁻¹ = a ^ (p - 2) := by
  by_cases hzero : a = 0
  · rw [hzero, inv_zero, zero_pow (by omega)]
  · have hexponent : p - 2 + 1 = p - 1 := by omega
    refine (eq_inv_of_mul_eq_one_left ?_).symm
    rw [← pow_succ, hexponent, ZMod.pow_card_sub_one_eq_one hzero]

end BinaryPower
