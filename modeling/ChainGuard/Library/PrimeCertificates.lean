import Mathlib.NumberTheory.LucasPrimality
import Mathlib.Tactic.NormNum.Prime
import ChainGuard.Library.BinaryPower

/-! Primality from a base of full order and the prime factors of the number below, checked by computation: a table of
certificates in which the factors of each number are known primes or numbers that are certified before it. -/
namespace Lucas
set_option autoImplicit false

structure Certificate where
  p : ℕ
  base : ℕ
  factors : List ℕ

/-- `base ^ e` modulo `p` -/
def power (p base e : ℕ) : Except Unit ℕ :=
  BinaryPower.loop (fun acc b => .ok (acc * b % p)) (fun b => .ok (b * b % p)) (e.log2 + 1) 1 base e

theorem power_spec (p base e : ℕ) : ∃ r, power p base e = .ok r ∧ (r : ZMod p) = (base : ZMod p) ^ e := by
  have hcombine : ∀ (a b : ℕ) (x y : ZMod p), (a : ZMod p) = x → (b : ZMod p) = y →
      ∃ a', (.ok (a * b % p) : Except Unit ℕ) = .ok a' ∧ (a' : ZMod p) = x * y := by
    rintro a b x y rfl rfl
    exact ⟨_, rfl, by simp⟩
  have hsquare : ∀ (b : ℕ) (y : ZMod p), (b : ZMod p) = y →
      ∃ b', (.ok (b * b % p) : Except Unit ℕ) = .ok b' ∧ (b' : ZMod p) = y * y := by
    rintro b y rfl
    exact ⟨_, rfl, by simp⟩
  have hone : ((1 : ℕ) : ZMod p) = 1 := Nat.cast_one
  have hloop := BinaryPower.loop_spec hcombine hsquare (e.log2 + 1) Nat.lt_log2_self hone (Eq.refl (base : ZMod p))
  rwa [one_mul] at hloop

/-- The power is one modulo `p`. -/
def powerIsOne (p base e : ℕ) : Bool :=
  match power p base e with
  | .ok r => decide (r % p = 1 % p)
  | .error _ => false

theorem powerIsOne_iff (p base e : ℕ) : powerIsOne p base e = true ↔ (base : ZMod p) ^ e = 1 := by
  obtain ⟨r, hpower, hr⟩ := power_spec p base e
  have hone : ((1 : ℕ) : ZMod p) = 1 := Nat.cast_one
  rw [powerIsOne, hpower, decide_eq_true_eq, ← hr, ← hone, ZMod.natCast_eq_natCast_iff']

def Certificate.checks (c : Certificate) (known : List ℕ) : Bool :=
  c.factors.all known.contains && decide (c.factors.prod = c.p - 1) && powerIsOne c.p c.base (c.p - 1) &&
    c.factors.all fun q => !powerIsOne c.p c.base ((c.p - 1) / q)

theorem Certificate.prime {c : Certificate} {known : List ℕ} (hknown : ∀ q ∈ known, q.Prime)
    (h : c.checks known = true) : c.p.Prime := by
  simp only [checks, Bool.and_eq_true, List.all_eq_true, List.contains_iff_mem, decide_eq_true_eq, powerIsOne_iff,
    Bool.not_eq_true', ← Bool.not_eq_true] at h
  obtain ⟨⟨⟨hfactors, hprod⟩, hone⟩, hne⟩ := h
  refine lucas_primality c.p (c.base : ZMod c.p) hone ?_
  intro q hq hdvd
  rw [← hprod] at hdvd
  obtain ⟨f, hf, hqf⟩ := (Prime.dvd_prod_iff hq.prime).mp hdvd
  obtain rfl : q = f := (Nat.prime_dvd_prime_iff_eq hq (hknown f (hfactors f hf))).mp hqf
  exact hne q hf

/-- The certificates of a table, newest first. -/
def checkAll (known : List ℕ) : List Certificate → Bool
  | [] => true
  | c :: earlier => checkAll known earlier && c.checks (earlier.map Certificate.p ++ known)

theorem primes_of_checkAll {known : List ℕ} (hknown : ∀ q ∈ known, q.Prime) (table : List Certificate)
    (h : checkAll known table = true) : ∀ q ∈ table.map Certificate.p ++ known, q.Prime := by
  induction table with
  | nil => exact hknown
  | cons c earlier ih =>
    rw [checkAll, Bool.and_eq_true] at h
    have hearlier := ih h.1
    intro q hq
    rcases List.mem_cons.mp hq with rfl | hq
    · exact Certificate.prime hearlier h.2
    · exact hearlier q hq

theorem prime_of_table (known : List ℕ) (hknown : ∀ q ∈ known, q.Prime) (c : Certificate) (earlier : List Certificate)
    (h : checkAll known (c :: earlier) = true) : c.p.Prime :=
  primes_of_checkAll hknown (c :: earlier) h _ (List.mem_cons_self ..)

end Lucas
