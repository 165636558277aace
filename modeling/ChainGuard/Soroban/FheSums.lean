import ChainGuard.Soroban.Primitives
import Mathlib.Data.Nat.Digits.Defs

/-! What the limb arithmetic of `fhe_add` computes, as numbers: the sum of two words with at most one
multiple of the prime off. -/
namespace ChainGuard.Soroban
open Guarded
set_option autoImplicit false

variable {carry borrow : ℕ} {as bs : List ℕ} {w w1 w2 : Bytes}

/-! ## Limbs as digits -/

@[simp] theorem addLimbs_length (h : as.length = bs.length) : (addLimbs carry as bs).1.length = as.length := by
  fun_induction addLimbs carry as bs with
  | case1 carry a as b bs val rest ih => rw [List.length_cons, ih (by simpa using h), List.length_cons]
  | case2 as carry bs hends => rw [(both_nil h hends).1]

theorem addLimbs_lt : ∀ l ∈ (addLimbs carry as bs).1, l < 2 ^ 64 := by
  fun_induction addLimbs carry as bs with
  | case1 carry a as b bs val rest ih => exact List.forall_mem_cons.mpr ⟨Nat.mod_lt _ (by decide), ih⟩
  | case2 => exact nofun

theorem addLimbs_ofDigits (h : as.length = bs.length) :
    Nat.ofDigits (2 ^ 64) (addLimbs carry as bs).1 + (2 ^ 64) ^ as.length * (addLimbs carry as bs).2 =
      Nat.ofDigits (2 ^ 64) as + Nat.ofDigits (2 ^ 64) bs + carry := by
  fun_induction addLimbs carry as bs with
  | case1 carry a as b bs val rest ih =>
    have hval : val = a + b + carry := rfl
    have hlimb := Nat.mod_add_div val (2 ^ 64)
    have hrest : Nat.ofDigits (2 ^ 64) rest.1 + (2 ^ 64) ^ as.length * rest.2 =
        Nat.ofDigits (2 ^ 64) as + Nat.ofDigits (2 ^ 64) bs + val / 2 ^ 64 := ih (by simpa using h)
    have hpow : (2 ^ 64) ^ (as.length + 1) * rest.2 = 2 ^ 64 * ((2 ^ 64) ^ as.length * rest.2) := by
      rw [pow_succ' (2 ^ 64) as.length, mul_assoc]
    simp only [Nat.ofDigits_cons, List.length_cons, hpow]
    omega
  | case2 as carry bs hends =>
    obtain ⟨rfl, rfl⟩ := both_nil h hends
    simp

/-- The comparison from the top is that of the numbers. -/
theorem geLimbs_iff (h : as.length = bs.length) (has : ∀ l ∈ as, l < 2 ^ 64) (hbs : ∀ l ∈ bs, l < 2 ^ 64) :
    geLimbs as bs = true ↔ Nat.ofDigits (2 ^ 64) bs.reverse ≤ Nat.ofDigits (2 ^ 64) as.reverse := by
  induction as generalizing bs with
  | nil =>
    cases bs with
    | nil => simp [geLimbs]
    | cons b bs => simp at h
  | cons a as ih =>
    cases bs with
    | nil => simp at h
    | cons b bs =>
      have hlength : as.length = bs.length := by simpa using h
      have hrest := ih hlength (fun l hl => has l (List.mem_cons_of_mem a hl))
        (fun l hl => hbs l (List.mem_cons_of_mem b hl))
      have ha : Nat.ofDigits (2 ^ 64) as.reverse < (2 ^ 64) ^ as.length := by
        rw [← List.length_reverse]
        exact Nat.ofDigits_lt_base_pow_length (by decide) fun l hl =>
          has l (List.mem_cons_of_mem a (List.mem_reverse.mp hl))
      have hb : Nat.ofDigits (2 ^ 64) bs.reverse < (2 ^ 64) ^ as.length := by
        rw [hlength, ← List.length_reverse]
        exact Nat.ofDigits_lt_base_pow_length (by decide) fun l hl =>
          hbs l (List.mem_cons_of_mem b (List.mem_reverse.mp hl))
      simp only [geLimbs, List.reverse_cons, Nat.ofDigits_append, Nat.ofDigits_singleton, List.length_reverse,
        ← hlength]
      generalize (2 ^ 64) ^ as.length = top at ha hb
      obtain hlt | rfl | hlt := lt_trichotomy a b
      · have hstep : top * a + top ≤ top * b := by rw [← Nat.mul_succ]; exact Nat.mul_le_mul_left top hlt
        rw [if_neg (by omega), if_pos hlt]
        constructor
        · intro hfalse
          cases hfalse
        · intro hle
          omega
      · rw [if_neg (Nat.lt_irrefl a), if_neg (Nat.lt_irrefl a), hrest]
        omega
      · have hstep : top * b + top ≤ top * a := by rw [← Nat.mul_succ]; exact Nat.mul_le_mul_left top hlt
        rw [if_pos hlt]
        constructor
        · intro _
          omega
        · intro _
          rfl

@[simp] theorem subLimbs_length (h : as.length = bs.length) : (subLimbs borrow as bs).length = as.length := by
  fun_induction subLimbs borrow as bs with
  | case1 borrow a as b bs hlt ih | case2 borrow a as b bs hle ih =>
    rw [List.length_cons, ih (by simpa using h), List.length_cons]
  | case3 as borrow bs hends => rw [(both_nil h hends).1]

theorem subLimbs_lt (has : ∀ l ∈ as, l < 2 ^ 64) : ∀ l ∈ subLimbs borrow as bs, l < 2 ^ 64 := by
  fun_induction subLimbs borrow as bs with
  | case1 borrow a as b bs hlt ih | case2 borrow a as b bs hle ih =>
    obtain ⟨ha, has⟩ := List.forall_mem_cons.mp has
    exact List.forall_mem_cons.mpr ⟨by omega, ih has⟩
  | case3 => exact nofun

theorem subLimbs_ofDigits (h : as.length = bs.length) (hbs : ∀ l ∈ bs, l < 2 ^ 64) (hborrow : borrow ≤ 1) :
    ∃ out, Nat.ofDigits (2 ^ 64) (subLimbs borrow as bs) + Nat.ofDigits (2 ^ 64) bs + borrow =
      Nat.ofDigits (2 ^ 64) as + (2 ^ 64) ^ as.length * out := by
  fun_induction subLimbs borrow as bs with
  | case1 borrow a as b bs hlt ih | case2 borrow a as b bs hle ih =>
    obtain ⟨hb, hbs⟩ := List.forall_mem_cons.mp hbs
    obtain ⟨out, hout⟩ := ih (by simpa using h) hbs (by decide)
    refine ⟨out, ?_⟩
    rw [List.length_cons, pow_succ' (2 ^ 64) as.length]
    simp only [Nat.ofDigits_cons, mul_assoc]
    omega
  | case3 as borrow bs hends =>
    obtain ⟨rfl, rfl⟩ := both_nil h hends
    exact ⟨borrow, by simp⟩

theorem natBE_limbs (has : ∀ l ∈ as, l < 2 ^ 64) :
    natBE (as.reverse.flatMap (bytesBE 8)) = Nat.ofDigits (2 ^ 64) as := by
  induction as with
  | nil => rfl
  | cons a as ih =>
    have ha := has a List.mem_cons_self
    rw [List.reverse_cons, List.flatMap_append, List.flatMap_singleton, natBE_append, bytesBE_length,
      ih fun l hl => has l (List.mem_cons_of_mem a hl), natBE_bytesBE, Nat.mod_eq_of_lt (by omega),
      Nat.ofDigits_cons]
    omega

theorem flatMap_bytesBE (has : ∀ l ∈ as, l < 2 ^ 64) :
    as.reverse.flatMap (bytesBE 8) = bytesBE (8 * as.length) (Nat.ofDigits (2 ^ 64) as) := by
  have hlength : (as.reverse.flatMap (bytesBE 8)).length = 8 * as.length := by
    simp [List.length_flatMap, mul_comm]
  rw [← natBE_limbs has, ← hlength, bytesBE_natBE]

/-! ## A word -/

theorem limbs_ofDigits (h : w.length = 32) : Nat.ofDigits (2 ^ 64) (limbs w) = natBE w := by
  have hread : ∀ offset, natBE (w.drop offset) =
      natBE ((w.drop offset).take 8) * 256 ^ (24 - offset) + natBE (w.drop (offset + 8)) := by
    intro offset
    have hsplit : w.drop offset = (w.drop offset).take 8 ++ w.drop (offset + 8) := by
      rw [← List.drop_drop, List.take_append_drop]
    have hlength : (w.drop (offset + 8)).length = 24 - offset := by
      rw [List.length_drop, h]
      omega
    conv_lhs => rw [hsplit]
    rw [natBE_append, hlength]
  have hend : w.drop 32 = [] := List.drop_eq_nil_of_le h.le
  have hvalue : natBE w = _ := hread 0
  rw [hread 8, hread 16, hread 24, hend, show natBE [] = 0 from rfl] at hvalue
  rw [hvalue]
  simp only [limbs, List.range_succ, List.range_zero, List.nil_append, List.cons_append, List.map_cons, List.map_nil,
    Nat.ofDigits_cons, Nat.ofDigits_nil]
  norm_num
  ring

/-- The words' modulus, q. -/
def FHE_PRIME : ℕ := 2 ^ 256 - 2 ^ 32 - 977

theorem primeLimbs_ofDigits : Nat.ofDigits (2 ^ 64) FHE_PRIME_LIMBS = FHE_PRIME := by decide

theorem primeLimbs_lt : ∀ l ∈ FHE_PRIME_LIMBS, l < 2 ^ 64 := by decide

/-- One subtraction of the prime, within a word. -/
def sumOnce (a b : ℕ) : ℕ := if FHE_PRIME ≤ a + b then (a + b - FHE_PRIME) % 2 ^ 256 else a + b

theorem sumOnce_lt {a b : ℕ} : sumOnce a b < 2 ^ 256 := by
  unfold sumOnce
  split
  · exact Nat.mod_lt _ (by decide)
  · next h => exact (not_le.mp h).trans (by decide)

/-- The carry and the comparison together tell whether the sum reaches the prime. -/
theorem geQ_iff {sum : List ℕ × ℕ} {n : ℕ} (hlength : sum.1.length = 4) (hlt : ∀ l ∈ sum.1, l < 2 ^ 64)
    (hsum : Nat.ofDigits (2 ^ 64) sum.1 + 2 ^ 256 * sum.2 = n) :
    0 < sum.2 ∨ geLimbs sum.1.reverse FHE_PRIME_LIMBS.reverse = true ↔ FHE_PRIME ≤ n := by
  have hprime : FHE_PRIME < 2 ^ 256 := by decide
  have hlow := Nat.ofDigits_lt_base_pow_length (by decide) hlt
  rw [hlength] at hlow
  rw [geLimbs_iff (by rw [List.length_reverse, hlength]; rfl) (fun l hl => hlt l (List.mem_reverse.mp hl))
    (fun l hl => primeLimbs_lt l (List.mem_reverse.mp hl)), List.reverse_reverse, List.reverse_reverse,
    primeLimbs_ofDigits]
  omega

theorem subPrime_ofDigits {sum : List ℕ × ℕ} {n : ℕ} (hlength : sum.1.length = 4) (hlt : ∀ l ∈ sum.1, l < 2 ^ 64)
    (hsum : Nat.ofDigits (2 ^ 64) sum.1 + 2 ^ 256 * sum.2 = n) (hle : FHE_PRIME ≤ n) :
    Nat.ofDigits (2 ^ 64) (subLimbs 0 sum.1 FHE_PRIME_LIMBS) = (n - FHE_PRIME) % 2 ^ 256 := by
  have hlengths : sum.1.length = FHE_PRIME_LIMBS.length := hlength
  have hdifference : ∀ l ∈ subLimbs 0 sum.1 FHE_PRIME_LIMBS, l < 2 ^ 64 := subLimbs_lt hlt
  have hvalue := Nat.ofDigits_lt_base_pow_length (by decide) hdifference
  obtain ⟨out, hout⟩ := subLimbs_ofDigits hlengths primeLimbs_lt (Nat.zero_le 1)
  rw [subLimbs_length hlengths, hlength] at hvalue
  rw [primeLimbs_ofDigits, hlength] at hout
  omega

theorem addModQ256_value (h1 : w1.length = 32) (h2 : w2.length = 32) :
    addModQ256 w1 w2 = word (sumOnce (natBE w1) (natBE w2)) := by
  have hlength : (limbs w1).length = (limbs w2).length := rfl
  have hfour : (addLimbs 0 (limbs w1) (limbs w2)).1.length = 4 := addLimbs_length hlength
  have hlt : ∀ l ∈ (addLimbs 0 (limbs w1) (limbs w2)).1, l < 2 ^ 64 := addLimbs_lt
  have hsum : Nat.ofDigits (2 ^ 64) (addLimbs 0 (limbs w1) (limbs w2)).1 +
      2 ^ 256 * (addLimbs 0 (limbs w1) (limbs w2)).2 = natBE w1 + natBE w2 := by
    have hdigits := @addLimbs_ofDigits 0 _ _ hlength
    rwa [limbs_ofDigits h1, limbs_ofDigits h2, Nat.add_zero, show (limbs w1).length = 4 from rfl,
      ← pow_mul] at hdigits
  have hprime : FHE_PRIME_LIMBS.length = 4 := rfl
  simp only [addModQ256, geQ_iff hfour hlt hsum, sumOnce]
  split
  case isTrue hle =>
    rw [flatMap_bytesBE (subLimbs_lt hlt), subLimbs_length (hfour.trans hprime.symm), hfour,
      subPrime_ofDigits hfour hlt hsum hle]
    rfl
  case isFalse hnot =>
    have hlow : Nat.ofDigits (2 ^ 64) (addLimbs 0 (limbs w1) (limbs w2)).1 = natBE w1 + natBE w2 := by
      have hbelow : natBE w1 + natBE w2 < 2 ^ 256 := (not_le.mp hnot).trans (by decide)
      omega
    rw [flatMap_bytesBE hlt, hfour, hlow]
    rfl

/-! ## Ciphertexts -/

def numberAt (ct : Bytes) (i : ℕ) : ℕ := natBE (wordAt ct i)

theorem wordAt_length {ct : Bytes} {i : ℕ} (h : (i + 1) * 32 ≤ ct.length) : (wordAt ct i).length = 32 := by
  rw [wordAt, List.length_take, List.length_drop]
  omega

theorem word_natBE {w : Bytes} (h : w.length = 32) : word (natBE w) = w := by
  have hround := bytesBE_natBE w
  rwa [h] at hround

theorem numberAt_lt {ct : Bytes} {i : ℕ} : numberAt ct i < 2 ^ 256 := by
  have hlength : (wordAt ct i).length ≤ 32 := List.length_take_le _ _
  exact (natBE_lt _).trans_le (Nat.pow_le_pow_right (by decide) hlength)

/-- The sums of the words `1 .. n`, as `fhe_add` reduces them. -/
def sumsOnce (ct1 ct2 : Bytes) (n : ℕ) : List ℕ :=
  (List.range n).map fun i => sumOnce (numberAt ct1 (i + 1)) (numberAt ct2 (i + 1))

/-- Ciphertexts of one length are added, whatever dimension they declare. -/
theorem fheAdd_ok {ct1 ct2 sum : Bytes} (h1 : ct1 ≠ []) (h2 : ct2 ≠ []) :
    fheAdd ct1 ct2 = .ok sum ↔ (96 ≤ ct1.length ∧ 96 ≤ ct2.length) ∧ ct1.length = ct2.length ∧
      sum = ct1.take 32 ++ (sumsOnce ct1 ct2 (ct1.length / 32 - 1)).flatMap word := by
  unfold fheAdd
  rw [if_neg h1, if_neg h2]
  simp only [assert, revertIf_bind, not_not, pure_ok]
  refine and_congr_right fun _ => and_congr_right fun hlength => ?_
  have hwords : ((List.range (ct1.length / 32 - 1)).flatMap fun i =>
      addModQ256 (wordAt ct1 (i + 1)) (wordAt ct2 (i + 1))) =
        (sumsOnce ct1 ct2 (ct1.length / 32 - 1)).flatMap word := by
    rw [sumsOnce, List.flatMap_map]
    refine List.flatMap_congr fun i hi => ?_
    have hin : (i + 1 + 1) * 32 ≤ ct1.length := by
      have hlt := List.mem_range.mp hi
      omega
    rw [addModQ256_value (wordAt_length hin) (wordAt_length (hlength ▸ hin)), numberAt, numberAt]
  rw [hwords]
  exact eq_comm

end ChainGuard.Soroban
