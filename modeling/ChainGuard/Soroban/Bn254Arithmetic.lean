import ChainGuard.Library.Bn254
import ChainGuard.Library.Loops
import ChainGuard.Soroban.Bn254

/-! What the limb arithmetic of the base field computes: on Montgomery forms, every operation is that of the
field. -/
namespace ChainGuard.Soroban.ZkVerifier
open Bn254 (fieldModulus)
set_option autoImplicit false

/-! ## Limbs as digits -/

/-- The number of the limbs, the low one first. -/
def limbsValue (ts : List ℕ) : ℕ := Nat.ofDigits (2 ^ 64) ts

@[simp] theorem limbsValue_nil : limbsValue [] = 0 := rfl

@[simp] theorem limbsValue_cons (t : ℕ) (ts : List ℕ) : limbsValue (t :: ts) = t + 2 ^ 64 * limbsValue ts := by
  rw [limbsValue, Nat.ofDigits_cons]
  rfl

theorem limbsValue_append (ts us : List ℕ) :
    limbsValue (ts ++ us) = limbsValue ts + (2 ^ 64) ^ ts.length * limbsValue us := Nat.ofDigits_append

theorem limbsValue_lt {ts : List ℕ} (h : ∀ t ∈ ts, t < 2 ^ 64) : limbsValue ts < (2 ^ 64) ^ ts.length :=
  Nat.ofDigits_lt_base_pow_length (by decide) h

theorem limbsValue_take_drop (n : ℕ) {ts : List ℕ} (h : n ≤ ts.length) :
    limbsValue ts = limbsValue (ts.take n) + (2 ^ 64) ^ n * limbsValue (ts.drop n) := by
  conv_lhs => rw [← List.take_append_drop n ts]
  rw [limbsValue_append, List.length_take, Nat.min_eq_left h]

theorem limbsValue_replicate (n : ℕ) : limbsValue (List.replicate n 0) = 0 := by
  induction n with
  | zero => rfl
  | succ n ih => rw [List.replicate_succ, limbsValue_cons, ih, Nat.mul_zero]

namespace Fp

theorem toNat_eq (a : Fp) : a.toNat = limbsValue (a.limbs.map UInt64.toNat) := by
  simp only [limbs, List.map_cons, List.map_nil, limbsValue_cons, limbsValue_nil, toNat]
  omega

theorem toNat_lt (a : Fp) : a.toNat < 2 ^ 256 := by
  have h0 := a.l0.toNat_lt
  have h1 := a.l1.toNat_lt
  have h2 := a.l2.toNat_lt
  have h3 := a.l3.toNat_lt
  unfold toNat
  omega

theorem toNat_injective {a b : Fp} (h : a.toNat = b.toNat) : a = b := by
  have ha0 := a.l0.toNat_lt
  have ha1 := a.l1.toNat_lt
  have ha2 := a.l2.toNat_lt
  have hb0 := b.l0.toNat_lt
  have hb1 := b.l1.toNat_lt
  have hb2 := b.l2.toNat_lt
  cases a with
  | mk a0 a1 a2 a3 =>
    cases b with
    | mk b0 b1 b2 b3 =>
      simp only [toNat] at h ha0 ha1 ha2 hb0 hb1 hb2
      have h0 : a0 = b0 := UInt64.toNat_inj.mp (by omega)
      have h1 : a1 = b1 := UInt64.toNat_inj.mp (by omega)
      have h2 : a2 = b2 := UInt64.toNat_inj.mp (by omega)
      have h3 : a3 = b3 := UInt64.toNat_inj.mp (by omega)
      rw [h0, h1, h2, h3]

theorem ofLimbs_toNat {ls : List UInt64} (h : ls.length = 4) :
    (ofLimbs ls).toNat = limbsValue (ls.map UInt64.toNat) := by
  rw [toNat_eq]
  match ls, h with
  | [_, _, _, _], _ => rfl

theorem modulus_toNat : modulus.toNat = fieldModulus := by decide

/-! ## Sums and differences -/

theorem addLimbs_value {as bs : List UInt64} (h : as.length = bs.length) (carry : ℕ) :
    (addLimbs as bs carry).length = as.length ∧
      ∃ out, limbsValue ((addLimbs as bs carry).map UInt64.toNat) + (2 ^ 64) ^ as.length * out =
        limbsValue (as.map UInt64.toNat) + limbsValue (bs.map UInt64.toNat) + carry := by
  fun_induction addLimbs as bs carry with
  | case1 a as b bs carry sum ih =>
    obtain ⟨hlength, out, hrest⟩ := ih (by simpa using h)
    refine ⟨by rw [List.length_cons, List.length_cons, hlength], out, ?_⟩
    have hsum : sum = a.toNat + b.toNat + carry := rfl
    have hlimb := Nat.mod_add_div sum (2 ^ 64)
    have hpow : (2 ^ 64) ^ (as.length + 1) * out = 2 ^ 64 * ((2 ^ 64) ^ as.length * out) := by
      rw [pow_succ' (2 ^ 64) as.length, mul_assoc]
    simp only [List.map_cons, limbsValue_cons, List.length_cons, UInt64.toNat_ofNat', hpow]
    omega
  | case2 as bs carry hends =>
    obtain ⟨rfl, rfl⟩ := both_nil h hends
    exact ⟨rfl, carry, by simp⟩

theorem subLimbs_value {as bs : List UInt64} (h : as.length = bs.length) {borrow : ℤ} (hborrow : borrow = 0 ∨ borrow = 1) :
    (subLimbs as bs borrow).length = as.length ∧
      ∃ out : ℕ, (limbsValue ((subLimbs as bs borrow).map UInt64.toNat) : ℤ) + limbsValue (bs.map UInt64.toNat) +
        borrow = limbsValue (as.map UInt64.toNat) + (2 ^ 64) ^ as.length * out := by
  fun_induction subLimbs as bs borrow with
  | case1 a as b bs borrow diff hdiff ih | case2 a as b bs borrow diff hdiff ih =>
    obtain ⟨hlength, out, hrest⟩ := ih (by simpa using h) (by simp)
    refine ⟨by rw [List.length_cons, List.length_cons, hlength], out, ?_⟩
    have ha := a.toNat_lt
    have hb := b.toNat_lt
    have hvalue : diff = (a.toNat : ℤ) - b.toNat - borrow := rfl
    have hpow : ((2 ^ 64) ^ (as.length + 1) * out : ℤ) = 2 ^ 64 * ((2 ^ 64) ^ as.length * out) := by
      rw [pow_succ' (2 ^ 64 : ℤ) as.length, mul_assoc]
    simp only [List.map_cons, limbsValue_cons, List.length_cons, UInt64.toNat_ofNat', hpow]
    generalize ((2 : ℤ) ^ 64) ^ as.length * out = carried at hrest ⊢
    push_cast
    omega
  | case3 as bs borrow hends =>
    obtain ⟨rfl, rfl⟩ := both_nil h hends
    exact ⟨rfl, borrow.toNat, by obtain rfl | rfl := hborrow <;> simp⟩

theorem subRaw_toNat (a b : Fp) : (subRaw a b).toNat = if b.toNat ≤ a.toNat then a.toNat - b.toNat
    else 2 ^ 256 + a.toNat - b.toNat := by
  obtain ⟨hlength, out, hvalue⟩ := @subLimbs_value a.limbs b.limbs rfl 0 (Or.inl rfl)
  have hlt := (subRaw a b).toNat_lt
  have ha := a.toNat_lt
  have hb := b.toNat_lt
  have hraw : (subRaw a b).toNat = limbsValue ((subLimbs a.limbs b.limbs 0).map UInt64.toNat) := ofLimbs_toNat hlength
  rw [← hraw, ← toNat_eq, ← toNat_eq, show a.limbs.length = 4 from rfl] at hvalue
  split <;> omega

theorem fieldModulus_bound : 2 * fieldModulus < 2 ^ 256 := by
  unfold fieldModulus
  norm_num

theorem sub_toNat {a b : Fp} (ha : a.toNat < fieldModulus) (hb : b.toNat < fieldModulus) :
    (sub a b).toNat = if b.toNat ≤ a.toNat then a.toNat - b.toNat else fieldModulus + a.toNat - b.toNat := by
  have hbound := fieldModulus_bound
  have hr := subRaw_toNat a b
  have hback := subRaw_toNat b a
  have hlast := subRaw_toNat modulus (subRaw b a)
  rw [modulus_toNat] at hlast
  by_cases hle : b.toNat ≤ a.toNat
  · rw [if_pos hle] at hr
    have hsmall : ge (subRaw a b) modulus = false := by
      rw [Bool.eq_false_iff, ne_eq, ge_iff, modulus_toNat]
      omega
    simp only [sub, hsmall, Bool.false_eq_true, if_false, if_pos hle, hr]
  · rw [if_neg hle] at hr
    rw [if_pos (by omega)] at hback
    rw [if_pos (by omega)] at hlast
    have hlarge : ge (subRaw a b) modulus = true := by
      rw [ge_iff, modulus_toNat]
      omega
    simp only [sub, hlarge, if_true, if_neg hle]
    omega

theorem sub_modulus_toNat {r : Fp} (hr : fieldModulus ≤ r.toNat) (hlt : r.toNat < 2 * fieldModulus) :
    (sub r modulus).toNat = r.toNat - fieldModulus := by
  have hraw := subRaw_toNat r modulus
  rw [modulus_toNat, if_pos hr] at hraw
  have hsmall : ge (subRaw r modulus) modulus = false := by
    rw [Bool.eq_false_iff, ne_eq, ge_iff, modulus_toNat]
    omega
  simp only [sub, hsmall, Bool.false_eq_true, if_false, hraw]

-- The difference is still above the modulus, so it is taken for one that borrowed and goes back the other way.
theorem sub_modulus_of_le {r : Fp} (h : 2 * fieldModulus ≤ r.toNat) : sub r modulus = r := by
  have hr := r.toNat_lt
  have hpos : 0 < fieldModulus := by decide
  have hbound := fieldModulus_bound
  have hraw := subRaw_toNat r modulus
  have hback := subRaw_toNat modulus r
  have hlast := subRaw_toNat modulus (subRaw modulus r)
  rw [modulus_toNat] at hraw hback hlast
  rw [if_pos (by omega)] at hraw
  rw [if_neg (by omega)] at hback
  rw [if_neg (by omega)] at hlast
  have hlarge : ge (subRaw r modulus) modulus = true := by
    rw [ge_iff, modulus_toNat]
    omega
  apply toNat_injective
  simp only [sub, hlarge, if_true]
  omega

theorem neg_toNat {a : Fp} (ha : a.toNat < fieldModulus) :
    (neg a).toNat = if a.toNat = 0 then 2 * fieldModulus else fieldModulus - a.toNat := by
  have hbound := fieldModulus_bound
  have hraw := subRaw_toNat modulus a
  have hback := subRaw_toNat a modulus
  have hlast := subRaw_toNat modulus (subRaw a modulus)
  rw [modulus_toNat] at hraw hback hlast
  rw [if_pos ha.le] at hraw
  by_cases hzero : a.toNat = 0
  · rw [if_neg (by omega)] at hback
    rw [if_neg (by omega)] at hlast
    have hlarge : ge (subRaw modulus a) modulus = true := by
      rw [ge_iff, modulus_toNat]
      omega
    simp only [neg, sub, hlarge, if_true, if_pos hzero]
    omega
  · have hsmall : ge (subRaw modulus a) modulus = false := by
      rw [Bool.eq_false_iff, ne_eq, ge_iff, modulus_toNat]
      omega
    simp only [neg, sub, hsmall, Bool.false_eq_true, if_false, if_neg hzero, hraw]

theorem reduced_toNat {r : Fp} (hlt : r.toNat < 2 * fieldModulus) :
    (if ge r modulus then sub r modulus else r).toNat = r.toNat % fieldModulus := by
  split
  · rename_i hge
    rw [ge_iff, modulus_toNat] at hge
    rw [sub_modulus_toNat hge hlt, Nat.mod_eq_sub_mod hge, Nat.mod_eq_of_lt (by omega)]
  · rename_i hge
    rw [ge_iff, modulus_toNat, not_le] at hge
    exact (Nat.mod_eq_of_lt hge).symm

theorem add_toNat {a b : Fp} (ha : a.toNat < fieldModulus) (hb : b.toNat < fieldModulus) :
    (add a b).toNat = (a.toNat + b.toNat) % fieldModulus := by
  have hbound := fieldModulus_bound
  obtain ⟨hlength, out, hvalue⟩ := @addLimbs_value a.limbs b.limbs rfl 0
  have hraw : (ofLimbs (addLimbs a.limbs b.limbs 0)).toNat =
      limbsValue ((addLimbs a.limbs b.limbs 0).map UInt64.toNat) := ofLimbs_toNat hlength
  rw [← hraw, ← toNat_eq, ← toNat_eq, show a.limbs.length = 4 from rfl] at hvalue
  have hsum : (ofLimbs (addLimbs a.limbs b.limbs 0)).toNat = a.toNat + b.toNat := by omega
  have hreduced := @reduced_toNat (ofLimbs (addLimbs a.limbs b.limbs 0)) (by omega)
  rw [hsum] at hreduced
  exact hreduced

/-! ## Products -/

def Words (ts : List ℕ) : Prop := ∀ t ∈ ts, t < 2 ^ 64

theorem macLimbs_words {k : ℕ} (hk : k < 2 ^ 64) {bs : List UInt64} {ts : List ℕ} (hts : Words ts) {carry : ℕ}
    (hcarry : carry < 2 ^ 64) : Words (macLimbs k bs ts carry).1 ∧ (macLimbs k bs ts carry).2 < 2 ^ 64 := by
  induction bs generalizing ts carry with
  | nil => exact ⟨fun t ht => absurd ht List.not_mem_nil, hcarry⟩
  | cons b bs ih =>
    cases ts with
    | nil => exact ⟨fun t ht => absurd ht List.not_mem_nil, hcarry⟩
    | cons t ts =>
      have ht := hts t List.mem_cons_self
      have hproduct : k * b.toNat ≤ (2 ^ 64 - 1) * (2 ^ 64 - 1) :=
        Nat.mul_le_mul (Nat.le_sub_one_of_lt hk) (Nat.le_sub_one_of_lt b.toNat_lt)
      have hnext : (t + k * b.toNat + carry) / 2 ^ 64 < 2 ^ 64 := by
        rw [Nat.div_lt_iff_lt_mul (by decide)]
        omega
      obtain ⟨hwords, hlast⟩ := ih (fun u hu => hts u (List.mem_cons_of_mem t hu)) hnext
      refine ⟨fun u hu => ?_, hlast⟩
      simp only [macLimbs, List.mem_cons] at hu
      obtain rfl | hu := hu
      · exact Nat.mod_lt _ (by decide)
      · exact hwords u hu

theorem macLimbs_value (k : ℕ) {bs : List UInt64} {ts : List ℕ} (h : bs.length ≤ ts.length) (carry : ℕ) :
    (macLimbs k bs ts carry).1.length = bs.length ∧
      limbsValue (macLimbs k bs ts carry).1 + (2 ^ 64) ^ bs.length * (macLimbs k bs ts carry).2 =
        limbsValue (ts.take bs.length) + k * limbsValue (bs.map UInt64.toNat) + carry := by
  induction bs generalizing ts carry with
  | nil => exact ⟨rfl, by simp [macLimbs]⟩
  | cons b bs ih =>
    cases ts with
    | nil => simp at h
    | cons t ts =>
      obtain ⟨hlength, hrest⟩ := ih (by simpa using h) ((t + k * b.toNat + carry) / 2 ^ 64)
      have hlimb := Nat.mod_add_div (t + k * b.toNat + carry) (2 ^ 64)
      refine ⟨by simp only [macLimbs, List.length_cons, hlength], ?_⟩
      simp only [macLimbs, List.map_cons, limbsValue_cons, List.length_cons, List.take_succ_cons]
      generalize macLimbs k bs ts ((t + k * b.toNat + carry) / 2 ^ 64) = rest at hrest ⊢
      have hpow : (2 ^ 64) ^ (bs.length + 1) * rest.2 = 2 ^ 64 * ((2 ^ 64) ^ bs.length * rest.2) := by
        rw [pow_succ' (2 ^ 64) bs.length, mul_assoc]
      have hmul : k * (b.toNat + 2 ^ 64 * limbsValue (bs.map UInt64.toNat)) =
          k * b.toNat + 2 ^ 64 * (k * limbsValue (bs.map UInt64.toNat)) := by ring
      rw [hpow, hmul]
      omega

theorem propagate_value {ts : List ℕ} (hts : Words ts) (c : ℕ) :
    Words (propagate ts c) ∧ (propagate ts c).length = ts.length ∧
      ∃ out, limbsValue (propagate ts c) + (2 ^ 64) ^ ts.length * out = limbsValue ts + c := by
  induction ts generalizing c with
  | nil => exact ⟨hts, rfl, c, by simp [propagate]⟩
  | cons t ts ih =>
    by_cases hc : c = 0
    · rw [propagate, if_pos hc]
      exact ⟨hts, rfl, 0, by omega⟩
    · obtain ⟨hwords, hlength, out, hrest⟩ := ih (fun u hu => hts u (List.mem_cons_of_mem t hu)) ((t + c) / 2 ^ 64)
      rw [propagate, if_neg hc]
      refine ⟨fun u hu => ?_, by rw [List.length_cons, List.length_cons, hlength], out, ?_⟩
      · simp only [List.mem_cons] at hu
        obtain rfl | hu := hu
        · exact Nat.mod_lt _ (by decide)
        · exact hwords u hu
      · have hlimb := Nat.mod_add_div (t + c) (2 ^ 64)
        have hpow : (2 ^ 64) ^ (ts.length + 1) * out = 2 ^ 64 * ((2 ^ 64) ^ ts.length * out) := by
          rw [pow_succ' (2 ^ 64) ts.length, mul_assoc]
        simp only [limbsValue_cons, List.length_cons, hpow]
        omega

theorem mulRow_value (a : UInt64) {bs : List UInt64} {ts : List ℕ} (hbs : bs.length = 4) (hts : Words ts)
    (hlength : 5 ≤ ts.length) (hfifth : ts.drop 4 = 0 :: ts.drop 5) :
    Words (mulRow a bs ts) ∧ (mulRow a bs ts).length = ts.length ∧ (mulRow a bs ts).drop 5 = ts.drop 5 ∧
      limbsValue (mulRow a bs ts) = limbsValue ts + a.toNat * limbsValue (bs.map UInt64.toNat) := by
  obtain ⟨hwords, hcarry⟩ := @macLimbs_words a.toNat a.toNat_lt bs ts hts 0 (by decide)
  obtain ⟨hlow, hvalue⟩ := macLimbs_value a.toNat (show bs.length ≤ ts.length by omega) 0
  have hrow : mulRow a bs ts = (macLimbs a.toNat bs ts 0).1 ++ (macLimbs a.toNat bs ts 0).2 :: ts.drop 5 := rfl
  have hsplit := limbsValue_take_drop 4 (show 4 ≤ ts.length by omega)
  rw [hbs] at hlow hvalue
  rw [hrow]
  generalize macLimbs a.toNat bs ts 0 = product at hwords hcarry hlow hvalue ⊢
  refine ⟨fun t ht => ?_, ?_, ?_, ?_⟩
  · rw [List.mem_append, List.mem_cons] at ht
    obtain ht | rfl | ht := ht
    · exact hwords t ht
    · exact hcarry
    · exact hts t (List.mem_of_mem_drop ht)
  · rw [List.length_append, List.length_cons, List.length_drop, hlow]
    omega
  · rw [List.drop_append, hlow, List.drop_of_length_le (by omega)]
    rfl
  · rw [hfifth, limbsValue_cons, Nat.zero_add] at hsplit
    rw [limbsValue_append, limbsValue_cons, hlow, hsplit]
    omega

/-- After so many rows. -/
structure Multiplied (a b : Fp) (i : ℕ) (ts : List ℕ) : Prop where
  words : Words ts
  length : ts.length = 8
  rest : ts.drop (i + 4) = List.replicate (4 - i) 0
  value : limbsValue ts = limbsValue ((a.limbs.map UInt64.toNat).take i) * b.toNat

theorem mulLimbs_value (a b : Fp) :
    Words (mulLimbs a b) ∧ (mulLimbs a b).length = 8 ∧ limbsValue (mulLimbs a b) = a.toNat * b.toNat := by
  have hall : Multiplied a b 4 (mulLimbs a b) := by
    refine Loops.upTo_spec (P := Multiplied a b) ⟨?_, List.length_replicate, rfl, ?_⟩ fun i hi ts hts => ?_
    · intro t ht
      rw [List.eq_of_mem_replicate ht]
      decide
    · rw [limbsValue_replicate, List.take_zero, limbsValue_nil, Nat.zero_mul]
    obtain ⟨hwords, hlength, hrest, hvalue⟩ := hts
    have hdrop : ∀ j, (ts.drop i).drop j = ts.drop (i + j) := fun j => List.drop_drop
    have hfifth : (ts.drop i).drop 4 = 0 :: (ts.drop i).drop 5 := by
      have htail : ts.drop (i + 5) = (ts.drop (i + 4)).drop 1 := by rw [List.drop_drop]
      rw [hdrop, hdrop, htail, hrest, show 4 - i = (3 - i) + 1 by omega, List.replicate_succ]
      rfl
    obtain ⟨hrow, hrowLength, hrowDrop, hrowValue⟩ := @mulRow_value (a.limbs.getD i 0) b.limbs (ts.drop i) rfl
      (fun t ht => hwords t (List.mem_of_mem_drop ht)) (by rw [List.length_drop]; omega) hfifth
    have htake : (ts.take i).length = i := by
      rw [List.length_take]
      omega
    have hlimb : (a.limbs.map UInt64.toNat).take (i + 1) =
        (a.limbs.map UInt64.toNat).take i ++ [(a.limbs.getD i 0).toNat] := by
      interval_cases i <;> rfl
    have htakeLimbs : ((a.limbs.map UInt64.toNat).take i).length = i := by
      rw [List.length_take, List.length_map, show a.limbs.length = 4 from rfl]
      omega
    refine ⟨fun t ht => ?_, ?_, ?_, ?_⟩
    · rw [List.mem_append] at ht
      obtain ht | ht := ht
      · exact hwords t (List.mem_of_mem_take ht)
      · exact hrow t ht
    · rw [List.length_append, htake, hrowLength, List.length_drop]
      omega
    · have hafter : (ts.take i ++ mulRow (a.limbs.getD i 0) b.limbs (ts.drop i)).drop (i + 1 + 4) =
          (mulRow (a.limbs.getD i 0) b.limbs (ts.drop i)).drop 5 := by
        rw [List.drop_append, htake, List.drop_of_length_le (by omega), show i + 1 + 4 - i = 5 by omega]
        rfl
      have htail : ts.drop (i + 5) = (ts.drop (i + 4)).drop 1 := by rw [List.drop_drop]
      rw [hafter, hrowDrop, hdrop, htail, hrest, List.drop_replicate]
      congr 1
    · have hsplit := limbsValue_take_drop i (show i ≤ ts.length by omega)
      rw [limbsValue_append, htake, hrowValue, hlimb, limbsValue_append, htakeLimbs, limbsValue_cons, limbsValue_nil,
        ← toNat_eq, Nat.mul_zero, Nat.add_zero, Nat.add_mul, ← hvalue, hsplit]
      ring
  refine ⟨hall.words, hall.length, ?_⟩
  have hvalue := hall.value
  rw [List.take_of_length_le (show (a.limbs.map UInt64.toNat).length ≤ 4 from le_rfl), ← toNat_eq] at hvalue
  exact hvalue

/-! ## Reduction -/

theorem reduceRow_value {ts : List ℕ} (hts : Words ts) (hlength : 4 ≤ ts.length) :
    Words (reduceRow ts) ∧ (reduceRow ts).length = ts.length ∧ ∃ k < 2 ^ 64, ∃ out,
      limbsValue (reduceRow ts) + (2 ^ 64) ^ ts.length * out = limbsValue ts + k * fieldModulus ∧
        2 ^ 64 ∣ limbsValue ts + k * fieldModulus := by
  have hk : ts.headD 0 * n0 % 2 ^ 64 < 2 ^ 64 := Nat.mod_lt _ (by decide)
  obtain ⟨hwords, _⟩ := @macLimbs_words _ hk modulus.limbs ts hts 0 (by decide)
  obtain ⟨hlow, hvalue⟩ := @macLimbs_value (ts.headD 0 * n0 % 2 ^ 64) modulus.limbs ts hlength 0
  have hrow : reduceRow ts = (macLimbs (ts.headD 0 * n0 % 2 ^ 64) modulus.limbs ts 0).1 ++
      propagate (ts.drop 4) (macLimbs (ts.headD 0 * n0 % 2 ^ 64) modulus.limbs ts 0).2 := rfl
  have hhead : limbsValue ts % 2 ^ 64 = ts.headD 0 % 2 ^ 64 := by
    cases ts with
    | nil => rfl
    | cons t ts =>
      rw [limbsValue_cons, Nat.add_mul_mod_self_left]
      rfl
  have hvanish : 2 ^ 64 ∣ limbsValue ts + ts.headD 0 * n0 % 2 ^ 64 * fieldModulus := by
    refine Nat.dvd_of_mod_eq_zero ?_
    have hinverse : 2 ^ 64 ∣ 1 + n0 * fieldModulus := by decide
    have hsum : ts.headD 0 + ts.headD 0 * (n0 * fieldModulus) = ts.headD 0 * (1 + n0 * fieldModulus) := by
      rw [Nat.mul_add, Nat.mul_one]
    rw [Nat.add_mod, hhead, Nat.mod_mul_mod, ← Nat.add_mod, Nat.mul_assoc, hsum]
    exact Nat.mod_eq_zero_of_dvd (Dvd.dvd.mul_left hinverse _)
  rw [hrow]
  generalize ts.headD 0 * n0 % 2 ^ 64 = k at hk hwords hlow hvalue hvanish ⊢
  generalize macLimbs k modulus.limbs ts 0 = sum at hwords hlow hvalue ⊢
  have hfour : modulus.limbs.length = 4 := rfl
  rw [← toNat_eq, modulus_toNat, hfour] at hvalue
  rw [hfour] at hlow
  obtain ⟨hhigh, hhighLength, out, hpropagated⟩ := propagate_value
    (fun t ht => hts t (List.mem_of_mem_drop ht) : Words (ts.drop 4)) sum.2
  refine ⟨fun t ht => ?_, ?_, k, hk, out, ?_, hvanish⟩
  · rw [List.mem_append] at ht
    exact ht.elim (hwords t) (hhigh t)
  · rw [List.length_append, hlow, hhighLength, List.length_drop]
    omega
  · have hsplit := limbsValue_take_drop 4 hlength
    have hpow : (2 ^ 64) ^ ts.length * out = (2 ^ 64) ^ 4 * ((2 ^ 64) ^ (ts.drop 4).length * out) := by
      rw [← mul_assoc, ← pow_add, List.length_drop, Nat.add_sub_cancel' hlength]
    rw [limbsValue_append, hlow, hpow, hsplit]
    generalize (2 ^ 64) ^ (ts.drop 4).length * out = carried at hpropagated ⊢
    omega

/-- After so many rows the low limbs have vanished. -/
structure Reduced (n i : ℕ) (ts : List ℕ) : Prop where
  words : Words ts
  length : ts.length = 8
  value : ∃ k < (2 ^ 64) ^ i, limbsValue ts = n + k * fieldModulus
  vanished : (2 ^ 64) ^ i ∣ limbsValue ts

theorem Reduced.row {n i : ℕ} {ts : List ℕ} (h : Reduced n i ts) (hi : i < 4) (hn : n < fieldModulus * 2 ^ 256) :
    Reduced n (i + 1) (ts.take i ++ reduceRow (ts.drop i)) := by
  obtain ⟨hwords, hlength, ⟨k, hk, hvalue⟩, hvanished⟩ := h
  have htake : (ts.take i).length = i := by
    rw [List.length_take]
    omega
  have hsplit := limbsValue_take_drop i (show i ≤ ts.length by omega)
  have hlow : limbsValue (ts.take i) = 0 := by
    have hlt : limbsValue (ts.take i) < (2 ^ 64) ^ (ts.take i).length :=
      limbsValue_lt fun t ht => hwords t (List.mem_of_mem_take ht)
    rw [htake] at hlt
    rw [hsplit, Nat.dvd_add_left (Dvd.intro _ rfl)] at hvanished
    exact Nat.eq_zero_of_dvd_of_lt hvanished hlt
  rw [hlow, Nat.zero_add] at hsplit
  obtain ⟨hrow, hrowLength, k', hk', out, hrowValue, hrowVanished⟩ := reduceRow_value
    (fun t ht => hwords t (List.mem_of_mem_drop ht) : Words (ts.drop i)) (by rw [List.length_drop]; omega)
  have hpos : 0 < (2 ^ 64) ^ i := Nat.pow_pos (by decide)
  have htotal : (k + (2 ^ 64) ^ i * k') < (2 ^ 64) ^ (i + 1) := by
    have hstep : (2 ^ 64) ^ i * k' + (2 ^ 64) ^ i ≤ (2 ^ 64) ^ (i + 1) := by
      rw [pow_succ, ← Nat.mul_succ]
      exact Nat.mul_le_mul_left _ hk'
    omega
  have hnew : limbsValue (ts.take i ++ reduceRow (ts.drop i)) = (2 ^ 64) ^ i * limbsValue (reduceRow (ts.drop i)) := by
    rw [limbsValue_append, htake, hlow, Nat.zero_add]
  -- the sum fits into the eight limbs
  have hsum : (2 ^ 64) ^ i * limbsValue (reduceRow (ts.drop i)) + (2 ^ 64) ^ 8 * out =
      n + (k + (2 ^ 64) ^ i * k') * fieldModulus := by
    have hpow : (2 ^ 64) ^ 8 * out = (2 ^ 64) ^ i * ((2 ^ 64) ^ (ts.drop i).length * out) := by
      rw [← mul_assoc, ← pow_add, List.length_drop, hlength, Nat.add_sub_cancel' (by omega)]
    rw [hpow, ← Nat.mul_add, hrowValue, Nat.mul_add, ← hsplit, hvalue]
    ring
  have hbound : n + (k + (2 ^ 64) ^ i * k') * fieldModulus < (2 ^ 64) ^ 8 := by
    have hfour : (2 ^ 64) ^ (i + 1) ≤ (2 ^ 64) ^ 4 := Nat.pow_le_pow_right (by decide) (by omega)
    have hmul := Nat.mul_le_mul_right fieldModulus (htotal.trans_le hfour).le
    have hconst : fieldModulus * 2 ^ 256 + (2 ^ 64) ^ 4 * fieldModulus < (2 ^ 64) ^ 8 := by
      unfold fieldModulus
      norm_num
    exact (Nat.add_lt_add_of_lt_of_le hn hmul).trans hconst
  have hout : out = 0 := by
    by_contra hne
    have hle : (2 ^ 64) ^ 8 ≤ (2 ^ 64) ^ 8 * out := Nat.le_mul_of_pos_right _ (Nat.pos_of_ne_zero hne)
    exact absurd hsum ((hbound.trans_le (hle.trans (Nat.le_add_left _ _))).ne')
  rw [hout, Nat.mul_zero, Nat.add_zero] at hsum hrowValue
  refine ⟨fun t ht => ?_, ?_, ⟨_, htotal, hnew.trans hsum⟩, ?_⟩
  · rw [List.mem_append] at ht
    exact ht.elim (fun ht => hwords t (List.mem_of_mem_take ht)) (hrow t)
  · rw [List.length_append, htake, hrowLength, List.length_drop]
    omega
  · rw [hnew, hrowValue, pow_succ]
    exact Nat.mul_dvd_mul_left _ hrowVanished

/-- The reduced product, as long as the product is below the modulus times the power of two. -/
theorem mul_spec {a b : Fp} (h : a.toNat * b.toNat < fieldModulus * 2 ^ 256) :
    (mul a b).toNat < fieldModulus ∧ (mul a b).toNat * 2 ^ 256 ≡ a.toNat * b.toNat [MOD fieldModulus] := by
  obtain ⟨hwords, hlength, hvalue⟩ := mulLimbs_value a b
  obtain ⟨hrwords, hrlength, ⟨k, hk, hrvalue⟩, hvanished⟩ := Loops.upTo_spec (n := 4) (s := mulLimbs a b)
    (P := Reduced (a.toNat * b.toNat)) (f := fun i ts => ts.take i ++ reduceRow (ts.drop i))
    ⟨hwords, hlength, ⟨0, by decide, by rw [hvalue, Nat.zero_mul, Nat.add_zero]⟩, one_dvd _⟩
    fun i hi ts hts => hts.row hi h
  have hmul : mul a b = if ge (ofLimbs ((Loops.upTo 4 (fun i ts => ts.take i ++ reduceRow (ts.drop i))
      (mulLimbs a b)).drop 4 |>.map UInt64.ofNat)) modulus then sub (ofLimbs ((Loops.upTo 4
        (fun i ts => ts.take i ++ reduceRow (ts.drop i)) (mulLimbs a b)).drop 4 |>.map UInt64.ofNat)) modulus else
      ofLimbs ((Loops.upTo 4 (fun i ts => ts.take i ++ reduceRow (ts.drop i)) (mulLimbs a b)).drop 4 |>.map
        UInt64.ofNat) := rfl
  rw [hmul]
  generalize Loops.upTo 4 (fun i ts => ts.take i ++ reduceRow (ts.drop i)) (mulLimbs a b) = ts
    at hrwords hrlength hrvalue hvanished ⊢
  have hsplit := limbsValue_take_drop 4 (show 4 ≤ ts.length by omega)
  have hlow : limbsValue (ts.take 4) = 0 := by
    have hlt : limbsValue (ts.take 4) < (2 ^ 64) ^ (ts.take 4).length :=
      limbsValue_lt fun t ht => hrwords t (List.mem_of_mem_take ht)
    rw [List.length_take, hrlength] at hlt
    rw [hsplit, Nat.dvd_add_left (Dvd.intro _ rfl)] at hvanished
    exact Nat.eq_zero_of_dvd_of_lt hvanished hlt
  have hback : ((ts.drop 4).map UInt64.ofNat).map UInt64.toNat = ts.drop 4 := by
    rw [List.map_map]
    refine (List.map_congr_left fun t ht => ?_).trans (List.map_id _)
    rw [Function.comp_apply, UInt64.toNat_ofNat']
    exact Nat.mod_eq_of_lt (hrwords t (List.mem_of_mem_drop ht))
  have hr : (ofLimbs ((ts.drop 4).map UInt64.ofNat)).toNat = limbsValue (ts.drop 4) := by
    rw [ofLimbs_toNat (by rw [List.length_map, List.length_drop, hrlength]), hback]
  generalize ofLimbs ((ts.drop 4).map UInt64.ofNat) = r at hr ⊢
  rw [hlow, Nat.zero_add, hrvalue, ← hr] at hsplit
  have hconst : (2 ^ 64) ^ 4 = 2 ^ 256 := by norm_num
  rw [hconst] at hsplit hk
  have hlt : r.toNat < 2 * fieldModulus := by
    have hmul := Nat.mul_lt_mul_of_pos_right hk (Bn254.prime_fieldModulus.pos)
    omega
  rw [reduced_toNat hlt]
  refine ⟨Nat.mod_lt _ Bn254.prime_fieldModulus.pos, ?_⟩
  calc r.toNat % fieldModulus * 2 ^ 256
      ≡ r.toNat * 2 ^ 256 [MOD fieldModulus] := (Nat.mod_modEq _ _).mul_right _
    _ = a.toNat * b.toNat + k * fieldModulus := by rw [hsplit, Nat.mul_comm]
    _ ≡ a.toNat * b.toNat [MOD fieldModulus] := by
      rw [Nat.ModEq, Nat.add_mul_mod_self_right]

end Fp

end ChainGuard.Soroban.ZkVerifier
