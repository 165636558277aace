import ChainGuard.Library.BinaryPower
import ChainGuard.Soroban.Bn254Arithmetic

/-! The Montgomery forms of the elements of the field, and the operations of `zk_verifier` on them. -/
namespace ChainGuard.Soroban.ZkVerifier
open Bn254 (fieldModulus)
set_option autoImplicit false

/-! ## Double and add -/

/-- The number of the bits, the low one first. -/
def bitsValue (bits : List Bool) : ℕ := Nat.ofDigits 2 (bits.map Bool.toNat)

@[simp] theorem bitsValue_cons (bit : Bool) (bits : List Bool) :
    bitsValue (bit :: bits) = bit.toNat + 2 * bitsValue bits := by
  rw [bitsValue, List.map_cons, Nat.ofDigits_cons]
  rfl

/-- Over multiples, the loop adds a multiple of the second by the number of the bits. -/
theorem doubleAndAdd_spec {α : Type} {add : α → α → α} {double : α → α} {f : ℕ → α}
    (hadd : ∀ m n, add (f m) (f n) = f (m + n)) (hdouble : ∀ n, double (f n) = f (2 * n)) (bits : List Bool)
    (m n : ℕ) : (doubleAndAdd add double (f m, f n) bits).1 = f (m + n * bitsValue bits) := by
  induction bits generalizing m n with
  | nil => rfl
  | cons bit bits ih =>
    have hround : (if bit then add (f m) (f n) else f m) = f (m + n * bit.toNat) := by
      cases bit with
      | false => rfl
      | true => exact (hadd m n).trans (by rw [Bool.toNat_true, Nat.mul_one])
    have hcons : doubleAndAdd add double (f m, f n) (bit :: bits) =
        doubleAndAdd add double (if bit then add (f m) (f n) else f m, double (f n)) bits := rfl
    rw [hcons, hround, hdouble, ih, bitsValue_cons]
    congr 1
    ring

theorem bitsValue_testBit (width n : ℕ) : bitsValue ((List.range width).map n.testBit) = n % 2 ^ width := by
  induction width generalizing n with
  | zero => exact (Nat.mod_one n).symm
  | succ width ih =>
    have hrange : (List.range (width + 1)).map n.testBit =
        n.testBit 0 :: (List.range width).map (n / 2).testBit := by
      rw [List.range_succ_eq_map, List.map_cons, List.map_map]
      refine congrArg _ (List.map_congr_left fun i _ => ?_)
      rw [Function.comp_apply, Nat.testBit_succ]
    rw [hrange, bitsValue_cons, ih, Nat.testBit_zero, Nat.pow_succ', Nat.mod_mul]
    congr 1
    obtain heven | hodd := Nat.mod_two_eq_zero_or_one n
    · rw [heven]
      rfl
    · rw [hodd]
      rfl

theorem bitsValue_append (bits bits' : List Bool) :
    bitsValue (bits ++ bits') = bitsValue bits + 2 ^ bits.length * bitsValue bits' := by
  rw [bitsValue, List.map_append, Nat.ofDigits_append, List.length_map]
  rfl

theorem bitsValue_scalarBits (scalar : Bytes) : bitsValue (Affine.scalarBits scalar) = natBE scalar := by
  induction scalar using List.reverseRecOn with
  | nil => rfl
  | append_singleton scalar byte ih =>
    have hbits : Affine.scalarBits (scalar ++ [byte]) =
        (List.range 8).map byte.toNat.testBit ++ Affine.scalarBits scalar := by
      rw [Affine.scalarBits, List.reverse_append]
      rfl
    rw [hbits, bitsValue_append, bitsValue_testBit, ih, natBE_concat, List.length_map, List.length_range,
      Nat.mod_eq_of_lt byte.toNat_lt]
    ring

namespace Fp
open Bn254 (prime_fieldModulus)

/-! ## Forms -/

/-- The limbs of a number. -/
def ofNat (n : ℕ) : Fp :=
  ⟨UInt64.ofNat n, UInt64.ofNat (n / 2 ^ 64), UInt64.ofNat (n / 2 ^ 128), UInt64.ofNat (n / 2 ^ 192)⟩

theorem ofNat_toNat {n : ℕ} (h : n < 2 ^ 256) : (ofNat n).toNat = n := by
  simp only [ofNat, toNat, UInt64.toNat_ofNat']
  omega

/-- The factor of the forms. -/
abbrev R : Bn254.Fp := 2 ^ 256

theorem R_ne_zero : R ≠ 0 := pow_ne_zero _ (by decide)

theorem cast_R : ((2 ^ 256 : ℕ) : Bn254.Fp) = R := Nat.cast_pow 2 256

/-- The form of an element of the field. -/
@[irreducible] def mont (x : Bn254.Fp) : Fp := ofNat (x * R).val

theorem mont_toNat (x : Bn254.Fp) : (mont x).toNat = (x * R).val := by
  have hbound : fieldModulus < 2 ^ 256 := lt_of_le_of_lt (Nat.le_mul_of_pos_left _ (by decide)) fieldModulus_bound
  unfold mont
  exact ofNat_toNat ((ZMod.val_lt _).trans hbound)

theorem mont_lt (x : Bn254.Fp) : (mont x).toNat < fieldModulus := by
  rw [mont_toNat]
  exact ZMod.val_lt _

theorem mont_cast (x : Bn254.Fp) : ((mont x).toNat : Bn254.Fp) = x * R := by
  rw [mont_toNat, ZMod.natCast_zmod_val]

theorem eq_mont {a : Fp} {x : Bn254.Fp} (hlt : a.toNat < fieldModulus) (h : (a.toNat : Bn254.Fp) = x * R) :
    a = mont x := by
  refine toNat_injective ?_
  rw [mont_toNat, ← h, ZMod.val_natCast_of_lt hlt]

theorem mont_inj {x y : Bn254.Fp} : mont x = mont y ↔ x = y := by
  refine ⟨fun h => ?_, congrArg mont⟩
  have hcast := mont_cast x
  rw [h, mont_cast] at hcast
  exact (mul_right_cancel₀ R_ne_zero hcast).symm

theorem eq_mont_zero {a : Fp} (h : a.toNat = 0) : a = mont 0 :=
  eq_mont (by rw [h]; exact prime_fieldModulus.pos) (by rw [h, Nat.cast_zero, zero_mul])

theorem zero_eq : zero = mont 0 := eq_mont_zero rfl

theorem isZero_mont {x : Bn254.Fp} : isZero (mont x) = true ↔ x = 0 := by
  rw [isZero, decide_eq_true_eq, zero_eq, mont_inj]

/-! ## Operations -/

/-- The product of numbers that need not be reduced, as long as theirs is small enough. -/
theorem mul_eq {a b : Fp} {x y : Bn254.Fp} (h : a.toNat * b.toNat < fieldModulus * 2 ^ 256)
    (ha : (a.toNat : Bn254.Fp) = x * R) (hb : (b.toNat : Bn254.Fp) = y * R) : mul a b = mont (x * y) := by
  obtain ⟨hlt, hmod⟩ := mul_spec h
  refine eq_mont hlt ?_
  have hcast := (ZMod.natCast_eq_natCast_iff _ _ _).mpr hmod
  rw [Nat.cast_mul, Nat.cast_mul, cast_R, ha, hb] at hcast
  refine mul_right_cancel₀ R_ne_zero (hcast.trans ?_)
  rw [mul_mul_mul_comm, ← mul_assoc]

theorem modulus_mul_lt {m n : ℕ} (hm : m < 2 ^ 256) (hn : n < fieldModulus) : m * n < fieldModulus * 2 ^ 256 := by
  rw [Nat.mul_comm fieldModulus]
  exact Nat.mul_lt_mul'' hm hn

@[simp] theorem mul_mont (x y : Bn254.Fp) : mul (mont x) (mont y) = mont (x * y) :=
  mul_eq (modulus_mul_lt (toNat_lt _) (mont_lt y)) (mont_cast x) (mont_cast y)

@[simp] theorem sqr_mont (x : Bn254.Fp) : sqr (mont x) = mont (x * x) := mul_mont x x

@[simp] theorem add_mont (x y : Bn254.Fp) : add (mont x) (mont y) = mont (x + y) := by
  have hsum := add_toNat (mont_lt x) (mont_lt y)
  refine eq_mont ?_ ?_
  · rw [hsum]
    exact Nat.mod_lt _ prime_fieldModulus.pos
  · rw [hsum, ZMod.natCast_mod, Nat.cast_add, mont_cast, mont_cast, add_mul]

@[simp] theorem sub_mont (x y : Bn254.Fp) : sub (mont x) (mont y) = mont (x - y) := by
  have hx := mont_lt x
  have hy := mont_lt y
  have hdiff := sub_toNat hx hy
  by_cases hle : (mont y).toNat ≤ (mont x).toNat
  · rw [if_pos hle] at hdiff
    refine eq_mont (by omega) ?_
    rw [hdiff, Nat.cast_sub hle, mont_cast, mont_cast, sub_mul]
  · rw [if_neg hle] at hdiff
    refine eq_mont (by omega) ?_
    rw [hdiff, Nat.cast_sub (by omega), Nat.cast_add, mont_cast, mont_cast, ZMod.natCast_self, zero_add, sub_mul]

/-- The negation, which need not be reduced, in a product. -/
@[simp] theorem neg_mul_mont (x y : Bn254.Fp) : mul (neg (mont x)) (mont y) = mont (-x * y) := by
  have hx := mont_lt x
  have hbound := fieldModulus_bound
  have hneg := neg_toNat hx
  have hcast : ((neg (mont x)).toNat : Bn254.Fp) = -x * R := by
    rw [hneg]
    split
    · next hzero =>
      have hxR := mont_cast x
      rw [hzero, Nat.cast_zero] at hxR
      rw [Nat.cast_mul, ZMod.natCast_self, mul_zero, neg_mul, ← hxR, neg_zero]
    · rw [Nat.cast_sub hx.le, ZMod.natCast_self, mont_cast, zero_sub, neg_mul]
  exact mul_eq (modulus_mul_lt (toNat_lt _) (mont_lt y)) hcast (mont_cast y)

theorem neg_mont {x : Bn254.Fp} (h : x ≠ 0) : neg (mont x) = mont (-x) := by
  have hx := mont_lt x
  have hne : (mont x).toNat ≠ 0 := by
    rw [mont_toNat, Ne, ZMod.val_eq_zero, mul_eq_zero, not_or]
    exact ⟨h, R_ne_zero⟩
  have hneg := neg_toNat hx
  rw [if_neg hne] at hneg
  refine eq_mont (by omega) ?_
  rw [hneg, Nat.cast_sub hx.le, ZMod.natCast_self, mont_cast, zero_sub, neg_mul]

theorem r2_cast : (r2.toNat : Bn254.Fp) = R * R := by
  have hmod : r2.toNat ≡ 2 ^ 256 * 2 ^ 256 [MOD fieldModulus] := by decide
  rw [(ZMod.natCast_eq_natCast_iff _ _ _).mpr hmod, Nat.cast_mul, cast_R]

theorem mul_r2 (a : Fp) : mul a r2 = mont (a.toNat : Bn254.Fp) := by
  have hplain : (a.toNat : Bn254.Fp) = a.toNat * R⁻¹ * R := by
    rw [mul_assoc, inv_mul_cancel₀ R_ne_zero, mul_one]
  rw [mul_eq (modulus_mul_lt a.toNat_lt (by decide)) hplain r2_cast, ← hplain]

theorem fromU64_eq (v : UInt64) : fromU64 v = mont (v.toNat : Bn254.Fp) := mul_r2 _

theorem one_eq : one = mont 1 := by
  refine eq_mont (by decide) ?_
  have hmod : one.toNat ≡ 2 ^ 256 [MOD fieldModulus] := by decide
  rw [(ZMod.natCast_eq_natCast_iff _ _ _).mpr hmod, cast_R, one_mul]

@[simp] theorem inv_mont (x : Bn254.Fp) : inv (mont x) = mont x⁻¹ := by
  have hone : one = mont (x ^ 0) := by rw [pow_zero, one_eq]
  have hbase : mont x = mont (x ^ 1) := by rw [pow_one]
  have hpower := @doubleAndAdd_spec Fp mul sqr (fun n => mont (x ^ n))
    (fun m n => by rw [mul_mont, pow_add]) (fun n => by rw [sqr_mont, two_mul, pow_add])
    (modulusMinus2.limbs.flatMap fun limb => (List.range 64).map limb.toNat.testBit) 0 1
  have hbits : bitsValue (modulusMinus2.limbs.flatMap fun limb => (List.range 64).map limb.toNat.testBit) =
      fieldModulus - 2 := by decide +kernel
  rw [hbits, Nat.zero_add, Nat.one_mul] at hpower
  rw [inv, hone, hbase, hpower, BinaryPower.inv_eq_pow (by decide) x]

end Fp

/-! ## Decoding -/

theorem coordinate_eq {bytes : Bytes} (hlength : bytes.length = 32) {x : Fp} :
    coordinate bytes = .ok x ↔ natBE bytes < coordinateBound ∧ x = .mont (natBE bytes : Bn254.Fp) := by
  by_cases h : natBE bytes < coordinateBound
  · rw [coordinate_reads hlength h, Fp.mul_r2, Fp.ofBeBytes_toNat hlength, Except.ok.injEq, eq_comm]
    exact (and_iff_right h).symm
  · rw [coordinate, if_pos (not_lt.mp h)]
    exact iff_of_false (fun herror => by cases herror) fun hread => h hread.1

namespace Fp

/-! ### The loop that reduces -/

theorem ge_modulus_iff {r : Fp} : ge r modulus = true ↔ fieldModulus ≤ r.toNat := by
  rw [ge_iff, modulus_toNat]

theorem reduce_of_lt {r : Fp} (h : r.toNat < 2 * fieldModulus) :
    ∃ s, reduce 1 r = some s ∧ s.toNat = r.toNat % fieldModulus := by
  have hreduced := reduced_toNat h
  by_cases hge : ge r modulus = true
  · rw [if_pos hge] at hreduced
    have hdone : ¬ ge (sub r modulus) modulus = true := by
      rw [ge_modulus_iff, hreduced, not_le]
      exact Nat.mod_lt _ Bn254.prime_fieldModulus.pos
    refine ⟨sub r modulus, ?_, hreduced⟩
    rw [reduce, if_pos hge, reduce, if_neg hdone]
  · rw [if_neg hge] at hreduced
    exact ⟨r, by rw [reduce, if_neg hge], hreduced⟩

-- Each round returns the limbs it was given, and the loop asks about them again.
theorem reduce_of_le {r : Fp} (h : 2 * fieldModulus ≤ r.toNat) (rounds : ℕ) : reduce rounds r = none := by
  have hge : ge r modulus = true := by
    rw [ge_modulus_iff]
    omega
  induction rounds with
  | zero => rw [reduce, if_pos hge]
  | succ rounds ih => rw [reduce, if_pos hge, sub_modulus_of_le h, ih]

theorem reduce_mono {rounds rounds' : ℕ} {r s : Fp} (h : reduce rounds r = some s) (hle : rounds ≤ rounds') :
    reduce rounds' r = some s := by
  induction rounds generalizing r rounds' with
  | zero =>
    rw [reduce] at h
    split at h
    · cases h
    · next hsmall =>
      cases rounds' with
      | zero => rw [reduce, if_neg hsmall, h]
      | succ _ => rw [reduce, if_neg hsmall, h]
  | succ rounds ih =>
    obtain _ | rounds' := rounds'
    · omega
    rw [reduce] at h ⊢
    split at h
    · next hlarge =>
      rw [if_pos hlarge]
      exact ih h (by omega)
    · next hsmall => rw [if_neg hsmall, h]

/-- The number's own form, with the loop at its end after some rounds and after every greater number of them. -/
def Decodes (bytes : Bytes) : Prop :=
  ∃ rounds, ∀ rounds' ≥ rounds, fromBeBytes rounds' bytes = some (mont (natBE bytes : Bn254.Fp))

theorem not_decodes {bytes : Bytes} (hlength : bytes.length = 32) (h : 2 * fieldModulus ≤ natBE bytes)
    (rounds : ℕ) : fromBeBytes rounds bytes = none := by
  rw [← ofBeBytes_toNat hlength] at h
  rw [fromBeBytes, reduce_of_le h]
  rfl

/-- Decoding ends, with the reduced form of the number, on the numbers below twice the modulus. -/
theorem fromBeBytes_decodes_iff {bytes : Bytes} (hlength : bytes.length = 32) :
    Decodes bytes ↔ natBE bytes < 2 * fieldModulus := by
  constructor
  · intro ⟨rounds, hends⟩
    apply Decidable.byContradiction
    intro hle
    have hnone := not_decodes hlength (not_lt.mp hle) rounds
    rw [hends rounds le_rfl] at hnone
    cases hnone
  · intro h
    rw [← ofBeBytes_toNat hlength] at h
    obtain ⟨s, hreduce, hs⟩ := reduce_of_lt h
    refine ⟨1, fun rounds' hle => ?_⟩
    rw [fromBeBytes, reduce_mono hreduce hle, Option.map_some, mul_r2, hs, ofBeBytes_toNat hlength,
      ZMod.natCast_mod]

theorem fromBeBytes_decodes_succ : Decodes (word (fieldModulus + 1)) :=
  (fromBeBytes_decodes_iff (word_length _)).mpr (by decide +kernel)

/-- On the greatest number the loop never ends. -/
theorem fromBeBytes_loops :
    (∀ rounds, fromBeBytes rounds (List.replicate 32 0xff) = none) ∧ ¬ Decodes (List.replicate 32 0xff) := by
  have hlength : (List.replicate 32 (0xff : UInt8)).length = 32 := by decide
  refine ⟨not_decodes hlength (by decide +kernel), ?_⟩
  rw [fromBeBytes_decodes_iff hlength]
  decide +kernel

end Fp
end ChainGuard.Soroban.ZkVerifier

/-! The arithmetic of the base field on reduced limbs: every operation returns the reduced limbs of its result, apart from
the negation of zero. -/
namespace ChainGuard.Soroban.ZkVerifier.Fp
open Bn254 (fieldModulus prime_fieldModulus)
set_option autoImplicit false

variable {a b : Fp} {x : Bn254.Fp}

/-! ## Encoded elements -/

/-- The element that limbs encode. -/
def value (a : Fp) : Bn254.Fp := a.toNat * R⁻¹

def Canonical (a : Fp) : Prop := a.toNat < fieldModulus

instance (a : Fp) : Decidable a.Canonical := inferInstanceAs (Decidable (_ < _))

/-- Reduced limbs that encode an element. -/
structure Encodes (a : Fp) (x : Bn254.Fp) : Prop where
  canonical : a.Canonical
  value : a.value = x

theorem value_mont (x : Bn254.Fp) : (mont x).value = x := by
  rw [value, mont_cast, mul_assoc, mul_inv_cancel₀ R_ne_zero, mul_one]

theorem mont_encodes (x : Bn254.Fp) : (mont x).Encodes x := ⟨mont_lt x, value_mont x⟩

theorem Canonical.eq_mont (h : a.Canonical) : a = mont a.value := by
  refine Fp.eq_mont h ?_
  rw [value, mul_assoc, inv_mul_cancel₀ R_ne_zero, mul_one]

theorem Canonical.eq_iff (ha : a.Canonical) (hb : b.Canonical) : a = b ↔ a.value = b.value := by
  refine ⟨congrArg value, fun h => ?_⟩
  rw [ha.eq_mont, hb.eq_mont, h]

/-! ## Negation -/

theorem canonical_zero : zero.Canonical := by decide

theorem neg_zero_toNat : (neg zero).toNat = 2 * fieldModulus := by
  rw [neg_toNat canonical_zero, if_pos (by rfl)]

theorem neg_zero_not_canonical : ¬ (neg zero).Canonical := by
  rw [Canonical, neg_zero_toNat]
  omega

/-! ## All operations -/

/-- Every operation returns the encoding of what it computes, and limbs are compared as elements. -/
structure Exact (a b : Fp) : Prop where
  add : (add a b).Encodes (a.value + b.value)
  sub : (sub a b).Encodes (a.value - b.value)
  neg : (neg a).Encodes (-a.value)
  mul : (mul a b).Encodes (a.value * b.value)
  sqr : (sqr a).Encodes (a.value ^ 2)
  inv : a ≠ zero → (inv a).Encodes a.value⁻¹
  eq : a = b ↔ a.value = b.value

theorem exact_mont {x : Bn254.Fp} (hx : x ≠ 0) (y : Bn254.Fp) : Exact (mont x) (mont y) where
  add := by
    rw [value_mont, value_mont, add_mont]
    exact mont_encodes _
  sub := by
    rw [value_mont, value_mont, sub_mont]
    exact mont_encodes _
  neg := by
    rw [value_mont, neg_mont hx]
    exact mont_encodes _
  mul := by
    rw [value_mont, value_mont, mul_mont]
    exact mont_encodes _
  sqr := by
    rw [value_mont, sqr_mont, ← pow_two]
    exact mont_encodes _
  inv _ := by
    rw [value_mont, inv_mont]
    exact mont_encodes _
  eq := Canonical.eq_iff (mont_lt x) (mont_lt y)

/-- On reduced limbs the arithmetic is exact as long as zero is not negated. -/
theorem arithmetic_exact_iff (ha : a.Canonical) (hb : b.Canonical) : Exact a b ↔ a ≠ zero := by
  constructor
  · rintro h rfl
    exact neg_zero_not_canonical h.neg.canonical
  · intro hne
    have hvalue : a.value ≠ 0 := by
      intro h
      rw [ha.eq_mont, h] at hne
      exact hne zero_eq.symm
    rw [ha.eq_mont, hb.eq_mont]
    exact exact_mont hvalue b.value

theorem arithmetic_exact_one : Exact one r2 := (arithmetic_exact_iff (by decide) (by decide)).mpr (by decide)

/-- Zero is reduced, and its negation is twice the modulus. -/
theorem arithmetic_not_exact_zero : zero.Canonical ∧ (neg zero).toNat = 2 * fieldModulus ∧ ¬ Exact zero zero :=
  ⟨canonical_zero, neg_zero_toNat, fun h => neg_zero_not_canonical h.neg.canonical⟩

end ChainGuard.Soroban.ZkVerifier.Fp
