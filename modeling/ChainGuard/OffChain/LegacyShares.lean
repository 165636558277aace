import ChainGuard.Library.Crc
import ChainGuard.Library.Feldman
import ChainGuard.OffChain.ByteField
import ChainGuard.OffChain.ShareStrings

/-! The shares of the older kind: the tables of `secrets.service` compute in the bits' polynomials modulo
`X^8 + X^4 + X^3 + X^2 + 1`, and `reconstructSecret` reads back what such shares were made of. -/
namespace ChainGuard.OffChain.Secrets
open Loops Polynomial ErasureCoding ErasureCoding.GFByte
set_option autoImplicit false

/-! ## Bytes as numbers -/

theorem ofInt_byte (x : UInt8) : BitVec.ofInt 32 (x.toNat : ℤ) = BitVec.ofNat 32 x.toNat := by
  apply BitVec.eq_of_toNat_eq
  simp [BitVec.ofInt_natCast]

theorem toInt_byte {n : ℕ} (h : n < 256) : (BitVec.ofNat 32 n).toInt = n := by
  rw [BitVec.toInt_eq_toNat_of_lt]
  · simp only [BitVec.toNat_ofNat]
    omega
  · simp only [BitVec.toNat_ofNat]
    omega

theorem bitXor_byte (x y : UInt8) : bitXor x.toNat y.toNat = ((x ^^^ y).toNat : ℤ) := by
  rw [bitXor, ofInt_byte, ofInt_byte, ← BitVec.ofNat_xor, UInt8.toNat_xor]
  apply toInt_byte
  exact Nat.xor_lt_two_pow (n := 8) x.toNat_lt y.toNat_lt

theorem bitAnd_ff (a : ℤ) : bitAnd a 0xff = ((toUint8 (some a)).toNat : ℤ) := by
  have hlow : (BitVec.ofInt 32 a &&& BitVec.ofInt 32 0xff).toNat = (BitVec.ofInt 32 a).toNat % 256 := by
    rw [BitVec.toNat_and]
    exact Nat.and_two_pow_sub_one_eq_mod _ 8
  rw [bitAnd, BitVec.toInt_eq_toNat_of_lt (by omega), hlow, BitVec.toNat_ofInt, toUint8, UInt8.toNat_ofNat',
    Option.getD_some]
  omega

theorem bitAnd_byte (x : UInt8) : bitAnd x.toNat 0xff = (x.toNat : ℤ) := by
  rw [bitAnd_ff, toUint8_natCast, UInt8.ofNat_toNat]

/-! ## Tables -/

theorem nextPower_round {x : ℕ} (hx : x < 256) :
    (if bitAnd (x : ℤ) 0x80 = 0 then bitAnd (x * 2) 0xff else bitXor (bitAnd (x * 2) 0xff) GF_POLYNOMIAL) =
      (nextPower x : ℤ) := by
  have hall : ∀ x : Fin 256, (if bitAnd (x.val : ℤ) 0x80 = 0 then bitAnd (x.val * 2) 0xff
      else bitXor (bitAnd (x.val * 2) 0xff) GF_POLYNOMIAL) = (nextPower x.val : ℤ) := by decide +kernel
  exact hall ⟨x, hx⟩

/-- What the tables hold after `k` rounds. -/
structure Powers (k : ℕ) (s : GFTables × ℤ) : Prop where
  current : s.2 = power k
  expLength : s.1.expTable.length = 512
  logLength : s.1.logTable.length = 256
  exp : ∀ i < k, s.1.expTable.getD i 0 = UInt8.ofNat (power i)
  doubled : ∀ i < k, s.1.expTable.getD (i + 255) 0 = UInt8.ofNat (power i)
  log : ∀ i < k, s.1.logTable.getD (power i) 0 = UInt8.ofNat i

theorem initGFTables_powers : Powers 255 initGFTables := by
  apply upTo_spec (P := Powers)
  · refine ⟨rfl, List.length_replicate, List.length_replicate, ?_, ?_, ?_⟩ <;> omega
  intro k hk s hs
  obtain ⟨t, x⟩ := s
  obtain ⟨rfl, hexpLength, hlogLength, hexp, hdoubled, hlog⟩ := hs
  dsimp only at hexpLength hlogLength hexp hdoubled hlog
  refine ⟨?_, ?_, ?_, ?_, ?_, ?_⟩
  · rw [power_succ, ← nextPower_round (power_lt k)]
  · simp [hexpLength]
  · simp [hlogLength]
  · intro i hi
    simp only [toUint8_natCast, getD_set, List.length_set, hexpLength]
    rw [if_neg (by omega)]
    by_cases hik : k = i
    · rw [if_pos ⟨hik, by omega⟩, hik]
    · rw [if_neg fun h => hik h.1]
      exact hexp i (by omega)
  · intro i hi
    simp only [toUint8_natCast, getD_set, List.length_set, hexpLength]
    by_cases hik : k = i
    · rw [if_pos ⟨by omega, by omega⟩, hik]
    · rw [if_neg (by omega), if_neg (by omega)]
      exact hdoubled i (by omega)
  · intro i hi
    simp only [Int.toNat_natCast, getD_set, hlogLength]
    by_cases hik : k = i
    · subst hik
      rw [if_pos ⟨rfl, power_lt k⟩]
    · rw [if_neg fun h => hik (power_injective hk (by omega) h.1)]
      exact hlog i (by omega)

theorem expTable_eq {i : ℕ} (hi : i < 510) : expTable i = (power i : ℤ) := by
  obtain ⟨_, _, _, hexp, hdoubled, _⟩ := initGFTables_powers
  rw [expTable]
  by_cases hlow : i < 255
  · rw [hexp i hlow, toNat_ofNat_lt (power_lt i)]
  · obtain ⟨j, rfl⟩ : ∃ j, i = j + 255 := ⟨i - 255, by omega⟩
    rw [hdoubled j (by omega), toNat_ofNat_lt (power_lt j), power_add_period]

theorem logTable_power {i : ℕ} (hi : i < 255) : logTable (power i) = i := by
  rw [logTable, Int.toNat_natCast, initGFTables_powers.log i hi]
  apply toNat_ofNat_lt
  omega

theorem gfMultiply_byte (a b : GFByte) : gfMultiply a.byte.toNat b.byte.toNat = ((a * b).byte.toNat : ℤ) := by
  simp only [gfMultiply, bitAnd_byte]
  by_cases ha : a = 0
  · subst ha
    simp
  by_cases hb : b = 0
  · subst hb
    simp
  obtain ⟨i, hi, rfl⟩ := reached a ha
  obtain ⟨j, hj, rfl⟩ := reached b hb
  have hne : ∀ i < 255, power i ≠ 0 := by
    intro i hi hzero
    apply power_ne_zero hi
    rw [hzero]
    rfl
  rw [generated.mul_step i hi, ← Function.iterate_add_apply]
  simp only [iterate_next, toNat_ofNat_lt (power_lt _)]
  rw [if_neg (by simp [hne i hi, hne j hj]), logTable_power hi, logTable_power hj]
  exact expTable_eq (by omega)

theorem gfInverse_byte {a : GFByte} (ha : a ≠ 0) : gfInverse a.byte.toNat = .ok (a⁻¹.byte.toNat : ℤ) := by
  have hbyte : (a.byte.toNat : ℤ) ≠ 0 := by
    intro hzero
    apply ha
    apply GFByte.ext
    apply UInt8.toNat_inj.mp
    exact Int.natCast_eq_zero.mp hzero
  simp only [gfInverse, bitAnd_byte]
  rw [if_neg hbyte]
  obtain ⟨i, hi, rfl⟩ := reached a ha
  rw [generated.inv_step i hi]
  simp only [iterate_next, toNat_ofNat_lt (power_lt _), logTable_power hi]
  rw [expTable_eq (by omega)]

theorem gfMultiply_low (a b : ℤ) :
    gfMultiply a b = gfMultiply (toUint8 (some a)).toNat (toUint8 (some b)).toNat := by
  simp only [gfMultiply, bitAnd_ff, toUint8_natCast, UInt8.ofNat_toNat]

theorem gfInverse_low (a : ℤ) : gfInverse a = gfInverse (toUint8 (some a)).toNat := by
  simp only [gfInverse, bitAnd_ff, toUint8_natCast, UInt8.ofNat_toNat]

/-! ## The field of the polynomials -/

/-- `X^8 + X^4 + X^3 + X^2 + 1` -/
noncomputable def modulus : (ZMod 2)[X] := X ^ 8 + X ^ 4 + X ^ 3 + X ^ 2 + 1

abbrev GF256 : Type := AdjoinRoot modulus

/-- The bits of a byte as coefficients. -/
noncomputable def element (x : UInt8) : GF256 := AdjoinRoot.mk modulus (Crc.poly x.toBitVec)

theorem modulus_eq : modulus = Crc.generator (0x1d : BitVec 8) := by
  have hlow : Crc.poly (0x1d : BitVec 8) = X ^ 4 + X ^ 3 + X ^ 2 + 1 := by
    simp [Crc.poly, Finset.sum_range_succ]
    ring
  rw [modulus, Crc.generator, hlow]
  ring

theorem element_xor (x y : UInt8) : element (x ^^^ y) = element x + element y := by
  rw [element, UInt8.toBitVec_xor, Crc.poly_xor, map_add]
  rfl

theorem element_zero : element 0 = 0 := by
  have h := element_xor 0 0
  rw [UInt8.xor_self] at h
  exact left_eq_add.mp h

theorem element_one : element 1 = 1 := by
  have hone : Crc.poly (1 : BitVec 8) = 1 := by
    simp [Crc.poly]
  rw [element, show (1 : UInt8).toBitVec = 1 from rfl, hone, map_one]

theorem element_next (a : GFByte) : element (next a).byte = AdjoinRoot.root modulus * element a.byte := by
  have hall : ∀ x : Fin 256, (UInt8.ofNat (nextPower x.val)).toBitVec =
      Crc.shift (0x1d : BitVec 8) (UInt8.ofNat x.val).toBitVec := by decide +kernel
  have hshift := hall ⟨a.byte.toNat, a.byte.toNat_lt⟩
  rw [UInt8.ofNat_toNat] at hshift
  have hdvd := Crc.shift_dvd (0x1d : BitVec 8) a.byte.toBitVec
  rw [← hshift, ← modulus_eq] at hdvd
  have hmk := AdjoinRoot.mk_eq_mk.mpr hdvd
  rw [map_mul, AdjoinRoot.mk_X, mul_comm] at hmk
  exact hmk.symm

theorem element_iterate (i : ℕ) (a : GFByte) :
    element (next^[i] a).byte = AdjoinRoot.root modulus ^ i * element a.byte := by
  induction i with
  | zero => simp
  | succ i ih => rw [Function.iterate_succ_apply', element_next, ih, pow_succ', mul_assoc]

theorem element_mul (a b : GFByte) : element (a * b).byte = element a.byte * element b.byte := by
  by_cases ha : a = 0
  · simp [ha, element_zero]
  obtain ⟨i, hi, rfl⟩ := reached a ha
  rw [generated.mul_step i hi, element_iterate, element_iterate, byte_one, element_one, mul_one]

/-- The bytes with the arithmetic of the tables, among the polynomials. -/
noncomputable def elements : GFByte →+* GF256 where
  toFun a := element a.byte
  map_one' := element_one
  map_mul' := element_mul
  map_zero' := element_zero
  map_add' a b := element_xor a.byte b.byte

instance : Nontrivial GF256 := by
  apply AdjoinRoot.nontrivial
  rw [modulus_eq, Crc.degree_generator]
  decide

theorem elements_bijective : Function.Bijective elements := by
  constructor
  · exact elements.injective
  intro z
  induction z using AdjoinRoot.induction_on with
  | ih p =>
    induction p using Polynomial.induction_on with
    | C c =>
      have hbit : c = 0 ∨ c = 1 := by
        revert c
        decide
      cases hbit with
      | inl hzero => exact ⟨0, by simp [hzero]⟩
      | inr hone => exact ⟨1, by simp [hone]⟩
    | add p q hp hq =>
      obtain ⟨a, ha⟩ := hp
      obtain ⟨b, hb⟩ := hq
      exact ⟨a + b, by rw [map_add, map_add, ha, hb]⟩
    | monomial n c ih =>
      obtain ⟨a, ha⟩ := ih
      refine ⟨next a, ?_⟩
      rw [pow_succ, ← mul_assoc, map_mul, ← ha, AdjoinRoot.mk_X, mul_comm]
      exact element_next a

noncomputable def bytesEquiv : GFByte ≃+* GF256 := RingEquiv.ofBijective elements elements_bijective

/-- What the tables compute is the arithmetic of the polynomials; of a number the low byte counts. -/
structure FieldTables : Prop where
  bijective : Function.Bijective element
  add : ∀ x y, element (x ^^^ y) = element x + element y
  multiply : ∀ a b : ℤ, ∃ z : UInt8, gfMultiply a b = z.toNat ∧
    element z = element (toUint8 (some a)) * element (toUint8 (some b))
  inverse : ∀ a : ℤ, toUint8 (some a) ≠ 0 → ∃ z : UInt8, gfInverse a = .ok z.toNat ∧
    element z * element (toUint8 (some a)) = 1
  division : ∀ a : ℤ, toUint8 (some a) = 0 → gfInverse a = .error (.error (js "GF(256) division by zero"))

theorem fieldTables : FieldTables where
  bijective := by
    constructor
    · intro x y h
      have hbytes : (⟨x⟩ : GFByte) = ⟨y⟩ := elements_bijective.1 h
      exact congrArg byte hbytes
    · intro z
      obtain ⟨a, ha⟩ := elements_bijective.2 z
      exact ⟨a.byte, ha⟩
  add := element_xor
  multiply a b := by
    rw [gfMultiply_low]
    exact ⟨_, gfMultiply_byte ⟨toUint8 (some a)⟩ ⟨toUint8 (some b)⟩, element_mul _ _⟩
  inverse a ha := by
    have hne : (⟨toUint8 (some a)⟩ : GFByte) ≠ 0 := fun h => ha (congrArg byte h)
    rw [gfInverse_low]
    refine ⟨_, gfInverse_byte hne, ?_⟩
    have hproduct := element_mul (⟨toUint8 (some a)⟩ : GFByte)⁻¹ ⟨toUint8 (some a)⟩
    rw [inv_mul_cancel₀ hne, byte_one, element_one] at hproduct
    exact hproduct.symm
  division a ha := by
    simp [gfInverse, bitAnd_ff, ha]

/-! ## Interpolation -/

theorem gfByte_sub (a b : GFByte) : a - b = a + b := sub_eq_add_neg a b

theorem bitXor_points (a b : GFByte) : bitXor a.byte.toNat b.byte.toNat = ((a - b).byte.toNat : ℤ) := by
  rw [bitXor_byte, gfByte_sub]
  rfl

/-- The coordinates as `reconstructByte` takes them. -/
def pairOf (p : GFByte × GFByte) : ℤ × ℤ := (p.1.byte.toNat, p.2.byte.toNat)

theorem getD_pairOf (points : List (GFByte × GFByte)) (i : ℕ) :
    (points.map pairOf).getD i (0, 0) = pairOf (points.getD i (0, 0)) :=
  List.getD_map points (0, 0) pairOf

section Interpolation
variable {points : List (GFByte × GFByte)} (hdistinct : (points.map Prod.fst).Nodup)
include hdistinct

theorem points_ne {i j : ℕ} (hi : i < points.length) (hj : j < points.length) (hij : i ≠ j) :
    (points.getD j (0, 0)).1 - (points.getD i (0, 0)).1 ≠ 0 := by
  intro hzero
  apply hij
  have hinj := Feldman.injOn_of_nodup hdistinct (0, 0)
  apply hinj (by simpa using hi) (by simpa using hj)
  exact (sub_eq_zero.mp hzero).symm

theorem byteLagrange_eq {i : ℕ} (hi : i < points.length) : byteLagrange (points.map pairOf) i =
    .ok ((Feldman.weight (fun j => (points.getD j (0, 0)).1) points.length i).byte.toNat : ℤ) := by
  let x := fun j => (points.getD j (0, 0)).1
  let product := fun n => ∏ j ∈ (Finset.range n).erase i, x j * (x j - x i)⁻¹
  obtain ⟨w, hrun, hw⟩ : ∃ w, byteLagrange (points.map pairOf) i = .ok w ∧
      w = ((product points.length).byte.toNat : ℤ) := by
    rw [byteLagrange, List.length_map]
    apply tryUpTo_spec (P := fun n w => w = ((product n).byte.toNat : ℤ))
    · simp [product]
    intro j hj w hw
    by_cases hij : i = j
    · subst hij
      refine ⟨w, if_pos rfl, ?_⟩
      simp only [product, Finset.range_add_one, Finset.erase_insert_eq_erase]
      exact hw
    · have hne := points_ne hdistinct hi hj hij
      refine ⟨_, ?_, rfl⟩
      simp only [if_neg hij, getD_pairOf, pairOf, bitXor_points, gfInverse_byte hne]
      simp only [bind, Except.bind, pure, Except.pure, hw, gfMultiply_byte, product]
      rw [Finset.range_add_one, Finset.erase_insert_of_ne (Ne.symm hij), Finset.prod_insert (by simp), mul_comm]
  rw [hrun, hw]
  rfl

theorem reconstructByte_eq {f : GFByte[X]} (hdegree : f.degree < points.length)
    (hvalues : ∀ p ∈ points, p.2 = f.eval p.1) :
    reconstructByte (points.map pairOf) = .ok ((f.eval 0).byte.toNat : ℤ) := by
  let x := fun j => (points.getD j (0, 0)).1
  let y := fun j => (points.getD j (0, 0)).2
  have hsum : ∑ i ∈ Finset.range points.length, Feldman.weight x points.length i * y i = f.eval 0 := by
    rw [← Feldman.sum_weight (Feldman.injOn_of_nodup hdistinct (0, 0)) hdegree]
    apply Finset.sum_congr rfl
    intro i hi
    have hi : i < points.length := by simpa using hi
    have hmem : points.getD i (0, 0) ∈ points := by
      rw [List.getD_eq_getElem _ _ hi]
      exact List.getElem_mem hi
    rw [show y i = f.eval (x i) from hvalues _ hmem]
  let sum := fun n => ∑ i ∈ Finset.range n, Feldman.weight x points.length i * y i
  obtain ⟨secret, hrun, hsecret⟩ : ∃ secret, reconstructByte (points.map pairOf) = .ok secret ∧
      secret = ((sum points.length).byte.toNat : ℤ) := by
    rw [reconstructByte, List.length_map]
    apply tryUpTo_spec (P := fun n secret => secret = ((sum n).byte.toNat : ℤ))
    · simp [sum]
    intro i hi secret hsecret
    refine ⟨_, ?_, rfl⟩
    rw [byteLagrange_eq hdistinct hi]
    simp only [bind, Except.bind, pure, Except.pure, hsecret, getD_pairOf, pairOf, gfMultiply_byte,
      bitXor_byte, sum]
    rw [Finset.sum_range_succ, mul_comm]
    rfl
  rw [hrun, hsecret]
  simp only [sum, hsum]

end Interpolation

/-! ## The strings -/

/-- Two hexadecimal digits for each byte, in either case. -/
inductive HexOf : JsString → Bytes → Prop
  | nil : HexOf [] []
  | cons {high low : UInt16} {x y : ℕ} {hex : JsString} {bytes : Bytes} (hhigh : hexValue high = some x)
      (hlow : hexValue low = some y) (hrest : HexOf hex bytes) :
      HexOf (high :: low :: hex) (UInt8.ofNat (16 * x + y) :: bytes)

theorem hexString_hexOf (bytes : Bytes) : HexOf (hexString bytes) bytes := by
  induction bytes with
  | nil => exact .nil
  | cons x bytes ih =>
    obtain ⟨hhigh, hlow⟩ := hexDigits_toNat x
    have hcons := ih.cons (hexValue_hexDigit hhigh) (hexValue_hexDigit hlow)
    rwa [Nat.div_add_mod, UInt8.ofNat_toNat] at hcons

theorem hexValue_other {c : UInt16} {x : ℕ} (h : hexValue c = some x) :
    isWhiteSpace c = false ∧ c ∉ [dash, 0x2b, 0x78, 0x58, 0x76] := by
  have hall : ∀ n : Fin 103, (hexValue (UInt16.ofNat n.val)).isSome = true →
      isWhiteSpace (UInt16.ofNat n.val) = false ∧ UInt16.ofNat n.val ∉ [dash, 0x2b, 0x78, 0x58, 0x76] := by
    decide +kernel
  have hlt : c.toNat < 103 := by
    simp only [hexValue, UInt16.le_iff_toNat_le, UInt16.reduceToNat] at h
    split_ifs at h <;> omega
  have hc := hall ⟨c.toNat, hlt⟩
  simp only [UInt16.ofNat_toNat] at hc
  exact hc (by rw [h]; rfl)

theorem parseIntHex_digits {high low : UInt16} {x y : ℕ} (hhigh : hexValue high = some x)
    (hlow : hexValue low = some y) : parseIntHex [high, low] = some ((16 * x + y : ℕ) : ℤ) := by
  obtain ⟨hspace, hother⟩ := hexValue_other hhigh
  have hletter := (hexValue_other hlow).2
  have hdash : high ≠ 0x2d := fun h => hother (by simp [h, dash])
  have hplus : high ≠ 0x2b := fun h => hother (by simp [h])
  have hx : [high, low] ≠ js "0x" ∧ [high, low] ≠ js "0X" := by
    constructor
    · intro h
      apply hletter
      rw [(List.cons.inj (List.cons.inj h).2).1]
      decide
    · intro h
      apply hletter
      rw [(List.cons.inj (List.cons.inj h).2).1]
      decide
  simp [parseIntHex, hspace, hdash, hplus, hx, hhigh, hlow]

namespace HexOf
variable {hex : JsString} {bytes : Bytes}

theorem not_mem (h : HexOf hex bytes) : dash ∉ hex ∧ 0x76 ∉ hex := by
  induction h with
  | nil => simp
  | cons hhigh hlow hrest ih =>
    have hhigh := (hexValue_other hhigh).2
    have hlow := (hexValue_other hlow).2
    simp only [List.mem_cons, not_or] at hhigh hlow ⊢
    exact ⟨⟨fun h => hhigh.1 h.symm, fun h => hlow.1 h.symm, ih.1⟩,
      ⟨fun h => hhigh.2.2.2.2.1 h.symm, fun h => hlow.2.2.2.2.1 h.symm, ih.2⟩⟩

theorem hexToBytes (h : HexOf hex bytes) : OffChain.hexToBytes hex = bytes := by
  induction h with
  | nil => rfl
  | cons hhigh hlow hrest ih => rw [hexToBytes_cons, parseIntHex_digits hhigh hlow, toUint8_natCast, ih]

end HexOf

/-- `x-hex` -/
def legacyShare (s : UInt8 × JsString) : JsString := decimal s.1.toNat ++ dash :: s.2

theorem legacyShare_split (x : UInt8) {hex : JsString} (h : dash ∉ hex) :
    (legacyShare (x, hex)).splitOn dash = [decimal x.toNat, hex] := by
  rw [legacyShare, List.splitOn_append_cons_self_of_not_mem (decimal_dash_not_mem _), List.splitOn_eq_singleton h]

theorem parseLegacy_share {x : UInt8} (hx : x ≠ 0) {hex : JsString} {bytes : Bytes} (h : HexOf hex bytes) :
    parseLegacy (legacyShare (x, hex)) = .ok ((x.toNat : ℤ), bytes) := by
  have hpos : ¬ (x.toNat : ℤ) < 1 := by
    have hne : x.toNat ≠ 0 := fun h => hx (UInt8.toNat_inj.mp h)
    omega
  rw [parseLegacy, legacyShare_split x h.not_mem.1]
  simp only [parseIntDecimal_decimal, if_neg hpos, h.hexToBytes]

/-! ## The secret -/

/-- The share has the values that the polynomials of the secret's bytes take at its point. -/
def Carries (f : ℕ → GF256[X]) (numBytes : ℕ) (s : UInt8 × JsString) : Prop :=
  s.1 ≠ 0 ∧ ∃ bytes, HexOf s.2 bytes ∧ bytes.length = numBytes ∧
    ∀ i < numBytes, element (bytes.getD i 0) = (f i).eval (element s.1)

section Reading
variable {f : ℕ → GF256[X]} {numBytes : ℕ} {shares : List (UInt8 × JsString)}

/-- The values at one position of the bytes, as points of the field. -/
def pointsAt (shares : List (UInt8 × JsString)) (byteIndex : ℕ) : List (GFByte × GFByte) :=
  shares.map fun s => (⟨s.1⟩, ⟨(OffChain.hexToBytes s.2).getD byteIndex 0⟩)

theorem pointsAt_nodup (hdistinct : (shares.map Prod.fst).Nodup) (byteIndex : ℕ) :
    ((pointsAt shares byteIndex).map Prod.fst).Nodup := by
  have hpoints : (pointsAt shares byteIndex).map Prod.fst = (shares.map Prod.fst).map GFByte.mk := by
    simp [pointsAt, Function.comp_def]
  rw [hpoints]
  apply hdistinct.map
  intro x y h
  exact congrArg byte h

theorem bytesEquiv_eval (p : GF256[X]) (a : GFByte) :
    bytesEquiv ((p.map bytesEquiv.symm.toRingHom).eval a) = p.eval (bytesEquiv a) := by
  have hpoint : a = bytesEquiv.symm.toRingHom (bytesEquiv a) := (bytesEquiv.symm_apply_apply a).symm
  conv_lhs => rw [hpoint]
  rw [eval_map, eval₂_at_apply]
  exact bytesEquiv.apply_symm_apply _

theorem reconstructByte_pointsAt {k : ℕ} (hdistinct : (shares.map Prod.fst).Nodup) (hk : k ≤ shares.length)
    (hcarry : ∀ s ∈ shares, Carries f numBytes s) {i : ℕ} (hi : i < numBytes) (hdegree : (f i).degree < k)
    {x : UInt8} (hx : (f i).coeff 0 = element x) :
    reconstructByte ((pointsAt shares i).map pairOf) = .ok (x.toNat : ℤ) := by
  let g := (f i).map bytesEquiv.symm.toRingHom
  have hgdegree : g.degree < (pointsAt shares i).length := by
    apply degree_map_le.trans_lt
    apply hdegree.trans_le
    simpa [pointsAt] using hk
  have hvalues : ∀ p ∈ pointsAt shares i, p.2 = g.eval p.1 := by
    intro p hp
    obtain ⟨s, hs, rfl⟩ := List.mem_map.mp hp
    obtain ⟨_, bytes, hhex, _, hvalue⟩ := hcarry s hs
    apply bytesEquiv.injective
    rw [bytesEquiv_eval]
    dsimp only
    rw [hhex.hexToBytes]
    exact hvalue i hi
  have hzero : g.eval 0 = ⟨x⟩ := by
    apply bytesEquiv.injective
    rw [bytesEquiv_eval, map_zero, ← coeff_zero_eq_eval_zero]
    exact hx
  rw [reconstructByte_eq (pointsAt_nodup hdistinct i) hgdegree hvalues, hzero]

theorem reconstructLegacy_eq {k : ℕ} {secret : Bytes} (hthreshold : 1 ≤ k) (hdistinct : (shares.map Prod.fst).Nodup)
    (hk : k ≤ shares.length) (hcarry : ∀ s ∈ shares, Carries f secret.length s)
    (hdegree : ∀ i < secret.length, (f i).degree < k)
    (hsecret : ∀ i < secret.length, (f i).coeff 0 = element (secret.getD i 0)) :
    reconstructLegacy (shares.map legacyShare) = .ok (hexString secret) := by
  let parsedShares := shares.map fun s => ((s.1.toNat : ℤ), OffChain.hexToBytes s.2)
  have hparsed : (shares.map legacyShare).mapM parseLegacy = .ok parsedShares := by
    rw [List.mapM_map]
    apply mapM_ok
    intro s hs
    obtain ⟨hne, bytes, hhex, _, _⟩ := hcarry s hs
    rw [hhex.hexToBytes]
    exact parseLegacy_share hne hhex
  have hlength : ∀ s ∈ parsedShares, s.2.length = secret.length := by
    intro s hs
    obtain ⟨t, ht, rfl⟩ := List.mem_map.mp hs
    obtain ⟨_, bytes, hhex, hlength, _⟩ := hcarry t ht
    dsimp only
    rw [hhex.hexToBytes, hlength]
  have hnumBytes : (parsedShares.headD (0, [])).2.length = secret.length := by
    cases hparsedShares : parsedShares with
    | nil =>
      have hempty : parsedShares.length = 0 := by rw [hparsedShares, List.length_nil]
      simp only [parsedShares, List.length_map] at hempty
      omega
    | cons s rest =>
      apply hlength
      rw [hparsedShares]
      exact List.mem_cons_self
  have hbytes : (List.range secret.length).mapM (fun byteIndex => do
      let byte ← reconstructByte (parsedShares.map fun s => (s.1, ((s.2.getD byteIndex 0).toNat : ℤ)))
      return toUint8 (some byte)) = (.ok ((List.range secret.length).map fun i => secret.getD i 0) : Result _) := by
    apply mapM_ok
    intro i hi
    have hi : i < secret.length := List.mem_range.mp hi
    have hpoints : (parsedShares.map fun s => (s.1, ((s.2.getD i 0).toNat : ℤ))) =
        (pointsAt shares i).map pairOf := by
      simp [parsedShares, pointsAt, pairOf, Function.comp_def]
    rw [hpoints, reconstructByte_pointsAt hdistinct hk hcarry hi (hdegree i hi) (hsecret i hi)]
    simp only [bind, Except.bind, pure, Except.pure, toUint8_natCast, UInt8.ofNat_toNat]
  have hsame : ¬ ∃ s ∈ parsedShares, s.2.length ≠ secret.length := by
    intro h
    obtain ⟨s, hs, hne⟩ := h
    exact hne (hlength s hs)
  have hall : (List.range secret.length).map (fun i => secret.getD i 0) = secret := by
    apply List.ext_getElem
    · simp
    · intro i hi hi'
      rw [List.getElem_map, List.getElem_range, List.getD_eq_getElem _ _ hi']
  rw [hall] at hbytes
  simp only [reconstructLegacy, hparsed, bind, Except.bind, hnumBytes, throwIf, if_neg hsame]
  simp only [bind, Except.bind] at hbytes
  rw [hbytes]
  rfl

end Reading

/-- Any enough shares of the older kind give the secret back, with its leading zeros, and no inverse of zero is asked
for. -/
theorem legacy_reconstructed (secret : Bytes) (k : ℕ) (hthreshold : 1 ≤ k) (f : ℕ → GF256[X])
    (hdegree : ∀ i < secret.length, (f i).degree < k)
    (hsecret : ∀ i < secret.length, (f i).coeff 0 = element (secret.getD i 0))
    (shares : List (UInt8 × JsString)) (hk : k ≤ shares.length) (hdistinct : (shares.map Prod.fst).Nodup)
    (hcarry : ∀ s ∈ shares, Carries f secret.length s) :
    reconstructSecret (shares.map legacyShare) = .ok (hexString secret) ∧
      (∀ i < shares.length, ∀ j < shares.length, i ≠ j → ∃ inverse,
        gfInverse (bitXor (shares.getD j (0, [])).1.toNat (shares.getD i (0, [])).1.toNat) = .ok inverse) ∧
      FieldTables := by
  refine ⟨?_, ?_, fieldTables⟩
  · have hlegacy := reconstructLegacy_eq hthreshold hdistinct hk hcarry hdegree hsecret
    cases shares with
    | nil =>
      rw [List.length_nil] at hk
      omega
    | cons s rest =>
      obtain ⟨_, bytes, hhex, _, _⟩ := hcarry s List.mem_cons_self
      have hkind : ((legacyShare s).splitOn dash).getD 1 [] = s.2 := by
        rw [legacyShare_split s.1 hhex.not_mem.1]
        rfl
      have hlegacyKind : s.2.take 3 ≠ js "vss" := by
        intro h
        apply hhex.not_mem.2
        apply List.mem_of_mem_take (i := 3)
        rw [h]
        decide
      rw [List.map_cons, reconstructSecret]
      simp only [hkind, hlegacyKind, not_false_eq_true, if_true]
      exact hlegacy
  · intro i hi j hj hij
    have hne := points_ne (pointsAt_nodup hdistinct 0) (i := i) (j := j) (by simpa [pointsAt] using hi)
      (by simpa [pointsAt] using hj) hij
    have hpoint : ∀ i, (((pointsAt shares 0).getD i (0, 0)).1.byte) = (shares.getD i (0, [])).1 := by
      intro i
      let point := fun s : UInt8 × JsString => ((⟨s.1⟩, ⟨(OffChain.hexToBytes s.2).getD 0 0⟩) : GFByte × GFByte)
      exact congrArg (fun p => p.1.byte) (List.getD_map shares (0, []) point)
    rw [← hpoint, ← hpoint, bitXor_points, gfInverse_byte hne]
    exact ⟨_, rfl⟩

/-- A secret that begins with a zero byte, between the polynomials `X` and `0x2a + X`. -/
theorem legacy_reconstructed_two :
    reconstructSecret [js "1-012b", js "2-0228"] = .ok (js "002a") ∧ FieldTables := by
  let f : ℕ → GF256[X] := fun i => C (element ([0x00, 0x2a].getD i 0)) + X
  have hdegree : ∀ i < ([0x00, 0x2a] : Bytes).length, (f i).degree < (2 : ℕ) := by
    intro i _
    apply (degree_add_le _ _).trans_lt
    rw [degree_X, max_lt_iff]
    exact ⟨degree_C_le.trans_lt (by decide), by decide⟩
  have hcarry : ∀ s ∈ [((1 : UInt8), js "012b"), (2, js "0228")], Carries f ([0x00, 0x2a] : Bytes).length s := by
    have hvalue : ∀ (i : ℕ) (x y : UInt8), y = ([0x00, 0x2a] : Bytes).getD i 0 ^^^ x →
        element y = (f i).eval (element x) := by
      intro i x y h
      rw [h, element_xor]
      simp [f]
    have hfirst : HexOf (js "012b") [0x01, 0x2b] := by
      rw [show js "012b" = hexString [0x01, 0x2b] by decide]
      exact hexString_hexOf _
    have hsecond : HexOf (js "0228") [0x02, 0x28] := by
      rw [show js "0228" = hexString [0x02, 0x28] by decide]
      exact hexString_hexOf _
    intro s hs
    simp only [List.mem_cons, List.not_mem_nil, or_false] at hs
    cases hs with
    | inl hs =>
      subst hs
      refine ⟨by decide, [0x01, 0x2b], hfirst, rfl, ?_⟩
      intro i hi
      apply hvalue
      revert i
      decide
    | inr hs =>
      subst hs
      refine ⟨by decide, [0x02, 0x28], hsecond, rfl, ?_⟩
      intro i hi
      apply hvalue
      revert i
      decide
  have hall := legacy_reconstructed [0x00, 0x2a] 2 (by decide) f hdegree (fun i _ => by simp [f])
    [(1, js "012b"), (2, js "0228")] (by decide) (by decide) hcarry
  exact ⟨hall.1, hall.2.2⟩

end ChainGuard.OffChain.Secrets
