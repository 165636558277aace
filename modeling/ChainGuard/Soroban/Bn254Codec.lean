import ChainGuard.Soroban.CurveGroups

/-! The affine points of the second group: what `zk_verifier` reads from bytes is a point of the twist. -/
namespace ChainGuard.Soroban.ZkVerifier
open Bn254 (Fp2 Twist TwistPoint)
open Guarded
set_option autoImplicit false

/-! ## Forms -/

namespace Fq2

/-- The form of an element of the extension. -/
def mont (x : Fp2) : Fq2 := ⟨.mont x.re, .mont x.im⟩

theorem mont_inj {x y : Fp2} : mont x = mont y ↔ x = y := by
  refine ⟨fun h => ?_, congrArg mont⟩
  exact QuadraticAlgebra.ext (Fp.mont_inj.mp (congrArg re h)) (Fp.mont_inj.mp (congrArg im h))

theorem add_mont (x y : Fp2) : add (mont x) (mont y) = mont (x + y) := by
  simp only [add, mont, Fp.add_mont]
  rfl

theorem mul_mont (x y : Fp2) : mul (mont x) (mont y) = mont (x * y) := by
  simp only [mul, mont, Fp.mul_mont, Fp.sub_mont, Fp.add_mont, mk.injEq, Fp.mont_inj, QuadraticAlgebra.re_mul,
    QuadraticAlgebra.im_mul]
  constructor <;> ring

theorem sqr_mont (x : Fp2) : sqr (mont x) = mont (x ^ 2) := by
  rw [pow_two, ← mul_mont]
  simp only [sqr, mul, mont, Fp.sqr_mont, Fp.mul_mont, mk.injEq, true_and]
  rw [mul_comm x.im x.re]

theorem twistB_eq : twistB = mont Bn254.twistConstant := by
  rw [twistB, Fp.mul_r2, Fp.mul_r2, mont, mk.injEq, Fp.mont_inj, Fp.mont_inj]
  constructor <;> decide +kernel

end Fq2

/-! ## Points -/

/-- A point of the twist in the coordinates of the source. -/
def twistAffine : Twist → G2Affine
  | .zero => .atInfinity
  | .some x y _ => ⟨.mont x, .mont y, false⟩

theorem twist_isOnCurve {x y : Fp2} : Affine.isOnCurve (⟨.mont x, .mont y, false⟩ : G2Affine) = true ↔
    y ^ 2 = x ^ 3 + Bn254.twistConstant := by
  have hleft : Coordinates.sqr (Fq2.mont y) = .mont (y ^ 2) := Fq2.sqr_mont y
  have hright : Coordinates.add (Coordinates.mul (Coordinates.sqr (Fq2.mont x)) (Fq2.mont x)) Coordinates.b =
      .mont (x ^ 3 + Bn254.twistConstant) := by
    show ((Fq2.mont x).sqr.mul (.mont x)).add twistB = _
    rw [Fq2.sqr_mont, Fq2.mul_mont, Fq2.twistB_eq, Fq2.add_mont, ← pow_succ]
  rw [isOnCurve_iff rfl, hleft, hright, Fq2.mont_inj]

theorem twistAffine_injective {Q R : Twist} (h : twistAffine Q = twistAffine R) : Q = R := by
  cases Q with
  | zero =>
    cases R with
    | zero => rfl
    | some x y hxy => exact absurd (congrArg Affine.infinity h).symm Bool.false_ne_true
  | some x y hxy =>
    cases R with
    | zero => exact absurd (congrArg Affine.infinity h) Bool.false_ne_true
    | some x' y' hxy' =>
      obtain rfl : x = x' := Fq2.mont_inj.mp (congrArg Affine.x h)
      obtain rfl : y = y' := Fq2.mont_inj.mp (congrArg Affine.y h)
      rfl

theorem twistAffine_point {w : (ℕ × ℕ) × (ℕ × ℕ)} (h : TwistPoint w) :
    twistAffine h.point = ⟨.mont ⟨w.1.1, w.1.2⟩, .mont ⟨w.2.1, w.2.2⟩, false⟩ := rfl

/-! ## Decoding -/

/-- The four numbers of the bytes, the imaginary parts first. -/
def twistWords (bytes : Bytes) : (ℕ × ℕ) × (ℕ × ℕ) :=
  ((natBE ((bytes.drop 32).take 32), natBE (bytes.take 32)),
    (natBE (bytes.drop 96), natBE ((bytes.drop 64).take 32)))

def BelowBound (w : (ℕ × ℕ) × (ℕ × ℕ)) : Prop :=
  (w.1.1 < coordinateBound ∧ w.1.2 < coordinateBound) ∧ w.2.1 < coordinateBound ∧ w.2.2 < coordinateBound

theorem belowBound_zero : BelowBound Twist.zero.coords := by
  have hzero : 0 < coordinateBound := by decide
  exact ⟨⟨hzero, hzero⟩, hzero, hzero⟩

theorem quarters (bytes : Bytes) : bytes = bytes.take 32 ++ ((bytes.drop 32).take 32 ++
    ((bytes.drop 64).take 32 ++ bytes.drop 96)) := by
  have hdrop : ∀ n, bytes.drop n = (bytes.drop n).take 32 ++ bytes.drop (n + 32) := fun n => by
    rw [← List.drop_drop, List.take_append_drop]
  rw [← hdrop 64, ← hdrop 32, List.take_append_drop]

theorem twistWords_zero {bytes : Bytes} : bytes.all (· == 0) = true ↔ twistWords bytes = ((0, 0), (0, 0)) := by
  conv_lhs => rw [quarters bytes]
  simp only [List.all_append, Bool.and_eq_true, all_zero_iff, twistWords, Prod.mk.injEq]
  tauto

theorem G2Affine.fromBytes_iff {bytes : Bytes} (hlength : bytes.length = 128) {P : G2Affine} :
    G2Affine.fromBytes bytes = .ok P ↔
      ∃ Q : Twist, Q.coords = twistWords bytes ∧ BelowBound Q.coords ∧ twistAffine Q = P := by
  have hxim : (bytes.take 32).length = 32 := by
    rw [List.length_take]
    omega
  have hxre : ((bytes.drop 32).take 32).length = 32 := by
    rw [List.length_take, List.length_drop]
    omega
  have hyim : ((bytes.drop 64).take 32).length = 32 := by
    rw [List.length_take, List.length_drop]
    omega
  have hyre : (bytes.drop 96).length = 32 := by
    rw [List.length_drop]
    omega
  rw [G2Affine.fromBytes]
  split
  · next hall =>
    rw [twistWords_zero.mp hall, Except.ok.injEq]
    constructor
    · rintro rfl
      exact ⟨.zero, rfl, belowBound_zero, rfl⟩
    · rintro ⟨Q, hQ, _, rfl⟩
      rw [Bn254.Twist.coords_injective (hQ.trans (show _ = Twist.zero.coords from rfl))]
      rfl
  · next hall =>
    rw [twistWords_zero] at hall
    simp only [bind_ok, coordinate_eq hxim, coordinate_eq hxre, coordinate_eq hyim, coordinate_eq hyre, onCurve_ok]
    constructor
    · rintro ⟨_, ⟨hximb, rfl⟩, _, ⟨hxreb, rfl⟩, _, ⟨hyimb, rfl⟩, _, ⟨hyreb, rfl⟩, hcurve, rfl⟩
      have hpoint : TwistPoint (twistWords bytes) :=
        ⟨hxreb.trans coordinateBound_lt, hximb.trans coordinateBound_lt, hyreb.trans coordinateBound_lt,
          hyimb.trans coordinateBound_lt, Bn254.twist_equation_iff.mpr (twist_isOnCurve.mp hcurve)⟩
      refine ⟨hpoint.point, hpoint.coords_point, ?_, rfl⟩
      rw [hpoint.coords_point]
      exact ⟨⟨hxreb, hximb⟩, hyreb, hyimb⟩
    · rintro ⟨Q, hQ, hbelow, rfl⟩
      cases Q with
      | zero => exact absurd hQ.symm hall
      | some x y hxy =>
        have hpoint := Bn254.twistPoint_coords hxy
        rw [hQ] at hpoint hbelow
        obtain ⟨⟨hxreb, hximb⟩, hyreb, hyimb⟩ := hbelow
        have hsame : Twist.some x y hxy = hpoint.point :=
          Bn254.Twist.coords_injective (hQ.trans hpoint.coords_point.symm)
        have hcurve := twist_isOnCurve.mpr (Bn254.twist_equation_iff.mp hpoint.equation)
        rw [hsame, twistAffine_point]
        exact ⟨_, ⟨hximb, rfl⟩, _, ⟨hxreb, rfl⟩, _, ⟨hyimb, rfl⟩, _, ⟨hyreb, rfl⟩, hcurve, rfl⟩

/-! `to_bytes`, and which points and which bytes go through `from_bytes`: the bound that the coordinates are compared
with is mistyped, and what lies between it and the modulus is refused. -/
open Bn254 hiding Fp

/-! ## Encoding -/

/-- The eight bytes of a limb, the high one first. -/
def limbBytes (limb : UInt64) : Bytes :=
  (List.range 8).reverse.map fun j => (limb >>> UInt64.ofNat (8 * j)).toUInt8

/-- Multiplication by the raw one leaves the form. -/
def Fp.toBeBytes (a : Fp) : Bytes := (Fp.mul a ⟨1, 0, 0, 0⟩).limbs.reverse.flatMap limbBytes

def G1Affine.toBytes (P : G1Affine) : Bytes :=
  if P.infinity then List.replicate 64 0 else P.x.toBeBytes ++ P.y.toBeBytes

/-- The imaginary parts come first. -/
def G2Affine.toBytes (P : G2Affine) : Bytes :=
  if P.infinity then List.replicate 128 0
  else P.x.im.toBeBytes ++ (P.x.re.toBeBytes ++ (P.y.im.toBeBytes ++ P.y.re.toBeBytes))

/-- The canonical encoding of a point, whose coordinates are below the modulus. -/
def encode (Q : G1) : Bytes := word (coords Q).1 ++ word (coords Q).2

def encodeTwist (Q : Twist) : Bytes :=
  word Q.coords.1.2 ++ (word Q.coords.1.1 ++ (word Q.coords.2.2 ++ word Q.coords.2.1))

/-! ## Bytes of an element -/

theorem limbBytes_length (limb : UInt64) : (limbBytes limb).length = 8 := rfl

theorem limbBytes_value (limb : UInt64) : natBE (limbBytes limb) = limb.toNat := by
  have hbyte : ∀ j < 8, (limb >>> UInt64.ofNat (8 * j)).toUInt8.toNat = limb.toNat / 2 ^ (8 * j) % 256 := by
    intro j hj
    have hshift : (UInt64.ofNat (8 * j)).toNat = 8 * j := by
      rw [UInt64.toNat_ofNat']
      omega
    rw [UInt64.toNat_toUInt8, UInt64.toNat_shiftRight, hshift, Nat.mod_eq_of_lt (show 8 * j < 64 by omega),
      Nat.shiftRight_eq_div_pow]
  have hlt := limb.toNat_lt
  have hread : natBE (limbBytes limb) = ((List.range 8).reverse.map fun j => limb.toNat / 2 ^ (8 * j) % 256).foldl
      (fun acc byte => acc * 256 + byte) 0 := by
    rw [natBE, limbBytes, List.foldl_map, List.foldl_map]
    refine List.foldl_ext _ _ _ fun acc j hj => ?_
    rw [hbyte j (List.mem_range.mp (List.mem_reverse.mp hj))]
  rw [hread]
  simp only [List.range_succ, List.range_zero, List.nil_append, List.cons_append, List.reverse_cons, List.reverse_nil,
    List.map_cons, List.map_nil, List.foldl_cons, List.foldl_nil]
  omega

theorem limbs_bytes (a : Fp) : a.limbs.reverse.flatMap limbBytes = word a.toNat := by
  have hconcat : a.limbs.reverse.flatMap limbBytes =
      limbBytes a.l3 ++ (limbBytes a.l2 ++ (limbBytes a.l1 ++ limbBytes a.l0)) := rfl
  have hvalue : natBE (limbBytes a.l3 ++ (limbBytes a.l2 ++ (limbBytes a.l1 ++ limbBytes a.l0))) = a.toNat := by
    simp only [natBE_append, List.length_append, limbBytes_length, limbBytes_value, Fp.toNat]
    ring
  rw [hconcat, ← hvalue]
  exact (bytesBE_natBE _).symm

theorem toBeBytes_mont (x : Bn254.Fp) : (Fp.mont x).toBeBytes = word x.val := by
  have hplain : ((⟨1, 0, 0, 0⟩ : Fp).toNat : Bn254.Fp) = Fp.R⁻¹ * Fp.R := by
    rw [inv_mul_cancel₀ Fp.R_ne_zero]
    exact Nat.cast_one
  have hproduct : (Fp.mont x).mul ⟨1, 0, 0, 0⟩ = .mont (x * Fp.R⁻¹) :=
    Fp.mul_eq (Fp.modulus_mul_lt (Fp.toNat_lt _) (by decide)) (Fp.mont_cast x) hplain
  rw [Fp.toBeBytes, hproduct, limbs_bytes, Fp.mont_toNat, mul_assoc, inv_mul_cancel₀ Fp.R_ne_zero, mul_one]

theorem toBytes_affine (Q : G1) : G1Affine.toBytes (affine Q) = encode Q := by
  cases Q with
  | zero => decide
  | some x y h =>
    have hbytes : G1Affine.toBytes (affine (.some x y h)) = (Fp.mont x).toBeBytes ++ (Fp.mont y).toBeBytes := rfl
    rw [hbytes, toBeBytes_mont, toBeBytes_mont]
    rfl

theorem toBytes_twistAffine (Q : Twist) : G2Affine.toBytes (twistAffine Q) = encodeTwist Q := by
  cases Q with
  | zero => decide
  | some x y h =>
    have hbytes : G2Affine.toBytes (twistAffine (.some x y h)) = (Fp.mont x.im).toBeBytes ++
      ((Fp.mont x.re).toBeBytes ++ ((Fp.mont y.im).toBeBytes ++ (Fp.mont y.re).toBeBytes)) := rfl
    rw [hbytes]
    simp only [toBeBytes_mont]
    rfl

/-! ## Which bytes are canonical -/

theorem fieldModulus_lt_word : fieldModulus < 2 ^ 256 := by decide

theorem word_natBE {bytes : Bytes} (h : bytes.length = 32) : word (natBE bytes) = bytes := by
  rw [word, ← h]
  exact bytesBE_natBE bytes

theorem eq_encode_iff {bytes : Bytes} (hlength : bytes.length = 64) {Q : G1} :
    bytes = encode Q ↔ coords Q = (natBE (bytes.take 32), natBE (bytes.drop 32)) := by
  obtain ⟨hx, hy⟩ := coords_lt Q
  have htake : (bytes.take 32).length = 32 := by
    rw [List.length_take]
    omega
  have hdrop : (bytes.drop 32).length = 32 := by
    rw [List.length_drop]
    omega
  constructor
  · intro h
    rw [h, encode, List.take_left' (word_length _), List.drop_left' (word_length _), natBE_word, natBE_word,
      Nat.mod_eq_of_lt (hx.trans fieldModulus_lt_word), Nat.mod_eq_of_lt (hy.trans fieldModulus_lt_word)]
  · intro h
    rw [encode, h, word_natBE htake, word_natBE hdrop, List.take_append_drop]

theorem twistCoords_lt (Q : Twist) : (Q.coords.1.1 < fieldModulus ∧ Q.coords.1.2 < fieldModulus) ∧
    Q.coords.2.1 < fieldModulus ∧ Q.coords.2.2 < fieldModulus := by
  cases Q with
  | zero => exact ⟨⟨prime_fieldModulus.pos, prime_fieldModulus.pos⟩, prime_fieldModulus.pos, prime_fieldModulus.pos⟩
  | some x y h =>
    have hpoint := twistPoint_coords h
    exact ⟨⟨hpoint.xre, hpoint.xim⟩, hpoint.yre, hpoint.yim⟩

theorem eq_encodeTwist_iff {bytes : Bytes} (hlength : bytes.length = 128) {Q : Twist} :
    bytes = encodeTwist Q ↔ Q.coords = twistWords bytes := by
  obtain ⟨⟨hxre, hxim⟩, hyre, hyim⟩ := twistCoords_lt Q
  have hmod : ∀ n < fieldModulus, n % 2 ^ 256 = n := fun n hn => Nat.mod_eq_of_lt (hn.trans fieldModulus_lt_word)
  constructor
  · intro h
    have h32 : (encodeTwist Q).drop 32 = word Q.coords.1.1 ++ (word Q.coords.2.2 ++ word Q.coords.2.1) :=
      List.drop_left' (word_length _)
    have h64 : (encodeTwist Q).drop (32 + 32) = word Q.coords.2.2 ++ word Q.coords.2.1 := by
      rw [← List.drop_drop, h32, List.drop_left' (word_length _)]
    have h96 : (encodeTwist Q).drop (32 + 32 + 32) = word Q.coords.2.1 := by
      rw [← List.drop_drop, h64, List.drop_left' (word_length _)]
    have h0 : (encodeTwist Q).take 32 = word Q.coords.1.2 := List.take_left' (word_length _)
    simp only [Nat.reduceAdd] at h64 h96
    rw [h, twistWords, h32, h64, h96, h0, List.take_left' (word_length _), List.take_left' (word_length _), natBE_word,
      natBE_word, natBE_word, natBE_word, hmod _ hxre, hmod _ hxim, hmod _ hyre, hmod _ hyim]
  · intro h
    have hpart : ∀ n, n + 32 ≤ 128 → ((bytes.drop n).take 32).length = 32 := fun n hn => by
      rw [List.length_take, List.length_drop]
      omega
    have hlast : (bytes.drop 96).length = 32 := by
      rw [List.length_drop]
      omega
    have hfirst : (bytes.take 32).length = 32 := hpart 0 (by decide)
    rw [encodeTwist, h, twistWords]
    dsimp only
    rw [word_natBE hfirst, word_natBE (hpart 32 (by decide)), word_natBE (hpart 64 (by decide)), word_natBE hlast]
    exact quarters bytes

theorem encode_length (Q : G1) : (encode Q).length = 64 := by
  rw [encode, List.length_append, word_length, word_length]

theorem encodeTwist_length (Q : Twist) : (encodeTwist Q).length = 128 := by
  simp only [encodeTwist, List.length_append, word_length]

/-! ## What goes through -/

def CoordsBelowBound (Q : G1) : Prop := (coords Q).1 < coordinateBound ∧ (coords Q).2 < coordinateBound

theorem coordsBelowBound_zero : CoordsBelowBound 0 := by
  have hzero : 0 < coordinateBound := by decide
  exact ⟨hzero, hzero⟩

theorem G1Affine.fromBytes_encode {bytes : Bytes} (hlength : bytes.length = 64) {P : G1Affine} :
    G1Affine.fromBytes bytes = .ok P ↔ ∃ Q, bytes = encode Q ∧ CoordsBelowBound Q ∧ affine Q = P := by
  rw [G1Affine.fromBytes_iff hlength]
  refine exists_congr fun Q => ?_
  rw [point?_eq_some, eq_encode_iff hlength, CoordsBelowBound, and_assoc]

theorem G2Affine.fromBytes_encode {bytes : Bytes} (hlength : bytes.length = 128) {P : G2Affine} :
    G2Affine.fromBytes bytes = .ok P ↔ ∃ Q, bytes = encodeTwist Q ∧ BelowBound Q.coords ∧ twistAffine Q = P := by
  rw [G2Affine.fromBytes_iff hlength]
  refine exists_congr fun Q => ?_
  rw [eq_encodeTwist_iff hlength]

theorem decoder_spec {α β : Type} {decode : Bytes → Except ZkVerifierError β} {len : ℕ} {encoding : α → Bytes}
    {form : α → β} {ok : α → Prop} (hlength : ∀ Q, (encoding Q).length = len) (hform : Function.Injective form)
    (hinjective : Function.Injective encoding) (h : ∀ {bytes : Bytes}, bytes.length = len → ∀ {P : β},
      decode bytes = .ok P ↔ ∃ Q, bytes = encoding Q ∧ ok Q ∧ form Q = P) :
    (∀ Q, decode (encoding Q) = .ok (form Q) ↔ ok Q) ∧
    ∀ bytes : Bytes, bytes.length = len →
      (((∃ P, decode bytes = .ok P) ↔ ∃ Q, bytes = encoding Q) ↔ ∀ Q, bytes = encoding Q → ok Q) := by
  refine ⟨fun Q => ?_, fun bytes hbytes => ?_⟩
  · rw [h (hlength Q)]
    constructor
    · rintro ⟨R, _, hok, hR⟩
      rwa [← hform hR]
    · intro hok
      exact ⟨Q, rfl, hok, rfl⟩
  · constructor
    · intro hiff Q hQ
      obtain ⟨P, hP⟩ := hiff.mpr ⟨Q, hQ⟩
      obtain ⟨R, hR, hok, _⟩ := (h hbytes).mp hP
      rwa [hinjective (hQ.symm.trans hR)]
    · intro hok
      constructor
      · rintro ⟨P, hP⟩
        obtain ⟨R, hR, _, _⟩ := (h hbytes).mp hP
        exact ⟨R, hR⟩
      · rintro ⟨Q, hQ⟩
        exact ⟨form Q, (h hbytes).mpr ⟨Q, hQ, hok Q hQ, rfl⟩⟩

theorem encode_injective : Function.Injective encode := by
  intro Q R h
  have hQ := (eq_encode_iff (encode_length Q)).mp rfl
  have hR := (eq_encode_iff (encode_length Q)).mp h
  exact Option.some.inj ((point?_eq_some.mpr hQ).symm.trans (point?_eq_some.mpr hR))

theorem encodeTwist_injective : Function.Injective encodeTwist := by
  intro Q R h
  have hQ := (eq_encodeTwist_iff (encodeTwist_length Q)).mp rfl
  exact Twist.coords_injective (hQ.trans ((eq_encodeTwist_iff (encodeTwist_length Q)).mp h).symm)

/-- A point comes back from its bytes exactly where its coordinates are below the bound; bytes are judged rightly
unless they are the canonical encoding of a point beyond it; and what is accepted is encoded as it was. -/
theorem codec_iff (Q : G1) (T : Twist) (bytes bytes' : Bytes) (hlength : bytes.length = 64)
    (hlength' : bytes'.length = 128) :
    ((G1Affine.fromBytes (G1Affine.toBytes (affine Q)) = .ok (affine Q) ↔ CoordsBelowBound Q) ∧
      (((∃ P, G1Affine.fromBytes bytes = .ok P) ↔ ∃ Q, bytes = encode Q) ↔
        ∀ Q, bytes = encode Q → CoordsBelowBound Q) ∧
      ∀ P, G1Affine.fromBytes bytes = .ok P → G1Affine.toBytes P = bytes) ∧
    (G2Affine.fromBytes (G2Affine.toBytes (twistAffine T)) = .ok (twistAffine T) ↔ BelowBound T.coords) ∧
      (((∃ P, G2Affine.fromBytes bytes' = .ok P) ↔ ∃ Q, bytes' = encodeTwist Q) ↔
        ∀ Q, bytes' = encodeTwist Q → BelowBound Q.coords) ∧
      ∀ P, G2Affine.fromBytes bytes' = .ok P → G2Affine.toBytes P = bytes' := by
  obtain ⟨hpoints, hbytes⟩ := decoder_spec encode_length (fun Q R => affine_injective) encode_injective
    G1Affine.fromBytes_encode
  obtain ⟨htwist, htwistBytes⟩ := decoder_spec encodeTwist_length (fun Q R => twistAffine_injective)
    encodeTwist_injective G2Affine.fromBytes_encode
  refine ⟨⟨?_, hbytes bytes hlength, fun P hP => ?_⟩, ?_, htwistBytes bytes' hlength', fun P hP => ?_⟩
  · rw [toBytes_affine]
    exact hpoints Q
  · obtain ⟨Q, hQ, _, rfl⟩ := (G1Affine.fromBytes_encode hlength).mp hP
    rw [toBytes_affine, hQ]
  · rw [toBytes_twistAffine]
    exact htwist T
  · obtain ⟨Q, hQ, _, rfl⟩ := (G2Affine.fromBytes_encode hlength').mp hP
    rw [toBytes_twistAffine, hQ]

theorem curvePoint_one : CurvePoint fieldModulus 1 2 := by
  decide

/-- The generator that the tests of the source take. -/
def twistGenerator : Twist :=
  .some ⟨0x1800deef121f1e76426a00665e5c4479674322d4f75edadd46debd5cd992f6ed,
      0x198e9393920d483a7260bfb731fb5d25f1aa493335a9e71297e485b7aef312c2⟩
    ⟨0x12c85ea5db8c6deb4aab71808dcb408fe3d1e7690c43d37b4ce6cc0166fa7daa,
      0x090689d0585ff075ec9e99ad690c3395bc4b313370b38ef355acdadcd122975b⟩
    (QuadraticAlgebra.ext (by decide +kernel) (by decide +kernel))

/-- At the generators, and at the bytes of one. -/
theorem codec_iff_generators : G1Affine.fromBytes (G1Affine.toBytes (affine (mk curvePoint_one))) =
      .ok (affine (mk curvePoint_one)) ∧
    G2Affine.fromBytes (G2Affine.toBytes (twistAffine twistGenerator)) = .ok (twistAffine twistGenerator) ∧
    ∀ P, G1Affine.fromBytes (encode (mk curvePoint_one)) = .ok P → G1Affine.toBytes P = encode (mk curvePoint_one) := by
  obtain ⟨⟨hpoint, _, hbytes⟩, htwist, _⟩ := codec_iff (mk curvePoint_one) twistGenerator
    (encode (mk curvePoint_one)) (encodeTwist twistGenerator) (encode_length _) (encodeTwist_length _)
  refine ⟨hpoint.mpr ?_, htwist.mpr ?_, hbytes⟩
  · rw [CoordsBelowBound, coords_mk]
    decide
  · unfold BelowBound
    decide +kernel

theorem curvePoint_gap : CurvePoint fieldModulus
    21888242871839275222246405745257275088696311157297823662689037894645226208582
    17918450306617730576773466553562392805212959031101866706334976164702657599807 := by
  decide

/-- A point whose first coordinate is between the bound and the modulus is not read back, and its encoding is
refused. -/
theorem fromBytes_refuses_gap :
    G1Affine.fromBytes (G1Affine.toBytes (affine (mk curvePoint_gap))) ≠ .ok (affine (mk curvePoint_gap)) ∧
      ¬ ∃ P, G1Affine.fromBytes (encode (mk curvePoint_gap)) = .ok P := by
  have hrefused : ∀ P, G1Affine.fromBytes (encode (mk curvePoint_gap)) ≠ .ok P := by
    intro P hP
    obtain ⟨Q, hQ, hbelow, _⟩ := (G1Affine.fromBytes_encode (encode_length _)).mp hP
    have hx := hbelow.1
    rw [← encode_injective hQ, coords_mk] at hx
    exact absurd hx (by decide)
  rw [toBytes_affine]
  exact ⟨hrefused _, fun ⟨P, hP⟩ => hrefused P hP⟩

end ChainGuard.Soroban.ZkVerifier
