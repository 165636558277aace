import ChainGuard.Soroban.Primitives

/-! `zk_verifier`: the base field of BN254 in Montgomery form, and the two extensions over it. A `u128`
of the source is a natural here; none overflows. -/
namespace ChainGuard.Soroban.ZkVerifier
set_option autoImplicit false

/-! ## Loops -/

/-- `exp_bytes`: square and multiply, from the high bit of the exponent down. -/
def expBytes {α : Type} (mul : α → α → α) (sqr : α → α) (one base : α) (exponent : Bytes) : α :=
  exponent.foldl (fun result byte =>
    (List.range 8).reverse.foldl (fun result bit =>
      if byte.toNat.testBit bit then mul (sqr result) base else sqr result) result) one

/-- The loop from the low bit up: `result` takes in `base` where the bit is set, and `base` doubles. -/
def doubleAndAdd {α : Type} (add : α → α → α) (double : α → α) (start : α × α) (bits : List Bool) : α × α :=
  bits.foldl (fun acc bit => (if bit then add acc.1 acc.2 else acc.1, double acc.2)) start

/-! ## `Fp` -/

/-- Four words, the low one first. -/
structure Fp where
  l0 : UInt64
  l1 : UInt64
  l2 : UInt64
  l3 : UInt64
  deriving DecidableEq, Repr

namespace Fp

def limbs (a : Fp) : List UInt64 := [a.l0, a.l1, a.l2, a.l3]

def ofLimbs (limbs : List UInt64) : Fp :=
  ⟨limbs.getD 0 0, limbs.getD 1 0, limbs.getD 2 0, limbs.getD 3 0⟩

/-- `P_LIMBS` -/
def modulus : Fp := ⟨0x3c208c16d87cfd47, 0x97816a916871ca8d, 0xb85045b68181585d, 0x30644e72e131a029⟩

/-- `N0` -/
def n0 : ℕ := 0x87d20782e4866389

/-- `R2_LIMBS` -/
def r2 : Fp := ⟨0xf32cfc5b538afa89, 0xb5e71911d44501fb, 0x47ab1eff0a417ff6, 0x06d89f71cab8351f⟩

def zero : Fp := ⟨0, 0, 0, 0⟩

/-- `ONE_LIMBS` -/
def one : Fp := ⟨0xd35d438dc58f0d9d, 0x0a78eb28f5c70b3d, 0x666ea36f7879462c, 0x0e0a77c19a07df2f⟩

/-- `P_MINUS_2_LIMBS` -/
def modulusMinus2 : Fp :=
  ⟨0x3c208c16d87cfd45, 0x97816a916871ca8d, 0xb85045b68181585d, 0x30644e72e131a029⟩

def isZero (a : Fp) : Bool := decide (a = zero)

/-- `cmp`: the first limb from the top that differs decides. -/
def cmp (a b : Fp) : Ordering :=
  ((compare a.l3 b.l3).then (compare a.l2 b.l2)).then ((compare a.l1 b.l1).then (compare a.l0 b.l0))

/-- `a >= b` -/
def ge (a b : Fp) : Bool := cmp a b != .lt

def toNat (a : Fp) : ℕ := a.l0.toNat + 2 ^ 64 * (a.l1.toNat + 2 ^ 64 * (a.l2.toNat + 2 ^ 64 * a.l3.toNat))

theorem compare_then {x y : UInt64} {o : Ordering} :
    (compare x y).then o ≠ .lt ↔ y.toNat < x.toNat ∨ x.toNat = y.toNat ∧ o ≠ .lt := by
  show (compareOfLessAndEq x y).then o ≠ .lt ↔ _
  rw [UInt64.toNat_inj, ← UInt64.lt_iff_toNat_lt, compareOfLessAndEq]
  split
  · next h =>
    have hne : ¬ x = y := UInt64.ne_of_lt h
    have hnot : ¬ y < x := UInt64.lt_asymm h
    simp [Ordering.then, hne, hnot]
  · next h =>
    split
    · next heq =>
      subst heq
      simp [Ordering.then]
    · next hne =>
      have hlt : y < x := UInt64.lt_of_le_of_ne (UInt64.not_lt.mp h) (Ne.symm hne)
      simp [Ordering.then, hlt]

theorem ge_iff {a b : Fp} : ge a b = true ↔ b.toNat ≤ a.toNat := by
  have ha0 := a.l0.toNat_lt
  have ha1 := a.l1.toNat_lt
  have ha2 := a.l2.toNat_lt
  have hb0 := b.l0.toNat_lt
  have hb1 := b.l1.toNat_lt
  have hb2 := b.l2.toNat_lt
  have hlow : compare a.l0 b.l0 ≠ .lt ↔ b.l0.toNat ≤ a.l0.toNat := by
    have hthen := compare_then (x := a.l0) (y := b.l0) (o := .eq)
    rw [Ordering.then_eq] at hthen
    rw [hthen]
    simp only [ne_eq, reduceCtorEq, not_false_eq_true, and_true]
    omega
  have hcmp : ge a b = true ↔ cmp a b ≠ .lt := by rw [ge, bne_iff_ne]
  rw [hcmp, cmp, Ordering.then_assoc, compare_then, compare_then, compare_then, hlow]
  unfold toNat
  omega

def addLimbs : List UInt64 → List UInt64 → ℕ → List UInt64
  | a :: as, b :: bs, carry =>
    let sum := a.toNat + b.toNat + carry
    UInt64.ofNat sum :: addLimbs as bs (sum / 2 ^ 64)
  | _, _, _ => []

def subLimbs : List UInt64 → List UInt64 → ℤ → List UInt64
  | a :: as, b :: bs, borrow =>
    let diff : ℤ := a.toNat - b.toNat - borrow
    if diff < 0 then UInt64.ofNat (diff + 2 ^ 64).toNat :: subLimbs as bs 1
    else UInt64.ofNat diff.toNat :: subLimbs as bs 0
  | _, _, _ => []

def subRaw (a b : Fp) : Fp := ofLimbs (subLimbs a.limbs b.limbs 0)

def sub (a b : Fp) : Fp :=
  let r := subRaw a b
  if ge r modulus then subRaw modulus (subRaw b a) else r

def add (a b : Fp) : Fp :=
  let r := ofLimbs (addLimbs a.limbs b.limbs 0)
  if ge r modulus then sub r modulus else r

def neg (a : Fp) : Fp := sub modulus a

/-- `t[j] + k * b[j]` with the carry of the one before, and the last carry. -/
def macLimbs (k : ℕ) : List UInt64 → List ℕ → ℕ → List ℕ × ℕ
  | b :: bs, t :: ts, carry =>
    let cur := t + k * b.toNat + carry
    let (low, carry) := macLimbs k bs ts (cur / 2 ^ 64)
    (cur % 2 ^ 64 :: low, carry)
  | _, _, carry => ([], carry)

/-- The carry goes on through the limbs until it is spent. -/
def propagate : List ℕ → ℕ → List ℕ
  | [], _ => []
  | t :: ts, c => if c = 0 then t :: ts else (t + c) % 2 ^ 64 :: propagate ts ((t + c) / 2 ^ 64)

/-- A row of the product, on the limbs of `t` from that row on. -/
def mulRow (a : UInt64) (b : List UInt64) (t : List ℕ) : List ℕ :=
  let (low, carry) := macLimbs a.toNat b t 0
  low ++ carry :: t.drop 5

/-- A row of the reduction, on the limbs of `t` from that row on. -/
def reduceRow (t : List ℕ) : List ℕ :=
  let k := t.headD 0 * n0 % 2 ^ 64
  let (low, carry) := macLimbs k modulus.limbs t 0
  low ++ propagate (t.drop 4) carry

/-- The schoolbook product, as eight limbs. -/
def mulLimbs (a b : Fp) : List ℕ :=
  (List.range 4).foldl (fun t i => t.take i ++ mulRow (a.limbs.getD i 0) b.limbs (t.drop i))
    (List.replicate 8 0)

def mul (a b : Fp) : Fp :=
  let t := (List.range 4).foldl (fun t i => t.take i ++ reduceRow (t.drop i)) (mulLimbs a b)
  let r := ofLimbs ((t.drop 4).map UInt64.ofNat)
  if ge r modulus then sub r modulus else r

def sqr (a : Fp) : Fp := mul a a

def inv (a : Fp) : Fp :=
  (doubleAndAdd mul sqr (one, a)
    (modulusMinus2.limbs.flatMap fun limb => (List.range 64).map limb.toNat.testBit)).1

/-- `while r >= P { r = r.sub(P) }`, if it ends within so many rounds. -/
def reduce : ℕ → Fp → Option Fp
  | 0, r => if ge r modulus then none else some r
  | rounds + 1, r => if ge r modulus then reduce rounds (sub r modulus) else some r

def limbAt (bytes : Bytes) (offset : ℕ) : UInt64 := UInt64.ofNat (natBE ((bytes.drop offset).take 8))

def ofBeBytes (bytes : Bytes) : Fp :=
  ⟨limbAt bytes 24, limbAt bytes 16, limbAt bytes 8, limbAt bytes 0⟩

def fromBeBytes (rounds : ℕ) (bytes : Bytes) : Option Fp :=
  (reduce rounds (ofBeBytes bytes)).map fun r => mul r r2

theorem limbAt_toNat (bytes : Bytes) (offset : ℕ) :
    (limbAt bytes offset).toNat = natBE ((bytes.drop offset).take 8) := by
  have hlength : ((bytes.drop offset).take 8).length ≤ 8 := List.length_take_le _ _
  have hlt : natBE ((bytes.drop offset).take 8) < 2 ^ 64 :=
    (natBE_lt _).trans_le (Nat.pow_le_pow_right (by decide) hlength)
  rw [limbAt, UInt64.toNat_ofNat']
  exact Nat.mod_eq_of_lt hlt

theorem ofBeBytes_toNat {bytes : Bytes} (h : bytes.length = 32) : (ofBeBytes bytes).toNat = natBE bytes := by
  have hsplit : ∀ offset, bytes.drop offset = (bytes.drop offset).take 8 ++ bytes.drop (offset + 8) := by
    intro offset
    rw [← List.drop_drop, List.take_append_drop]
  have hlength : ∀ offset, (bytes.drop offset).length = 32 - offset := fun offset => by
    rw [List.length_drop, h]
  have hread : ∀ offset, natBE (bytes.drop offset) =
      (limbAt bytes offset).toNat * 256 ^ (24 - offset) + natBE (bytes.drop (offset + 8)) := by
    intro offset
    rw [hsplit offset, natBE_append, limbAt_toNat, hlength]
    have hexponent : 32 - (offset + 8) = 24 - offset := by omega
    rw [hexponent]
  have hend : bytes.drop 32 = [] := List.drop_eq_nil_of_le h.le
  have hvalue : natBE bytes = _ := hread 0
  rw [hread 8, hread 16, hread 24, hend] at hvalue
  rw [hvalue, toNat, ofBeBytes]
  simp only [natBE, List.foldl_nil]
  omega

def fromU64 (v : UInt64) : Fp := mul ⟨v, 0, 0, 0⟩ r2

end Fp

/-! ## `Fq2`, with `i² = -1` -/

structure Fq2 where
  re : Fp
  im : Fp
  deriving DecidableEq, Repr

namespace Fq2

def zero : Fq2 := ⟨.zero, .zero⟩
def one : Fq2 := ⟨.one, .zero⟩

def isZero (a : Fq2) : Bool := a.re.isZero && a.im.isZero
def add (a b : Fq2) : Fq2 := ⟨a.re.add b.re, a.im.add b.im⟩
def sub (a b : Fq2) : Fq2 := ⟨a.re.sub b.re, a.im.sub b.im⟩
def neg (a : Fq2) : Fq2 := ⟨a.re.neg, a.im.neg⟩
def conjugate (a : Fq2) : Fq2 := ⟨a.re, a.im.neg⟩

def mul (a b : Fq2) : Fq2 :=
  ⟨(a.re.mul b.re).sub (a.im.mul b.im), (a.re.mul b.im).add (a.im.mul b.re)⟩

def sqr (a : Fq2) : Fq2 := ⟨a.re.sqr.sub a.im.sqr, (a.re.mul a.im).add (a.re.mul a.im)⟩

def inv (a : Fq2) : Fq2 :=
  let invNorm := (a.re.sqr.add a.im.sqr).inv
  ⟨a.re.mul invNorm, a.im.neg.mul invNorm⟩

def exp (a : Fq2) (exponent : Bytes) : Fq2 := expBytes mul sqr one a exponent

end Fq2

/-- `beta()`: `9 + i` -/
def beta : Fq2 := ⟨.fromU64 9, .fromU64 1⟩

/-- The constant of the twist, from its plain limbs. -/
def twistB : Fq2 :=
  ⟨Fp.mul ⟨0x3267e6dc24a138e5, 0xb5b4c5e559dbefa3, 0x81be18991be06ac3, 0x2b149d40ceb8aaae⟩ .r2,
    Fp.mul ⟨0xe4a2bd0685c315d2, 0xa74fa084e52d1852, 0xcd2cafadeed8fdf4, 0x009713b03af0fed4⟩ .r2⟩

/-! ## `Fq12`, with `w⁶ = beta` -/

/-- The coefficients of the powers of `w`, the constant first. -/
structure Fq12 where
  coefficients : List Fq2
  deriving DecidableEq, Repr

namespace Fq12

def one : Fq12 := ⟨[.one, .zero, .zero, .zero, .zero, .zero]⟩

def isOne (a : Fq12) : Bool := decide (a = one)

/-- The coefficient of `w ^ k` in the product, before the reduction: the terms in the order of the loops. -/
def convolution (a b : List Fq2) (k : ℕ) : Fq2 :=
  (List.range 6).foldl (fun t i =>
    if i ≤ k ∧ k < i + 6 then t.add ((a.getD i .zero).mul (b.getD (k - i) .zero)) else t) .zero

def mul (a b : Fq12) : Fq12 :=
  let t := convolution a.coefficients b.coefficients
  ⟨((List.range 5).map fun k => (t k).add ((t (k + 6)).mul beta)) ++ [t 5]⟩

def sqr (a : Fq12) : Fq12 := mul a a

def exp (a : Fq12) (exponent : Bytes) : Fq12 := expBytes mul sqr one a exponent

end Fq12

/-! `zk_verifier`: the points of the two groups, which the source writes out twice, and the pairing. -/

/-! ## Affine points -/

/-- What the points take from the field of their coordinates. -/
class Coordinates (F : Type) where
  zero : F
  isZero : F → Bool
  add : F → F → F
  sub : F → F → F
  mul : F → F → F
  sqr : F → F
  neg : F → F
  inv : F → F
  fromU64 : UInt64 → F
  /-- The constant of the curve. -/
  b : F

instance : Coordinates Fp where
  zero := .zero
  isZero := Fp.isZero
  add := Fp.add
  sub := Fp.sub
  mul := Fp.mul
  sqr := Fp.sqr
  neg := Fp.neg
  inv := Fp.inv
  fromU64 := Fp.fromU64
  b := .fromU64 3

instance : Coordinates Fq2 where
  zero := .zero
  isZero := Fq2.isZero
  add := Fq2.add
  sub := Fq2.sub
  mul := Fq2.mul
  sqr := Fq2.sqr
  neg := Fq2.neg
  inv := Fq2.inv
  fromU64 := fun v => ⟨.fromU64 v, .zero⟩
  b := twistB

structure Affine (F : Type) where
  x : F
  y : F
  infinity : Bool
  deriving DecidableEq, Repr

namespace Affine
open Coordinates
variable {F : Type} [Coordinates F] [DecidableEq F]

/-- `infinity()` -/
def atInfinity : Affine F := ⟨zero, zero, true⟩

def isOnCurve (P : Affine F) : Bool :=
  if P.infinity then true
  else decide (sqr P.y = add (mul (sqr P.x) P.x) b)

/-- The third point of the line with slope `m` through `P` and a point over `x`, mirrored. -/
def onLine (m : F) (P : Affine F) (x : F) : Affine F :=
  let nx := sub (sub (sqr m) P.x) x
  ⟨nx, sub (add (mul (neg m) nx) (mul m P.x)) P.y, false⟩

def double (P : Affine F) : Affine F :=
  if P.infinity || isZero P.y then atInfinity
  else onLine (mul (mul (fromU64 3) (sqr P.x)) (inv (mul (fromU64 2) P.y))) P P.x

def add (P Q : Affine F) : Affine F :=
  if P.infinity then Q
  else if Q.infinity then P
  else if P.x = Q.x then if P.y = Q.y then double P else atInfinity
  else onLine (mul (sub Q.y P.y) (inv (sub Q.x P.x))) P Q.x

def scalarBits (scalar : Bytes) : List Bool :=
  scalar.reverse.flatMap fun byte => (List.range 8).map byte.toNat.testBit

def scalarMul (P : Affine F) (scalar : Bytes) : Affine F :=
  (doubleAndAdd add double (atInfinity, P) (scalarBits scalar)).1

def negate (P : Affine F) : Affine F :=
  if P.infinity then P else ⟨P.x, neg P.y, false⟩

end Affine

abbrev G1Affine := Affine Fp
abbrev G2Affine := Affine Fq2

/-! ## Decoding -/

/-- `curve_order_zero_padded()`, as it is typed; arrays of one length compare as their numbers. -/
def coordinateBound : ℕ := 0x30644e72e131a029b85045b68181585a97856a16c9d607f4d412cb0aecb60f30

/-- A coordinate below the bound is below the modulus, and the loop of `from_be_bytes` takes no round. -/
def coordinate (bytes : Bytes) : Except ZkVerifierError Fp :=
  if coordinateBound ≤ natBE bytes then .error .InvalidCurvePoint
  else
    match Fp.fromBeBytes 0 bytes with
    | some x => .ok x
    | none => .error .InvalidCurvePoint

theorem coordinate_reads {bytes : Bytes} (hlength : bytes.length = 32) (h : natBE bytes < coordinateBound) :
    coordinate bytes = .ok ((Fp.ofBeBytes bytes).mul .r2) := by
  have hbelow : Fp.ge (Fp.ofBeBytes bytes) .modulus = false := by
    rw [Bool.eq_false_iff, ne_eq, Fp.ge_iff, Fp.ofBeBytes_toNat hlength, not_le]
    refine h.trans ?_
    decide
  have hreads : Fp.fromBeBytes 0 bytes = some ((Fp.ofBeBytes bytes).mul .r2) := by
    simp [Fp.fromBeBytes, Fp.reduce, hbelow]
  rw [coordinate, if_neg (not_le.mpr h), hreads]

def onCurve {F : Type} [Coordinates F] [DecidableEq F] (P : Affine F) : Except ZkVerifierError (Affine F) :=
  if P.isOnCurve then .ok P else .error .InvalidCurvePoint

def G1Affine.fromBytes (bytes : Bytes) : Except ZkVerifierError G1Affine :=
  if bytes.all (· == 0) then .ok .atInfinity
  else do
    let x ← coordinate (bytes.take 32)
    let y ← coordinate (bytes.drop 32)
    onCurve ⟨x, y, false⟩

/-- The imaginary parts come first. -/
def G2Affine.fromBytes (bytes : Bytes) : Except ZkVerifierError G2Affine :=
  if bytes.all (· == 0) then .ok .atInfinity
  else do
    let xim ← coordinate (bytes.take 32)
    let xre ← coordinate ((bytes.drop 32).take 32)
    let yim ← coordinate ((bytes.drop 64).take 32)
    let yre ← coordinate (bytes.drop 96)
    onCurve ⟨⟨xre, xim⟩, ⟨yre, yim⟩, false⟩

/-! ## The pairing -/

/-- The chord or tangent of `p1` and `p2` with slope `d`, at `p`. -/
def slopedLine (d : Fq2) (p1 : G2Affine) (p : G1Affine) : Fq12 :=
  ⟨[Fq2.neg ⟨p.y, .zero⟩, d.mul ⟨p.x, .zero⟩, .zero, p1.y.sub (d.mul p1.x), .zero, .zero]⟩

def lineFunction (p1 p2 : G2Affine) (p : G1Affine) : Fq12 :=
  if p1.x ≠ p2.x then slopedLine ((p2.y.sub p1.y).mul (p2.x.sub p1.x).inv) p1 p
  else if p1.y = p2.y then
    slopedLine ((Fq2.mul ⟨.fromU64 3, .zero⟩ p1.x.sqr).mul (Fq2.mul ⟨.fromU64 2, .zero⟩ p1.y).inv) p1 p
  else ⟨[⟨p.x, .zero⟩, .zero, p1.x.neg, .zero, .zero, .zero]⟩

/-- `EXP_P_MINUS_1_OVER_3` -/
def expPMinus1Over3 : Bytes := bytesBE 32 0x10216f7ba065e00de81ac1e7808072c9dd2b2385cd7b438469602eb24829a9c2

/-- `EXP_P_MINUS_1_OVER_2` -/
def expPMinus1Over2 : Bytes := bytesBE 32 0x183227397098d014dc2822db40c0ac2ecbc0b548b438e5469e10460b6c3e7ea3

/-- `EXP_P2_MINUS_1_OVER_3` -/
def expP2Minus1Over3 : Bytes := bytesBE 64
  0x030c96e8276995341dde2529566d9b5ee5592c705cbd1cacb7a4a8c966ece68456cd8a31d35b6b9818c55d8979dcee498cab57b9adf8eb00691c1d8b62747890

/-- `EXP_P2_MINUS_1_OVER_2` -/
def expP2Minus1Over2 : Bytes := bytesBE 64
  0x0492e25c3b1e5fce2ccd37be01a4690e5805c2a88b1bab031376fd2e1a6359c682344f4abd09216425280c4e36cb656e5301039684f560809daa2c5113aeb4d8

/-- `FINAL_EXP` -/
def finalExp : Bytes :=
  [0x0,
    0x0000002f4b6dc97020fddadf107d20bc842d43bf6369b1ff6a1c71015f3f7be2,
    0xe1e30a73bb94fec0daf15466b2383a5d3ec3d15ad524d8f70c54efee1bd8c3b2,
    0x1377e563a09a1b705887e72eceaddea3790364a61f676baaf977870e88d5c6c8,
    0xfef0781361e443ae77f5b63a2a2264487f2940a8b1ddb3d15062cd0fb2015dfc,
    0x6668449aed3cc48a82d0d602d268c7daab6a41294c0cc4ebe5664568dfc50e16,
    0x48a45a4a1e3a5195846a3ed011a337a02088ec80e0ebae8755cfe107acf3aafb,
    0x40494e406f804216bb10cf430b0f37856b42db8dc5514724ee93dfb10826f0dd,
    0x4a0364b9580291d2cd65664814fde37ca80bb4ea44eacc5e641bbadf423f9a2c,
    0xbf813b8d145da90029baee7ddadda71c7f3811c4105262945bba1668c3be69a3,
    0xc230974d83561841d766f9c9d570bb7fbe04c7e8a6c3c760c0de81def35692da,
    0x361102b6b9b2b918837fa97896e84abb40a4efb7e54523a486964b64ca86f120].flatMap (bytesBE 32)

def frobenius (q : G2Affine) : G2Affine :=
  ⟨q.x.conjugate.mul (beta.exp expPMinus1Over3), q.y.conjugate.mul (beta.exp expPMinus1Over2), q.infinity⟩

def frobenius2Neg (q : G2Affine) : G2Affine :=
  ⟨q.x.mul (beta.exp expP2Minus1Over3), (q.y.mul (beta.exp expP2Minus1Over2)).neg, q.infinity⟩

/-- `ATE_LOOP` -/
def ateLoop : ℕ := 29793968203157093288

/-- One round of the loop, on the accumulator and the multiple of `q`. -/
def millerRound (q : G2Affine) (p : G1Affine) (acc : Fq12 × G2Affine) (i : ℕ) : Fq12 × G2Affine :=
  let f := acc.1.sqr.mul (lineFunction acc.2 acc.2 p)
  let r := acc.2.double
  if ateLoop.testBit i then (f.mul (lineFunction r q p), r.add q) else (f, r)

def millerLoop (q : G2Affine) (p : G1Affine) : Fq12 :=
  let (f, r) := (List.range 64).reverse.foldl (millerRound q p) (.one, q)
  let q1 := frobenius q
  let f := f.mul (lineFunction r q1 p)
  f.mul (lineFunction (r.add q1) (frobenius2Neg q) p)

def pairing (q : G2Affine) (p : G1Affine) : Fq12 :=
  if q.infinity || p.infinity then .one else (millerLoop q p).exp finalExp

end ChainGuard.Soroban.ZkVerifier
