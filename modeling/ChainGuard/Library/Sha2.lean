import Mathlib.Data.BitVec
import Mathlib.Data.Nat.NthRoot.Defs
import Mathlib.Data.Nat.Prime.Defs

/-! The hash functions of FIPS 180-4 on strings of bytes, for words of any width: the constants are the roots of the
first primes, and the message is padded to whole blocks of sixteen words. -/
namespace Sha2
set_option autoImplicit false

/-! ## Bytes -/

abbrev Bytes := List UInt8

def number (bytes : Bytes) : ℕ := bytes.foldl (fun n byte => n * 256 + byte.toNat) 0

/-- The low bytes of a number, the high one first. -/
def bytesOf (len n : ℕ) : Bytes := (List.range len).reverse.map fun i => UInt8.ofNat (n / 256 ^ i % 256)

/-- The high bytes, and the low ones. -/
theorem bytesOf_add (a b n : ℕ) : bytesOf (a + b) n = bytesOf a (n / 256 ^ b) ++ bytesOf b n := by
  have hrange : (List.range (a + b)).reverse = (List.range a).reverse.map (b + ·) ++ (List.range b).reverse := by
    rw [Nat.add_comm, List.range_add, List.reverse_append, List.map_reverse]
  rw [bytesOf, hrange, List.map_append, List.map_map]
  congr 1
  refine List.map_congr_left fun i _ => ?_
  show UInt8.ofNat (n / 256 ^ (b + i) % 256) = UInt8.ofNat (n / 256 ^ b / 256 ^ i % 256)
  rw [Nat.div_div_eq_div_mul, Nat.pow_add]

/-- The bytes above are of no account. -/
theorem bytesOf_mod (len n : ℕ) : bytesOf len (n % 256 ^ len) = bytesOf len n := by
  refine List.map_congr_left fun i hi => ?_
  have hi := List.mem_range.mp (List.mem_reverse.mp hi)
  have hpower : 256 ^ len = 256 ^ i * (256 * 256 ^ (len - i - 1)) := by
    rw [← Nat.pow_succ', ← Nat.pow_add]
    congr 1
    omega
  rw [hpower, Nat.mod_mul_right_div_self, Nat.mod_mul_right_mod]

theorem bytesOf_zero (len : ℕ) : bytesOf len 0 = List.replicate len 0 := by
  rw [bytesOf, List.eq_replicate_iff]
  refine ⟨by rw [List.length_map, List.length_reverse, List.length_range], fun byte hbyte => ?_⟩
  obtain ⟨i, _, rfl⟩ := List.mem_map.mp hbyte
  rw [Nat.zero_div]
  rfl

/-! ## Words -/

/-- The figures of a hash function of the family: its rounds, the rotations of its two large functions, and the rotations
and the shift of its two small ones. -/
structure Variant (w : ℕ) where
  rounds : ℕ
  Sigma0 : ℕ × ℕ × ℕ
  Sigma1 : ℕ × ℕ × ℕ
  sigma0 : ℕ × ℕ × ℕ
  sigma1 : ℕ × ℕ × ℕ

def sha256 : Variant 32 := ⟨64, (2, 13, 22), (6, 11, 25), (7, 18, 3), (17, 19, 10)⟩

def sha512 : Variant 64 := ⟨80, (28, 34, 39), (14, 18, 41), (1, 8, 7), (19, 61, 6)⟩

variable {w : ℕ}

def rotations (n : ℕ × ℕ × ℕ) (x : BitVec w) : BitVec w :=
  x.rotateRight n.1 ^^^ x.rotateRight n.2.1 ^^^ x.rotateRight n.2.2

def rotationsShift (n : ℕ × ℕ × ℕ) (x : BitVec w) : BitVec w :=
  x.rotateRight n.1 ^^^ x.rotateRight n.2.1 ^^^ x >>> n.2.2

def ch (x y z : BitVec w) : BitVec w := (x &&& y) ^^^ (~~~x &&& z)

def maj (x y z : BitVec w) : BitVec w := (x &&& y) ^^^ (x &&& z) ^^^ (y &&& z)

/-! ## Constants -/

/-- The primes that the constants are taken from. -/
def primes : List ℕ := (List.range 410).filter Nat.Prime

/-- In this range, the primes below twenty-one are enough to try. -/
theorem prime_iff {n : ℕ} (hn : n < 410) :
    n.Prime ↔ 2 ≤ n ∧ ∀ d ∈ [2, 3, 5, 7, 11, 13, 17, 19], n % d = 0 → n = d := by
  constructor
  · intro h
    refine ⟨h.two_le, fun d hd hdvd => ?_⟩
    have hone : d ≠ 1 := by
      rintro rfl
      exact absurd hd (by decide)
    exact (((Nat.dvd_prime h).mp (Nat.dvd_of_mod_eq_zero hdvd)).resolve_left hone).symm
  · rintro ⟨htwo, h⟩
    by_contra hnot
    have hfactor : n.minFac.Prime := Nat.minFac_prime (by omega)
    have hsquare := Nat.minFac_sq_le_self (by omega) hnot
    have hsmall : n.minFac < 21 := by
      by_contra hlarge
      have hpower : 21 ^ 2 ≤ n.minFac ^ 2 := Nat.pow_le_pow_left (by omega) 2
      omega
    have hmem : ∀ d < 21, d.Prime → d ∈ [2, 3, 5, 7, 11, 13, 17, 19] := by decide
    have hself := h _ (hmem _ hsmall hfactor) (Nat.mod_eq_zero_of_dvd n.minFac_dvd)
    exact hnot (hself ▸ hfactor)

theorem primes_eq : primes =
    [2, 3, 5, 7, 11, 13, 17, 19, 23, 29, 31, 37, 41, 43, 47, 53, 59, 61, 67, 71, 73, 79, 83, 89, 97, 101, 103, 107, 109,
      113, 127, 131, 137, 139, 149, 151, 157, 163, 167, 173, 179, 181, 191, 193, 197, 199, 211, 223, 227, 229, 233, 239,
      241, 251, 257, 263, 269, 271, 277, 281, 283, 293, 307, 311, 313, 317, 331, 337, 347, 349, 353, 359, 367, 373, 379,
      383, 389, 397, 401, 409] := by
  have htried : primes = (List.range 410).filter fun n =>
      2 ≤ n ∧ ∀ d ∈ [2, 3, 5, 7, 11, 13, 17, 19], n % d = 0 → n = d := by
    rw [primes]
    refine List.filter_congr fun n hn => ?_
    exact decide_eq_decide.mpr (prime_iff (List.mem_range.mp hn))
  rw [htried]
  decide +kernel

/-- The first bits of the fractional part of a root. -/
def rootFraction (w k p : ℕ) : BitVec w := BitVec.ofNat w (Nat.nthRoot k (p * 2 ^ (k * w)))

/-- Eight words, the hash value as well as the working variables. -/
structure Value (w : ℕ) where
  a : BitVec w
  b : BitVec w
  c : BitVec w
  d : BitVec w
  e : BitVec w
  f : BitVec w
  g : BitVec w
  h : BitVec w
  deriving DecidableEq

/-- The square roots of the first eight primes. -/
def initial (w : ℕ) : Value w :=
  let root := fun i => rootFraction w 2 (primes.getD i 0)
  ⟨root 0, root 1, root 2, root 3, root 4, root 5, root 6, root 7⟩

namespace Variant

def constants (v : Variant w) : List (BitVec w) := (primes.take v.rounds).map (rootFraction w 3)

/-! ## Blocks -/

/-- The message schedule: each word after the first sixteen is made of four before it. -/
def schedule (v : Variant w) (words : List (BitVec w)) : List (BitVec w) :=
  (List.range (v.rounds - 16)).foldl (fun W t =>
    W ++ [rotationsShift v.sigma1 (W.getD (t + 14) 0) + W.getD (t + 9) 0 +
      rotationsShift v.sigma0 (W.getD (t + 1) 0) + W.getD t 0]) words

def round (v : Variant w) (s : Value w) (KW : BitVec w × BitVec w) : Value w :=
  let T1 := s.h + rotations v.Sigma1 s.e + ch s.e s.f s.g + KW.1 + KW.2
  let T2 := rotations v.Sigma0 s.a + maj s.a s.b s.c
  ⟨T1 + T2, s.a, s.b, s.c, s.d + T1, s.e, s.f, s.g⟩

def compressWords (v : Variant w) (H : Value w) (words : List (BitVec w)) : Value w :=
  let s := (v.constants.zip (v.schedule words)).foldl v.round H
  ⟨s.a + H.a, s.b + H.b, s.c + H.c, s.d + H.d, s.e + H.e, s.f + H.f, s.g + H.g, s.h + H.h⟩

end Variant

def words (w : ℕ) (block : Bytes) : List (BitVec w) :=
  (List.range 16).map fun i => BitVec.ofNat w (number ((block.drop (i * (w / 8))).take (w / 8)))

def Variant.compress (v : Variant w) (H : Value w) (block : Bytes) : Value w := v.compressWords H (words w block)

def blockLength (w : ℕ) : ℕ := 16 * (w / 8)

/-- The bytes of the length, which two words hold. -/
def lengthField (w : ℕ) : ℕ := 2 * (w / 8)

def zeros (w len : ℕ) : ℕ :=
  (blockLength w - (len + 1 + lengthField w) % blockLength w) % blockLength w

/-- The message, a one bit, zeros, and the length of the message in bits. -/
def pad (w : ℕ) (data : Bytes) : Bytes :=
  data ++ 0x80 :: (List.replicate (zeros w data.length) 0 ++ bytesOf (lengthField w) (8 * data.length))

/-- The whole blocks of a string. -/
def blocks (size : ℕ) (bytes : Bytes) : List Bytes :=
  (List.range (bytes.length / size)).map fun i => (bytes.drop (i * size)).take size

theorem block_append {size i : ℕ} {m p : Bytes} (hi : i < m.length / size) :
    ((m ++ p).drop (i * size)).take size = (m.drop (i * size)).take size := by
  have hdiv := Nat.div_mul_le_self m.length size
  have hblock : (i + 1) * size ≤ m.length / size * size := Nat.mul_le_mul_right _ hi
  rw [Nat.add_mul, Nat.one_mul] at hblock
  rw [List.drop_append_of_le_length (by omega), List.take_append_of_le_length]
  rw [List.length_drop]
  omega

/-- A string that does not fill the last block adds none. -/
theorem blocks_append_lt {size : ℕ} {m p : Bytes} (h : m.length % size + p.length < size) :
    blocks size (m ++ p) = blocks size m := by
  have hdiv := Nat.div_add_mod' m.length size
  have hquotient : (m ++ p).length / size = m.length / size := by
    rw [List.length_append]
    conv_lhs => rw [← hdiv]
    rw [Nat.add_assoc, Nat.add_comm, Nat.add_mul_div_right _ _ (by omega), Nat.div_eq_of_lt h, Nat.zero_add]
  rw [blocks, blocks, hquotient]
  exact List.map_congr_left fun i hi => block_append (List.mem_range.mp hi)

/-- A string that fills the last block adds that one. -/
theorem blocks_append_eq {size : ℕ} {m p : Bytes} (h : m.length % size + p.length = size) (hsize : 0 < size) :
    blocks size (m ++ p) = blocks size m ++ [m.drop (m.length / size * size) ++ p] := by
  have hdiv := Nat.div_add_mod' m.length size
  have hquotient : (m ++ p).length / size = m.length / size + 1 := by
    rw [List.length_append]
    conv_lhs => rw [← hdiv]
    rw [Nat.add_assoc, Nat.add_comm, Nat.add_mul_div_right _ _ hsize, h, Nat.div_self hsize, Nat.add_comm]
  rw [blocks, blocks, hquotient, List.range_succ, List.map_append, List.map_singleton]
  congr 1
  · exact List.map_congr_left fun i hi => block_append (List.mem_range.mp hi)
  · rw [List.drop_append_of_le_length (by omega), List.take_of_length_le]
    rw [List.length_append, List.length_drop]
    omega

def output (H : Value w) : Bytes :=
  [H.a, H.b, H.c, H.d, H.e, H.f, H.g, H.h].flatMap fun x => bytesOf (w / 8) x.toNat

def Variant.hash (v : Variant w) (data : Bytes) : Bytes :=
  output ((blocks (blockLength w) (pad w data)).foldl v.compress (initial w))

end Sha2
