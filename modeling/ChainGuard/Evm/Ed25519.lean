import ChainGuard.Words
import ChainGuard.Library.BinaryPower
import ChainGuard.Library.Edwards25519
import ChainGuard.Library.Guarded
import Mathlib.Data.List.GetD
import ChainGuard.Library.Sha2

/-! The SHA-512 of the library `Ed25519`. -/
namespace ChainGuard.Evm.Ed25519
set_option autoImplicit false

/-! ## Tables -/

/-- `uint64[8]` -/
structure Words where
  w0 : UInt64
  w1 : UInt64
  w2 : UInt64
  w3 : UInt64
  w4 : UInt64
  w5 : UInt64
  w6 : UInt64
  w7 : UInt64
  deriving DecidableEq, Repr

def initialHash : Words :=
  ⟨0x6a09e667f3bcc908, 0xbb67ae8584caa73b, 0x3c6ef372fe94f82b, 0xa54ff53a5f1d36f1,
    0x510e527fade682d1, 0x9b05688c2b3e6c1f, 0x1f83d9abfb41bd6b, 0x5be0cd19137e2179⟩

def roundConstants : List UInt64 :=
  [0x428a2f98d728ae22, 0x7137449123ef65cd, 0xb5c0fbcfec4d3b2f, 0xe9b5dba58189dbbc,
    0x3956c25bf348b538, 0x59f111f1b605d019, 0x923f82a4af194f9b, 0xab1c5ed5da6d8118,
    0xd807aa98a3030242, 0x12835b0145706fbe, 0x243185be4ee4b28c, 0x550c7dc3d5ffb4e2,
    0x72be5d74f27b896f, 0x80deb1fe3b1696b1, 0x9bdc06a725c71235, 0xc19bf174cf692694,
    0xe49b69c19ef14ad2, 0xefbe4786384f25e3, 0x0fc19dc68b8cd5b5, 0x240ca1cc77ac9c65,
    0x2de92c6f592b0275, 0x4a7484aa6ea6e483, 0x5cb0a9dcbd41fbd4, 0x76f988da831153b5,
    0x983e5152ee66dfab, 0xa831c66d2db43210, 0xb00327c898fb213f, 0xbf597fc7beef0ee4,
    0xc6e00bf33da88fc2, 0xd5a79147930aa725, 0x06ca6351e003826f, 0x142929670a0e6e70,
    0x27b70a8546d22ffc, 0x2e1b21385c26c926, 0x4d2c6dfc5ac42aed, 0x53380d139d95b3df,
    0x650a73548baf63de, 0x766a0abb3c77b2a8, 0x81c2c92e47edaee6, 0x92722c851482353b,
    0xa2bfe8a14cf10364, 0xa81a664bbc423001, 0xc24b8b70d0f89791, 0xc76c51a30654be30,
    0xd192e819d6ef5218, 0xd69906245565a910, 0xf40e35855771202a, 0x106aa07032bbd1b8,
    0x19a4c116b8d2d0c8, 0x1e376c085141ab53, 0x2748774cdf8eeb99, 0x34b0bcb5e19b48a8,
    0x391c0cb3c5c95a63, 0x4ed8aa4ae3418acb, 0x5b9cca4f7763e373, 0x682e6ff3d6b2b8a3,
    0x748f82ee5defb2fc, 0x78a5636f43172f60, 0x84c87814a1f0ab72, 0x8cc702081a6439ec,
    0x90befffa23631e28, 0xa4506cebde82bde9, 0xbef9a3f7b2c67915, 0xc67178f2e372532b,
    0xca273eceea26619c, 0xd186b8c721c0c207, 0xeada7dd6cde0eb1e, 0xf57d4f7fee6ed178,
    0x06f067aa72176fba, 0x0a637dc5a2c898a6, 0x113f9804bef90dae, 0x1b710b35131c471b,
    0x28db77f523047d84, 0x32caab7b40c72493, 0x3c9ebe0a15c9bebc, 0x431d67c49c100d4c,
    0x4cc5d4becb3e42b6, 0x597f299cfc657e2a, 0x5fcb6fab3ad6faec, 0x6c44198c4a475817]

/-! ## Words -/

def rotr64 (x : UInt64) (n : ℕ) : UInt64 := UInt64.ofNat (x.toNat >>> n ||| x.toNat <<< (64 - n))

def sigma0 (x : UInt64) : UInt64 := rotr64 x 1 ^^^ rotr64 x 8 ^^^ (x >>> 7)

def sigma1 (x : UInt64) : UInt64 := rotr64 x 19 ^^^ rotr64 x 61 ^^^ (x >>> 6)

/-! ## Blocks -/

/-- `0x80`, zeros, and the length in bits; the upper half of its field of 16 bytes stays zero. -/
def padded (data : Bytes) : Bytes :=
  let paddedLen := (data.length + 136) / 128 * 128
  data ++ [0x80] ++ List.replicate (paddedLen - 9 - data.length) 0 ++ bytesBE 8 (data.length * 8)

def blockWords (block : Bytes) : List UInt64 :=
  (List.range 16).map fun i => UInt64.ofNat (natBE ((block.drop (i * 8)).take 8))

/-- `w[16 .. 80]` from `w[0 .. 16]`. -/
def schedule (block : Bytes) : List UInt64 :=
  (List.range 64).foldl (fun w i =>
    w ++ [w.getD i 0 + sigma0 (w.getD (i + 1) 0) + w.getD (i + 9) 0 + sigma1 (w.getD (i + 14) 0)])
    (blockWords block)

def round (st : Words) (kw : UInt64 × UInt64) : Words :=
  let temp1 := st.w7 + (rotr64 st.w4 14 ^^^ rotr64 st.w4 18 ^^^ rotr64 st.w4 41) +
    ((st.w4 &&& st.w5) ^^^ (~~~st.w4 &&& st.w6)) + kw.1 + kw.2
  let temp2 := (rotr64 st.w0 28 ^^^ rotr64 st.w0 34 ^^^ rotr64 st.w0 39) +
    ((st.w0 &&& st.w1) ^^^ (st.w0 &&& st.w2) ^^^ (st.w1 &&& st.w2))
  ⟨temp1 + temp2, st.w0, st.w1, st.w2, st.w3 + temp1, st.w4, st.w5, st.w6⟩

def compress (h : Words) (block : Bytes) : Words :=
  let st := (roundConstants.zip (schedule block)).foldl round h
  ⟨h.w0 + st.w0, h.w1 + st.w1, h.w2 + st.w2, h.w3 + st.w3, h.w4 + st.w4, h.w5 + st.w5, h.w6 + st.w6,
    h.w7 + st.w7⟩

/-! ## The digest -/

def digestBytes (h : Words) : Bytes :=
  [h.w0, h.w1, h.w2, h.w3, h.w4, h.w5, h.w6, h.w7].flatMap fun w => bytesBE 8 w.toNat

def sha512 (data : Bytes) : Bytes :=
  let message := padded data
  digestBytes ((List.range (message.length / 128)).foldl
    (fun h i => compress h ((message.drop (i * 128)).take 128)) initialHash)

@[simp] theorem digestBytes_length (h : Words) : (digestBytes h).length = 64 := by
  simp [digestBytes]

@[simp] theorem sha512_length (data : Bytes) : (sha512 data).length = 64 := digestBytes_length _

/-! The library `Ed25519`: field and curve arithmetic on words, and the check of a signature. -/
open Guarded
/-! ## Constants -/

def P : ℕ := 0x7fffffffffffffffffffffffffffffffffffffffffffffffffffffffffffffed
def D : ℕ := 0x52036cee2b6ffe738cc740797779e89800700a4d4141d8ab75eb4dca135978a3
def D2 : ℕ := 0x2406d9dc56dffce7198e80f2eef3d13000e0149a8283b156ebd69b9426b2f159
def L : ℕ := 0x1000000000000000000000000000000014def9dea2f79cd65812631a5cf5d3ed
def R_256 : ℕ := 0x0ffffffffffffffffffffffffffffffec6ef5bf4737dcf70d6ec31748d98951d
def SQRT_M1 : ℕ := 0x2b8324804fc1df0b2b4d00993dfbd7a72f431806ad2fe478c4ee1b274a0ea0b0
def MASK_255 : ℕ := 0x7fffffffffffffffffffffffffffffffffffffffffffffffffffffffffffffff
def BX : ℕ := 0x216936d3cd6e53fec0a4e231fdd6dc5c692cc7609525a7b2c9562d608f25d51a
def BY : ℕ := 0x6666666666666666666666666666666666666666666666666666666666666658

/-- The panics of checked subtraction and of indexing. -/
inductive Panic
  | underflow
  | outOfBounds
  deriving DecidableEq, Repr

abbrev Result (α : Type) := Except Panic α

/-- `(X, Y, Z, T)` -/
structure Point where
  x : ℕ
  y : ℕ
  z : ℕ
  t : ℕ
  deriving DecidableEq, Repr

/-! ## Field arithmetic -/

def addmod (a b m : ℕ) : ℕ := (a + b) % m
def mulmod (a b m : ℕ) : ℕ := a * b % m

def fadd (a b : ℕ) : ℕ := addmod a b P

def fsub (a b : ℕ) : Result ℕ := do
  revertIf (P < b) .underflow
  pure (addmod a (P - b) P)

def fmul (a b : ℕ) : ℕ := mulmod a b P

def fexp (base exponent : ℕ) : Result ℕ :=
  BinaryPower.loop (fun result base => pure (mulmod result base P))
    (fun base => pure (mulmod base base P)) 256 1 base exponent

def finv (a : ℕ) : Result ℕ := fexp a (P - 2)

def fsqrt (x : ℕ) : Result ℕ := do
  let r ← fexp x ((P + 3) / 8)
  pure (if mulmod r r P ≠ x then mulmod r SQRT_M1 P else r)

/-! ## Curve arithmetic -/

def addPoint (p1 p2 : Point) : Result Point := do
  let aa := fmul (← fsub p1.y p1.x) (← fsub p2.y p2.x)
  let bb := fmul (fadd p1.y p1.x) (fadd p2.y p2.x)
  let cc := fmul (fmul p1.t p2.t) D2
  let dd := fmul (fmul p1.z p2.z) 2
  let e ← fsub bb aa
  let f ← fsub dd cc
  let g := fadd dd cc
  let h := fadd bb aa
  pure ⟨fmul e f, fmul g h, fmul f g, fmul e h⟩

def doublePoint (p : Point) : Result Point := do
  let aa := fmul p.x p.x
  let bb := fmul p.y p.y
  let cc := fmul (fmul p.z p.z) 2
  let dd ← fsub 0 aa
  let e ← fsub (← fsub (fmul (fadd p.x p.y) (fadd p.x p.y)) aa) bb
  let g := fadd dd bb
  let f ← fsub g cc
  let h ← fsub dd bb
  pure ⟨fmul e f, fmul g h, fmul f g, fmul e h⟩

def scalarMult (p : Point) (k : ℕ) : Result Point :=
  BinaryPower.loop addPoint doublePoint 256 ⟨0, 1, 1, 0⟩ p k

def pointsEqual (p1 p2 : Point) : Bool :=
  fmul p1.x p2.z == fmul p2.x p1.z && fmul p1.y p2.z == fmul p2.y p1.z

/-! ## Bytes -/

/-- The number whose little-endian digits are the given bytes. -/
def natLE (b : Bytes) : ℕ := b.foldr (fun x acc => x.toNat + 256 * acc) 0

def decodeLittleEndian (data : Bytes) (offset : ℕ) : Result ℕ := do
  revertIf (data.length < offset + 32) .outOfBounds
  pure (natLE ((data.drop offset).take 32))

def slice (data : Bytes) (start length : ℕ) : Result Bytes := do
  revertIf (data.length < start + length) .outOfBounds
  pure ((data.drop start).take length)

/-- `decompress`: the point, when `ok`. -/
def decompress (encoded : Bytes) : Result (Option Point) := do
  if encoded.length ≠ 32 then return none
  let sign := (encoded.getD 31 0).toNat >>> 7
  let y := (← decodeLittleEndian encoded 0) &&& MASK_255
  if P ≤ y then return none
  let y2 := mulmod y y P
  let u ← fsub y2 1
  let v := fadd (mulmod D y2 P) 1
  let x2 := fmul u (← finv v)
  let x ← fsqrt x2
  if mulmod x x P ≠ x2 then return none
  let x ← if x % 2 ≠ sign then fsub 0 x else pure x
  if x = 0 ∧ sign = 1 then return none
  return some ⟨x, y, 1, mulmod x y P⟩

def digestModL (digest : Bytes) : Result ℕ := do
  let lo ← decodeLittleEndian digest 0
  let hi ← decodeLittleEndian digest 32
  pure (addmod (lo % L) (mulmod hi R_256 L) L)

/-! ## Verification -/

def verify (signature publicKey message : Bytes) : Result Bool := do
  if signature.length ≠ 64 ∨ publicKey.length ≠ 32 then return false
  let some r ← decompress (← slice signature 0 32) | return false
  let s ← decodeLittleEndian signature 32
  if L ≤ s then return false
  let some a ← decompress publicKey | return false
  let hashInput := (← slice signature 0 32) ++ publicKey ++ message
  let k ← digestModL (sha512 hashInput)
  let base : Point := ⟨BX, BY, 1, mulmod BX BY P⟩
  let lhs ← scalarMult base s
  let rhs ← addPoint r (← scalarMult a k)
  return pointsEqual lhs rhs

/-! The digest of the library `Ed25519` beside that of the standard: they agree as long as the padded message has room for
the whole length field. -/

/-! ## Bytes -/

theorem bytesBE_eq (len n : ℕ) : bytesBE len n = Sha2.bytesOf len n := by
  induction len generalizing n with
  | zero => rfl
  | succ len ih =>
    have hdigits : ∀ i, n / 256 / 256 ^ i = n / 256 ^ (i + 1) := fun i => by
      rw [Nat.div_div_eq_div_mul, Nat.pow_succ']
    have hrange : (List.range (len + 1)).reverse = (List.range len).reverse.map (· + 1) ++ [0] := by
      rw [List.range_succ_eq_map, List.reverse_cons, List.map_reverse]
    rw [bytesBE, ih, Sha2.bytesOf, Sha2.bytesOf, hrange, List.map_append, List.map_map, List.map_singleton, pow_zero,
      Nat.div_one]
    congr 1
    refine List.map_congr_left fun i _ => ?_
    rw [hdigits]
    rfl

/-! ## Words -/

def Words.value (s : Words) : Sha2.Value 64 :=
  ⟨s.w0.toBitVec, s.w1.toBitVec, s.w2.toBitVec, s.w3.toBitVec, s.w4.toBitVec, s.w5.toBitVec, s.w6.toBitVec,
    s.w7.toBitVec⟩

theorem rotr64_toBitVec (x : UInt64) {n : ℕ} (hn : n < 64) : (rotr64 x n).toBitVec = x.toBitVec.rotateRight n := by
  refine BitVec.eq_of_toNat_eq ?_
  have hbits : (rotr64 x n).toBitVec.toNat = (x.toNat >>> n ||| x.toNat <<< (64 - n)) % 2 ^ 64 := rfl
  have hshift : x.toNat >>> n < 2 ^ 64 := lt_of_le_of_lt (Nat.shiftRight_le _ _) x.toNat_lt
  rw [hbits, Nat.or_mod_two_pow, BitVec.toNat_rotateRight, Nat.mod_eq_of_lt hn, Nat.mod_eq_of_lt hshift]
  rfl

theorem sigma0_toBitVec (x : UInt64) : (sigma0 x).toBitVec = Sha2.rotationsShift (1, 8, 7) x.toBitVec := by
  rw [sigma0, UInt64.toBitVec_xor, UInt64.toBitVec_xor, rotr64_toBitVec x (by decide), rotr64_toBitVec x (by decide)]
  rfl

theorem sigma1_toBitVec (x : UInt64) : (sigma1 x).toBitVec = Sha2.rotationsShift (19, 61, 6) x.toBitVec := by
  rw [sigma1, UInt64.toBitVec_xor, UInt64.toBitVec_xor, rotr64_toBitVec x (by decide), rotr64_toBitVec x (by decide)]
  rfl

/-! ## Constants -/

theorem roundConstants_eq : roundConstants.map UInt64.toBitVec = Sha2.sha512.constants := by
  rw [Sha2.Variant.constants, Sha2.primes_eq]
  decide +kernel

theorem initialHash_value : initialHash.value = Sha2.initial 64 := by
  rw [Sha2.initial, Sha2.primes_eq]
  decide +kernel

/-! ## Blocks -/

theorem blockWords_eq (block : Bytes) : (blockWords block).map UInt64.toBitVec = Sha2.words 64 block := by
  rw [blockWords, List.map_map]
  rfl

theorem schedule_eq (block : Bytes) :
    (schedule block).map UInt64.toBitVec = Sha2.sha512.schedule (Sha2.words 64 block) := by
  rw [← blockWords_eq, schedule, Sha2.Variant.schedule]
  refine (List.foldl_hom (List.map UInt64.toBitVec) fun W t => ?_).symm
  have hget : ∀ i, (W.map UInt64.toBitVec).getD i 0 = (W.getD i 0).toBitVec := fun i => List.getD_map _ _ _
  rw [List.map_append, List.map_singleton, hget, hget, hget, hget]
  simp only [UInt64.toBitVec_add, sigma0_toBitVec, sigma1_toBitVec]
  congr 2
  show Sha2.rotationsShift (19, 61, 6) _ + _ + Sha2.rotationsShift (1, 8, 7) _ + _ = _
  ring

theorem round_value (s : Words) (KW : UInt64 × UInt64) :
    (round s KW).value = Sha2.sha512.round s.value (KW.1.toBitVec, KW.2.toBitVec) := by
  simp only [round, Words.value, Sha2.Variant.round, UInt64.toBitVec_add, UInt64.toBitVec_xor, UInt64.toBitVec_and,
    UInt64.toBitVec_not, rotr64_toBitVec _ (show 14 < 64 by decide), rotr64_toBitVec _ (show 18 < 64 by decide),
    rotr64_toBitVec _ (show 41 < 64 by decide), rotr64_toBitVec _ (show 28 < 64 by decide),
    rotr64_toBitVec _ (show 34 < 64 by decide), rotr64_toBitVec _ (show 39 < 64 by decide)]
  rfl

theorem compress_value (h : Words) (block : Bytes) : (compress h block).value = Sha2.sha512.compress h.value block := by
  have hrounds : ((roundConstants.zip (schedule block)).foldl round h).value =
      (Sha2.sha512.constants.zip (Sha2.sha512.schedule (Sha2.words 64 block))).foldl Sha2.sha512.round h.value := by
    rw [← roundConstants_eq, ← schedule_eq, List.zip_map, List.foldl_map]
    exact (List.foldl_hom Words.value fun s KW => (round_value s KW).symm).symm
  rw [Sha2.Variant.compress, Sha2.Variant.compressWords, ← hrounds]
  simp only [compress, Words.value, UInt64.toBitVec_add, Sha2.Value.mk.injEq]
  refine ⟨?_, ?_, ?_, ?_, ?_, ?_, ?_, ?_⟩ <;> exact BitVec.add_comm _ _

/-! ## Padding -/

def HasRoom (data : Bytes) : Prop := data.length + 1 + 16 ≤ (padded data).length

theorem padded_length (data : Bytes) : (padded data).length = (data.length + 136) / 128 * 128 := by
  rw [padded, List.length_append, List.length_append, List.length_append, List.length_singleton, List.length_replicate,
    bytesBE_length]
  omega

theorem hasRoom_iff {data : Bytes} : HasRoom data ↔ ¬ (112 ≤ data.length % 128 ∧ data.length % 128 < 120) := by
  rw [HasRoom, padded_length]
  omega

theorem lengthField_eq {len : ℕ} (hlen : len < 2 ^ 61) :
    Sha2.bytesOf 16 (8 * len) = List.replicate 8 0 ++ bytesBE 8 (len * 8) := by
  have hhigh : 8 * len / 256 ^ 8 = 0 := Nat.div_eq_of_lt (by omega)
  rw [bytesBE_eq, Nat.mul_comm len, Sha2.bytesOf_add 8 8, hhigh, Sha2.bytesOf_zero]

theorem padded_eq {data : Bytes} (hlen : data.length < 2 ^ 61) (h : HasRoom data) : padded data = Sha2.pad 64 data := by
  have hzeros : (data.length + 136) / 128 * 128 - 9 - data.length = Sha2.zeros 64 data.length + 8 := by
    rw [hasRoom_iff] at h
    rw [Sha2.zeros, Sha2.blockLength, Sha2.lengthField]
    omega
  rw [padded, Sha2.pad, Sha2.lengthField, lengthField_eq hlen, hzeros, List.replicate_add]
  simp only [List.append_assoc, List.cons_append, List.nil_append]

/-! ## The digest -/

theorem digestBytes_eq (h : Words) : digestBytes h = Sha2.output h.value := by
  rw [digestBytes, Sha2.output]
  simp only [bytesBE_eq]
  rfl

theorem digestBytes_foldl (blocks : List Bytes) : digestBytes (blocks.foldl compress initialHash) =
    Sha2.output (blocks.foldl Sha2.sha512.compress (Sha2.initial 64)) := by
  rw [digestBytes_eq, ← initialHash_value]
  exact congrArg Sha2.output (List.foldl_hom Words.value fun h block => (compress_value h block).symm).symm

theorem sha512_eq (data : Bytes) :
    sha512 data = digestBytes ((Sha2.blocks 128 (padded data)).foldl compress initialHash) :=
  congrArg digestBytes List.foldl_map.symm

theorem standard_eq (data : Bytes) : Sha2.sha512.hash data =
    digestBytes ((Sha2.blocks 128 (Sha2.pad 64 data)).foldl compress initialHash) :=
  (digestBytes_foldl _).symm

/-- The digest is that of the standard over a message with room for its length, unless the length leaves from 112 to 119
bytes in its last block. -/
theorem sha512_exact_iff {data : Bytes} (hlen : data.length < 2 ^ 61) :
    sha512 data = Sha2.sha512.hash data ∧ HasRoom data ↔
      ¬ (112 ≤ data.length % 128 ∧ data.length % 128 < 120) := by
  rw [← hasRoom_iff]
  refine ⟨And.right, fun h => ⟨?_, h⟩⟩
  rw [sha512_eq, standard_eq, padded_eq hlen h]

theorem sha512_exact_abc : sha512 (ascii "abc") = Sha2.sha512.hash (ascii "abc") ∧ HasRoom (ascii "abc") :=
  (sha512_exact_iff (by decide)).mpr (by decide)

/-- A message of 112 zeros has no room for the length, and its digest is another. -/
theorem sha512_differs : sha512 (List.replicate 112 0) ≠ Sha2.sha512.hash (List.replicate 112 0) ∧
    ¬ HasRoom (List.replicate 112 0) :=
  ⟨by rw [standard_eq]; decide +kernel, by rw [hasRoom_iff, not_not, List.length_replicate]; decide⟩

end ChainGuard.Evm.Ed25519
