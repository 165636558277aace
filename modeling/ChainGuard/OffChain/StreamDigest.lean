import ChainGuard.Library.Sha2
import ChainGuard.OffChain.Js
import Mathlib.Data.List.GetD

/-! `streamingCrypto.service.ts`: the incremental SHA-256 that streams are hashed with. -/
namespace ChainGuard.OffChain.StreamingCrypto
set_option autoImplicit false

/-! ## Bitwise operators -/

/-- The 32 bits that a bitwise operator takes of an integer. -/
abbrev bits (x : ℤ) : BitVec 32 := BitVec.ofInt 32 x

/-- `|` -/
def bitOr (x y : ℤ) : ℤ := (bits x ||| bits y).toInt

/-- `^` -/
def bitXor (x y : ℤ) : ℤ := (bits x ^^^ bits y).toInt

/-- `~` -/
def bitNot (x : ℤ) : ℤ := (~~~bits x).toInt

/-- `<<` -/
def shiftLeft (x : ℤ) (n : ℕ) : ℤ := (bits x <<< n).toInt

/-- `>>>` -/
def shiftRightZero (x : ℤ) (n : ℕ) : ℤ := (bits x >>> n).toNat

/-- What an element of a `Uint32Array` keeps. -/
def toUint32 (x : ℤ) : ℤ := (bits x).toNat

/-! ## The compression -/

/-- `K` -/
def K : List ℤ :=
  [0x428a2f98, 0x71374491, 0xb5c0fbcf, 0xe9b5dba5, 0x3956c25b, 0x59f111f1, 0x923f82a4,
    0xab1c5ed5, 0xd807aa98, 0x12835b01, 0x243185be, 0x550c7dc3, 0x72be5d74, 0x80deb1fe,
    0x9bdc06a7, 0xc19bf174, 0xe49b69c1, 0xefbe4786, 0x0fc19dc6, 0x240ca1cc, 0x2de92c6f,
    0x4a7484aa, 0x5cb0a9dc, 0x76f988da, 0x983e5152, 0xa831c66d, 0xb00327c8, 0xbf597fc7,
    0xc6e00bf3, 0xd5a79147, 0x06ca6351, 0x14292967, 0x27b70a85, 0x2e1b2138, 0x4d2c6dfc,
    0x53380d13, 0x650a7354, 0x766a0abb, 0x81c2c92e, 0x92722c85, 0xa2bfe8a1, 0xa81a664b,
    0xc24b8b70, 0xc76c51a3, 0xd192e819, 0xd6990624, 0xf40e3585, 0x106aa070, 0x19a4c116,
    0x1e376c08, 0x2748774c, 0x34b0bcb5, 0x391c0cb3, 0x4ed8aa4a, 0x5b9cca4f, 0x682e6ff3,
    0x748f82ee, 0x78a5636f, 0x84c87814, 0x8cc70208, 0x90befffa, 0xa4506ceb, 0xbef9a3f7,
    0xc67178f2]

/-- `h0` to `h7`, and the working variables `a` to `h` of a block. -/
structure Words where
  h0 : ℤ
  h1 : ℤ
  h2 : ℤ
  h3 : ℤ
  h4 : ℤ
  h5 : ℤ
  h6 : ℤ
  h7 : ℤ
  deriving DecidableEq, Repr

def initialWords : Words :=
  ⟨0x6a09e667, 0xbb67ae85, 0x3c6ef372, 0xa54ff53a, 0x510e527f, 0x9b05688c, 0x1f83d9ab, 0x5be0cd19⟩

def rotr (x : ℤ) (n : ℕ) : ℤ := bitOr (shiftRightZero x n) (shiftLeft x (32 - n))

def blockWords (block : Bytes) : List ℤ :=
  (List.range 16).map fun i =>
    let byte := fun k => ((block.getD (i * 4 + k) 0).toNat : ℤ)
    toUint32 (bitOr (bitOr (bitOr (shiftLeft (byte 0) 24) (shiftLeft (byte 1) 16)) (shiftLeft (byte 2) 8)) (byte 3))

/-- `w[16 .. 64]` from `w[0 .. 16]`. -/
def messageSchedule (block : Bytes) : List ℤ :=
  (List.range 48).foldl (fun w i =>
    let s0 := bitXor (bitXor (rotr (w.getD (i + 1) 0) 7) (rotr (w.getD (i + 1) 0) 18))
      (shiftRightZero (w.getD (i + 1) 0) 3)
    let s1 := bitXor (bitXor (rotr (w.getD (i + 14) 0) 17) (rotr (w.getD (i + 14) 0) 19))
      (shiftRightZero (w.getD (i + 14) 0) 10)
    w ++ [toUint32 (shiftRightZero (w.getD i 0 + s0 + w.getD (i + 9) 0 + s1) 0)]) (blockWords block)

def round (s : Words) (kw : ℤ × ℤ) : Words :=
  let S1 := bitXor (bitXor (rotr s.h4 6) (rotr s.h4 11)) (rotr s.h4 25)
  let ch := bitXor (bitAnd s.h4 s.h5) (bitAnd (bitNot s.h4) s.h6)
  let temp1 := shiftRightZero (s.h7 + S1 + ch + kw.1 + kw.2) 0
  let S0 := bitXor (bitXor (rotr s.h0 2) (rotr s.h0 13)) (rotr s.h0 22)
  let maj := bitXor (bitXor (bitAnd s.h0 s.h1) (bitAnd s.h0 s.h2)) (bitAnd s.h1 s.h2)
  let temp2 := shiftRightZero (S0 + maj) 0
  ⟨shiftRightZero (temp1 + temp2) 0, s.h0, s.h1, s.h2, shiftRightZero (s.h3 + temp1) 0, s.h4, s.h5, s.h6⟩

def processBlock (h : Words) (block : Bytes) : Words :=
  let s := (K.zip (messageSchedule block)).foldl round h
  ⟨shiftRightZero (h.h0 + s.h0) 0, shiftRightZero (h.h1 + s.h1) 0, shiftRightZero (h.h2 + s.h2) 0,
    shiftRightZero (h.h3 + s.h3) 0, shiftRightZero (h.h4 + s.h4) 0, shiftRightZero (h.h5 + s.h5) 0,
    shiftRightZero (h.h6 + s.h6) 0, shiftRightZero (h.h7 + s.h7) 0⟩

/-! ## The hasher -/

/-- What the closures of `createSha256` share. -/
structure Hasher where
  words : Words
  block : Bytes
  blockOffset : ℕ
  bytesHashed : ℕ
  block_length : block.length = 64
  offset_lt : blockOffset < 64

def createSha256 : Hasher where
  words := initialWords
  block := List.replicate 64 0
  blockOffset := 0
  bytesHashed := 0
  block_length := List.length_replicate
  offset_lt := by decide

namespace Hasher

/-- The bytes that one round of the loops takes. -/
def room (s : Hasher) (data : Bytes) : ℕ := min (64 - s.blockOffset) data.length

/-- `block.set` -/
def setBlock (s : Hasher) (data : Bytes) : Bytes :=
  s.block.take s.blockOffset ++ (data.take (s.room data) ++ s.block.drop (s.blockOffset + s.room data))

theorem setBlock_length (s : Hasher) (data : Bytes) : (s.setBlock data).length = 64 := by
  have hblock := s.block_length
  have hoffset := s.offset_lt
  rw [setBlock, List.length_append, List.length_append, List.length_take, List.length_take, List.length_drop, room]
  omega

/-- One round of the loops of `update` and `pushPad`. -/
def fill (s : Hasher) (data : Bytes) : Hasher :=
  if h : s.blockOffset + s.room data = 64 then
    { s with
      words := processBlock s.words (s.setBlock data)
      block := s.setBlock data
      blockOffset := 0
      block_length := s.setBlock_length data
      offset_lt := by decide }
  else
    { s with
      block := s.setBlock data
      blockOffset := s.blockOffset + s.room data
      block_length := s.setBlock_length data
      offset_lt := by
        have hoffset := s.offset_lt
        rw [room] at h ⊢
        omega }

/-- `pushPad`, and the loop of `update`. -/
def push (s : Hasher) (data : Bytes) : Hasher :=
  if data = [] then s else (s.fill data).push (data.drop (s.room data))
termination_by data.length
decreasing_by
  have hoffset := s.offset_lt
  have hpos : 0 < data.length := List.length_pos_iff.mpr ‹_›
  rw [List.length_drop, room]
  omega

def update (s : Hasher) (data : Bytes) : Hasher :=
  { s with bytesHashed := s.bytesHashed + data.length }.push data

theorem push_nil (s : Hasher) : s.push [] = s := by
  rw [push, if_pos rfl]

theorem push_singleton (s : Hasher) (byte : UInt8) : s.push [byte] = s.fill [byte] := by
  have hroom : s.room [byte] = 1 := by
    have hoffset := s.offset_lt
    rw [room, List.length_singleton]
    omega
  rw [push, if_neg (List.cons_ne_nil _ _), hroom, List.drop_succ_cons, List.drop_nil, push_nil]

theorem fill_blockOffset (s : Hasher) (data : Bytes) :
    (s.fill data).blockOffset = (s.blockOffset + s.room data) % 64 := by
  have hoffset := s.offset_lt
  rw [fill]
  split
  · next h =>
    rw [h]
  · next h =>
    have hroom : s.room data ≤ 64 - s.blockOffset := Nat.min_le_left _ _
    have hlt : s.blockOffset + s.room data < 64 := by omega
    exact (Nat.mod_eq_of_lt hlt).symm

theorem push_singleton_blockOffset (s : Hasher) (byte : UInt8) :
    (s.push [byte]).blockOffset = (s.blockOffset + 1) % 64 := by
  have hoffset := s.offset_lt
  have hroom : s.room [byte] = 1 := by
    rw [room, List.length_singleton]
    omega
  rw [push_singleton, fill_blockOffset, hroom]

/-- `while (blockOffset !== 56)` -/
def fillZeros (s : Hasher) : Hasher :=
  if s.blockOffset = 56 then s else (s.push [0x00]).fillZeros
termination_by (120 - s.blockOffset) % 64
decreasing_by
  have hoffset := s.offset_lt
  rw [push_singleton_blockOffset]
  omega

/-- The bytes of a word: `(x >>> 24) & 0xff` and so on. -/
def wordBytes (x : ℤ) : Bytes :=
  [bitAnd (shiftRightZero x 24) 0xff, bitAnd (shiftRightZero x 16) 0xff, bitAnd (shiftRightZero x 8) 0xff,
    bitAnd x 0xff].map fun byte => toUint8 (some byte)

/-- `lenBlock` -/
def lengthBlock (savedLen : ℕ) : Bytes :=
  let bitLenHi : ℤ := (savedLen / 0x20000000 : ℕ)
  let bitLenLo := shiftRightZero (shiftLeft savedLen 3) 0
  wordBytes bitLenHi ++ wordBytes bitLenLo

/-- `digest` -/
def digestBytes (words : Words) : Bytes :=
  [words.h0, words.h1, words.h2, words.h3, words.h4, words.h5, words.h6, words.h7].flatMap wordBytes

/-- `toString(16).padStart(2, "0")` of a byte is its two digits. -/
def digestHex (s : Hasher) : JsString :=
  hexString (digestBytes (((s.push [0x80]).fillZeros.push (lengthBlock s.bytesHashed)).words))

end Hasher

/-! However a text is split into updates, the incremental hasher gives the SHA-256 of the whole. -/

/-! ## Operators -/

@[simp] theorem bits_bitAnd (x y : ℤ) : bits (bitAnd x y) = bits x &&& bits y := BitVec.ofInt_toInt

@[simp] theorem bits_bitOr (x y : ℤ) : bits (bitOr x y) = bits x ||| bits y := BitVec.ofInt_toInt

@[simp] theorem bits_bitXor (x y : ℤ) : bits (bitXor x y) = bits x ^^^ bits y := BitVec.ofInt_toInt

@[simp] theorem bits_bitNot (x : ℤ) : bits (bitNot x) = ~~~bits x := BitVec.ofInt_toInt

@[simp] theorem bits_shiftLeft (x : ℤ) (n : ℕ) : bits (shiftLeft x n) = bits x <<< n := BitVec.ofInt_toInt

theorem bits_natCast (n : ℕ) : bits n = BitVec.ofNat 32 n := BitVec.ofInt_natCast 32 n

@[simp] theorem bits_shiftRightZero (x : ℤ) (n : ℕ) : bits (shiftRightZero x n) = bits x >>> n := by
  rw [shiftRightZero, bits_natCast, BitVec.ofNat_toNat, BitVec.setWidth_eq]

@[simp] theorem bits_toUint32 (x : ℤ) : bits (toUint32 x) = bits x := by
  rw [toUint32, bits_natCast, BitVec.ofNat_toNat, BitVec.setWidth_eq]

@[simp] theorem bits_add (x y : ℤ) : bits (x + y) = bits x + bits y := BitVec.ofInt_add x y

theorem bits_rotr (x : ℤ) {n : ℕ} (hn : n < 32) : bits (rotr x n) = (bits x).rotateRight n := by
  rw [rotr, bits_bitOr, bits_shiftRightZero, bits_shiftLeft, BitVec.rotateRight, Nat.mod_eq_of_lt hn]
  rfl

/-! ## The compression -/

def Words.value (s : Words) : Sha2.Value 32 :=
  ⟨bits s.h0, bits s.h1, bits s.h2, bits s.h3, bits s.h4, bits s.h5, bits s.h6, bits s.h7⟩

theorem K_eq : K.map bits = Sha2.sha256.constants := by
  rw [Sha2.Variant.constants, Sha2.primes_eq]
  decide +kernel

theorem initialWords_value : initialWords.value = Sha2.initial 32 := by
  rw [Sha2.initial, Sha2.primes_eq]
  decide +kernel

theorem shiftLeft_or (n : ℕ) (byte : UInt8) : n <<< 8 ||| byte.toNat = n * 256 + byte.toNat := by
  rw [← Nat.shiftLeft_add_eq_or_of_lt byte.toNat_lt, Nat.shiftLeft_eq]

theorem ofNat_shiftLeft (m n : ℕ) : BitVec.ofNat 32 m <<< n = BitVec.ofNat 32 (m <<< n) := by
  refine BitVec.eq_of_toNat_eq ?_
  rw [BitVec.toNat_shiftLeft, BitVec.toNat_ofNat, BitVec.toNat_ofNat, Nat.shiftLeft_eq, Nat.shiftLeft_eq,
    Nat.mod_mul_mod]

theorem word_eq (b0 b1 b2 b3 : UInt8) :
    bits (bitOr (bitOr (bitOr (shiftLeft b0.toNat 24) (shiftLeft b1.toNat 16)) (shiftLeft b2.toNat 8)) b3.toNat) =
      BitVec.ofNat 32 (Sha2.number [b0, b1, b2, b3]) := by
  have hnumber : Sha2.number [b0, b1, b2, b3] =
      b0.toNat <<< 24 ||| b1.toNat <<< 16 ||| b2.toNat <<< 8 ||| b3.toNat := by
    simp only [Sha2.number, List.foldl_cons, List.foldl_nil, ← shiftLeft_or, Nat.shiftLeft_or_distrib,
      ← Nat.shiftLeft_add, Nat.reduceAdd, Nat.zero_shiftLeft, Nat.zero_or]
  simp only [bits_bitOr, bits_shiftLeft, bits_natCast, ofNat_shiftLeft, hnumber, BitVec.ofNat_or]

theorem blockWords_eq {block : Bytes} (hblock : block.length = 64) :
    (blockWords block).map bits = Sha2.words 32 block := by
  rw [blockWords, Sha2.words, List.map_map]
  refine List.map_congr_left fun i hi => ?_
  have hi := List.mem_range.mp hi
  have hbyte : ∀ n < 64, block.drop n = block.getD n 0 :: block.drop (n + 1) := fun n hn => by
    have hn : n < block.length := hblock.symm ▸ hn
    rw [List.drop_eq_getElem_cons hn, List.getD_eq_getElem _ _ hn]
  have hslice : (block.drop (i * 4)).take 4 =
      [block.getD (i * 4 + 0) 0, block.getD (i * 4 + 1) 0, block.getD (i * 4 + 2) 0, block.getD (i * 4 + 3) 0] := by
    rw [hbyte _ (by omega), hbyte _ (by omega), hbyte _ (by omega), hbyte _ (by omega)]
    rfl
  rw [Function.comp_apply, bits_toUint32, word_eq, hslice]

theorem messageSchedule_eq {block : Bytes} (hblock : block.length = 64) :
    (messageSchedule block).map bits = Sha2.sha256.schedule (Sha2.words 32 block) := by
  rw [← blockWords_eq hblock, messageSchedule, Sha2.Variant.schedule]
  refine (List.foldl_hom (List.map bits) fun W t => ?_).symm
  have hget : ∀ i, (W.map bits).getD i 0 = bits (W.getD i 0) := fun i => List.getD_map W 0 bits
  rw [List.map_append, List.map_singleton, hget, hget, hget, hget]
  simp only [bits_toUint32, bits_shiftRightZero, bits_add, bits_bitXor, bits_rotr _ (show 7 < 32 by decide),
    bits_rotr _ (show 18 < 32 by decide), bits_rotr _ (show 17 < 32 by decide), bits_rotr _ (show 19 < 32 by decide)]
  congr 2
  show Sha2.rotationsShift (17, 19, 10) _ + _ + Sha2.rotationsShift (7, 18, 3) _ + _ =
    _ + Sha2.rotationsShift (7, 18, 3) _ + _ + Sha2.rotationsShift (17, 19, 10) _
  ring

theorem round_value (s : Words) (kw : ℤ × ℤ) :
    (round s kw).value = Sha2.sha256.round s.value (bits kw.1, bits kw.2) := by
  simp only [round, Words.value, Sha2.Variant.round, bits_shiftRightZero, bits_add, bits_bitXor, bits_bitAnd,
    bits_bitNot, BitVec.ushiftRight_zero,
    bits_rotr _ (show 6 < 32 by decide), bits_rotr _ (show 11 < 32 by decide), bits_rotr _ (show 25 < 32 by decide),
    bits_rotr _ (show 2 < 32 by decide), bits_rotr _ (show 13 < 32 by decide), bits_rotr _ (show 22 < 32 by decide)]
  rfl

theorem processBlock_value (h : Words) {block : Bytes} (hblock : block.length = 64) :
    (processBlock h block).value = Sha2.sha256.compress h.value block := by
  have hrounds : ((K.zip (messageSchedule block)).foldl round h).value =
      (Sha2.sha256.constants.zip (Sha2.sha256.schedule (Sha2.words 32 block))).foldl Sha2.sha256.round h.value := by
    rw [← K_eq, ← messageSchedule_eq hblock, List.zip_map, List.foldl_map]
    exact (List.foldl_hom Words.value fun s kw => (round_value s kw).symm).symm
  rw [Sha2.Variant.compress, Sha2.Variant.compressWords, ← hrounds]
  simp only [processBlock, Words.value, bits_shiftRightZero, bits_add, BitVec.ushiftRight_zero, Sha2.Value.mk.injEq]
  refine ⟨?_, ?_, ?_, ?_, ?_, ?_, ?_, ?_⟩ <;> exact BitVec.add_comm _ _

/-! ## Bytes -/

theorem toUint8_bits (x : ℤ) : toUint8 (some x) = UInt8.ofNat ((bits x).toNat % 256) := by
  refine UInt8.toNat.inj ?_
  rw [toUint8, UInt8.toNat_ofNat', UInt8.toNat_ofNat', Option.getD_some, BitVec.toNat_ofInt]
  omega

theorem lowByte (x : BitVec 32) : (x &&& bits 0xff).toNat = x.toNat % 256 := by
  rw [BitVec.toNat_and]
  exact Nat.and_two_pow_sub_one_eq_mod x.toNat 8

namespace Hasher

theorem wordBytes_eq (x : ℤ) : wordBytes x = Sha2.bytesOf 4 (bits x).toNat := by
  have hbyte : ∀ y : ℤ, toUint8 (some (bitAnd y 0xff)) = UInt8.ofNat ((bits y).toNat % 256) := fun y => by
    rw [toUint8_bits, bits_bitAnd, lowByte, Nat.mod_mod]
  have hshift : ∀ n, (bits (shiftRightZero x n)).toNat = (bits x).toNat / 2 ^ n := fun n => by
    rw [bits_shiftRightZero, BitVec.toNat_ushiftRight, Nat.shiftRight_eq_div_pow]
  have hrange : (List.range 4).reverse = [3, 2, 1, 0] := rfl
  rw [wordBytes, Sha2.bytesOf, hrange]
  simp only [List.map_cons, List.map_nil, hbyte, hshift, Nat.reducePow, Nat.div_one]

theorem digestBytes_eq (words : Words) : digestBytes words = Sha2.output words.value := by
  rw [digestBytes, Sha2.output, funext wordBytes_eq]
  rfl

theorem lengthBlock_eq {savedLen : ℕ} (h : savedLen < 2 ^ 53) : lengthBlock savedLen = Sha2.bytesOf 8 (8 * savedLen) := by
  have hhigh : (bits (savedLen / 0x20000000 : ℕ)).toNat = 8 * savedLen / 256 ^ 4 := by
    rw [bits_natCast, BitVec.toNat_ofNat]
    omega
  have hlow : (bits (shiftRightZero (shiftLeft savedLen 3) 0)).toNat = 8 * savedLen % 256 ^ 4 := by
    rw [bits_shiftRightZero, BitVec.ushiftRight_zero, bits_shiftLeft, bits_natCast, ofNat_shiftLeft, BitVec.toNat_ofNat,
      Nat.shiftLeft_eq]
    omega
  rw [lengthBlock, wordBytes_eq, wordBytes_eq, hhigh, hlow, Sha2.bytesOf_add 4 4, Sha2.bytesOf_mod]

/-! ## Updates -/

/-- The hasher has taken these bytes: the words are those of the whole blocks, and the rest is in the block. -/
structure Holds (s : Hasher) (m : Bytes) : Prop where
  words : s.words.value = (Sha2.blocks 64 m).foldl Sha2.sha256.compress (Sha2.initial 32)
  offset : s.blockOffset = m.length % 64
  rest : s.block.take s.blockOffset = m.drop (m.length / 64 * 64)

theorem holds_create : createSha256.Holds [] := ⟨initialWords_value, rfl, rfl⟩

theorem Holds.fill {s : Hasher} {m : Bytes} (h : s.Holds m) (data : Bytes) :
    (s.fill data).Holds (m ++ data.take (s.room data)) := by
  have hoffset := h.offset
  have hlt := s.offset_lt
  have hpiece : (data.take (s.room data)).length = s.room data := by
    rw [List.length_take, room]
    omega
  have hsum : m.length % 64 + (data.take (s.room data)).length = s.blockOffset + s.room data := by
    rw [hpiece, hoffset]
  have hset : s.setBlock data = m.drop (m.length / 64 * 64) ++
      (data.take (s.room data) ++ s.block.drop (s.blockOffset + s.room data)) := by
    rw [setBlock, h.rest]
  rw [Hasher.fill]
  split
  · next hfull =>
    have htail : s.block.drop (s.blockOffset + s.room data) = [] :=
      List.drop_eq_nil_of_le (by rw [s.block_length, hfull])
    rw [htail, List.append_nil] at hset
    refine ⟨?_, ?_, ?_⟩
    · show (processBlock s.words (s.setBlock data)).value = _
      rw [processBlock_value _ (s.setBlock_length data), hset, h.words,
        Sha2.blocks_append_eq (hsum.trans hfull) (by decide), List.foldl_append]
      rfl
    · show 0 = _
      rw [List.length_append, hpiece]
      omega
    · refine (List.take_zero).trans (List.drop_eq_nil_of_le ?_).symm
      rw [List.length_append, hpiece]
      omega
  · next hpart =>
    have hbelow : s.blockOffset + s.room data < 64 := by
      rw [room] at hpart ⊢
      omega
    refine ⟨?_, ?_, ?_⟩
    · rw [Sha2.blocks_append_lt (by omega)]
      exact h.words
    · show s.blockOffset + s.room data = _
      rw [List.length_append, hpiece]
      omega
    · have hquotient : (m.length + s.room data) / 64 = m.length / 64 := by omega
      show (s.setBlock data).take (s.blockOffset + s.room data) = _
      rw [hset, List.length_append, hpiece, hquotient, List.drop_append_of_le_length (by omega), ← List.append_assoc]
      refine List.take_left' ?_
      rw [List.length_append, List.length_drop, hpiece]
      omega

theorem Holds.push {s : Hasher} {m : Bytes} (h : s.Holds m) (data : Bytes) : (s.push data).Holds (m ++ data) := by
  induction s, data using Hasher.push.induct generalizing m with
  | case1 s => rwa [push_nil, List.append_nil]
  | case2 s data hne ih =>
    rw [Hasher.push, if_neg hne]
    have hrest := ih (h.fill data)
    rwa [List.append_assoc, List.take_append_drop] at hrest

theorem fill_bytesHashed (s : Hasher) (data : Bytes) : (s.fill data).bytesHashed = s.bytesHashed := by
  rw [Hasher.fill]
  split <;> rfl

theorem push_bytesHashed (s : Hasher) (data : Bytes) : (s.push data).bytesHashed = s.bytesHashed := by
  induction s, data using Hasher.push.induct with
  | case1 s => rw [push_nil]
  | case2 s data hne ih => rw [Hasher.push, if_neg hne, ih, fill_bytesHashed]

theorem Holds.update {s : Hasher} {m : Bytes} (h : s.Holds m) (data : Bytes) : (s.update data).Holds (m ++ data) := by
  have hcounted : Holds { s with bytesHashed := s.bytesHashed + data.length } m := ⟨h.words, h.offset, h.rest⟩
  exact hcounted.push data

theorem update_bytesHashed (s : Hasher) (data : Bytes) :
    (s.update data).bytesHashed = s.bytesHashed + data.length := push_bytesHashed _ data

theorem holds_updates {s : Hasher} {m : Bytes} (h : s.Holds m) (hcount : s.bytesHashed = m.length)
    (updates : List Bytes) : (updates.foldl update s).Holds (m ++ updates.flatten) ∧
      (updates.foldl update s).bytesHashed = (m ++ updates.flatten).length := by
  induction updates generalizing s m with
  | nil =>
    rw [List.flatten_nil, List.append_nil]
    exact ⟨h, hcount⟩
  | cons data updates ih =>
    have hnext : (s.update data).bytesHashed = (m ++ data).length := by
      rw [update_bytesHashed, hcount, List.length_append]
    have hrest := ih (h.update data) hnext
    rwa [List.append_assoc, ← List.flatten_cons] at hrest

/-! ## The digest -/

theorem Holds.fillZeros {s : Hasher} {m : Bytes} (h : s.Holds m) :
    s.fillZeros.Holds (m ++ List.replicate ((120 - s.blockOffset) % 64) 0) := by
  induction s using Hasher.fillZeros.induct generalizing m with
  | case1 s hend =>
    rw [Hasher.fillZeros, if_pos hend, hend, List.replicate_zero, List.append_nil]
    exact h
  | case2 s hend ih =>
    have hlt := s.offset_lt
    have hcount : (120 - s.blockOffset) % 64 = (120 - (s.push [0x00]).blockOffset) % 64 + 1 := by
      rw [push_singleton_blockOffset]
      omega
    have hrest := ih (h.push [0x00])
    rw [Hasher.fillZeros, if_neg hend, hcount, List.replicate_succ]
    rwa [List.append_assoc, List.singleton_append] at hrest

theorem Holds.digestHex {s : Hasher} {m : Bytes} (h : s.Holds m) (hcount : s.bytesHashed = m.length)
    (hlength : m.length < 2 ^ 53) : s.digestHex = hexString (Sha2.sha256.hash m) := by
  have hpadded := ((h.push [0x80]).fillZeros).push (lengthBlock s.bytesHashed)
  have hoffset := h.offset
  have hzeros : (120 - (s.push [0x80]).blockOffset) % 64 = Sha2.zeros 32 m.length := by
    rw [push_singleton_blockOffset, Sha2.zeros, Sha2.blockLength, Sha2.lengthField]
    omega
  have hmessage : m ++ [0x80] ++ List.replicate ((120 - (s.push [0x80]).blockOffset) % 64) 0 ++
      lengthBlock s.bytesHashed = Sha2.pad 32 m := by
    rw [hzeros, hcount, lengthBlock_eq hlength, Sha2.pad]
    simp only [List.append_assoc, List.cons_append, List.nil_append]
    rfl
  rw [hmessage] at hpadded
  rw [Hasher.digestHex, digestBytes_eq, hpadded.words]
  rfl

end Hasher

/-- The digest of the updates is that of their concatenation. -/
theorem digestHex_updates (updates : List Bytes) (h : updates.flatten.length < 2 ^ 53) :
    (updates.foldl Hasher.update createSha256).digestHex = hexString (Sha2.sha256.hash updates.flatten) := by
  obtain ⟨hholds, hcount⟩ := Hasher.holds_updates Hasher.holds_create rfl updates
  exact hholds.digestHex hcount h

theorem digestHex_updates_abc : ([ascii "a", [], ascii "bc"].foldl Hasher.update createSha256).digestHex =
    hexString (Sha2.sha256.hash (ascii "abc")) :=
  digestHex_updates [ascii "a", [], ascii "bc"] (by decide)

end ChainGuard.OffChain.StreamingCrypto
