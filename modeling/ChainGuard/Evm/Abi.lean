import ChainGuard.Evm.Primitives

/-! The ABI of Solidity at the level of bytes: the encoding of a tuple of words and byte strings, the
words read out of encoded data, and the checks of the decoder. -/
namespace ChainGuard.Evm.Abi
set_option autoImplicit false

/-! ## Reading -/

def wordAt (data : Bytes) (offset : ℕ) : ℕ := natBE ((data.drop offset).take 32)

def selector (data : Bytes) : ℕ := natBE (data.take 4)

/-- A word with dirty high bytes is no address. -/
def asAddress (n : ℕ) : Option Address := if n < 2 ^ 160 then some (BitVec.ofNat 160 n) else none

def asUint64 (n : ℕ) : Option ℕ := if n < 2 ^ 64 then some n else none

def asBool (n : ℕ) : Option Bool := if n < 2 then some (decide (n = 1)) else none

/-- The byte string behind an offset: its length must be in the data, and its bytes too. -/
def bytesAt (data : Bytes) (offset : ℕ) : Option Bytes :=
  if 2 ^ 64 ≤ offset ∨ data.length ≤ offset + 31 then none
  else
    let length := wordAt data offset
    if 2 ^ 64 ≤ length ∨ data.length < offset + 32 + length then none
    else some ((data.drop (offset + 32)).take length)

/-- `abi.decode(data, (address, uint256, bytes))` -/
def decodeCall (data : Bytes) : Option (Address × ℕ × Bytes) :=
  if data.length < 96 then none
  else do
    let dest ← asAddress (wordAt data 0)
    let innerData ← bytesAt data (wordAt data 64)
    pure (dest, wordAt data 32, innerData)

/-! ## Writing -/

/-- A member of an encoded tuple. -/
inductive Value
  | word (n : ℕ)
  | bytes (b : Bytes)

/-- What is encoded behind the heads: the length and the bytes, padded to whole words. -/
def Value.tail : Value → Bytes
  | .word _ => []
  | .bytes b => ChainGuard.word b.length ++ b ++ List.replicate ((32 - b.length % 32) % 32) 0

def Value.head (offset : ℕ) : Value → Bytes
  | .word n => ChainGuard.word n
  | .bytes _ => ChainGuard.word offset

def heads (offset : ℕ) : List Value → Bytes
  | [] => []
  | v :: rest => v.head offset ++ heads (offset + v.tail.length) rest

def encode (values : List Value) : Bytes := heads (32 * values.length) values ++ values.flatMap Value.tail

@[simp] theorem Value.head_length (offset : ℕ) (v : Value) : (v.head offset).length = 32 := by
  cases v <;> exact word_length _

@[simp] theorem heads_length (offset : ℕ) (values : List Value) :
    (heads offset values).length = 32 * values.length := by
  induction values generalizing offset with
  | nil => rfl
  | cons v rest ih =>
    rw [heads, List.length_append, Value.head_length, ih, List.length_cons]
    omega

theorem le_encode_length (values : List Value) : 32 * values.length ≤ (encode values).length := by
  rw [encode, List.length_append, heads_length]
  exact Nat.le_add_right _ _

theorem heads_append (offset : ℕ) (xs ys : List Value) :
    heads offset (xs ++ ys) = heads offset xs ++ heads (offset + (xs.flatMap Value.tail).length) ys := by
  induction xs generalizing offset with
  | nil => rfl
  | cons v rest ih =>
    rw [List.cons_append, heads, heads, ih, List.append_assoc, List.flatMap_cons, List.length_append,
      Nat.add_assoc]

theorem encode_last_inj {xs ys : List Value} {b b' : Bytes} (hcount : xs.length = ys.length)
    (htails : xs.flatMap Value.tail = ys.flatMap Value.tail) (hlength : b.length = b'.length)
    (h : encode (xs ++ [.bytes b]) = encode (ys ++ [.bytes b'])) : b = b' := by
  rw [encode, encode] at h
  have hheads : (heads (32 * (xs ++ [Value.bytes b]).length) (xs ++ [.bytes b])).length =
      (heads (32 * (ys ++ [Value.bytes b']).length) (ys ++ [.bytes b'])).length := by
    rw [heads_length, heads_length, List.length_append, List.length_append, hcount, List.length_singleton,
      List.length_singleton]
  obtain ⟨_, h⟩ := List.append_inj h hheads
  rw [List.flatMap_append, List.flatMap_append, htails] at h
  have hlast := List.append_cancel_left h
  simp only [List.flatMap_cons, List.flatMap_nil, List.append_nil, Value.tail, hlength] at hlast
  exact List.append_cancel_left (List.append_cancel_right hlast)

theorem wordAt_append (before after : Bytes) (n : ℕ) :
    wordAt (before ++ word n ++ after) before.length = n % 2 ^ 256 := by
  have hdrop : (before ++ word n ++ after).drop before.length = word n ++ after := by
    rw [List.append_assoc, List.drop_left]
  have htake : (word n ++ after).take 32 = word n := List.take_left' (word_length n)
  rw [wordAt, hdrop, htake, natBE_word]

theorem wordAt_encode (before after : List Value) (n : ℕ) :
    wordAt (encode (before ++ .word n :: after)) (32 * before.length) = n % 2 ^ 256 := by
  have hdata : encode (before ++ .word n :: after) =
      heads (32 * (before ++ .word n :: after).length) before ++ ChainGuard.word n ++
        (heads (32 * (before ++ .word n :: after).length + (before.flatMap Value.tail).length) after ++
          (before ++ .word n :: after).flatMap Value.tail) := by
    rw [encode, heads_append, heads]
    simp only [Value.head, Value.tail, List.length_nil, Nat.add_zero, List.append_assoc]
  have hstart := heads_length (32 * (before ++ Value.word n :: after).length) before
  rw [hdata, ← hstart]
  exact wordAt_append _ _ n

theorem call_iff {data : Bytes} {sel arg : ℕ} (hsel : sel < 256 ^ 4) (harg : arg < 2 ^ 256) :
    (∃ rest, data = bytesBE 4 sel ++ word arg ++ rest) ↔
      36 ≤ data.length ∧ selector data = sel ∧ wordAt data 4 = arg := by
  constructor
  · rintro ⟨rest, rfl⟩
    refine ⟨?_, ?_, ?_⟩
    · rw [List.length_append, List.length_append, bytesBE_length, word_length]
      omega
    · have htake : (bytesBE 4 sel ++ word arg ++ rest).take 4 = bytesBE 4 sel := by
        rw [List.append_assoc]
        exact List.take_left' (bytesBE_length 4 sel)
      rw [selector, htake, natBE_bytesBE, Nat.mod_eq_of_lt hsel]
    · have hword := wordAt_append (bytesBE 4 sel) rest arg
      rw [bytesBE_length] at hword
      rw [hword, Nat.mod_eq_of_lt harg]
  · rintro ⟨hlen, hsel', harg'⟩
    refine ⟨data.drop 36, ?_⟩
    have hfirst : (data.take 4).length = 4 := List.length_take_of_le (by omega)
    have hsecond : ((data.drop 4).take 32).length = 32 :=
      List.length_take_of_le (by rw [List.length_drop]; omega)
    have hselector : bytesBE 4 sel = data.take 4 := by
      have hround := bytesBE_natBE (data.take 4)
      rw [hfirst] at hround
      rw [← hsel', selector, hround]
    have hargument : word arg = (data.drop 4).take 32 := by
      have hround := bytesBE_natBE ((data.drop 4).take 32)
      rw [hsecond] at hround
      rw [← harg', wordAt, word, hround]
    have hrest : data.drop 36 = (data.drop 4).drop 32 := by rw [List.drop_drop]
    rw [hselector, hargument, hrest, List.append_assoc, List.take_append_drop, List.take_append_drop]

theorem wordAt_lt (data : Bytes) (offset : ℕ) : wordAt data offset < 2 ^ 256 := by
  have hlt := natBE_lt ((data.drop offset).take 32)
  refine hlt.trans_le ?_
  have hpow : (2 : ℕ) ^ 256 = 256 ^ 32 := by norm_num
  rw [hpow]
  exact Nat.pow_le_pow_right (by decide) (List.length_take_le _ _)

@[simp] theorem asAddress_toNat (a : Address) : asAddress a.toNat = some a := by
  rw [asAddress, if_pos a.isLt, BitVec.ofNat_toNat, BitVec.setWidth_eq]

theorem encode_cons_word (n : ℕ) (values : List Value) : ∃ rest, encode (.word n :: values) = word n ++ rest := by
  refine ⟨heads (32 * (values.length + 1)) values ++ values.flatMap Value.tail, ?_⟩
  rw [encode, heads, List.append_assoc]
  rfl

/-- A byte string is read back from behind its offset. -/
theorem bytesAt_append (before b after : Bytes) (hbefore : before.length < 2 ^ 64) (hb : b.length < 2 ^ 64) :
    bytesAt (before ++ (word b.length ++ b ++ after)) before.length = some b := by
  have hlength : wordAt (before ++ (word b.length ++ b ++ after)) before.length = b.length := by
    have hread := wordAt_append before (b ++ after) b.length
    rw [Nat.mod_eq_of_lt (hb.trans (by decide))] at hread
    simpa only [List.append_assoc] using hread
  have hdrop : (before ++ (word b.length ++ b ++ after)).drop (before.length + 32) = b ++ after := by
    rw [List.append_assoc, ← List.drop_drop, List.drop_left]
    exact List.drop_left' (word_length _)
  have hfits : (before ++ (word b.length ++ b ++ after)).length = before.length + 32 + b.length + after.length := by
    simp only [List.length_append, word_length]
    omega
  rw [bytesAt, hlength, hdrop, hfits, if_neg (by omega)]
  dsimp only
  rw [if_neg (by omega), List.take_left]

theorem decodeCall_encode (dest : Address) {value : ℕ} {innerData : Bytes} (hvalue : value < 2 ^ 256)
    (hinner : innerData.length < 2 ^ 64) :
    decodeCall (encode [.word dest.toNat, .word value, .bytes innerData]) = some (dest, value, innerData) := by
  have hword : dest.toNat % 2 ^ 256 = dest.toNat :=
    Nat.mod_eq_of_lt (dest.isLt.trans (Nat.pow_lt_pow_right (by decide) (by decide)))
  have hdest : wordAt (encode [.word dest.toNat, .word value, .bytes innerData]) 0 = dest.toNat :=
    (wordAt_encode [] [.word value, .bytes innerData] dest.toNat).trans hword
  have hpaid : wordAt (encode [.word dest.toNat, .word value, .bytes innerData]) 32 = value :=
    (wordAt_encode [.word dest.toNat] [.bytes innerData] value).trans (Nat.mod_eq_of_lt hvalue)
  have hsplit : encode [.word dest.toNat, .word value, .bytes innerData] =
      (word dest.toNat ++ word value ++ word 96) ++ (word innerData.length ++ innerData ++
        List.replicate ((32 - innerData.length % 32) % 32) 0) := by
    simp [encode, heads, Value.head, Value.tail]
  have hheads : (word dest.toNat ++ word value ++ word 96).length = 96 := by
    simp only [List.length_append, word_length]
  have hoffset : wordAt (encode [.word dest.toNat, .word value, .bytes innerData]) 64 = 96 := by
    have hread := wordAt_append (word dest.toNat ++ word value) (word innerData.length ++ innerData ++
      List.replicate ((32 - innerData.length % 32) % 32) 0) 96
    rw [List.length_append, word_length, word_length] at hread
    rw [hsplit]
    exact hread
  have hbytes : bytesAt (encode [.word dest.toNat, .word value, .bytes innerData]) 96 = some innerData := by
    have hread := bytesAt_append (word dest.toNat ++ word value ++ word 96) innerData
      (List.replicate ((32 - innerData.length % 32) % 32) 0) (by rw [hheads]; decide) hinner
    rwa [hheads, ← hsplit] at hread
  have hlong : 96 ≤ (encode [.word dest.toNat, .word value, .bytes innerData]).length :=
    le_trans (by simp) (le_encode_length _)
  rw [decodeCall, if_neg (not_lt.mpr hlong), hdest, hpaid, hoffset, hbytes, asAddress_toNat]
  rfl

@[simp] theorem asBool_toNat (b : Bool) : asBool b.toNat = some b := by
  cases b <;> rfl

end ChainGuard.Evm.Abi
