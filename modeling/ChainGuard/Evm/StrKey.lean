import ChainGuard.Library.Guarded
import ChainGuard.Words
import ChainGuard.Library.Crc

/-! The library `StrKey`: the Ed25519 keys of Stellar addresses. -/
namespace ChainGuard.Evm.StrKey
open Guarded
set_option autoImplicit false

def ED25519_PUBKEY_VERSION : UInt8 := (6 : UInt8) <<< 3
def CRC16_POLY : UInt16 := 0x1021

inductive StrKeyError
  | InvalidStrKey
  deriving DecidableEq, Repr

abbrev Result (α : Type) := Except StrKeyError α

/-! ## Base 32 -/

/-- `A`–`Z`, then `2`–`7`. -/
def charValue (c : UInt8) : Option ℕ :=
  if 0x41 ≤ c.toNat ∧ c.toNat ≤ 0x5a then some (c.toNat - 0x41)
  else if 0x32 ≤ c.toNat ∧ c.toNat ≤ 0x37 then some (c.toNat - 0x32 + 26)
  else none

/-- The rolling buffer, and the bytes written so far. -/
structure Decoder where
  buffer : ℕ
  bitsLeft : ℕ
  decoded : Bytes

def Decoder.initial : Decoder := ⟨0, 0, []⟩

def Decoder.push (s : Decoder) (val : ℕ) : Decoder :=
  let buffer := s.buffer <<< 5 ||| val
  let bitsLeft := s.bitsLeft + 5
  if 8 ≤ bitsLeft then
    let bitsLeft := bitsLeft - 8
    { buffer := buffer &&& (2 ^ bitsLeft - 1)
      bitsLeft := bitsLeft
      decoded := s.decoded ++ [UInt8.ofNat (buffer >>> bitsLeft &&& 0xff)] }
  else { s with buffer, bitsLeft }

def decodeChars : Decoder → Bytes → Result Decoder
  | s, [] => pure s
  | s, c :: data =>
    match charValue c with
    | some val => decodeChars (s.push val) data
    | none => .error .InvalidStrKey

/-! ## Checksum -/

def crcShift (crc : UInt16) : UInt16 :=
  if crc &&& 0x8000 ≠ 0 then (crc <<< 1) ^^^ CRC16_POLY else crc <<< 1

/-- `_crc16` -/
def crc16 (data : Bytes) (len : ℕ) : UInt16 :=
  (data.take len).foldl (fun (crc : UInt16) (b : UInt8) => crcShift^[8] (crc ^^^ (b.toUInt16 <<< 8))) 0

/-- The checksum of two bytes, low byte first. -/
def checksum (low high : UInt8) : UInt16 := (high.toUInt16 <<< 8) ||| low.toUInt16

/-! ## Decoding -/

def decodeEd25519PublicKey (strkey : Bytes) : Result Bytes32 := do
  revertIf (strkey.length ≠ 56) .InvalidStrKey
  let decoded := (← decodeChars .initial strkey).decoded
  revertIf (decoded.getD 0 0 ≠ ED25519_PUBKEY_VERSION) .InvalidStrKey
  revertIf (crc16 decoded 33 ≠ checksum (decoded.getD 33 0) (decoded.getD 34 0)) .InvalidStrKey
  pure (BitVec.ofNat 256 (natBE ((decoded.drop 1).take 32)))

/-! ## The bits read so far -/

theorem charValue_lt {c : UInt8} {val : ℕ} (h : charValue c = some val) : val < 32 := by
  unfold charValue at h
  split_ifs at h <;> simp only [Option.some.injEq] at h <;> omega

theorem charValue_inj {c c' : UInt8} {val : ℕ} (h : charValue c = some val) (h' : charValue c' = some val) :
    c = c' := by
  apply UInt8.toNat_inj.mp
  unfold charValue at h h'
  split_ifs at h h' <;> simp only [Option.some.injEq] at h h' <;> omega

def Decoder.value (s : Decoder) : ℕ := natBE s.decoded * 2 ^ s.bitsLeft + s.buffer

/-- So many characters have been read. -/
structure Decoder.After (s : Decoder) (chars : ℕ) : Prop where
  buffer_lt : s.buffer < 2 ^ s.bitsLeft
  bits_lt : s.bitsLeft < 8
  bits_eq : 8 * s.decoded.length + s.bitsLeft = 5 * chars

theorem Decoder.After.initial : Decoder.initial.After 0 := ⟨by decide, by decide, rfl⟩

theorem Decoder.After.push {s : Decoder} {chars val : ℕ} (h : s.After chars) (hval : val < 32) :
    (s.push val).After (chars + 1) ∧ (s.push val).value = s.value * 32 + val := by
  obtain ⟨hbuffer, hbits, hcount⟩ := h
  have hor : s.buffer <<< 5 ||| val = s.buffer * 32 + val := by
    rw [← Nat.shiftLeft_add_eq_or_of_lt hval, Nat.shiftLeft_eq]
  have hread : s.buffer * 32 + val < 2 ^ (s.bitsLeft + 5) := by
    rw [pow_add]
    omega
  unfold Decoder.push Decoder.value
  rw [hor]
  by_cases hbyte : 8 ≤ s.bitsLeft + 5
  · obtain ⟨rest, hrest⟩ : ∃ rest, s.bitsLeft + 5 = 8 + rest := ⟨_, (Nat.add_sub_cancel' hbyte).symm⟩
    have hsub : s.bitsLeft + 5 - 8 = rest := by omega
    have hpow : 2 ^ (s.bitsLeft + 5) = 256 * 2 ^ rest := by
      rw [hrest, pow_add]
      rfl
    have hpowBits : 2 ^ s.bitsLeft * 32 = 256 * 2 ^ rest := by
      rw [← hpow, pow_add]
      rfl
    rw [hpow] at hread
    have hquotient : (s.buffer * 32 + val) / 2 ^ rest < 256 :=
      (Nat.div_lt_iff_lt_mul (Nat.two_pow_pos rest)).mpr hread
    have hdigit : (UInt8.ofNat ((s.buffer * 32 + val) >>> rest &&& 0xff)).toNat =
        (s.buffer * 32 + val) / 2 ^ rest := by
      rw [Nat.shiftRight_eq_div_pow, Nat.and_two_pow_sub_one_eq_mod _ 8, UInt8.toNat_ofNat',
        Nat.mod_mod, Nat.mod_eq_of_lt hquotient]
    simp only [if_pos hbyte, hsub, Nat.and_two_pow_sub_one_eq_mod]
    refine ⟨⟨Nat.mod_lt _ (Nat.two_pow_pos rest), ?_, ?_⟩, ?_⟩
    · change rest < 8
      omega
    · change 8 * (s.decoded ++ _).length + rest = _
      rw [List.length_append, List.length_singleton]
      omega
    · have hdivision := Nat.div_add_mod (s.buffer * 32 + val) (2 ^ rest)
      rw [natBE_concat, hdigit]
      calc
        _ = natBE s.decoded * (256 * 2 ^ rest) + (2 ^ rest * ((s.buffer * 32 + val) / 2 ^ rest) +
            (s.buffer * 32 + val) % 2 ^ rest) := by ring
        _ = natBE s.decoded * (2 ^ s.bitsLeft * 32) + (s.buffer * 32 + val) := by
          rw [hdivision, hpowBits]
        _ = _ := by ring
  · simp only [if_neg hbyte]
    refine ⟨⟨hread, Nat.lt_of_not_le hbyte, ?_⟩, ?_⟩
    · change 8 * s.decoded.length + (s.bitsLeft + 5) = _
      omega
    · rw [pow_add]
      ring

theorem decodeChars_spec {s s' : Decoder} {data : Bytes} {chars : ℕ} (hs : s.After chars)
    (h : decodeChars s data = .ok s') :
    ∃ vals, List.Forall₂ (fun c val => charValue c = some val) data vals ∧
      s'.After (chars + data.length) ∧
      s'.value = vals.foldl (fun acc val => acc * 32 + val) s.value := by
  induction data generalizing s chars with
  | nil =>
    simp only [decodeChars, pure_ok] at h
    subst h
    exact ⟨[], .nil, hs, rfl⟩
  | cons c data ih =>
    cases hc : charValue c with
    | none => simp [decodeChars, hc] at h
    | some val =>
      simp only [decodeChars, hc] at h
      obtain ⟨hafter, hvalue⟩ := hs.push (charValue_lt hc)
      obtain ⟨vals, hvals, hafter', hvalue'⟩ := ih hafter h
      refine ⟨val :: vals, .cons hc hvals, ?_, ?_⟩
      · rwa [List.length_cons, Nat.add_comm data.length, ← Nat.add_assoc]
      · rw [hvalue', hvalue, List.foldl_cons]

/-! ## What decodes -/

theorem Decoder.After.value_complete {s : Decoder} (h : s.After (0 + 56)) : s.value = natBE s.decoded := by
  have hbits := h.bits_lt
  have hcount := h.bits_eq
  have hbuffer := h.buffer_lt
  have hzero : s.bitsLeft = 0 := by omega
  rw [hzero, pow_zero, Nat.lt_one_iff] at hbuffer
  rw [Decoder.value, hzero, hbuffer, pow_zero, mul_one, add_zero]

theorem lt_of_charValues {data : Bytes} {vals : List ℕ}
    (h : List.Forall₂ (fun c val => charValue c = some val) data vals) : ∀ val ∈ vals, val < 32 := by
  induction h with
  | nil => simp
  | cons hc _ ih => exact List.forall_mem_cons.mpr ⟨charValue_lt hc, ih⟩

theorem chars_eq {data data' : Bytes} {vals : List ℕ}
    (h : List.Forall₂ (fun c val => charValue c = some val) data vals)
    (h' : List.Forall₂ (fun c val => charValue c = some val) data' vals) : data = data' := by
  induction h generalizing data' with
  | nil =>
    cases h'
    rfl
  | cons hc _ ih =>
    cases h' with
    | cons hc' h' => rw [charValue_inj hc hc', ih h']

theorem vals_eq {vals vals' : List ℕ} (hlt : ∀ val ∈ vals, val < 32) (hlt' : ∀ val ∈ vals', val < 32)
    (hlength : vals.length = vals'.length)
    (h : vals.foldl (fun acc val => acc * 32 + val) 0 = vals'.foldl (fun acc val => acc * 32 + val) 0) :
    vals = vals' := by
  have hdigits : ∀ l : List ℕ,
      l.foldl (fun acc val => acc * 32 + val) 0 = Nat.ofDigits 32 l.reverse := by
    intro l
    rw [← List.foldr_reverse, Nat.ofDigits_eq_foldr]
    congr 1
    funext val acc
    simp only [Nat.cast_id]
    ring
  rw [hdigits, hdigits] at h
  refine List.reverse_injective (Nat.ofDigits_inj_of_len_eq (by decide) (by simpa using hlength) ?_ ?_ h)
  · simpa using hlt
  · simpa using hlt'

/-- The 35 bytes behind the address of a key. -/
def keyBytes (key : Bytes32) : Bytes :=
  let payload := ED25519_PUBKEY_VERSION :: word key.toNat
  payload ++ [(crc16 payload 33).toUInt8, (crc16 payload 33 >>> 8).toUInt8]

theorem checksum_toNat (low high : UInt8) : (checksum low high).toNat = high.toNat * 256 + low.toNat := by
  have hhigh : high.toNat < 256 := high.toNat_lt
  have hshift : (high.toUInt16 <<< 8).toNat = high.toNat <<< 8 := by
    have hlt : high.toNat * 256 < 2 ^ 16 := by omega
    rw [UInt16.toNat_shiftLeft, UInt8.toNat_toUInt16, Nat.shiftLeft_eq, Nat.shiftLeft_eq]
    exact Nat.mod_eq_of_lt hlt
  rw [checksum, UInt16.toNat_or, hshift, UInt8.toNat_toUInt16, ← Nat.shiftLeft_add_eq_or_of_lt low.toNat_lt,
    Nat.shiftLeft_eq]

theorem checksum_bytes {low high : UInt8} {crc : UInt16} (h : crc = checksum low high) :
    low = crc.toUInt8 ∧ high = (crc >>> 8).toUInt8 := by
  have hlow : low.toNat < 256 := low.toNat_lt
  have hhigh : high.toNat < 256 := high.toNat_lt
  have hvalue := checksum_toNat low high
  rw [h]
  constructor
  · apply UInt8.toNat_inj.mp
    rw [UInt16.toNat_toUInt8, hvalue]
    omega
  · apply UInt8.toNat_inj.mp
    rw [UInt16.toNat_toUInt8, UInt16.toNat_shiftRight, hvalue, Nat.shiftRight_eq_div_pow]
    change _ = (high.toNat * 256 + low.toNat) / 256 % 256
    omega

theorem split_keyBytes {b : Bytes} (hlength : b.length = 35) :
    b = b.getD 0 0 :: ((b.drop 1).take 32 ++ [b.getD 33 0, b.getD 34 0]) := by
  have hfirst : b.take 1 = [b.getD 0 0] := by
    rw [List.take_one, List.head?_eq_getElem?, List.getD_eq_getElem?_getD,
      List.getElem?_eq_getElem (by omega)]
    rfl
  have hlast : (b.drop 1).drop 32 = [b.getD 33 0, b.getD 34 0] := by
    rw [List.drop_drop, List.drop_eq_getElem_cons (by omega), List.drop_eq_getElem_cons (by omega),
      List.drop_eq_nil_of_le (by omega), List.getD_eq_getElem?_getD, List.getD_eq_getElem?_getD,
      List.getElem?_eq_getElem (show 33 < b.length by omega),
      List.getElem?_eq_getElem (show 34 < b.length by omega)]
    rfl
  calc
    b = b.take 1 ++ b.drop 1 := (List.take_append_drop 1 b).symm
    _ = b.take 1 ++ ((b.drop 1).take 32 ++ (b.drop 1).drop 32) := by
      rw [List.take_append_drop 32 (b.drop 1)]
    _ = _ := by rw [hfirst, hlast, List.singleton_append]

theorem decodeEd25519PublicKey_spec {strkey : Bytes} {key : Bytes32}
    (h : decodeEd25519PublicKey strkey = .ok key) :
    ∃ d, decodeChars .initial strkey = .ok d ∧ strkey.length = 56 ∧ d.decoded = keyBytes key := by
  simp only [decodeEd25519PublicKey, bind_ok, revertIf_ok, exists_const, pure_ok, not_not] at h
  obtain ⟨hlength, d, hchars, hversion, hcrc, hkey⟩ := h
  obtain ⟨vals, _, hafter, _⟩ := decodeChars_spec Decoder.After.initial hchars
  have hdecoded : d.decoded.length = 35 := by
    have hbits := hafter.bits_lt
    have hcount := hafter.bits_eq
    omega
  refine ⟨d, hchars, hlength, ?_⟩
  have hsplit := split_keyBytes hdecoded
  have hbytes : word key.toNat = (d.decoded.drop 1).take 32 := by
    have hlen : ((d.decoded.drop 1).take 32).length = 32 := by simp [hdecoded]
    have hlt := natBE_lt ((d.decoded.drop 1).take 32)
    rw [hlen] at hlt
    have hnat : key.toNat = natBE ((d.decoded.drop 1).take 32) := by
      rw [← hkey, BitVec.toNat_ofNat]
      exact Nat.mod_eq_of_lt hlt
    conv_rhs => rw [← bytesBE_natBE ((d.decoded.drop 1).take 32), hlen, ← hnat]
    rfl
  have hpayload : crc16 (ED25519_PUBKEY_VERSION :: word key.toNat) 33 = crc16 d.decoded 33 := by
    have htake : (ED25519_PUBKEY_VERSION :: word key.toNat).take 33 = d.decoded.take 33 := by
      conv_rhs => rw [hsplit, ← hbytes, hversion]
      simp
    rw [crc16, crc16, htake]
  obtain ⟨hlow, hhigh⟩ := checksum_bytes hcrc
  rw [hsplit, hlow, hhigh, hversion, keyBytes, hpayload, hbytes]
  simp

theorem decodeEd25519PublicKey_inj {strkey strkey' : Bytes} {key : Bytes32}
    (h : decodeEd25519PublicKey strkey = .ok key) (h' : decodeEd25519PublicKey strkey' = .ok key) :
    strkey = strkey' := by
  obtain ⟨d, hchars, hlength, hbytes⟩ := decodeEd25519PublicKey_spec h
  obtain ⟨d', hchars', hlength', hbytes'⟩ := decodeEd25519PublicKey_spec h'
  obtain ⟨vals, hvals, hafter, hvalue⟩ := decodeChars_spec Decoder.After.initial hchars
  obtain ⟨vals', hvals', hafter', hvalue'⟩ := decodeChars_spec Decoder.After.initial hchars'
  rw [hlength] at hafter
  rw [hlength'] at hafter'
  have hsame : d.value = d'.value := by
    rw [hafter.value_complete, hafter'.value_complete, hbytes, hbytes']
  rw [hvalue, hvalue'] at hsame
  have hdigits : vals = vals' := vals_eq (lt_of_charValues hvals) (lt_of_charValues hvals')
    (by rw [← hvals.length_eq, ← hvals'.length_eq, hlength, hlength']) hsame
  rw [← hdigits] at hvals'
  exact chars_eq hvals hvals'

/-! The strings that `StrKey` decodes are the encodings of the keys: base 32 of a version byte, the key and the
CRC-16/XModem check of both. -/

/-! ## Encoding -/

/-- The characters of base 32, in the order of their values. -/
def alphabet : Bytes := ascii "ABCDEFGHIJKLMNOPQRSTUVWXYZ234567"

/-- Base 32 of whole groups of five bytes: the digits of their number, the high one first. -/
def base32 (bytes : Bytes) : Bytes :=
  (List.range (8 * bytes.length / 5)).reverse.map fun i => alphabet.getD (natBE bytes / 32 ^ i % 32) 0

/-- `x¹⁶ + x¹² + x⁵ + 1`, without its highest term. -/
def xmodem : BitVec 16 := 0x1021

/-- The string is the encoding of the key, with the low byte of the check first. -/
def IsStrKey (key : Bytes32) (strkey : Bytes) : Prop :=
  ∃ check : BitVec 16, Crc.IsCheck xmodem (0x30 :: word key.toNat) check ∧
    strkey = base32 (0x30 :: word key.toNat ++ [UInt8.ofNat check.toNat, UInt8.ofNat (check.toNat / 256)])

/-! ## The check -/

theorem crcShift_toBitVec (crc : UInt16) : (crcShift crc).toBitVec = Crc.shift xmodem crc.toBitVec := by
  have hmask : crc &&& 0x8000 ≠ 0 ↔ crc.toBitVec.msb = true := by
    have hpower : (0x8000 : UInt16).toBitVec = BitVec.twoPow 16 15 := by decide
    rw [ne_eq, ← UInt16.toBitVec_inj, UInt16.toBitVec_and, hpower, BitVec.and_twoPow, BitVec.msb_eq_getLsbD_last]
    cases crc.toBitVec.getLsbD 15 <;> decide
  rw [crcShift, Crc.shift]
  by_cases h : crc.toBitVec.msb = true
  · rw [if_pos (hmask.mpr h), if_pos h]
    rfl
  · rw [if_neg (mt hmask.mp h), if_neg h]
    rfl

theorem crc16_toBitVec (data : Bytes) (len : ℕ) :
    (crc16 data len).toBitVec = (data.take len).foldl (Crc.feed xmodem) 0 := by
  have hbyte : ∀ (crc : UInt16) (b : UInt8), Crc.feed xmodem crc.toBitVec b =
      (crcShift^[8] (crc ^^^ (b.toUInt16 <<< 8))).toBitVec := fun crc b => by
    have hshifts : Function.Semiconj UInt16.toBitVec crcShift (Crc.shift xmodem) := crcShift_toBitVec
    rw [(hshifts.iterate_right 8).eq]
    rfl
  rw [crc16]
  exact (List.foldl_hom UInt16.toBitVec hbyte).symm

theorem crc16_isCheck {data : Bytes} {len : ℕ} (h : data.length = len) :
    Crc.IsCheck xmodem data (crc16 data len).toBitVec := by
  rw [crc16_toBitVec, List.take_of_length_le h.le]
  exact Crc.isCheck_feed xmodem data (by decide)

theorem keyBytes_eq {key : Bytes32} {check : BitVec 16} (h : Crc.IsCheck xmodem (0x30 :: word key.toNat) check) :
    keyBytes key = 0x30 :: word key.toNat ++ [UInt8.ofNat check.toNat, UInt8.ofNat (check.toNat / 256)] := by
  have hlength : (0x30 :: word key.toNat : Bytes).length = 33 := by rw [List.length_cons, word_length]
  have hcheck := (crc16_isCheck hlength).unique h
  have hbytes : ∀ crc : UInt16, [crc.toUInt8, (crc >>> 8).toUInt8] =
      [UInt8.ofNat crc.toBitVec.toNat, UInt8.ofNat (crc.toBitVec.toNat / 256)] := fun crc => by
    have hhigh : (crc >>> 8).toUInt8 = UInt8.ofNat (crc.toBitVec.toNat / 256) := by
      refine UInt8.toNat.inj ?_
      rw [UInt16.toNat_toUInt8, UInt16.toNat_shiftRight, UInt8.toNat_ofNat', Nat.shiftRight_eq_div_pow]
      rfl
    rw [hhigh]
    rfl
  rw [keyBytes, hbytes, ← hcheck]
  rfl

theorem isStrKey_iff {key : Bytes32} {strkey : Bytes} : IsStrKey key strkey ↔ strkey = base32 (keyBytes key) := by
  have hlength : (0x30 :: word key.toNat : Bytes).length = 33 := by rw [List.length_cons, word_length]
  constructor
  · rintro ⟨check, hcheck, rfl⟩
    rw [keyBytes_eq hcheck]
  · rintro rfl
    exact ⟨_, crc16_isCheck hlength, by rw [keyBytes_eq (crc16_isCheck hlength)]⟩

/-! ## Decoding the encoding -/

theorem charValue_alphabet {val : ℕ} (h : val < 32) : charValue (alphabet.getD val 0) = some val := by
  have hall : ∀ val < 32, charValue (alphabet.getD val 0) = some val := by decide
  exact hall val h

theorem decodeChars_ok {data : Bytes} {vals : List ℕ} (h : List.Forall₂ (fun c val => charValue c = some val) data vals)
    (s : Decoder) : ∃ s', decodeChars s data = .ok s' := by
  induction h generalizing s with
  | nil => exact ⟨s, rfl⟩
  | cons hc _ ih =>
    obtain ⟨s', hs'⟩ := ih (s.push _)
    refine ⟨s', ?_⟩
    rw [decodeChars, hc]
    exact hs'

/-- The digits of a number, the high one first. -/
def digits (len n : ℕ) : List ℕ := (List.range len).reverse.map fun i => n / 32 ^ i % 32

theorem digits_succ (len n : ℕ) : digits (len + 1) n = digits len (n / 32) ++ [n % 32] := by
  have hrange : (List.range (len + 1)).reverse = (List.range len).reverse.map (· + 1) ++ [0] := by
    rw [List.range_succ_eq_map, List.reverse_cons, List.map_reverse]
  rw [digits, hrange, List.map_append, List.map_map, List.map_singleton, pow_zero, Nat.div_one]
  congr 1
  refine List.map_congr_left fun i _ => ?_
  show n / 32 ^ (i + 1) % 32 = n / 32 / 32 ^ i % 32
  rw [Nat.div_div_eq_div_mul, Nat.pow_succ']

theorem digits_value (len n : ℕ) : (digits len n).foldl (fun acc val => acc * 32 + val) 0 = n % 32 ^ len := by
  induction len generalizing n with
  | zero => exact (Nat.mod_one n).symm
  | succ len ih =>
    rw [digits_succ, List.foldl_concat, ih, Nat.pow_succ', Nat.mod_mul]
    ring

theorem base32_length {bytes : Bytes} (h : bytes.length = 35) : (base32 bytes).length = 56 := by
  rw [base32, h, List.length_map, List.length_reverse, List.length_range]

theorem decodeChars_base32 {bytes : Bytes} (h : bytes.length = 35) :
    ∃ d, decodeChars .initial (base32 bytes) = .ok d ∧ d.decoded = bytes := by
  have hchars : base32 bytes = (digits 56 (natBE bytes)).map fun val => alphabet.getD val 0 := by
    rw [base32, h, digits, List.map_map]
    rfl
  have hvals : List.Forall₂ (fun c val => charValue c = some val) (base32 bytes) (digits 56 (natBE bytes)) := by
    rw [hchars, List.forall₂_map_left_iff, List.forall₂_same]
    intro val hval
    obtain ⟨i, _, rfl⟩ := List.mem_map.mp hval
    exact charValue_alphabet (Nat.mod_lt _ (by decide))
  obtain ⟨d, hd⟩ := decodeChars_ok hvals .initial
  obtain ⟨vals, hvals', hafter, hvalue⟩ := decodeChars_spec Decoder.After.initial hd
  have hsame : vals = digits 56 (natBE bytes) := by
    have hunique : Relator.RightUnique fun c val => charValue c = some val :=
      fun _ _ _ hval hval' => Option.some.inj (hval.symm.trans hval')
    exact hunique.forall₂ hvals' hvals
  rw [base32_length h] at hafter
  have hdecoded : d.decoded.length = bytes.length := by
    have hbits := hafter.bits_lt
    have hcount := hafter.bits_eq
    omega
  have hlt := natBE_lt bytes
  rw [h] at hlt
  have hnumber : natBE d.decoded = natBE bytes := by
    rw [← hafter.value_complete, hvalue, hsame]
    exact (digits_value 56 _).trans (Nat.mod_eq_of_lt hlt)
  refine ⟨d, hd, ?_⟩
  rw [← bytesBE_natBE d.decoded, hnumber, hdecoded, bytesBE_natBE]

theorem keyBytes_length (key : Bytes32) : (keyBytes key).length = 35 := by
  rw [keyBytes, List.length_append, List.length_cons, word_length]
  rfl

theorem checksum_crc (crc : UInt16) : checksum crc.toUInt8 (crc >>> 8).toUInt8 = crc := by
  refine UInt16.toNat.inj ?_
  have hlt := crc.toNat_lt
  rw [checksum_toNat, UInt16.toNat_toUInt8, UInt16.toNat_toUInt8, UInt16.toNat_shiftRight, Nat.shiftRight_eq_div_pow]
  show crc.toNat / 256 % 256 * 256 + crc.toNat % 256 = crc.toNat
  omega

theorem decode_base32 (key : Bytes32) : decodeEd25519PublicKey (base32 (keyBytes key)) = .ok key := by
  obtain ⟨d, hd, hdecoded⟩ := decodeChars_base32 (keyBytes_length key)
  have hpayloadLength : (ED25519_PUBKEY_VERSION :: word key.toNat).length = 33 := by
    rw [List.length_cons, word_length]
  have htake : (keyBytes key).take 33 = ED25519_PUBKEY_VERSION :: word key.toNat := List.take_left' hpayloadLength
  have hpayload : crc16 (keyBytes key) 33 = crc16 (ED25519_PUBKEY_VERSION :: word key.toNat) 33 := by
    rw [crc16, crc16, htake, List.take_of_length_le hpayloadLength.le]
  have hlow : (keyBytes key).getD 33 0 = (crc16 (ED25519_PUBKEY_VERSION :: word key.toNat) 33).toUInt8 := by
    rw [keyBytes, List.getD_append_right _ _ _ _ hpayloadLength.le, hpayloadLength]
    rfl
  have hhigh : (keyBytes key).getD 34 0 = (crc16 (ED25519_PUBKEY_VERSION :: word key.toNat) 33 >>> 8).toUInt8 := by
    rw [keyBytes, List.getD_append_right _ _ _ _ (hpayloadLength.trans_le (by decide)), hpayloadLength]
    rfl
  have hword : ((keyBytes key).drop 1).take 32 = word key.toNat := List.take_left' (word_length _)
  simp only [decodeEd25519PublicKey, bind_ok, revertIf_ok, exists_const, pure_ok, not_not]
  refine ⟨base32_length (keyBytes_length key), d, hd, ?_, ?_, ?_⟩
  · rw [hdecoded]
    rfl
  · rw [hdecoded, hpayload, hlow, hhigh, checksum_crc]
  · rw [hdecoded, hword, natBE_word, Nat.mod_eq_of_lt key.isLt, BitVec.ofNat_toNat, BitVec.setWidth_eq]

/-- What is decoded to a key is its encoding, and every key has one. -/
theorem decodeEd25519PublicKey_iff :
    (∀ key, ∃! strkey, IsStrKey key strkey) ∧
    (∀ strkey key, decodeEd25519PublicKey strkey = .ok key ↔ IsStrKey key strkey) ∧
    ∀ strkey strkey' key, decodeEd25519PublicKey strkey = .ok key → decodeEd25519PublicKey strkey' = .ok key →
      strkey = strkey' := by
  refine ⟨fun key => ⟨_, isStrKey_iff.mpr rfl, fun strkey h => isStrKey_iff.mp h⟩, fun strkey key => ⟨fun h => ?_, ?_⟩,
    fun strkey strkey' key => decodeEd25519PublicKey_inj⟩
  · exact isStrKey_iff.mpr (decodeEd25519PublicKey_inj h (decode_base32 key))
  · intro h
    rw [isStrKey_iff.mp h]
    exact decode_base32 key

end ChainGuard.Evm.StrKey
