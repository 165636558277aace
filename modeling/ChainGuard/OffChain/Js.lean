import ChainGuard.Words

/-! What the off-chain services take from JavaScript: strings of UTF-16 code units, numbers and bigints,
JSON and the hexadecimal codec of buffers. -/
namespace ChainGuard.OffChain
set_option autoImplicit false

/-- UTF-16 code units. -/
abbrev JsString := List UInt16

instance : LawfulBEq JsString := inferInstance

/-- A literal of the source. -/
def js (s : String) : JsString := s.toList.map fun c => UInt16.ofNat c.toNat

/-- By a walk along the string, not by a search of all code units. -/
scoped instance (priority := high) decidableUnits (p : UInt16 → Prop) [DecidablePred p] (s : List UInt16) :
    Decidable (∀ c ∈ s, p c) :=
  List.decidableBAll p s

def colon : UInt16 := 0x3a

inductive Thrown
  | error (message : String)
  /-- `BigInt` of a number that is not an integer, or a remainder by `0n`. -/
  | rangeError
  /-- A `RangeError` of the source's own. -/
  | outOfRange (message : String)
  /-- `BigInt` of a string that is not an integer literal. -/
  | syntaxError
  /-- A property of `undefined`. -/
  | typeError
  /-- By a library that the source imports. -/
  | library
  deriving DecidableEq

/-- `parts.join(":")`, for parts that are strings already. -/
def joinColon : List JsString → JsString
  | [] => []
  | [part] => part
  | part :: rest => part ++ colon :: joinColon rest

section Cut
variable {α : Type} {mark : α} {a a' b b' : List α}

theorem cut_first (ha : mark ∉ a) (ha' : mark ∉ a') (h : a ++ mark :: b = a' ++ mark :: b') : a = a' ∧ b = b' := by
  induction a generalizing a' with
  | nil =>
    cases a' with
    | nil => exact ⟨rfl, (List.cons.inj h).2⟩
    | cons c' a' =>
      obtain ⟨rfl, _⟩ := List.cons.inj h
      exact absurd (List.mem_cons_self ..) ha'
  | cons c a ih =>
    cases a' with
    | nil =>
      obtain ⟨rfl, _⟩ := List.cons.inj h
      exact absurd (List.mem_cons_self ..) ha
    | cons c' a' =>
      obtain ⟨rfl, htail⟩ := List.cons.inj h
      obtain ⟨rfl, rfl⟩ := ih (fun hmem => ha (List.mem_cons_of_mem _ hmem))
        (fun hmem => ha' (List.mem_cons_of_mem _ hmem)) htail
      exact ⟨rfl, rfl⟩

theorem cut_last (hb : mark ∉ b) (hb' : mark ∉ b') (h : a ++ mark :: b = a' ++ mark :: b') : a = a' ∧ b = b' := by
  have hreverse := congrArg List.reverse h
  simp only [List.reverse_append, List.reverse_cons, List.append_assoc, List.singleton_append] at hreverse
  obtain ⟨hback, hfront⟩ := cut_first (by rwa [List.mem_reverse]) (by rwa [List.mem_reverse]) hreverse
  exact ⟨List.reverse_injective hfront, List.reverse_injective hback⟩

end Cut

/-! ## Numbers -/

def decimal (n : ℕ) : JsString := (Nat.toDigits 10 n).map fun c => UInt16.ofNat c.toNat

/-- `String(n)` of a bigint. -/
def bigintString : ℤ → JsString
  | .ofNat n => decimal n
  | .negSucc n => js "-" ++ decimal (n + 1)

def decimalValue (digits : JsString) : Option ℕ :=
  if digits ≠ [] ∧ ∀ c ∈ digits, 48 ≤ c ∧ c ≤ 57 then
    some (digits.foldl (fun acc c => acc * 10 + (c.toNat - 48)) 0)
  else none

/-- `BigInt(s)` of a rendered number. -/
def bigintOfString : JsString → Option ℤ
  | 0x2d :: digits => (decimalValue digits).map fun n => -Int.ofNat n
  | digits => (decimalValue digits).map Int.ofNat

theorem digit_of_mem_decimal {n : ℕ} {c : Char} (h : c ∈ Nat.toDigits 10 n) : 48 ≤ c.toNat ∧ c.toNat ≤ 57 := by
  have hdigit : c.isDigit = true := Nat.isDigit_of_mem_toDigits (by decide) (by decide) h
  rw [Char.isDigit, Bool.and_eq_true, decide_eq_true_eq, decide_eq_true_eq] at hdigit
  exact hdigit

theorem decimalValue_decimal (n : ℕ) : decimalValue (decimal n) = some n := by
  have hcode : ∀ c ∈ Nat.toDigits 10 n, (UInt16.ofNat c.toNat).toNat = c.toNat := by
    intro c hc
    have hdigit := digit_of_mem_decimal hc
    rw [UInt16.toNat_ofNat', Nat.mod_eq_of_lt (by omega)]
  have hdigits : decimal n ≠ [] ∧ ∀ c ∈ decimal n, 48 ≤ c ∧ c ≤ 57 := by
    refine ⟨by simp [decimal, Nat.toDigits_ne_nil], ?_⟩
    intro x hx
    obtain ⟨c, hc, rfl⟩ := List.mem_map.mp hx
    simp only [UInt16.le_iff_toNat_le, hcode c hc]
    exact digit_of_mem_decimal hc
  rw [decimalValue, if_pos hdigits, decimal, List.foldl_map]
  conv_rhs => rw [← @Nat.ofDigitChars_ten_toDigits n, Nat.ofDigitChars_eq_foldl]
  refine congrArg some (List.foldl_ext _ _ _ fun acc c hc => ?_)
  rw [hcode c hc]
  exact congrArg (· + _) (Nat.mul_comm ..)

theorem bigintOfString_decimal (n : ℕ) : bigintOfString (decimal n) = some (n : ℤ) := by
  rw [bigintOfString, decimalValue_decimal]
  · rfl
  · intro digits h
    obtain ⟨c, hc, heq⟩ := List.mem_map.mp (h ▸ List.mem_cons_self .. : (0x2d : UInt16) ∈ decimal n)
    have hdigit := digit_of_mem_decimal hc
    have hcode := congrArg UInt16.toNat heq
    rw [UInt16.toNat_ofNat', Nat.mod_eq_of_lt (by omega)] at hcode
    change c.toNat = 45 at hcode
    omega

theorem bigintOfString_bigintString (n : ℤ) : bigintOfString (bigintString n) = some n := by
  cases n with
  | ofNat n => exact bigintOfString_decimal n
  | negSucc n =>
    change (decimalValue (decimal (n + 1))).map _ = _
    rw [decimalValue_decimal]
    rfl

/-- Values of the type `number`. -/
class JsNumber (Num : Type) where
  ofNat : ℕ → Num
  add : Num → Num → Num
  lt : Num → Num → Bool
  isFinite : Num → Bool
  /-- `String(x)` -/
  string : Num → JsString
  /-- `BigInt(x)`, unless it throws. -/
  toBigInt : Num → Option ℤ
  string_noColon : ∀ x, colon ∉ string x

/-- Values of the type `number | bigint`. -/
inductive Numeric (Num : Type)
  | number (x : Num)
  | bigint (n : ℤ)
  deriving DecidableEq

variable {Num : Type} [JsNumber Num]

def Numeric.string : Numeric Num → JsString
  | .number x => JsNumber.string x
  | .bigint n => bigintString n

def Numeric.toBigInt : Numeric Num → Option ℤ
  | .number x => JsNumber.toBigInt x
  | .bigint n => some n

/-- The two read the same and are the same integer. -/
structure Numeric.Same (x y : Numeric Num) : Prop where
  string : x.string = y.string
  toBigInt : x.toBigInt = y.toBigInt

theorem decimal_noColon (n : ℕ) : colon ∉ decimal n := by
  intro hmem
  obtain ⟨c, hc, heq⟩ := List.mem_map.mp hmem
  have hdigit := digit_of_mem_decimal hc
  have hcode := congrArg UInt16.toNat heq
  rw [UInt16.toNat_ofNat', Nat.mod_eq_of_lt (by omega)] at hcode
  have hcolon : colon.toNat = 58 := rfl
  omega

theorem bigintString_noColon (n : ℤ) : colon ∉ bigintString n := by
  cases n with
  | ofNat n => exact decimal_noColon n
  | negSucc n =>
    rw [bigintString, List.mem_append, not_or]
    exact ⟨by decide, decimal_noColon _⟩

theorem Numeric.string_noColon (x : Numeric Num) : colon ∉ x.string := by
  cases x with
  | number x => exact JsNumber.string_noColon x
  | bigint n => exact bigintString_noColon n

/-- The integers among the numbers, up to `Number.MAX_SAFE_INTEGER`. -/
instance safeIntegers : JsNumber ℤ where
  ofNat := Int.ofNat
  add := (· + ·)
  lt x y := decide (x < y)
  isFinite _ := true
  string := bigintString
  toBigInt := some
  string_noColon := bigintString_noColon

/-! ## Bitwise operators on numbers, which are of 32 bits -/

/-- `a & b` -/
def bitAnd (a b : ℤ) : ℤ := (BitVec.ofInt 32 a &&& BitVec.ofInt 32 b).toInt

/-- `a >> n` -/
def shiftRight (a : ℤ) (n : ℕ) : ℤ := ((BitVec.ofInt 32 a).sshiftRight n).toInt

/-! ## Strings in JSON and in buffers -/

/-- The lower-case digit of a number below 16. -/
def hexDigit (n : ℕ) : UInt16 := UInt16.ofNat (if n < 10 then 48 + n else 87 + n)

def hexValue (c : UInt16) : Option ℕ :=
  if 48 ≤ c ∧ c ≤ 57 then some (c.toNat - 48)
  else if 97 ≤ c ∧ c ≤ 102 then some (c.toNat - 87)
  else if 65 ≤ c ∧ c ≤ 70 then some (c.toNat - 55)
  else none

/-- `digest("hex")` -/
def hexString (b : Bytes) : JsString := b.flatMap fun x => [hexDigit (x.toNat / 16), hexDigit (x.toNat % 16)]

/-- `Buffer.from(s, "hex")`: it stops at the first pair that is not two hexadecimal digits. -/
def bufferFromHex : JsString → Bytes
  | high :: low :: rest =>
    match hexValue high, hexValue low with
    | some x, some y => UInt8.ofNat (16 * x + y) :: bufferFromHex rest
    | _, _ => []
  | _ => []

theorem hexValue_hexDigit {n : ℕ} (h : n < 16) : hexValue (hexDigit n) = some n := by
  have hall : ∀ m : Fin 16, hexValue (hexDigit m) = some m.val := by decide
  exact hall ⟨n, h⟩

theorem hexString_append (b b' : Bytes) : hexString (b ++ b') = hexString b ++ hexString b' := List.flatMap_append

@[simp] theorem hexString_length (b : Bytes) : (hexString b).length = 2 * b.length := by
  simp [hexString, List.length_flatMap, mul_comm]

theorem hexString_cons (x : UInt8) (b : Bytes) :
    hexString (x :: b) = hexDigit (x.toNat / 16) :: hexDigit (x.toNat % 16) :: hexString b := rfl

theorem hexDigits_toNat (x : UInt8) : x.toNat / 16 < 16 ∧ x.toNat % 16 < 16 := by
  have hlt : x.toNat < 256 := x.toNat_lt
  omega

theorem bufferFromHex_hexString (b : Bytes) : bufferFromHex (hexString b) = b := by
  induction b with
  | nil => rfl
  | cons x b ih =>
    obtain ⟨hhigh, hlow⟩ := hexDigits_toNat x
    have hbyte : UInt8.ofNat (16 * (x.toNat / 16) + x.toNat % 16) = x := by
      rw [Nat.div_add_mod, UInt8.ofNat_toNat]
    rw [hexString_cons, bufferFromHex, hexValue_hexDigit hhigh, hexValue_hexDigit hlow]
    dsimp only
    rw [hbyte, ih]

theorem hexString_injective : Function.Injective hexString := fun b b' h => by
  rw [← bufferFromHex_hexString b, h, bufferFromHex_hexString]

/-- The number that a string of hexadecimal digits stands for. -/
def hexNat (s : JsString) : Option ℕ :=
  s.foldl (fun acc c => acc.bind fun n => (hexValue c).map (16 * n + ·)) (some 0)

theorem hexNat_hexString (b : Bytes) : hexNat (hexString b) = some (natBE b) := by
  suffices h : ∀ n, (hexString b).foldl (fun acc c => acc.bind fun n => (hexValue c).map (16 * n + ·)) (some n) =
      some (b.foldl (fun acc x => acc * 256 + x.toNat) n) from h 0
  induction b with
  | nil => exact fun n => rfl
  | cons x b ih =>
    intro n
    obtain ⟨hhigh, hlow⟩ := hexDigits_toNat x
    have hvalue : 16 * (16 * n + x.toNat / 16) + x.toNat % 16 = n * 256 + x.toNat := by omega
    rw [hexString_cons, List.foldl_cons, List.foldl_cons, hexValue_hexDigit hhigh, hexValue_hexDigit hlow,
      List.foldl_cons, ← hvalue]
    exact ih _

/-- Of either alphabet. -/
def base64Value (c : UInt16) : Option ℕ :=
  let n := c.toNat
  if 65 ≤ n ∧ n ≤ 90 then some (n - 65)
  else if 97 ≤ n ∧ n ≤ 122 then some (n - 71)
  else if 48 ≤ n ∧ n ≤ 57 then some (n + 4)
  else if n = 43 ∨ n = 45 then some 62
  else if n = 47 ∨ n = 95 then some 63
  else none

/-- The bytes that groups of four digits hold, of which the last may be short. -/
def base64Bytes : List ℕ → Bytes
  | a :: b :: c :: d :: rest =>
    [UInt8.ofNat (4 * a + b / 16), UInt8.ofNat (16 * (b % 16) + c / 4), UInt8.ofNat (64 * (c % 4) + d)] ++ base64Bytes rest
  | [a, b, c] => [UInt8.ofNat (4 * a + b / 16), UInt8.ofNat (16 * (b % 16) + c / 4)]
  | [a, b] => [UInt8.ofNat (4 * a + b / 16)]
  | _ => []

/-- `Buffer.from(s, "base64")`: characters outside the alphabets are skipped. -/
def bufferFromBase64 (s : JsString) : Bytes := base64Bytes (s.filterMap base64Value)

def isWhiteSpace (c : UInt16) : Bool :=
  [0x09, 0x0a, 0x0b, 0x0c, 0x0d, 0x20, 0xa0, 0x1680, 0x2028, 0x2029, 0x202f, 0x205f, 0x3000, 0xfeff].contains c ||
    (0x2000 ≤ c && c ≤ 0x200a)

/-- `s.trim()` -/
def trim (s : JsString) : JsString := ((s.dropWhile isWhiteSpace).reverse.dropWhile isWhiteSpace).reverse

/-- `parseInt(s, 16)`, `none` for `NaN`. -/
def parseIntHex (s : JsString) : Option ℤ :=
  let s := s.dropWhile isWhiteSpace
  let negative := s.head? = some 0x2d
  let s := if negative ∨ s.head? = some 0x2b then s.tail else s
  let s := if s.take 2 = js "0x" ∨ s.take 2 = js "0X" then s.drop 2 else s
  let digits := (s.map hexValue).takeWhile (·.isSome)
  if digits = [] then none
  else
    let n : ℕ := digits.foldl (fun acc d => 16 * acc + d.getD 0) 0
    some (if negative then -n else n)

/-- The element that a `Uint8Array` stores for a number, `NaN` included. -/
def toUint8 (n : Option ℤ) : UInt8 := UInt8.ofNat (n.getD 0 % 256).toNat

/-- `hexToBytes` of the worker and of the service. -/
def hexToBytes (hex : JsString) : Bytes :=
  (List.range (hex.length / 2)).map fun i => toUint8 (parseIntHex ((hex.drop (i * 2)).take 2))

theorem parseIntHex_pair {high low : ℕ} (hhigh : high < 16) (hlow : low < 16) :
    parseIntHex [hexDigit high, hexDigit low] = some ((16 * high + low : ℕ) : ℤ) := by
  have hall : ∀ high low : Fin 16, parseIntHex [hexDigit high, hexDigit low] =
      some ((16 * high.val + low.val : ℕ) : ℤ) := by decide +kernel
  exact hall ⟨high, hhigh⟩ ⟨low, hlow⟩

theorem toUint8_natCast (n : ℕ) : toUint8 (some (n : ℤ)) = UInt8.ofNat n := by
  refine UInt8.toNat_inj.mp ?_
  have hmod : ((n : ℤ) % 256).toNat = n % 256 := by omega
  rw [toUint8, Option.getD_some, hmod, UInt8.toNat_ofNat', UInt8.toNat_ofNat', Nat.mod_mod]

theorem hexToBytes_cons (high low : UInt16) (rest : JsString) :
    hexToBytes (high :: low :: rest) = toUint8 (parseIntHex [high, low]) :: hexToBytes rest := by
  have hlength : (high :: low :: rest).length / 2 = rest.length / 2 + 1 := by
    rw [List.length_cons, List.length_cons]
    omega
  rw [hexToBytes, hlength, List.range_succ_eq_map, List.map_cons, List.map_map]
  refine congrArg (_ :: ·) (List.map_congr_left fun i _ => ?_)
  have hskip : (i + 1) * 2 = i * 2 + 2 := by omega
  show toUint8 (parseIntHex (((high :: low :: rest).drop ((i + 1) * 2)).take 2)) = _
  rw [hskip, List.drop_succ_cons, List.drop_succ_cons]

theorem hexToBytes_hexString (b : Bytes) : hexToBytes (hexString b) = b := by
  induction b with
  | nil => rfl
  | cons x b ih =>
    obtain ⟨hhigh, hlow⟩ := hexDigits_toNat x
    rw [hexString_cons, hexToBytes_cons, parseIntHex_pair hhigh hlow, toUint8_natCast, Nat.div_add_mod,
      UInt8.ofNat_toNat, ih]

def unicodeEscape (c : UInt16) : JsString :=
  js "\\u" ++ [hexDigit (c.toNat / 4096), hexDigit (c.toNat / 256 % 16), hexDigit (c.toNat / 16 % 16),
    hexDigit (c.toNat % 16)]

/-- The characters of a JSON string: lone surrogates are escaped like control characters. `paired` says
that the first unit ends a surrogate pair. -/
def jsonEscape (paired : Bool) : JsString → JsString
  | [] => []
  | c :: rest =>
    if paired then c :: jsonEscape false rest
    else if c = 0x22 then js "\\\"" ++ jsonEscape false rest
    else if c = 0x5c then js "\\\\" ++ jsonEscape false rest
    else if c = 0x08 then js "\\b" ++ jsonEscape false rest
    else if c = 0x0c then js "\\f" ++ jsonEscape false rest
    else if c = 0x0a then js "\\n" ++ jsonEscape false rest
    else if c = 0x0d then js "\\r" ++ jsonEscape false rest
    else if c = 0x09 then js "\\t" ++ jsonEscape false rest
    else if c < 0x20 then unicodeEscape c ++ jsonEscape false rest
    else if 0xd800 ≤ c ∧ c ≤ 0xdbff ∧ ∃ d ∈ rest.head?, 0xdc00 ≤ d ∧ d ≤ 0xdfff then
      c :: jsonEscape true rest
    else if 0xd800 ≤ c ∧ c ≤ 0xdfff then unicodeEscape c ++ jsonEscape false rest
    else c :: jsonEscape false rest

/-- `JSON.stringify` of a string. -/
def jsonString (s : JsString) : JsString := js "\"" ++ jsonEscape false s ++ js "\""

/-- `JSON.stringify` of a number. -/
def jsonNumber (x : Num) : JsString := if JsNumber.isFinite x then JsNumber.string x else js "null"

/-- `JSON.stringify` of an object, its values rendered. -/
def jsonObject (fields : List (JsString × JsString)) : JsString :=
  0x7b :: ((js ",").intercalate (fields.map fun f => jsonString f.1 ++ colon :: f.2) ++ [0x7d])

end ChainGuard.OffChain
