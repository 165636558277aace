import ChainGuard.Library.Loops
import ChainGuard.OffChain.Vdf

/-! `secrets.service`: the splitting of a secret into shares with Feldman's commitments, their verification and the
reconstruction, which also takes shares of the older kind over bytes. Numbers are integers here, `none` for `NaN`. -/
namespace ChainGuard.OffChain.Secrets
open Loops
set_option autoImplicit false

inductive Thrown
  | error (message : JsString)
  /-- `BigInt` of a string that is not an integer literal. -/
  | syntaxError
  deriving DecidableEq

abbrev Result (α : Type) := Except Thrown α

def throwIf (condition : Prop) [Decidable condition] (message : JsString) : Result Unit :=
  if condition then .error (.error message) else .ok ()

/-! ## Strings and numbers -/

def dash : UInt16 := 0x2d

/-- The number of digits in a radix of at most 16. -/
def digitsValue (radix : ℕ) (digits : JsString) : Option ℕ :=
  if digits = [] then none
  else digits.foldl (fun acc c => do
    let n ← acc
    let d ← hexValue c
    if d < radix then some (radix * n + d) else none) (some 0)

/-- `BigInt(s)` -/
def stringToBigInt (s : JsString) : Option ℤ :=
  let s := trim s
  if s = [] then some 0
  else if s.take 2 = js "0x" ∨ s.take 2 = js "0X" then (digitsValue 16 (s.drop 2)).map Int.ofNat
  else if s.take 2 = js "0o" ∨ s.take 2 = js "0O" then (digitsValue 8 (s.drop 2)).map Int.ofNat
  else if s.take 2 = js "0b" ∨ s.take 2 = js "0B" then (digitsValue 2 (s.drop 2)).map Int.ofNat
  else if s.head? = some dash then (digitsValue 10 s.tail).map fun n => -Int.ofNat n
  else if s.head? = some 0x2b then (digitsValue 10 s.tail).map Int.ofNat
  else (digitsValue 10 s).map Int.ofNat

def bigInt (s : JsString) : Result ℤ :=
  match stringToBigInt s with
  | some n => .ok n
  | none => .error .syntaxError

/-- `parseInt(s, 10)` -/
def parseIntDecimal (s : JsString) : Option ℤ :=
  let s := s.dropWhile isWhiteSpace
  let negative := s.head? = some dash
  let s := if negative ∨ s.head? = some 0x2b then s.tail else s
  let digits := s.takeWhile fun c => decide (48 ≤ c ∧ c ≤ 57)
  (digitsValue 10 digits).map fun n => if negative then -Int.ofNat n else Int.ofNat n

/-- `n.toString(16)` -/
def toString16 : ℤ → JsString
  | .ofNat n => (Vdf.hexDigits n).map hexDigit
  | .negSucc n => dash :: (Vdf.hexDigits (n + 1)).map hexDigit

/-- `s.padStart(width, "0")` -/
def padStart (s : JsString) (width : Option ℤ) : JsString :=
  List.replicate ((width.getD 0).toNat - s.length) (hexDigit 0) ++ s

/-! ## Legacy shares -/

def GF_POLYNOMIAL : ℤ := 0x1d

/-- `a ^ b` -/
def bitXor (a b : ℤ) : ℤ := (BitVec.ofInt 32 a ^^^ BitVec.ofInt 32 b).toInt

structure GFTables where
  logTable : List UInt8
  expTable : List UInt8

/-- The loop over the powers, with the power it has come to. -/
def initGFTables : GFTables × ℤ :=
  upTo 255
    (fun i (t, x) =>
      let temp := bitAnd (x * 2) 0xff
      ({ expTable := (t.expTable.set i (toUint8 (some x))).set (i + 255) (toUint8 (some x))
         logTable := t.logTable.set x.toNat (UInt8.ofNat i) },
        if bitAnd x 0x80 = 0 then temp else bitXor temp GF_POLYNOMIAL))
    ({ expTable := List.replicate 512 0, logTable := List.replicate 256 0 }, 1)

def logTable (a : ℤ) : ℕ := (initGFTables.1.logTable.getD a.toNat 0).toNat

def expTable (i : ℕ) : ℤ := (initGFTables.1.expTable.getD i 0).toNat

def gfMultiply (a b : ℤ) : ℤ :=
  let tempA := bitAnd a 0xff
  let tempB := bitAnd b 0xff
  if tempA = 0 ∨ tempB = 0 then 0 else expTable (logTable tempA + logTable tempB)

def gfInverse (a : ℤ) : Result ℤ :=
  let val := bitAnd a 0xff
  if val = 0 then .error (.error (js "GF(256) division by zero")) else .ok (expTable (255 - logTable val))

/-- The weight of the `i`-th share. -/
def byteLagrange (shares : List (ℤ × ℤ)) (i : ℕ) : Result ℤ :=
  tryUpTo shares.length (fun j lagrange =>
    if i = j then .ok lagrange
    else do
      let xj := (shares.getD j (0, 0)).1
      let denominator := bitXor xj (shares.getD i (0, 0)).1
      return gfMultiply lagrange (gfMultiply xj (← gfInverse denominator))) 1

def reconstructByte (shares : List (ℤ × ℤ)) : Result ℤ :=
  tryUpTo shares.length (fun i secret => do
    let lagrange ← byteLagrange shares i
    return bitXor secret (gfMultiply (shares.getD i (0, 0)).2 lagrange)) 0

def parseLegacy (s : JsString) : Result (ℤ × Bytes) :=
  match s.splitOn dash with
  | [point, hex] =>
    match parseIntDecimal point with
    | none => .error (.error (js "Invalid x-coordinate in share: " ++ s))
    | some x =>
      if x < 1 then .error (.error (js "Invalid x-coordinate in share: " ++ s)) else .ok (x, hexToBytes hex)
  | _ => .error (.error (js "Invalid share format: " ++ s))

def reconstructLegacy (shareStrings : List JsString) : Result JsString := do
  let parsedShares ← shareStrings.mapM parseLegacy
  let numBytes := (parsedShares.headD (0, [])).2.length
  throwIf (∃ s ∈ parsedShares, s.2.length ≠ numBytes) (js "All shares must have the same length")
  let reconstructedBytes ← (List.range numBytes).mapM fun byteIndex => do
    let byte ← reconstructByte (parsedShares.map fun s => (s.1, ((s.2.getD byteIndex 0).toNat : ℤ)))
    return toUint8 (some byte)
  return hexString reconstructedBytes

/-! ## The group -/

def VSS_Q : ℕ := 115792089237316195423570985008687907853269984665640564039457584007913129658411

def VSS_P : ℕ := 231584178474632390847141970017375815706539969331281128078915168015826259316823

def VSS_G : ℤ := 4

def modAdd (a b m : ℤ) : ℤ := (a + b).tmod m

def modSub (a b m : ℤ) : ℤ := (a - b + m).tmod m

def modMul (a b m : ℤ) : ℤ := (a * b).tmod m

def modPow (base exp m : ℤ) : Result ℤ :=
  BinaryPower.loop (fun res b => .ok ((res * b).tmod m)) (fun b => .ok ((b * b).tmod m)) (exp.toNat.log2 + 1) 1
    (base.tmod m) exp.toNat

def modInverse (a m : ℤ) : Result ℤ :=
  if a.tmod m = 0 then .error (.error (js "Division by zero in modular inverse")) else modPow a (m - 2) m

/-! ## Splitting -/

/-- 32 random bytes as a number of the field. -/
def randomCoefficient (bytes : ℕ → UInt8) : Result ℤ := do
  let hex := (List.range 32).flatMap fun j => padStart (toString16 (bytes j).toNat) (some 2)
  return (← bigInt (js "0x" ++ hex)).tmod VSS_Q

/-- The value at `x`, with the power that the next coefficient would go with. -/
def evaluate (coefficients : List ℤ) (x : ℤ) : ℤ × ℤ :=
  coefficients.foldl (fun (y, xPower) c => (modAdd y (modMul c xPower VSS_Q) VSS_Q, modMul xPower x VSS_Q)) (0, 1)

def shareString (x : ℕ) (lenHex hexVal : JsString) : JsString := decimal x ++ dash :: (js "vss" ++ (lenHex ++ hexVal))

def commitment (coefficient : ℤ) : Result JsString := do
  return padStart (toString16 (← modPow VSS_G coefficient VSS_P)) (some 66)

def cleanHex (secretHex : JsString) : JsString := if secretHex.take 2 = js "0x" then secretHex.drop 2 else secretHex

/-- The draws are numbered; each is of as many bytes as are read of it. -/
def splitSecretVSS (random : ℕ → ℕ → UInt8) (secretHex : JsString) (n k : ℕ) :
    Result (List JsString × List JsString) := do
  throwIf (n < k) (js "Threshold cannot exceed total shares")
  throwIf (k < 1) (js "Threshold must be at least 1")
  let cleanHex := cleanHex secretHex
  throwIf (cleanHex.length % 2 ≠ 0) (js "Secret hex string must have an even length")
  let secretBig ← bigInt (js "0x" ++ cleanHex)
  throwIf (VSS_Q ≤ secretBig) (js "Secret key is too large for the VSS prime field")
  let coefficients := secretBig :: (← (List.range (k - 1)).mapM fun i => randomCoefficient (random i))
  let lenHex := padStart (toString16 cleanHex.length) (some 2)
  let shares := (List.range n).map fun i =>
    let y := (evaluate coefficients ((i + 1 : ℕ) : ℤ)).1
    shareString (i + 1) lenHex (padStart (toString16 y) (some 64))
  let commitments ← coefficients.mapM commitment
  return (shares, commitments)

/-! ## Verification -/

/-- The product of the commitments, each to the power of its power of `x`. -/
def committedPower (commitments : List JsString) (x : ℤ) : Result ℤ :=
  tryUpTo commitments.length (fun j rhs => do
    let cj ← bigInt (js "0x" ++ commitments.getD j [])
    let xPower ← modPow x j VSS_Q
    let term ← modPow cj xPower VSS_P
    return modMul rhs term VSS_P) 1

/-- The coordinates of a share that can be verified. -/
def parseShare (shareString : JsString) : Result (Option (ℤ × ℤ)) :=
  match shareString.splitOn dash with
  | [point, hex] => do
    let x ← bigInt point
    if hex.take 3 ≠ js "vss" then return none
    let y ← bigInt (js "0x" ++ hex.drop 5)
    return some (x, y)
  | _ => return none

/-- The body of `verifyShare`. -/
def tryVerifyShare (shareString : JsString) (commitments : List JsString) : Result Bool := do
  match ← parseShare shareString with
  | none => return false
  | some (x, y) =>
    let lhs ← modPow VSS_G y VSS_P
    let rhs ← committedPower commitments x
    return lhs == rhs

def verifyShare (shareString : JsString) (commitments : List JsString) : Bool :=
  match tryVerifyShare shareString commitments with
  | .ok valid => valid
  | .error _ => false

/-! ## Reconstruction -/

/-- The coordinates of a share, and the length that it states for the secret, if it states one. -/
def parseForReconstruction (s : JsString) (originalLen : Option ℤ) : Result ((ℤ × ℤ) × Option ℤ) :=
  match s.splitOn dash with
  | [point, hex] => do
    let x ← bigInt point
    if hex.take 3 = js "vss" then
      let y ← bigInt (js "0x" ++ hex.drop 5)
      return ((x, y), parseIntHex ((hex.drop 3).take 2))
    else
      let y ← bigInt (js "0x" ++ hex)
      return ((x, y), originalLen)
  | _ => .error (.error (js "Invalid share format: " ++ s))

/-- The shares one after another; the length is the last one stated. -/
def parseShares : List JsString → Option ℤ → Result (List (ℤ × ℤ) × Option ℤ)
  | [], originalLen => .ok ([], originalLen)
  | s :: rest, originalLen => do
    let (share, originalLen) ← parseForReconstruction s originalLen
    let (shares, originalLen) ← parseShares rest originalLen
    return (share :: shares, originalLen)

/-- The weight of the `i`-th share. -/
def lagrange (xs : List ℤ) (i : ℕ) : Result ℤ :=
  tryUpTo xs.length (fun j lagrange =>
    if i = j then .ok lagrange
    else do
      let numerator := xs.getD j 0
      let denominator := modSub (xs.getD j 0) (xs.getD i 0) VSS_Q
      let term := modMul numerator (← modInverse denominator VSS_Q) VSS_Q
      return modMul lagrange term VSS_Q) 1

def interpolateAtZero (shares : List (ℤ × ℤ)) : Result ℤ :=
  tryUpTo shares.length (fun i secret => do
    let lagrange ← lagrange (shares.map Prod.fst) i
    return modAdd secret (modMul (shares.getD i (0, 0)).2 lagrange VSS_Q) VSS_Q) 0

def reconstructSecret (shareStrings : List JsString) : Result JsString :=
  match shareStrings with
  | [] => .error (.error (js "No shares provided for reconstruction"))
  | first :: _ =>
    -- what follows the first dash of the first share tells its kind
    let isVSS := ((first.splitOn dash).getD 1 []).take 3 = js "vss"
    if ¬ isVSS then reconstructLegacy shareStrings
    else do
      let (parsedShares, originalLen) ← parseShares shareStrings (some 64)
      let secret ← interpolateAtZero parsedShares
      return padStart (toString16 secret) originalLen

end ChainGuard.OffChain.Secrets
