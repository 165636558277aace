import ChainGuard.Evm.Abi
import ChainGuard.OffChain.Js

/-! The calldata that the client builds for sponsored operations. -/
namespace ChainGuard.OffChain.UserOperation
open Evm
set_option autoImplicit false

/-! ## The encoder -/

/-- What the ABI coder relies on: a string in UTF-8, of three bytes at most for each code unit, unless it has no
encoding. -/
structure TextEncoder where
  toUtf8Bytes : JsString → Option Bytes
  length_le : ∀ text bytes, toUtf8Bytes text = some bytes → bytes.length ≤ 3 * text.length

def MAX_SAFE_INTEGER : ℕ := 2 ^ 53 - 1

/-- A hexadecimal string of whole bytes, after `0x`. -/
def isBytesLike (hex : JsString) : Bool :=
  decide (hex.take 2 = js "0x" ∧ hex.length % 2 = 0 ∧ ∀ c ∈ hex.drop 2, (hexValue c).isSome = true)

def getBytes (hex : JsString) : Option Bytes := if isBytesLike hex then some (bufferFromHex (hex.drop 2)) else none

def hexlify (b : Bytes) : JsString := js "0x" ++ hexString b

/-- An argument, with the type that the fragment gives it. A number is a safe integer, a `bigint` a word. -/
inductive Argument
  | address (a : Address)
  | number (n : ℕ)
  | bigint (n : ℕ)
  | string (text : JsString)
  | bytes (hex : JsString)

def encodeArgument (encoder : TextEncoder) : Argument → Option Abi.Value
  | .address a => some (.word a.toNat)
  | .number n => if n ≤ MAX_SAFE_INTEGER then some (.word n) else none
  | .bigint n => if n < 2 ^ 256 then some (.word n) else none
  | .string text => (encoder.toUtf8Bytes text).map .bytes
  | .bytes hex => (getBytes hex).map .bytes

/-- The functions of `spooVaultInterface` and `smartAccountInterface`. -/
inductive FunctionFragment
  | acceptGuardianInvite
  | approveAccess
  | approveAccessEncrypted
  | execute
  | executeCall

/-- The first bytes of the hash of the signature. -/
def FunctionFragment.selector : FunctionFragment → ℕ
  | .acceptGuardianInvite => 0x0f576ff1
  | .approveAccess => 0x568497bb
  | .approveAccessEncrypted => 0xc050099e
  | .execute => 0xb61d27f6
  | .executeCall => 0x9e5d4c49

/-- `none` where an argument is refused. -/
def encodeFunctionData (encoder : TextEncoder) (fragment : FunctionFragment) (args : List Argument) : Option JsString := do
  let values ← args.mapM (encodeArgument encoder)
  pure (hexlify (bytesBE 4 fragment.selector ++ Abi.encode values))

/-! ## The builders -/

section Builders
variable (encoder : TextEncoder)

def buildApproveAccessCallData (requestId : ℕ) (encryptedShare : Option JsString) : Option JsString :=
  match encryptedShare with
  | some share =>
    if trim share ≠ [] then encodeFunctionData encoder .approveAccessEncrypted [.number requestId, .string share]
    else encodeFunctionData encoder .approveAccess [.number requestId]
  | none => encodeFunctionData encoder .approveAccess [.number requestId]

def buildAcceptGuardianInviteCallData (vaultId : ℕ) : Option JsString :=
  encodeFunctionData encoder .acceptGuardianInvite [.number vaultId]

def buildAccountExecuteCallData (target : Address) (value : ℕ) (innerCallData : JsString) : Option JsString :=
  encodeFunctionData encoder .execute [.address target, .bigint value, .bytes innerCallData]

end Builders

/-! ## What the builders build -/

theorem hexString_digits (b : Bytes) : ∀ c ∈ hexString b, (hexValue c).isSome = true := by
  intro c hc
  obtain ⟨x, _, hx⟩ := List.mem_flatMap.mp hc
  obtain ⟨hhigh, hlow⟩ := hexDigits_toNat x
  rcases List.mem_cons.mp hx with rfl | hx
  · rw [hexValue_hexDigit hhigh]; rfl
  · rw [List.mem_singleton.mp hx, hexValue_hexDigit hlow]; rfl

@[simp] theorem getBytes_hexlify (b : Bytes) : getBytes (hexlify b) = some b := by
  have hdrop : (hexlify b).drop 2 = hexString b := rfl
  have hlike : isBytesLike (hexlify b) = true := by
    apply decide_eq_true
    refine ⟨rfl, ?_, ?_⟩
    · rw [hexlify, List.length_append, hexString_length]
      change (2 + 2 * b.length) % 2 = 0
      omega
    · rw [hdrop]
      exact hexString_digits b
  rw [getBytes, if_pos hlike, hdrop, bufferFromHex_hexString]

variable {encoder : TextEncoder}

theorem encodeFunctionData_number (fragment : FunctionFragment) {n : ℕ} (hn : n ≤ MAX_SAFE_INTEGER)
    (args : List Argument) : encodeFunctionData encoder fragment (.number n :: args) =
      (args.mapM (encodeArgument encoder)).map fun values =>
        hexlify (bytesBE 4 fragment.selector ++ Abi.encode (.word n :: values)) := by
  simp only [encodeFunctionData, List.mapM_cons, encodeArgument, if_pos hn]
  cases args.mapM (encodeArgument encoder) <;> rfl

theorem buildAccountExecuteCallData_hexlify (target : Address) (inner : Bytes) :
    buildAccountExecuteCallData encoder target 0 (hexlify inner) = some (hexlify
      (bytesBE 4 FunctionFragment.execute.selector ++ Abi.encode [.word target.toNat, .word 0, .bytes inner])) := by
  simp [buildAccountExecuteCallData, encodeFunctionData, encodeArgument]

end ChainGuard.OffChain.UserOperation
