import ChainGuard.Evm.Abi
import Mathlib.Tactic.NormNum

/-! `VDFVerifier`: Wesolowski's proof and the rounds of Pietrzak's over a modulus of one word. -/
namespace ChainGuard.Evm.VDFVerifier
open Guarded
set_option autoImplicit false

def CHALLENGE_BITS : ℕ := 128

/-- The custom errors; a failed `staticcall` reverts without data. -/
inductive VdfError
  | InvalidModulus
  | InvalidProof
  | InvalidDelay
  | ChallengeMismatch
  | Reverted
  deriving DecidableEq, Repr

abbrev Result (α : Type) := Except VdfError α

/-- What the verifier takes from its chain. -/
structure Chain where
  keccak256 : Bytes → Bytes32
  /-- The returned data of `staticcall` to `0x05`, unless the call fails. -/
  modexp : Bytes → Option Bytes

/-- The precompile of EIP-198 on three words. -/
def Chain.ModexpCorrect (chain : Chain) : Prop :=
  ∀ base exponent modulus, base < 2 ^ 256 → exponent < 2 ^ 256 → modulus < 2 ^ 256 → modulus ≠ 0 →
    chain.modexp (word 32 ++ word 32 ++ word 32 ++ word base ++ word exponent ++ word modulus) =
      some (word (base ^ exponent % modulus))

def mulmod (a b m : ℕ) : ℕ := a * b % m

section Calls
variable (chain : Chain)

/-- `modExp`: the output is copied over the first word of the input. -/
def modExp (base exponent modulus : ℕ) : Result ℕ := do
  revertIf (modulus = 0) .InvalidModulus
  match chain.modexp (word 32 ++ word 32 ++ word 32 ++ word base ++ word exponent ++ word modulus) with
  | none => .error .Reverted
  | some output => pure (natBE ((output ++ (word 32).drop output.length).take 32))

/-! ## Challenges -/

/-- `& mask` with the given number of bits, at least 3, and odd. -/
def oddChallenge (bits : ℕ) (digest : Bytes32) : ℕ :=
  let masked := digest.toNat % 2 ^ bits
  let challenge := if masked < 3 then 3 else masked
  if challenge % 2 = 0 then challenge + 1 else challenge

def fiatShamir (x y T N : ℕ) : ℕ :=
  oddChallenge CHALLENGE_BITS (chain.keccak256 (word x ++ word y ++ bytesBE 8 T ++ word N))

/-- The low 128 bits, or 1 when all of them are 0. -/
def roundChallenge (digest : Bytes32) : ℕ :=
  let r := digest.toNat % 2 ^ 128
  if r = 0 then 1 else r

def pietrzakChallenge (x y mu T N : ℕ) : ℕ :=
  roundChallenge (chain.keccak256 (word x ++ word y ++ word mu ++ bytesBE 8 T ++ word N))

/-! ## Wesolowski -/

def inputsOk (x y pi N T l : ℕ) : Bool :=
  if N < 3 then false
  else if T = 0 then false
  else if x = 0 ∨ y = 0 ∨ pi = 0 then false
  else if N ≤ x ∨ N ≤ y ∨ N ≤ pi then false
  else if l < 3 ∨ l % 2 = 0 then false
  else true

/-- `_check` -/
def check (x y pi N T l : ℕ) : Result Bool := do
  let r ← modExp chain 2 T l
  let left := mulmod (← modExp chain pi l N) (← modExp chain x r N) N
  pure (left == y)

def verifyWesolowskiView (x y pi N T l : ℕ) : Result Bool :=
  if inputsOk x y pi N T l = false then pure false
  else if fiatShamir chain x y T N ≠ l then pure false
  else check chain x y pi N T l

/-! ## Pietrzak -/

/-- `(newX, newY, newT)` -/
def verifyPietrzakRound (x y mu N T : ℕ) : Result (ℕ × ℕ × ℕ) := do
  revertIf (N < 3) .InvalidModulus
  revertIf (T < 2 ∨ T &&& (T - 1) ≠ 0) .InvalidDelay
  revertIf (x = 0 ∨ y = 0 ∨ mu = 0 ∨ N ≤ x ∨ N ≤ y ∨ N ≤ mu) .InvalidProof
  let r := pietrzakChallenge chain x y mu T N
  let newX := mulmod (← modExp chain x r N) mu N
  let newY := mulmod (← modExp chain mu r N) y N
  pure (newX, newY, T >>> 1)

/-- The rounds of a relayer, one call for each midpoint. -/
def verifyPietrzakRounds (N : ℕ) : List ℕ → ℕ × ℕ × ℕ → Result (ℕ × ℕ × ℕ)
  | [], state => pure state
  | mu :: mus, (x, y, T) => do
    let state ← verifyPietrzakRound chain x y mu N T
    verifyPietrzakRounds N mus state

end Calls

/-! ## What they compute -/

variable {chain : Chain}

theorem modExp_eq (hmodexp : chain.ModexpCorrect) {base exponent modulus : ℕ} (hbase : base < 2 ^ 256)
    (hexponent : exponent < 2 ^ 256) (hmodulus : modulus < 2 ^ 256) (hne : modulus ≠ 0) :
    modExp chain base exponent modulus = .ok (base ^ exponent % modulus) := by
  have hword : base ^ exponent % modulus < 2 ^ 256 := (Nat.mod_lt _ (Nat.pos_of_ne_zero hne)).trans hmodulus
  have houtput : natBE (((word (base ^ exponent % modulus)) ++
      (word 32).drop (word (base ^ exponent % modulus)).length).take 32) = base ^ exponent % modulus := by
    rw [List.take_left' (word_length _), natBE_word, Nat.mod_eq_of_lt hword]
  simp only [modExp, revertIf_bind, hmodexp _ _ _ hbase hexponent hmodulus hne, pure_ok]
  exact ⟨hne, houtput⟩

theorem oddChallenge_odd (bits : ℕ) (digest : Bytes32) : oddChallenge bits digest % 2 = 1 := by
  unfold oddChallenge
  generalize digest.toNat % 2 ^ bits = masked
  dsimp only
  split_ifs
  all_goals omega

theorem oddChallenge_ge (bits : ℕ) (digest : Bytes32) : 3 ≤ oddChallenge bits digest := by
  unfold oddChallenge
  generalize digest.toNat % 2 ^ bits = masked
  dsimp only
  split_ifs
  all_goals omega

theorem oddChallenge_lt (digest : Bytes32) : oddChallenge CHALLENGE_BITS digest < 2 ^ 256 := by
  have hmasked : digest.toNat % 2 ^ CHALLENGE_BITS < 2 ^ 128 := Nat.mod_lt _ (by decide)
  unfold oddChallenge
  generalize digest.toNat % 2 ^ CHALLENGE_BITS = masked at hmasked ⊢
  dsimp only
  split_ifs
  all_goals omega

theorem roundChallenge_lt (digest : Bytes32) : roundChallenge digest < 2 ^ 256 := by
  have hmasked : digest.toNat % 2 ^ 128 < 2 ^ 128 := Nat.mod_lt _ (by decide)
  unfold roundChallenge
  dsimp only
  split
  · omega
  · omega

theorem inputsOk_iff (x y pi N T l : ℕ) : inputsOk x y pi N T l = true ↔
    3 ≤ N ∧ T ≠ 0 ∧ (x ≠ 0 ∧ y ≠ 0 ∧ pi ≠ 0) ∧ (x < N ∧ y < N ∧ pi < N) ∧ 3 ≤ l ∧ l % 2 = 1 := by
  unfold inputsOk
  split_ifs
  all_goals simp only [false_iff, true_iff]; omega

/-! ## A concrete chain -/

/-- A hash with one value, and the precompile. -/
def localChain : Chain where
  keccak256 := fun _ => 0
  modexp := fun data =>
    some (word (Abi.wordAt data 96 ^ Abi.wordAt data 128 % Abi.wordAt data 160))

theorem localChain_correct : localChain.ModexpCorrect := by
  intro base exponent modulus hbase hexponent hmodulus _
  have hfirst := Abi.wordAt_append (word 32 ++ word 32 ++ word 32) (word exponent ++ word modulus) base
  have hsecond := Abi.wordAt_append (word 32 ++ word 32 ++ word 32 ++ word base) (word modulus) exponent
  have hthird := Abi.wordAt_append (word 32 ++ word 32 ++ word 32 ++ word base ++ word exponent) [] modulus
  simp only [List.length_append, word_length, List.append_assoc, List.append_nil] at hfirst hsecond hthird
  simp only [localChain, List.append_assoc]
  rw [hfirst, hsecond, hthird, Nat.mod_eq_of_lt hbase, Nat.mod_eq_of_lt hexponent, Nat.mod_eq_of_lt hmodulus]

end ChainGuard.Evm.VDFVerifier
