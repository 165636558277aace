import ChainGuard.Library.Bn254
import ChainGuard.Evm.Abi

/-! The precompiled contracts of BN254, addition, multiplication and the pairing check, and what the two
proposals that introduced them promise. -/
namespace ChainGuard.Evm
open Bn254
set_option autoImplicit false

/-- The returned data of `staticcall` to `0x06`, `0x07` and `0x08`, unless the call fails. -/
structure Precompiles where
  ecAdd : Bytes → Option Bytes
  ecMul : Bytes → Option Bytes
  ecPairing : Bytes → Option Bytes

/-- The second group and the pairing into a group whose elements have the order of the first. -/
structure Pairing (G2 GT : Type) [CommGroup GT] where
  /-- The two coordinates of a point, each as its two parts. -/
  coords : G2 → (ℕ × ℕ) × (ℕ × ℕ)
  e : G1 → G2 → GT
  order : ∀ g : GT, g ^ groupOrder = 1

variable {G2 GT : Type} [CommGroup GT]

def wordsG1 (w : ℕ × ℕ) : List ℕ := [w.1, w.2]

/-- A point as four words, the imaginary parts first. -/
def wordsG2 (w : (ℕ × ℕ) × (ℕ × ℕ)) : List ℕ := [w.1.2, w.1.1, w.2.2, w.2.1]

namespace Pairing
variable (pairing : Pairing G2 GT)

def words (q : (ℕ × ℕ) × G2) : List ℕ := wordsG1 q.1 ++ wordsG2 (pairing.coords q.2)

def input (pairs : List (G1 × G2)) : List ℕ :=
  pairs.flatMap fun q => pairing.words (Bn254.coords q.1, q.2)

def product (pairs : List (G1 × G2)) : GT := (pairs.map fun q => pairing.e q.1 q.2).prod

end Pairing

/-- The precompiles compute in the group of points, and the check tells whether the product is one; it
fails where two words encode no point. -/
structure Precompiles.Correct (pc : Precompiles) (pairing : Pairing G2 GT) : Prop where
  ecAdd : ∀ Q R : G1, pc.ecAdd (abiEncode (wordsG1 (coords Q) ++ wordsG1 (coords R))) =
    some (abiEncode (wordsG1 (coords (Q + R))))
  ecMul : ∀ (Q : G1) (n : ℕ), n < 2 ^ 256 →
    pc.ecMul (abiEncode (wordsG1 (coords Q) ++ [n])) = some (abiEncode (wordsG1 (coords (n • Q))))
  pairing_one : ∀ pairs, pairing.product pairs = 1 →
    pc.ecPairing (abiEncode (pairing.input pairs)) = some (word 1)
  pairing_ne : ∀ pairs, pairing.product pairs ≠ 1 →
    pc.ecPairing (abiEncode (pairing.input pairs)) = some (word 0)
  pairing_invalid : ∀ (before after : List (G1 × G2)) (w : ℕ × ℕ) (Q : G2), w.1 < 2 ^ 256 →
    w.2 < 2 ^ 256 → point? w = none →
      pc.ecPairing (abiEncode (pairing.input before ++ pairing.words (w, Q) ++ pairing.input after)) = none

def Precompiles.RejectsInvalid (pc : Precompiles) : Prop :=
  ∀ (w : ℕ × ℕ) (n : ℕ), w.1 < 2 ^ 256 → w.2 < 2 ^ 256 → point? w = none →
    pc.ecMul (abiEncode (wordsG1 w ++ [n])) = none

/-! ## Reading words back -/

theorem abiEncode_append (xs ys : List ℕ) : abiEncode (xs ++ ys) = abiEncode xs ++ abiEncode ys :=
  List.flatMap_append

@[simp] theorem abiEncode_length (xs : List ℕ) : (abiEncode xs).length = 32 * xs.length := by
  induction xs with
  | nil => rfl
  | cons x xs ih =>
    rw [abiEncode, List.flatMap_cons, List.length_append, word_length, ← abiEncode, ih, List.length_cons]
    omega

theorem wordAt_abiEncode (before after : List ℕ) {n : ℕ} (h : n < 2 ^ 256) :
    Abi.wordAt (abiEncode (before ++ n :: after)) (32 * before.length) = n := by
  have hdata : abiEncode (before ++ n :: after) = abiEncode before ++ word n ++ abiEncode after := by
    rw [abiEncode_append, List.append_assoc]
    rfl
  rw [hdata, ← abiEncode_length before, Abi.wordAt_append, Nat.mod_eq_of_lt h]

theorem fieldModulus_lt : fieldModulus < 2 ^ 256 := by
  unfold fieldModulus
  norm_num

theorem coords_word (Q : G1) : (coords Q).1 < 2 ^ 256 ∧ (coords Q).2 < 2 ^ 256 :=
  ⟨(coords_lt Q).1.trans fieldModulus_lt, (coords_lt Q).2.trans fieldModulus_lt⟩

/-! ## Precompiles for second points at infinity -/

def pointAt (data : Bytes) (offset : ℕ) : Option G1 :=
  point? (Abi.wordAt data offset, Abi.wordAt data (offset + 32))

def infinitePairs : ℕ → Bytes → Bool
  | 0, _ => true
  | n + 1, data => (pointAt data 0).isSome && decide ((data.drop 64).take 128 = List.replicate 128 0) &&
    infinitePairs n (data.drop 192)

/-- The first group is computed in full; the check is that of pairs which all are trivial. -/
def localPrecompiles : Precompiles where
  ecAdd := fun data =>
    match pointAt data 0, pointAt data 64 with
    | some Q, some R => some (abiEncode (wordsG1 (coords (Q + R))))
    | _, _ => none
  ecMul := fun data =>
    match pointAt data 0 with
    | some Q => some (abiEncode (wordsG1 (coords (Abi.wordAt data 64 • Q))))
    | none => none
  ecPairing := fun data => if infinitePairs (data.length / 192) data then some (word 1) else none

/-- The pairing restricted to the second point at infinity. -/
def infinitePairing : Pairing Unit Unit where
  coords := fun _ => ((0, 0), (0, 0))
  e := fun _ _ => 1
  order := fun _ => rfl

theorem pointAt_abiEncode (before after : List ℕ) {w : ℕ × ℕ} (hx : w.1 < 2 ^ 256) (hy : w.2 < 2 ^ 256) :
    pointAt (abiEncode (before ++ wordsG1 w ++ after)) (32 * before.length) = point? w := by
  have hfirst : Abi.wordAt (abiEncode (before ++ wordsG1 w ++ after)) (32 * before.length) = w.1 := by
    rw [List.append_assoc]
    exact wordAt_abiEncode before _ hx
  have hsecond : Abi.wordAt (abiEncode (before ++ wordsG1 w ++ after)) (32 * before.length + 32) = w.2 := by
    have hread := wordAt_abiEncode (before ++ [w.1]) after hy
    rw [List.length_append, List.length_singleton, Nat.mul_add, Nat.mul_one] at hread
    simpa [wordsG1] using hread
  rw [pointAt, hfirst, hsecond]

theorem infinitePairs_words {n : ℕ} {w : ℕ × ℕ} (rest : List ℕ) (hx : w.1 < 2 ^ 256) (hy : w.2 < 2 ^ 256) :
    infinitePairs (n + 1) (abiEncode (infinitePairing.words (w, ()) ++ rest)) =
      ((point? w).isSome && infinitePairs n (abiEncode rest)) := by
  have hwords : infinitePairing.words (w, ()) = wordsG1 w ++ [0, 0, 0, 0] := rfl
  have hpoint : pointAt (abiEncode (infinitePairing.words (w, ()) ++ rest)) 0 = point? w := by
    rw [hwords, List.append_assoc]
    exact pointAt_abiEncode [] _ hx hy
  have htail : (abiEncode (infinitePairing.words (w, ()) ++ rest)).drop 64 =
      List.replicate 128 0 ++ abiEncode rest := by
    rw [hwords, List.append_assoc, abiEncode_append, abiEncode_append]
    exact List.drop_left' (abiEncode_length (wordsG1 w))
  have hrest : (abiEncode (infinitePairing.words (w, ()) ++ rest)).drop 192 = abiEncode rest := by
    rw [abiEncode_append]
    exact List.drop_left' (abiEncode_length _)
  have hzeros : (List.replicate 128 (0 : UInt8) ++ abiEncode rest).take 128 = List.replicate 128 0 :=
    List.take_left' List.length_replicate
  rw [infinitePairs, hpoint, htail, hrest, hzeros, decide_eq_true rfl, Bool.and_true]

theorem infinitePairs_input (pairs : List (G1 × Unit)) (rest : List ℕ) {n : ℕ} :
    infinitePairs (pairs.length + n) (abiEncode (infinitePairing.input pairs ++ rest)) =
      infinitePairs n (abiEncode rest) := by
  induction pairs with
  | nil => rw [List.length_nil, Nat.zero_add]; rfl
  | cons q pairs ih =>
    obtain ⟨hx, hy⟩ := coords_word q.1
    have hsplit : infinitePairing.input (q :: pairs) ++ rest =
        infinitePairing.words (coords q.1, ()) ++ (infinitePairing.input pairs ++ rest) := by
      rw [Pairing.input, List.flatMap_cons, List.append_assoc]
      rfl
    rw [List.length_cons, Nat.add_right_comm, hsplit, infinitePairs_words _ hx hy, ih,
      point?_eq_some.mpr rfl, Option.isSome_some, Bool.true_and]

theorem localPrecompiles_rejectsInvalid : localPrecompiles.RejectsInvalid := by
  intro w n hx hy hnone
  have hpoint : pointAt (abiEncode (wordsG1 w ++ [n])) 0 = none := by
    rw [← hnone]
    exact pointAt_abiEncode [] _ hx hy
  simp only [localPrecompiles, hpoint]

theorem input_length {G2 GT : Type} [CommGroup GT] (pairing : Pairing G2 GT) (pairs : List (G1 × G2)) :
    (pairing.input pairs).length = 6 * pairs.length := by
  induction pairs with
  | nil => rfl
  | cons q pairs ih =>
    rw [Pairing.input, List.flatMap_cons, List.length_append, ← Pairing.input, ih, List.length_cons]
    show 6 + 6 * pairs.length = _
    omega

theorem localPrecompiles_correct : localPrecompiles.Correct infinitePairing where
  ecAdd := fun Q R => by
    obtain ⟨hQx, hQy⟩ := coords_word Q
    obtain ⟨hRx, hRy⟩ := coords_word R
    have hfirst : pointAt (abiEncode (wordsG1 (coords Q) ++ wordsG1 (coords R))) 0 = some Q := by
      rw [← point?_eq_some.mpr rfl]
      exact pointAt_abiEncode [] _ hQx hQy
    have hsecond : pointAt (abiEncode (wordsG1 (coords Q) ++ wordsG1 (coords R))) 64 = some R := by
      have hread := pointAt_abiEncode (wordsG1 (coords Q)) [] hRx hRy
      rw [List.append_nil, point?_eq_some.mpr rfl] at hread
      exact hread
    simp only [localPrecompiles, hfirst, hsecond]
  ecMul := fun Q n hn => by
    obtain ⟨hQx, hQy⟩ := coords_word Q
    have hpoint : pointAt (abiEncode (wordsG1 (coords Q) ++ [n])) 0 = some Q := by
      rw [← point?_eq_some.mpr rfl]
      exact pointAt_abiEncode [] _ hQx hQy
    have hscalar : Abi.wordAt (abiEncode (wordsG1 (coords Q) ++ [n])) 64 = n :=
      wordAt_abiEncode (wordsG1 (coords Q)) [] hn
    simp only [localPrecompiles, hpoint, hscalar]
  pairing_one := fun pairs _ => by
    have hcount : (abiEncode (infinitePairing.input pairs)).length / 192 = pairs.length := by
      rw [abiEncode_length, input_length]
      omega
    have hpairs : infinitePairs pairs.length (abiEncode (infinitePairing.input pairs)) = true := by
      have hread := infinitePairs_input pairs [] (n := 0)
      rwa [List.append_nil, Nat.add_zero] at hread
    simp only [localPrecompiles, hcount, hpairs, if_true]
  pairing_ne := fun pairs hne => absurd rfl hne
  pairing_invalid := fun before after w Q hx hy hnone => by
    have hcount : (abiEncode (infinitePairing.input before ++ infinitePairing.words (w, Q) ++
        infinitePairing.input after)).length / 192 = before.length + (after.length + 1) := by
      have hwords : (infinitePairing.words (w, Q)).length = 6 := rfl
      rw [abiEncode_length, List.length_append, List.length_append, input_length, input_length, hwords]
      omega
    have hpairs : infinitePairs (before.length + (after.length + 1)) (abiEncode
        (infinitePairing.input before ++ infinitePairing.words (w, Q) ++ infinitePairing.input after)) =
        false := by
      rw [List.append_assoc, infinitePairs_input, infinitePairs_words _ hx hy, hnone]
      rfl
    simp only [localPrecompiles, hcount, hpairs, Bool.false_eq_true, if_false]

end ChainGuard.Evm
