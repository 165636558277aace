import ChainGuard.Evm.Precompiles

/-! `ZKAccessVerifier`: the Groth16 check of an access proof, and the nullifiers it has consumed. -/
namespace ChainGuard.Evm.ZKAccessVerifier
open Guarded
set_option autoImplicit false

/-- The prime field modulus, as it is typed in the source. -/
def P : ℕ := 21888242871839275222246405745257275088569664541156301506178335204

inductive ZKError
  | InvalidProof
  | NullifierAlreadySpent (nullifierHash : ℕ)
  | InvalidInputCount
  | NotOnCurve
  | Panic
  deriving DecidableEq, Repr

inductive Event
  | ProofVerified (nullifierHash documentId : ℕ) (submitter : Address)
  deriving DecidableEq, Repr

abbrev Result (α : Type) := Except ZKError α

abbrev G1Words := ℕ × ℕ
/-- The parts of `x`, then those of `y`. -/
abbrev G2Words := (ℕ × ℕ) × (ℕ × ℕ)

/-- The arguments of `verifyProof`, with the public signals by name. -/
structure Args where
  a : G1Words
  b : G2Words
  c : G1Words
  vaultRootCommitment : ℕ
  nullifierHash : ℕ
  documentId : ℕ
  vkAlpha : G1Words
  vkBeta : G2Words
  vkGamma : G2Words
  vkDelta : G2Words
  vkIC : List G1Words

def Args.inputs (args : Args) : List ℕ := [args.vaultRootCommitment, args.nullifierHash, args.documentId]

/-! ## Curve helpers -/

def mulmod (x y m : ℕ) : ℕ := x * y % m
def addmod (x y m : ℕ) : ℕ := (x + y) % m

def isOnG1 (x y : ℕ) : Bool :=
  if x = 0 ∧ y = 0 then false
  else if P ≤ x ∨ P ≤ y then false
  else decide (mulmod y y P = addmod (mulmod (mulmod x x P) x P) 3 P)

section Calls
variable (pc : Precompiles)

/-- A point from returned data, or two zeros where the call failed. -/
def returnedPoint (output : Option Bytes) : G1Words :=
  match output with
  | none => (0, 0)
  | some output => if output.length < 64 then (0, 0) else (Abi.wordAt output 0, Abi.wordAt output 32)

def addG1 (p1 p2 : G1Words) : G1Words :=
  if p1.1 = 0 ∧ p1.2 = 0 then p2
  else if p2.1 = 0 ∧ p2.2 = 0 then p1
  else returnedPoint (pc.ecAdd (abiEncode [p1.1, p1.2, p2.1, p2.2]))

def scalarMulG1 (p : G1Words) (s : ℕ) : G1Words :=
  if s = 0 then (0, 0) else returnedPoint (pc.ecMul (abiEncode [p.1, p.2, s]))

/-- `vkX`: the first point, then one term for each input. -/
def linearCombination (args : Args) : G1Words :=
  match args.vkIC with
  | [] => (0, 0)
  | ic0 :: rest =>
    (rest.zip args.inputs).foldl (fun vkX term => addG1 pc vkX (scalarMulG1 pc term.1 term.2)) ic0

/-! ## The pairing check -/

def writeG1 (x y : ℕ) : List ℕ := [x, y]
def writeG2 (q : G2Words) : List ℕ := [q.1.2, q.1.1, q.2.2, q.2.1]

/-- The buffer of the four pairs; the negation of `vkAlpha` is a checked subtraction. -/
def pairings (args : Args) (vkX : G1Words) : Result (List ℕ) := do
  revertIf (P < args.vkAlpha.2) .Panic
  pure (writeG1 args.a.1 args.a.2 ++ writeG2 args.b ++
    (writeG1 args.vkAlpha.1 (P - args.vkAlpha.2) ++ writeG2 args.vkBeta) ++
    (writeG1 vkX.1 vkX.2 ++ writeG2 args.vkGamma) ++ (writeG1 args.c.1 args.c.2 ++ writeG2 args.vkDelta))

def b256ToBool (data : Bytes) : Bool := data.any fun x => decide (x ≠ 0)

def pairingHolds (buffer : List ℕ) : Bool :=
  match pc.ecPairing (abiEncode buffer) with
  | none => false
  | some result => decide (result.length = 32) && b256ToBool result

/-! ## Entry points -/

def verifyProof (sender : Address) (spentNullifiers : ℕ → Bool) (args : Args) :
    Result (((ℕ → Bool) × Bool) × List Event) := do
  revertIf (spentNullifiers args.nullifierHash = true) (.NullifierAlreadySpent args.nullifierHash)
  revertIf (isOnG1 args.a.1 args.a.2 = false) .NotOnCurve
  revertIf (isOnG1 args.c.1 args.c.2 = false) .NotOnCurve
  revertIf (args.vkIC.length ≠ args.inputs.length + 1) .InvalidInputCount
  let buffer ← pairings args (linearCombination pc args)
  revertIf (pairingHolds pc buffer = false) .InvalidProof
  pure ((Function.update spentNullifiers args.nullifierHash true, true),
    [.ProofVerified args.nullifierHash args.documentId sender])

def verifyProofView (args : Args) : Result Bool :=
  if isOnG1 args.a.1 args.a.2 = false ∨ isOnG1 args.c.1 args.c.2 = false then pure false
  else if args.vkIC.length ≠ args.inputs.length + 1 then pure false
  else do
    let buffer ← pairings args (linearCombination pc args)
    pure (pairingHolds pc buffer)

end Calls

/-! ## What the helpers compute -/

/-- The curve check is that of the equation modulo the typed modulus. -/
theorem isOnG1_iff {x y : ℕ} : isOnG1 x y = true ↔ Bn254.CurvePoint P x y := by
  have hequation : mulmod y y P = addmod (mulmod (mulmod x x P) x P) 3 P ↔ y ^ 2 ≡ x ^ 3 + 3 [MOD P] := by
    have hleft : mulmod y y P = y ^ 2 % P := by rw [mulmod, pow_two]
    have hright : addmod (mulmod (mulmod x x P) x P) 3 P = (x ^ 3 + 3) % P := by
      rw [addmod, mulmod, mulmod, Nat.mod_mul_mod, Nat.mod_add_mod, pow_succ, pow_two]
    rw [hleft, hright]
    rfl
  unfold isOnG1 Bn254.CurvePoint
  split
  · next hzero =>
    obtain ⟨rfl, rfl⟩ := hzero
    refine iff_of_false (by decide) ?_
    decide
  · split
    · next hlarge =>
      refine iff_of_false (by decide) ?_
      rintro ⟨hx, hy, _⟩
      exact hlarge.elim (Nat.not_le.mpr hx) (Nat.not_le.mpr hy)
    · next hsmall =>
      rw [not_or, not_le, not_le] at hsmall
      rw [decide_eq_true_eq, hequation]
      exact ⟨fun h => ⟨hsmall.1, hsmall.2, h⟩, fun h => h.2.2⟩

/-! What the verifier accepts. The typed modulus is not that of the field: the curve check is about
another curve, and the negation of `vkAlpha` leaves the curve unless its second coordinate is half the
typed modulus, in which case it is no negation. -/
open Bn254

variable {G2 GT : Type} [CommGroup GT] {pc : Precompiles} {pairing : Pairing G2 GT}

/-! ## Proofs of valid points -/

/-- A proof, its public signals and a verifying key, made of points. -/
structure AccessProof (G2 : Type) where
  A : G1
  B : G2
  C : G1
  vaultRootCommitment : ℕ
  nullifierHash : ℕ
  documentId : ℕ
  alpha : G1
  beta : G2
  gamma : G2
  delta : G2
  ic0 : G1
  ic1 : G1
  ic2 : G1
  ic3 : G1

namespace AccessProof

/-- The arguments that encode it. -/
def args (pairing : Pairing G2 GT) (x : AccessProof G2) : Args where
  a := coords x.A
  b := pairing.coords x.B
  c := coords x.C
  vaultRootCommitment := x.vaultRootCommitment
  nullifierHash := x.nullifierHash
  documentId := x.documentId
  vkAlpha := coords x.alpha
  vkBeta := pairing.coords x.beta
  vkGamma := pairing.coords x.gamma
  vkDelta := pairing.coords x.delta
  vkIC := [coords x.ic0, coords x.ic1, coords x.ic2, coords x.ic3]

def vkX (x : AccessProof G2) : G1 :=
  x.ic0 + x.vaultRootCommitment • x.ic1 + x.nullifierHash • x.ic2 + x.documentId • x.ic3

/-- The signals are scalars, `A` and `C` are affine, and the equation of Groth16 holds. -/
structure Valid (pairing : Pairing G2 GT) (x : AccessProof G2) : Prop where
  affineA : x.A ≠ 0
  affineC : x.C ≠ 0
  vaultRootCommitment : x.vaultRootCommitment < groupOrder
  nullifierHash : x.nullifierHash < groupOrder
  documentId : x.documentId < groupOrder
  equation : pairing.e x.A x.B =
    pairing.e x.alpha x.beta * pairing.e x.vkX x.gamma * pairing.e x.C x.delta

/-- What the verifier asks beyond validity. -/
structure Accepted (pairing : Pairing G2 GT) (x : AccessProof G2) : Prop where
  checkA : CurvePoint P (coords x.A).1 (coords x.A).2
  checkC : CurvePoint P (coords x.C).1 (coords x.C).2
  alpha : 2 * (coords x.alpha).2 = P
  trivial : pairing.e x.A x.B = 1

end AccessProof

/-! ## The linear combination -/

theorem groupOrder_lt : groupOrder < 2 ^ 256 := by
  unfold groupOrder
  norm_num

theorem returnedPoint_coords (Q : G1) : returnedPoint (some (abiEncode (wordsG1 (coords Q)))) = coords Q := by
  obtain ⟨hx, hy⟩ := coords_word Q
  have hlength : ¬ (abiEncode (wordsG1 (coords Q))).length < 64 := by
    rw [abiEncode_length]
    exact lt_irrefl 64
  have hfirst : Abi.wordAt (abiEncode (wordsG1 (coords Q))) 0 = (coords Q).1 := wordAt_abiEncode [] _ hx
  have hsecond : Abi.wordAt (abiEncode (wordsG1 (coords Q))) 32 = (coords Q).2 :=
    wordAt_abiEncode [(coords Q).1] [] hy
  rw [returnedPoint, if_neg hlength, hfirst, hsecond]

theorem coords_origin {Q : G1} (h : (coords Q).1 = 0 ∧ (coords Q).2 = 0) : Q = 0 :=
  coords_eq_zero.mp (Prod.ext h.1 h.2)

theorem addG1_coords (hpc : pc.Correct pairing) (Q R : G1) :
    addG1 pc (coords Q) (coords R) = coords (Q + R) := by
  unfold addG1
  split
  · next hzero => rw [coords_origin hzero, zero_add]
  · split
    · next hzero => rw [coords_origin hzero, add_zero]
    · have hadd := hpc.ecAdd Q R
      rw [wordsG1, wordsG1, List.cons_append, List.cons_append, List.nil_append] at hadd
      rw [hadd]
      exact returnedPoint_coords (Q + R)

theorem scalarMulG1_coords (hpc : pc.Correct pairing) (Q : G1) {n : ℕ} (hn : n < 2 ^ 256) :
    scalarMulG1 pc (coords Q) n = coords (n • Q) := by
  unfold scalarMulG1
  split
  · next hzero => rw [hzero, zero_nsmul, coords_zero]
  · have hmul := hpc.ecMul Q n hn
    rw [wordsG1, List.cons_append, List.cons_append, List.nil_append] at hmul
    rw [hmul]
    exact returnedPoint_coords (n • Q)

theorem linearCombination_words (hpc : pc.Correct pairing) {x : AccessProof G2}
    (hroot : x.vaultRootCommitment < 2 ^ 256) (hnullifier : x.nullifierHash < 2 ^ 256)
    (hdocument : x.documentId < 2 ^ 256) : linearCombination pc (x.args pairing) = coords x.vkX := by
  show addG1 pc (addG1 pc (addG1 pc (coords x.ic0) (scalarMulG1 pc (coords x.ic1) x.vaultRootCommitment))
    (scalarMulG1 pc (coords x.ic2) x.nullifierHash)) (scalarMulG1 pc (coords x.ic3) x.documentId) = _
  rw [scalarMulG1_coords hpc _ hroot, scalarMulG1_coords hpc _ hnullifier, scalarMulG1_coords hpc _ hdocument,
    addG1_coords hpc, addG1_coords hpc, addG1_coords hpc]
  rfl

theorem linearCombination_coords (hpc : pc.Correct pairing) {x : AccessProof G2} (hx : x.Valid pairing) :
    linearCombination pc (x.args pairing) = coords x.vkX :=
  linearCombination_words hpc (hx.vaultRootCommitment.trans groupOrder_lt) (hx.nullifierHash.trans groupOrder_lt)
    (hx.documentId.trans groupOrder_lt)

/-! ## The negation -/

theorem typed_modulus_lt : P < fieldModulus := by
  decide

theorem typed_modulus_not_on_curve : ¬ CurvePoint fieldModulus 0 P := by
  decide

theorem same_or_opposite {x y z : ℕ} (hy : CurvePoint fieldModulus x y) (hz : CurvePoint fieldModulus x z) :
    y = z ∨ (y + z) % fieldModulus = 0 := by
  have hsquares : ((z : Fp) - y) * (z + y) = 0 := by
    have hy' := cast_equation_iff.mpr hy.2.2
    have hz' := cast_equation_iff.mpr hz.2.2
    linear_combination hz' - hy'
  rcases mul_eq_zero.mp hsquares with hsame | hopposite
  · have hcast : (z : Fp) = (y : Fp) := sub_eq_zero.mp hsame
    have hmod := (ZMod.natCast_eq_natCast_iff' z y fieldModulus).mp hcast
    rw [Nat.mod_eq_of_lt hz.2.1, Nat.mod_eq_of_lt hy.2.1] at hmod
    exact Or.inl hmod.symm
  · have hcast : ((y + z : ℕ) : Fp) = 0 := by
      push_cast
      rw [add_comm]
      exact hopposite
    exact Or.inr (Nat.mod_eq_zero_of_dvd ((ZMod.natCast_eq_zero_iff _ _).mp hcast))

theorem negated_point {Q N : G1} (hle : (coords Q).2 ≤ P)
    (hN : point? ((coords Q).1, P - (coords Q).2) = some N) : 2 * (coords Q).2 = P := by
  have hcoords := point?_eq_some.mp hN
  by_cases hQ : Q = 0
  · -- the negated infinity would be an affine point
    subst hQ
    rw [coords_zero, Nat.sub_zero] at hcoords
    have hne : N ≠ 0 := by
      rintro rfl
      rw [coords_zero, Prod.mk.injEq] at hcoords
      exact absurd hcoords.2 (by decide)
    have hpoint := curvePoint_coords hne
    rw [hcoords] at hpoint
    exact absurd hpoint typed_modulus_not_on_curve
  · have hpoint := curvePoint_coords hQ
    by_cases hzero : N = 0
    · -- an affine point would have the typed modulus as its second coordinate
      subst hzero
      rw [coords_zero, Prod.mk.injEq] at hcoords
      have hfirst : (coords Q).1 = 0 := hcoords.1.symm
      have hsecond : (coords Q).2 = P := by omega
      rw [hfirst, hsecond] at hpoint
      exact absurd hpoint typed_modulus_not_on_curve
    · have hpoint' := curvePoint_coords hzero
      rw [hcoords] at hpoint'
      rcases same_or_opposite hpoint hpoint' with hsame | hopposite
      · omega
      · rw [Nat.add_sub_cancel' hle, Nat.mod_eq_of_lt typed_modulus_lt] at hopposite
        exact absurd hopposite (by decide)

/-! ## The check -/

/-- The pairs of the check, once `vkAlpha` is its own negation. -/
def AccessProof.pairs (x : AccessProof G2) : List (G1 × G2) :=
  [(x.A, x.B), (x.alpha, x.beta), (x.vkX, x.gamma), (x.C, x.delta)]

theorem pairings_ok {x : AccessProof G2} {buffer : List ℕ} :
    pairings (x.args pairing) (coords x.vkX) = .ok buffer ↔ (coords x.alpha).2 ≤ P ∧
      pairing.input [(x.A, x.B)] ++
        pairing.words (((coords x.alpha).1, P - (coords x.alpha).2), x.beta) ++
        pairing.input [(x.vkX, x.gamma), (x.C, x.delta)] = buffer := by
  rw [pairings, revertIf_bind, pure_ok, not_lt]
  refine and_congr_right fun _ => ?_
  simp [AccessProof.args, Pairing.input, Pairing.words, wordsG1, wordsG2, writeG1, writeG2]

theorem pairingHolds_iff (hpc : pc.Correct pairing) {x : AccessProof G2} (hle : (coords x.alpha).2 ≤ P) :
    pairingHolds pc (pairing.input [(x.A, x.B)] ++
      pairing.words (((coords x.alpha).1, P - (coords x.alpha).2), x.beta) ++
      pairing.input [(x.vkX, x.gamma), (x.C, x.delta)]) = true ↔
    2 * (coords x.alpha).2 = P ∧ pairing.product x.pairs = 1 := by
  by_cases hhalf : 2 * (coords x.alpha).2 = P
  · have hsame : ((coords x.alpha).1, P - (coords x.alpha).2) = coords x.alpha := by
      refine Prod.ext rfl ?_
      show P - (coords x.alpha).2 = (coords x.alpha).2
      omega
    have hbuffer : pairing.input [(x.A, x.B)] ++ pairing.words (coords x.alpha, x.beta) ++
        pairing.input [(x.vkX, x.gamma), (x.C, x.delta)] = pairing.input x.pairs := by
      simp [Pairing.input, AccessProof.pairs]
    rw [hsame, hbuffer, pairingHolds]
    by_cases hprod : pairing.product x.pairs = 1
    · rw [hpc.pairing_one _ hprod]
      refine iff_of_true ?_ ⟨hhalf, hprod⟩
      decide
    · rw [hpc.pairing_ne _ hprod]
      refine iff_of_false ?_ fun h => hprod h.2
      decide
  · have hnone : point? ((coords x.alpha).1, P - (coords x.alpha).2) = none := by
      rw [Option.eq_none_iff_forall_ne_some]
      intro N hN
      exact hhalf (negated_point hle hN)
    have hwords := coords_word x.alpha
    have hfails := hpc.pairing_invalid [(x.A, x.B)] [(x.vkX, x.gamma), (x.C, x.delta)]
      ((coords x.alpha).1, P - (coords x.alpha).2) x.beta hwords.1
      ((Nat.sub_le _ _).trans_lt (typed_modulus_lt.trans fieldModulus_lt)) hnone
    rw [pairingHolds, hfails]
    exact iff_of_false (by decide) fun h => hhalf h.1

theorem mul_self_eq_one (pairing : Pairing G2 GT) {g : GT} : g * g = 1 ↔ g = 1 := by
  constructor
  · intro h
    have horder := pairing.order g
    have hodd : groupOrder = 2 * (groupOrder / 2) + 1 := by decide
    have hsquare : g ^ 2 = 1 := by rw [pow_two, h]
    rw [hodd, pow_succ, pow_mul, hsquare, one_pow, one_mul] at horder
    exact horder
  · rintro rfl
    exact one_mul 1

theorem product_eq_one {x : AccessProof G2} (hx : x.Valid pairing) :
    pairing.product x.pairs = 1 ↔ pairing.e x.A x.B = 1 := by
  have hproduct : pairing.product x.pairs = pairing.e x.A x.B * pairing.e x.A x.B := by
    have hexpand : pairing.product x.pairs = pairing.e x.A x.B *
        (pairing.e x.alpha x.beta * pairing.e x.vkX x.gamma * pairing.e x.C x.delta) := by
      simp [Pairing.product, AccessProof.pairs, mul_assoc]
    rw [hexpand, ← hx.equation]
  rw [hproduct, mul_self_eq_one pairing]

/-! ## The entry points -/

theorem verifyProofView_iff (hpc : pc.Correct pairing) {x : AccessProof G2} (hx : x.Valid pairing) :
    verifyProofView pc (x.args pairing) = .ok true ↔ x.Accepted pairing := by
  unfold verifyProofView
  rw [linearCombination_coords hpc hx]
  split
  · next hcheck =>
    refine iff_of_false (by simp) ?_
    rintro ⟨hA, hC, _, _⟩
    rcases hcheck with hcheck | hcheck
    · exact absurd (isOnG1_iff.mpr hA) (Bool.eq_false_iff.mp hcheck)
    · exact absurd (isOnG1_iff.mpr hC) (Bool.eq_false_iff.mp hcheck)
  · next hcheck =>
    rw [not_or, Bool.not_eq_false, Bool.not_eq_false] at hcheck
    have hlength : (x.args pairing).vkIC.length = (x.args pairing).inputs.length + 1 := rfl
    rw [if_neg (not_not.mpr hlength)]
    simp only [bind_ok, pairings_ok, pure_ok]
    constructor
    · rintro ⟨buffer, ⟨hle, rfl⟩, hholds⟩
      obtain ⟨hhalf, hprod⟩ := (pairingHolds_iff hpc hle).mp hholds
      exact ⟨isOnG1_iff.mp hcheck.1, isOnG1_iff.mp hcheck.2, hhalf, (product_eq_one hx).mp hprod⟩
    · intro h
      have hle : (coords x.alpha).2 ≤ P := by
        have hhalf := h.alpha
        omega
      exact ⟨_, ⟨hle, rfl⟩, (pairingHolds_iff hpc hle).mpr ⟨h.alpha, (product_eq_one hx).mpr h.trivial⟩⟩

theorem verifyProof_iff (hpc : pc.Correct pairing) {x : AccessProof G2} (hx : x.Valid pairing)
    (sender : Address) {spent : ℕ → Bool} (hunspent : spent x.nullifierHash = false) :
    (∃ logs, verifyProof pc sender spent (x.args pairing) =
      .ok ((Function.update spent x.nullifierHash true, true), logs)) ↔ x.Accepted pairing := by
  have hlength : (x.args pairing).vkIC.length = (x.args pairing).inputs.length + 1 := rfl
  simp only [verifyProof, linearCombination_coords hpc hx, bind_ok, revertIf_ok, exists_const, pure_ok,
    pairings_ok, Bool.not_eq_false, Prod.mk.injEq]
  constructor
  · rintro ⟨_, _, hA, hC, _, buffer, ⟨hle, rfl⟩, hholds, _⟩
    obtain ⟨hhalf, hprod⟩ := (pairingHolds_iff hpc hle).mp hholds
    exact ⟨isOnG1_iff.mp hA, isOnG1_iff.mp hC, hhalf, (product_eq_one hx).mp hprod⟩
  · intro h
    have hle : (coords x.alpha).2 ≤ P := by
      have hhalf := h.alpha
      omega
    have hholds := (pairingHolds_iff hpc hle).mpr ⟨h.alpha, (product_eq_one hx).mpr h.trivial⟩
    refine ⟨_, ?_, isOnG1_iff.mpr h.checkA, isOnG1_iff.mpr h.checkC, not_not.mpr hlength, _, ⟨hle, rfl⟩,
      hholds, ⟨rfl, trivial⟩, rfl⟩
    show ¬ spent x.nullifierHash = true
    rw [hunspent]
    decide

theorem moduli_coprime : Nat.Coprime P fieldModulus := by
  decide +kernel

/-- A pair of numbers is judged as the curve of the field would exactly when it satisfies the equation
modulo the product of the two moduli, or is on neither curve; and a valid proof is accepted exactly when
`A` and `C` pass the typed check, the second coordinate of `vkAlpha` is half the typed modulus and the
pairing of `A` and `B` is trivial. -/
theorem groth16_complete_iff (hpc : pc.Correct pairing) :
    (∀ x y, (isOnG1 x y = true ↔ CurvePoint fieldModulus x y) ↔
      (x < P ∧ y < P ∧ y ^ 2 ≡ x ^ 3 + 3 [MOD P * fieldModulus]) ∨
        (¬ CurvePoint P x y ∧ ¬ CurvePoint fieldModulus x y)) ∧
    ∀ x : AccessProof G2, x.Valid pairing → ∀ sender spent, spent x.nullifierHash = false →
      (((∃ logs, verifyProof pc sender spent (x.args pairing) =
          .ok ((Function.update spent x.nullifierHash true, true), logs)) ∧
        verifyProofView pc (x.args pairing) = .ok true) ↔ x.Accepted pairing) := by
  constructor
  · intro x y
    have hboth : CurvePoint P x y ∧ CurvePoint fieldModulus x y ↔
        x < P ∧ y < P ∧ y ^ 2 ≡ x ^ 3 + 3 [MOD P * fieldModulus] := by
      rw [← Nat.modEq_and_modEq_iff_modEq_mul moduli_coprime]
      constructor
      · rintro ⟨⟨hx, hy, hP⟩, _, _, hfield⟩
        exact ⟨hx, hy, hP, hfield⟩
      · rintro ⟨hx, hy, hP, hfield⟩
        exact ⟨⟨hx, hy, hP⟩, hx.trans typed_modulus_lt, hy.trans typed_modulus_lt, hfield⟩
    rw [isOnG1_iff, ← hboth]
    exact iff_iff_and_or_not_and_not
  · intro x hx sender spent hunspent
    rw [verifyProof_iff hpc hx sender hunspent, verifyProofView_iff hpc hx, and_self_iff]

/-! ## An accepted proof -/

def generator : G1 := mk (x := 1) (y := 2) (by decide)

def halfModulusPoint : G1 :=
  mk (x := 6841033072407384733180394567862342515120822312786780629132680323303502305716) (y := P / 2)
    (by decide +kernel)

/-- Every second point is at infinity, and the linear combination is too. -/
def trivialProof : AccessProof Unit where
  A := generator
  B := ()
  C := generator
  vaultRootCommitment := 0
  nullifierHash := 5
  documentId := 0
  alpha := halfModulusPoint
  beta := ()
  gamma := ()
  delta := ()
  ic0 := 0
  ic1 := 0
  ic2 := 0
  ic3 := 0

theorem trivialProof_valid : trivialProof.Valid infinitePairing where
  affineA := fun h => by cases h
  affineC := fun h => by cases h
  vaultRootCommitment := by decide
  nullifierHash := by decide
  documentId := by decide
  equation := rfl

theorem trivialProof_accepted : trivialProof.Accepted infinitePairing where
  checkA := by
    show CurvePoint P (coords generator).1 (coords generator).2
    rw [generator, coords_mk]
    decide
  checkC := by
    show CurvePoint P (coords generator).1 (coords generator).2
    rw [generator, coords_mk]
    decide
  alpha := by
    show 2 * (coords halfModulusPoint).2 = P
    rw [halfModulusPoint, coords_mk]
    decide
  trivial := rfl

theorem groth16_complete_trivial : verifyProofView localPrecompiles (trivialProof.args infinitePairing) =
    .ok true :=
  (((groth16_complete_iff localPrecompiles_correct).2 trivialProof trivialProof_valid 8 (fun _ => false)
    rfl).mpr trivialProof_accepted).2

/-- The negative of the generator is on the curve and fails the check. -/
theorem curve_point_rejected : CurvePoint fieldModulus 1 (fieldModulus - 2) ∧
    isOnG1 1 (fieldModulus - 2) = false := by
  constructor
  · decide +kernel
  · decide +kernel

end ChainGuard.Evm.ZKAccessVerifier
