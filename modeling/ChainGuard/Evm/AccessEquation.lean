import ChainGuard.Evm.SpentNullifiers

/-! What the precompiles do on words that encode no point, and what the view of the verifier comes to on arbitrary
words. -/
namespace ChainGuard.Evm
open Bn254 Guarded
set_option autoImplicit false

abbrev PairWords := (ℕ × ℕ) × ((ℕ × ℕ) × (ℕ × ℕ))

def AreWords (w : ℕ × ℕ) : Prop := w.1 < 2 ^ 256 ∧ w.2 < 2 ^ 256

def PairWords.Fit (q : PairWords) : Prop := AreWords q.1 ∧ AreWords q.2.1 ∧ AreWords q.2.2

def pairsInput (pairs : List PairWords) : List ℕ := pairs.flatMap fun q => wordsG1 q.1 ++ wordsG2 q.2

variable {G2 GT : Type} [CommGroup GT] {pc : Precompiles} {pairing : Pairing G2 GT}

def Pairing.encode (pairing : Pairing G2 GT) (q : G1 × G2) : PairWords := (Bn254.coords q.1, pairing.coords q.2)

/-- The precompiles compute in the group of points, and fail where words encode no point of theirs. -/
structure Precompiles.Specified (pc : Precompiles) (pairing : Pairing G2 GT) : Prop extends pc.Correct pairing where
  ecAdd_invalid : ∀ w v, AreWords w → AreWords v → point? w = none ∨ point? v = none →
    pc.ecAdd (abiEncode (wordsG1 w ++ wordsG1 v)) = none
  ecMul_invalid : pc.RejectsInvalid
  pairing_fails : ∀ pairs : List PairWords, (∀ q ∈ pairs, q.Fit) → (∃ q ∈ pairs, ∀ p, pairing.encode p ≠ q) →
    pc.ecPairing (abiEncode (pairsInput pairs)) = none

/-! ## Precompiles for second points at infinity -/

theorem word_injective {m n : ℕ} (hm : m < 2 ^ 256) (hn : n < 2 ^ 256) (h : word m = word n) : m = n := by
  have hread := congrArg natBE h
  rwa [natBE_word, natBE_word, Nat.mod_eq_of_lt hm, Nat.mod_eq_of_lt hn] at hread

theorem wordsG2_zero {w : (ℕ × ℕ) × (ℕ × ℕ)} (hx : AreWords w.1) (hy : AreWords w.2)
    (h : abiEncode (wordsG2 w) = List.replicate 128 0) : w = ((0, 0), (0, 0)) := by
  have hzeros : List.replicate 128 (0 : UInt8) = word 0 ++ (word 0 ++ (word 0 ++ word 0)) := by decide
  have hwords : abiEncode (wordsG2 w) = word w.1.2 ++ (word w.1.1 ++ (word w.2.2 ++ word w.2.1)) := by
    simp [abiEncode, wordsG2]
  rw [hzeros, hwords] at h
  obtain ⟨h1, h⟩ := List.append_inj h (by rw [word_length, word_length])
  obtain ⟨h2, h⟩ := List.append_inj h (by rw [word_length, word_length])
  obtain ⟨h3, h4⟩ := List.append_inj h (by rw [word_length, word_length])
  have hpos : 0 < 2 ^ 256 := by decide
  exact Prod.ext (Prod.ext (word_injective hx.1 hpos h2) (word_injective hx.2 hpos h1))
    (Prod.ext (word_injective hy.1 hpos h4) (word_injective hy.2 hpos h3))

theorem pairsInput_length (pairs : List PairWords) : (pairsInput pairs).length = 6 * pairs.length := by
  induction pairs with
  | nil => rfl
  | cons q pairs ih =>
    rw [pairsInput, List.flatMap_cons, List.length_append, ← pairsInput, ih, List.length_cons]
    show 6 + 6 * pairs.length = _
    omega

theorem infinitePairs_encoded {pairs : List PairWords} (hwords : ∀ q ∈ pairs, q.Fit)
    (h : infinitePairs pairs.length (abiEncode (pairsInput pairs)) = true) :
    ∀ q ∈ pairs, ∃ p, infinitePairing.encode p = q := by
  induction pairs with
  | nil => exact fun q hq => absurd hq List.not_mem_nil
  | cons q pairs ih =>
    rw [List.forall_mem_cons] at hwords ⊢
    obtain ⟨⟨hfirst, hx, hy⟩, hrest⟩ := hwords
    have hinput : pairsInput (q :: pairs) = wordsG1 q.1 ++ (wordsG2 q.2 ++ pairsInput pairs) := by
      rw [pairsInput, List.flatMap_cons, List.append_assoc]
      rfl
    have hsecond : (abiEncode (wordsG1 q.1 ++ (wordsG2 q.2 ++ pairsInput pairs))).drop 64 =
        abiEncode (wordsG2 q.2) ++ abiEncode (pairsInput pairs) := by
      rw [abiEncode_append, abiEncode_append]
      exact List.drop_left' (abiEncode_length (wordsG1 q.1))
    have htail : (abiEncode (wordsG1 q.1 ++ (wordsG2 q.2 ++ pairsInput pairs))).drop 192 =
        abiEncode (pairsInput pairs) := by
      rw [← List.append_assoc, abiEncode_append]
      exact List.drop_left' (abiEncode_length (wordsG1 q.1 ++ wordsG2 q.2))
    have hpoint : pointAt (abiEncode (wordsG1 q.1 ++ (wordsG2 q.2 ++ pairsInput pairs))) 0 = point? q.1 :=
      pointAt_abiEncode [] _ hfirst.1 hfirst.2
    have hzeros : (abiEncode (wordsG2 q.2) ++ abiEncode (pairsInput pairs)).take 128 = abiEncode (wordsG2 q.2) :=
      List.take_left' (abiEncode_length (wordsG2 q.2))
    rw [hinput, List.length_cons, infinitePairs, hsecond, htail, hpoint, hzeros, Bool.and_eq_true, Bool.and_eq_true,
      Option.isSome_iff_exists, decide_eq_true_iff] at h
    obtain ⟨⟨⟨Q, hQ⟩, hinfinite⟩, hpairs⟩ := h
    exact ⟨⟨(Q, ()), Prod.ext (point?_eq_some.mp hQ) (wordsG2_zero hx hy hinfinite).symm⟩, ih hrest hpairs⟩

theorem localPrecompiles_specified : localPrecompiles.Specified infinitePairing where
  toCorrect := localPrecompiles_correct
  ecAdd_invalid := fun w v hw hv hnone => by
    have hfirst : pointAt (abiEncode (wordsG1 w ++ wordsG1 v)) 0 = point? w := pointAt_abiEncode [] _ hw.1 hw.2
    have hsecond : pointAt (abiEncode (wordsG1 w ++ wordsG1 v)) 64 = point? v := by
      have hread := pointAt_abiEncode (wordsG1 w) [] hv.1 hv.2
      rwa [List.append_nil] at hread
    simp only [localPrecompiles, hfirst, hsecond]
    rcases hnone with hnone | hnone
    · rw [hnone]
    · rw [hnone]
      cases point? w <;> rfl
  ecMul_invalid := localPrecompiles_rejectsInvalid
  pairing_fails := fun pairs hwords hfails => by
    obtain ⟨q, hq, hnone⟩ := hfails
    have hcount : (abiEncode (pairsInput pairs)).length / 192 = pairs.length := by
      rw [abiEncode_length, pairsInput_length]
      omega
    have hpairs : ¬ infinitePairs pairs.length (abiEncode (pairsInput pairs)) = true := fun h => by
      obtain ⟨p, hp⟩ := infinitePairs_encoded hwords h q hq
      exact hnone p hp
    simp only [localPrecompiles, hcount, if_neg hpairs]

/-! ## The pairing check -/

theorem pairsInput_encode (points : List (G1 × G2)) : pairsInput (points.map pairing.encode) = pairing.input points := by
  rw [pairsInput, List.flatMap_map]
  rfl

namespace ZKAccessVerifier

theorem pairingHolds_encoded_iff (hpc : pc.Specified pairing) {pairs : List PairWords} (hwords : ∀ q ∈ pairs, q.Fit) :
    pairingHolds pc (pairsInput pairs) = true ↔
      ∃ points, points.map pairing.encode = pairs ∧ pairing.product points = 1 := by
  by_cases hencoded : ∀ q ∈ pairs, ∃ p, pairing.encode p = q
  · have hrange : pairs ∈ Set.range (List.map pairing.encode) := by
      rw [Set.range_list_map]
      exact hencoded
    constructor
    · intro hholds
      obtain ⟨points, rfl⟩ := hrange
      refine ⟨points, rfl, ?_⟩
      by_contra hne
      rw [pairsInput_encode, pairingHolds, hpc.pairing_ne points hne] at hholds
      exact absurd hholds (by decide)
    · rintro ⟨points, rfl, hone⟩
      rw [pairsInput_encode, pairingHolds, hpc.pairing_one points hone]
      decide
  · push Not at hencoded
    rw [pairingHolds, hpc.pairing_fails pairs hwords hencoded]
    refine iff_of_false (by decide) ?_
    rintro ⟨points, rfl, _⟩
    obtain ⟨q, hq, hnone⟩ := hencoded
    obtain ⟨p, _, hp⟩ := List.mem_map.mp hq
    exact hnone p hp

/-! ## The linear combination -/

/-- `_scalarMulG1` on any words. -/
def multiple (w : G1Words) (n : ℕ) : G1Words :=
  match point? w with
  | some Q => coords (n • Q)
  | none => (0, 0)

/-- `_addG1` on any words: two zeros stand for infinity and for a failed call. -/
def sum (w v : G1Words) : G1Words :=
  if w = (0, 0) then v
  else if v = (0, 0) then w
  else
    match point? w, point? v with
    | some Q, some R => coords (Q + R)
    | _, _ => (0, 0)

/-- `vkX` -/
def Args.combination (args : Args) : G1Words :=
  match args.vkIC with
  | [] => (0, 0)
  | ic0 :: rest => (rest.zip args.inputs).foldl (fun vkX term => sum vkX (multiple term.1 term.2)) ic0

theorem scalarMulG1_words (hpc : pc.Specified pairing) {w : G1Words} (hw : AreWords w) {n : ℕ} (hn : n < 2 ^ 256) :
    scalarMulG1 pc w n = multiple w n := by
  cases hpoint : point? w with
  | some Q =>
    rw [multiple, hpoint, ← point?_eq_some.mp hpoint]
    exact scalarMulG1_coords hpc.toCorrect Q hn
  | none =>
    have hmul := hpc.ecMul_invalid w n hw.1 hw.2 hpoint
    rw [wordsG1, List.cons_append, List.cons_append, List.nil_append] at hmul
    rw [multiple, hpoint, scalarMulG1, hmul]
    exact ite_self _

theorem addG1_words (hpc : pc.Specified pairing) {w v : G1Words} (hw : AreWords w) (hv : AreWords v) :
    addG1 pc w v = sum w v := by
  have hzero : ∀ u : G1Words, u.1 = 0 ∧ u.2 = 0 ↔ u = (0, 0) := fun _ => Prod.mk_inj.symm
  have hinput : abiEncode [w.1, w.2, v.1, v.2] = abiEncode (wordsG1 w ++ wordsG1 v) := rfl
  rw [addG1, sum, hinput]
  simp only [hzero]
  refine if_congr Iff.rfl rfl (if_congr Iff.rfl rfl ?_)
  cases hfirst : point? w with
  | none =>
    rw [hpc.ecAdd_invalid w v hw hv (.inl hfirst)]
    rfl
  | some Q =>
    cases hsecond : point? v with
    | none =>
      rw [hpc.ecAdd_invalid w v hw hv (.inr hsecond)]
      rfl
    | some R =>
      rw [← point?_eq_some.mp hfirst, ← point?_eq_some.mp hsecond, hpc.ecAdd Q R]
      exact returnedPoint_coords (Q + R)

theorem zero_words : AreWords (0, 0) := ⟨by decide, by decide⟩

theorem multiple_words (w : G1Words) (n : ℕ) : AreWords (multiple w n) := by
  unfold multiple
  split
  · exact coords_word _
  · exact zero_words

theorem sum_words {w v : G1Words} (hw : AreWords w) (hv : AreWords v) : AreWords (sum w v) := by
  unfold sum
  split
  · exact hv
  · split
    · exact hw
    · split
      · exact coords_word _
      · exact zero_words

theorem combination_spec (hpc : pc.Specified pairing) {args : Args} (hwords : args.Words) :
    linearCombination pc args = args.combination ∧ AreWords args.combination := by
  have hinputs : ∀ n ∈ args.inputs, n < 2 ^ 256 := by
    simp only [Args.inputs, List.forall_mem_cons]
    exact ⟨hwords.vaultRootCommitment, hwords.nullifierHash, hwords.documentId, fun n hn => absurd hn List.not_mem_nil⟩
  have hloop : ∀ (terms : List (G1Words × ℕ)) (start : G1Words), AreWords start →
      (∀ t ∈ terms, AreWords t.1 ∧ t.2 < 2 ^ 256) →
      terms.foldl (fun vkX term => addG1 pc vkX (scalarMulG1 pc term.1 term.2)) start =
        terms.foldl (fun vkX term => sum vkX (multiple term.1 term.2)) start ∧
      AreWords (terms.foldl (fun vkX term => sum vkX (multiple term.1 term.2)) start) := by
    intro terms
    induction terms with
    | nil => exact fun start hstart _ => ⟨rfl, hstart⟩
    | cons t terms ih =>
      intro start hstart hterms
      rw [List.forall_mem_cons] at hterms
      rw [List.foldl_cons, List.foldl_cons, scalarMulG1_words hpc hterms.1.1 hterms.1.2,
        addG1_words hpc hstart (multiple_words _ _)]
      exact ih _ (sum_words hstart (multiple_words _ _)) hterms.2
  unfold linearCombination Args.combination
  cases hic : args.vkIC with
  | nil => exact ⟨rfl, zero_words⟩
  | cons ic0 rest =>
    have hvk := hwords.vkIC
    rw [hic, List.forall_mem_cons] at hvk
    exact hloop _ ic0 hvk.1 fun t ht => ⟨hvk.2 _ (List.of_mem_zip ht).1, hinputs _ (List.of_mem_zip ht).2⟩

theorem multiple_coords (Q : G1) (n : ℕ) : multiple (coords Q) n = coords (n • Q) := by
  rw [multiple, point?_eq_some.mpr rfl]

theorem sum_coords (Q R : G1) : sum (coords Q) (coords R) = coords (Q + R) := by
  unfold sum
  split
  · next hzero => rw [coords_eq_zero.mp hzero, zero_add]
  · split
    · next hzero => rw [coords_eq_zero.mp hzero, add_zero]
    · rw [point?_eq_some.mpr rfl, point?_eq_some.mpr rfl]

theorem combination_coords {args : Args} {Q₀ Q₁ Q₂ Q₃ : G1} (hic : args.vkIC = [Q₀, Q₁, Q₂, Q₃].map coords) :
    args.combination = coords
      (Q₀ + args.vaultRootCommitment • Q₁ + args.nullifierHash • Q₂ + args.documentId • Q₃) := by
  rw [Args.combination, hic]
  show sum (sum (sum (coords Q₀) (multiple (coords Q₁) args.vaultRootCommitment))
    (multiple (coords Q₂) args.nullifierHash)) (multiple (coords Q₃) args.documentId) = _
  simp only [multiple_coords, sum_coords]

/-! ## The equation -/

/-- The four pairs of the check. -/
def Args.pairs (args : Args) : List PairWords :=
  [(args.a, args.b), ((args.vkAlpha.1, P - args.vkAlpha.2), args.vkBeta), (args.combination, args.vkGamma),
    (args.c, args.vkDelta)]

/-- The equation of the contract, over the points that the words encode. -/
structure Args.Equation (pairing : Pairing G2 GT) (args : Args) : Prop where
  checkA : CurvePoint P args.a.1 args.a.2
  checkC : CurvePoint P args.c.1 args.c.2
  ic : args.vkIC.length = 4
  alpha : args.vkAlpha.2 ≤ P
  points : ∃ points, points.map pairing.encode = args.pairs ∧ pairing.product points = 1

theorem points_iff {args : Args} :
    (∃ points, points.map pairing.encode = args.pairs ∧ pairing.product points = 1) ↔
      ∃ p q r t : G1 × G2, (pairing.encode p = (args.a, args.b) ∧
        pairing.encode q = ((args.vkAlpha.1, P - args.vkAlpha.2), args.vkBeta) ∧
        pairing.encode r = (args.combination, args.vkGamma) ∧ pairing.encode t = (args.c, args.vkDelta)) ∧
        pairing.e p.1 p.2 * pairing.e q.1 q.2 * pairing.e r.1 r.2 * pairing.e t.1 t.2 = 1 := by
  constructor
  · rintro ⟨points, hpoints, hone⟩
    obtain ⟨p, _, rfl, hp, hpoints⟩ := List.map_eq_cons_iff.mp hpoints
    obtain ⟨q, _, rfl, hq, hpoints⟩ := List.map_eq_cons_iff.mp hpoints
    obtain ⟨r, _, rfl, hr, hpoints⟩ := List.map_eq_cons_iff.mp hpoints
    obtain ⟨t, _, rfl, ht, hpoints⟩ := List.map_eq_cons_iff.mp hpoints
    obtain rfl := List.map_eq_nil_iff.mp hpoints
    refine ⟨p, q, r, t, ⟨hp, hq, hr, ht⟩, ?_⟩
    simpa [Pairing.product, mul_assoc] using hone
  · rintro ⟨p, q, r, t, ⟨hp, hq, hr, ht⟩, hone⟩
    refine ⟨[p, q, r, t], ?_, ?_⟩
    · rw [List.map_cons, List.map_cons, List.map_cons, List.map_singleton, hp, hq, hr, ht]
      rfl
    · simpa [Pairing.product, mul_assoc] using hone

/-- All arguments are words. -/
structure Args.AllWords (args : Args) : Prop extends args.Words where
  a : AreWords args.a
  b : AreWords args.b.1 ∧ AreWords args.b.2
  c : AreWords args.c
  alpha : AreWords args.vkAlpha
  beta : AreWords args.vkBeta.1 ∧ AreWords args.vkBeta.2
  gamma : AreWords args.vkGamma.1 ∧ AreWords args.vkGamma.2
  delta : AreWords args.vkDelta.1 ∧ AreWords args.vkDelta.2

theorem pairs_fit {args : Args} (hwords : args.AllWords) (hcombination : AreWords args.combination) :
    ∀ q ∈ args.pairs, q.Fit := by
  have hnegated : AreWords (args.vkAlpha.1, P - args.vkAlpha.2) :=
    ⟨hwords.alpha.1, (Nat.sub_le _ _).trans_lt (typed_modulus_lt.trans fieldModulus_lt)⟩
  simp only [Args.pairs, List.forall_mem_cons]
  exact ⟨⟨hwords.a, hwords.b⟩, ⟨hnegated, hwords.beta⟩, ⟨hcombination, hwords.gamma⟩, ⟨hwords.c, hwords.delta⟩,
    fun q hq => absurd hq List.not_mem_nil⟩

theorem pairings_words {args : Args} {buffer : List ℕ} :
    pairings args args.combination = .ok buffer ↔ args.vkAlpha.2 ≤ P ∧ pairsInput args.pairs = buffer := by
  rw [pairings, revertIf_bind, pure_ok, not_lt]
  refine and_congr_right fun _ => ?_
  simp [pairsInput, Args.pairs, wordsG1, wordsG2, writeG1, writeG2]

theorem verifyProofView_words (hpc : pc.Specified pairing) {args : Args} (hwords : args.AllWords) :
    verifyProofView pc args = .ok true ↔ args.Equation pairing := by
  obtain ⟨hloop, hcombination⟩ := combination_spec hpc hwords.toWords
  have hholds := pairingHolds_encoded_iff hpc (pairs_fit hwords hcombination)
  have hlength : args.inputs.length + 1 = 4 := rfl
  rw [verifyProofView, hloop, hlength]
  split
  · next hcheck =>
    refine iff_of_false (by simp) fun h => ?_
    rcases hcheck with hcheck | hcheck
    · exact absurd (isOnG1_iff.mpr h.checkA) (Bool.eq_false_iff.mp hcheck)
    · exact absurd (isOnG1_iff.mpr h.checkC) (Bool.eq_false_iff.mp hcheck)
  · next hcheck =>
    rw [not_or, Bool.not_eq_false, Bool.not_eq_false] at hcheck
    split
    · next hic => exact iff_of_false (by simp) fun h => hic h.ic
    · next hic =>
      simp only [bind_ok, pairings_words, pure_ok]
      constructor
      · rintro ⟨_, ⟨halpha, rfl⟩, h⟩
        exact ⟨isOnG1_iff.mp hcheck.1, isOnG1_iff.mp hcheck.2, not_not.mp hic, halpha, hholds.mp h⟩
      · exact fun h => ⟨_, ⟨h.alpha, rfl⟩, hholds.mpr h.points⟩

end ZKAccessVerifier
end ChainGuard.Evm
