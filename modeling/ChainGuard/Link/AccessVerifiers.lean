import ChainGuard.Evm.AccessEquation
import ChainGuard.OffChain.ZkProof
import ChainGuard.Soroban.ZkVerifier

/-! What the client sends to the two verifiers: both encoders write the same words, and the view on Soroban accepts the
words of points that satisfy its equation. -/
namespace ChainGuard.Link
open Bn254 hiding Fp
open Evm (AreWords)
open Evm.ZKAccessVerifier (G1Words G2Words VerifyingKey Args)
open OffChain.ZkProof (FullProof toContractArgs toSorobanArgs)
open Soroban.ZkVerifier (ProofPoints Fq12 G1Affine G2Affine CoordsBelowBound BelowBound encode encodeTwist)
set_option autoImplicit false

/-! ## The arguments -/

def contractArgs (fullProof : FullProof) (vk : VerifyingKey) : Args :=
  let args := toContractArgs fullProof
  { a := (args.a.1.toNat, args.a.2.toNat)
    b := ((args.b.1.1.toNat, args.b.1.2.toNat), (args.b.2.1.toNat, args.b.2.2.toNat))
    c := (args.c.1.toNat, args.c.2.toNat)
    vaultRootCommitment := args.inputs.1.toNat
    nullifierHash := args.inputs.2.1.toNat
    documentId := args.inputs.2.2.toNat
    vkAlpha := vk.alpha
    vkBeta := vk.beta
    vkGamma := vk.gamma
    vkDelta := vk.delta
    vkIC := vk.ic }

def g1Bytes (w : G1Words) : Bytes := word w.1 ++ word w.2

/-- The imaginary parts come first. -/
def g2Bytes (w : G2Words) : Bytes := word w.1.2 ++ (word w.1.1 ++ (word w.2.2 ++ word w.2.1))

def bytes32 (bytes : Bytes) : Bytes32 := BitVec.ofNat 256 (natBE bytes)

def sorobanArgs (fullProof : FullProof) (vk : VerifyingKey) : Except OffChain.Thrown Soroban.ProofArgs := do
  let args ← toSorobanArgs fullProof
  return {
    a := args.proofA
    b := args.proofB
    c := args.proofC
    vaultRootCommitment := bytes32 args.vaultRootCommitment
    nullifierHash := bytes32 args.nullifierHash
    documentId := bytes32 args.documentId
    alpha := g1Bytes vk.alpha
    beta := g2Bytes vk.beta
    gamma := g2Bytes vk.gamma
    delta := g2Bytes vk.delta
    ic := vk.ic.map g1Bytes }

/-- Coordinates below the order of the base field, and signals below that of the group. -/
structure Reduced (fullProof : FullProof) : Prop where
  coordinates : ∀ n ∈ fullProof.coordinates, 0 ≤ n ∧ n < fieldModulus
  signals : ∀ n ∈ fullProof.signals, 0 ≤ n ∧ n < groupOrder

/-- The numbers of a key are words. -/
structure KeyWords (vk : VerifyingKey) : Prop where
  alpha : AreWords vk.alpha
  beta : AreWords vk.beta.1 ∧ AreWords vk.beta.2
  gamma : AreWords vk.gamma.1 ∧ AreWords vk.gamma.2
  delta : AreWords vk.delta.1 ∧ AreWords vk.delta.2
  ic : ∀ w ∈ vk.ic, AreWords w

def argsOfWords (args : Args) : Soroban.ProofArgs where
  a := g1Bytes args.a
  b := g2Bytes args.b
  c := g1Bytes args.c
  vaultRootCommitment := BitVec.ofNat 256 args.vaultRootCommitment
  nullifierHash := BitVec.ofNat 256 args.nullifierHash
  documentId := BitVec.ofNat 256 args.documentId
  alpha := g1Bytes args.vkAlpha
  beta := g2Bytes args.vkBeta
  gamma := g2Bytes args.vkGamma
  delta := g2Bytes args.vkDelta
  ic := args.vkIC.map g1Bytes

theorem Reduced.fits {fullProof : FullProof} (h : Reduced fullProof) :
    (∀ n ∈ fullProof.coordinates, OffChain.ZkProof.Fits n) ∧ ∀ n ∈ fullProof.signals, OffChain.ZkProof.Fits n := by
  have hmodulus := Evm.fieldModulus_lt
  have horder := Evm.ZKAccessVerifier.groupOrder_lt
  refine ⟨fun n hn => ?_, fun n hn => ?_⟩
  · obtain ⟨hnonneg, hlt⟩ := h.coordinates n hn
    exact ⟨hnonneg, by omega⟩
  · obtain ⟨hnonneg, hlt⟩ := h.signals n hn
    exact ⟨hnonneg, by omega⟩

theorem contractArgs_words {fullProof : FullProof} (h : Reduced fullProof) {vk : VerifyingKey} (hkey : KeyWords vk) :
    (contractArgs fullProof vk).AllWords := by
  obtain ⟨hcoordinates, hsignals⟩ := h.fits
  simp only [FullProof.coordinates, FullProof.signals, List.forall_mem_cons] at hcoordinates hsignals
  obtain ⟨ha, ha', hx, hx', hy, hy', hc, hc', _⟩ := hcoordinates
  obtain ⟨hroot, hnullifier, hdocument, _⟩ := hsignals
  exact {
    vaultRootCommitment := hroot.2
    nullifierHash := hnullifier.2
    documentId := hdocument.2
    vkIC := hkey.ic
    a := ⟨ha.2, ha'.2⟩
    b := ⟨⟨hx.2, hx'.2⟩, hy.2, hy'.2⟩
    c := ⟨hc.2, hc'.2⟩
    alpha := hkey.alpha
    beta := hkey.beta
    gamma := hkey.gamma
    delta := hkey.delta }

theorem sorobanArgs_eq {fullProof : FullProof} (h : Reduced fullProof) (vk : VerifyingKey) :
    sorobanArgs fullProof vk = .ok (argsOfWords (contractArgs fullProof vk)) := by
  obtain ⟨hcoordinates, hsignals⟩ := h.fits
  have hbytes : ∀ n, bytes32 (word n) = BitVec.ofNat 256 n := fun n => by
    rw [bytes32, natBE_word]
    exact BitVec.eq_of_toNat_eq (by rw [BitVec.toNat_ofNat, BitVec.toNat_ofNat, Nat.mod_mod])
  rw [sorobanArgs, OffChain.ZkProof.toSorobanArgs_eq hcoordinates hsignals, Guarded.ok_bind]
  simp only [hbytes, argsOfWords, contractArgs, toContractArgs, g1Bytes, g2Bytes, List.append_assoc]
  rfl

/-! ## Soroban's equation -/

/-- The words are those of the points. -/
structure Encodes (x : ProofPoints) (args : Args) : Prop where
  a : coords x.A = args.a
  b : x.B.coords = args.b
  c : coords x.C = args.c
  alpha : coords x.alpha = args.vkAlpha
  beta : x.beta.coords = args.vkBeta
  gamma : x.gamma.coords = args.vkGamma
  delta : x.delta.coords = args.vkDelta
  ic : x.ic.map coords = args.vkIC

structure InBound (x : ProofPoints) : Prop where
  a : CoordsBelowBound x.A
  b : BelowBound x.B.coords
  c : CoordsBelowBound x.C
  alpha : CoordsBelowBound x.alpha
  beta : BelowBound x.beta.coords
  gamma : BelowBound x.gamma.coords
  delta : BelowBound x.delta.coords
  ic : ∀ Q ∈ x.ic, CoordsBelowBound Q

/-- `vk_x` for the signals of a call. -/
def vkX (x : ProofPoints) (args : Args) : G1 := x.vkX args.vaultRootCommitment args.nullifierHash args.documentId

/-- The equation of the Soroban contract, over the points that the words encode. -/
structure SorobanEquation (pair : G2Affine → G1Affine → Fq12) (args : Args) (x : ProofPoints) : Prop where
  ic : args.vkIC.length = 4
  encodes : Encodes x args
  inBound : InBound x
  product : x.product pair (vkX x args) = .one

theorem g1Bytes_iff {w : G1Words} (hw : AreWords w) {Q : G1} : g1Bytes w = encode Q ↔ coords Q = w := by
  constructor
  · intro h
    obtain ⟨hx, hy⟩ := List.append_inj h (by rw [word_length, word_length])
    exact Prod.ext (Evm.word_injective hw.1 (Evm.coords_word Q).1 hx).symm
      (Evm.word_injective hw.2 (Evm.coords_word Q).2 hy).symm
  · rintro rfl
    rfl

theorem g2Bytes_iff {w : G2Words} (hw : AreWords w.1 ∧ AreWords w.2) {T : Twist} :
    g2Bytes w = encodeTwist T ↔ T.coords = w := by
  constructor
  · intro h
    obtain ⟨⟨hxre, hxim⟩, hyre, hyim⟩ := Soroban.ZkVerifier.twistCoords_lt T
    have hmodulus := Evm.fieldModulus_lt
    obtain ⟨h1, h⟩ := List.append_inj h (by rw [word_length, word_length])
    obtain ⟨h2, h⟩ := List.append_inj h (by rw [word_length, word_length])
    obtain ⟨h3, h4⟩ := List.append_inj h (by rw [word_length, word_length])
    exact Prod.ext
      (Prod.ext (Evm.word_injective hw.1.1 (by omega) h2).symm (Evm.word_injective hw.1.2 (by omega) h1).symm)
      (Prod.ext (Evm.word_injective hw.2.1 (by omega) h4).symm (Evm.word_injective hw.2.2 (by omega) h3).symm)
  · rintro rfl
    rfl

theorem icBytes_iff {ic : List G1Words} (hwords : ∀ w ∈ ic, AreWords w) {Qs : List G1} :
    ic.map g1Bytes = Qs.map encode ↔ Qs.map coords = ic := by
  induction ic generalizing Qs with
  | nil =>
    rw [List.map_nil, eq_comm, List.map_eq_nil_iff, List.map_eq_nil_iff]
  | cons w ic ih =>
    rw [List.forall_mem_cons] at hwords
    cases Qs with
    | nil => exact iff_of_false (by simp) (by simp)
    | cons Q Qs =>
      rw [List.map_cons, List.map_cons, List.map_cons, List.cons.injEq, List.cons.injEq, g1Bytes_iff hwords.1,
        ih hwords.2]

theorem decoded_iff {args : Args} (hwords : args.AllWords) {x : ProofPoints} :
    x.Decoded (argsOfWords args) ↔ Encodes x args ∧ InBound x := by
  constructor
  · intro h
    exact ⟨⟨(g1Bytes_iff hwords.a).mp h.a.1, (g2Bytes_iff hwords.b).mp h.b.1, (g1Bytes_iff hwords.c).mp h.c.1,
      (g1Bytes_iff hwords.alpha).mp h.alpha.1, (g2Bytes_iff hwords.beta).mp h.beta.1,
      (g2Bytes_iff hwords.gamma).mp h.gamma.1, (g2Bytes_iff hwords.delta).mp h.delta.1,
      (icBytes_iff hwords.vkIC).mp h.ic.1⟩,
      ⟨h.a.2, h.b.2, h.c.2, h.alpha.2, h.beta.2, h.gamma.2, h.delta.2, h.ic.2⟩⟩
  · rintro ⟨h, hbelow⟩
    exact ⟨⟨(g1Bytes_iff hwords.a).mpr h.a, hbelow.a⟩, ⟨(g2Bytes_iff hwords.b).mpr h.b, hbelow.b⟩,
      ⟨(g1Bytes_iff hwords.c).mpr h.c, hbelow.c⟩, ⟨(g1Bytes_iff hwords.alpha).mpr h.alpha, hbelow.alpha⟩,
      ⟨(g2Bytes_iff hwords.beta).mpr h.beta, hbelow.beta⟩, ⟨(g2Bytes_iff hwords.gamma).mpr h.gamma, hbelow.gamma⟩,
      ⟨(g2Bytes_iff hwords.delta).mpr h.delta, hbelow.delta⟩, ⟨(icBytes_iff hwords.vkIC).mpr h.ic, hbelow.ic⟩⟩

theorem g1Bytes_length (w : G1Words) : (g1Bytes w).length = 64 := by
  rw [g1Bytes, List.length_append, word_length, word_length]

theorem g2Bytes_length (w : G2Words) : (g2Bytes w).length = 128 := by
  simp only [g2Bytes, List.length_append, word_length]

theorem argsOfWords_sized (args : Args) : Soroban.ZkVerifier.Sized (argsOfWords args) where
  a := g1Bytes_length _
  b := g2Bytes_length _
  c := g1Bytes_length _
  alpha := g1Bytes_length _
  beta := g2Bytes_length _
  gamma := g2Bytes_length _
  delta := g2Bytes_length _
  ic := fun bytes hbytes => by
    obtain ⟨w, _, rfl⟩ := List.mem_map.mp hbytes
    exact g1Bytes_length w

section View
variable {pair : G2Affine → G1Affine → Fq12} {host : Soroban.Host} {s : Soroban.State}

theorem verifyAccessProofView_words {args : Args} (hwords : args.AllWords)
    (hunspent : Soroban.isNullifierSpent s (BitVec.ofNat 256 args.nullifierHash) = .ok false) :
    Soroban.ZkVerifier.ViewAccepts (Soroban.ZkVerifier.withPairing pair host) s (argsOfWords args) ↔
      ∃ x, SorobanEquation pair args x := by
  have hsignal : ∀ n < 2 ^ 256, (BitVec.ofNat 256 n).toNat = n := fun n hn => by
    rw [BitVec.toNat_ofNat, Nat.mod_eq_of_lt hn]
  have hvkX : ∀ x : ProofPoints, x.vkX (argsOfWords args).vaultRootCommitment.toNat
      (argsOfWords args).nullifierHash.toNat (argsOfWords args).documentId.toNat = vkX x args := fun x => by
    simp only [argsOfWords, vkX, hsignal _ hwords.vaultRootCommitment, hsignal _ hwords.nullifierHash,
      hsignal _ hwords.documentId]
  have hlength : (argsOfWords args).ic.length = args.vkIC.length := List.length_map _
  have hcheck : (Soroban.ZkVerifier.withPairing pair host).groth16 = Soroban.ZkVerifier.groth16With pair := rfl
  rw [Soroban.ZkVerifier.viewAccepts_iff, hcheck, Soroban.ZkVerifier.groth16With_iff (argsOfWords_sized args), hlength]
  simp only [hvkX, decoded_iff hwords]
  constructor
  · rintro ⟨_, hic, x, ⟨hencodes, hbelow⟩, hproduct⟩
    exact ⟨x, hic, hencodes, hbelow, hproduct⟩
  · rintro ⟨x, hic, hencodes, hbelow, hproduct⟩
    exact ⟨Soroban.ZkVerifier.isNullifierSpent_false.mp hunspent, hic, x, ⟨hencodes, hbelow⟩, hproduct⟩

end View

/-! One proof before the two verifiers. The equation of the EVM's adds the pairing of `vkAlpha` that Soroban's
subtracts, its curve check is that of another modulus, and Soroban's decoding has a bound below the modulus. -/
open Evm (Pairing Precompiles AreWords)
open Evm.ZKAccessVerifier (G1Words G2Words VerifyingKey Args verifyProofView)
open OffChain.ZkProof (FullProof)
open Soroban.ZkVerifier (ProofPoints Fq12 G1Affine G2Affine affine twistAffine CoordsBelowBound)

/-! ## Agreement -/

section Agreement
variable {G2 GT : Type} [CommGroup GT] {pc : Precompiles} {pairing : Pairing G2 GT}
  {pair : G2Affine → G1Affine → Fq12} {gt : GT → Fq12}

/-- Second points are known by their coordinates, and a negated first point inverts the pairing. -/
structure Lawful (pairing : Pairing G2 GT) : Prop where
  injective : Function.Injective pairing.coords
  neg : ∀ Q R, pairing.e (-Q) R = (pairing.e Q R)⁻¹

/-- On the points of the second group the function of the contract is the pairing, its values being those of the
target group. -/
structure Realizes (pair : G2Affine → G1Affine → Fq12) (pairing : Pairing G2 GT) (gt : GT → Fq12) : Prop where
  pair : ∀ (Q : G1) (R : G2) (T : Twist), T.coords = pairing.coords R →
    pair (twistAffine T) (affine Q) = gt (pairing.e Q R)
  one : gt 1 = .one
  mul : ∀ x y, gt (x * y) = (gt x).mul (gt y)
  injective : Function.Injective gt

/-- What makes the two equations one: the typed curve check holds of `A` and `C`, `vkAlpha` is what the contract takes
for its negation, its pairing is trivial, and each side can read all points. -/
structure Compatible (pairing : Pairing G2 GT) (args : Args) (x : ProofPoints) : Prop where
  checkA : CurvePoint Evm.ZKAccessVerifier.P args.a.1 args.a.2
  checkC : CurvePoint Evm.ZKAccessVerifier.P args.c.1 args.c.2
  half : 2 * args.vkAlpha.2 = Evm.ZKAccessVerifier.P
  trivial : ∀ R, pairing.coords R = args.vkBeta → pairing.e x.alpha R = 1
  encodes : Encodes x args
  inBound : InBound x
  inGroup : ∀ w ∈ [args.b, args.vkBeta, args.vkGamma, args.vkDelta], ∃ R, pairing.coords R = w

theorem coords_injective {Q R : G1} (h : coords Q = coords R) : Q = R :=
  Option.some.inj ((point?_eq_some.mpr h).symm.trans (point?_eq_some.mpr rfl))

theorem Lawful.point (hlawful : Lawful pairing) {p : G1 × G2} {w : G1Words} {v : G2Words}
    (hp : pairing.encode p = (w, v)) {Q : G1} (hQ : coords Q = w) {R : G2} (hR : pairing.coords R = v) : p = (Q, R) :=
  Prod.ext (coords_injective ((congrArg Prod.fst hp).trans hQ.symm))
    (hlawful.injective ((congrArg Prod.snd hp).trans hR.symm))

theorem Encodes.unique {x y : ProofPoints} {args : Args} (hx : Encodes x args) (hy : Encodes y args) : x = y := by
  cases x
  cases y
  simp only [ProofPoints.mk.injEq]
  exact ⟨coords_injective (hx.a.trans hy.a.symm), Twist.coords_injective (hx.b.trans hy.b.symm),
    coords_injective (hx.c.trans hy.c.symm), coords_injective (hx.alpha.trans hy.alpha.symm),
    Twist.coords_injective (hx.beta.trans hy.beta.symm), Twist.coords_injective (hx.gamma.trans hy.gamma.symm),
    Twist.coords_injective (hx.delta.trans hy.delta.symm),
    List.map_injective_iff.mpr (fun _ _ => coords_injective) (hx.ic.trans hy.ic.symm)⟩

theorem Encodes.combination {x : ProofPoints} {args : Args} (h : Encodes x args) (hic : args.vkIC.length = 4) :
    args.combination = coords (vkX x args) := by
  have hlength : x.ic.length = 4 := by rw [← hic, ← h.ic, List.length_map]
  obtain ⟨Q₀, Q₁, Q₂, Q₃, hpoints⟩ := List.length_eq_four.mp hlength
  rw [Evm.ZKAccessVerifier.combination_coords (h.ic.symm.trans (by rw [hpoints])), vkX, ProofPoints.vkX, hpoints]
  rfl

theorem product_iff (hlawful : Lawful pairing) (hpair : Realizes pair pairing gt) {x : ProofPoints} {X : G1}
    {B beta gamma delta : G2} (hB : x.B.coords = pairing.coords B) (hbeta : x.beta.coords = pairing.coords beta)
    (hgamma : x.gamma.coords = pairing.coords gamma) (hdelta : x.delta.coords = pairing.coords delta) :
    x.product pair X = .one ↔ pairing.e x.A B * (pairing.e x.alpha beta)⁻¹ * pairing.e X gamma *
      pairing.e x.C delta = 1 := by
  rw [ProofPoints.product, hpair.pair _ _ _ hB, hpair.pair _ _ _ hbeta, hpair.pair _ _ _ hgamma,
    hpair.pair _ _ _ hdelta, hlawful.neg, ← hpair.mul, ← hpair.mul, ← hpair.mul, ← hpair.one]
  exact hpair.injective.eq_iff

theorem Compatible.equations (hlawful : Lawful pairing) (hpair : Realizes pair pairing gt) {args : Args}
    {x : ProofPoints} (h : Compatible pairing args x) :
    args.Equation pairing ↔ ∃ y, SorobanEquation pair args y := by
  have hgroup := h.inGroup
  simp only [List.forall_mem_cons] at hgroup
  obtain ⟨⟨B, hB⟩, ⟨beta, hbeta⟩, ⟨gamma, hgamma⟩, ⟨delta, hdelta⟩, _⟩ := hgroup
  have hproduct : x.product pair (vkX x args) = .one ↔
      pairing.e x.A B * pairing.e x.alpha beta * pairing.e (vkX x args) gamma * pairing.e x.C delta = 1 := by
    rw [product_iff hlawful hpair (h.encodes.b.trans hB.symm) (h.encodes.beta.trans hbeta.symm)
      (h.encodes.gamma.trans hgamma.symm) (h.encodes.delta.trans hdelta.symm), h.trivial beta hbeta, inv_one]
  have hsame : (args.vkAlpha.1, Evm.ZKAccessVerifier.P - args.vkAlpha.2) = coords x.alpha := by
    have hhalf := h.half
    rw [h.encodes.alpha]
    exact Prod.ext rfl (by show _ - _ = _; omega)
  constructor
  · intro heq
    obtain ⟨p, q, r, t, ⟨hp, hq, hr, ht⟩, hone⟩ := Evm.ZKAccessVerifier.points_iff.mp heq.points
    rw [hsame] at hq
    rw [h.encodes.combination heq.ic] at hr
    obtain rfl := hlawful.point hp h.encodes.a hB
    obtain rfl := hlawful.point hq rfl hbeta
    obtain rfl := hlawful.point hr rfl hgamma
    obtain rfl := hlawful.point ht h.encodes.c hdelta
    exact ⟨x, heq.ic, h.encodes, h.inBound, hproduct.mpr hone⟩
  · rintro ⟨y, hy⟩
    obtain rfl := hy.encodes.unique h.encodes
    refine ⟨h.checkA, h.checkC, hy.ic, ?_, Evm.ZKAccessVerifier.points_iff.mpr ⟨(y.A, B), (y.alpha, beta),
      (vkX y args, gamma), (y.C, delta), ⟨?_, ?_, ?_, ?_⟩, hproduct.mp hy.product⟩⟩
    · have hhalf := h.half
      omega
    · exact Prod.ext h.encodes.a hB
    · exact Prod.ext hsame.symm hbeta
    · exact Prod.ext (h.encodes.combination hy.ic).symm hgamma
    · exact Prod.ext h.encodes.c hdelta

theorem compatible_of_equations (hlawful : Lawful pairing) (hpair : Realizes pair pairing gt) {args : Args}
    {x : ProofPoints} (hequation : args.Equation pairing) (h : SorobanEquation pair args x) :
    Compatible pairing args x := by
  obtain ⟨⟨A, B⟩, ⟨N, beta⟩, ⟨X, gamma⟩, ⟨C, delta⟩, ⟨hp, hq, hr, ht⟩, hone⟩ :=
    Evm.ZKAccessVerifier.points_iff.mp hequation.points
  obtain ⟨ha, hb⟩ := Prod.mk_inj.mp hp
  obtain ⟨hN, hbeta⟩ := Prod.mk_inj.mp hq
  obtain ⟨hX, hgamma⟩ := Prod.mk_inj.mp hr
  obtain ⟨hc, hdelta⟩ := Prod.mk_inj.mp ht
  obtain rfl : A = x.A := coords_injective (ha.trans h.encodes.a.symm)
  obtain rfl : C = x.C := coords_injective (hc.trans h.encodes.c.symm)
  obtain rfl : X = vkX x args := coords_injective (hX.trans (h.encodes.combination h.ic))
  have halpha := h.encodes.alpha
  have hhalf : 2 * args.vkAlpha.2 = Evm.ZKAccessVerifier.P := by
    rw [← halpha] at hN ⊢
    exact Evm.ZKAccessVerifier.negated_point (halpha ▸ hequation.alpha) (point?_eq_some.mpr hN)
  obtain rfl : N = x.alpha := by
    refine coords_injective (hN.trans (Prod.ext (congrArg Prod.fst halpha).symm ?_))
    rw [halpha]
    show _ - _ = _
    omega
  have hsoroban := (product_iff hlawful hpair (h.encodes.b.trans hb.symm) (h.encodes.beta.trans hbeta.symm)
    (h.encodes.gamma.trans hgamma.symm) (h.encodes.delta.trans hdelta.symm)).mp h.product
  -- one equation has the pairing of `vkAlpha`, the other its inverse
  have htrivial : pairing.e x.alpha beta = 1 := by
    have hsame : pairing.e x.alpha beta = (pairing.e x.alpha beta)⁻¹ :=
      mul_left_cancel (mul_right_cancel (mul_right_cancel (hone.trans hsoroban.symm)))
    exact (Evm.ZKAccessVerifier.mul_self_eq_one pairing).mp (eq_inv_iff_mul_eq_one.mp hsame)
  refine ⟨hequation.checkA, hequation.checkC, hhalf, fun R hR => ?_, h.encodes, h.inBound, ?_⟩
  · rw [hlawful.injective (hR.trans hbeta.symm)]
    exact htrivial
  · simp only [List.forall_mem_cons]
    exact ⟨⟨B, hb⟩, ⟨beta, hbeta⟩, ⟨gamma, hgamma⟩, ⟨delta, hdelta⟩, fun w hw => absurd hw List.not_mem_nil⟩

def ViewsAgree (pc : Precompiles) (host : Soroban.Host) (s : Soroban.State) (fullProof : FullProof)
    (vk : VerifyingKey) : Prop :=
  verifyProofView pc (contractArgs fullProof vk) = .ok true ↔
    ∃ args, sorobanArgs fullProof vk = .ok args ∧ Soroban.ZkVerifier.ViewAccepts host s args

theorem verifyAccessProofView_sorobanArgs {host : Soroban.Host} {s : Soroban.State} {fullProof : FullProof}
    {vk : VerifyingKey} (hreduced : Reduced fullProof) (hkey : KeyWords vk)
    (hunspent : Soroban.isNullifierSpent s
      (BitVec.ofNat 256 fullProof.publicSignals.nullifierHash.toNat) = .ok false) :
    (∃ args, sorobanArgs fullProof vk = .ok args ∧
      Soroban.ZkVerifier.ViewAccepts (Soroban.ZkVerifier.withPairing pair host) s args) ↔
      ∃ x, SorobanEquation pair (contractArgs fullProof vk) x := by
  have hview := @verifyAccessProofView_words pair host s _ (contractArgs_words hreduced hkey) hunspent
  rw [← hview, sorobanArgs_eq hreduced]
  constructor
  · rintro ⟨args, hargs, h⟩
    rwa [← Except.ok.inj hargs] at h
  · exact fun h => ⟨_, rfl, h⟩

/-- The views agree exactly where neither equation holds or the two are compatible. -/
theorem verifiers_agree_iff (hpc : pc.Specified pairing) (hlawful : Lawful pairing) (hpair : Realizes pair pairing gt)
    (host : Soroban.Host) {s : Soroban.State} {fullProof : FullProof} {vk : VerifyingKey}
    (hreduced : Reduced fullProof) (hkey : KeyWords vk)
    (hunspent : Soroban.isNullifierSpent s
      (BitVec.ofNat 256 fullProof.publicSignals.nullifierHash.toNat) = .ok false) :
    ViewsAgree pc (Soroban.ZkVerifier.withPairing pair host) s fullProof vk ↔
      ((contractArgs fullProof vk).Equation pairing ∨ (∃ x, SorobanEquation pair (contractArgs fullProof vk) x) →
        ∃ x, Compatible pairing (contractArgs fullProof vk) x) := by
  rw [ViewsAgree, Evm.ZKAccessVerifier.verifyProofView_words hpc (contractArgs_words hreduced hkey),
    verifyAccessProofView_sorobanArgs hreduced hkey hunspent]
  constructor
  · intro hagree hsome
    have hequation : (contractArgs fullProof vk).Equation pairing := hsome.elim id hagree.mpr
    obtain ⟨x, hx⟩ := hagree.mp hequation
    exact ⟨x, compatible_of_equations hlawful hpair hequation hx⟩
  · intro hcompatible
    constructor
    · intro hequation
      obtain ⟨x, hx⟩ := hcompatible (.inl hequation)
      exact (hx.equations hlawful hpair).mp hequation
    · intro hsoroban
      obtain ⟨x, hx⟩ := hcompatible (.inr hsoroban)
      exact (hx.equations hlawful hpair).mpr hsoroban

end Agreement

/-! ## Second points at infinity -/

def trivialFullProof : FullProof where
  proof := { a := (1, 2), b := ((0, 0), (0, 0)), c := (1, 2) }
  publicSignals := { vaultRootCommitment := 0, nullifierHash := 5, documentId := 0 }

/-- A key whose points are at infinity, `vkAlpha` apart. -/
def infiniteKey (alpha : G1Words) : VerifyingKey where
  alpha := alpha
  beta := ((0, 0), (0, 0))
  gamma := ((0, 0), (0, 0))
  delta := ((0, 0), (0, 0))
  ic := List.replicate 4 (0, 0)

def trivialPoints (alpha : G1) : ProofPoints where
  A := Evm.ZKAccessVerifier.generator
  B := .zero
  C := Evm.ZKAccessVerifier.generator
  alpha := alpha
  beta := .zero
  gamma := .zero
  delta := .zero
  ic := List.replicate 4 0

theorem trivialFullProof_reduced : Reduced trivialFullProof where
  coordinates := by decide
  signals := by decide

theorem infiniteKey_words {alpha : G1Words} (halpha : AreWords alpha) : KeyWords (infiniteKey alpha) := by
  have hzero := Evm.ZKAccessVerifier.zero_words
  exact ⟨halpha, ⟨hzero, hzero⟩, ⟨hzero, hzero⟩, ⟨hzero, hzero⟩, fun w hw => List.eq_of_mem_replicate hw ▸ hzero⟩

theorem coords_generator : coords Evm.ZKAccessVerifier.generator = (1, 2) := coords_mk _

theorem trivialPoints_encodes (alpha : G1) :
    Encodes (trivialPoints alpha) (contractArgs trivialFullProof (infiniteKey (coords alpha))) where
  a := coords_generator
  b := rfl
  c := coords_generator
  alpha := rfl
  beta := rfl
  gamma := rfl
  delta := rfl
  ic := rfl

theorem generator_inBound : CoordsBelowBound Evm.ZKAccessVerifier.generator := by
  rw [CoordsBelowBound, coords_generator]
  decide

theorem trivialPoints_inBound {alpha : G1} (halpha : CoordsBelowBound alpha) : InBound (trivialPoints alpha) := by
  have hzero := Soroban.ZkVerifier.belowBound_zero
  exact ⟨generator_inBound, hzero, generator_inBound, halpha, hzero, hzero, hzero,
    fun Q hQ => List.eq_of_mem_replicate hQ ▸ Soroban.ZkVerifier.coordsBelowBound_zero⟩

theorem trivialPoints_equation {alpha : G1} (halpha : CoordsBelowBound alpha) :
    SorobanEquation Soroban.ZkVerifier.pairing (contractArgs trivialFullProof (infiniteKey (coords alpha)))
      (trivialPoints alpha) where
  ic := rfl
  encodes := trivialPoints_encodes alpha
  inBound := trivialPoints_inBound halpha
  product := by
    have hone : ∀ Q, Soroban.ZkVerifier.pairing (twistAffine .zero) Q = .one := Soroban.ZkVerifier.pairing_atInfinity
    rw [ProofPoints.product, trivialPoints]
    simp only [hone, Soroban.ZkVerifier.one_mul_one]

theorem infinitePairing_lawful : Lawful Evm.infinitePairing where
  injective := fun _ _ _ => rfl
  neg := fun _ _ => rfl

theorem pairing_realizes : Realizes Soroban.ZkVerifier.pairing Evm.infinitePairing (fun _ => .one) where
  pair := fun Q R T hT => by
    obtain rfl : T = .zero := Twist.coords_injective hT
    exact Soroban.ZkVerifier.pairing_atInfinity _
  one := rfl
  mul := fun _ _ => Soroban.ZkVerifier.one_mul_one.symm
  injective := fun _ _ _ => rfl

theorem trivialPoints_compatible : Compatible Evm.infinitePairing
    (contractArgs trivialFullProof (infiniteKey (coords Evm.ZKAccessVerifier.halfModulusPoint)))
    (trivialPoints Evm.ZKAccessVerifier.halfModulusPoint) where
  checkA := by decide
  checkC := by decide
  half := Evm.ZKAccessVerifier.trivialProof_accepted.alpha
  trivial := fun _ _ => rfl
  encodes := trivialPoints_encodes _
  inBound := trivialPoints_inBound (by
    rw [CoordsBelowBound, Evm.ZKAccessVerifier.halfModulusPoint, coords_mk]
    decide)
  inGroup := fun w hw => ⟨(), by
    have hzero : ∀ w ∈ List.replicate 4 (((0, 0), (0, 0)) : G2Words), ((0, 0), (0, 0)) = w := fun w hw =>
      (List.eq_of_mem_replicate hw).symm
    exact hzero w hw⟩

/-- Over half the typed modulus both accept it. -/
theorem verifiers_agree_iff_trivial : verifyProofView Evm.localPrecompiles (contractArgs trivialFullProof
    (infiniteKey (coords Evm.ZKAccessVerifier.halfModulusPoint))) = .ok true := by
  have hkey := infiniteKey_words (Evm.coords_word Evm.ZKAccessVerifier.halfModulusPoint)
  have hagree := (verifiers_agree_iff Evm.localPrecompiles_specified infinitePairing_lawful pairing_realizes
    Soroban.localHost (s := {}) trivialFullProof_reduced hkey rfl).mpr fun _ => ⟨_, trivialPoints_compatible⟩
  exact hagree.mpr ((verifyAccessProofView_sorobanArgs trivialFullProof_reduced hkey rfl).mpr
    ⟨_, trivialPoints_equation trivialPoints_compatible.inBound.alpha⟩)

/-- Under `vkAlpha = (1, 2)` the contract on Soroban accepts, and that of the EVM does not: `(1, P - 2)` is no point. -/
theorem views_disagree : Reduced trivialFullProof ∧ KeyWords (infiniteKey (1, 2)) ∧
    ¬ ViewsAgree Evm.localPrecompiles (Soroban.ZkVerifier.withVerifier Soroban.localHost) {} trivialFullProof
      (infiniteKey (1, 2)) := by
  have hkey : KeyWords (infiniteKey (1, 2)) := infiniteKey_words ⟨by decide, by decide⟩
  refine ⟨trivialFullProof_reduced, hkey, fun hagree => ?_⟩
  have hsoroban := trivialPoints_equation generator_inBound
  rw [coords_generator] at hsoroban
  have haccepts := hagree.mpr ((verifyAccessProofView_sorobanArgs trivialFullProof_reduced hkey rfl).mpr ⟨_, hsoroban⟩)
  have hequation := (Evm.ZKAccessVerifier.verifyProofView_words Evm.localPrecompiles_specified
    (contractArgs_words trivialFullProof_reduced hkey)).mp haccepts
  have hcompatible := compatible_of_equations infinitePairing_lawful pairing_realizes hequation hsoroban
  exact absurd hcompatible.half (by decide)

end ChainGuard.Link
