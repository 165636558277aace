import ChainGuard.Evm.SpentNullifiers
import ChainGuard.Soroban.ZkVerifier

/-! The verifying key comes with the call: on either chain one proof under one key spends whatever nullifier it is
sent with. -/
namespace ChainGuard.Link
open Bn254 History
set_option autoImplicit false

/-! ## Soroban -/

section Stellar
open Soroban Soroban.ZkVerifier

def underKey (args : ProofArgs) (vk : Soroban.ZkVerifier.VerifyingKey) : ProofArgs :=
  { args with alpha := vk.alpha, beta := vk.beta, gamma := vk.gamma, delta := vk.delta, ic := vk.ic }

/-- Someone can submit the call, and it spends the nullifier. -/
def Submittable (host : Host) (s : State) (args : ProofArgs) : Prop :=
  ∃ env submitter s', Soroban.Steps host s (env, .verifyAccessProof submitter args) s' ∧
    s'.entries (toStorageBytes args.nullifierHash) = some .spent

/-- For these signals the key that comes with a call does not matter. -/
def KeyIrrelevant (host : Host) (s : State) (vaultRootCommitment nullifierHash documentId : Bytes32) : Prop :=
  ∀ args : ProofArgs, args.vaultRootCommitment = vaultRootCommitment → args.nullifierHash = nullifierHash →
    args.documentId = documentId → ∀ vk, Submittable host s args ↔ Submittable host s (underKey args vk)

theorem submittable_iff {host : Host} {s : State} {args : ProofArgs} :
    Submittable (withVerifier host) s args ↔ s.entries (toStorageBytes args.nullifierHash) = none ∧ Passes args := by
  constructor
  · rintro ⟨env, submitter, s', hstep, _⟩
    simp only [Soroban.Steps, exec, Guarded.bind_ok] at hstep
    obtain ⟨out, hverify, _⟩ := hstep
    obtain ⟨hnone, hpasses, _⟩ := verifyProof_iff.mp (verifyAccessProof_ok.mp hverify).2
    exact ⟨hnone, hpasses⟩
  · rintro ⟨hnone, hpasses⟩
    have hauth : acct 1 ∈ (invokedBy [acct 1] 0).authorized := List.mem_singleton_self _
    refine ⟨_, _, _, (submission_iff hauth).mpr ⟨hnone, hpasses, rfl⟩, ?_⟩
    rw [verified_entries, markNullifierSpent_self]

theorem emptyProof_submittable {host : Host} {s : State} (vaultRootCommitment nullifierHash documentId : Bytes32) :
    Submittable (withVerifier host) s (emptyProof vaultRootCommitment nullifierHash documentId) ↔
      s.entries (toStorageBytes nullifierHash) = none := by
  rw [submittable_iff]
  exact and_iff_left (emptyProof_passes ..)

theorem keyIrrelevant_iff {host : Host} {s : State} (vaultRootCommitment nullifierHash documentId : Bytes32) :
    KeyIrrelevant (withVerifier host) s vaultRootCommitment nullifierHash documentId ↔
      s.entries (toStorageBytes nullifierHash) ≠ none := by
  constructor
  · intro h hnone
    have haccepted : Submittable (withVerifier host) s (emptyProof vaultRootCommitment nullifierHash documentId) :=
      (emptyProof_submittable _ _ _).mpr hnone
    have hshort := (h _ rfl rfl rfl ⟨[], [], [], [], []⟩).mp haccepted
    have hic : (0 : ℕ) = 4 := (submittable_iff.mp hshort).2.ic
    exact absurd hic (by decide)
  · rintro hentry args _ rfl _ vk
    refine iff_of_false (fun haccepted => ?_) fun haccepted => ?_
    · exact hentry (submittable_iff.mp haccepted).1
    · exact hentry (submittable_iff.mp haccepted).1

end Stellar

/-! ## EVM -/

section Evm
open Evm Evm.ZKAccessVerifier

variable {G2 GT : Type} [CommGroup GT] {pc : Precompiles} {pairing : Pairing G2 GT}

/-- A point at infinity of the second group, encoded as zeros and pairing to one. -/
structure AtInfinity (pairing : Pairing G2 GT) (O : G2) : Prop where
  coords : pairing.coords O = ((0, 0), (0, 0))
  pairs : ∀ R, pairing.e R O = 1

/-- `A` and `C` pass the typed check, `vkAlpha` is what the verifier takes for its negation, and all other points are at
infinity. -/
def forgedProof (O : G2) (x : Signals) : AccessProof G2 where
  A := generator
  B := O
  C := generator
  vaultRootCommitment := x.vaultRootCommitment
  nullifierHash := x.nullifierHash
  documentId := x.documentId
  alpha := halfModulusPoint
  beta := O
  gamma := O
  delta := O
  ic0 := 0
  ic1 := 0
  ic2 := 0
  ic3 := 0

/-- The arguments of a proof with other public signals. -/
def withSignals (args : Args) (x : Signals) : Args :=
  { args with
    vaultRootCommitment := x.vaultRootCommitment
    nullifierHash := x.nullifierHash
    documentId := x.documentId }

/-- The arguments of a proof under another key. -/
def withKey (args : Args) (vk : VerifyingKey) : Args :=
  { args with vkAlpha := vk.alpha, vkBeta := vk.beta, vkGamma := vk.gamma, vkDelta := vk.delta, vkIC := vk.ic }

def Accepted (pc : Precompiles) (spent : ℕ → Bool) (args : Args) : Prop :=
  ∃ sender spent', Evm.ZKAccessVerifier.Steps pc spent ⟨sender, args⟩ spent' ∧ spent' args.nullifierHash = true

/-- For these signals the key that comes with a call does not matter. -/
def KeyIgnored (pc : Precompiles) (spent : ℕ → Bool) (x : Signals) : Prop :=
  ∀ args : Args, args.Words → args.signals = x → ∀ vk, Accepted pc spent args ↔ Accepted pc spent (withKey args vk)

theorem accepted_iff {spent : ℕ → Bool} {args : Args} :
    Accepted pc spent args ↔ args.Words ∧ spent args.nullifierHash = false ∧ Checks pc args := by
  constructor
  · rintro ⟨sender, spent', hstep, _⟩
    obtain ⟨hwords, hunspent, hchecks, _⟩ := steps_iff.mp hstep
    exact ⟨hwords, hunspent, hchecks⟩
  · rintro ⟨hwords, hunspent, hchecks⟩
    exact ⟨8, _, steps_iff.mpr ⟨hwords, hunspent, hchecks, rfl⟩, Function.update_self ..⟩

theorem generator_check : isOnG1 (coords generator).1 (coords generator).2 = true := by
  rw [generator, coords_mk]
  decide

theorem halfModulusPoint_half : 2 * (coords halfModulusPoint).2 = P := by
  rw [halfModulusPoint, coords_mk]
  decide

theorem forgedProof_checks (hpc : pc.Correct pairing) {O : G2} (hO : AtInfinity pairing O) {x : Signals}
    (hroot : x.vaultRootCommitment < 2 ^ 256) (hnullifier : x.nullifierHash < 2 ^ 256)
    (hdocument : x.documentId < 2 ^ 256) : Checks pc ((forgedProof O x).args pairing) := by
  have hle : (coords (forgedProof O x).alpha).2 ≤ P := by
    have hhalf := halfModulusPoint_half
    show (coords halfModulusPoint).2 ≤ P
    omega
  have hproduct : pairing.product (forgedProof O x).pairs = 1 := by
    show (pairing.e generator O * (pairing.e halfModulusPoint O * (pairing.e (forgedProof O x).vkX O *
      (pairing.e generator O * 1)))) = 1
    simp only [hO.pairs, mul_one]
  refine ⟨generator_check, generator_check, rfl, _, ?_, (pairingHolds_iff hpc hle).mpr ⟨halfModulusPoint_half, hproduct⟩⟩
  rw [linearCombination_words hpc hroot hnullifier hdocument]
  exact pairings_ok.mpr ⟨hle, rfl⟩

theorem forgedProof_words (O : G2) {x : Signals} (hroot : x.vaultRootCommitment < 2 ^ 256)
    (hnullifier : x.nullifierHash < 2 ^ 256) (hdocument : x.documentId < 2 ^ 256) :
    ((forgedProof O x).args pairing).Words where
  vaultRootCommitment := hroot
  nullifierHash := hnullifier
  documentId := hdocument
  vkIC := by
    have hzero : ∀ w ∈ List.replicate 4 ((0, 0) : ℕ × ℕ), w.1 < 2 ^ 256 ∧ w.2 < 2 ^ 256 := by decide
    exact hzero

theorem forgedProof_accepted (hpc : pc.Correct pairing) {O : G2} (hO : AtInfinity pairing O) {spent : ℕ → Bool}
    {x : Signals} (hroot : x.vaultRootCommitment < 2 ^ 256) (hnullifier : x.nullifierHash < 2 ^ 256)
    (hdocument : x.documentId < 2 ^ 256) :
    Accepted pc spent ((forgedProof O x).args pairing) ↔ spent x.nullifierHash = false := by
  rw [accepted_iff]
  constructor
  · exact fun h => h.2.1
  · exact fun hunspent => ⟨forgedProof_words O hroot hnullifier hdocument, hunspent,
      forgedProof_checks hpc hO hroot hnullifier hdocument⟩

theorem keyIgnored_iff (hpc : pc.Correct pairing) {O : G2} (hO : AtInfinity pairing O) {spent : ℕ → Bool}
    {x : Signals} (hroot : x.vaultRootCommitment < 2 ^ 256) (hnullifier : x.nullifierHash < 2 ^ 256)
    (hdocument : x.documentId < 2 ^ 256) : KeyIgnored pc spent x ↔ spent x.nullifierHash = true := by
  constructor
  · intro h
    by_contra hunspent
    rw [Bool.not_eq_true] at hunspent
    have haccepted := (forgedProof_accepted hpc hO hroot hnullifier hdocument).mpr hunspent
    have hshort := (h _ (forgedProof_words O hroot hnullifier hdocument) rfl
      ⟨(0, 0), ((0, 0), (0, 0)), ((0, 0), (0, 0)), ((0, 0), (0, 0)), []⟩).mp haccepted
    have hlength : (0 : ℕ) = 4 := (accepted_iff.mp hshort).2.2.vkIC
    exact absurd hlength (by decide)
  · rintro hspent args _ rfl vk
    refine iff_of_false (fun haccepted => ?_) fun haccepted => ?_
    · exact Bool.false_ne_true ((accepted_iff.mp haccepted).2.1.symm.trans hspent)
    · exact Bool.false_ne_true ((accepted_iff.mp haccepted).2.1.symm.trans hspent)

end Evm

/-! ## Both chains -/

/-- On either chain the key that comes with a call is irrelevant for exactly the signals whose nullifier is spent, or on
Soroban has bytes of `aggregate_share` under its key, where nothing is accepted any more; and there is one proof under one
key that is accepted in every state with all others. -/
theorem spent_without_witness_iff {G2 GT : Type} [CommGroup GT] {pc : Evm.Precompiles} {pairing : Evm.Pairing G2 GT}
    (hpc : pc.Correct pairing) {O : G2} (hO : AtInfinity pairing O) :
    (∀ host hist s, Soroban.StellarRun (Soroban.ZkVerifier.withVerifier host) hist s → ∀ root nullifier document,
      (KeyIrrelevant (Soroban.ZkVerifier.withVerifier host) s root nullifier document ↔
        s.entries (Soroban.toStorageBytes nullifier) ≠ none) ∧
      (Submittable (Soroban.ZkVerifier.withVerifier host) s (Soroban.ZkVerifier.emptyProof root nullifier document) ↔
        s.entries (Soroban.toStorageBytes nullifier) = none)) ∧
    ∃ forged : Evm.ZKAccessVerifier.Args, ∀ hist spent, Evm.ZKAccessVerifier.VerifierRun pc hist spent → ∀ x : Signals,
      x.vaultRootCommitment < 2 ^ 256 → x.nullifierHash < 2 ^ 256 → x.documentId < 2 ^ 256 →
        (KeyIgnored pc spent x ↔ spent x.nullifierHash = true) ∧
        (Accepted pc spent (withSignals forged x) ↔ spent x.nullifierHash = false) := by
  refine ⟨fun host hist s _ root nullifier document => ⟨keyIrrelevant_iff .., emptyProof_submittable ..⟩,
    (forgedProof O ⟨0, 0, 0⟩).args pairing, fun hist spent _ x hroot hnullifier hdocument => ?_⟩
  exact ⟨keyIgnored_iff hpc hO hroot hnullifier hdocument, forgedProof_accepted hpc hO hroot hnullifier hdocument⟩

theorem infinitePairing_atInfinity : AtInfinity Evm.infinitePairing () := ⟨rfl, fun _ => rfl⟩

/-- The same at the precompiles for points at infinity. -/
theorem spent_without_witness_local : ∃ forged : Evm.ZKAccessVerifier.Args,
    Accepted Evm.localPrecompiles (fun _ => false) (withSignals forged ⟨7, 5, 9⟩) ∧
      ¬ KeyIgnored Evm.localPrecompiles (fun _ => false) ⟨7, 5, 9⟩ := by
  obtain ⟨_, forged, hforged⟩ := spent_without_witness_iff Evm.localPrecompiles_correct infinitePairing_atInfinity
  obtain ⟨hkey, haccepted⟩ := hforged [] _ (.start rfl) ⟨7, 5, 9⟩ (by decide) (by decide) (by decide)
  exact ⟨forged, haccepted.mpr rfl, fun hignored => Bool.false_ne_true (hkey.mp hignored)⟩

/-- Freshly deployed, either contract spends nullifier 5 for a caller without a witness. -/
theorem nullifier_spent_without_witness :
    Submittable (Soroban.ZkVerifier.withVerifier Soroban.localHost) {} (Soroban.ZkVerifier.emptyProof 7 5 9) ∧
      ¬ KeyIrrelevant (Soroban.ZkVerifier.withVerifier Soroban.localHost) {} 7 5 9 ∧
      Accepted Evm.localPrecompiles (fun _ => false) ((forgedProof () ⟨7, 5, 9⟩).args Evm.infinitePairing) ∧
      ¬ KeyIgnored Evm.localPrecompiles (fun _ => false) ⟨7, 5, 9⟩ := by
  refine ⟨(emptyProof_submittable 7 5 9).mpr rfl, fun h => ?_, ?_, fun h => ?_⟩
  · exact (keyIrrelevant_iff 7 5 9).mp h rfl
  · exact (forgedProof_accepted Evm.localPrecompiles_correct infinitePairing_atInfinity (by decide) (by decide)
      (by decide)).mpr rfl
  · exact Bool.false_ne_true ((keyIgnored_iff Evm.localPrecompiles_correct infinitePairing_atInfinity (by decide)
      (by decide) (by decide)).mp h)

end ChainGuard.Link
