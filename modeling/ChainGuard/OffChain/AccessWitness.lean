import ChainGuard.Library.Bn254
import ChainGuard.OffChain.ZkProof

/-! The circuit `BeneficiaryAccessProof` and what the client gives its prover. -/
namespace ChainGuard.OffChain.AccessWitness
open ZkProof
set_option autoImplicit false

/-! ## The circuit -/

/-- The input signals. -/
inductive Signal
  | privateKey | secretShare | blindingFactor | vaultRootCommitment | nullifierHash | documentId
  deriving DecidableEq

def Signal.name : Signal → JsString
  | .privateKey => js "privateKey"
  | .secretShare => js "secretShare"
  | .blindingFactor => js "blindingFactor"
  | .vaultRootCommitment => js "vaultRootCommitment"
  | .nullifierHash => js "nullifierHash"
  | .documentId => js "documentId"

/-- Values of all signals. -/
structure Signals (F : Type) where
  input : Signal → F
  computedCommitment : F
  computedNullifier : F

/-- The hashes that the circuit includes. -/
structure Poseidon (F : Type) where
  two : F → F → F
  three : F → F → F → F

variable {F : Type}

/-- The constraints of the template. -/
structure BeneficiaryAccessProof (poseidon : Poseidon F) (w : Signals F) : Prop where
  commitmentHasher : w.computedCommitment =
    poseidon.three (w.input .privateKey) (w.input .secretShare) (w.input .blindingFactor)
  commitment : w.input .vaultRootCommitment = w.computedCommitment
  nullifierHasher : w.computedNullifier = poseidon.two (w.input .privateKey) (w.input .documentId)
  nullifier : w.input .nullifierHash = w.computedNullifier

def Assigns [IntCast F] (assignment : Assignment) (w : Signals F) : Prop :=
  ∀ s : Signal, ∃ value n, assignment.lookup s.name = some value ∧ bigintOfString value = some n ∧ w.input s = (n : F)

/-- The record has a witness, so that there is a proof to be made. -/
def Satisfies [IntCast F] (poseidon : Poseidon F) (assignment : Assignment) : Prop :=
  ∃ w, Assigns assignment w ∧ BeneficiaryAccessProof poseidon w

theorem Assigns.input_eq [IntCast F] {assignment : Assignment} {w : Signals F} (h : Assigns assignment w) {s : Signal}
    {n : ℤ} (hn : assignment.lookup s.name = some (bigintString n)) : w.input s = (n : F) := by
  obtain ⟨value, n', hvalue, hn', hw⟩ := h s
  rw [hn] at hvalue
  rw [← Option.some.inj hvalue, bigintOfString_bigintString] at hn'
  rw [hw, Option.some.inj hn']

theorem satisfies_iff [IntCast F] {poseidon : Poseidon F} {assignment : Assignment} {value : Signal → ℤ}
    (hvalue : ∀ s, assignment.lookup s.name = some (bigintString (value s))) :
    Satisfies poseidon assignment ↔
      ((value .vaultRootCommitment : ℤ) : F) =
        poseidon.three (value .privateKey : ℤ) (value .secretShare : ℤ) (value .blindingFactor : ℤ) ∧
      ((value .nullifierHash : ℤ) : F) = poseidon.two (value .privateKey : ℤ) (value .documentId : ℤ) := by
  constructor
  · rintro ⟨w, hassigns, hcircuit⟩
    simp only [← hassigns.input_eq (hvalue _)]
    exact ⟨hcircuit.commitment.trans hcircuit.commitmentHasher, hcircuit.nullifier.trans hcircuit.nullifierHasher⟩
  · rintro ⟨hcommitment, hnullifier⟩
    let w : Signals F :=
      { input := fun s => (value s : ℤ)
        computedCommitment := (value .vaultRootCommitment : ℤ)
        computedNullifier := (value .nullifierHash : ℤ) }
    have hassigns : Assigns assignment w := fun s => ⟨_, _, hvalue s, bigintOfString_bigintString _, rfl⟩
    exact ⟨w, hassigns, hcommitment, rfl, hnullifier, rfl⟩

/-! ## The record of the client -/

theorem proverInput_privateKey (input : ZkProofInput) :
    (proverInput input).lookup (Signal.name .privateKey) = none := rfl

/-- The record, with the key once more under the name of the circuit. -/
def renamedInput (input : ZkProofInput) : Assignment :=
  (Signal.name .privateKey, bigintString input.beneficiaryPrivateKey) :: proverInput input

def renamedValue (input : ZkProofInput) : Signal → ℤ
  | .privateKey => input.beneficiaryPrivateKey
  | .secretShare => input.secretShare
  | .blindingFactor => input.blindingFactor
  | .vaultRootCommitment => (computePublicSignals input).vaultRootCommitment
  | .nullifierHash => (computePublicSignals input).nullifierHash
  | .documentId => input.documentId

theorem renamedInput_lookup (input : ZkProofInput) (s : Signal) :
    (renamedInput input).lookup s.name = some (bigintString (renamedValue input s)) := by
  cases s <;> rfl

/-- The commitment constraint fixes the hash of the key, and the commitment of the client is the same for every key. -/
theorem renamed_hash [IntCast F] {poseidon : Poseidon F} {key key' share blinding doc : ℤ}
    (h : Satisfies poseidon (renamedInput ⟨key, share, blinding, doc⟩))
    (h' : Satisfies poseidon (renamedInput ⟨key', share, blinding, doc⟩)) :
    poseidon.three (key : F) share blinding = poseidon.three (key' : F) share blinding := by
  have hkey := ((satisfies_iff (renamedInput_lookup _)).mp h).1
  have hkey' := ((satisfies_iff (renamedInput_lookup _)).mp h').1
  exact hkey.symm.trans hkey'

/-- Where the hash depends on the key, some key in the field has no witness. -/
theorem renamed_unsatisfied {p : ℕ} [NeZero p] {poseidon : Poseidon (ZMod p)} {share blinding : ℤ} (doc : ℤ)
    {k k' : ZMod p} (hne : poseidon.three k share blinding ≠ poseidon.three k' share blinding) :
    ∃ key : ℕ, key < p ∧ ¬ Satisfies poseidon (renamedInput ⟨key, share, blinding, doc⟩) := by
  by_contra hall
  push Not at hall
  have hk := hall k.val (ZMod.val_lt k)
  have hk' := hall k'.val (ZMod.val_lt k')
  have heq := renamed_hash hk hk'
  rw [Int.cast_natCast, Int.cast_natCast, ZMod.natCast_zmod_val, ZMod.natCast_zmod_val] at heq
  exact hne heq

theorem proverInput_unsatisfied [IntCast F] (poseidon : Poseidon F) (input : ZkProofInput) :
    ¬ Satisfies poseidon (proverInput input) := by
  rintro ⟨w, hassigns, _⟩
  obtain ⟨value, _, hvalue, _⟩ := hassigns .privateKey
  rw [proverInput_privateKey] at hvalue
  cases hvalue

/-! ## No input has a witness -/

/-- The hashes depend on each argument. -/
structure Poseidon.Depends (poseidon : Poseidon F) : Prop where
  two_fst : ∀ b, ∃ a a', poseidon.two a b ≠ poseidon.two a' b
  two_snd : ∀ a, ∃ b b', poseidon.two a b ≠ poseidon.two a b'
  three_fst : ∀ b c, ∃ a a', poseidon.three a b c ≠ poseidon.three a' b c
  three_snd : ∀ a c, ∃ b b', poseidon.three a b c ≠ poseidon.three a b' c
  three_trd : ∀ a b, ∃ c c', poseidon.three a b c ≠ poseidon.three a b c'

/-- All values are below the order of the scalars. -/
structure InField (input : ZkProofInput) : Prop where
  beneficiaryPrivateKey : 0 ≤ input.beneficiaryPrivateKey ∧ input.beneficiaryPrivateKey < Bn254.groupOrder
  secretShare : 0 ≤ input.secretShare ∧ input.secretShare < Bn254.groupOrder
  blindingFactor : 0 ≤ input.blindingFactor ∧ input.blindingFactor < Bn254.groupOrder
  documentId : 0 ≤ input.documentId ∧ input.documentId < Bn254.groupOrder

instance : Fact (1 < Bn254.groupOrder) := ⟨by decide⟩

instance : NeZero Bn254.groupOrder := ⟨by decide⟩

/-- The circuit's input `privateKey` has no value in what the client gives the prover, whatever the hashes
and the input are; nor is the name all that is missing, since with the key under that name the
commitment, which the client computes without it, has no witness for some key. -/
theorem access_witness_never (poseidon : Poseidon (ZMod Bn254.groupOrder)) :
    (∀ input : ZkProofInput, ¬ Satisfies poseidon (proverInput input)) ∧
      (poseidon.Depends → ∀ share blinding doc : ℤ, ∃ key : ℕ, key < Bn254.groupOrder ∧
        ¬ Satisfies poseidon (renamedInput ⟨key, share, blinding, doc⟩)) := by
  refine ⟨proverInput_unsatisfied poseidon, fun hdepends share blinding doc => ?_⟩
  obtain ⟨k, k', hne⟩ := hdepends.three_fst share blinding
  exact renamed_unsatisfied doc hne

/-- Hashes that add. -/
def sums : Poseidon (ZMod Bn254.groupOrder) := ⟨fun a b => a + b, fun a b c => a + b + c⟩

theorem sums_depends : sums.Depends where
  two_fst b := ⟨0, 1, by simp [sums]⟩
  two_snd a := ⟨0, 1, by simp [sums]⟩
  three_fst b c := ⟨0, 1, by simp [sums]⟩
  three_snd a c := ⟨0, 1, by simp [sums]⟩
  three_trd a b := ⟨0, 1, by simp [sums]⟩

theorem access_witness_never_sums : ¬ Satisfies sums (proverInput ⟨1, 2, 3, 4⟩) ∧
    ∃ key : ℕ, key < Bn254.groupOrder ∧ ¬ Satisfies sums (renamedInput ⟨key, 2, 3, 4⟩) :=
  ⟨(access_witness_never sums).1 _, (access_witness_never sums).2 sums_depends 2 3 4⟩

/-- The record of a holder of a share has no witness. -/
theorem access_witness_unassigned : sums.Depends ∧ InField ⟨1, 2, 3, 4⟩ ∧
    ¬ Satisfies sums (proverInput ⟨1, 2, 3, 4⟩) := by
  refine ⟨sums_depends, ⟨by decide, by decide, by decide, by decide⟩, ?_⟩
  exact proverInput_unsatisfied sums _

end ChainGuard.OffChain.AccessWitness
