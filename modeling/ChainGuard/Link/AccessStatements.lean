import ChainGuard.Evm.SpentNullifiers
import ChainGuard.Soroban.ZkVerifier

/-! Access statements on the two chains: whether one can be spent again under another encoding. -/
namespace ChainGuard.Link
open Bn254 History Spending
set_option autoImplicit false

theorem oneTicket_of_reduced {σ ι α : Type} {states : Transition σ ι → Option Signals}
    {hist : List (Transition σ ι)} (ticket : ℕ → α)
    (h : ∀ t ∈ hist, ∀ x, states t = some x → x.nullifierHash < groupOrder) :
    OneTicket states (Signals.Congruent groupOrder) (fun x => ticket x.nullifierHash) hist := by
  intro t earlier hsuffix u hu a b ha hb hcongruent
  have hearlier : u ∈ hist := hsuffix.subset (List.mem_cons_of_mem _ hu)
  have hlater : t ∈ hist := hsuffix.subset (List.mem_cons_self ..)
  exact congrArg ticket (hcongruent.nullifierHash_eq (h u hearlier a ha) (h t hlater b hb))

/-! ## The counterexample's calls -/

def trivialArgs : Evm.ZKAccessVerifier.Args :=
  Evm.ZKAccessVerifier.trivialProof.args Evm.infinitePairing

/-- A key of points at infinity. -/
def emptyKey : Soroban.ZkVerifier.VerifyingKey := Soroban.ZkVerifier.vkOf (Soroban.ZkVerifier.emptyProof 0 0 0)

theorem trivialArgs_words : trivialArgs.Words where
  vaultRootCommitment := by decide
  nullifierHash := by decide
  documentId := by decide
  vkIC := by decide

theorem trivialArgs_inGroup : ∀ w ∈ trivialArgs.vk.ic, Evm.ZKAccessVerifier.InGroup w := by
  have hzero : ∀ w ∈ trivialArgs.vk.ic, w = (0, 0) := by decide
  intro w hw Q hQ
  rw [hzero w hw, point?_eq_some, coords_eq_zero] at hQ
  rw [hQ, nsmul_zero]

theorem trivialArgs_checks : Evm.ZKAccessVerifier.Checks Evm.localPrecompiles trivialArgs := by
  have hverifies := @Evm.ZKAccessVerifier.verifyProof_iff Unit Unit _ _ _ Evm.localPrecompiles_correct _
    Evm.ZKAccessVerifier.trivialProof_valid 8 (fun _ => false) rfl
  obtain ⟨logs, hverify⟩ := hverifies.mpr Evm.ZKAccessVerifier.trivialProof_accepted
  have hstep : Evm.ZKAccessVerifier.Steps Evm.localPrecompiles (fun _ => false) ⟨8, trivialArgs⟩ _ :=
    ⟨trivialArgs_words, logs, hverify⟩
  exact (Evm.ZKAccessVerifier.steps_iff.mp hstep).2.2.1

section Verifiers
open Evm.ZKAccessVerifier

/-- On either chain a run accepts each statement once exactly when it accepts none under two encodings
of its nullifier, in particular when it is given reduced nullifiers only. The key of the EVM verifier
for which every run does is one under which no call passes the checks. -/
theorem statements_spent_once_iff {G2 GT : Type} [CommGroup GT] {pc : Evm.Precompiles}
    {pairing : Evm.Pairing G2 GT} (hpc : pc.Correct pairing) (hinvalid : pc.RejectsInvalid)
    (vk : VerifyingKey) (hgroup : ∀ w ∈ vk.ic, InGroup w) (host : Soroban.Host)
    (vk' : Soroban.ZkVerifier.VerifyingKey) :
    (∀ hist s, VerifierRun pc hist s →
      (StatementsOnce (accepted vk) (Signals.Congruent groupOrder) hist ↔
        OneTicket (accepted vk) (Signals.Congruent groupOrder) Signals.nullifierHash hist) ∧
      ((∀ t ∈ hist, ∀ x, accepted vk t = some x → x.nullifierHash < groupOrder) →
        StatementsOnce (accepted vk) (Signals.Congruent groupOrder) hist)) ∧
    ((∀ hist s, VerifierRun pc hist s →
        StatementsOnce (accepted vk) (Signals.Congruent groupOrder) hist) ↔
      ∀ c : Call, c.args.vk = vk → c.args.Words → ¬ Checks pc c.args) ∧
    ∀ hist s, Soroban.StellarRun (Soroban.ZkVerifier.withVerifier host) hist s →
      (StatementsOnce (Soroban.ZkVerifier.accepted vk') (Signals.Congruent groupOrder) hist ↔
        OneTicket (Soroban.ZkVerifier.accepted vk') (Signals.Congruent groupOrder)
          (fun x => BitVec.ofNat 256 x.nullifierHash) hist) ∧
      ((∀ t ∈ hist, ∀ x, Soroban.ZkVerifier.accepted vk' t = some x → x.nullifierHash < groupOrder) →
        StatementsOnce (Soroban.ZkVerifier.accepted vk') (Signals.Congruent groupOrder) hist) := by
  refine ⟨?_, key_once_iff hpc hinvalid hgroup, ?_⟩
  · intro hist s h
    have honce := statements_once_iff vk h
    exact ⟨honce, fun hreduced => honce.mpr (oneTicket_of_reduced id hreduced)⟩
  · intro hist s h
    have honce := Soroban.ZkVerifier.statements_once_iff vk' h
    exact ⟨honce, fun hreduced => honce.mpr (oneTicket_of_reduced (BitVec.ofNat 256) hreduced)⟩

/-- No run under the key of `trivialProof` is safe from it, as that proof is accepted. -/
theorem statements_spent_once_trivial : ¬ ∀ hist s,
    Evm.ZKAccessVerifier.VerifierRun Evm.localPrecompiles hist s →
      StatementsOnce (Evm.ZKAccessVerifier.accepted trivialArgs.vk) (Signals.Congruent groupOrder) hist := by
  have hiff := (statements_spent_once_iff Evm.localPrecompiles_correct Evm.localPrecompiles_rejectsInvalid
    trivialArgs.vk trivialArgs_inGroup Soroban.localHost emptyKey).2.1
  rw [hiff]
  exact fun hnone => hnone ⟨8, trivialArgs⟩ rfl trivialArgs_words trivialArgs_checks

/-- Two calls on each chain whose nullifiers differ by the order of the group, both accepted. -/
theorem statement_spent_twice :
    (∃ hist s, Evm.ZKAccessVerifier.VerifierRun Evm.localPrecompiles hist s ∧
      hist.map (fun t => t.label) = [⟨8, trivialArgs.withNullifier (5 + groupOrder)⟩, ⟨8, trivialArgs⟩] ∧
      ¬ StatementsOnce (Evm.ZKAccessVerifier.accepted trivialArgs.vk) (Signals.Congruent groupOrder) hist) ∧
    ∃ hist s, Soroban.StellarRun (Soroban.ZkVerifier.withVerifier Soroban.localHost) hist s ∧
      hist.map (fun t => t.label.2) =
        [.verifyAccessProof (Soroban.acct 1)
            (Soroban.ZkVerifier.emptyProof 0 (BitVec.ofNat 256 (5 + groupOrder)) 0),
          .verifyAccessProof (Soroban.acct 1) (Soroban.ZkVerifier.emptyProof 0 5 0)] ∧
      ¬ StatementsOnce (Soroban.ZkVerifier.accepted emptyKey) (Signals.Congruent groupOrder) hist := by
  constructor
  · have hstep : Evm.ZKAccessVerifier.Steps Evm.localPrecompiles (fun _ => false) ⟨8, trivialArgs⟩ _ :=
      Evm.ZKAccessVerifier.steps_iff.mpr ⟨trivialArgs_words, rfl, trivialArgs_checks, rfl⟩
    refine Evm.ZKAccessVerifier.accepted_again Evm.localPrecompiles_correct
      Evm.localPrecompiles_rejectsInvalid trivialArgs_inGroup hstep (by decide) (by decide) ?_
    exact Nat.add_modEq_right
  · have hauth : Soroban.acct 1 ∈ (Soroban.invokedBy [Soroban.acct 1] 100).authorized :=
      List.mem_singleton_self _
    refine Soroban.ZkVerifier.emptyProof_accepted_again hauth (by decide) ?_
    decide

end Verifiers

end ChainGuard.Link
