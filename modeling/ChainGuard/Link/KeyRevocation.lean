import ChainGuard.Evm.KeyRevocation
import ChainGuard.Soroban.KeyRegistry

/-! Key revocation against another account, on both contracts. -/
namespace ChainGuard.Link
open History
set_option autoImplicit false

section Revocation
variable {L : Type} (chain : Evm.Chain) (nft : Evm.ERC721 L) (host : Soroban.Host)

/-- The registered key of an account is safe from all other accounts exactly when it is revoked
already or, on the EVM side, nobody can rotate: a guarded call is running, or no key is left. -/
theorem registered_key_safe_iff :
    (∀ histE (sE : Evm.State L), Evm.VaultRun chain nft histE sE → ∀ account,
      sE.keys.userPublicKeys account ≠ [] →
        (Evm.KeySafe chain nft sE account ↔
          Evm.isKeyRevoked chain sE (sE.keys.userPublicKeys account) = true ∨ sE.frame ≠ none ∨
            Evm.NoneLeft chain sE (sE.keys.userPublicKeys account))) ∧
    ∀ histS sS, Soroban.StellarRun host histS sS → ∀ account publicKey,
      Soroban.getPublicKey sS.identities account = some publicKey →
        (Soroban.KeySafe host sS account publicKey ↔
          Soroban.isKeyRevoked sS.identities publicKey = true) :=
  ⟨fun _ _ _ _ hkey => Evm.keySafe_iff hkey, fun _ _ h _ _ _ => Soroban.keySafe_iff h⟩

end Revocation

/-- The local chain with a hash that tells short strings apart. -/
def plainChain : Evm.Chain := { Evm.localChain with keccak256 := fun b => BitVec.ofNat 256 (natBE b) }

/-- While a pass is being minted, the fresh key of guardian 2 is safe; on the other contract it is
not. -/
theorem registered_key_safe_minting :
    (∃ hist s, Evm.VaultRun plainChain Evm.ERC721.standard hist s ∧
      s.keys.userPublicKeys 2 = ascii "K" ∧ Evm.isKeyRevoked plainChain s (ascii "K") = false ∧
        Evm.KeySafe plainChain Evm.ERC721.standard s 2) ∧
    ∃ hist s, Soroban.StellarRun Soroban.localHost hist s ∧
      ¬ Soroban.KeySafe Soroban.localHost s (Soroban.acct 2) (ascii "K") := by
  obtain ⟨hsafe, hexposed⟩ := registered_key_safe_iff plainChain Evm.ERC721.standard Soroban.localHost
  constructor
  · obtain ⟨hist, s, hrun, hend⟩ := Evm.exists_run plainChain Evm.ERC721.standard 7
      [(Evm.callBy 1 100, .createVault (ascii "vault") [] [2] 1),
        (Evm.callBy 2 101, .keys (.registerPublicKey (ascii "K"))),
        (Evm.callBy 1 102, .mintAccessToken 1 9 [])]
      (fun _ s => decide (s.keys.userPublicKeys 2 = ascii "K" ∧
        Evm.isKeyRevoked plainChain s (ascii "K") = false ∧ s.frame ≠ none)) (by decide +kernel)
    obtain ⟨hkey, hfresh, hframe⟩ := of_decide_eq_true hend
    have hregistered : s.keys.userPublicKeys 2 ≠ [] := by
      rw [hkey]
      decide
    exact ⟨hist, s, hrun, hkey, hfresh,
      (hsafe hist s hrun 2 hregistered).mpr (Or.inr (Or.inl hframe))⟩
  · obtain ⟨hist, s, hrun, hend⟩ := Soroban.exists_run Soroban.localHost
      [(Soroban.invokedBy [Soroban.acct 2] 100,
        .identities (.registerPublicKey (Soroban.acct 2) (ascii "K")))]
      (fun _ s => decide (Soroban.getPublicKey s.identities (Soroban.acct 2) = some (ascii "K") ∧
        Soroban.isKeyRevoked s.identities (ascii "K") = false)) (by decide +kernel)
    obtain ⟨hkey, hfresh⟩ := of_decide_eq_true hend
    refine ⟨hist, s, hrun, fun hsafe' => ?_⟩
    have hrevoked := (hexposed hist s hrun (Soroban.acct 2) (ascii "K") hkey).mp hsafe'
    rw [hfresh] at hrevoked
    cases hrevoked

/-- Guardian 2 has a registered key, and an outsider requests the document of guardian 1. -/
def keyedGuardian : List Evm.Invocation :=
  Evm.openedRequest ++ [(Evm.callBy 2 106, .keys (.registerPublicKey (ascii "K")))]

/-- Outsider 8 registers the key of guardian 2 and rotates away from it: the approval of guardian 2,
accepted before, fails afterwards. -/
theorem guardian_silenced : ∃ hist s later s', Evm.VaultRun plainChain Evm.ERC721.standard hist s ∧
    RunFrom (Evm.Steps plainChain Evm.ERC721.standard) s later s' ∧
      (∀ t ∈ later, Evm.RotatedByStranger 2 t) ∧ s.keys.userPublicKeys 2 = ascii "K" ∧
        Evm.isKeyRevoked plainChain s (ascii "K") = false ∧
          Evm.isKeyRevoked plainChain s' (ascii "K") = true ∧
            (∃ accepted, Evm.Steps plainChain Evm.ERC721.standard s
              (Evm.callBy 2 109, .approval (.approveAccess 1 [])) accepted) ∧
              Evm.exec plainChain Evm.ERC721.standard (Evm.callBy 2 109) s'
                (.approval (.approveAccess 1 [])) = .error .RevokedPublicKey := by
  obtain ⟨hist, s, hrun, hend⟩ := Evm.exists_run plainChain Evm.ERC721.standard 7 keyedGuardian
    (fun _ s => decide (s.keys.userPublicKeys 2 = ascii "K" ∧
        Evm.isKeyRevoked plainChain s (ascii "K") = false) &&
      stepsTo (Evm.call plainChain Evm.ERC721.standard)
        (Evm.callBy 2 109, .approval (.approveAccess 1 [])) (fun _ _ => true) s &&
      endsIn (Evm.call plainChain Evm.ERC721.standard) s
        [(Evm.callBy 8 107, .keys (.registerPublicKey (ascii "K"))),
          (Evm.callBy 8 108, .keys (.revokeKey (ascii "K") (ascii "L")))]
        (fun later s' => decide ((∀ t ∈ later, Evm.RotatedByStranger 2 t) ∧
          Evm.isKeyRevoked plainChain s' (ascii "K") = true) &&
          failsWith (Evm.call plainChain Evm.ERC721.standard)
            (Evm.callBy 2 109, .approval (.approveAccess 1 [])) .RevokedPublicKey s'))
    (by decide +kernel)
  simp only [Bool.and_eq_true, decide_eq_true_eq] at hend
  obtain ⟨⟨⟨hkey, hfresh⟩, haccepted⟩, hlater⟩ := hend
  obtain ⟨accepted, hstep, _⟩ := stepsTo_iff.mp haccepted
  obtain ⟨later, s', hrun', hend'⟩ := exists_runFrom_of_endsIn hlater
  simp only [Bool.and_eq_true, decide_eq_true_eq] at hend'
  obtain ⟨⟨hstrangers, hrevoked⟩, hfails⟩ := hend'
  exact ⟨hist, s, later, s', hrun, hrun', hstrangers, hkey, hfresh, hrevoked, ⟨accepted, hstep⟩,
    failsWith_iff.mp hfails⟩

end ChainGuard.Link
