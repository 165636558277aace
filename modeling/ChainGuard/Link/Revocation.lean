import ChainGuard.Link.EvmOperations
import ChainGuard.Link.StellarOperations

/-! Revocation on the two contracts. Both count a version for each user of a vault, but Soroban's
`has_access` reads the flag of the document alone: after the same operations the contracts
agree all along exactly when every revocation found no other grant standing. -/
namespace ChainGuard.Link
open History
set_option autoImplicit false

section Agreement
variable {L : Type} {chain : Evm.Chain} {nft : Evm.ERC721 L} {host : Soroban.Host}
  {histE : List (Transition (Evm.State L) Evm.Invocation)} {sE : Evm.State L}
  {histS : List (Transition Soroban.State Soroban.Invocation)} {sS : Soroban.State}
  {v w : ℕ} {u : Evm.Address} {a : Soroban.Address} {ψ : ℕ → ℕ}

/-- The same operations on a vault and its linked vault, in the same order. -/
def SameOperations (v : ℕ) (u : Evm.Address) (w : ℕ) (a : Soroban.Address) (ψ : ℕ → ℕ)
    (histE : List (Transition (Evm.State L) Evm.Invocation))
    (histS : List (Transition Soroban.State Soroban.Invocation)) : Prop :=
  histS.filterMap (Soroban.operation w a) = (histE.filterMap (Evm.operation v u)).map (Operation.map ψ)

def Agree (v : ℕ) (u : Evm.Address) (a : Soroban.Address) (ψ : ℕ → ℕ) (sE : Evm.State L)
    (sS : Soroban.State) : Prop :=
  ∀ d, (sE.documents.documents d).id ≠ 0 → Evm.vaultOf sE d = v →
    sS.grants.hasAccess (ψ d) a = Evm.hasActiveAccess sE d u

theorem agree_iff (hE : Evm.VaultRun chain nft histE sE) (hS : Soroban.StellarRun host histS sS)
    (hψ : Function.Injective ψ) (hsame : SameOperations v u w a ψ histE histS)
    (hguest : ∀ t ∈ histE, Evm.Guest nft v u t) (houtside : ∀ t ∈ histS, Soroban.Outside w a t) :
    Agree v u a ψ sE sS ↔ ∀ d, Standing d (histE.filterMap (Evm.operation v u)) ↔
      Current d (histE.filterMap (Evm.operation v u)) := by
  obtain ⟨hgranted, huploaded⟩ := Evm.operations_documents (v := v) (u := u) hE
  refine forall_congr' fun d => ?_
  by_cases hdoc : (sE.documents.documents d).id ≠ 0 ∧ Evm.vaultOf sE d = v
  · have hactive := Evm.active_iff_current hE hguest hdoc.1 hdoc.2
    have hupload : .upload (ψ d) ∈ histS.filterMap (Soroban.operation w a) := by
      rw [hsame]
      exact List.mem_map.mpr ⟨.upload d, huploaded d hdoc.1 hdoc.2, rfl⟩
    have hvault := Soroban.upload_operation_document hS hupload
    have hflag := Soroban.hasAccess_iff_standing hS houtside (d := ψ d) fun w' hw' => by
      rw [hvault] at hw'
      exact (Option.some.inj hw').symm
    rw [hsame, standing_map hψ] at hflag
    rw [← hflag, ← hactive, ← Bool.eq_iff_iff]
    exact ⟨fun h => h hdoc.1 hdoc.2, fun h _ _ => h⟩
  · refine iff_of_true (fun hid hv => absurd ⟨hid, hv⟩ hdoc) (iff_of_false ?_ ?_)
    · exact fun h => hdoc (hgranted d h.granted)
    · exact fun h => hdoc (hgranted d h.granted)

/-- The contracts agree after every common part of two runs of the same operations exactly when
each revocation of the user found none of the vault's other documents granted to it. -/
theorem revocations_agree_iff (hE : Evm.VaultRun chain nft histE sE)
    (hS : Soroban.StellarRun host histS sS) (hψ : Function.Injective ψ)
    (hsame : SameOperations v u w a ψ histE histS) (hguest : ∀ t ∈ histE, Evm.Guest nft v u t)
    (houtside : ∀ t ∈ histS, Soroban.Outside w a t) :
    (∀ earlyE midE earlyS midS, Visits histE sE earlyE midE → Visits histS sS earlyS midS →
      SameOperations v u w a ψ earlyE earlyS → Agree v u a ψ midE midS) ↔
      SoleRevocations (histE.filterMap (Evm.operation v u)) := by
  rw [← standing_iff_current_throughout]
  constructor
  · intro hagree early hsuf
    obtain ⟨earlyE, hsufE, rfl⟩ := List.suffix_filterMap_iff.mp hsuf
    obtain ⟨midE, hvisitE⟩ := Visits.of_suffix sE hsufE
    have hmap : (earlyE.filterMap (Evm.operation v u)).map (Operation.map ψ) <:+
        histS.filterMap (Soroban.operation w a) := by
      rw [hsame]
      exact (hsufE.filterMap _).map _
    obtain ⟨earlyS, hsufS, hearly⟩ := List.suffix_filterMap_iff.mp hmap
    obtain ⟨midS, hvisitS⟩ := Visits.of_suffix sS hsufS
    refine (agree_iff (hvisitE.run hE) (hvisitS.run hS) hψ hearly.symm
      (fun t ht => hguest t (hsufE.subset ht)) fun t ht => houtside t (hsufS.subset ht)).mp ?_
    exact hagree earlyE midE earlyS midS hvisitE hvisitS hearly.symm
  · intro hsame' earlyE midE earlyS midS hvisitE hvisitS hearly
    refine (agree_iff (hvisitE.run hE) (hvisitS.run hS) hψ hearly
      (fun t ht => hguest t (hvisitE.suffix.subset ht))
      fun t ht => houtside t (hvisitS.suffix.subset ht)).mpr ?_
    exact hsame' _ (hvisitE.suffix.filterMap _)

end Agreement

/-! ## Two documents on both contracts -/

/-- User 9 of `openedRequest` is granted document 1. -/
def evmGranted : List Evm.Invocation :=
  Evm.openedRequest ++
    [(Evm.callBy 1 106, .approval (.approveAccess 1 [])), (Evm.callBy 2 107, .approval (.approveAccess 1 []))]

/-- Document 2 is added and granted to user 9. -/
def evmSecond : List Evm.Invocation :=
  [(Evm.callBy 1 110, .addDocument 1 [] (ascii "Qn") .READ .ANYTIME [] []),
    (Evm.callBy 9 111, .requestAccess 2), (Evm.callBy 1 112, .approval (.approveAccess 2 [])),
    (Evm.callBy 2 113, .approval (.approveAccess 2 []))]

def evmRevoked : Evm.Invocation := (Evm.callBy 3 120, .grants (.revokeAccess 1 9))

/-- Account 9 is granted document 1 of a vault of guardians 1 and 2. -/
def stellarGranted : List Soroban.Invocation :=
  Soroban.openedVault 2 ++
    [(Soroban.invokedBy [Soroban.acct 9] 105, .requestAccess (Soroban.acct 9) 1),
      (Soroban.invokedBy [Soroban.acct 1] 106, .approval (.approveAccess (Soroban.acct 1) 1 none)),
      (Soroban.invokedBy [Soroban.acct 2] 107, .approval (.approveAccess (Soroban.acct 2) 1 none))]

/-- Document 2 is added and granted to account 9. -/
def stellarSecond : List Soroban.Invocation :=
  [(Soroban.invokedBy [Soroban.acct 1] 110,
      .addDocument (Soroban.acct 1) 1 [] (ascii "Qn") .Read .Anytime [] []),
    (Soroban.invokedBy [Soroban.acct 9] 111, .requestAccess (Soroban.acct 9) 2),
    (Soroban.invokedBy [Soroban.acct 1] 112, .approval (.approveAccess (Soroban.acct 1) 2 none)),
    (Soroban.invokedBy [Soroban.acct 2] 113, .approval (.approveAccess (Soroban.acct 2) 2 none))]

def stellarRevoked : Soroban.Invocation :=
  (Soroban.invokedBy [Soroban.acct 1] 120, .grants (.revokeAccess (Soroban.acct 1) 1 (Soroban.acct 9)))

theorem exists_runs (ops : List (Operation ℕ)) (callsE : List Evm.Invocation)
    (callsS : List Soroban.Invocation) (p : Evm.State Evm.ERC721.Ledger → Bool) (q : Soroban.State → Bool)
    (hE : endsIn (Evm.call Evm.localChain Evm.ERC721.standard) (Evm.State.deployed Evm.ERC721.standard 7)
      callsE (fun hist s => decide (hist.filterMap (Evm.operation 1 9) = ops ∧
        ∀ t ∈ hist, Evm.Guest Evm.ERC721.standard 1 9 t) && p s) = true)
    (hS : endsIn (Soroban.invoke Soroban.localHost) {} callsS (fun hist s =>
      decide (hist.filterMap (Soroban.operation 1 (Soroban.acct 9)) = ops.map (Operation.map id) ∧
        ∀ t ∈ hist, Soroban.Outside 1 (Soroban.acct 9) t) && q s) = true) :
    ∃ histE sE histS sS, Evm.VaultRun Evm.localChain Evm.ERC721.standard histE sE ∧
      Soroban.StellarRun Soroban.localHost histS sS ∧
      SameOperations 1 9 1 (Soroban.acct 9) id histE histS ∧
      (∀ t ∈ histE, Evm.Guest Evm.ERC721.standard 1 9 t) ∧ (∀ t ∈ histS, Soroban.Outside 1 (Soroban.acct 9) t) ∧
      histE.filterMap (Evm.operation 1 9) = ops ∧ p sE = true ∧ q sS = true := by
  obtain ⟨histE, sE, hrunE, hendE⟩ := Evm.exists_run Evm.localChain Evm.ERC721.standard 7 callsE _ hE
  obtain ⟨histS, sS, hrunS, hendS⟩ := Soroban.exists_run Soroban.localHost callsS _ hS
  rw [Bool.and_eq_true, decide_eq_true_eq] at hendE hendS
  obtain ⟨⟨hopsE, hguest⟩, hp⟩ := hendE
  obtain ⟨⟨hopsS, houtside⟩, hq⟩ := hendS
  refine ⟨histE, sE, histS, sS, hrunE, hrunS, ?_, hguest, houtside, hopsE, hp, hq⟩
  rw [SameOperations, hopsS, hopsE]

/-- Document 1 is revoked before document 2 is granted. -/
theorem revocations_agree_one_by_one : ∃ histE sE histS sS,
    Evm.VaultRun Evm.localChain Evm.ERC721.standard histE sE ∧
      Soroban.StellarRun Soroban.localHost histS sS ∧ Evm.hasActiveAccess sE 2 9 = true ∧
      ∀ earlyE midE earlyS midS, Visits histE sE earlyE midE → Visits histS sS earlyS midS →
        SameOperations 1 9 1 (Soroban.acct 9) id earlyE earlyS → Agree 1 9 (Soroban.acct 9) id midE midS := by
  obtain ⟨histE, sE, histS, sS, hrunE, hrunS, hsame, hguest, houtside, hops, hactive, _⟩ :=
    exists_runs [.grant 2, .upload 2, .revoke 1, .grant 1, .upload 1]
      (evmGranted ++ evmRevoked :: evmSecond) (stellarGranted ++ stellarRevoked :: stellarSecond)
      (fun s => Evm.hasActiveAccess s 2 9) (fun _ => true) (by decide +kernel) (by decide +kernel)
  refine ⟨histE, sE, histS, sS, hrunE, hrunS, hactive, ?_⟩
  refine (revocations_agree_iff hrunE hrunS Function.injective_id hsame hguest houtside).mpr ?_
  rw [hops]
  simp [SoleRevocations, Standing]
  omega

/-- Both documents are granted and document 1 is revoked: on Soroban document 2 stays accessible. -/
theorem revocation_spares_other_grant : ∃ histE sE histS sS,
    Evm.VaultRun Evm.localChain Evm.ERC721.standard histE sE ∧
      Soroban.StellarRun Soroban.localHost histS sS ∧
      SameOperations 1 9 1 (Soroban.acct 9) id histE histS ∧
      (∀ t ∈ histE, Evm.Guest Evm.ERC721.standard 1 9 t) ∧ (∀ t ∈ histS, Soroban.Outside 1 (Soroban.acct 9) t) ∧
      Evm.vaultOf sE 2 = 1 ∧ Evm.hasActiveAccess sE 2 9 = false ∧
      sS.grants.hasAccess 2 (Soroban.acct 9) = true := by
  obtain ⟨histE, sE, histS, sS, hrunE, hrunS, hsame, hguest, houtside, _, hactive, haccess⟩ :=
    exists_runs [.revoke 1, .grant 2, .upload 2, .grant 1, .upload 1]
      (evmGranted ++ evmSecond ++ [evmRevoked]) (stellarGranted ++ stellarSecond ++ [stellarRevoked])
      (fun s => decide (Evm.vaultOf s 2 = 1 ∧ Evm.hasActiveAccess s 2 9 = false))
      (fun s => s.grants.hasAccess 2 (Soroban.acct 9)) (by decide +kernel) (by decide +kernel)
  obtain ⟨hvault, hinactive⟩ := of_decide_eq_true hactive
  exact ⟨histE, sE, histS, sS, hrunE, hrunS, hsame, hguest, houtside, hvault, hinactive, haccess⟩

end ChainGuard.Link
