import ChainGuard.Evm.Quorum

/-! What the aggregated signature of a batch approval establishes. Without the pairing
precompile the fallback decides, and it looks at the lengths and flags of key and signature
only: neither the registered keys nor the signature's content nor the caller take part. -/
namespace ChainGuard.Evm
open Guarded History
set_option autoImplicit false

variable {L : Type} {chain : Chain} {nft : ERC721 L} {env : Env} {s : State L}

/-! ## The fallback -/

/-- The keys and signatures that pass the structural checks. -/
def WellFormedKey (aggPk : Bytes) : Prop := BLS.isValidG1Compressed aggPk = true ∨ aggPk.length = 96

def WellFormedSignature (sig : Bytes) : Prop := BLS.isValidG2Compressed sig = true ∨ sig.length = 192

theorem WellFormedKey.long {aggPk : Bytes} (h : WellFormedKey aggPk) : 48 ≤ aggPk.length := by
  rcases h with h | h
  · simp only [BLS.isValidG1Compressed, Bool.and_eq_true, beq_iff_eq] at h
    omega
  · omega

theorem WellFormedSignature.long {sig : Bytes} (h : WellFormedSignature sig) : 96 ≤ sig.length := by
  rcases h with h | h
  · simp only [BLS.isValidG2Compressed, Bool.and_eq_true, beq_iff_eq] at h
    omega
  · omega

theorem verifyAggregated_fallback (hkeccak : ∀ b, chain.keccak256 b ≠ 0)
    (hpairing : ∀ input, chain.blsPairing input = none) (aggPk sig : Bytes) {digest : Bytes32}
    (hdigest : digest ≠ 0) :
    BLS.verifyAggregated chain aggPk sig digest = true ↔ WellFormedKey aggPk ∧ WellFormedSignature sig := by
  unfold BLS.verifyAggregated
  split
  · next hkey =>
    refine iff_of_false (by simp) (fun h => ?_)
    rcases h.1 with hk | hk <;> simp [hk] at hkey
  · next hkey =>
    split
    · next hsig =>
      refine iff_of_false (by simp) (fun h => ?_)
      rcases h.2 with hs | hs <;> simp [hs] at hsig
    · next hsig =>
      have hk : WellFormedKey aggPk := by
        by_contra hno
        simp only [WellFormedKey, not_or] at hno
        exact hkey (by simp [hno.1, hno.2])
      have hs : WellFormedSignature sig := by
        by_contra hno
        simp only [WellFormedSignature, not_or] at hno
        exact hsig (by simp [hno.1, hno.2])
      refine iff_of_true ?_ ⟨hk, hs⟩
      have hne : ∀ b, (chain.keccak256 b).toNat ≠ 0 := fun b hb =>
        hkeccak b (BitVec.eq_of_toNat_eq hb)
      have hdig : ¬ digest = 0#256 := hdigest
      simp [hpairing, hk.long, hs.long, hdig, hne]

/-! ## Acceptance -/

/-- The call does not revert, and leaves these requests and grants. -/
def Accepts (chain : Chain) (env : Env) (s : State L) (requestId : ℕ) (guardianAddresses : List Address)
    (sig aggPk : Bytes) (shares : List Bytes) (q : Requests) (a : Grants) : Prop :=
  ∃ logs, approveAccessBLS chain env s requestId guardianAddresses sig aggPk shares = .ok ((q, a), logs)

theorem Accepts.replace (hkeccak : ∀ b, chain.keccak256 b ≠ 0)
    (hpairing : ∀ input, chain.blsPairing input = none) {requestId : ℕ} {guardianAddresses : List Address}
    {sig aggPk : Bytes} {shares : List Bytes} {q : Requests} {a : Grants}
    (h : Accepts chain env s requestId guardianAddresses sig aggPk shares q a) {sender : Address}
    (hne : sender ≠ 0) {sig' aggPk' : Bytes} (hkey : WellFormedKey aggPk') (hsig : WellFormedSignature sig') :
    Accepts chain { env with sender, sender_ne := hne } s requestId guardianAddresses sig' aggPk' shares q a := by
  obtain ⟨logs, h⟩ := h
  have hverified : ∀ digest : Bytes32, digest ≠ 0 → BLS.verifyAggregated chain aggPk' sig' digest = true :=
    fun digest hd => (verifyAggregated_fallback hkeccak hpairing aggPk' sig' hd).mpr ⟨hkey, hsig⟩
  simp only [approveAccessBLS, BLS.verifyThresholdApproval, bind_ok, revertIf_ok, exists_const,
    pure_ok, Prod.mk.injEq, checkPendingRequest_ok] at h
  obtain ⟨hpending, hlen, ⟨processed, events⟩, hloop, ⟨hlen', _⟩, hq, _⟩ := h
  refine ⟨events ++ [.BLSAccessApproved requestId (requestVault s requestId) guardianAddresses.length sig'] ++
    (settleRequest s processed requestId (requestVault s requestId)).2, ?_⟩
  simp only [approveAccessBLS, BLS.verifyThresholdApproval, bind_ok, revertIf_ok, exists_const,
    pure_ok, Prod.mk.injEq, checkPendingRequest_ok]
  refine ⟨⟨hpending.existing, hpending.pending, hpending.unexpired⟩, hlen, (processed, events), hloop,
    ⟨hlen', ?_⟩, hq, rfl⟩
  rw [Bool.not_eq_true', Bool.not_eq_false]
  exact hverified _ (hkeccak _)

/-- A compressed key and another one. -/
def someKey (last : UInt8) : Bytes := 0x80 :: List.replicate 46 0 ++ [last]

theorem someKey_wellFormed (last : UInt8) : WellFormedKey (someKey last) :=
  Or.inl (by simp [someKey, BLS.isValidG1Compressed, BLS.compressionFlag])

theorem exists_other_key (aggPk : Bytes) : ∃ aggPk', aggPk' ≠ aggPk ∧ WellFormedKey aggPk' := by
  by_cases h : someKey 0 = aggPk
  · refine ⟨someKey 1, fun h' => ?_, someKey_wellFormed 1⟩
    exact absurd (h.trans h'.symm) (by decide)
  · exact ⟨someKey 0, h, someKey_wellFormed 0⟩

/-- No accepted batch is authentic: it is accepted for another aggregated key, for every
well-formed signature, and from every caller, with the same effect. -/
theorem batch_not_authentic (hkeccak : ∀ b, chain.keccak256 b ≠ 0)
    (hpairing : ∀ input, chain.blsPairing input = none)
    {requestId : ℕ} {guardianAddresses : List Address} {sig aggPk : Bytes} {shares : List Bytes}
    {q : Requests} {a : Grants}
    (h : Accepts chain env s requestId guardianAddresses sig aggPk shares q a) :
    (∃ aggPk', aggPk' ≠ aggPk ∧ Accepts chain env s requestId guardianAddresses sig aggPk' shares q a) ∧
      (∀ sig', WellFormedSignature sig' →
        Accepts chain env s requestId guardianAddresses sig' aggPk shares q a) ∧
      ∀ sender (hne : sender ≠ 0), Accepts chain { env with sender, sender_ne := hne } s requestId guardianAddresses sig aggPk shares q a := by
  have hwf : WellFormedKey aggPk ∧ WellFormedSignature sig := by
    obtain ⟨logs, h'⟩ := h
    exact (verifyAggregated_fallback hkeccak hpairing aggPk sig (hkeccak _)).mp (approveAccessBLS_ok h').verified
  refine ⟨?_, ?_, ?_⟩
  · obtain ⟨aggPk', hne, hkey⟩ := exists_other_key aggPk
    exact ⟨aggPk', hne, h.replace hkeccak hpairing env.sender_ne hkey hwf.2⟩
  · intro sig' hsig
    exact h.replace hkeccak hpairing env.sender_ne hwf.1 hsig
  · intro sender hne
    exact h.replace hkeccak hpairing hne hwf.1 hwf.2

/-- The request of `openedRequest`, once guardians 1 and 2 have registered batch keys. -/
def registeredKeys : List Invocation :=
  openedRequest ++
    [(callBy 1 106, .keys (.registerGuardianBLSKey 1 (someKey 1) (0x80 :: List.replicate 95 0))),
      (callBy 2 107, .keys (.registerGuardianBLSKey 1 (someKey 2) (0x80 :: List.replicate 95 0)))]

/-- The request's status after 8, who is nobody's guardian, sends a batch in the name of 1 and 2. -/
def statusAfterBatch (s : State L) (sig aggPk : Bytes) : Option RequestStatus :=
  match approveAccessBLS localChain (callBy 8 108) s 1 [1, 2] sig aggPk [] with
  | .ok ((q, _), _) => some (q.accessRequests 1).status
  | .error _ => none

theorem statusAfterBatch_accepts {s : State L} {sig aggPk : Bytes}
    (h : statusAfterBatch s sig aggPk = some .APPROVED) :
    ∃ q a, Accepts localChain (callBy 8 108) s 1 [1, 2] sig aggPk [] q a ∧
      (q.accessRequests 1).status = .APPROVED := by
  unfold statusAfterBatch at h
  split at h
  · next q a logs heq => exact ⟨q, a, ⟨logs, heq⟩, Option.some.inj h⟩
  · cases h

theorem batch_not_authentic_registered : ∃ hist s, VaultRun localChain ERC721.standard hist s ∧
    ∃ q a, Accepts localChain (callBy 8 108) s 1 [1, 2] (0x80 :: List.replicate 95 0) (someKey 9) [] q a ∧
      ∃ aggPk', aggPk' ≠ someKey 9 ∧
        Accepts localChain (callBy 8 108) s 1 [1, 2] (0x80 :: List.replicate 95 0) aggPk' [] q a := by
  obtain ⟨hist, s, hrun, hend⟩ := exists_run localChain ERC721.standard 7 registeredKeys
    (fun _ s => statusAfterBatch s (0x80 :: List.replicate 95 0) (someKey 9) == some .APPROVED)
    (by decide +kernel)
  obtain ⟨q, a, haccepts, _⟩ := statusAfterBatch_accepts (eq_of_beq hend)
  exact ⟨hist, s, hrun, q, a, haccepts,
    (batch_not_authentic localChain_keccak256 (fun _ => rfl) haccepts).1⟩

/-- An outsider moves a pending request to `APPROVED` with a key and a signature of zeros. -/
theorem outsider_approves_by_batch : ∃ hist s, VaultRun localChain ERC721.standard hist s ∧
    s.governance.isGuardian 1 8 = false ∧ PendingAt (callBy 8 108) s 1 ∧
    ∀ sig aggPk, WellFormedSignature sig → WellFormedKey aggPk →
      ∃ q a, Accepts localChain (callBy 8 108) s 1 [1, 2] sig aggPk [] q a ∧
        (q.accessRequests 1).status = .APPROVED := by
  obtain ⟨hist, s, hrun, hend⟩ := exists_run localChain ERC721.standard 7 registeredKeys
    (fun _ s => statusAfterBatch s (0x80 :: List.replicate 95 0) (someKey 9) == some .APPROVED &&
      !s.governance.isGuardian 1 8)
    (by decide +kernel)
  rw [Bool.and_eq_true, Bool.not_eq_true'] at hend
  obtain ⟨q, a, haccepts, hstatus⟩ := statusAfterBatch_accepts (eq_of_beq hend.1)
  have hpending : PendingAt (callBy 8 108) s 1 := by
    obtain ⟨logs, h⟩ := haccepts
    exact (approveAccessBLS_ok h).pending
  refine ⟨hist, s, hrun, hend.2, hpending, fun sig aggPk hsig hkey => ⟨q, a, ?_, hstatus⟩⟩
  exact haccepts.replace localChain_keccak256 (fun _ => rfl) (callBy 8 108).sender_ne hkey hsig

end ChainGuard.Evm
