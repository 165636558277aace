import ChainGuard.Evm.AccessGrants
import ChainGuard.Evm.Roster

/-! The supply of passes. A pass that exists was minted for a vault and is counted once in the
supply and once in its owner's balance, so the guards that keep the counters of `_update` from
going below zero never have anything to keep. -/
namespace ChainGuard.Evm
open Guarded History
set_option autoImplicit false

variable {L : Type} {chain : Chain} {nft : ERC721 L} {env : Env} {t t' : Tokens L} {a a' : Grants}
  {s s' : State L} {logs : List Event} {id : ℕ} {recipient auth : Address}
  {hist : List (Transition (State L) Invocation)}

/-! ## The passes that exist -/

/-- The numbers of the passes that have an owner. -/
def liveIds (nft : ERC721 L) (t : Tokens L) : List ℕ :=
  (List.range (t.tokenIdCounter + 1)).filter fun id => nft.ownerOf t.ledger id != 0

theorem liveIds_nodup (nft : ERC721 L) (t : Tokens L) : (liveIds nft t).Nodup :=
  List.nodup_range.filter _

theorem TokensOk.mem_liveIds (h : TokensOk nft t a) (id : ℕ) :
    id ∈ liveIds nft t ↔ nft.ownerOf t.ledger id ≠ 0 := by
  rw [liveIds, List.mem_filter, List.mem_range]
  constructor
  · rintro ⟨_, howned⟩
    simpa using howned
  · intro howned
    have hle := h.minted howned
    exact ⟨Nat.lt_succ_of_le hle, by simpa using howned⟩

theorem liveIds_length (nft : ERC721 L) (t : Tokens L) : (liveIds nft t).length =
    (List.range (t.tokenIdCounter + 1)).countP fun id => nft.ownerOf t.ledger id != 0 :=
  List.countP_eq_length_filter.symm

/-! ## The supply across one move -/

theorem Moved.liveIds_length (h : Moved nft t a id recipient t' a') (hid : id ≤ t.tokenIdCounter) :
    (liveIds nft t').length + (if nft.ownerOf t.ledger id = 0 then 0 else 1) =
      (liveIds nft t).length + if recipient = 0 then 0 else 1 := by
  have hchange := Tally.countP_change (l := List.range (t.tokenIdCounter + 1)) List.nodup_range
    (List.mem_range.mpr (Nat.lt_succ_of_le hid))
    (p := fun j => Function.update (nft.ownerOf t.ledger) id recipient j != 0)
    (q := fun j => nft.ownerOf t.ledger j != 0)
    (fun j hj => by rw [Function.update_of_ne hj])
  simp only [Function.update_self] at hchange
  rw [Evm.liveIds_length, Evm.liveIds_length, h.owner, h.counter]
  have hflag : ∀ x : Address, (x != 0).toNat = if x = 0 then 0 else 1 := by
    intro x
    by_cases hx : x = 0
    · rw [hx]
      rfl
    · rw [bne_iff_ne.mpr hx, if_neg hx]
      rfl
  rw [hflag, hflag] at hchange
  exact hchange

/-! ## The invariant -/

/-- The supply counts the passes that exist, and each of them was minted for a vault. -/
structure SupplyOk (nft : ERC721 L) (t : Tokens L) : Prop where
  supply : t.activeTokenSupply = (liveIds nft t).length
  bound : ∀ id, nft.ownerOf t.ledger id ≠ 0 → t.tokenVaultMapping id ≠ 0

theorem SupplyOk.deployed (nft : ERC721 L) : SupplyOk nft { ledger := nft.deployed } where
  supply := by simp [liveIds, nft.ownerOf_deployed]
  bound := fun id howned => absurd (nft.ownerOf_deployed id) howned

theorem SupplyOk.moved (hI : SupplyOk nft t) (hid : id ≤ t.tokenIdCounter)
    (hvault : t.tokenVaultMapping id ≠ 0) (h : Moved nft t a id recipient t' a') : SupplyOk nft t' where
  supply := by
    have hlive := h.liveIds_length hid
    rw [h.supply, hI.supply]
    split_ifs at hlive ⊢ <;> omega
  bound := fun j howned => by
    rw [h.mapping]
    by_cases hj : j = id
    · exact hj ▸ hvault
    · rw [h.owner, Function.update_of_ne hj] at howned
      exact hI.bound j howned

theorem SupplyOk.numbered (hI : SupplyOk nft t) (hT : TokensOk nft t a) (w : ℕ) :
    SupplyOk nft { t with
      tokenIdCounter := t.tokenIdCounter + 1
      tokenVaultMapping := Function.update t.tokenVaultMapping (t.tokenIdCounter + 1) w } where
  supply := by
    have hshort := Tally.countP_range_eq (p := fun id => nft.ownerOf t.ledger id != 0)
      (Nat.le_succ (t.tokenIdCounter + 1)) (fun id hid => by
        rw [hT.unminted id hid]
        rfl)
    rw [Evm.liveIds_length]
    refine Eq.trans ?_ hshort.symm
    rw [← Evm.liveIds_length]
    exact hI.supply
  bound := fun j howned => by
    have hj : j ≠ t.tokenIdCounter + 1 := by
      rintro rfl
      exact howned (hT.unminted _ (Nat.lt_succ_self _))
    dsimp only
    rw [Function.update_of_ne hj]
    exact hI.bound j howned

theorem SupplyOk.forgotten (hI : SupplyOk nft t) (hgone : nft.ownerOf t.ledger id = 0)
    (uris : ℕ → Bytes) : SupplyOk nft { t with
      tokenVaultMapping := Function.update t.tokenVaultMapping id 0, tokenURIs := uris } where
  supply := hI.supply
  bound := fun j howned => by
    have hj : j ≠ id := by
      rintro rfl
      exact howned hgone
    dsimp only
    rw [Function.update_of_ne hj]
    exact hI.bound j howned

theorem SupplyOk.approved (hI : SupplyOk nft t) {ledger : L}
    (howners : nft.ownerOf ledger = nft.ownerOf t.ledger) : SupplyOk nft { t with ledger } where
  supply := by
    unfold liveIds
    rw [howners]
    exact hI.supply
  bound := by
    rw [howners]
    exact hI.bound

/-! ## Every call -/

def TokenCall.moves : TokenCall → Option ℕ
  | .burnAccessToken tokenId => some tokenId
  | .transferFrom _ _ tokenId => some tokenId
  | .safeTransferFrom _ _ tokenId => some tokenId
  | .approve _ _ => none
  | .setApprovalForAll _ _ => none

/-- What the guards of `_update` ask of a pass that leaves its owner. -/
structure GuardsPass (nft : ERC721 L) (t : Tokens L) (id : ℕ) : Prop where
  owned : nft.ownerOf t.ledger id ≠ 0
  bound : t.tokenVaultMapping id ≠ 0
  balance : 0 < t.ownedVaultTokenBalance (nft.ownerOf t.ledger id) (t.tokenVaultMapping id)
  supply : 0 < t.activeTokenSupply

theorem SupplyOk.guardsPass (hI : SupplyOk nft t) (hT : TokensOk nft t a)
    (howned : nft.ownerOf t.ledger id ≠ 0) : GuardsPass nft t id where
  owned := howned
  bound := hI.bound id howned
  balance := hT.owner_balance howned (hI.bound id howned) rfl rfl
  supply := by
    rw [hI.supply]
    exact List.length_pos_of_mem ((hT.mem_liveIds id).mpr howned)

theorem execTokens_supply {c : TokenCall} (hI : SupplyOk nft s.tokens) (hT : TokensOk nft s.tokens s.grants)
    (h : execTokens nft env s c = .ok ((t', a'), logs)) :
    SupplyOk nft t' ∧ ∀ id ∈ c.moves, GuardsPass nft s.tokens id := by
  cases c with
  | burnAccessToken id =>
    obtain ⟨burned, hmoved, howned, rfl⟩ := burnAccessToken_ok h
    have hguards := hI.guardsPass hT howned
    have hgone : nft.ownerOf burned.ledger id = 0 := by rw [hmoved.owner, Function.update_self]
    refine ⟨(hI.moved (hT.minted howned) hguards.bound hmoved).forgotten hgone _, ?_⟩
    rintro _ ⟨⟩
    exact hguards
  | transferFrom source recipient id | safeTransferFrom source recipient id =>
    obtain ⟨hmoved, howned⟩ := transferFrom_ok h
    have hguards := hI.guardsPass hT howned
    refine ⟨hI.moved (hT.minted howned) hguards.bound hmoved, ?_⟩
    rintro _ ⟨⟩
    exact hguards
  | approve recipient id =>
    simp only [execTokens, approveToken, bind_ok, pure_ok, Prod.mk.injEq] at h
    obtain ⟨ledger, happrove, ⟨rfl, rfl⟩, _⟩ := h
    exact ⟨hI.approved (nft.ownerOf_approve happrove), fun _ hid => by cases hid⟩
  | setApprovalForAll operator approved =>
    simp only [execTokens, setApprovalForAll, bind_ok, pure_ok, Prod.mk.injEq] at h
    obtain ⟨ledger, hset, ⟨rfl, rfl⟩, _⟩ := h
    exact ⟨hI.approved (nft.ownerOf_setApprovalForAll hset), fun _ hid => by cases hid⟩

theorem mintAccessToken_supply {g : Governance} {vaultId : ℕ} {uri : Bytes} {frame : Frame}
    (hI : SupplyOk nft t) (hT : TokensOk nft t a) (hg : RosterOk g)
    (h : mintAccessToken nft env g t a vaultId recipient uri = .ok ((t', a'), frame)) :
    SupplyOk nft t' := by
  have hmoved := mintAccessToken_ok h
  simp only [mintAccessToken, bind_ok, revertIf_ok, exists_const, Bool.not_eq_false] at h
  obtain ⟨_, hguardian, _⟩ := h
  have hnumbered := hI.numbered hT vaultId
  refine hnumbered.moved le_rfl ?_ hmoved
  dsimp only
  rw [Function.update_self]
  exact Nat.one_le_iff_ne_zero.mp (hg.guardian_existing hguardian).1

theorem supplyOk (h : VaultRun chain nft hist s) : SupplyOk nft s.tokens := by
  refine h.relates (R := fun _ s => SupplyOk nft s.tokens) ?_ ?_
  · rintro s ⟨deployer, rfl⟩
    exact SupplyOk.deployed nft
  · intro hist s i s' hr hI hstep
    cases hstep.effect with
    | mint _ hmint => exact mintAccessToken_supply hI (tokensOk hr) (rosterOk hr) hmint
    | tokens hexec => exact (execTokens_supply hI (tokensOk hr) hexec).1
    | tokenReceived _ => exact ⟨hI.supply, hI.bound⟩
    | _ => exact hI

/-! ## The accounting of a run -/

def movedPass (t : Transition (State L) Invocation) : Option ℕ :=
  match t.label.2 with
  | .tokens c => c.moves
  | _ => none

theorem Steps.guardsPass {i : Invocation} (hr : VaultRun chain nft hist s)
    (hstep : Steps chain nft s i s') (hid : id ∈ movedPass ⟨s, i, s'⟩) : GuardsPass nft s.tokens id := by
  cases hstep.effect with
  | tokens hexec => exact (execTokens_supply (supplyOk hr) (tokensOk hr) hexec).2 id hid
  | _ => cases hid

theorem ownedVaultTokenBalance_eq (h : VaultRun chain nft hist s) (u : Address) (v : ℕ) :
    s.tokens.ownedVaultTokenBalance u v = (liveIds nft s.tokens).countP fun id =>
      nft.ownerOf s.tokens.ledger id == u && s.tokens.tokenVaultMapping id == v := by
  have hT := tokensOk h
  by_cases huv : u = 0 ∨ v = 0
  · rw [hT.nobody u v huv]
    symm
    rw [List.countP_eq_zero]
    intro id hid hcounted
    rw [hT.mem_liveIds] at hid
    simp only [Bool.and_eq_true, beq_iff_eq] at hcounted
    rcases huv with rfl | rfl
    · exact hid hcounted.1
    · exact (supplyOk h).bound id hid hcounted.2
  · rw [not_or] at huv
    rw [hT.balance u v huv.1 huv.2, liveTokens, liveIds, List.countP_filter]
    refine List.countP_congr fun id _ => ?_
    simp only [Bool.and_eq_true, beq_iff_eq, bne_iff_ne]
    constructor
    · rintro ⟨howner, hmap⟩
      exact ⟨⟨howner, hmap⟩, howner ▸ huv.1⟩
    · exact fun hall => hall.1

/-- The accounting of the passes: the supply is the number of passes that have an owner, a balance
the number of those its holder has of the vault, and whatever is burned or transferred passes
the guards of `_update`. -/
theorem pass_accounting (h : VaultRun chain nft hist s) :
    ((liveIds nft s.tokens).Nodup ∧
        ∀ id, id ∈ liveIds nft s.tokens ↔ nft.ownerOf s.tokens.ledger id ≠ 0) ∧
      s.tokens.activeTokenSupply = (liveIds nft s.tokens).length ∧
      (∀ u v, s.tokens.ownedVaultTokenBalance u v = (liveIds nft s.tokens).countP fun id =>
        nft.ownerOf s.tokens.ledger id == u && s.tokens.tokenVaultMapping id == v) ∧
      (∀ id ∈ liveIds nft s.tokens, GuardsPass nft s.tokens id) ∧
      ∀ t ∈ hist, ∀ id ∈ movedPass t, GuardsPass nft t.pre.tokens id := by
  refine ⟨⟨liveIds_nodup nft _, (tokensOk h).mem_liveIds⟩, (supplyOk h).supply,
    ownedVaultTokenBalance_eq h, ?_, ?_⟩
  · intro id hid
    exact (supplyOk h).guardsPass (tokensOk h) (((tokensOk h).mem_liveIds id).mp hid)
  · intro t ht id hid
    obtain ⟨_, _, hr, hstep⟩ := h.of_mem ht
    exact hstep.guardsPass hr hid

/-- A pass minted for 9, passed on from inside the hook, passed to its holder itself, next to a
pass that is burned. -/
theorem pass_accounting_reentered : ∃ hist s, VaultRun localChain ERC721.standard hist s ∧
    (liveIds ERC721.standard s.tokens = [1] ∧ s.tokens.ledger.owners 1 = 8) ∧
      s.tokens.activeTokenSupply = (liveIds ERC721.standard s.tokens).length := by
  obtain ⟨hist, s, hrun, hend⟩ := exists_run localChain ERC721.standard 7
    [(callBy 1 100, .createVault (ascii "vault") [] [2] 1),
      (callBy 1 101, .mintAccessToken 1 9 []),
      (callBy 9 101, .tokens (.transferFrom 9 8 1)),
      (callBy 9 101, .tokenReceived),
      (callBy 8 102, .tokens (.transferFrom 8 8 1)),
      (callBy 1 103, .mintAccessToken 1 9 []),
      (callBy 9 103, .tokenReceived),
      (callBy 9 104, .tokens (.burnAccessToken 2))]
    (fun _ s => decide (liveIds ERC721.standard s.tokens = [1] ∧ s.tokens.ledger.owners 1 = 8))
    (by decide +kernel)
  exact ⟨hist, s, hrun, of_decide_eq_true hend, (pass_accounting hrun).2.1⟩

end ChainGuard.Evm
