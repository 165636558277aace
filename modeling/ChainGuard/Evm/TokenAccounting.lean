import ChainGuard.Evm.Contract

/-! The balances behind a vault's passes. Along every run the stored balance of a holder is the
number of passes of the vault the ledger shows, and an access version never goes back: it
rises exactly when a balance drops to zero or an access is revoked. -/
namespace ChainGuard.Evm
open Guarded History
set_option autoImplicit false

variable {L : Type} {chain : Chain} {nft : ERC721 L} {env : Env} {t t' : Tokens L} {a a' : Grants}
  {s s' : State L} {logs : List Event}

/-! ## One move of a token -/

/-- The passes of a vault that the ledger shows for a holder. -/
def liveTokens (nft : ERC721 L) (t : Tokens L) (user : Address) (vaultId : ℕ) : ℕ :=
  (List.range (t.tokenIdCounter + 1)).countP fun id =>
    nft.ownerOf t.ledger id == user && t.tokenVaultMapping id == vaultId

/-- What `_update` does to the ledger, the supply, the balances and the versions. -/
structure Moved (nft : ERC721 L) (t : Tokens L) (a : Grants) (id : ℕ) (recipient : Address)
    (t' : Tokens L) (a' : Grants) : Prop where
  owner : nft.ownerOf t'.ledger = Function.update (nft.ownerOf t.ledger) id recipient
  counter : t'.tokenIdCounter = t.tokenIdCounter
  mapping : t'.tokenVaultMapping = t.tokenVaultMapping
  supply : t'.activeTokenSupply = t.activeTokenSupply +
    (if nft.ownerOf t.ledger id = 0 then 1 else 0) - if recipient = 0 then 1 else 0
  balance : ∀ u v, t'.ownedVaultTokenBalance u v =
    t.ownedVaultTokenBalance u v -
        (if nft.ownerOf t.ledger id = u ∧ t.tokenVaultMapping id = v ∧ u ≠ 0 ∧ v ≠ 0 then 1 else 0) +
      if recipient = u ∧ t.tokenVaultMapping id = v ∧ u ≠ 0 ∧ v ≠ 0 then 1 else 0
  version : ∀ v u, a'.vaultAccessVersion v u =
    (if recipient = u ∧ t.tokenVaultMapping id = v ∧ u ≠ 0 ∧ v ≠ 0 ∧ a.vaultAccessVersion v u = 0 then 1
      else a.vaultAccessVersion v u) +
      if nft.ownerOf t.ledger id = u ∧ t.tokenVaultMapping id = v ∧ u ≠ 0 ∧ v ≠ 0 ∧
        t'.ownedVaultTokenBalance u v = 0 then 1 else 0
  hasAccess : a'.hasAccess = a.hasAccess
  documentAccessVersion : a'.documentAccessVersion = a.documentAccessVersion

theorem debitOwner_kept (t : Tokens L) (p : Address) (w : ℕ) :
    (debitOwner t p w).ledger = t.ledger ∧ (debitOwner t p w).tokenIdCounter = t.tokenIdCounter ∧
      (debitOwner t p w).tokenVaultMapping = t.tokenVaultMapping := by
  unfold debitOwner
  split_ifs <;> exact ⟨rfl, rfl, rfl⟩

theorem creditRecipient_kept (t : Tokens L) (r : Address) (w : ℕ) :
    (creditRecipient t r w).ledger = t.ledger ∧
      (creditRecipient t r w).tokenIdCounter = t.tokenIdCounter ∧
      (creditRecipient t r w).tokenVaultMapping = t.tokenVaultMapping := by
  unfold creditRecipient
  split_ifs <;> exact ⟨rfl, rfl, rfl⟩

theorem debitOwner_supply (t : Tokens L) (p : Address) (w : ℕ) :
    (debitOwner t p w).activeTokenSupply = t.activeTokenSupply + if p = 0 then 1 else 0 := by
  unfold debitOwner
  split_ifs <;> rfl

theorem creditRecipient_supply (t : Tokens L) (r : Address) (w : ℕ) :
    (creditRecipient t r w).activeTokenSupply = t.activeTokenSupply - if r = 0 then 1 else 0 := by
  unfold creditRecipient
  split_ifs <;> rfl

theorem debitOwner_balance (t : Tokens L) (p : Address) (w : ℕ) (u : Address) (v : ℕ) :
    (debitOwner t p w).ownedVaultTokenBalance u v =
      t.ownedVaultTokenBalance u v - if p = u ∧ w = v ∧ u ≠ 0 ∧ v ≠ 0 then 1 else 0 := by
  unfold debitOwner
  by_cases hentry : p = u ∧ w = v
  · obtain ⟨rfl, rfl⟩ := hentry
    by_cases hp : p = 0
    · simp [hp]
    · by_cases hw : w = 0
      · rw [if_neg hp, if_neg fun h => h.1 hw, if_neg fun h => h.2.2.2 hw, Nat.sub_zero]
      · by_cases hb : 0 < t.ownedVaultTokenBalance p w
        · rw [if_neg hp, if_pos ⟨hw, hb⟩, if_pos ⟨rfl, rfl, hp, hw⟩]
          exact Mapping.set₂_same _ _ _ _
        · rw [if_neg hp, if_neg fun h => hb h.2]
          omega
  · rw [if_neg (c := p = u ∧ w = v ∧ u ≠ 0 ∧ v ≠ 0) fun h => hentry ⟨h.1, h.2.1⟩, Nat.sub_zero]
    split_ifs
    · rfl
    · exact (Mapping.set₂_apply _ _ _ _ _ _).trans (if_neg fun h => hentry ⟨h.1.symm, h.2.symm⟩)
    · rfl

theorem creditRecipient_balance (t : Tokens L) (r : Address) (w : ℕ) (u : Address) (v : ℕ) :
    (creditRecipient t r w).ownedVaultTokenBalance u v =
      t.ownedVaultTokenBalance u v + if r = u ∧ w = v ∧ u ≠ 0 ∧ v ≠ 0 then 1 else 0 := by
  unfold creditRecipient
  by_cases hentry : r = u ∧ w = v
  · obtain ⟨rfl, rfl⟩ := hentry
    by_cases hr : r = 0
    · simp [hr]
    · by_cases hw : w = 0
      · rw [if_neg hr, if_neg fun h => h hw, if_neg fun h => h.2.2.2 hw, Nat.add_zero]
      · rw [if_neg hr, if_pos hw, if_pos ⟨rfl, rfl, hr, hw⟩]
        exact Mapping.set₂_same _ _ _ _
  · rw [if_neg (c := r = u ∧ w = v ∧ u ≠ 0 ∧ v ≠ 0) fun h => hentry ⟨h.1, h.2.1⟩, Nat.add_zero]
    split_ifs
    · rfl
    · exact (Mapping.set₂_apply _ _ _ _ _ _).trans (if_neg fun h => hentry ⟨h.1.symm, h.2.symm⟩)
    · rfl

theorem openVersion_version (a : Grants) (r : Address) (w v : ℕ) (u : Address) :
    (openVersion a r w).vaultAccessVersion v u =
      if r = u ∧ w = v ∧ u ≠ 0 ∧ v ≠ 0 ∧ a.vaultAccessVersion v u = 0 then 1
      else a.vaultAccessVersion v u := by
  unfold openVersion
  by_cases hentry : r = u ∧ w = v
  · obtain ⟨rfl, rfl⟩ := hentry
    by_cases hopen : r ≠ 0 ∧ w ≠ 0 ∧ a.vaultAccessVersion w r = 0
    · rw [if_pos hopen, if_pos ⟨rfl, rfl, hopen⟩]
      exact Mapping.set₂_same _ _ _ _
    · rw [if_neg hopen, if_neg fun h => hopen h.2.2]
  · rw [if_neg (c := r = u ∧ w = v ∧ _) fun h => hentry ⟨h.1, h.2.1⟩]
    split_ifs
    · exact (Mapping.set₂_apply _ _ _ _ _ _).trans (if_neg fun h => hentry ⟨h.2.symm, h.1.symm⟩)
    · rfl

theorem bumpVersion_version (a : Grants) (p : Address) (w balance v : ℕ) (u : Address) :
    (bumpVersion a p w balance).vaultAccessVersion v u =
      a.vaultAccessVersion v u + if p = u ∧ w = v ∧ u ≠ 0 ∧ v ≠ 0 ∧ balance = 0 then 1 else 0 := by
  unfold bumpVersion
  by_cases hentry : p = u ∧ w = v
  · obtain ⟨rfl, rfl⟩ := hentry
    by_cases hbump : p ≠ 0 ∧ w ≠ 0 ∧ balance = 0
    · rw [if_pos hbump, if_pos ⟨rfl, rfl, hbump⟩]
      exact Mapping.set₂_same _ _ _ _
    · rw [if_neg hbump, if_neg fun h => hbump h.2.2, Nat.add_zero]
  · rw [if_neg (c := p = u ∧ w = v ∧ _) fun h => hentry ⟨h.1, h.2.1⟩, Nat.add_zero]
    split_ifs
    · exact (Mapping.set₂_apply _ _ _ _ _ _).trans (if_neg fun h => hentry ⟨h.2.symm, h.1.symm⟩)
    · rfl

theorem openVersion_kept (a : Grants) (r : Address) (w : ℕ) :
    (openVersion a r w).hasAccess = a.hasAccess ∧
      (openVersion a r w).documentAccessVersion = a.documentAccessVersion := by
  unfold openVersion
  split_ifs <;> exact ⟨rfl, rfl⟩

theorem bumpVersion_kept (a : Grants) (p : Address) (w balance : ℕ) :
    (bumpVersion a p w balance).hasAccess = a.hasAccess ∧
      (bumpVersion a p w balance).documentAccessVersion = a.documentAccessVersion := by
  unfold bumpVersion
  split_ifs <;> exact ⟨rfl, rfl⟩

theorem updateToken_moved {recipient auth : Address} {id : ℕ} {previousOwner : Address}
    (h : updateToken nft t a recipient id auth = .ok ((t', a'), previousOwner)) :
    Moved nft t a id recipient t' a' ∧ previousOwner = nft.ownerOf t.ledger id ∧
      (auth ≠ 0 → nft.ownerOf t.ledger id ≠ 0) := by
  simp only [updateToken, bind_ok, pure_ok, Prod.mk.injEq] at h
  obtain ⟨ledger, hupdate, ⟨ht, ha⟩, rfl⟩ := h
  have hcredit := creditRecipient_kept
    (debitOwner { t with ledger } (nft.ownerOf t.ledger id) (t.tokenVaultMapping id)) recipient
    (t.tokenVaultMapping id)
  have hdebit := debitOwner_kept { t with ledger } (nft.ownerOf t.ledger id) (t.tokenVaultMapping id)
  rw [ht] at hcredit
  have hbump := bumpVersion_kept (openVersion a recipient (t.tokenVaultMapping id))
    (nft.ownerOf t.ledger id) (t.tokenVaultMapping id)
    (t'.ownedVaultTokenBalance (nft.ownerOf t.ledger id) (t.tokenVaultMapping id))
  have hopen := openVersion_kept a recipient (t.tokenVaultMapping id)
  rw [ht] at ha
  rw [ha] at hbump
  refine ⟨⟨?_, hcredit.2.1.trans hdebit.2.1, hcredit.2.2.trans hdebit.2.2, ?_, ?_, ?_,
    hbump.1.trans hopen.1, hbump.2.trans hopen.2⟩, rfl, nft.owned_of_update hupdate⟩
  · rw [hcredit.1.trans hdebit.1]
    exact nft.ownerOf_update hupdate
  · rw [← ht, creditRecipient_supply, debitOwner_supply]
  · intro u v
    rw [← ht, creditRecipient_balance, debitOwner_balance]
  · intro v u
    rw [← ha, bumpVersion_version, openVersion_version]
    congr 1
    -- the balance that is read is the previous owner's
    refine if_congr ⟨?_, ?_⟩ rfl rfl
    · rintro ⟨rfl, rfl, hrest⟩
      exact ⟨rfl, rfl, hrest⟩
    · rintro ⟨rfl, rfl, hrest⟩
      exact ⟨rfl, rfl, hrest⟩

theorem Moved.live {id : ℕ} {recipient : Address} (h : Moved nft t a id recipient t' a')
    (hid : id ≤ t.tokenIdCounter) (u : Address) (v : ℕ) :
    liveTokens nft t' u v + (if nft.ownerOf t.ledger id = u ∧ t.tokenVaultMapping id = v then 1 else 0) =
      liveTokens nft t u v + if recipient = u ∧ t.tokenVaultMapping id = v then 1 else 0 := by
  have hchange := Tally.countP_change (l := List.range (t.tokenIdCounter + 1)) List.nodup_range
    (List.mem_range.mpr (Nat.lt_succ_of_le hid))
    (p := fun j => Function.update (nft.ownerOf t.ledger) id recipient j == u && t.tokenVaultMapping j == v)
    (q := fun j => nft.ownerOf t.ledger j == u && t.tokenVaultMapping j == v)
    (fun j hj => by rw [Function.update_of_ne hj])
  simp only [Function.update_self] at hchange
  unfold liveTokens
  rw [h.owner, h.counter, h.mapping]
  convert hchange using 2 <;>
    simp only [Bool.toNat, Bool.cond_eq_ite, Bool.and_eq_true, beq_iff_eq]

/-! ## The accounting invariant -/

structure TokensOk (nft : ERC721 L) (t : Tokens L) (a : Grants) : Prop where
  unminted : ∀ id, t.tokenIdCounter < id → nft.ownerOf t.ledger id = 0
  balance : ∀ u v, u ≠ 0 → v ≠ 0 → t.ownedVaultTokenBalance u v = liveTokens nft t u v
  nobody : ∀ u v, u = 0 ∨ v = 0 → t.ownedVaultTokenBalance u v = 0
  versioned : ∀ u v, 0 < t.ownedVaultTokenBalance u v → 0 < a.vaultAccessVersion v u

theorem TokensOk.deployed (nft : ERC721 L) : TokensOk nft { ledger := nft.deployed } {} where
  unminted := fun id _ => nft.ownerOf_deployed id
  balance := fun u v hu _ => by
    symm
    change (List.range 1).countP _ = 0
    rw [List.countP_eq_zero]
    intro id _
    rw [nft.ownerOf_deployed, beq_eq_false_iff_ne.mpr (Ne.symm hu)]
    exact Bool.false_ne_true
  nobody := fun _ _ _ => rfl
  versioned := fun _ _ h => absurd h (lt_irrefl 0)

theorem TokensOk.raised (h : TokensOk nft t a)
    (hraised : ∀ u v, 0 < a.vaultAccessVersion v u → 0 < a'.vaultAccessVersion v u) : TokensOk nft t a' :=
  ⟨h.unminted, h.balance, h.nobody, fun u v hpos => hraised u v (h.versioned u v hpos)⟩

theorem TokensOk.minted {id : ℕ} (h : TokensOk nft t a) (hid : nft.ownerOf t.ledger id ≠ 0) :
    id ≤ t.tokenIdCounter := by
  by_contra hlt
  exact hid (h.unminted id (not_le.mp hlt))

theorem TokensOk.owner_balance (h : TokensOk nft t a) {id : ℕ} {u : Address} {v : ℕ}
    (hu : u ≠ 0) (hv : v ≠ 0) (howner : nft.ownerOf t.ledger id = u) (hmap : t.tokenVaultMapping id = v) :
    0 < t.ownedVaultTokenBalance u v := by
  rw [h.balance u v hu hv, liveTokens, List.countP_pos_iff]
  have hid := h.minted (howner ▸ hu)
  exact ⟨id, List.mem_range.mpr (Nat.lt_succ_of_le hid), by simp [howner, hmap]⟩

theorem TokensOk.moved {id : ℕ} {recipient : Address} (hI : TokensOk nft t a)
    (hid : id ≤ t.tokenIdCounter) (h : Moved nft t a id recipient t' a') : TokensOk nft t' a' where
  unminted := fun j hj => by
    rw [h.counter] at hj
    rw [h.owner, Function.update_of_ne (by omega)]
    exact hI.unminted j hj
  balance := fun u v hu hv => by
    have hlive := h.live hid u v
    have hbefore := hI.balance u v hu hv
    rw [h.balance u v]
    by_cases hp : nft.ownerOf t.ledger id = u ∧ t.tokenVaultMapping id = v
    · have hpos := hI.owner_balance hu hv hp.1 hp.2
      rw [if_pos hp] at hlive
      rw [if_pos ⟨hp.1, hp.2, hu, hv⟩]
      split_ifs at hlive ⊢ <;> simp_all <;> omega
    · rw [if_neg hp] at hlive
      rw [if_neg fun hall => hp ⟨hall.1, hall.2.1⟩]
      split_ifs at hlive ⊢ <;> simp_all
  nobody := fun u v huv => by
    rw [h.balance u v, hI.nobody u v huv, if_neg (by tauto), if_neg (by tauto)]
  versioned := fun u v hpos => by
    rw [h.version v u]
    rw [h.balance u v] at hpos
    by_cases hr : recipient = u ∧ t.tokenVaultMapping id = v ∧ u ≠ 0 ∧ v ≠ 0
    · by_cases hzero : a.vaultAccessVersion v u = 0
      · rw [if_pos ⟨hr.1, hr.2.1, hr.2.2.1, hr.2.2.2, hzero⟩]
        omega
      · split_ifs <;> omega
    · rw [if_neg hr] at hpos
      have hbefore := hI.versioned u v (by omega)
      split_ifs <;> omega

theorem liveTokens_numbered (hI : TokensOk nft t a) {u : Address} (hu : u ≠ 0) (v w : ℕ) :
    liveTokens nft { t with
      tokenIdCounter := t.tokenIdCounter + 1
      tokenVaultMapping := Function.update t.tokenVaultMapping (t.tokenIdCounter + 1) w } u v =
      liveTokens nft t u v := by
  unfold liveTokens
  have hshort := Tally.countP_range_eq (p := fun id => nft.ownerOf t.ledger id == u &&
      Function.update t.tokenVaultMapping (t.tokenIdCounter + 1) w id == v)
    (Nat.le_succ (t.tokenIdCounter + 1)) (fun id hid => by
      rw [hI.unminted id hid, beq_eq_false_iff_ne.mpr (Ne.symm hu), Bool.false_and])
  refine hshort.trans (List.countP_congr fun id hid => ?_)
  have hid' : id < t.tokenIdCounter + 1 := List.mem_range.mp hid
  rw [Function.update_of_ne (by omega)]

theorem TokensOk.numbered (hI : TokensOk nft t a) (w : ℕ) : TokensOk nft { t with
    tokenIdCounter := t.tokenIdCounter + 1
    tokenVaultMapping := Function.update t.tokenVaultMapping (t.tokenIdCounter + 1) w } a where
  unminted := fun id hid => hI.unminted id (by
    change t.tokenIdCounter + 1 < id at hid
    omega)
  balance := fun u v hu hv => by
    rw [liveTokens_numbered hI hu]
    exact hI.balance u v hu hv
  nobody := hI.nobody
  versioned := hI.versioned

theorem TokensOk.forgotten (hI : TokensOk nft t a) {id : ℕ} (hid : nft.ownerOf t.ledger id = 0)
    (uris : ℕ → Bytes) : TokensOk nft { t with
      tokenVaultMapping := Function.update t.tokenVaultMapping id 0, tokenURIs := uris } a where
  unminted := hI.unminted
  balance := fun u v hu hv => by
    rw [hI.balance u v hu hv]
    unfold liveTokens
    refine List.countP_congr fun j _ => ?_
    by_cases hj : j = id
    · subst hj
      rw [hid, beq_eq_false_iff_ne.mpr (Ne.symm hu), Bool.false_and, Bool.false_and]
    · dsimp only
      rw [Function.update_of_ne hj]
  nobody := hI.nobody
  versioned := hI.versioned

theorem TokensOk.approved (hI : TokensOk nft t a) {ledger : L}
    (howners : nft.ownerOf ledger = nft.ownerOf t.ledger) : TokensOk nft { t with ledger } a where
  unminted := by
    rw [howners]
    exact hI.unminted
  balance := fun u v hu hv => by
    unfold liveTokens
    rw [howners]
    exact hI.balance u v hu hv
  nobody := hI.nobody
  versioned := hI.versioned

/-! ## What a transition does to balances and versions -/

/-- Grants and versions across a move of passes: a version rises when its holder's balance drops
to zero and otherwise counts as before. -/
structure VersionsFollow (t : Tokens L) (a : Grants) (t' : Tokens L) (a' : Grants) : Prop where
  hasAccess : a'.hasAccess = a.hasAccess
  documentAccessVersion : a'.documentAccessVersion = a.documentAccessVersion
  dropped : ∀ u v, 0 < t.ownedVaultTokenBalance u v → t'.ownedVaultTokenBalance u v = 0 →
    currentAccessVersion a v u < currentAccessVersion a' v u
  held : ∀ u v, ¬ (0 < t.ownedVaultTokenBalance u v ∧ t'.ownedVaultTokenBalance u v = 0) →
    currentAccessVersion a' v u = currentAccessVersion a v u

theorem VersionsFollow.of_same (hbalance : t'.ownedVaultTokenBalance = t.ownedVaultTokenBalance)
    (hhas : a'.hasAccess = a.hasAccess) (hdoc : a'.documentAccessVersion = a.documentAccessVersion)
    (hversion : a'.vaultAccessVersion = a.vaultAccessVersion) : VersionsFollow t a t' a' where
  hasAccess := hhas
  documentAccessVersion := hdoc
  dropped := fun u v hpos hzero => by
    rw [hbalance] at hzero
    omega
  held := fun u v _ => by rw [currentAccessVersion, hversion, currentAccessVersion]

theorem currentAccessVersion_eq (a : Grants) (v : ℕ) (u : Address) :
    currentAccessVersion a v u = max 1 (a.vaultAccessVersion v u) := by
  simp only [currentAccessVersion]
  split_ifs <;> omega

theorem Moved.versionsFollow {id : ℕ} {recipient : Address} (hI : TokensOk nft t a)
    (h : Moved nft t a id recipient t' a') : VersionsFollow t a t' a' where
  hasAccess := h.hasAccess
  documentAccessVersion := h.documentAccessVersion
  dropped := fun u v hpos hzero => by
    have hversion := hI.versioned u v hpos
    have hbalance := h.balance u v
    rw [currentAccessVersion_eq, currentAccessVersion_eq, h.version v u, hzero]
    -- only the debit of the owner can empty the balance
    have howner : nft.ownerOf t.ledger id = u ∧ t.tokenVaultMapping id = v ∧ u ≠ 0 ∧ v ≠ 0 := by
      by_contra hno
      rw [if_neg hno] at hbalance
      omega
    rw [if_neg (by omega), if_pos ⟨howner.1, howner.2.1, howner.2.2.1, howner.2.2.2, rfl⟩]
    omega
  held := fun u v hkept => by
    rw [currentAccessVersion_eq, currentAccessVersion_eq, h.version v u]
    have hno : ¬ (nft.ownerOf t.ledger id = u ∧ t.tokenVaultMapping id = v ∧ u ≠ 0 ∧ v ≠ 0 ∧
        t'.ownedVaultTokenBalance u v = 0) := by
      rintro ⟨howner, hmap, hu, hv, hzero⟩
      exact hkept ⟨hI.owner_balance hu hv howner hmap, hzero⟩
    rw [if_neg hno]
    split_ifs <;> omega

theorem burnAccessToken_ok {id : ℕ} (h : burnAccessToken nft env t a id = .ok ((t', a'), logs)) :
    ∃ burned, Moved nft t a id 0 burned a' ∧ nft.ownerOf t.ledger id ≠ 0 ∧
      t' = { burned with
        tokenVaultMapping := Function.update burned.tokenVaultMapping id 0
        tokenURIs := Function.update burned.tokenURIs id [] } := by
  simp only [burnAccessToken, bind_ok, revertIf_ok, exists_const, pure_ok, Prod.mk.injEq] at h
  obtain ⟨howner, _, ⟨⟨burned, versions⟩, previousOwner⟩, hmove, ⟨rfl, rfl⟩, _⟩ := h
  exact ⟨burned, (updateToken_moved hmove).1, howner, rfl⟩

theorem transferFrom_ok {source recipient : Address} {id : ℕ}
    (h : transferFrom nft env t a source recipient id = .ok ((t', a'), logs)) :
    Moved nft t a id recipient t' a' ∧ nft.ownerOf t.ledger id ≠ 0 := by
  simp only [transferFrom, bind_ok, revertIf_ok, exists_const, pure_ok, Prod.mk.injEq] at h
  obtain ⟨_, ⟨⟨moved, versions⟩, previousOwner⟩, hmove, _, ⟨rfl, rfl⟩, _⟩ := h
  obtain ⟨hmoved, _, hauth⟩ := updateToken_moved hmove
  exact ⟨hmoved, hauth env.sender_ne⟩

theorem mintAccessToken_ok {g : Governance} {vaultId : ℕ} {recipient : Address} {uri : Bytes}
    {frame : Frame}
    (h : mintAccessToken nft env g t a vaultId recipient uri = .ok ((t', a'), frame)) :
    Moved nft { t with
      tokenIdCounter := t.tokenIdCounter + 1
      tokenVaultMapping := Function.update t.tokenVaultMapping (t.tokenIdCounter + 1) vaultId } a
      (t.tokenIdCounter + 1) recipient t' a' := by
  simp only [mintAccessToken, bind_ok, revertIf_ok, exists_const, pure_ok, Prod.mk.injEq] at h
  obtain ⟨_, _, _, ⟨minted, previousOwner⟩, hmove, _, hminted, _⟩ := h
  subst hminted
  exact (updateToken_moved hmove).1

theorem execTokens_ok {c : TokenCall} (hI : TokensOk nft s.tokens s.grants)
    (h : execTokens nft env s c = .ok ((t', a'), logs)) :
    TokensOk nft t' a' ∧ VersionsFollow s.tokens s.grants t' a' := by
  cases c with
  | burnAccessToken id =>
    obtain ⟨burned, hmoved, howner, rfl⟩ := burnAccessToken_ok h
    have hok := hI.moved (hI.minted howner) hmoved
    have hgone : nft.ownerOf burned.ledger id = 0 := by rw [hmoved.owner, Function.update_self]
    have hfollow := hmoved.versionsFollow hI
    exact ⟨hok.forgotten hgone _, ⟨hfollow.hasAccess, hfollow.documentAccessVersion, hfollow.dropped,
      hfollow.held⟩⟩
  | transferFrom source recipient id | safeTransferFrom source recipient id =>
    obtain ⟨hmoved, howner⟩ := transferFrom_ok h
    exact ⟨hI.moved (hI.minted howner) hmoved, hmoved.versionsFollow hI⟩
  | approve recipient id =>
    simp only [execTokens, approveToken, bind_ok, pure_ok, Prod.mk.injEq] at h
    obtain ⟨ledger, happrove, ⟨rfl, rfl⟩, _⟩ := h
    exact ⟨hI.approved (nft.ownerOf_approve happrove), .of_same rfl rfl rfl rfl⟩
  | setApprovalForAll operator approved =>
    simp only [execTokens, setApprovalForAll, bind_ok, pure_ok, Prod.mk.injEq] at h
    obtain ⟨ledger, hset, ⟨rfl, rfl⟩, _⟩ := h
    exact ⟨hI.approved (nft.ownerOf_setApprovalForAll hset), .of_same rfl rfl rfl rfl⟩

theorem mintAccessToken_follows {g : Governance} {vaultId : ℕ} {recipient : Address} {uri : Bytes}
    {frame : Frame} (hI : TokensOk nft t a)
    (h : mintAccessToken nft env g t a vaultId recipient uri = .ok ((t', a'), frame)) :
    TokensOk nft t' a' ∧ VersionsFollow t a t' a' := by
  have hmoved := mintAccessToken_ok h
  have hnumbered := hI.numbered vaultId
  have hfollow := hmoved.versionsFollow hnumbered
  exact ⟨hnumbered.moved le_rfl hmoved,
    ⟨hfollow.hasAccess, hfollow.documentAccessVersion, hfollow.dropped, hfollow.held⟩⟩

end ChainGuard.Evm
