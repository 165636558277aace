import ChainGuard.Library.Tally
import ChainGuard.Soroban.Contract

/-! The two counts kept beside the tokens. Every live token has an owner and a vault, each holder's
counts are the numbers of its tokens, so no count is taken below zero, and a number that was a
token once is never one again. -/
namespace ChainGuard.Soroban
open Guarded History
set_option autoImplicit false

variable {host : Host} {env : Env} {t t' : Tokens} {v : Vaults} {s s' : State} {logs : List Event}
  {owner source recipient : Address} {tokenId vaultId : ℕ}
  {hist : List (Transition State Invocation)}

/-! ## Live tokens -/

def liveTokens (t : Tokens) : List ℕ :=
  (List.range (t.tokenCount + 1)).filter fun id => (t.tokenOwner id).isSome

def Tokens.ownedBy (t : Tokens) (a : Address) (id : ℕ) : Bool := t.tokenOwner id == some a

def Tokens.boundTo (t : Tokens) (vaultId : ℕ) (a : Address) (id : ℕ) : Bool :=
  t.ownedBy a id && t.tokenVault id == some vaultId

theorem Tokens.ownedBy_iff {a : Address} {id : ℕ} : t.ownedBy a id = true ↔ t.tokenOwner id = some a := by
  simp [Tokens.ownedBy]

theorem Tokens.boundTo_iff {a : Address} {id : ℕ} :
    t.boundTo vaultId a id = true ↔ t.tokenOwner id = some a ∧ t.tokenVault id = some vaultId := by
  simp [Tokens.boundTo, Tokens.ownedBy]

structure TokensOk (t : Tokens) : Prop where
  unminted : ∀ id, t.tokenCount < id → t.tokenOwner id = none
  paired : ∀ id, (t.tokenOwner id).isSome = (t.tokenVault id).isSome
  owned : ∀ a, t.ownerBalance a = (List.range (t.tokenCount + 1)).countP (t.ownedBy a)
  bound : ∀ w a, t.vaultTokenBalance w a = (List.range (t.tokenCount + 1)).countP (t.boundTo w a)

theorem TokensOk.deployed : TokensOk {} where
  unminted := fun _ _ => rfl
  paired := fun _ => rfl
  owned := fun _ => rfl
  bound := fun _ _ => rfl

theorem TokensOk.counted (h : TokensOk t) {id : ℕ} {a : Address} (howner : t.tokenOwner id = some a) :
    id ≤ t.tokenCount := by
  by_contra hlt
  rw [h.unminted id (not_le.mp hlt)] at howner
  cases howner

theorem TokensOk.ownerBalance_pos (h : TokensOk t) (howner : t.tokenOwner tokenId = some owner) :
    0 < t.ownerBalance owner := by
  rw [h.owned owner, List.countP_pos_iff]
  exact ⟨tokenId, List.mem_range.mpr (Nat.lt_succ_of_le (h.counted howner)),
    Tokens.ownedBy_iff.mpr howner⟩

theorem TokensOk.vaultTokenBalance_pos_iff (h : TokensOk t) :
    0 < t.vaultTokenBalance vaultId owner ↔
      ∃ id, t.tokenOwner id = some owner ∧ t.tokenVault id = some vaultId := by
  rw [h.bound vaultId owner, List.countP_pos_iff]
  constructor
  · rintro ⟨id, _, hid⟩
    exact ⟨id, Tokens.boundTo_iff.mp hid⟩
  · rintro ⟨id, howner, hvault⟩
    exact ⟨id, List.mem_range.mpr (Nat.lt_succ_of_le (h.counted howner)),
      Tokens.boundTo_iff.mpr ⟨howner, hvault⟩⟩

/-! ## One token changes hands -/

/-- The token `id` goes to the given owner and vault, the counts with it. -/
structure Rebound (t : Tokens) (id : ℕ) (owner : Option Address) (vaultId : Option ℕ) (t' : Tokens) :
    Prop where
  count : t.tokenCount ≤ t'.tokenCount
  counted : id ≤ t'.tokenCount
  owners : t'.tokenOwner = Function.update t.tokenOwner id owner
  vaults : t'.tokenVault = Function.update t.tokenVault id vaultId
  paired : owner.isSome = vaultId.isSome
  owned : ∀ a, t'.ownerBalance a + (if t.tokenOwner id = some a then 1 else 0) =
    t.ownerBalance a + if owner = some a then 1 else 0
  bound : ∀ w a, t'.vaultTokenBalance w a +
      (if t.tokenOwner id = some a ∧ t.tokenVault id = some w then 1 else 0) =
    t.vaultTokenBalance w a + if owner = some a ∧ vaultId = some w then 1 else 0

theorem Rebound.ok {id : ℕ} {o : Option Address} {w : Option ℕ} (hI : TokensOk t)
    (h : Rebound t id o w t') : TokensOk t' where
  unminted := fun j hj => by
    have hcount := h.count
    have hcounted := h.counted
    rw [h.owners, Function.update_of_ne (by omega)]
    exact hI.unminted j (by omega)
  paired := fun j => by
    rw [h.owners, h.vaults]
    by_cases hj : j = id
    · rw [hj, Function.update_self, Function.update_self]
      exact h.paired
    · rw [Function.update_of_ne hj, Function.update_of_ne hj]
      exact hI.paired j
  owned := fun a => by
    have hchange := Tally.countP_range_change (p := t'.ownedBy a) (q := t.ownedBy a)
      (Nat.add_le_add_right h.count 1) (Nat.lt_add_one_of_le h.counted)
      (fun j hj => by
        rw [Tokens.ownedBy, hI.unminted j hj]
        rfl)
      (fun j hj => by rw [Tokens.ownedBy, Tokens.ownedBy, h.owners, Function.update_of_ne hj])
    have hmoved := h.owned a
    rw [← hI.owned a] at hchange
    simp only [Bool.toNat, Bool.cond_eq_ite, Tokens.ownedBy_iff, h.owners, Function.update_self] at hchange
    omega
  bound := fun w' a => by
    have hchange := Tally.countP_range_change (p := t'.boundTo w' a) (q := t.boundTo w' a)
      (Nat.add_le_add_right h.count 1) (Nat.lt_add_one_of_le h.counted)
      (fun j hj => by
        rw [Tokens.boundTo, Tokens.ownedBy, hI.unminted j hj]
        rfl)
      (fun j hj => by
        simp only [Tokens.boundTo, Tokens.ownedBy, h.owners, h.vaults, Function.update_of_ne hj])
    have hmoved := h.bound w' a
    rw [← hI.bound w' a] at hchange
    simp only [Bool.toNat, Bool.cond_eq_ite, Tokens.boundTo_iff, h.owners, h.vaults,
      Function.update_self] at hchange
    omega

/-! ## The counts of a holder -/

theorem incrementBalances_owner (t : Tokens) (w : ℕ) (o a : Address) :
    (incrementBalances t w o).ownerBalance a = t.ownerBalance a + if some o = some a then 1 else 0 := by
  simp only [incrementBalances, Function.update_apply, Option.some.injEq, eq_comm (a := o)]
  split_ifs with h
  · rw [h]
  · rfl

theorem incrementBalances_vault (t : Tokens) (w w' : ℕ) (o a : Address) :
    (incrementBalances t w o).vaultTokenBalance w' a =
      t.vaultTokenBalance w' a + if some o = some a ∧ some w = some w' then 1 else 0 := by
  simp only [incrementBalances, Mapping.set₂_apply, Option.some.injEq]
  by_cases hentry : w' = w ∧ a = o
  · rw [if_pos hentry, if_pos ⟨hentry.2.symm, hentry.1.symm⟩, hentry.1, hentry.2]
  · rw [if_neg hentry, if_neg fun h => hentry ⟨h.2.symm, h.1.symm⟩, Nat.add_zero]

/-- A holder's token is counted, so taking it off the count leaves nothing out. -/
theorem TokensOk.debited_owner (hI : TokensOk t) (howner : t.tokenOwner tokenId = some owner) (vaultId : ℕ)
    (a : Address) :
    (decrementBalances t vaultId owner).ownerBalance a + (if some owner = some a then 1 else 0) =
      t.ownerBalance a := by
  have hpos := hI.ownerBalance_pos howner
  simp only [decrementBalances, Function.update_apply, Option.some.injEq]
  by_cases ha : a = owner
  · subst ha
    rw [if_pos rfl, if_pos rfl]
    omega
  · rw [if_neg ha, if_neg (Ne.symm ha), Nat.add_zero]

theorem TokensOk.debited_vault (hI : TokensOk t) (howner : t.tokenOwner tokenId = some owner)
    (hvault : t.tokenVault tokenId = some vaultId) (w : ℕ) (a : Address) :
    (decrementBalances t vaultId owner).vaultTokenBalance w a +
        (if some owner = some a ∧ some vaultId = some w then 1 else 0) = t.vaultTokenBalance w a := by
  have hpos := hI.vaultTokenBalance_pos_iff.mpr ⟨tokenId, howner, hvault⟩
  simp only [decrementBalances, Mapping.set₂_apply, Option.some.injEq]
  by_cases hentry : w = vaultId ∧ a = owner
  · obtain ⟨rfl, rfl⟩ := hentry
    rw [if_pos ⟨rfl, rfl⟩, if_pos ⟨rfl, rfl⟩]
    omega
  · rw [if_neg hentry, if_neg fun h => hentry ⟨h.2.symm, h.1.symm⟩, Nat.add_zero]

/-! ## Every call -/

/-- What `burn_access_token` and `transfer` require of the token they spend. -/
structure Spends (env : Env) (t : Tokens) (owner : Address) (tokenId vaultId : ℕ) : Prop where
  authorized : owner ∈ env.authorized
  owner : t.tokenOwner tokenId = some owner
  vault : t.tokenVault tokenId = some vaultId

theorem loadOwnToken_ok :
    loadOwnToken t owner tokenId = .ok vaultId ↔
      t.tokenOwner tokenId = some owner ∧ t.tokenVault tokenId = some vaultId := by
  simp only [loadOwnToken, bind_ok, expect_ok, assert_ok, exists_const]
  constructor
  · rintro ⟨currentOwner, howner, rfl, hvault⟩
    exact ⟨howner, hvault⟩
  · rintro ⟨howner, hvault⟩
    exact ⟨owner, howner, rfl, hvault⟩

theorem mintAccessToken_rebound {uri : Bytes} (hI : TokensOk t)
    (h : mintAccessToken env v t owner vaultId recipient uri = .ok (t', logs)) :
    Rebound t (t.tokenCount + 1) (some recipient) (some vaultId) t' ∧
      t'.tokenCount = t.tokenCount + 1 := by
  simp only [mintAccessToken, bind_ok, requireAuth_ok, assert_ok, exists_const, pure_ok,
    Prod.mk.injEq] at h
  obtain ⟨_, record, _, _, _, rfl, _⟩ := h
  have hfree := hI.unminted _ (Nat.lt_succ_self t.tokenCount)
  refine ⟨⟨Nat.le_succ _, le_rfl, rfl, rfl, rfl, ?_, ?_⟩, rfl⟩
  · intro a
    rw [incrementBalances_owner, hfree]
    rfl
  · intro w a
    rw [incrementBalances_vault, hfree, if_neg (c := none = some a ∧ _) (by simp)]
    rfl

theorem burnAccessToken_rebound (hI : TokensOk t)
    (h : burnAccessToken env t owner tokenId = .ok (t', logs)) :
    ∃ w, Spends env t owner tokenId w ∧ Rebound t tokenId none none t' ∧ t'.tokenCount = t.tokenCount := by
  simp only [burnAccessToken, bind_ok, requireAuth_ok, exists_const, pure_ok, Prod.mk.injEq,
    loadOwnToken_ok] at h
  obtain ⟨hauth, w, ⟨howner, hvault⟩, rfl, _⟩ := h
  refine ⟨w, ⟨hauth, howner, hvault⟩, ⟨le_rfl, hI.counted howner, rfl, rfl, rfl, ?_, ?_⟩, rfl⟩
  · intro a
    rw [howner]
    exact hI.debited_owner howner w a
  · intro w' a
    rw [howner, hvault]
    exact (hI.debited_vault howner hvault w' a).trans (by simp)

theorem transfer_rebound (hI : TokensOk t)
    (h : transfer env t source recipient tokenId = .ok (t', logs)) :
    ∃ w, Spends env t source tokenId w ∧ Rebound t tokenId (some recipient) (some w) t' ∧
      t'.tokenCount = t.tokenCount := by
  simp only [transfer, bind_ok, requireAuth_ok, exists_const, pure_ok, Prod.mk.injEq,
    loadOwnToken_ok] at h
  obtain ⟨hauth, w, ⟨howner, hvault⟩, rfl, _⟩ := h
  have hkept : t.tokenVault = Function.update t.tokenVault tokenId (some w) := by
    rw [← hvault, Function.update_eq_self]
  refine ⟨w, ⟨hauth, howner, hvault⟩, ⟨le_rfl, hI.counted howner, rfl, hkept, rfl, ?_, ?_⟩, rfl⟩
  · intro a
    have hdebited := hI.debited_owner howner w a
    have hcredited := incrementBalances_owner (decrementBalances t w source) w recipient a
    rw [howner]
    show (incrementBalances (decrementBalances t w source) w recipient).ownerBalance a + _ = _
    omega
  · intro w' a
    have hdebited := hI.debited_vault howner hvault w' a
    have hcredited := incrementBalances_vault (decrementBalances t w source) w w' recipient a
    rw [howner, hvault]
    show (incrementBalances (decrementBalances t w source) w recipient).vaultTokenBalance w' a + _ = _
    omega

/-! ## Every transition -/

inductive TokenEffect (s : State) (i : Invocation) (s' : State) : Prop
  | kept : s'.tokens = s.tokens → TokenEffect s i s'
  | minted (minter recipient : Address) (w : ℕ) (uri : Bytes) :
      i.2 = .tokens (.mintAccessToken minter w recipient uri) →
      Rebound s.tokens (s.tokens.tokenCount + 1) (some recipient) (some w) s'.tokens →
      s'.tokens.tokenCount = s.tokens.tokenCount + 1 → TokenEffect s i s'
  | burned (owner : Address) (id w : ℕ) : i.2 = .tokens (.burnAccessToken owner id) →
      Spends i.1 s.tokens owner id w → Rebound s.tokens id none none s'.tokens →
      s'.tokens.tokenCount = s.tokens.tokenCount → TokenEffect s i s'
  | transferred (source recipient : Address) (id w : ℕ) :
      i.2 = .tokens (.transfer source recipient id) → Spends i.1 s.tokens source id w →
      Rebound s.tokens id (some recipient) (some w) s'.tokens →
      s'.tokens.tokenCount = s.tokens.tokenCount → TokenEffect s i s'

theorem Steps.token_effect {i : Invocation} (hstep : Steps host s i s') (hI : TokensOk s.tokens) :
    TokenEffect s i s' := by
  cases hstep.effect with
  | @tokens env c tokens logs hexec =>
    cases c with
    | mintAccessToken minter w recipient uri =>
      obtain ⟨hrebound, hcount⟩ := mintAccessToken_rebound hI hexec
      exact .minted minter recipient w uri rfl hrebound hcount
    | burnAccessToken owner id =>
      obtain ⟨w, hspends, hrebound, hcount⟩ := burnAccessToken_rebound hI hexec
      exact .burned owner id w rfl hspends hrebound hcount
    | transfer source recipient id =>
      obtain ⟨w, hspends, hrebound, hcount⟩ := transfer_rebound hI hexec
      exact .transferred source recipient id w rfl hspends hrebound hcount
  | _ => exact .kept rfl

theorem tokensOk (h : StellarRun host hist s) : TokensOk s.tokens := by
  refine h.invariant (I := fun s => TokensOk s.tokens) ?_ ?_
  · rintro s rfl
    exact TokensOk.deployed
  · intro s i s' hI hstep
    cases hstep.token_effect hI with
    | kept htokens => exact htokens ▸ hI
    | minted _ _ _ _ _ hrebound _ => exact hrebound.ok hI
    | burned _ _ _ _ _ hrebound _ => exact hrebound.ok hI
    | transferred _ _ _ _ _ _ hrebound _ => exact hrebound.ok hI

/-! ## Token numbers -/

/-- The token `id` comes to have an owner. -/
def Appears (id : ℕ) (t : Transition State Invocation) : Prop :=
  t.pre.tokens.tokenOwner id = none ∧ t.post.tokens.tokenOwner id ≠ none

theorem Steps.appears {i : Invocation} (hstep : Steps host s i s') (hI : TokensOk s.tokens) {id : ℕ}
    (h : Appears id ⟨s, i, s'⟩) :
    id = s.tokens.tokenCount + 1 ∧ s'.tokens.tokenCount = s.tokens.tokenCount + 1 := by
  obtain ⟨hbefore, hafter⟩ := h
  dsimp only at hbefore hafter
  cases hstep.token_effect hI with
  | kept htokens => exact absurd (htokens ▸ hbefore) hafter
  | minted minter recipient w uri _ hrebound hcount =>
    refine ⟨?_, hcount⟩
    by_contra hne
    rw [hrebound.owners, Function.update_of_ne hne] at hafter
    exact hafter hbefore
  | burned owner id' w _ _ hrebound _ =>
    rw [hrebound.owners, Function.update_apply] at hafter
    split at hafter
    · exact absurd rfl hafter
    · exact absurd hbefore hafter
  | transferred source recipient id' w _ hspends hrebound _ =>
    rw [hrebound.owners, Function.update_apply] at hafter
    split at hafter
    · next heq =>
      rw [heq, hspends.owner] at hbefore
      cases hbefore
    · exact absurd hbefore hafter

theorem Steps.tokens_counted {i : Invocation} (hstep : Steps host s i s') (hI : TokensOk s.tokens) :
    s.tokens.tokenCount ≤ s'.tokens.tokenCount := by
  cases hstep.token_effect hI with
  | kept htokens => rw [htokens]
  | minted _ _ _ _ _ _ hcount => exact hcount.symm ▸ Nat.le_succ _
  | burned _ _ _ _ _ _ hcount => exact hcount.ge
  | transferred _ _ _ _ _ _ _ hcount => exact hcount.ge

theorem appears_once (h : StellarRun host hist s) :
    (∀ t ∈ hist, ∀ id, Appears id t → id ≤ s.tokens.tokenCount) ∧
      hist.Pairwise fun later earlier => ∀ id, Appears id earlier → ¬ Appears id later := by
  refine h.relates (R := fun hist s => (∀ t ∈ hist, ∀ id, Appears id t → id ≤ s.tokens.tokenCount) ∧
    hist.Pairwise fun later earlier => ∀ id, Appears id earlier → ¬ Appears id later) ?_ ?_
  · intro s _
    exact ⟨fun t ht => absurd ht List.not_mem_nil, List.Pairwise.nil⟩
  · rintro hist s i s' hr ⟨hcounted, hpair⟩ hstep
    have hI := tokensOk hr
    have hgrown := hstep.tokens_counted hI
    refine ⟨?_, List.pairwise_cons.mpr ⟨?_, hpair⟩⟩
    · intro t ht id happears
      rcases List.mem_cons.mp ht with rfl | ht
      · have hnew := hstep.appears hI happears
        omega
      · exact (hcounted t ht id happears).trans hgrown
    · intro t ht id happears hagain
      have hold := hcounted t ht id happears
      have hnew := hstep.appears hI hagain
      omega

/-! ## The accounting of a run -/

theorem TokensOk.mem_liveTokens (h : TokensOk t) (id : ℕ) :
    id ∈ liveTokens t ↔ ∃ a w, t.tokenOwner id = some a ∧ t.tokenVault id = some w := by
  rw [liveTokens, List.mem_filter, List.mem_range, Option.isSome_iff_exists]
  constructor
  · rintro ⟨_, a, howner⟩
    have hvault : (t.tokenVault id).isSome = true := by
      rw [← h.paired, howner]
      rfl
    obtain ⟨w, hw⟩ := Option.isSome_iff_exists.mp hvault
    exact ⟨a, w, howner, hw⟩
  · rintro ⟨a, w, howner, _⟩
    exact ⟨Nat.lt_succ_of_le (h.counted howner), a, howner⟩

theorem liveTokens_countP (t : Tokens) {p : ℕ → Bool}
    (h : ∀ id, p id = true → (t.tokenOwner id).isSome = true) :
    (liveTokens t).countP p = (List.range (t.tokenCount + 1)).countP p := by
  rw [liveTokens, List.countP_filter]
  refine List.countP_congr fun id _ => ?_
  rw [Bool.and_eq_true]
  exact ⟨fun hid => hid.1, fun hid => ⟨hid, h id hid⟩⟩

def Call.spends : Call → Option (Address × ℕ)
  | .tokens (.burnAccessToken owner id) => some (owner, id)
  | .tokens (.transfer source _ id) => some (source, id)
  | _ => none

theorem Steps.spends {i : Invocation} (hstep : Steps host s i s') (hI : TokensOk s.tokens)
    {a : Address} {id : ℕ} (h : i.2.spends = some (a, id)) :
    ∃ w, Spends i.1 s.tokens a id w ∧ 0 < s.tokens.ownerBalance a ∧ 0 < s.tokens.vaultTokenBalance w a := by
  have hcounts : ∀ w, Spends i.1 s.tokens a id w → Spends i.1 s.tokens a id w ∧
      0 < s.tokens.ownerBalance a ∧ 0 < s.tokens.vaultTokenBalance w a := fun w hspends =>
    ⟨hspends, hI.ownerBalance_pos hspends.owner,
      hI.vaultTokenBalance_pos_iff.mpr ⟨id, hspends.owner, hspends.vault⟩⟩
  cases hstep.effect with
  | @tokens env c tokens logs hexec =>
    cases c with
    | mintAccessToken => cases h
    | burnAccessToken owner tokenId =>
      cases h
      obtain ⟨w, hspends, _⟩ := burnAccessToken_rebound hI hexec
      exact ⟨w, hcounts w hspends⟩
    | transfer source recipient tokenId =>
      cases h
      obtain ⟨w, hspends, _⟩ := transfer_rebound hI hexec
      exact ⟨w, hcounts w hspends⟩
  | _ => cases h

/-- The accounting of the tokens: a live token has one owner and one vault, the counts of a holder
are the numbers of its live tokens, no number becomes a token twice, and only its owner spends a
token, with both counts above zero. -/
theorem token_accounting (h : StellarRun host hist s) :
    ((liveTokens s.tokens).Nodup ∧
        ∀ id, id ∈ liveTokens s.tokens ↔
          ∃ a w, s.tokens.tokenOwner id = some a ∧ s.tokens.tokenVault id = some w) ∧
      (∀ id, (s.tokens.tokenOwner id).isSome = (s.tokens.tokenVault id).isSome) ∧
      (∀ a, s.tokens.ownerBalance a =
        (liveTokens s.tokens).countP fun id => s.tokens.tokenOwner id == some a) ∧
      (∀ w a, s.tokens.vaultTokenBalance w a = (liveTokens s.tokens).countP fun id =>
        s.tokens.tokenOwner id == some a && s.tokens.tokenVault id == some w) ∧
      (∀ w a, hasVaultToken s.tokens a w = true ↔
        ∃ id, s.tokens.tokenOwner id = some a ∧ s.tokens.tokenVault id = some w) ∧
      (hist.Pairwise fun later earlier => ∀ id, Appears id earlier → ¬ Appears id later) ∧
      ∀ i s', Steps host s i s' → ∀ a id, i.2.spends = some (a, id) →
        ∃ w, Spends i.1 s.tokens a id w ∧
          0 < s.tokens.ownerBalance a ∧ 0 < s.tokens.vaultTokenBalance w a := by
  have hI := tokensOk h
  refine ⟨⟨List.nodup_range.filter _, hI.mem_liveTokens⟩, hI.paired, ?_, ?_, ?_, (appears_once h).2,
    fun i s' hstep a id => hstep.spends hI⟩
  · intro a
    rw [hI.owned a]
    refine (liveTokens_countP s.tokens fun id hid => ?_).symm
    rw [Tokens.ownedBy_iff.mp hid]
    rfl
  · intro w a
    rw [hI.bound w a]
    refine (liveTokens_countP s.tokens fun id hid => ?_).symm
    rw [(Tokens.boundTo_iff.mp hid).1]
    rfl
  · intro w a
    rw [hasVaultToken, decide_eq_true_iff]
    exact hI.vaultTokenBalance_pos_iff

/-- Two tokens of account 1, one passed to itself and on to account 3, the other burned. -/
theorem token_accounting_moved : ∃ hist s, StellarRun localHost hist s ∧
    (liveTokens s.tokens = [1] ∧ s.tokens.tokenOwner 1 = some (acct 3)) ∧
      s.tokens.ownerBalance (acct 3) =
        (liveTokens s.tokens).countP fun id => s.tokens.tokenOwner id == some (acct 3) := by
  obtain ⟨hist, s, hrun, hend⟩ := exists_run localHost
    (openedVault 2 ++
      [(invokedBy [acct 1] 103, .tokens (.mintAccessToken (acct 1) 1 (acct 1) [])),
        (invokedBy [acct 1] 104, .tokens (.mintAccessToken (acct 1) 1 (acct 1) [])),
        (invokedBy [acct 1] 105, .tokens (.transfer (acct 1) (acct 1) 1)),
        (invokedBy [acct 1] 106, .tokens (.transfer (acct 1) (acct 3) 1)),
        (invokedBy [acct 1] 107, .tokens (.burnAccessToken (acct 1) 2))])
    (fun _ s => decide (liveTokens s.tokens = [1] ∧ s.tokens.tokenOwner 1 = some (acct 3)))
    (by decide +kernel)
  exact ⟨hist, s, hrun, of_decide_eq_true hend, (token_accounting hrun).2.2.1 (acct 3)⟩

end ChainGuard.Soroban
