import ChainGuard.Link.Operations
import ChainGuard.Evm.Revocation

/-! The operations of an EVM run on one vault with one user in view. For a user who is no guardian
and keeps its pass, active access is the reading by generations: every revocation ends all
of the user's grants in the vault. -/
namespace ChainGuard.Evm
open Guarded History Link
set_option autoImplicit false

variable {L : Type} {chain : Chain} {nft : ERC721 L} {s s' : State L}
  {hist : List (Transition (State L) Invocation)} {v : ℕ} {u : Address}

/-- The operation a transition performs on a vault, as far as the user is concerned. -/
def operation (v : ℕ) (u : Address) (t : Transition (State L) Invocation) : Option (Operation ℕ) :=
  match uploaded t, granted t, revoked t with
  | some d, _, _ => if vaultOf t.post d = v then some (.upload d) else none
  | none, some (d, w), _ => if vaultOf t.pre d = v ∧ w = u then some (.grant d) else none
  | none, none, some (d, r) => if r = (v, u) then some (.revoke d) else none
  | none, none, none => none

/-- The user is no guardian of the vault, uploads none of its documents, and never loses its last
pass. -/
structure Guest (nft : ERC721 L) (v : ℕ) (u : Address) (t : Transition (State L) Invocation) : Prop where
  outside : t.pre.governance.isGuardian v u = false ∧ t.post.governance.isGuardian v u = false
  uploads : ∀ d ∈ uploaded t, vaultOf t.post d = v → granted t ≠ some (d, u)
  holds : ¬ Drops nft v u t

instance (nft : ERC721 L) (v : ℕ) (u : Address) : DecidablePred (Guest nft v u) := fun t =>
  decidable_of_iff ((t.pre.governance.isGuardian v u = false ∧ t.post.governance.isGuardian v u = false) ∧
      (∀ d ∈ uploaded t, vaultOf t.post d = v → granted t ≠ some (d, u)) ∧ ¬ Drops nft v u t)
    ⟨fun h => ⟨h.1, h.2.1, h.2.2⟩, fun h => ⟨h.outside, h.uploads, h.holds⟩⟩

/-! ## What the guest has -/

/-- A guest is granted documents of the vault only while it holds a pass. -/
structure Visiting (v : ℕ) (u : Address) (s : State L) : Prop where
  outside : s.governance.isGuardian v u = false
  holder : ∀ d, vaultOf s d = v → s.grants.hasAccess d u = true → ownsVaultToken s.tokens u v = true

theorem visiting (h : VaultRun chain nft hist s) (hguest : ∀ t ∈ hist, Guest nft v u t) :
    Visiting v u s := by
  refine h.relates_of (R := fun _ s => Visiting v u s) (C := Guest nft v u) ?_ ?_ hguest
  · rintro s ⟨deployer, rfl⟩
    exact ⟨rfl, fun d _ hd => (by cases hd)⟩
  · intro hist s i s' hr ih hC hstep
    refine ⟨hC.outside.2, fun d hvault hd => ?_⟩
    have hI := tokensOk hr
    cases hstep.access_effect hI with
    | moved hok hfollow hdocs _ _ _ =>
      rw [hfollow.hasAccess] at hd
      have howns := ih.holder d (by rw [vaultOf, ← hdocs]; exact hvault) hd
      obtain ⟨hu, hv⟩ := holder_ne hI howns
      have hdrops := mt (Drops.iff_balance (i := i) hI hok hu hv).mpr hC.holds
      have hpos : 0 < s.tokens.ownedVaultTokenBalance u v := of_decide_eq_true howns
      refine decide_eq_true ?_
      by_contra hzero
      exact hdrops ⟨hpos, by omega⟩
    | @uploaded d₀ vaultId w document _ _ _ hdocs hcounter htokens hgrants hgranted _ huploaded =>
      have hhas : s'.grants.hasAccess = Mapping.set₂ s.grants.hasAccess d₀ w true := by rw [hgrants]; rfl
      rw [hhas, Mapping.set₂_apply] at hd
      rw [htokens]
      split at hd
      · next heq =>
        obtain ⟨rfl, rfl⟩ := heq
        exact absurd hgranted (hC.uploads d huploaded hvault)
      · refine ih.holder d ?_ hd
        have hle := grants_counted hr d u hd
        rw [vaultOf, hdocs, Function.update_of_ne (by omega)] at hvault
        exact hvault
    | @approved requestId hgrants hdocs htokens _ _ _ =>
      have hhas : s'.grants.hasAccess = Mapping.set₂ s.grants.hasAccess
          (s.requests.accessRequests requestId).documentId (s.requests.accessRequests requestId).requester
          true := by rw [hgrants.grant]; rfl
      rw [vaultOf, hdocs] at hvault
      rw [hhas, Mapping.set₂_apply] at hd
      rw [htokens]
      split at hd
      · next heq =>
        obtain ⟨rfl, rfl⟩ := heq
        rw [← hvault]
        exact hgrants.holder
      · exact ih.holder d hvault hd
    | revoked _ hdocs htokens hhas _ _ _ _ _ =>
      rw [vaultOf, hdocs] at hvault
      rw [hhas, Mapping.set₂_apply] at hd
      rw [htokens]
      split at hd
      · cases hd
      · exact ih.holder d hvault hd

/-- A guest that can be revoked at all has a version already. -/
theorem Visiting.sole (hr : VaultRun chain nft hist s) (h : Visiting v u s) {i : Invocation} :
    SoleFor v u ⟨s, i, s'⟩ := by
  intro d _ hzero d' _ hvault
  refine Bool.eq_false_of_not_eq_true fun hhas => ?_
  have howns := h.holder d' hvault hhas
  have hversion := (tokensOk hr).versioned u v (of_decide_eq_true howns)
  dsimp only at hzero
  omega

/-! ## The operations of the run -/

theorem granted_iff_operation (hr : VaultRun chain nft hist s) {i : Invocation}
    (hstep : Steps chain nft s i s') (hguest : Guest nft v u ⟨s, i, s'⟩) (d : ℕ) :
    (granted ⟨s, i, s'⟩ = some (d, u) ∧ vaultOf s' d = v) ↔
      operation v u ⟨s, i, s'⟩ = some (.grant d) := by
  unfold operation
  cases hstep.access_effect (tokensOk hr) with
  | moved _ _ _ hgranted hrevoked huploaded => simp [hgranted, hrevoked, huploaded]
  | @uploaded d₀ _ w _ _ _ _ _ _ _ _ hgranted _ huploaded =>
    rw [huploaded]
    refine iff_of_false ?_ ?_
    · rintro ⟨hd, hvault⟩
      rw [hgranted] at hd
      cases hd
      exact hguest.uploads d huploaded hvault hgranted
    · dsimp only
      split <;> simp
  | @approved requestId _ hdocs _ hgranted hrevoked huploaded =>
    have hvault : vaultOf s' d = vaultOf s d := by rw [vaultOf, hdocs, vaultOf]
    rw [huploaded, hgranted, hvault]
    dsimp only
    constructor
    · rintro ⟨h, hv⟩
      cases h
      rw [if_pos ⟨hv, rfl⟩]
    · intro h
      split at h
      · next heq =>
        cases h
        exact ⟨by rw [heq.2], heq.1⟩
      · cases h
  | revoked _ _ _ _ _ _ hgranted hrevoked huploaded =>
    rw [huploaded, hgranted, hrevoked]
    dsimp only
    refine iff_of_false (by simp) ?_
    split <;> simp

theorem revokes_iff_operation (hr : VaultRun chain nft hist s) {i : Invocation}
    (hstep : Steps chain nft s i s') :
    Revokes v u ⟨s, i, s'⟩ ↔ ∃ d, operation v u ⟨s, i, s'⟩ = some (.revoke d) := by
  unfold operation
  cases hstep.access_effect (tokensOk hr) with
  | moved _ _ _ hgranted hrevoked huploaded =>
    rw [huploaded, hgranted, hrevoked]
    exact iff_of_false (not_revokes hrevoked) (by simp)
  | uploaded _ _ _ _ _ _ _ _ hrevoked huploaded =>
    rw [huploaded]
    refine iff_of_false (not_revokes hrevoked) ?_
    dsimp only
    split <;> simp
  | approved _ _ _ hgranted hrevoked huploaded =>
    rw [huploaded, hgranted]
    refine iff_of_false (not_revokes hrevoked) ?_
    dsimp only
    split <;> simp
  | revoked _ _ _ _ _ _ hgranted hrevoked huploaded =>
    rw [huploaded, hgranted, hrevoked, Revokes.iff_eq hrevoked]
    dsimp only
    constructor
    · intro h
      exact ⟨_, if_pos h⟩
    · rintro ⟨d, hd⟩
      by_contra hne
      rw [if_neg hne] at hd
      cases hd

theorem grant_operation_holder (hr : VaultRun chain nft hist s) {i : Invocation}
    (hstep : Steps chain nft s i s') {d : ℕ} (hop : operation v u ⟨s, i, s'⟩ = some (.grant d)) :
    (s.documents.documents d).id ≠ 0 ∧ vaultOf s d = v ∧ ownsVaultToken s.tokens u v = true := by
  unfold operation at hop
  cases hstep.access_effect (tokensOk hr) with
  | moved _ _ _ hgranted hrevoked huploaded =>
    rw [huploaded, hgranted, hrevoked] at hop
    cases hop
  | uploaded _ _ _ _ _ _ _ _ _ huploaded =>
    rw [huploaded] at hop
    dsimp only at hop
    split at hop <;> cases hop
  | approved hgrants _ _ hgranted _ huploaded =>
    rw [huploaded, hgranted] at hop
    dsimp only at hop
    split at hop
    · next heq =>
      cases hop
      obtain ⟨rfl, rfl⟩ := heq
      exact ⟨(requestsOk hr).document _ hgrants.existing, rfl, hgrants.holder⟩
    · cases hop
  | revoked _ _ _ _ _ _ hgranted hrevoked huploaded =>
    rw [huploaded, hgranted, hrevoked] at hop
    dsimp only at hop
    split at hop <;> cases hop

theorem operations_documents (h : VaultRun chain nft hist s) :
    (∀ d, .grant d ∈ hist.filterMap (operation v u) → (s.documents.documents d).id ≠ 0 ∧ vaultOf s d = v) ∧
      ∀ d, (s.documents.documents d).id ≠ 0 → vaultOf s d = v →
        .upload d ∈ hist.filterMap (operation v u) := by
  refine h.relates (R := fun hist s =>
    (∀ d, .grant d ∈ hist.filterMap (operation v u) → (s.documents.documents d).id ≠ 0 ∧ vaultOf s d = v) ∧
      ∀ d, (s.documents.documents d).id ≠ 0 → vaultOf s d = v →
        .upload d ∈ hist.filterMap (operation v u)) ?_ ?_
  · rintro s ⟨deployer, rfl⟩
    refine ⟨fun d hd => absurd hd List.not_mem_nil, fun d hd _ => absurd rfl hd⟩
  · intro hist s i s' hr ih hstep
    refine ⟨fun d hd => ?_, fun d hd hvault => ?_⟩
    · have hnow : (s.documents.documents d).id ≠ 0 ∧ vaultOf s d = v := by
        obtain ⟨t, ht, hop⟩ := List.mem_filterMap.mp hd
        rcases List.mem_cons.mp ht with rfl | ht
        · obtain ⟨hid, hv, _⟩ := grant_operation_holder hr hstep hop
          exact ⟨hid, hv⟩
        · exact ih.1 d (List.mem_filterMap.mpr ⟨t, ht, hop⟩)
      have hkept := hstep.document_kept (documentsCounted hr) hnow.1
      rw [vaultOf, hkept]
      exact hnow
    · have hearlier : ∀ (_ : .upload d ∈ hist.filterMap (operation v u)),
          .upload d ∈ ((⟨s, i, s'⟩ : Transition (State L) Invocation) :: hist).filterMap (operation v u) := by
        intro hmem
        obtain ⟨t, ht, hop⟩ := List.mem_filterMap.mp hmem
        exact List.mem_filterMap.mpr ⟨t, List.mem_cons_of_mem _ ht, hop⟩
      have hsame : s'.documents.documents = s.documents.documents →
          .upload d ∈ ((⟨s, i, s'⟩ : Transition (State L) Invocation) :: hist).filterMap (operation v u) := by
        intro hdocs
        rw [vaultOf, hdocs] at hvault
        rw [hdocs] at hd
        exact hearlier (ih.2 d hd hvault)
      cases hstep.access_effect (tokensOk hr) with
      | moved _ _ hdocs _ _ _ => exact hsame hdocs
      | approved _ hdocs _ _ _ _ => exact hsame (congrArg _ hdocs)
      | revoked _ hdocs _ _ _ _ _ _ _ => exact hsame (congrArg _ hdocs)
      | @uploaded d₀ _ _ _ _ _ _ hdocs _ _ _ _ _ huploaded =>
        by_cases he : d = d₀
        · subst he
          refine List.mem_filterMap.mpr ⟨_, List.mem_cons_self .., ?_⟩
          unfold operation
          rw [huploaded]
          exact if_pos hvault
        · rw [vaultOf, hdocs, Function.update_of_ne he] at hvault
          rw [hdocs, Function.update_of_ne he] at hd
          exact hearlier (ih.2 d hd hvault)

/-! ## Active access -/

theorem valid_iff_current (h : VaultRun chain nft hist s) (hguest : ∀ t ∈ hist, Guest nft v u t)
    (hu : u ≠ 0) (hv : v ≠ 0) (d : ℕ) :
    (grantStore v u s).Valid d ↔ Current d (hist.filterMap (operation v u)) := by
  induction h with
  | start hi =>
    obtain ⟨deployer, rfl⟩ := hi
    rw [grantStore_valid]
    refine iff_of_false (fun hvalid => ?_) id
    cases hvalid.2.1
  | @next hist s s' i hr hstep ih =>
    have hrest := fun t ht => hguest t (List.mem_cons_of_mem _ ht)
    have hnow : Guest nft v u ⟨s, i, s'⟩ := hguest _ (List.mem_cons_self ..)
    obtain ⟨a, ha⟩ := acts hr hstep hu hv
    have heffective := ha.effective ((visiting hr hrest).sole hr)
    rw [current_filterMap_cons, ← ih hrest, ← granted_iff_operation hr hstep hnow, ← not_exists,
      ← revokes_iff_operation hr hstep, ha.step.valid_iff (grantStore_bounded hr hu hv) heffective,
      ha.grant d, ha.voids, or_iff_left hnow.holds]

/-- A guest has active access to a document of the vault exactly when it was granted after the last
revocation of the guest in the vault. -/
theorem active_iff_current (h : VaultRun chain nft hist s) (hguest : ∀ t ∈ hist, Guest nft v u t)
    {d : ℕ} (hd : (s.documents.documents d).id ≠ 0) (hvault : vaultOf s d = v) :
    hasActiveAccess s d u = true ↔ Current d (hist.filterMap (operation v u)) := by
  have hvisit := visiting h hguest
  have hactive : hasActiveAccess s d u = true ↔ ownsVaultToken s.tokens u v = true ∧
      (grantStore v u s).Valid d := by
    rw [grantStore_valid, hasActiveAccess, if_neg hd]
    simp only [hasActiveAccessInternal, Bool.or_eq_true, Bool.and_eq_true, beq_iff_eq]
    change s.governance.isGuardian (vaultOf s d) u = true ∨ (_ ∧ ownsVaultToken s.tokens u (vaultOf s d) = true) ∧
      s.grants.documentAccessVersion d u = currentAccessVersion s.grants (vaultOf s d) u ↔ _
    rw [hvault, hvisit.outside]
    simp only [Bool.false_eq_true, false_or, true_and]
    exact ⟨fun h => ⟨h.1.2, h.1.1, h.2⟩, fun h => ⟨⟨h.2.1, h.1⟩, h.2.2⟩⟩
  rw [hactive]
  by_cases hne : u ≠ 0 ∧ v ≠ 0
  · rw [← valid_iff_current h hguest hne.1 hne.2, and_iff_right_iff_imp]
    intro hvalid
    obtain ⟨_, hhas, _⟩ := (grantStore_valid d).mp hvalid
    exact hvisit.holder d hvault hhas
  · refine iff_of_false (fun howns => hne (holder_ne (tokensOk h) howns.1)) fun hcurrent => hne ?_
    obtain ⟨t, ht, hop⟩ := List.mem_filterMap.mp hcurrent.granted
    obtain ⟨earlier, _, hrun, hstep⟩ := h.of_mem ht
    exact holder_ne (tokensOk hrun) (grant_operation_holder hrun hstep hop).2.2

end ChainGuard.Evm
