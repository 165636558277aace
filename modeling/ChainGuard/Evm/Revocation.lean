import ChainGuard.Library.Versioned
import ChainGuard.Evm.AccessGrants

/-! Revocation by version. The grants of one user in one vault are a store of grants under one
counter; every transition is a step of that store. A revocation raises the raw counter, but
0 and 1 both read as version 1: for a user who never had a pass the first revocation leaves
the grants of the vault's other documents standing. -/
namespace ChainGuard.Evm
open Guarded History
set_option autoImplicit false

variable {L : Type} {chain : Chain} {nft : ERC721 L} {s s' : State L}
  {hist : List (Transition (State L) Invocation)} {v : ℕ} {u : Address}

/-! ## The grants of a user in a vault -/

def vaultOf (s : State L) (documentId : ℕ) : ℕ := (s.documents.documents documentId).vaultId

/-- The documents of a vault granted to a user, with the versions they were granted at. -/
def grantStore (v : ℕ) (u : Address) (s : State L) : Versioned.Store ℕ where
  grants := fun d =>
    if vaultOf s d = v ∧ s.grants.hasAccess d u = true then some (s.grants.documentAccessVersion d u)
    else none
  counter := s.grants.vaultAccessVersion v u

theorem grantStore_current (s : State L) (v : ℕ) (u : Address) :
    (grantStore v u s).current = currentAccessVersion s.grants v u :=
  (currentAccessVersion_eq _ _ _).symm

theorem grantStore_valid (d : ℕ) : (grantStore v u s).Valid d ↔ vaultOf s d = v ∧
    s.grants.hasAccess d u = true ∧
      s.grants.documentAccessVersion d u = currentAccessVersion s.grants v u := by
  rw [Versioned.Store.Valid, grantStore_current]
  change (if _ then _ else _) = _ ↔ _
  split
  · next h => simp [h]
  · next h =>
    refine iff_of_false (by simp) fun hno => h ⟨hno.1, hno.2.1⟩

/-- The balance of passes drops to zero. -/
def Drops (nft : ERC721 L) (v : ℕ) (u : Address) (t : Transition (State L) Invocation) : Prop :=
  0 < liveTokens nft t.pre.tokens u v ∧ liveTokens nft t.post.tokens u v = 0

instance (nft : ERC721 L) (v : ℕ) (u : Address) : DecidablePred (Drops nft v u) := fun t =>
  inferInstanceAs (Decidable (0 < liveTokens nft t.pre.tokens u v ∧ _))

/-- A revocation of the user on some document of the vault. -/
def Revokes (v : ℕ) (u : Address) (t : Transition (State L) Invocation) : Prop :=
  ∃ r ∈ revoked t, r.2 = (v, u)

instance (v : ℕ) (u : Address) : DecidablePred (Revokes (L := L) v u) := fun t =>
  inferInstanceAs (Decidable (∃ r ∈ revoked t, _))

/-- A revocation of a user who has no version yet finds no grant on the vault's other documents. -/
def SoleGrant (t : Transition (State L) Invocation) : Prop :=
  ∀ r ∈ revoked t, t.pre.grants.vaultAccessVersion r.2.1 r.2.2 = 0 →
    ∀ d, d ≠ r.1 → vaultOf t.pre d = r.2.1 → t.pre.grants.hasAccess d r.2.2 = false

def SoleFor (v : ℕ) (u : Address) (t : Transition (State L) Invocation) : Prop :=
  ∀ d, revoked t = some (d, v, u) → t.pre.grants.vaultAccessVersion v u = 0 →
    ∀ d', d' ≠ d → vaultOf t.pre d' = v → t.pre.grants.hasAccess d' u = false

theorem SoleGrant.sole_for {t : Transition (State L) Invocation} (h : SoleGrant t) (v : ℕ) (u : Address) :
    SoleFor v u t := fun _ hrevoked => h _ hrevoked

/-! ## Transitions as steps of the store -/

/-- What the act of a transition on the store says about the transition. -/
structure ActsAs (nft : ERC721 L) (v : ℕ) (u : Address) (t : Transition (State L) Invocation)
    (a : Versioned.Act ℕ) : Prop where
  step : Versioned.Step (grantStore v u t.pre) a (grantStore v u t.post)
  grant : ∀ d, a = .grant d ↔ granted t = some (d, u) ∧ vaultOf t.post d = v
  revoke : ∀ d, a = .revoke d ↔ revoked t = some (d, v, u)
  voids : a.Voids ↔ Revokes v u t ∨ Drops nft v u t

theorem Drops.iff_balance {i : Invocation} (hI : TokensOk nft s.tokens s.grants)
    (hI' : TokensOk nft s'.tokens s'.grants) (hu : u ≠ 0) (hv : v ≠ 0) :
    Drops nft v u ⟨s, i, s'⟩ ↔ 0 < s.tokens.ownedVaultTokenBalance u v ∧
      s'.tokens.ownedVaultTokenBalance u v = 0 := by
  rw [hI.balance u v hu hv, hI'.balance u v hu hv]
  rfl

theorem not_drops {i : Invocation} (htokens : s'.tokens = s.tokens) : ¬ Drops nft v u ⟨s, i, s'⟩ := by
  rintro ⟨hpos, hzero⟩
  change liveTokens nft s'.tokens u v = 0 at hzero
  rw [htokens] at hzero
  change 0 < liveTokens nft s.tokens u v at hpos
  omega

theorem Revokes.iff_eq {t : Transition (State L) Invocation} {d : ℕ} {r : ℕ × Address}
    (h : revoked t = some (d, r)) : Revokes v u t ↔ r = (v, u) := by
  unfold Revokes
  rw [h]
  simp

theorem not_revokes {t : Transition (State L) Invocation} (h : revoked t = none) : ¬ Revokes v u t := by
  rintro ⟨r, hr, _⟩
  rw [h] at hr
  cases hr

structure GrantMade (s s' : State L) (d : ℕ) (u : Address) : Prop where
  documents : ∀ d', d' ≠ d → vaultOf s' d' = vaultOf s d'
  document : ∀ w, s.grants.hasAccess d w = true → vaultOf s' d = vaultOf s d
  hasAccess : s'.grants.hasAccess = Mapping.set₂ s.grants.hasAccess d u true
  stamp : s'.grants.documentAccessVersion = Mapping.set₂ s.grants.documentAccessVersion d u
    (currentAccessVersion s.grants (vaultOf s' d) u)
  version : s'.grants.vaultAccessVersion = s.grants.vaultAccessVersion

theorem GrantMade.of_grantAccess {d requestId : ℕ}
    (hdocs : ∀ d', d' ≠ d → vaultOf s' d' = vaultOf s d')
    (hdoc : ∀ w, s.grants.hasAccess d w = true → vaultOf s' d = vaultOf s d)
    (h : s'.grants = (grantAccess s'.documents s.grants requestId d u).1) : GrantMade s s' d u := by
  refine ⟨hdocs, hdoc, ?_, ?_, ?_⟩ <;>
    conv_lhs => rw [h]
  all_goals rfl

theorem GrantMade.store {d : ℕ} (h : GrantMade s s' d u) : grantStore (vaultOf s' d) u s' =
    { grantStore (vaultOf s' d) u s with
      grants := Function.update (grantStore (vaultOf s' d) u s).grants d
        (some (grantStore (vaultOf s' d) u s).current) } := by
  rw [grantStore_current]
  unfold grantStore
  rw [h.version, h.hasAccess, h.stamp]
  congr 1
  funext d'
  by_cases hd : d' = d
  · subst hd
    simp
  · rw [Function.update_of_ne hd, h.documents d' hd, Mapping.set₂_other _ _ _ _ _ hd,
      Mapping.set₂_other _ _ _ _ _ hd]

theorem GrantMade.store_other {d : ℕ} {w : Address} (h : GrantMade s s' d w)
    (hmiss : ¬ (vaultOf s' d = v ∧ w = u)) : grantStore v u s' = grantStore v u s := by
  unfold grantStore
  rw [h.version, h.hasAccess, h.stamp]
  congr 1
  funext d'
  by_cases hd : d' = d
  · subst hd
    by_cases hu : u = w
    · subst hu
      rw [if_neg fun h' => hmiss ⟨h'.1, rfl⟩]
      refine (if_neg fun h' => hmiss ⟨?_, rfl⟩).symm
      rw [h.document u h'.2]
      exact h'.1
    · rw [Mapping.set₂_elsewhere _ _ _ _ _ _ fun e => hu e.2,
        Mapping.set₂_elsewhere _ _ _ _ _ _ fun e => hu e.2]
      by_cases hacc : s.grants.hasAccess d' u = true
      · rw [h.document u hacc]
      · rw [if_neg fun h' => hacc h'.2, if_neg fun h' => hacc h'.2]
  · rw [h.documents d' hd, Mapping.set₂_other _ _ _ _ _ hd, Mapping.set₂_other _ _ _ _ _ hd]

theorem ActsAs.keep {i : Invocation} (hgrants : (grantStore v u s').grants = (grantStore v u s).grants)
    (hcurrent : (grantStore v u s').current = (grantStore v u s).current)
    (hgranted : ∀ d, granted ⟨s, i, s'⟩ = some (d, u) → vaultOf s' d ≠ v)
    (hrevoked : ¬ Revokes v u ⟨s, i, s'⟩) (hdrops : ¬ Drops nft v u ⟨s, i, s'⟩) :
    ActsAs nft v u ⟨s, i, s'⟩ .keep where
  step := .keep hgrants hcurrent
  grant := fun d => iff_of_false (by simp) fun h => hgranted d h.1 h.2
  revoke := fun d => iff_of_false (by simp) fun h => hrevoked ⟨_, h, rfl⟩
  voids := iff_of_false id (not_or.mpr ⟨hrevoked, hdrops⟩)

theorem GrantMade.acts {i : Invocation} {d : ℕ} {w : Address} (h : GrantMade s s' d w)
    (htokens : s'.tokens = s.tokens) (hgranted : granted ⟨s, i, s'⟩ = some (d, w))
    (hrevoked : revoked ⟨s, i, s'⟩ = none) : ∃ a, ActsAs nft v u ⟨s, i, s'⟩ a := by
  by_cases hhit : vaultOf s' d = v ∧ w = u
  · obtain ⟨rfl, rfl⟩ := hhit
    refine ⟨.grant d, ?_, ?_, ?_, iff_of_false id
      (not_or.mpr ⟨not_revokes hrevoked, not_drops htokens⟩)⟩
    · rw [h.store]
      exact .grant d
    · intro d'
      rw [hgranted]
      constructor
      · rintro h
        cases h
        exact ⟨rfl, rfl⟩
      · rintro ⟨h, _⟩
        cases h
        rfl
    · intro d'
      rw [hrevoked]
      exact iff_of_false (by simp) (by simp)
  · have hstore := h.store_other hhit
    refine ⟨.keep, .keep (by rw [hstore]) (by rw [hstore]) ?_ (not_revokes hrevoked) (not_drops htokens)⟩
    intro d' hd' hvault
    rw [hgranted] at hd'
    cases hd'
    exact hhit ⟨hvault, rfl⟩

theorem acts_revoke {i : Invocation} {d : ℕ} {w : Address} (hdocs : s'.documents = s.documents)
    (htokens : s'.tokens = s.tokens)
    (hhas : s'.grants.hasAccess = Mapping.set₂ s.grants.hasAccess d w false)
    (hstamp : s'.grants.documentAccessVersion = Mapping.set₂ s.grants.documentAccessVersion d w 0)
    (hversion : s'.grants.vaultAccessVersion = Mapping.set₂ s.grants.vaultAccessVersion (vaultOf s d) w
      (s.grants.vaultAccessVersion (vaultOf s d) w + 1))
    (hgranted : granted ⟨s, i, s'⟩ = none) (hrevoked : revoked ⟨s, i, s'⟩ = some (d, vaultOf s d, w)) :
    ∃ a, ActsAs nft v u ⟨s, i, s'⟩ a := by
  have hvault : ∀ d', vaultOf s' d' = vaultOf s d' := fun d' => by rw [vaultOf, hdocs, vaultOf]
  by_cases hhit : vaultOf s d = v ∧ w = u
  · obtain ⟨rfl, rfl⟩ := hhit
    refine ⟨.revoke d, ?_, ?_, ?_, iff_of_true trivial (Or.inl ⟨_, hrevoked, rfl⟩)⟩
    · have hstore : grantStore (vaultOf s d) w s' =
          { grants := Function.update (grantStore (vaultOf s d) w s).grants d none,
            counter := (grantStore (vaultOf s d) w s).counter + 1 } := by
        unfold grantStore
        rw [hversion, hhas, hstamp]
        congr 1
        · funext d'
          by_cases hd : d' = d
          · subst hd
            simp
          · rw [Function.update_of_ne hd, hvault d', Mapping.set₂_other _ _ _ _ _ hd,
              Mapping.set₂_other _ _ _ _ _ hd]
        · exact Mapping.set₂_same _ _ _ _
      rw [hstore]
      exact .revoke d
    · intro d'
      rw [hgranted]
      exact iff_of_false (by simp) (by simp)
    · intro d'
      rw [hrevoked]
      simp
  · have hrow : s'.grants.vaultAccessVersion v u = s.grants.vaultAccessVersion v u := by
      rw [hversion]
      exact Mapping.set₂_elsewhere _ _ _ _ _ _ fun e => hhit ⟨e.1.symm, e.2.symm⟩
    refine ⟨.keep, .keep ?_ ?_ ?_ ?_ (not_drops htokens)⟩
    · funext d'
      change (if vaultOf s' d' = v ∧ s'.grants.hasAccess d' u = true then _ else _) =
        if vaultOf s d' = v ∧ s.grants.hasAccess d' u = true then _ else _
      rw [hvault, hhas, hstamp]
      by_cases hd : d' = d ∧ u = w
      · obtain ⟨rfl, rfl⟩ := hd
        rw [if_neg fun h => hhit ⟨h.1, rfl⟩, if_neg fun h => hhit ⟨h.1, rfl⟩]
      · rw [Mapping.set₂_elsewhere _ _ _ _ _ _ hd, Mapping.set₂_elsewhere _ _ _ _ _ _ hd]
    · rw [grantStore_current, grantStore_current, currentAccessVersion, hrow, currentAccessVersion]
    · intro d' hd'
      rw [hgranted] at hd'
      cases hd'
    · rw [Revokes.iff_eq hrevoked]
      exact fun e => hhit (Prod.mk.inj e)

theorem acts (hr : VaultRun chain nft hist s) {i : Invocation} (hstep : Steps chain nft s i s')
    (hu : u ≠ 0) (hv : v ≠ 0) : ∃ a, ActsAs nft v u ⟨s, i, s'⟩ a := by
  have hI := tokensOk hr
  cases hstep.access_effect hI with
  | moved hok hfollow hdocs hgranted hrevoked =>
    have hvault : ∀ d, vaultOf s' d = vaultOf s d := fun d => by rw [vaultOf, hdocs, vaultOf]
    have hgrants : (grantStore v u s').grants = (grantStore v u s).grants := by
      funext d
      change (if vaultOf s' d = v ∧ s'.grants.hasAccess d u = true then _ else _) =
        if vaultOf s d = v ∧ s.grants.hasAccess d u = true then _ else _
      rw [hvault, hfollow.hasAccess, hfollow.documentAccessVersion]
    have hdrops := Drops.iff_balance (i := i) hI hok hu hv
    by_cases hdropped : 0 < s.tokens.ownedVaultTokenBalance u v ∧ s'.tokens.ownedVaultTokenBalance u v = 0
    · refine ⟨.expire, .expire hgrants ?_, ?_, ?_, iff_of_true trivial (Or.inr (hdrops.mpr hdropped))⟩
      · rw [grantStore_current, grantStore_current]
        exact hfollow.dropped u v hdropped.1 hdropped.2
      · intro d
        rw [hgranted]
        exact iff_of_false (by simp) (by simp)
      · intro d
        rw [hrevoked]
        exact iff_of_false (by simp) (by simp)
    · refine ⟨.keep, .keep hgrants ?_ ?_ (not_revokes hrevoked) (fun h => hdropped (hdrops.mp h))⟩
      · rw [grantStore_current, grantStore_current]
        exact hfollow.held u v hdropped
      · intro d hd
        rw [hgranted] at hd
        cases hd
  | @uploaded d vaultId w document hnew _ _ hdocs _ htokens hgrants hgranted hrevoked =>
    refine (GrantMade.of_grantAccess (fun d' hd' => ?_) (fun w' hw' => ?_) hgrants).acts htokens hgranted
      hrevoked
    · rw [vaultOf, hdocs, Function.update_of_ne hd', vaultOf]
    · have hle := grants_counted hr d w' hw'
      omega
  | @approved requestId hgrants hdocs htokens hgranted hrevoked =>
    refine (GrantMade.of_grantAccess (fun d' _ => ?_) (fun w' _ => ?_) (hdocs ▸ hgrants.grant)).acts htokens
      hgranted hrevoked
    · rw [vaultOf, hdocs, vaultOf]
    · rw [vaultOf, hdocs, vaultOf]
  | revoked _ hdocs htokens hhas hstamp hversion hgranted hrevoked =>
    exact acts_revoke hdocs htokens hhas hstamp hversion hgranted hrevoked

/-! ## Runs -/

theorem grantStore_bounded (h : VaultRun chain nft hist s) (hu : u ≠ 0) (hv : v ≠ 0) :
    (grantStore v u s).Bounded := by
  refine h.relates (R := fun _ s => (grantStore v u s).Bounded) ?_ ?_
  · rintro s ⟨deployer, rfl⟩ d n hd
    have hnone : (grantStore v u (State.deployed nft deployer)).grants d = none :=
      if_neg fun h => by cases h.2
    rw [hnone] at hd
    cases hd
  · intro hist s i s' hr ih hstep
    obtain ⟨a, ha⟩ := acts hr hstep hu hv
    exact ha.step.bounded ih

theorem ActsAs.effective {t : Transition (State L) Invocation} {a : Versioned.Act ℕ}
    (h : ActsAs nft v u t a) (hsole : SoleFor v u t) : Versioned.Effective (grantStore v u t.pre) a := by
  cases a with
  | revoke d =>
    intro hzero d' hd'
    have hrevoked := (h.revoke d).mp rfl
    change (if vaultOf t.pre d' = v ∧ t.pre.grants.hasAccess d' u = true then _ else _) = none
    refine if_neg fun hgrant => ?_
    have hnone := hsole d hrevoked hzero d' hd' hgrant.1
    rw [hnone] at hgrant
    exact absurd hgrant.2 (by simp)
  | keep | grant d | expire => trivial

/-- A grant is valid in a run of sole revocations exactly when it was made after the last
revocation of the user in the vault and the last drop of the user's passes. -/
theorem valid_iff_since (h : VaultRun chain nft hist s) (hu : u ≠ 0) (hv : v ≠ 0)
    (hsole : ∀ t ∈ hist, SoleFor v u t) (d : ℕ) :
    (grantStore v u s).Valid d ↔ Since (fun t => ¬ (Revokes v u t ∨ Drops nft v u t))
      (fun t => granted t = some (d, u) ∧ vaultOf t.post d = v) hist := by
  refine h.relates_of
    (R := fun hist s => (grantStore v u s).Valid d ↔ Since (fun t => ¬ (Revokes v u t ∨ Drops nft v u t))
      (fun t => granted t = some (d, u) ∧ vaultOf t.post d = v) hist) (C := SoleFor v u) ?_ ?_ hsole
  · rintro s ⟨deployer, rfl⟩
    rw [grantStore_valid]
    refine iff_of_false (fun hvalid => ?_) id
    cases hvalid.2.1
  · intro hist s i s' hr ih hC hstep
    obtain ⟨a, ha⟩ := acts hr hstep hu hv
    rw [since_cons, ← ih, ← ha.grant d, ← ha.voids]
    exact ha.step.valid_iff (grantStore_bounded hr hu hv) (ha.effective hC) d

/-- A revocation leaves the user no valid grant of the vault exactly when it is a sole one, where
the user has no version yet. -/
theorem revocation_voids_iff {i : Invocation} (h : VaultRun chain nft hist s)
    (hstep : Steps chain nft s i s') (hu : u ≠ 0) (hv : v ≠ 0) {d : ℕ}
    (hrevoked : revoked ⟨s, i, s'⟩ = some (d, v, u)) :
    (∀ d', ¬ (grantStore v u s').Valid d') ↔ (s.grants.vaultAccessVersion v u = 0 →
      ∀ d', d' ≠ d → vaultOf s d' = v → s.grants.hasAccess d' u = false) := by
  obtain ⟨a, ha⟩ := acts h hstep hu hv
  obtain rfl := (ha.revoke d).mpr hrevoked
  rw [Versioned.revoke_voids_iff (grantStore_bounded h hu hv) ha.step]
  refine imp_congr Iff.rfl (forall₂_congr fun d' _ => ?_)
  change (if vaultOf s d' = v ∧ s.grants.hasAccess d' u = true then _ else _) = none ↔ _
  split
  · next hgrant => simp [hgrant]
  · next hgrant =>
    refine iff_of_true rfl fun hvault => ?_
    exact Bool.eq_false_of_not_eq_true fun hacc => hgrant ⟨hvault, hacc⟩

theorem holder_ne (hI : TokensOk nft s.tokens s.grants)
    (howns : ownsVaultToken s.tokens u v = true) : u ≠ 0 ∧ v ≠ 0 := by
  have hpos : 0 < s.tokens.ownedVaultTokenBalance u v := of_decide_eq_true howns
  refine ⟨fun hu => ?_, fun hv => ?_⟩
  · have := hI.nobody u v (Or.inl hu)
    omega
  · have := hI.nobody u v (Or.inr hv)
    omega

/-- In a run whose revocations are sole where the user has no version yet, active access of a
user who is no guardian comes from a grant made since the last revocation of the user in the
vault and since the user's passes last dropped to zero, and the user holds a pass. -/
theorem access_since_last_revocation (h : VaultRun chain nft hist s)
    (hsole : ∀ t ∈ hist, SoleGrant t) {d : ℕ} (hactive : hasActiveAccess s d u = true)
    (hguardian : s.governance.isGuardian (vaultOf s d) u = false) :
    0 < liveTokens nft s.tokens u (vaultOf s d) ∧
      Since (fun t => ¬ Revokes (vaultOf s d) u t ∧ ¬ Drops nft (vaultOf s d) u t)
        (fun t => granted t = some (d, u)) hist := by
  simp only [hasActiveAccess] at hactive
  split at hactive
  · cases hactive
  · simp only [hasActiveAccessInternal, Bool.or_eq_true, Bool.and_eq_true, beq_iff_eq] at hactive
    have hgrant := hactive.resolve_left (by
      change s.governance.isGuardian (vaultOf s d) u ≠ true
      simp [hguardian])
    obtain ⟨⟨hhas, howns⟩, hversion⟩ := hgrant
    change ownsVaultToken s.tokens u (vaultOf s d) = true at howns
    have hI := tokensOk h
    obtain ⟨hu, hv⟩ := holder_ne hI howns
    have hvalid : (grantStore (vaultOf s d) u s).Valid d := (grantStore_valid d).mpr ⟨rfl, hhas, hversion⟩
    refine ⟨?_, ?_⟩
    · rw [← hI.balance u _ hu hv]
      exact of_decide_eq_true howns
    · have hsince := (valid_iff_since h hu hv (fun t ht => (hsole t ht).sole_for _ u) d).mp hvalid
      exact hsince.mono (fun _ => not_or.mp) (fun _ => And.left)

/-- User 9 of `openedRequest` is granted the document, revoked, and granted again. -/
def regranted : List Invocation :=
  openedRequest ++
    [(callBy 1 106, .approval (.approveAccess 1 [])),
      (callBy 2 107, .approval (.approveAccess 1 [])),
      (callBy 3 108, .grants (.revokeAccess 1 9)),
      (callBy 9 109, .requestAccess 1),
      (callBy 1 110, .approval (.approveAccess 2 [])),
      (callBy 2 111, .approval (.approveAccess 2 []))]

/-- In such a run access to a document is exactly what guardians have, and holders of a pass with a grant since
then. -/
theorem active_access_iff (h : VaultRun chain nft hist s) (hsole : ∀ t ∈ hist, SoleGrant t) {d : ℕ}
    (hd : (s.documents.documents d).id ≠ 0) (hu : u ≠ 0) (hv : vaultOf s d ≠ 0) :
    hasActiveAccess s d u = true ↔ s.governance.isGuardian (vaultOf s d) u = true ∨
      0 < liveTokens nft s.tokens u (vaultOf s d) ∧
        Since (fun t => ¬ (Revokes (vaultOf s d) u t ∨ Drops nft (vaultOf s d) u t))
          (fun t => granted t = some (d, u) ∧ vaultOf t.post d = vaultOf s d) hist := by
  rw [← valid_iff_since h hu hv (fun t ht => (hsole t ht).sole_for _ u) d, grantStore_valid,
    ← (tokensOk h).balance u _ hu hv]
  simp only [hasActiveAccess, hd, if_false, hasActiveAccessInternal, Bool.or_eq_true, Bool.and_eq_true, beq_iff_eq,
    ownsVaultToken, decide_eq_true_eq, vaultOf, true_and]
  tauto

/-- The revocation of user 9, whose pass came with a version. -/
theorem revocation_voids_holder : ∃ hist s s', VaultRun localChain ERC721.standard hist s ∧
    Steps localChain ERC721.standard s (callBy 3 108, .grants (.revokeAccess 1 9)) s' ∧
    ∀ d, ¬ (grantStore 1 9 s').Valid d := by
  obtain ⟨hist, s, s', hrun, hstep, hend⟩ := exists_step localChain ERC721.standard 7 (regranted.take 9)
    (callBy 3 108, .grants (.revokeAccess 1 9))
    (fun s _ => decide (vaultOf s 1 = 1 ∧ s.grants.vaultAccessVersion 1 9 ≠ 0)) (by decide +kernel)
  obtain ⟨hvault, hversion⟩ := of_decide_eq_true hend
  refine ⟨hist, s, s', hrun, hstep, ?_⟩
  refine (revocation_voids_iff hrun hstep (by decide) (by decide) (d := 1) ?_).mpr fun hzero => absurd hzero hversion
  exact congrArg (fun v => some (1, v, 9)) hvault

theorem access_since_last_revocation_regranted : ∃ hist s, VaultRun localChain ERC721.standard hist s ∧
    hasActiveAccess s 1 9 = true ∧ hist.length = 13 ∧
      Since (fun t => ¬ Revokes (vaultOf s 1) 9 t ∧ ¬ Drops ERC721.standard (vaultOf s 1) 9 t)
        (fun t => granted t = some (1, 9)) hist := by
  obtain ⟨hist, s, hrun, hend⟩ := exists_run localChain ERC721.standard 7 regranted
    (fun hist s => decide (hasActiveAccess s 1 9 = true ∧ hist.length = 13 ∧
      s.governance.isGuardian (vaultOf s 1) 9 = false ∧
      ∀ t ∈ hist, ∀ r ∈ revoked t, t.pre.grants.vaultAccessVersion r.2.1 r.2.2 ≠ 0)) (by decide +kernel)
  obtain ⟨hactive, hlength, hguardian, hversions⟩ := of_decide_eq_true hend
  have hsole : ∀ t ∈ hist, SoleGrant t := fun t ht r hr hzero => absurd hzero (hversions t ht r hr)
  exact ⟨hist, s, hrun, hactive, hlength, (access_since_last_revocation hrun hsole hactive hguardian).2⟩

theorem active_access_iff_regranted : ∃ hist s, VaultRun localChain ERC721.standard hist s ∧
    s.governance.isGuardian (vaultOf s 1) 9 = false ∧ hasActiveAccess s 1 9 = true := by
  obtain ⟨hist, s, hrun, hend⟩ := exists_run localChain ERC721.standard 7 regranted
    (fun hist s => decide (((s.documents.documents 1).id ≠ 0 ∧ vaultOf s 1 ≠ 0) ∧
      (∀ t ∈ hist, ∀ r ∈ revoked t, t.pre.grants.vaultAccessVersion r.2.1 r.2.2 ≠ 0) ∧
      s.governance.isGuardian (vaultOf s 1) 9 = false ∧ 0 < liveTokens ERC721.standard s.tokens 9 (vaultOf s 1) ∧
      Since (fun t => ¬ (Revokes (vaultOf s 1) 9 t ∨ Drops ERC721.standard (vaultOf s 1) 9 t))
        (fun t => granted t = some (1, 9) ∧ vaultOf t.post 1 = vaultOf s 1) hist)) (by decide +kernel)
  obtain ⟨⟨hd, hv⟩, hversions, hguardian, hsince⟩ := of_decide_eq_true hend
  have hsole : ∀ t ∈ hist, SoleGrant t := fun t ht r hr hzero => absurd hzero (hversions t ht r hr)
  exact ⟨hist, s, hrun, hguardian, (active_access_iff hrun hsole hd (by decide) hv).mpr (.inr hsince)⟩

/-- Guardian 2 uploads a document, is revoked on another one, is removed, and receives a pass. -/
def removedUploader : List Invocation :=
  [(callBy 1 100, .createVault (ascii "vault") [] [2] 1),
    (callBy 2 101, .governance (.acceptGuardianInvite 1)),
    (callBy 2 102, .addDocument 1 [] (ascii "Qm") .READ .ANYTIME [] []),
    (callBy 1 103, .addDocument 1 [] (ascii "Qn") .READ .ANYTIME [] []),
    (callBy 1 104, .grants (.revokeAccess 2 2)),
    (callBy 1 105, .governance (.proposeGuardianRemoval 1 2)),
    (callBy 1 106, .governance (.approveGuardianRemoval 1 2)),
    (callBy 2 107, .governance (.approveGuardianRemoval 1 2)),
    (callBy 1 108, .governance (.queueVaultReconfiguration 1 2 0)),
    (callBy 1 90000, .governance (.executeVaultReconfiguration 1 2 0)),
    (callBy 1 90001, .mintAccessToken 1 2 []),
    (callBy 2 90001, .tokenReceived)]

/-- The removed uploader has access again, by the grant from before the revocation. -/
theorem revoked_uploader_returns : ∃ hist s, VaultRun localChain ERC721.standard hist s ∧
    hasActiveAccess s 1 2 = true ∧ s.governance.isGuardian (vaultOf s 1) 2 = false ∧
      ¬ Since (fun t => ¬ Revokes (vaultOf s 1) 2 t ∧ ¬ Drops ERC721.standard (vaultOf s 1) 2 t)
        (fun t => granted t = some (1, 2)) hist := by
  obtain ⟨hist, s, hrun, hend⟩ := exists_run localChain ERC721.standard 7 removedUploader
    (fun hist s => decide (hasActiveAccess s 1 2 = true ∧
      s.governance.isGuardian (vaultOf s 1) 2 = false ∧
      ¬ Since (fun t => ¬ Revokes (vaultOf s 1) 2 t ∧ ¬ Drops ERC721.standard (vaultOf s 1) 2 t)
        (fun t => granted t = some (1, 2)) hist)) (by decide +kernel)
  obtain ⟨hactive, hguardian, hbefore⟩ := of_decide_eq_true hend
  exact ⟨hist, s, hrun, hactive, hguardian, hbefore⟩

end ChainGuard.Evm
