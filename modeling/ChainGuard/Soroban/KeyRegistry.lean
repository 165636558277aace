import ChainGuard.Library.Links
import ChainGuard.Soroban.Contract
import Mathlib.Data.Set.Finite.Basic

/-! The registry of encryption keys and cross-chain links. A key given for an EVM address is stored a
second time under that address, and no later change of the account's key reaches that copy; a link
replaces the links of both its ends without removing their other directions. -/
namespace ChainGuard.Soroban
open Guarded History
set_option autoImplicit false

variable {host : Host} {env : Env} {s s' : State} {k k' : Identities} {c : Call}
  {hist : List (Transition State Invocation)}

/-! ## What a call does to the registry -/

inductive RegistryEffect (k : Identities) : Call → Identities → Prop
  | kept {c : Call} : (∀ d, c ≠ .identities d) → RegistryEffect k c k
  | keyRegistered (user : Address) (publicKey : Bytes) : k.revokedKey publicKey = false →
      RegistryEffect k (.identities (.registerPublicKey user publicKey))
        { k with pubKey := Function.update k.pubKey user (some publicKey) }
  | keyRevoked (user : Address) (oldPublicKey newPublicKey : Bytes) : oldPublicKey ≠ newPublicKey →
      k.revokedKey newPublicKey = false → k.pubKey user = some oldPublicKey →
      RegistryEffect k (.identities (.revokeKey user oldPublicKey newPublicKey))
        { k with
          revokedKey := Function.update k.revokedKey oldPublicKey true
          pubKey := Function.update k.pubKey user (some newPublicKey) }
  | linked (user : Address) (evmAddress : Bytes) :
      RegistryEffect k (.identities (.registerCrossChainIdentity user evmAddress none))
        { k with
          evmToStellar := Function.update k.evmToStellar evmAddress (some user)
          stellarToEvm := Function.update k.stellarToEvm user (some evmAddress) }
  | linkedWithKey (user : Address) (evmAddress publicKey : Bytes) : k.revokedKey publicKey = false →
      RegistryEffect k (.identities (.registerCrossChainIdentity user evmAddress (some publicKey)))
        { k with
          evmToStellar := Function.update k.evmToStellar evmAddress (some user)
          stellarToEvm := Function.update k.stellarToEvm user (some evmAddress)
          evmToPubKey := Function.update k.evmToPubKey evmAddress (some publicKey)
          pubKey := Function.update k.pubKey user (some publicKey) }

theorem execIdentities_effect {c : IdentityCall} {logs : List Event}
    (h : execIdentities env k c = .ok (k', logs)) : RegistryEffect k (.identities c) k' := by
  cases c with
  | registerPublicKey user publicKey =>
    simp only [execIdentities, registerPublicKey, bind_ok, requireAuth_ok, assert_ok, exists_const,
      pure_ok, Prod.mk.injEq] at h
    obtain ⟨_, hkey, rfl, _⟩ := h
    exact .keyRegistered user publicKey hkey
  | revokeKey user oldPublicKey newPublicKey =>
    simp only [execIdentities, revokeKey, bind_ok, requireAuth_ok, assert_ok, expect_ok, exists_const,
      pure_ok, Prod.mk.injEq] at h
    obtain ⟨_, _, hne, hnew, current, hcurrent, rfl, _, rfl, _⟩ := h
    exact .keyRevoked user current newPublicKey hne hnew hcurrent
  | registerCrossChainIdentity user evmAddress encryptionPubkey =>
    cases encryptionPubkey with
    | none =>
      simp only [execIdentities, registerCrossChainIdentity, bind_ok, requireAuth_ok, assert_ok,
        exists_const, pure_ok, Prod.mk.injEq] at h
      obtain ⟨_, _, rfl, _⟩ := h
      exact .linked user evmAddress
    | some publicKey =>
      simp only [execIdentities, registerCrossChainIdentity, bind_ok, requireAuth_ok, assert_ok,
        exists_const, pure_ok, Prod.mk.injEq] at h
      obtain ⟨_, _, hkey, rfl, _⟩ := h
      exact .linkedWithKey user evmAddress publicKey hkey

theorem Steps.registry_effect {i : Invocation} (h : Steps host s i s') :
    RegistryEffect s.identities i.2 s'.identities := by
  cases h.effect with
  | identities hexec => exact execIdentities_effect hexec
  | _ => exact .kept (by rintro d ⟨⟩)

/-! ## Keys revoked by their own account -/

def RevokedOwn (hist : List (Transition State Invocation)) (user : Address) (publicKey : Bytes) : Prop :=
  ∃ t ∈ hist, ∃ newPublicKey, t.label.2 = .identities (.revokeKey user publicKey newPublicKey)

structure Replaced (k : Identities) (user : Address) (publicKey : Bytes) : Prop where
  blacklisted : k.revokedKey publicKey = true
  rekeyed : ∃ key, k.pubKey user = some key ∧ key ≠ publicKey

theorem Replaced.rekey {user account : Address} {publicKey key : Bytes} (h : Replaced k user publicKey)
    (hkey : k.revokedKey key = false) :
    ∃ key', Function.update k.pubKey account (some key) user = some key' ∧ key' ≠ publicKey := by
  have hne : key ≠ publicKey := by
    rintro rfl
    rw [h.blacklisted] at hkey
    cases hkey
  by_cases hu : user = account
  · subst hu
    exact ⟨key, Function.update_self .., hne⟩
  · rw [Function.update_of_ne hu]
    exact h.rekeyed

theorem RegistryEffect.replaced {user : Address} {publicKey : Bytes} (h : RegistryEffect k c k')
    (hr : Replaced k user publicKey) : Replaced k' user publicKey := by
  cases h with
  | kept _ => exact hr
  | keyRegistered account key hkey => exact ⟨hr.blacklisted, hr.rekey hkey⟩
  | keyRevoked account old new _ hnew _ =>
    refine ⟨?_, hr.rekey hnew⟩
    show Function.update k.revokedKey old true publicKey = true
    rw [Function.update_apply]
    split
    · rfl
    · exact hr.blacklisted
  | linked account e => exact ⟨hr.blacklisted, hr.rekeyed⟩
  | linkedWithKey account e key hkey => exact ⟨hr.blacklisted, hr.rekey hkey⟩

theorem RegistryEffect.revoked {user : Address} {old new : Bytes}
    (h : RegistryEffect k (.identities (.revokeKey user old new)) k') : Replaced k' user old := by
  cases h with
  | kept hother => exact absurd rfl (hother _)
  | keyRevoked _ _ _ hne _ _ =>
    exact ⟨Function.update_self .., new, Function.update_self .., Ne.symm hne⟩

theorem revokedOwn_replaced (h : StellarRun host hist s) {user : Address} {publicKey : Bytes}
    (hrevoked : RevokedOwn hist user publicKey) : Replaced s.identities user publicKey := by
  refine h.relates (R := fun hist s => RevokedOwn hist user publicKey →
    Replaced s.identities user publicKey) ?_ ?_ hrevoked
  · rintro s _ ⟨t, ht, _⟩
    cases ht
  · rintro hist s i s' _ ih hstep ⟨t, ht, new, hlabel⟩
    have heffect := hstep.registry_effect
    rcases List.mem_cons.mp ht with rfl | ht
    · dsimp only at hlabel
      rw [hlabel] at heffect
      exact heffect.revoked
    · exact heffect.replaced (ih ⟨t, ht, new, hlabel⟩)

/-! ## The key served for an EVM address -/

theorem resolveEvmToPublicKey_eq (k : Identities) (e : Bytes) :
    resolveEvmToPublicKey k e = Links.served k.evmToStellar k.evmToPubKey k.pubKey e := by
  unfold resolveEvmToPublicKey Links.served
  cases k.evmToPubKey e <;> rfl

def CopiesCoherent (k : Identities) : Prop := Links.Coherent k.evmToStellar k.evmToPubKey k.pubKey

/-- The call leaves no EVM address with a copy of a key other than that of its account. -/
def KeepsCopies (k : Identities) : Call → Prop
  | .identities (.registerPublicKey user publicKey) | .identities (.revokeKey user _ publicKey) =>
    ∀ e, k.evmToStellar e = some user → ∀ copy ∈ k.evmToPubKey e, copy = publicKey
  | .identities (.registerCrossChainIdentity user e none) =>
    ∀ copy ∈ k.evmToPubKey e, ∀ publicKey ∈ k.pubKey user, copy = publicKey
  | .identities (.registerCrossChainIdentity user e (some publicKey)) =>
    ∀ e', e' ≠ e → k.evmToStellar e' = some user → ∀ copy ∈ k.evmToPubKey e', copy = publicKey
  | _ => True

theorem RegistryEffect.coherent_iff (h : RegistryEffect k c k') (hk : CopiesCoherent k) :
    CopiesCoherent k' ↔ KeepsCopies k c := by
  cases h with
  | @kept c hother =>
    have htrivial : KeepsCopies k c := by
      cases c with
      | identities d => exact absurd rfl (hother d)
      | _ => trivial
    exact iff_of_true hk htrivial
  | keyRegistered user publicKey _ => exact hk.own_iff user publicKey
  | keyRevoked user old new _ _ _ => exact hk.own_iff user new
  | linked user e => exact hk.link_iff e user
  | linkedWithKey user e publicKey _ => exact hk.enter_iff e user publicKey

/-- No key that its account revoked is served for an address linked to it, and what is served for a
linked address is the account's current key. -/
structure ServesKeys (hist : List (Transition State Invocation)) (k : Identities) : Prop where
  revoked : ∀ user publicKey, RevokedOwn hist user publicKey → ∀ e,
    resolveEvmToStellar k e = some user → resolveEvmToPublicKey k e ≠ some publicKey
  current : ∀ e user publicKey, resolveEvmToStellar k e = some user →
    getPublicKey k user = some publicKey → resolveEvmToPublicKey k e = getPublicKey k user

theorem ServesKeys.coherent (h : ServesKeys hist k) : CopiesCoherent k := by
  refine Links.coherent_iff_served.mpr ?_
  intro e user publicKey hlink hkey
  rw [← resolveEvmToPublicKey_eq]
  exact (h.current e user publicKey hlink hkey).trans hkey

theorem CopiesCoherent.serves (h : StellarRun host hist s) (hk : CopiesCoherent s.identities) :
    ServesKeys hist s.identities := by
  have hserved : ∀ e user publicKey, s.identities.evmToStellar e = some user →
      s.identities.pubKey user = some publicKey →
      resolveEvmToPublicKey s.identities e = some publicKey := by
    intro e user publicKey hlink hkey
    rw [resolveEvmToPublicKey_eq]
    exact Links.coherent_iff_served.mp hk e user publicKey hlink hkey
  constructor
  · intro user publicKey hrevoked e hlink
    obtain ⟨key, hkey, hne⟩ := (revokedOwn_replaced h hrevoked).rekeyed
    rw [hserved e user key hlink hkey, Ne, Option.some.injEq]
    exact hne
  · intro e user publicKey hlink hkey
    exact (hserved e user publicKey hlink hkey).trans hkey.symm

/-- The registry serves current keys throughout a run exactly when no call of it leaves a copy of
another key behind. -/
theorem serves_keys_iff (h : StellarRun host hist s) :
    (∀ early mid, Visits hist s early mid → ServesKeys early mid.identities) ↔
      ∀ t ∈ hist, KeepsCopies t.pre.identities t.label.2 := by
  refine h.visited_iff (R := fun hist s => ServesKeys hist s.identities)
    (C := fun t => KeepsCopies t.pre.identities t.label.2) ?_ ?_
  · rintro s rfl
    refine CopiesCoherent.serves (StellarRun.deployed host) ?_
    rintro e user hlink
    cases hlink
  · intro hist s i s' hr hserves hstep
    have hcoherent := hstep.registry_effect.coherent_iff hserves.coherent
    constructor
    · intro hserves'
      exact hcoherent.mp hserves'.coherent
    · intro hkeeps
      exact (hcoherent.mpr hkeeps).serves (.next hr hstep)

/-- Account 1 links an address to its registered key and rotates the key. -/
theorem serves_keys_rotated : ∃ hist s, StellarRun localHost hist s ∧
    resolveEvmToPublicKey s.identities (List.replicate 42 0) = some (ascii "L") ∧
      ∀ early mid, Visits hist s early mid → ServesKeys early mid.identities := by
  have hregistered := (StellarRun.deployed localHost).invoked (invokedBy [acct 1] 100)
    (.identities (.registerPublicKey (acct 1) (ascii "K"))) rfl
  have hlinked := hregistered.invoked (invokedBy [acct 1] 101)
    (.identities (.registerCrossChainIdentity (acct 1) (List.replicate 42 0) none)) rfl
  have hrotated := hlinked.invoked (invokedBy [acct 1] 102)
    (.identities (.revokeKey (acct 1) (ascii "K") (ascii "L"))) rfl
  refine ⟨_, _, hrotated, by decide +kernel, (serves_keys_iff hrotated).mpr ?_⟩
  simp only [List.forall_mem_cons]
  refine ⟨?_, ?_, ?_, ?_⟩
  · intro e _ copy hcopy
    cases hcopy
  · intro copy hcopy
    cases hcopy
  · intro e _ copy hcopy
    cases hcopy
  · intro t ht
    cases ht

/-- Account 1 gives its key with a link and revokes it: the revoked key is still served. -/
theorem revoked_key_served : ∃ hist s, StellarRun localHost hist s ∧
    RevokedOwn hist (acct 1) (ascii "K") ∧
      resolveEvmToStellar s.identities (List.replicate 42 0) = some (acct 1) ∧
        resolveEvmToPublicKey s.identities (List.replicate 42 0) = some (ascii "K") ∧
          ¬ ServesKeys hist s.identities := by
  have hlinked := (StellarRun.deployed localHost).invoked (invokedBy [acct 1] 100)
    (.identities (.registerCrossChainIdentity (acct 1) (List.replicate 42 0) (some (ascii "K")))) rfl
  have hrotated := hlinked.invoked (invokedBy [acct 1] 101)
    (.identities (.revokeKey (acct 1) (ascii "K") (ascii "L"))) rfl
  refine ⟨_, _, hrotated, ⟨_, List.mem_cons_self .., _, rfl⟩, by decide +kernel, by decide +kernel, ?_⟩
  intro hserves
  exact hserves.revoked (acct 1) (ascii "K") ⟨_, List.mem_cons_self .., _, rfl⟩ (List.replicate 42 0)
    (by decide +kernel) (by decide +kernel)

/-! ## Links in both directions -/

/-- A link that the call enters replaces no link of either end to a third party. -/
def ReplacesNoLink (k : Identities) : Call → Prop
  | .identities (.registerCrossChainIdentity user e _) => Links.Free k.evmToStellar k.stellarToEvm e user
  | _ => True

theorem RegistryEffect.inverse_iff (h : RegistryEffect k c k')
    (hk : Links.Inverse k.evmToStellar k.stellarToEvm) :
    Links.Inverse k'.evmToStellar k'.stellarToEvm ↔ ReplacesNoLink k c := by
  cases h with
  | @kept c hother =>
    have htrivial : ReplacesNoLink k c := by
      cases c with
      | identities d => exact absurd rfl (hother d)
      | _ => trivial
    exact iff_of_true hk htrivial
  | keyRegistered user publicKey _ => exact iff_of_true hk trivial
  | keyRevoked user old new _ _ _ => exact iff_of_true hk trivial
  | linked user e => exact hk.link_iff e user
  | linkedWithKey user e publicKey _ => exact hk.link_iff e user

/-- The links are one-to-one throughout a run exactly when no link of it replaces another. -/
theorem links_one_to_one_iff (h : StellarRun host hist s) :
    (∀ early mid, Visits hist s early mid → ∀ e user,
      resolveEvmToStellar mid.identities e = some user ↔
        resolveStellarToEvm mid.identities user = some e) ↔
      ∀ t ∈ hist, ReplacesNoLink t.pre.identities t.label.2 := by
  refine h.visited_iff
    (R := fun _ s => Links.Inverse s.identities.evmToStellar s.identities.stellarToEvm)
    (C := fun t => ReplacesNoLink t.pre.identities t.label.2) ?_ ?_
  · rintro s rfl e user
    exact iff_of_false (fun h => by cases h) (fun h => by cases h)
  · intro hist s i s' _ hinverse hstep
    exact hstep.registry_effect.inverse_iff hinverse

theorem links_one_to_one_two : ∃ hist s, StellarRun localHost hist s ∧ hist.length = 2 ∧
    ∀ early mid, Visits hist s early mid → ∀ e user,
      resolveEvmToStellar mid.identities e = some user ↔
        resolveStellarToEvm mid.identities user = some e := by
  have hfirst := (StellarRun.deployed localHost).invoked (invokedBy [acct 1] 100)
    (.identities (.registerCrossChainIdentity (acct 1) (List.replicate 42 0) none)) rfl
  have hsecond := hfirst.invoked (invokedBy [acct 2] 101)
    (.identities (.registerCrossChainIdentity (acct 2) (List.replicate 42 1) none)) rfl
  refine ⟨_, _, hsecond, rfl, (links_one_to_one_iff hsecond).mpr ?_⟩
  simp only [List.forall_mem_cons]
  refine ⟨?_, ?_, ?_⟩
  · exact ⟨fun user h => (by cases h), fun e h => (by cases h)⟩
  · exact ⟨fun user h => (by cases h), fun e h => (by cases h)⟩
  · intro t ht
    cases ht

/-- Account 2 links the address of account 1, which still resolves to it. -/
theorem link_taken_over : ∃ hist s, StellarRun localHost hist s ∧
    resolveStellarToEvm s.identities (acct 1) = some (List.replicate 42 0) ∧
      resolveEvmToStellar s.identities (List.replicate 42 0) = some (acct 2) := by
  obtain ⟨hist, s, hrun, hend⟩ := exists_run localHost
    [(invokedBy [acct 1] 100,
        .identities (.registerCrossChainIdentity (acct 1) (List.replicate 42 0) none)),
      (invokedBy [acct 2] 101,
        .identities (.registerCrossChainIdentity (acct 2) (List.replicate 42 0) none))]
    (fun _ s => decide (resolveStellarToEvm s.identities (acct 1) = some (List.replicate 42 0) ∧
      resolveEvmToStellar s.identities (List.replicate 42 0) = some (acct 2))) (by decide +kernel)
  exact ⟨hist, s, hrun, of_decide_eq_true hend⟩

/-! The registered keys seen from one account, as on the EVM side: anybody may register any key, and
revokes with it every account's use of that key. Only finitely many keys are ever revoked, so there
always is one to rotate to. -/

variable {host : Host} {s s' : State} {k k' : Identities} {c : Call} {account : Address}
  {publicKey : Bytes} {hist later : List (Transition State Invocation)}

/-! ## Calls of strangers -/

def IdentityCall.rotatedBy : IdentityCall → Option Address
  | .registerPublicKey user _ | .revokeKey user _ _ => some user
  | .registerCrossChainIdentity .. => none

/-- Somebody else registers or revokes a key. -/
def RotatedByStranger (account : Address) (t : Transition State Invocation) : Prop :=
  ∃ c user, t.label.2 = .identities c ∧ c.rotatedBy = some user ∧ user ≠ account

def KeySafe (host : Host) (s : State) (account : Address) (publicKey : Bytes) : Prop :=
  ∀ later s', RunFrom (Steps host) s later s' → (∀ t ∈ later, RotatedByStranger account t) →
    isKeyRevoked s'.identities publicKey = true → isKeyRevoked s.identities publicKey = true

/-! ## The keys that are left -/

theorem RegistryEffect.revoked_finite (h : RegistryEffect k c k')
    (hk : {key | k.revokedKey key = true}.Finite) : {key | k'.revokedKey key = true}.Finite := by
  cases h with
  | keyRevoked user old new _ _ _ =>
    refine (hk.insert old).subset ?_
    intro key hkey
    simp only [Set.mem_ofPred_eq, Function.update_apply] at hkey
    split at hkey
    · next heq => exact Or.inl heq
    · exact Or.inr hkey
  | _ => exact hk

theorem revoked_finite (h : StellarRun host hist s) :
    {key | s.identities.revokedKey key = true}.Finite := by
  refine h.invariant (I := fun s => {key | s.identities.revokedKey key = true}.Finite) ?_ ?_
  · rintro s rfl
    refine Set.finite_empty.subset ?_
    intro key hkey
    cases hkey
  · intro s i s' hfinite hstep
    exact hstep.registry_effect.revoked_finite hfinite

theorem exists_key_left (h : StellarRun host hist s) (publicKey : Bytes) :
    ∃ other, other ≠ [] ∧ publicKey ≠ other ∧ isKeyRevoked s.identities other = false := by
  obtain ⟨other, hother⟩ := (((revoked_finite h).insert publicKey).insert []).exists_notMem
  simp only [Set.mem_insert_iff, Set.mem_ofPred_eq, not_or] at hother
  obtain ⟨hnonempty, hne, hleft⟩ := hother
  exact ⟨other, hnonempty, Ne.symm hne, Bool.eq_false_iff.mpr hleft⟩

/-! ## A stranger revokes a key -/

def stranger (account : Address) : Address := if account = acct 1 then acct 2 else acct 1

theorem stranger_ne (account : Address) : stranger account ≠ account := by
  unfold stranger
  split
  · next h =>
    subst h
    decide
  · next h => exact Ne.symm h

theorem stranger_revokes (host : Host) {other : Bytes} (hfresh : isKeyRevoked s.identities publicKey = false)
    (hother : other ≠ []) (hne : publicKey ≠ other)
    (hleft : isKeyRevoked s.identities other = false) (account : Address) :
    ∃ later s', RunFrom (Steps host) s later s' ∧ (∀ t ∈ later, RotatedByStranger account t) ∧
      isKeyRevoked s'.identities publicKey = true := by
  have hregister : ∃ s₁, Steps host s (invokedBy [stranger account] 1,
      .identities (.registerPublicKey (stranger account) publicKey)) s₁ ∧
      s₁.identities.pubKey (stranger account) = some publicKey ∧
      s₁.identities.revokedKey = s.identities.revokedKey := by
    simp only [Steps, exec, execIdentities, registerPublicKey, bind_ok, requireAuth_ok, assert_ok,
      exists_const, pure_ok]
    exact ⟨_, ⟨_, ⟨List.mem_singleton_self _, hfresh, rfl⟩, rfl⟩, Function.update_self .., rfl⟩
  obtain ⟨s₁, hstep₁, hentered, hsame⟩ := hregister
  have hrevoke : ∃ s₂, Steps host s₁ (invokedBy [stranger account] 1,
      .identities (.revokeKey (stranger account) publicKey other)) s₂ ∧
      s₂.identities.revokedKey publicKey = true := by
    simp only [Steps, exec, execIdentities, revokeKey, bind_ok, requireAuth_ok, assert_ok, expect_ok,
      exists_const, pure_ok, hentered, hsame]
    exact ⟨_, ⟨_, ⟨List.mem_singleton_self _, hother, hne, hleft, _, rfl, rfl, hfresh, rfl⟩, rfl⟩,
      Function.update_self ..⟩
  obtain ⟨s₂, hstep₂, hrevoked⟩ := hrevoke
  refine ⟨_, s₂, .next (.next (.start rfl) hstep₁) hstep₂, ?_, hrevoked⟩
  intro t ht
  rcases List.mem_cons.mp ht with rfl | ht
  · exact ⟨_, _, rfl, rfl, stranger_ne account⟩
  · cases List.mem_singleton.mp ht
    exact ⟨_, _, rfl, rfl, stranger_ne account⟩

theorem keySafe_iff (h : StellarRun host hist s) :
    KeySafe host s account publicKey ↔ isKeyRevoked s.identities publicKey = true := by
  constructor
  · intro hsafe
    by_contra hfresh
    obtain ⟨other, hother, hne, hleft⟩ := exists_key_left h publicKey
    obtain ⟨later, s', hrun, hstrangers, hrevoked⟩ := stranger_revokes host
      (Bool.eq_false_iff.mpr hfresh) hother hne hleft account
    exact hfresh (hsafe later s' hrun hstrangers hrevoked)
  · intro hrevoked later s' _ _ _
    exact hrevoked

end ChainGuard.Soroban
