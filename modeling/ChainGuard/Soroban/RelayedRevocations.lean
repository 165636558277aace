import ChainGuard.Library.Counters
import ChainGuard.Soroban.UpgradeGovernance
import ChainGuard.Soroban.VaultLinks

/-! Revocations relayed from the EVM. The gid in a revocation names the vault it is routed to, the
vault names the revoker whose signature it takes, and the gid, the document and the beneficiary name
the counter that its nonce has to be above. -/
namespace ChainGuard.Soroban
open Guarded History
set_option autoImplicit false

variable {host : Host} {s s' : State} {hist earlier : List (Transition State Invocation)}
  {t : Transition State Invocation}

/-! ## Signed messages -/

/-- The document and the nonce fit the `u64` that the contract takes them as. -/
structure Revocation.Typed (m : Revocation) : Prop where
  documentId : m.documentId < 2 ^ 64
  nonce : m.nonce < 2 ^ 64

theorem Revocation.payload_inj (hxdr : Function.Injective host.toXdr) {m m' : Revocation} (hm : m.Typed)
    (hm' : m'.Typed) (h : m.payload host = m'.payload host) : m = m' := by
  obtain ⟨gid, documentId, evmUser, stellarUser, nonce⟩ := m
  obtain ⟨gid', documentId', evmUser', stellarUser', nonce'⟩ := m'
  obtain ⟨hdocument, hnonce⟩ := hm
  obtain ⟨hdocument', hnonce'⟩ := hm'
  dsimp only at hdocument hnonce hdocument' hnonce'
  -- The XDR is the one part of variable length: the nonce is split off from behind it.
  obtain ⟨hfront, hlast⟩ := List.append_inj' h (by rw [word_length, word_length])
  obtain ⟨hhead, hstellar⟩ := List.append_inj hfront (by simp)
  obtain ⟨hhead, hevm⟩ := List.append_inj' hhead (by simp)
  obtain ⟨hhead, hid⟩ := List.append_inj' hhead (by simp)
  have hgid := List.append_cancel_left hhead
  have hgid : gid = gid' := BitVec.eq_of_toNat_eq (word_inj gid.isLt gid'.isLt hgid)
  have hid : documentId = documentId' := word_inj (by omega) (by omega) hid
  have hevm : evmUser = evmUser' := BitVec.eq_of_toNat_eq (bytesBE_inj evmUser.isLt evmUser'.isLt hevm)
  have hlast : nonce = nonce' := word_inj (by omega) (by omega) hlast
  have hstellar : stellarUser = stellarUser' := hxdr hstellar
  rw [hgid, hid, hevm, hstellar, hlast]

/-! ## Nonces -/

/-- What a nonce is counted under. -/
abbrev Revocation.Scope := Bytes32 × ℕ × Address

def Revocation.scope (m : Revocation) : Revocation.Scope :=
  (m.vaultGid, m.documentId, m.targetStellarUser)

def lastNonce (s : State) (scope : Revocation.Scope) : ℕ :=
  s.grants.revocationNonce scope.1 scope.2.1 scope.2.2

def acceptedNonce (t : Transition State Invocation) : Option (Revocation.Scope × ℕ) :=
  (relayed t).map fun r => (r.1.scope, r.1.nonce)

theorem lastNonce_set {m : Revocation} {a : Grants} (h : a.revocationNonce = Mapping.set₃
    s.grants.revocationNonce m.vaultGid m.documentId m.targetStellarUser m.nonce) :
    lastNonce { s with grants := a } = Function.update (lastNonce s) m.scope m.nonce := by
  funext scope
  obtain ⟨gid, documentId, user⟩ := scope
  simp only [lastNonce, h, Mapping.set₃, Function.update_apply, Revocation.scope, Prod.mk.injEq]

theorem Steps.relayNonce_effect {i : Invocation} (h : Steps host s i s') :
    Counters.Effect lastNonce acceptedNonce ⟨s, i, s'⟩ := by
  cases h.link_effect with
  | kept _ hrelayed hsame =>
    refine .kept (by rw [acceptedNonce, hrelayed]; rfl) ?_
    funext scope
    exact congrFun (congrFun (congrFun hsame.revocationNonce _) _) _
  | linked owner link _ hrelayed hlinks =>
    refine .kept (by rw [acceptedNonce, hrelayed]; rfl) ?_
    funext scope
    exact congrFun (congrFun (congrFun hlinks.revocationNonce _) _) _
  | relayed m signature recoveryId _ hrelayed hrelays =>
    refine .accepts m.scope m.nonce (by rw [acceptedNonce, hrelayed]; rfl) hrelays.fresh ?_
    exact lastNonce_set hrelays.revocationNonce

/-! ## Routing and revokers -/

def LinksVault (v : ℕ) (t : Transition State Invocation) : Prop :=
  ∃ link, linked t = some link ∧ link.vaultId = v

def LinkedRevoker (v : ℕ) (revoker : EvmAddress) (hist : List (Transition State Invocation)) : Prop :=
  Since (fun t => ¬ LinksVault v t)
    (fun t => ∃ link, linked t = some link ∧ link.vaultId = v ∧ link.evmRevoker = revoker) hist

theorem linkedRevoker (h : StellarRun host hist s) {v : ℕ} {revoker : EvmAddress}
    (hrevoker : s.grants.crossChainRevoker v = some revoker) : LinkedRevoker v revoker hist := by
  have hsince := h.since_written (fun s => s.grants.crossChainRevoker v) (· = some revoker) (LinksVault v)
    (by rintro s rfl hsome; cases hsome) ?_ hrevoker
  · refine hsince.mono (fun _ => id) ?_
    rintro t ⟨⟨link, hlink, hv⟩, hstep, hslot⟩
    refine ⟨link, hlink, hv, ?_⟩
    cases Steps.link_effect hstep with
    | kept hnone _ _ => exact absurd (hlink.symm.trans hnone) (by simp)
    | relayed m signature recoveryId hnone _ _ => exact absurd (hlink.symm.trans hnone) (by simp)
    | linked owner link' hlink' _ hlinks =>
      obtain rfl : link = link' := Option.some.inj (hlink.symm.trans hlink')
      have hwritten := hlinks.crossChainRevoker
      dsimp only at hwritten
      rw [hwritten, ← hv, Function.update_self, hv, hrevoker] at hslot
      exact Option.some.inj hslot
  · intro s i s' hstep
    cases hstep.link_effect with
    | kept _ _ hsame => exact .inr (congrFun hsame.crossChainRevoker v)
    | relayed m signature recoveryId _ _ hrelays => exact .inr (congrFun hrelays.crossChainRevoker v)
    | linked owner link hlink _ hlinks =>
      by_cases hv : link.vaultId = v
      · exact .inl ⟨link, hlink, hv⟩
      · refine .inr ?_
        rw [hlinks.crossChainRevoker, Function.update_of_ne (Ne.symm hv)]

/-! ## Relays -/

def RoutedTo (gid : Bytes32) (v : ℕ) (hist : List (Transition State Invocation)) : Prop :=
  (∃ t ∈ hist, ∃ link, linked t = some link ∧ link.vaultGid = gid ∧ link.vaultId = v) ∧
    ∀ t ∈ hist, ∀ link, linked t = some link → link.vaultGid = gid → link.vaultId = v

theorem routedTo (h : StellarRun host hist s) {gid : Bytes32} {v : ℕ}
    (hgid : s.grants.vaultGid gid = some v) : RoutedTo gid v hist := by
  refine ⟨(routed_iff h gid v).mp hgid, ?_⟩
  intro t ht link hlink heq
  have hother : s.grants.vaultGid gid = some link.vaultId :=
    (routed_iff h gid link.vaultId).mpr ⟨t, ht, link, hlink, heq, rfl⟩
  exact Option.some.inj (hother.symm.trans hgid)

/-- A relay after the transitions `earlier`: the document is in the vault that the gid was linked to,
the last revoker linked to that vault signed all of the arguments, and the nonce is above the earlier
ones. -/
structure AuthenticRelay (host : Host) (earlier : List (Transition State Invocation)) (s : State)
    (m : Revocation) (signature : Signature) (recoveryId : ℕ) : Prop where
  signed : ∃ doc revoker, s.documents.docs m.documentId = some doc ∧
    RoutedTo m.vaultGid doc.vaultId earlier ∧ LinkedRevoker doc.vaultId revoker earlier ∧
    m.SignedBy host signature recoveryId revoker
  increasing : ∀ t' ∈ earlier, ∀ m' signature' recoveryId', relayed t' = some (m', signature', recoveryId') →
    m'.scope = m.scope → m'.nonce < m.nonce

theorem authenticRelay (h : StellarRun host hist s) (hsuffix : t :: earlier <:+ hist) {m : Revocation}
    {signature : Signature} {recoveryId : ℕ} (hrelayed : relayed t = some (m, signature, recoveryId)) :
    AuthenticRelay host earlier t.pre m signature recoveryId := by
  obtain ⟨hrun, hstep⟩ := h.suffix_step hsuffix
  have haccepted : acceptedNonce t = some (m.scope, m.nonce) := by rw [acceptedNonce, hrelayed]; rfl
  have heffect : LinkEffect host t := Steps.link_effect hstep
  refine ⟨?_, ?_⟩
  · cases heffect with
    | kept _ hnone _ => exact absurd (hrelayed.symm.trans hnone) (by simp)
    | linked owner link _ hnone _ => exact absurd (hrelayed.symm.trans hnone) (by simp)
    | relayed m' signature' recoveryId' _ hrelayed' hrelays =>
      rw [hrelayed', Option.some.injEq, Prod.mk.injEq, Prod.mk.injEq] at hrelayed
      obtain ⟨rfl, rfl, rfl⟩ := hrelayed
      obtain ⟨doc, revoker, hgid, hdoc, hrevoker, hsigned⟩ := hrelays.routed
      exact ⟨doc, revoker, hdoc, routedTo hrun hgid, linkedRevoker hrun hrevoker, hsigned⟩
  · intro t' ht' m' signature' recoveryId' hrelayed' hscope
    have haccepted' : acceptedNonce t' = some (m.scope, m'.nonce) := by
      rw [acceptedNonce, hrelayed', Option.map_some, hscope]
    exact Counters.increasing (fun _ _ _ => Steps.relayNonce_effect) h hsuffix ht' haccepted haccepted'

/-- The messages relayed, newest first, as the revokers signed them. -/
def relayedPayloads (host : Host) (hist : List (Transition State Invocation)) : List Bytes :=
  hist.filterMap fun t => (relayed t).map fun r => r.1.payload host

theorem relayedPayloads_nodup (hxdr : Function.Injective host.toXdr) (h : StellarRun host hist s)
    (htyped : ∀ t ∈ hist, ∀ r ∈ relayed t, r.1.Typed) : (relayedPayloads host hist).Nodup := by
  induction h with
  | start _ => exact List.Pairwise.nil
  | @next hist s s' i hrun hstep ih =>
    have ih := ih fun t ht => htyped t (List.mem_cons_of_mem _ ht)
    unfold relayedPayloads
    cases hrelayed : relayed ⟨s, i, s'⟩ with
    | none =>
      rw [List.filterMap_cons_none (by rw [hrelayed]; rfl)]
      exact ih
    | some r =>
      obtain ⟨m, signature, recoveryId⟩ := r
      rw [List.filterMap_cons_some (b := m.payload host) (by rw [hrelayed]; rfl)]
      refine List.nodup_cons.mpr ⟨fun hmem => ?_, ih⟩
      obtain ⟨t', ht', hpayload⟩ := List.mem_filterMap.mp hmem
      obtain ⟨⟨m', signature', recoveryId'⟩, hrelayed', hpayload⟩ := Option.map_eq_some_iff.mp hpayload
      -- The same bytes are the same message, whose nonce would be above itself.
      have hsame : m' = m := Revocation.payload_inj hxdr
        (htyped t' (List.mem_cons_of_mem _ ht') _ hrelayed')
        (htyped _ (List.mem_cons_self ..) _ hrelayed) hpayload
      have hauthentic := authenticRelay (.next hrun hstep) (List.suffix_refl _) hrelayed
      have hlt := hauthentic.increasing t' ht' m' signature' recoveryId' hrelayed' (by rw [hsame])
      rw [hsame] at hlt
      exact lt_irrefl _ hlt

theorem outcome_failed {i : Invocation} (h : ¬ ∃ s', Steps host s i s') : outcome host s i = s := by
  unfold outcome
  split
  · next s' hexec => exact absurd ⟨s', hexec⟩ h
  · rfl

/-- In every run each relayed revocation is authentic and newer than those before it, and no message is
relayed twice. -/
theorem relayed_revocations_authentic (hxdr : Function.Injective host.toXdr) (h : StellarRun host hist s)
    (htyped : ∀ t ∈ hist, ∀ r ∈ relayed t, r.1.Typed) :
    (∀ t earlier m signature recoveryId, t :: earlier <:+ hist →
        relayed t = some (m, signature, recoveryId) →
        AuthenticRelay host earlier t.pre m signature recoveryId) ∧
      (relayedPayloads host hist).Nodup ∧
      ∀ i, (¬ ∃ s', Steps host s i s') → outcome host s i = s := by
  refine ⟨?_, relayedPayloads_nodup hxdr h htyped, fun i => outcome_failed⟩
  intro t earlier m signature recoveryId hsuffix hrelayed
  exact authenticRelay h hsuffix hrelayed

def keyXdr : Address → Bytes
  | .account key => 0 :: word key.toNat
  | .contract id => 1 :: word id.toNat

theorem keyXdr_injective : Function.Injective keyXdr := by
  rintro (key | id) (key' | id') h
  · have hword : word key.toNat = word key'.toNat := (List.cons.inj h).2
    rw [BitVec.eq_of_toNat_eq (word_inj key.isLt key'.isLt hword)]
  · exact absurd (List.cons.inj h).1 (by decide)
  · exact absurd (List.cons.inj h).1 (by decide)
  · have hword : word id.toNat = word id'.toNat := (List.cons.inj h).2
    rw [BitVec.eq_of_toNat_eq (word_inj id.isLt id'.isLt hword)]

/-- Vault 1 is linked to two gids, and a revocation is relayed under each. -/
theorem relayed_revocations_authentic_relinked :
    ∃ hist s, StellarRun { localHost with toXdr := keyXdr } hist s ∧ (hist.filterMap relayed).length = 2 ∧
      (relayedPayloads { localHost with toXdr := keyXdr } hist).Nodup := by
  obtain ⟨hist, s, hrun, hend⟩ := exists_run { localHost with toXdr := keyXdr }
    (openedVault 1 ++
      [(invokedBy [acct 1] 103, .grants (.linkCrossChainVault (acct 1) 1 7 1)),
        (invokedBy [] 104, .grants (.relayRevokeAccess 7 1 0xb (acct 5) 3 0 0)),
        (invokedBy [acct 1] 105, .grants (.linkCrossChainVault (acct 1) 1 8 1)),
        (invokedBy [] 106, .grants (.relayRevokeAccess 8 1 0xb (acct 5) 3 0 0))])
    (fun hist _ => decide ((hist.filterMap relayed).length = 2 ∧
      ∀ t ∈ hist, ∀ r ∈ relayed t, r.1.documentId < 2 ^ 64 ∧ r.1.nonce < 2 ^ 64)) (by decide +kernel)
  obtain ⟨htwo, htyped⟩ := of_decide_eq_true hend
  refine ⟨hist, s, hrun, htwo, ?_⟩
  have htyped : ∀ t ∈ hist, ∀ r ∈ relayed t, r.1.Typed := fun t ht r hr =>
    ⟨(htyped t ht r hr).1, (htyped t ht r hr).2⟩
  exact (relayed_revocations_authentic keyXdr_injective hrun htyped).2.1

end ChainGuard.Soroban
