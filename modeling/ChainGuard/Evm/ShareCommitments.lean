import ChainGuard.Library.Fingerprints
import ChainGuard.Evm.Resharing

/-! The commitments of the guardian shares. Upload and refresh store a share and, unless it is empty,
its commitment: the two belong together as long as no empty share takes the place of another one,
and only then does a refresh retire every share it replaces. -/
namespace ChainGuard.Evm
open Guarded History
set_option autoImplicit false

variable {L : Type} {chain : Chain} {nft : ERC721 L} {s s' : State L} {documentId : ℕ} {g : Address}
  {hist : List (Transition (State L) Invocation)} {t : Transition (State L) Invocation}

/-! ## Shares with their commitments -/

def shareEntry (d : Documents) (documentId : ℕ) (guardian : Address) : Fingerprints.Entry Bytes Bytes32 where
  value := d.encryptedGuardianShares documentId guardian
  mark := d.guardianShareCommitments documentId guardian

def sharesFor (guardian : Address) (entries : List (Address × Bytes)) : List Bytes :=
  entries.filterMap fun e => if e.1 = guardian then some e.2 else none

theorem sharesFor_cons (guardian : Address) (e : Address × Bytes) (entries : List (Address × Bytes)) :
    sharesFor guardian (e :: entries) =
      if e.1 = guardian then e.2 :: sharesFor guardian entries else sharesFor guardian entries := by
  unfold sharesFor
  rw [List.filterMap_cons]
  split_ifs <;> rfl

theorem saveGuardianShare_entry (chain : Chain) (d : Documents) (guardian : Address) (share : Bytes)
    (x : ℕ) (g : Address) :
    shareEntry (saveGuardianShare chain documentId d guardian share) x g =
      if x = documentId ∧ guardian = g then (shareEntry d x g).write [] chain.keccak256 share
      else shareEntry d x g := by
  by_cases hentry : x = documentId ∧ guardian = g
  · obtain ⟨rfl, rfl⟩ := hentry
    cases share <;> simp [shareEntry, saveGuardianShare, Fingerprints.Entry.write]
  · have hother : ¬ (x = documentId ∧ g = guardian) := fun h => hentry ⟨h.1, h.2.symm⟩
    rw [if_neg hentry]
    simp only [shareEntry, saveGuardianShare, Mapping.set₂_apply, if_neg hother]
    split_ifs <;> simp only [Mapping.set₂_apply, if_neg hother]

theorem writes_sharesFor (chain : Chain) (d : Documents) (guardian : Address) (share : Bytes)
    (entries : List (Address × Bytes)) (x : ℕ) (g : Address) :
    (if x = documentId then
        (shareEntry (saveGuardianShare chain documentId d guardian share) x g).writes [] chain.keccak256
          (sharesFor g entries)
      else shareEntry (saveGuardianShare chain documentId d guardian share) x g) =
      if x = documentId then
        (shareEntry d x g).writes [] chain.keccak256 (sharesFor g ((guardian, share) :: entries))
      else shareEntry d x g := by
  rw [saveGuardianShare_entry, sharesFor_cons]
  by_cases hx : x = documentId
  · rw [if_pos hx, if_pos hx]
    by_cases hg : guardian = g
    · rw [if_pos ⟨hx, hg⟩, if_pos hg]
      rfl
    · rw [if_neg fun h => hg h.2, if_neg hg]
  · rw [if_neg hx, if_neg hx, if_neg fun h => hx h.1]

theorem saveGuardianShares_entry {d d' : Documents} {guardiansList : List Address} {shares : List Bytes}
    (h : saveGuardianShares chain documentId d guardiansList shares = .ok d') (x : ℕ) (g : Address) :
    shareEntry d' x g =
      if x = documentId then
        (shareEntry d x g).writes [] chain.keccak256 (sharesFor g (guardiansList.zip shares))
      else shareEntry d x g := by
  induction guardiansList generalizing d shares with
  | nil =>
    simp only [saveGuardianShares, pure_ok] at h
    rw [h]
    exact (ite_self _).symm
  | cons guardian rest ih =>
    cases shares with
    | nil => cases h
    | cons share shares =>
      rw [ih (d := saveGuardianShare chain documentId d guardian share) h]
      exact writes_sharesFor chain d guardian share _ x g

/-! ## What a transition stores -/

def sharesWritten (t : Transition (State L) Invocation) : Option (ℕ × List (Address × Bytes)) :=
  match t.label.2 with
  | .addDocument _ _ _ _ _ guardiansList shares =>
    some (t.post.documents.documentIdCounter, guardiansList.zip shares)
  | .documents (.applyShareRefresh documentId guardiansList newShares _) =>
    some (documentId, guardiansList.zip newShares)
  | _ => none

theorem sharesWritten_of_refreshed (h : refreshedDocument t = some documentId) :
    ∃ entries, sharesWritten t = some (documentId, entries) := by
  unfold refreshedDocument at h
  split at h
  · next id guardiansList newShares _ hlabel =>
    cases h
    exact ⟨guardiansList.zip newShares, by rw [sharesWritten, hlabel]⟩
  · cases h

inductive SharesEffect (chain : Chain) (t : Transition (State L) Invocation) : Prop
  | kept : sharesWritten t = none →
      (∀ x g, shareEntry t.post.documents x g = shareEntry t.pre.documents x g) → SharesEffect chain t
  | written (documentId : ℕ) (entries : List (Address × Bytes)) :
      sharesWritten t = some (documentId, entries) →
      (∀ x g, shareEntry t.post.documents x g =
        if x = documentId then
          (shareEntry t.pre.documents x g).writes [] chain.keccak256 (sharesFor g entries)
        else shareEntry t.pre.documents x g) → SharesEffect chain t

theorem execDocuments_shares {env : Env} {c : DocumentCall} {d : Documents} {logs : List Event}
    (h : execDocuments chain env s c = .ok (d, logs)) :
    SharesEffect chain ⟨s, (env, .documents c), { s with documents := d, logs }⟩ := by
  cases c with
  | applyShareRefresh documentId guardiansList newShares newCommitments =>
    simp only [execDocuments, applyShareRefresh, bind_ok, revertIf_ok, exists_const, pure_ok,
      Prod.mk.injEq] at h
    obtain ⟨_, _, _, _, shared, hshared, _, _, _, _, rfl, _⟩ := h
    exact .written documentId (guardiansList.zip newShares) rfl
      fun x g => saveGuardianShares_entry (refreshGuardianShares_saved hshared) x g
  | setDocumentReleaseCondition id condition =>
    simp only [execDocuments, setDocumentReleaseCondition, ↓revertIf_bind, pure_ok, Prod.mk.injEq] at h
    rw [← h.2.2.1]
    exact .kept rfl fun _ _ => rfl
  | saveGuardianSharesFHE id guardiansList sharesFHE =>
    simp only [execDocuments, saveGuardianSharesFHE, ↓revertIf_bind, pure_ok, Prod.mk.injEq] at h
    rw [← h.2.2.2.1]
    exact .kept rfl fun _ _ => rfl
  | startShareRefresh id duration =>
    simp only [execDocuments, startShareRefresh, ↓revertIf_bind, pure_ok, Prod.mk.injEq] at h
    rw [← h.2.2.2.2.1]
    exact .kept rfl fun _ _ => rfl
  | submitZeroShareCommitment id commitments =>
    simp only [execDocuments, submitZeroShareCommitment, ↓revertIf_bind, pure_ok, Prod.mk.injEq] at h
    rw [← h.2.2.2.2.2.2.1]
    exact .kept rfl fun _ _ => rfl
  | setDocumentVSSCommitments id commitments =>
    simp only [execDocuments, setDocumentVSSCommitments, ↓revertIf_bind, pure_ok, Prod.mk.injEq] at h
    rw [← h.2.2.2.1]
    exact .kept rfl fun _ _ => rfl

theorem Steps.shares_effect {i : Invocation} (hstep : Steps chain nft s i s') :
    SharesEffect chain ⟨s, i, s'⟩ := by
  cases hstep.effect with
  | @addDocument env vaultId _ _ _ _ guardiansList shares _ _ _ _ hadd =>
    simp only [addDocument, bind_ok, revertIf_ok, exists_const, pure_ok, Prod.mk.injEq] at hadd
    obtain ⟨_, _, _, shared, hshared, ⟨rfl, _⟩, _⟩ := hadd
    have hcounter := (saveGuardianShares_documents hshared).2
    exact .written _ (guardiansList.zip shares) (by rw [sharesWritten, hcounter])
      fun x g => saveGuardianShares_entry hshared x g
  | documents hexec => exact execDocuments_shares hexec
  | _ => exact .kept rfl fun _ _ => rfl

/-! ## The property and the condition -/

def CommitmentsTrack (chain : Chain) (d : Documents) : Prop :=
  ∀ documentId guardian, d.guardianShareCommitments documentId guardian =
    if d.encryptedGuardianShares documentId guardian = [] then 0
    else chain.keccak256 (d.encryptedGuardianShares documentId guardian)

/-- No share that is stored takes the place of another one by being empty. -/
def KeepsShares (t : Transition (State L) Invocation) : Prop :=
  ∀ w ∈ sharesWritten t, ∀ e ∈ w.2,
    (sharesFor e.1 w.2).getLastD (t.pre.documents.encryptedGuardianShares w.1 e.1) = [] →
      t.pre.documents.encryptedGuardianShares w.1 e.1 = [] ∧ ∀ share ∈ sharesFor e.1 w.2, share = []

instance : DecidablePred (KeepsShares (L := L)) := fun _ =>
  inferInstanceAs (Decidable (∀ w ∈ _, ∀ e ∈ _, _ = _ → _ = _ ∧ ∀ share ∈ _, _ = _))

theorem sharesFor_unlisted {entries : List (Address × Bytes)} (h : ∀ e ∈ entries, e.1 ≠ g) :
    sharesFor g entries = [] := by
  rw [sharesFor, List.filterMap_eq_nil_iff]
  intro e he
  exact if_neg (h e he)

theorem KeepsShares.of_written {entries : List (Address × Bytes)} (h : KeepsShares t)
    (hw : sharesWritten t = some (documentId, entries)) (g : Address)
    (hblank : (sharesFor g entries).getLastD (t.pre.documents.encryptedGuardianShares documentId g) = []) :
    t.pre.documents.encryptedGuardianShares documentId g = [] ∧ ∀ share ∈ sharesFor g entries, share = [] := by
  by_cases hg : ∃ e ∈ entries, e.1 = g
  · obtain ⟨e, he, rfl⟩ := hg
    exact h _ hw e he hblank
  · have hunlisted := sharesFor_unlisted fun e he heq => hg ⟨e, he, heq⟩
    rw [hunlisted] at hblank ⊢
    exact ⟨hblank, fun _ hshare => absurd hshare List.not_mem_nil⟩

theorem commitmentsTrack_entries {d : Documents} :
    CommitmentsTrack chain d ↔ ∀ x g, (shareEntry d x g).Tracks [] 0 chain.keccak256 := Iff.rfl

theorem commitmentsTrack_iff (hkeccak : ∀ b, b ≠ [] → chain.keccak256 b ≠ 0)
    (heffect : SharesEffect chain t) (h : CommitmentsTrack chain t.pre.documents) :
    CommitmentsTrack chain t.post.documents ↔ KeepsShares t := by
  rw [commitmentsTrack_entries] at h ⊢
  cases heffect with
  | kept hw hsame =>
    constructor
    · intro _ w hmem
      cases hw.symm.trans hmem
    · intro _ x g
      rw [hsame x g]
      exact h x g
  | written documentId entries hw hpost =>
    have hiff := fun g => Fingerprints.writes_track_iff hkeccak (h documentId g) (sharesFor g entries)
    constructor
    · intro htrack w hmem e _ hblank
      obtain rfl : (documentId, entries) = w := Option.some.inj (hw.symm.trans hmem)
      have hafter := htrack documentId e.1
      rw [hpost documentId e.1, if_pos rfl] at hafter
      exact (hiff e.1).mp hafter hblank
    · intro hkeeps x g
      rw [hpost x g]
      split
      · next hx =>
        subst hx
        exact (hiff g).mpr (hkeeps.of_written hw g)
      · exact h x g

/-! ## The check of a submitted share -/

def PassesCheck (chain : Chain) (d : Documents) (documentId : ℕ) (guardian : Address) (share : Bytes) :
    Prop :=
  share ≠ [] ∧ ∃ q requestId out, submitShare chain d q requestId documentId guardian share = .ok out

/-- The share is the one stored for the guardian, as far as its hash tells. -/
def CurrentShare (chain : Chain) (d : Documents) (documentId : ℕ) (guardian : Address) (share : Bytes) :
    Prop :=
  d.encryptedGuardianShares documentId guardian ≠ [] ∧
    chain.keccak256 share = chain.keccak256 (d.encryptedGuardianShares documentId guardian)

/-- What a refresh replaces is no longer accepted. -/
def RetiresShares (chain : Chain) (t : Transition (State L) Invocation) : Prop :=
  ∀ documentId, refreshedDocument t = some documentId → ∀ guardian share,
    CurrentShare chain t.pre.documents documentId guardian share →
    ¬ CurrentShare chain t.post.documents documentId guardian share →
    ¬ PassesCheck chain t.post.documents documentId guardian share

theorem passesCheck_current {d : Documents} {share : Bytes} (hkeccak : ∀ b, b ≠ [] → chain.keccak256 b ≠ 0)
    (h : CommitmentsTrack chain d) (hstored : d.encryptedGuardianShares documentId g ≠ [])
    (hpass : PassesCheck chain d documentId g share) : CurrentShare chain d documentId g share := by
  obtain ⟨hne, q, requestId, out, hok⟩ := hpass
  have hmark : d.guardianShareCommitments documentId g =
      chain.keccak256 (d.encryptedGuardianShares documentId g) := (h documentId g).trans (if_neg hstored)
  have hexpected : expectedCommitment chain d documentId g =
      chain.keccak256 (d.encryptedGuardianShares documentId g) := by
    simp only [expectedCommitment, hmark]
    exact ite_self _
  have hlength : ¬ share.length = 0 := fun hl => hne (List.length_eq_zero_iff.mp hl)
  simp only [submitShare, if_neg hlength, revertIf_bind, hexpected] at hok
  refine ⟨hstored, ?_⟩
  by_contra hdiffer
  exact hok.1 ⟨hkeccak _ hstored, hdiffer⟩

theorem passesCheck_of_mark {d : Documents} {share : Bytes} (hne : share ≠ [])
    (hmark : d.guardianShareCommitments documentId g = chain.keccak256 share)
    (hnonzero : chain.keccak256 share ≠ 0) : PassesCheck chain d documentId g share := by
  have hexpected : expectedCommitment chain d documentId g = chain.keccak256 share := by
    simp only [expectedCommitment, hmark]
    exact if_neg fun h => hnonzero h.1
  have hlength : ¬ share.length = 0 := fun hl => hne (List.length_eq_zero_iff.mp hl)
  refine ⟨hne, {}, 0, ?_⟩
  simp only [submitShare, if_neg hlength, revertIf_bind, hexpected, pure_ok]
  exact ⟨_, fun h => h.2 rfl, rfl⟩

theorem retiresShares (hkeccak : ∀ b, b ≠ [] → chain.keccak256 b ≠ 0) (heffect : SharesEffect chain t)
    (htrack : CommitmentsTrack chain t.post.documents) (hkeeps : KeepsShares t) :
    RetiresShares chain t := by
  intro documentId hrefresh guardian share hbefore hafter hpass
  have hblank : t.post.documents.encryptedGuardianShares documentId guardian = [] := by
    by_contra hstored
    exact hafter (passesCheck_current hkeccak htrack hstored hpass)
  obtain ⟨entries, hw⟩ := sharesWritten_of_refreshed hrefresh
  cases heffect with
  | kept hnone _ => cases hw.symm.trans hnone
  | written id entries' hw' hpost =>
    cases hw.symm.trans hw'
    have hvalue := congrArg Fingerprints.Entry.value (hpost documentId guardian)
    rw [if_pos rfl, Fingerprints.writes_value] at hvalue
    exact hbefore.1 (hkeeps.of_written hw guardian (hvalue.symm.trans hblank)).1

/-! ## Runs -/

theorem commitmentsTrack_visited_iff (hkeccak : ∀ b, b ≠ [] → chain.keccak256 b ≠ 0)
    (h : VaultRun chain nft hist s) :
    (∀ early s', Visits hist s early s' → CommitmentsTrack chain s'.documents) ↔
      ∀ t ∈ hist, KeepsShares t := by
  refine h.visited_iff (R := fun _ s => CommitmentsTrack chain s.documents) ?_ ?_
  · rintro s ⟨deployer, rfl⟩ x g
    rfl
  · intro hist s i s' _ htrack hstep
    exact commitmentsTrack_iff hkeccak hstep.shares_effect htrack

/-- The commitments track the shares in every state, and every refresh retires what it replaces, in
exactly the runs in which no empty share takes the place of another one. -/
theorem share_commitments_iff (hkeccak : ∀ b, b ≠ [] → chain.keccak256 b ≠ 0)
    (h : VaultRun chain nft hist s) :
    ((∀ early s', Visits hist s early s' → CommitmentsTrack chain s'.documents) ∧
        ∀ t ∈ hist, RetiresShares chain t) ↔ ∀ t ∈ hist, KeepsShares t := by
  have hiff := commitmentsTrack_visited_iff hkeccak h
  constructor
  · rintro ⟨htrack, _⟩
    exact hiff.mp htrack
  · intro hkeeps
    have htrack := hiff.mpr hkeeps
    refine ⟨htrack, fun t ht => ?_⟩
    obtain ⟨earlier, hvisit, _, hstep⟩ := h.visits_of_mem ht
    exact retiresShares hkeccak hstep.shares_effect (htrack _ _ hvisit) (hkeeps t ht)

/-- Guardian 1 uploads a document with shares for itself and for guardian 2, and both submit to a
refresh. -/
def sharesToRefresh : List Invocation :=
  [(callBy 1 100, .createVault (ascii "vault") [] [2] 1),
    (callBy 2 101, .governance (.acceptGuardianInvite 1)),
    (callBy 1 102, .addDocument 1 [] (ascii "Qm") .READ .ANYTIME [1, 2] [[5], [6]]),
    (callBy 1 103, .documents (.startShareRefresh 1 (days 1))),
    (callBy 1 104, .documents (.submitZeroShareCommitment 1 [0, 1])),
    (callBy 2 105, .documents (.submitZeroShareCommitment 1 [0, 1]))]

/-- With a hash that tells the shares apart. -/
def hashingChain : Chain := { localChain with keccak256 := fun b => BitVec.ofNat 256 (natBE b % 2 ^ 255 + 1) }

theorem hashingChain_keccak256 (b : Bytes) : hashingChain.keccak256 b ≠ 0 := by
  have hlt : natBE b % 2 ^ 255 < 2 ^ 255 := Nat.mod_lt _ (by decide)
  intro hzero
  have hvalue := congrArg BitVec.toNat hzero
  rw [hashingChain, BitVec.toNat_ofNat, Nat.mod_eq_of_lt (by omega)] at hvalue
  exact Nat.succ_ne_zero _ hvalue

/-- Refreshed to other shares, the commitments track them and no longer fit the old ones. -/
theorem share_commitments_refreshed : ∃ hist s, VaultRun hashingChain ERC721.standard hist s ∧
    (s.documents.shareEpoch 1 = 1 ∧ s.documents.encryptedGuardianShares 1 2 = [8] ∧
      s.documents.guardianShareCommitments 1 2 ≠ hashingChain.keccak256 [6]) ∧
    CommitmentsTrack hashingChain s.documents ∧ ∀ t ∈ hist, RetiresShares hashingChain t := by
  obtain ⟨hist, s, hrun, hend⟩ := exists_run hashingChain ERC721.standard 7
    (sharesToRefresh ++ [(callBy 1 106, .documents (.applyShareRefresh 1 [1, 2] [[7], [8]] []))])
    (fun hist s => decide ((s.documents.shareEpoch 1 = 1 ∧ s.documents.encryptedGuardianShares 1 2 = [8] ∧
      s.documents.guardianShareCommitments 1 2 ≠ hashingChain.keccak256 [6]) ∧ ∀ t ∈ hist, KeepsShares t))
    (by decide +kernel)
  obtain ⟨hepoch, hkeeps⟩ := of_decide_eq_true hend
  have hkeccak : ∀ b, b ≠ [] → hashingChain.keccak256 b ≠ 0 := fun b _ => hashingChain_keccak256 b
  obtain ⟨htrack, hretires⟩ := (share_commitments_iff hkeccak hrun).mpr hkeeps
  exact ⟨hist, s, hrun, hepoch, htrack hist s .here, hretires⟩

/-- Refreshed to an empty share, guardian 2 is still held to its old one, which still passes. -/
theorem blanked_share_passes : ∃ hist s s', VaultRun localChain ERC721.standard hist s ∧
    Steps localChain ERC721.standard s
      (callBy 1 106, .documents (.applyShareRefresh 1 [1, 2] [[7], []] [])) s' ∧
    (s.documents.encryptedGuardianShares 1 2 = [6] ∧ s'.documents.encryptedGuardianShares 1 2 = [] ∧
      s'.documents.guardianShareCommitments 1 2 = localChain.keccak256 [6]) ∧
    ¬ CommitmentsTrack localChain s'.documents ∧ CurrentShare localChain s.documents 1 2 [6] ∧
    ¬ CurrentShare localChain s'.documents 1 2 [6] ∧ PassesCheck localChain s'.documents 1 2 [6] := by
  obtain ⟨hist, s, s', hrun, hstep, hend⟩ := exists_step localChain ERC721.standard 7 sharesToRefresh
    (callBy 1 106, .documents (.applyShareRefresh 1 [1, 2] [[7], []] []))
    (fun s s' => decide (s.documents.encryptedGuardianShares 1 2 = [6] ∧
      s'.documents.encryptedGuardianShares 1 2 = [] ∧
      s'.documents.guardianShareCommitments 1 2 = localChain.keccak256 [6])) (by decide +kernel)
  obtain ⟨hbefore, hafter, hmark⟩ := of_decide_eq_true hend
  refine ⟨hist, s, s', hrun, hstep, ⟨hbefore, hafter, hmark⟩, ?_, ?_, ?_, ?_⟩
  · intro htrack
    have hzero := htrack 1 2
    rw [if_pos hafter, hmark] at hzero
    exact localChain_keccak256 _ hzero
  · refine ⟨?_, by rw [hbefore]⟩
    rw [hbefore]
    decide
  · exact fun hcurrent => hcurrent.1 hafter
  · exact passesCheck_of_mark (by decide) hmark (localChain_keccak256 _)

end ChainGuard.Evm
