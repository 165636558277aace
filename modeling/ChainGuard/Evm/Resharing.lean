import ChainGuard.Library.Rounds
import ChainGuard.Evm.PendingRequests

/-! Proactive share refresh as rounds of submissions. The session of a document takes one zero-share
commitment from each guardian and is finalized by counting them, while guardians come and go: the
count says that everybody submitted as long as nobody counted has left. -/
namespace ChainGuard.Evm
open Guarded History
set_option autoImplicit false

variable {L : Type} {chain : Chain} {nft : ERC721 L} {env : Env} {s s' : State L}
  {hist earlier : List (Transition (State L) Invocation)} {t : Transition (State L) Invocation}
  {documentId now : ℕ} {logs : List Event}

/-! ## The round of a document -/

def reshareRound (d : Documents) (documentId : ℕ) : Rounds.Round Address where
  completed := d.shareEpoch documentId
  active := (d.reshareSessions documentId).active
  deadline := (d.reshareSessions documentId).deadline
  count := (d.reshareSessions documentId).submittedCount
  submitted := d.zeroShareSubmitted documentId

def DocumentCall.reshares : DocumentCall → Option ℕ
  | .startShareRefresh documentId _ => some documentId
  | .submitZeroShareCommitment documentId _ => some documentId
  | .applyShareRefresh documentId _ _ _ => some documentId
  | .setDocumentReleaseCondition _ _ => none
  | .saveGuardianSharesFHE _ _ _ => none
  | .setDocumentVSSCommitments _ _ => none

def vaultGuardians (s : State L) (documentId : ℕ) : List Address :=
  (s.governance.vaults (s.documents.documents documentId).vaultId).guardians

def DocumentCall.reshareAct (env : Env) (s : State L) (documentId : ℕ) : DocumentCall → Rounds.Act Address
  | .startShareRefresh _ duration => .start (env.timestamp + duration)
  | .submitZeroShareCommitment _ _ => .submit env.timestamp env.sender
  | _ => .complete (vaultGuardians s documentId).length

theorem execDocuments_round {c : DocumentCall} {d : Documents} (hc : c.reshares = some documentId)
    (h : execDocuments chain env s c = .ok (d, logs)) :
    Rounds.Step (reshareRound s.documents documentId) (c.reshareAct env s documentId)
      (reshareRound d documentId) := by
  cases c with
  | startShareRefresh id duration =>
    cases hc
    simp only [execDocuments, startShareRefresh, ↓revertIf_bind, pure_ok, Prod.mk.injEq,
      Bool.not_eq_true] at h
    obtain ⟨_, _, hinactive, _, rfl, _⟩ := h
    have hstep := Rounds.Step.start (reshareRound s.documents documentId) (env.timestamp + duration) hinactive
    simpa [reshareRound, DocumentCall.reshareAct] using hstep
  | submitZeroShareCommitment id commitments =>
    cases hc
    simp only [execDocuments, submitZeroShareCommitment, ↓revertIf_bind, pure_ok, Prod.mk.injEq,
      Bool.not_eq_true, Bool.not_eq_false, not_lt] at h
    obtain ⟨_, hactive, hdeadline, _, hnew, _, rfl, _⟩ := h
    have hstep := Rounds.Step.submit (reshareRound s.documents documentId) env.timestamp env.sender
      hactive hdeadline hnew
    simpa [reshareRound, Rounds.Round.submit, DocumentCall.reshareAct, Mapping.set₃_slice] using hstep
  | applyShareRefresh id guardiansList newShares newCommitments =>
    cases hc
    simp only [execDocuments, applyShareRefresh, bind_ok, revertIf_ok, exists_const, pure_ok,
      Prod.mk.injEq, Bool.not_eq_false, not_lt] at h
    obtain ⟨_, hactive, _, _, shared, hshared, _, henough, commitments, _, rfl, _⟩ := h
    have hkept := saveGuardianShares_kept (refreshGuardianShares_saved hshared)
    have hstep := Rounds.Step.complete (reshareRound s.documents documentId)
      (vaultGuardians s documentId).length hactive henough
    rw [hkept]
    simpa [reshareRound, DocumentCall.reshareAct] using hstep
  | setDocumentReleaseCondition | saveGuardianSharesFHE | setDocumentVSSCommitments => cases hc

theorem execDocuments_round_kept {c : DocumentCall} {d : Documents} (hc : c.reshares ≠ some documentId)
    (h : execDocuments chain env s c = .ok (d, logs)) :
    reshareRound d documentId = reshareRound s.documents documentId := by
  cases c with
  | startShareRefresh id duration =>
    have hne : documentId ≠ id := fun he => hc (he ▸ rfl)
    simp only [execDocuments, startShareRefresh, ↓revertIf_bind, pure_ok, Prod.mk.injEq] at h
    rw [← h.2.2.2.2.1]
    simp [reshareRound, Function.update_of_ne hne]
  | submitZeroShareCommitment id commitments =>
    have hne : documentId ≠ id := fun he => hc (he ▸ rfl)
    simp only [execDocuments, submitZeroShareCommitment, ↓revertIf_bind, pure_ok, Prod.mk.injEq] at h
    rw [← h.2.2.2.2.2.2.1]
    have hflags : Mapping.set₃ s.documents.zeroShareSubmitted id (s.documents.shareEpoch id + 1) env.sender
        true documentId = s.documents.zeroShareSubmitted documentId := by
      funext e
      exact Mapping.set₃_other _ _ _ _ _ _ _ fun he => hne he.1
    simp [reshareRound, Function.update_of_ne hne, hflags]
  | applyShareRefresh id guardiansList newShares newCommitments =>
    have hne : documentId ≠ id := fun he => hc (he ▸ rfl)
    simp only [execDocuments, applyShareRefresh, bind_ok, revertIf_ok, exists_const, pure_ok,
      Prod.mk.injEq] at h
    obtain ⟨_, _, _, _, shared, hshared, _, _, _, _, rfl, _⟩ := h
    rw [saveGuardianShares_kept (refreshGuardianShares_saved hshared)]
    simp [reshareRound, Function.update_of_ne hne]
  | setDocumentReleaseCondition id condition =>
    simp only [execDocuments, setDocumentReleaseCondition, ↓revertIf_bind, pure_ok, Prod.mk.injEq] at h
    rw [← h.2.2.1]
    rfl
  | saveGuardianSharesFHE id guardiansList sharesFHE =>
    simp only [execDocuments, saveGuardianSharesFHE, ↓revertIf_bind, pure_ok, Prod.mk.injEq] at h
    rw [← h.2.2.2.1]
    rfl
  | setDocumentVSSCommitments id commitments =>
    simp only [execDocuments, setDocumentVSSCommitments, ↓revertIf_bind, pure_ok, Prod.mk.injEq] at h
    rw [← h.2.2.2.1]
    rfl

/-! ## The projection of a run -/

def reshareAct (documentId : ℕ) (t : Transition (State L) Invocation) : Option (Rounds.Act Address) :=
  match t.label.2 with
  | .documents c =>
    if c.reshares = some documentId then some (c.reshareAct t.label.1 t.pre documentId) else none
  | _ => none

def reshareHistory (documentId : ℕ) (hist : List (Transition (State L) Invocation)) :
    List (Transition (Rounds.Round Address) (Rounds.Act Address)) :=
  hist.filterMap (Transition.project (fun s => reshareRound s.documents documentId) (reshareAct documentId))

theorem Steps.round_kept {i : Invocation} (hstep : Steps chain nft s i s')
    (h : reshareAct documentId ⟨s, i, s'⟩ = none) :
    reshareRound s'.documents documentId = reshareRound s.documents documentId := by
  cases hstep.effect with
  | addDocument _ hadd =>
    simp only [addDocument, bind_ok, revertIf_ok, exists_const, pure_ok, Prod.mk.injEq] at hadd
    obtain ⟨_, _, _, shared, hshared, ⟨rfl, _⟩, _⟩ := hadd
    dsimp only
    rw [saveGuardianShares_kept hshared]
    rfl
  | @documents _ c _ _ hexec =>
    refine execDocuments_round_kept (fun hc => ?_) hexec
    simp [reshareAct, hc] at h
  | _ => rfl

theorem Steps.round_step {i : Invocation} {act : Rounds.Act Address} (hstep : Steps chain nft s i s')
    (h : reshareAct documentId ⟨s, i, s'⟩ = some act) :
    Rounds.Step (reshareRound s.documents documentId) act (reshareRound s'.documents documentId) := by
  cases hstep.effect with
  | @documents env c _ _ hexec =>
    simp only [reshareAct] at h
    split at h
    · next hc =>
      cases h
      exact execDocuments_round hc hexec
    · cases h
  | _ => cases h

theorem reshareRun (documentId : ℕ) (h : VaultRun chain nft hist s) :
    Rounds.RoundRun (reshareHistory documentId hist) (reshareRound s.documents documentId) := by
  refine h.project (fun s => reshareRound s.documents documentId) ?_ ?_ ?_
  · rintro s ⟨deployer, rfl⟩
    exact ⟨rfl, fun _ _ => rfl⟩
  · intro hist s i s' _ hstep hact
    exact hstep.round_kept hact
  · intro hist s i s' act _ hstep hact
    exact hstep.round_step hact

/-! ## Finalizing with every guardian -/

def refreshedDocument (t : Transition (State L) Invocation) : Option ℕ :=
  match t.label.2 with
  | .documents (.applyShareRefresh documentId _ _ _) => some documentId
  | _ => none

def EveryGuardianSubmitted (s : State L) (documentId : ℕ) : Prop :=
  ∀ g, s.governance.isGuardian (s.documents.documents documentId).vaultId g = true →
    s.documents.zeroShareSubmitted documentId (s.documents.shareEpoch documentId) g = true

theorem Steps.refresh {i : Invocation} (hstep : Steps chain nft s i s')
    (h : refreshedDocument ⟨s, i, s'⟩ = some documentId) :
    Rounds.Step (reshareRound s.documents documentId) (.complete (vaultGuardians s documentId).length)
        (reshareRound s'.documents documentId) ∧
      s'.governance = s.governance ∧ s'.documents.documents = s.documents.documents ∧
      s'.documents.shareEpoch documentId = s.documents.shareEpoch documentId + 1 ∧
      s'.documents.zeroShareSubmitted documentId = s.documents.zeroShareSubmitted documentId := by
  cases hstep.effect with
  | @documents env c _ _ hexec =>
    cases c with
    | applyShareRefresh id guardiansList newShares newCommitments =>
      cases h
      have hround : Rounds.Step (reshareRound s.documents documentId) _ _ := execDocuments_round rfl hexec
      obtain ⟨_, _, hepoch, hflags⟩ := hround.completes
      exact ⟨hround, rfl, (execDocuments_documents hexec).1, hepoch, hflags⟩
    | _ => cases h
  | _ => cases h

/-- No guardian is removed who has submitted to the session of a document of the vault. -/
def KeepsSubmitters (t : Transition (State L) Invocation) : Prop :=
  ∀ a documentId, removalKind.TakesEffect (t.pre.documents.documents documentId).vaultId a t →
    t.pre.documents.zeroShareSubmitted documentId (t.pre.documents.shareEpoch documentId + 1) a = false

theorem Steps.submitter {i : Invocation} {a : Address} (hstep : Steps chain nft s i s')
    (h : reshareAct documentId ⟨s, i, s'⟩ = some (.submit now a)) : (s'.documents.documents documentId).id ≠ 0 ∧
      s'.governance.isGuardian (s'.documents.documents documentId).vaultId a = true := by
  cases hstep.effect with
  | @documents env c _ _ hexec =>
    simp only [reshareAct] at h
    split at h
    · next hc =>
      cases c with
      | submitZeroShareCommitment id commitments =>
        cases hc
        cases h
        have hkept := (execDocuments_documents hexec).1
        simp only [execDocuments, submitZeroShareCommitment, ↓revertIf_bind, Bool.not_eq_false] at hexec
        dsimp only
        rw [hkept]
        exact ⟨hexec.1, hexec.2.2.2.1⟩
      | _ => cases h
    · cases h
  | _ => cases h

/-- Everybody who submitted to the session is a guardian. -/
def SubmittersGuard (s : State L) (documentId : ℕ) : Prop :=
  ∀ a, s.documents.zeroShareSubmitted documentId (s.documents.shareEpoch documentId + 1) a = true →
    (s.documents.documents documentId).id ≠ 0 ∧
      s.governance.isGuardian (s.documents.documents documentId).vaultId a = true

theorem submittersGuard (h : VaultRun chain nft hist s) (hkeeps : ∀ t ∈ hist, KeepsSubmitters t) :
    SubmittersGuard s documentId := by
  refine h.relates_of (R := fun _ s => SubmittersGuard s documentId) (C := KeepsSubmitters) ?_ ?_ hkeeps
  · rintro s ⟨deployer, rfl⟩ a ha
    cases ha
  · intro hist s i s' hr hI hkeeps hstep a ha
    have hbefore : s.documents.zeroShareSubmitted documentId (s.documents.shareEpoch documentId + 1) a = true →
        (s'.documents.documents documentId).id ≠ 0 ∧
          s'.governance.isGuardian (s'.documents.documents documentId).vaultId a = true := by
      intro hflag
      obtain ⟨hid, hguardian⟩ := hI a hflag
      rw [hstep.document_kept (documentsCounted hr) hid]
      refine ⟨hid, ?_⟩
      cases hpost : s'.governance.isGuardian (s.documents.documents documentId).vaultId a with
      | true => rfl
      | false =>
        have hnot := hkeeps a documentId (hstep.removal_takes_effect hguardian hpost)
        exact absurd (hnot.symm.trans hflag) Bool.false_ne_true
    cases hact : reshareAct documentId ⟨s, i, s'⟩ with
    | none =>
      have hround := hstep.round_kept hact
      have hflag : (reshareRound s'.documents documentId).submitted
        ((reshareRound s'.documents documentId).completed + 1) a = true := ha
      rw [hround] at hflag
      exact hbefore hflag
    | some act =>
      rcases (Rounds.collected (reshareRun documentId hr)).submitted_next (hstep.round_step hact) ha with
        ⟨now, rfl⟩ | hflag
      · exact hstep.submitter hact
      · exact hbefore hflag

/-- While nobody is removed who submitted to an open session, every refresh has a zero-share commitment of every guardian
of the moment. -/
theorem refresh_complete (h : VaultRun chain nft hist s) (hsuf : (t :: earlier) <:+ hist)
    (hkeeps : ∀ u ∈ earlier, KeepsSubmitters u) (hrefresh : refreshedDocument t = some documentId) :
    t.post.documents.shareEpoch documentId = t.pre.documents.shareEpoch documentId + 1 ∧
      EveryGuardianSubmitted t.post documentId := by
  obtain ⟨hr, hstep⟩ := h.suffix_step hsuf
  obtain ⟨hround, hgov, hdoc, hepoch, hflags⟩ := hstep.refresh hrefresh
  have hlist := (rosterOk hr).counts (t.pre.documents.documents documentId).vaultId
  have hguard : SubmittersGuard t.pre documentId := submittersGuard hr hkeeps
  have hall := (Rounds.collected (reshareRun documentId hr)).all_submitted hround
    fun a ha => (hlist.mem_iff a).mpr (hguard a ha).2
  refine ⟨hepoch, ?_⟩
  unfold EveryGuardianSubmitted
  rw [hgov, hdoc, hepoch, hflags]
  exact fun g hg => hall g ((hlist.mem_iff g).mpr hg)

/-- Guardians 1, 2 and 3 agree on the removal of 3 while 1 refreshes the shares of document 1. -/
def refreshDuringRemoval : List Invocation :=
  [(callBy 1 100, .createVault (ascii "vault") [] [2, 3] 2),
    (callBy 2 101, .governance (.acceptGuardianInvite 1)),
    (callBy 3 102, .governance (.acceptGuardianInvite 1)),
    (callBy 1 103, .addDocument 1 [] (ascii "Qm") .READ .ANYTIME [] []),
    (callBy 1 104, .governance (.proposeGuardianRemoval 1 3)),
    (callBy 1 105, .governance (.approveGuardianRemoval 1 3)),
    (callBy 2 106, .governance (.approveGuardianRemoval 1 3)),
    (callBy 3 107, .governance (.approveGuardianRemoval 1 3)),
    (callBy 1 108, .governance (.queueVaultReconfiguration 1 3 0)),
    (callBy 1 109, .documents (.startShareRefresh 1 (days 2))),
    (callBy 2 110, .documents (.submitZeroShareCommitment 1 [0, 1]))]

/-- The refresh, for the two guardians that remain. -/
def refreshForTwo : Invocation := (callBy 1 90001, .documents (.applyShareRefresh 1 [1, 2] [[7], [8]] []))

/-- A removed guardian who never submitted is in no session. -/
def submittedNothing (t : Transition (State L) Invocation) (earlier : List (Transition (State L) Invocation)) : Bool :=
  match t.label.2 with
  | .governance (.executeVaultReconfiguration _ a _) => earlier.all fun u =>
    !decide (u.label.1.sender = a) || match u.label.2 with
      | .documents (.submitZeroShareCommitment _ _) => false
      | _ => true
  | _ => true

theorem keepsSubmitters_of_nothing (h : VaultRun chain nft hist s)
    (hnothing : ∀ t earlier, t :: earlier <:+ hist → submittedNothing t earlier = true) :
    ∀ u ∈ hist, KeepsSubmitters u := by
  intro u hu a documentId heffect
  obtain ⟨earlier, hsuf, hr, -⟩ := h.of_mem hu
  have hnothing := hnothing u earlier hsuf
  have hcounts := (Rounds.collected (reshareRun documentId hr)).counts.mem_iff a
  rw [Bool.eq_false_iff]
  intro hflag
  obtain ⟨x, hx, now, hlabel⟩ := Rounds.submit_of_mem_submitters (hcounts.mpr hflag)
  obtain ⟨w, hw, hproject⟩ := List.mem_filterMap.mp hx
  obtain ⟨act, hact, rfl⟩ := Option.map_eq_some_iff.mp hproject
  obtain rfl : act = .submit now a := hlabel
  obtain ⟨⟨c, hc, hn⟩, -⟩ := heffect
  cases c with
  | executeVaultReconfiguration =>
    cases hn
    simp only [submittedNothing, hc, List.all_eq_true] at hnothing
    have hnever := hnothing w hw
    simp only [reshareAct] at hact
    split at hact
    · next c' hc' =>
      split at hact
      · cases c' with
        | submitZeroShareCommitment =>
          cases hact
          simp [hc'] at hnever
        | _ => cases hact
      · cases hact
    · cases hact
  | _ => cases hn

/-- Both remaining guardians submitted. -/
theorem refresh_complete_both : ∃ hist s s',
    VaultRun localChain ERC721.standard hist s ∧ Steps localChain ERC721.standard s refreshForTwo s' ∧
      EveryGuardianSubmitted s' 1 := by
  obtain ⟨hist, s, hrun, hend⟩ := exists_run localChain ERC721.standard 7
    (refreshDuringRemoval ++
      [(callBy 1 111, .documents (.submitZeroShareCommitment 1 [0, 1])),
        (callBy 8 90000, .governance (.executeVaultReconfiguration 1 3 0))])
    (fun hist s => decide (∀ t earlier, t :: earlier <:+ hist → submittedNothing t earlier = true) &&
      stepsTo (call localChain ERC721.standard) refreshForTwo (fun _ _ => true) s) (by decide +kernel)
  rw [Bool.and_eq_true, stepsTo_iff, decide_eq_true_eq] at hend
  obtain ⟨hnothing, s', hstep, -⟩ := hend
  exact ⟨hist, s, s', hrun, hstep, (refresh_complete (.next hrun hstep) (List.suffix_refl _)
    (keepsSubmitters_of_nothing hrun hnothing) rfl).2⟩

/-- Guardian 3 submits and is removed, and the refresh goes through without guardian 1. -/
theorem refresh_without_guardian : ∃ hist s s',
    VaultRun localChain ERC721.standard hist s ∧ Steps localChain ERC721.standard s refreshForTwo s' ∧
      (s'.documents.shareEpoch 1 = 1 ∧ s'.governance.isGuardian 1 1 = true ∧
        s'.documents.zeroShareSubmitted 1 1 1 = false) ∧ ¬ EveryGuardianSubmitted s' 1 := by
  obtain ⟨hist, s, s', hrun, hstep, hend⟩ := exists_step localChain ERC721.standard 7
    (refreshDuringRemoval ++
      [(callBy 3 111, .documents (.submitZeroShareCommitment 1 [0, 1])),
        (callBy 8 90000, .governance (.executeVaultReconfiguration 1 3 0))]) refreshForTwo
    (fun _ s' => decide ((s'.documents.shareEpoch 1 = 1 ∧ s'.governance.isGuardian 1 1 = true ∧
        s'.documents.zeroShareSubmitted 1 1 1 = false) ∧ (s'.documents.documents 1).vaultId = 1))
    (by decide +kernel)
  obtain ⟨hmissing, hvault⟩ := of_decide_eq_true hend
  refine ⟨hist, s, s', hrun, hstep, hmissing, fun hall => ?_⟩
  have hsubmitted := hall 1 (by rw [hvault]; exact hmissing.2.1)
  rw [hmissing.1, hmissing.2.2] at hsubmitted
  cases hsubmitted

/-! ## Abandoned sessions -/

structure Abandoned (now : ℕ) (s : State L) (documentId : ℕ) : Prop where
  active : (s.documents.reshareSessions documentId).active = true
  overdue : (s.documents.reshareSessions documentId).deadline < now
  short : (s.documents.reshareSessions documentId).submittedCount < (vaultGuardians s documentId).length

instance (now : ℕ) (s : State L) (documentId : ℕ) : Decidable (Abandoned now s documentId) :=
  decidable_of_iff ((s.documents.reshareSessions documentId).active = true ∧
      (s.documents.reshareSessions documentId).deadline < now ∧
      (s.documents.reshareSessions documentId).submittedCount < (vaultGuardians s documentId).length)
    ⟨fun h => ⟨h.1, h.2.1, h.2.2⟩, fun h => ⟨h.active, h.overdue, h.short⟩⟩

theorem Abandoned.no_call {c : DocumentCall} (h : Abandoned now s documentId)
    (hnow : now ≤ env.timestamp) (hc : c.reshares = some documentId) :
    ¬ Steps chain nft s (env, .documents c) s' := by
  intro hstep
  have hact : reshareAct documentId ⟨s, (env, .documents c), s'⟩ =
      some (c.reshareAct env s documentId) := if_pos hc
  refine Rounds.Step.not_overdue h.active h.overdue h.short ?_ ?_ (hstep.round_step hact)
  · intro t a heq
    cases c with
    | submitZeroShareCommitment _ _ =>
      cases heq
      exact hnow
    | _ => cases heq
  · intro n heq
    cases c with
    | submitZeroShareCommitment _ _ | startShareRefresh _ _ => cases heq
    | _ =>
      cases heq
      exact le_rfl

theorem Abandoned.step {i : Invocation} (h : Abandoned now s documentId) (hnow : now ≤ i.1.timestamp)
    (hstep : Steps chain nft s i s')
    (hguardians : vaultGuardians s' documentId = vaultGuardians s documentId) :
    reshareRound s'.documents documentId = reshareRound s.documents documentId ∧
      Abandoned now s' documentId := by
  have hround : reshareRound s'.documents documentId = reshareRound s.documents documentId := by
    refine hstep.round_kept ?_
    obtain ⟨env, call⟩ := i
    cases call with
    | documents c => exact if_neg fun hc => h.no_call hnow hc hstep
    | _ => rfl
  have hactive : (s'.documents.reshareSessions documentId).active = _ := congrArg Rounds.Round.active hround
  have hdeadline : (s'.documents.reshareSessions documentId).deadline = _ :=
    congrArg Rounds.Round.deadline hround
  have hcount : (s'.documents.reshareSessions documentId).submittedCount = _ :=
    congrArg Rounds.Round.count hround
  refine ⟨hround, hactive.trans h.active, ?_, ?_⟩
  · rw [hdeadline]
    exact h.overdue
  · rw [hcount, hguardians]
    exact h.short

/-- An abandoned session is there to stay: nobody can start, submit to or finalize it, and it is as
it was after every run that leaves the guardians of the vault alone. -/
theorem abandoned_session_wedged (h : Abandoned now s documentId) :
    (∀ env c s', now ≤ env.timestamp → c.reshares = some documentId →
        ¬ Steps chain nft s (env, .documents c) s') ∧
      ∀ later s', Run (· = s) (Steps chain nft) later s' →
        (∀ t ∈ later, now ≤ t.label.1.timestamp ∧
          vaultGuardians t.post documentId = vaultGuardians t.pre documentId) →
        reshareRound s'.documents documentId = reshareRound s.documents documentId ∧
          Abandoned now s' documentId := by
  refine ⟨fun env c s' hnow hc => h.no_call hnow hc, ?_⟩
  intro later s' hrun hlater
  refine hrun.relates_of
    (R := fun _ x => reshareRound x.documents documentId = reshareRound s.documents documentId ∧
      Abandoned now x documentId)
    (C := fun t => now ≤ t.label.1.timestamp ∧
      vaultGuardians t.post documentId = vaultGuardians t.pre documentId) ?_ ?_ hlater
  · rintro x rfl
    exact ⟨rfl, h⟩
  · rintro hist x i x' _ ⟨hsame, hab⟩ ⟨hnow, hguardians⟩ hstep
    obtain ⟨hround, hab'⟩ := hab.step hnow hstep hguardians
    exact ⟨hround.trans hsame, hab'⟩

/-- The session of guardian 1, to which only guardian 2 submits. -/
theorem abandoned_session_reached : ∃ hist s, VaultRun localChain ERC721.standard hist s ∧
    Abandoned 200000 s 1 ∧ ∀ c s', c.reshares = some 1 →
      ¬ Steps localChain ERC721.standard s (callBy 1 200000, .documents c) s' := by
  obtain ⟨hist, s, hrun, hend⟩ := exists_run localChain ERC721.standard 7 refreshDuringRemoval
    (fun _ s => decide (Abandoned 200000 s 1)) (by decide +kernel)
  have hab := of_decide_eq_true hend
  exact ⟨hist, s, hrun, hab, fun c s' => (abandoned_session_wedged hab).1 (callBy 1 200000) c s' le_rfl⟩

/-- No guardian can close or restart it. -/
theorem session_without_escape : ∃ hist s, VaultRun localChain ERC721.standard hist s ∧
    Abandoned 200000 s 1 ∧ s.governance.isGuardian 1 1 = true ∧
      ¬ ∃ env c s', env.timestamp = 200000 ∧
        s.governance.isGuardian (s.documents.documents 1).vaultId env.sender = true ∧
        c.reshares = some 1 ∧ Steps localChain ERC721.standard s (env, .documents c) s' := by
  obtain ⟨hist, s, hrun, hend⟩ := exists_run localChain ERC721.standard 7 refreshDuringRemoval
    (fun _ s => decide (Abandoned 200000 s 1 ∧ s.governance.isGuardian 1 1 = true)) (by decide +kernel)
  obtain ⟨hab, hguardian⟩ := of_decide_eq_true hend
  refine ⟨hist, s, hrun, hab, hguardian, ?_⟩
  rintro ⟨env, c, s', hnow, _, hc, hstep⟩
  exact hab.no_call hnow.ge hc hstep

end ChainGuard.Evm
