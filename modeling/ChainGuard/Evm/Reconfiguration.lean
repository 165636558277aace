import ChainGuard.Evm.Roster

/-! When a reconfiguration takes effect: what the timelock guarantees about the proposal, and how
much of its quorum is still a quorum of guardians. Both are read off the slot of the proposal. -/
namespace ChainGuard.Evm
open Guarded History
set_option autoImplicit false

variable {L : Type} {chain : Chain} {nft : ERC721 L} {s s' : State L}
  {hist earlier : List (Transition (State L) Invocation)} {t : Transition (State L) Invocation}

section Kind
variable {κ : Type} [Inhabited κ] [DecidableEq κ] {k : Kind κ} {v : ℕ} {target : κ}

/-! ## Events of a proposal -/

def Kind.proposal (k : Kind κ) (v : ℕ) (target : κ) (s : State L) : Proposal κ :=
  (k.ballots s.governance).proposals v target

def Kind.ApprovedBy (k : Kind κ) (v : ℕ) (target : κ) (a : Address)
    (t : Transition (State L) Invocation) : Prop := k.Names .approve v target t ∧ t.label.1.sender = a

/-- Queued at time `q`, unexpired then and with the approvals required then. -/
def Kind.Queues (k : Kind κ) (v : ℕ) (target : κ) (q : ℕ) (t : Transition (State L) Invocation) : Prop :=
  k.Names .queue v target t ∧ t.label.1.timestamp = q ∧ q < (k.proposal v target t.pre).expiresAt ∧
    requiredApprovals t.pre.governance v ≤ (k.proposal v target t.pre).approvedBy.length

/-- A call of `executeVaultReconfiguration` names the proposal while it is open. -/
def Kind.TakesEffect (k : Kind κ) (v : ℕ) (target : κ) (t : Transition (State L) Invocation) : Prop :=
  k.Names .execute v target t ∧ (k.proposal v target t.pre).Open t.label.1.timestamp

theorem not_proposes (h : ∀ j, k.act v target t = some j →
    ¬ Timelock.Proposes (⟨k.slot v target t.pre, j, k.slot v target t.post⟩ : Transition _ _)) :
    ¬ k.Names .propose v target t :=
  fun hn => h _ hn.act ⟨_, rfl⟩

theorem not_vetoes (h : ∀ j, k.act v target t = some j →
    ¬ Timelock.Vetoes (⟨k.slot v target t.pre, j, k.slot v target t.post⟩ : Transition _ _)) :
    ¬ k.Names .cancel v target t :=
  fun hn => h _ hn.act rfl

theorem not_takes_effect (h : ∀ j, k.act v target t = some j →
    ¬ Timelock.TakesEffect (⟨k.slot v target t.pre, j, k.slot v target t.post⟩ : Transition _ _)) :
    ¬ k.TakesEffect v target t :=
  fun ⟨hn, hopen⟩ => h _ hn.act ⟨_, _, rfl, hopen⟩

theorem proposes_of_act {j : Timelock.Act Address} (hact : k.act v target t = some j)
    (h : Timelock.Proposes (⟨k.slot v target t.pre, j, k.slot v target t.post⟩ : Transition _ _)) :
    k.Names .propose v target t := by
  obtain ⟨op, hn, rfl⟩ := Kind.act_eq_some hact
  obtain ⟨now, hlabel⟩ := h
  cases op with
  | propose => exact hn
  | approve | queue | cancel | execute => cases hlabel

theorem approves_of_act {j : Timelock.Act Address} {a : Address} (hact : k.act v target t = some j)
    (h : Timelock.Approves a (⟨k.slot v target t.pre, j, k.slot v target t.post⟩ : Transition _ _)) :
    k.ApprovedBy v target a t := by
  obtain ⟨op, hn, rfl⟩ := Kind.act_eq_some hact
  obtain ⟨now, hlabel⟩ := h
  cases op with
  | approve =>
    cases hlabel
    exact ⟨hn, rfl⟩
  | propose | queue | cancel | execute => cases hlabel

theorem queues_of_act {j : Timelock.Act Address} {q : ℕ} (hact : k.act v target t = some j)
    (h : Timelock.QueuedAt q (⟨k.slot v target t.pre, j, k.slot v target t.post⟩ : Transition _ _)) :
    k.Queues v target q t := by
  obtain ⟨op, hn, rfl⟩ := Kind.act_eq_some hact
  obtain ⟨required, hlabel, hopen, henough⟩ := h
  cases op with
  | queue =>
    cases hlabel
    exact ⟨hn, rfl, hopen.2.2, henough⟩
  | propose | approve | cancel | execute => cases hlabel

theorem Kind.mem_approvedBy_iff (h : VaultRun chain nft hist s) (a : Address) :
    a ∈ (k.proposal v target s).approvedBy ↔
      Since (fun t => ¬ k.Names .propose v target t) (k.ApprovedBy v target a) hist := by
  have hmem := Timelock.mem_approvedBy_iff (k.slotRun v target h) a
  change a ∈ (k.slot v target s).approvedBy ↔ _
  rw [hmem, Kind.history, since_filterMap]
  constructor
  · intro hs
    refine hs.mono (fun t hold => not_proposes fun j hj => hold _ (by simp [Transition.project, hj])) ?_
    rintro t ⟨b, hb, he⟩
    obtain ⟨j, hj, rfl⟩ := Option.map_eq_some_iff.mp hb
    exact approves_of_act hj he
  · intro hs
    refine hs.mono ?_ ?_
    · rintro t hno b hb hp
      obtain ⟨j, hj, rfl⟩ := Option.map_eq_some_iff.mp hb
      exact hno (proposes_of_act hj hp)
    · rintro t ⟨hn, rfl⟩
      exact ⟨⟨k.slot v target t.pre, .approve t.label.1.timestamp t.label.1.sender, k.slot v target t.post⟩,
        by simp [Transition.project, hn.act, BallotOp.act], _, rfl⟩

/-! ## The timelock -/

/-- What the timelock guarantees of a proposal that takes effect after `earlier`. -/
structure Kind.Timelocked (k : Kind κ) (v : ℕ) (target : κ)
    (earlier : List (Transition (State L) Invocation)) (t : Transition (State L) Invocation) : Prop where
  queued : ∃ q, q + hours 24 ≤ t.label.1.timestamp ∧
    Since (fun u => ¬ k.Names .propose v target u) (k.Queues v target q) earlier
  enough : requiredApprovals t.pre.governance v ≤ (k.proposal v target t.pre).approvedBy.length
  unexpired : t.label.1.timestamp < (k.proposal v target t.pre).expiresAt
  once : Since (fun u => ¬ k.Names .propose v target u ∧ ¬ k.Names .cancel v target u ∧
    ¬ k.TakesEffect v target u) (k.Names .propose v target) earlier

theorem Kind.timelocked {i : Invocation} (hr : VaultRun chain nft earlier s) (hstep : Steps chain nft s i s')
    (h : k.TakesEffect v target ⟨s, i, s'⟩) : k.Timelocked v target earlier ⟨s, i, s'⟩ := by
  obtain ⟨hn, hopen⟩ := h
  obtain ⟨⟨q, hq, hqueued⟩, henough, hpending⟩ :=
    Timelock.takes_effect_after_delay (k.slotRun _ _ hr) (perform_step (hstep.names_perform hn).2) hopen
  refine ⟨⟨q, hq, ?_⟩, henough, hopen.2.2, ?_⟩
  · rw [Kind.history, since_filterMap] at hqueued
    refine hqueued.mono
      (fun t hold => not_proposes fun j hj => hold _ (by simp [Transition.project, hj])) ?_
    rintro t ⟨b, hb, he⟩
    obtain ⟨j, hj, rfl⟩ := Option.map_eq_some_iff.mp hb
    exact queues_of_act hj he
  · rw [Kind.history, since_filterMap] at hpending
    refine hpending.mono (fun t hold => ?_) ?_
    · have hall : ∀ j, k.act v target t = some j → _ := fun j hj =>
        hold ⟨k.slot v target t.pre, j, k.slot v target t.post⟩ (by simp [Transition.project, hj])
      exact ⟨not_proposes fun j hj => (hall j hj).1, not_vetoes fun j hj => (hall j hj).2.1,
        not_takes_effect fun j hj => (hall j hj).2.2⟩
    · rintro t ⟨b, hb, he⟩
      obtain ⟨j, hj, rfl⟩ := Option.map_eq_some_iff.mp hb
      exact proposes_of_act hj he

/-! ## The quorum -/

def Kind.QuorumOfGuardians (k : Kind κ) (v : ℕ) (target : κ)
    (earlier : List (Transition (State L) Invocation)) (t : Transition (State L) Invocation) : Prop :=
  ∃ approvers : List Address, approvers.Nodup ∧
    requiredApprovals t.pre.governance v ≤ approvers.length ∧
    ∀ a ∈ approvers, t.pre.governance.isGuardian v a = true ∧
      Since (fun u => ¬ k.Names .propose v target u) (k.ApprovedBy v target a) earlier

def Kind.staleApprovers (k : Kind κ) (v : ℕ) (target : κ) (s : State L) : List Address :=
  (k.proposal v target s).approvedBy.filter fun a => !s.governance.isGuardian v a

theorem Kind.quorumOfGuardians_iff (hr : VaultRun chain nft earlier t.pre) :
    k.QuorumOfGuardians v target earlier t ↔
      (k.staleApprovers v target t.pre).length + requiredApprovals t.pre.governance v ≤
        (k.proposal v target t.pre).approvedBy.length := by
  have hsplit := List.length_eq_length_filter_add (l := (k.proposal v target t.pre).approvedBy)
    (t.pre.governance.isGuardian v)
  have hstale : (k.staleApprovers v target t.pre).length =
      ((k.proposal v target t.pre).approvedBy.filter fun a => !t.pre.governance.isGuardian v a).length := rfl
  constructor
  · rintro ⟨approvers, hnodup, henough, hall⟩
    -- the quorum is among the recorded approvers who are still guardians
    have hsub : approvers ⊆ (k.proposal v target t.pre).approvedBy.filter
        (t.pre.governance.isGuardian v) := fun a ha => by
      rw [List.mem_filter, Kind.mem_approvedBy_iff hr]
      exact ⟨(hall a ha).2, (hall a ha).1⟩
    have hle := (hnodup.subperm hsub).length_le
    omega
  · intro h
    have hlisted := (Timelock.approvedBy_flagged (k.slotRun v target hr)).1
    refine ⟨(k.proposal v target t.pre).approvedBy.filter (t.pre.governance.isGuardian v),
      hlisted.filter _, by omega, ?_⟩
    intro a ha
    rw [List.mem_filter] at ha
    exact ⟨ha.2, (Kind.mem_approvedBy_iff hr a).mp ha.1⟩

end Kind

/-! ## Which transitions reconfigure a vault -/

theorem Steps.removal_takes_effect {i : Invocation} (hstep : Steps chain nft s i s') {v : ℕ} {a : Address}
    (hpre : s.governance.isGuardian v a = true) (hpost : s'.governance.isGuardian v a = false) :
    removalKind.TakesEffect v a ⟨s, i, s'⟩ := by
  cases hstep.roster_effect with
  | kept _ _ hmap =>
    rw [hmap] at hpost
    exact absurd (hpre.symm.trans hpost) (by simp)
  | created h =>
    rw [h.isGuardian, Mapping.set₂_apply] at hpost
    split at hpost
    · cases hpost
    · exact absurd (hpre.symm.trans hpost) (by simp)
  | joined w h =>
    rw [h.isGuardian, Mapping.set₂_apply] at hpost
    split at hpost
    · cases hpost
    · exact absurd (hpre.symm.trans hpost) (by simp)
  | reconfigured w b n hlabel h =>
    obtain ⟨_, _, hother, _, _, _, hmap⟩ := h.vault
    by_cases hw : v = w
    · subst hw
      rw [hmap] at hpost
      split at hpost
      · next hopen =>
        by_cases hab : a = b
        · subst hab
          exact ⟨⟨_, hlabel, rfl⟩, hopen⟩
        · rw [Function.update_of_ne hab] at hpost
          exact absurd (hpre.symm.trans hpost) (by simp)
      · exact absurd (hpre.symm.trans hpost) (by simp)
    · rw [hother v hw] at hpost
      exact absurd (hpre.symm.trans hpost) (by simp)

theorem Steps.threshold_takes_effect {i : Invocation} (hI : RosterOk s.governance)
    (hstep : Steps chain nft s i s') {v : ℕ} (hid : (s.governance.vaults v).id ≠ 0)
    (hne : (s'.governance.vaults v).approvalThreshold ≠ (s.governance.vaults v).approvalThreshold) :
    ∃ n, (s'.governance.vaults v).approvalThreshold = uint96 n ∧
      thresholdKind.TakesEffect v n ⟨s, i, s'⟩ := by
  cases hstep.roster_effect with
  | kept _ hvaults _ => exact absurd (by rw [hvaults]) hne
  | created h =>
    obtain ⟨vault, hvaults, _⟩ := h.vaults
    have hold : v ≠ s.governance.vaultIdCounter + 1 := by
      rintro rfl
      exact hid (by rw [hI.uncreated _ (by omega)])
    exact absurd (by rw [hvaults, Function.update_of_ne hold]) hne
  | joined w h =>
    refine absurd ?_ hne
    rw [h.vaults]
    by_cases hw : v = w
    · subst hw
      rw [Function.update_self]
    · rw [Function.update_of_ne hw]
  | reconfigured w b n hlabel h =>
    obtain ⟨_, hother, _, _, hthreshold, _, _⟩ := h.vault
    by_cases hw : v = w
    · subst hw
      rw [hthreshold] at hne ⊢
      split at hne
      · next hopen => exact ⟨n, by rw [if_pos hopen], ⟨_, hlabel, rfl⟩, hopen⟩
      · exact absurd rfl hne
    · exact absurd (by rw [hother v hw]) hne

/-! ## Approvers who stay -/

theorem removal_approver_guardian {i : Invocation} (hstep : Steps chain nft s i s') {v : ℕ} {target a : Address}
    (h : removalKind.ApprovedBy v target a ⟨s, i, s'⟩) : s'.governance.isGuardian v a = true := by
  obtain ⟨⟨c, hc, hn⟩, rfl⟩ := h
  cases hstep.effect with
  | governance _ hexec =>
    cases hc
    cases c with
    | approveGuardianRemoval =>
      cases hn
      simp only [execGovernance, approveGuardianRemoval, bind_ok, revertIf_ok, exists_const, pure_ok, Prod.mk.injEq,
        Bool.not_eq_false] at hexec
      obtain ⟨_, hguardian, _, _, rfl, _⟩ := hexec
      exact hguardian
    | _ => cases hn
  | _ => cases hc

theorem threshold_approver_guardian {i : Invocation} (hstep : Steps chain nft s i s') {v n : ℕ} {a : Address}
    (h : thresholdKind.ApprovedBy v n a ⟨s, i, s'⟩) : s'.governance.isGuardian v a = true := by
  obtain ⟨⟨c, hc, hn⟩, rfl⟩ := h
  cases hstep.effect with
  | governance _ hexec =>
    cases hc
    cases c with
    | approveThresholdUpdate =>
      cases hn
      simp only [execGovernance, approveThresholdUpdate, bind_ok, revertIf_ok, exists_const, pure_ok, Prod.mk.injEq,
        Bool.not_eq_false] at hexec
      obtain ⟨_, hguardian, _, _, rfl, _⟩ := hexec
      exact hguardian
    | _ => cases hn
  | _ => cases hc

section Kept
variable {κ : Type} [Inhabited κ] [DecidableEq κ] {k : Kind κ} {v : ℕ} {target : κ}

/-- The approval of a guardian whom the call removes stands on no undecided proposal but one that the call itself
executes. -/
def Kind.KeepsApprovers (k : Kind κ) (t : Transition (State L) Invocation) : Prop :=
  ∀ v a target, removalKind.TakesEffect v a t → (k.slot v target t.pre).Undecided →
    a ∈ (k.proposal v target t.pre).approvedBy → k.TakesEffect v target t

/-- Whoever is listed on the undecided proposal is a guardian. -/
def Kind.ApproversGuard (k : Kind κ) (v : ℕ) (target : κ) (s : State L) : Prop :=
  (k.slot v target s).Undecided → ∀ a ∈ (k.proposal v target s).approvedBy, s.governance.isGuardian v a = true

theorem Kind.approvers_guard_step {i : Invocation} (hstep : Steps chain nft s i s')
    (happroves : ∀ a, k.ApprovedBy v target a ⟨s, i, s'⟩ → s'.governance.isGuardian v a = true)
    (hkeeps : k.KeepsApprovers ⟨s, i, s'⟩) (hguard : k.ApproversGuard v target s) : k.ApproversGuard v target s' := by
  intro hundecided a ha
  have hbefore : (k.slot v target s).Undecided → a ∈ (k.proposal v target s).approvedBy →
      ¬ k.TakesEffect v target ⟨s, i, s'⟩ → s'.governance.isGuardian v a = true := by
    intro hundecided hlisted hno
    cases hpost : s'.governance.isGuardian v a with
    | true => rfl
    | false =>
      have hremoved := hstep.removal_takes_effect (hguard hundecided a hlisted) hpost
      exact absurd (hkeeps v a target hremoved hundecided hlisted) hno
  cases hact : k.act v target ⟨s, i, s'⟩ with
  | none =>
    have hkept := hstep.slot_kept hact
    have hslot : a ∈ (k.slot v target s').approvedBy := ha
    rw [hkept] at hundecided hslot
    refine hbefore hundecided hslot fun heffect => ?_
    rw [heffect.1.act] at hact
    cases hact
  | some j =>
    obtain ⟨op, hnames, rfl⟩ := Kind.act_eq_some hact
    have hslot := perform_step (hstep.names_perform hnames).2
    rcases hslot.approver_of_undecided hundecided ha with ⟨now, happrove⟩ | ⟨hundecided, hlisted, hclosed⟩
    · exact happroves a (approves_of_act hact ⟨now, happrove⟩)
    · refine hbefore hundecided hlisted fun heffect => ?_
      have hop := (Option.some.inj (hact.symm.trans heffect.1.act))
      exact hclosed _ _ hop heffect.2

theorem Kind.approvers_guard
    (happroves : ∀ s i s' a, Steps chain nft s i s' → k.ApprovedBy v target a ⟨s, i, s'⟩ →
      s'.governance.isGuardian v a = true)
    (h : VaultRun chain nft hist s) (hkeeps : ∀ u ∈ hist, k.KeepsApprovers u) : k.ApproversGuard v target s := by
  refine h.relates_of (R := fun _ s => k.ApproversGuard v target s) (C := k.KeepsApprovers) ?_ ?_ hkeeps
  · intro s hs _ a ha
    have hr : VaultRun chain nft [] s := .start hs
    exact absurd ((Kind.mem_approvedBy_iff hr a).mp ha) (since_nil _ _)
  · intro hist s i s' _ hguard hkeeps hstep
    exact approvers_guard_step hstep (fun a => happroves _ _ _ a hstep) hkeeps hguard

theorem Kind.quorum_of_keeps {i : Invocation}
    (happroves : ∀ s i s' a, Steps chain nft s i s' → k.ApprovedBy v target a ⟨s, i, s'⟩ →
      s'.governance.isGuardian v a = true)
    (hr : VaultRun chain nft earlier s) (hkeeps : ∀ u ∈ earlier, k.KeepsApprovers u) (hstep : Steps chain nft s i s')
    (heffect : k.TakesEffect v target ⟨s, i, s'⟩) : k.QuorumOfGuardians v target earlier ⟨s, i, s'⟩ := by
  obtain ⟨hn, hopen⟩ := heffect
  have hundecided : (k.slot v target s).Undecided := by
    have hslot := perform_step (hstep.names_perform hn).2
    exact ⟨hopen.2.1, hslot.not_vetoed hopen⟩
  have hguardians := Kind.approvers_guard happroves hr hkeeps hundecided
  have hnone : k.staleApprovers v target s = [] := by
    rw [Kind.staleApprovers, List.filter_eq_nil_iff]
    intro a ha
    simp [hguardians a ha]
  rw [Kind.quorumOfGuardians_iff hr, hnone, List.length_nil, Nat.zero_add]
  exact (Kind.timelocked hr hstep ⟨hn, hopen⟩).enough

/-- A removed guardian who never approved leaves no approval behind. -/
def Kind.silent (k : Kind κ) (t : Transition (State L) Invocation) (earlier : List (Transition (State L) Invocation)) :
    Bool :=
  match t.label.2 with
  | .governance (.executeVaultReconfiguration _ a _) => earlier.all fun u =>
    !decide (u.label.1.sender = a) || match u.label.2 with
      | .governance c => (k.named c).all fun named => !decide (named.2.2 = .approve)
      | _ => true
  | _ => true

theorem Kind.keepsApprovers_of_silent (h : VaultRun chain nft hist s)
    (hsilent : ∀ t earlier, t :: earlier <:+ hist → k.silent t earlier = true) : ∀ u ∈ hist, k.KeepsApprovers u := by
  intro u hu v a target heffect _ hlisted
  obtain ⟨earlier, hsuf, hr, -⟩ := h.of_mem hu
  have hsilent := hsilent u earlier hsuf
  obtain ⟨⟨c, hc, hn⟩, -⟩ := heffect
  cases c with
  | executeVaultReconfiguration =>
    cases hn
    obtain ⟨w, hw, ⟨⟨c', hc', hn'⟩, hsender⟩⟩ := ((Kind.mem_approvedBy_iff hr a).mp hlisted).once
    simp only [Kind.silent, hc, List.all_eq_true] at hsilent
    have hnever := hsilent w hw
    simp [hsender, hc', hn'] at hnever
  | _ => cases hn

end Kept

/-! ## A vault of two -/

/-- Guardians 1 and 2 propose each other's removal, approve both proposals and queue them. -/
def bothRemovals : List Invocation :=
  [(callBy 1 100, .createVault (ascii "vault") [] [2] 1),
    (callBy 2 101, .governance (.acceptGuardianInvite 1)),
    (callBy 1 102, .governance (.proposeGuardianRemoval 1 2)),
    (callBy 1 103, .governance (.approveGuardianRemoval 1 2)),
    (callBy 2 104, .governance (.approveGuardianRemoval 1 2)),
    (callBy 2 105, .governance (.proposeGuardianRemoval 1 1)),
    (callBy 1 106, .governance (.approveGuardianRemoval 1 1)),
    (callBy 2 107, .governance (.approveGuardianRemoval 1 1)),
    (callBy 1 108, .governance (.queueVaultReconfiguration 1 2 0)),
    (callBy 2 109, .governance (.queueVaultReconfiguration 1 1 0))]

def firstRemoval : Invocation := (callBy 8 90000, .governance (.executeVaultReconfiguration 1 1 0))

/-- The second removal, by then decided by one guardian. -/
def secondRemoval : Invocation := (callBy 8 90001, .governance (.executeVaultReconfiguration 1 2 0))

/-! ## The timelock and the quorum -/

/-- The timelock of the governance: a guardian goes and a threshold changes only when a proposal
takes effect, and whatever takes effect was queued a day before, with its approvals and
unexpired then and now, neither cancelled nor taken effect since it was proposed. -/
theorem reconfiguration_timelocked (h : VaultRun chain nft hist s) (hsuf : (t :: earlier) <:+ hist) :
    (∀ v a, t.pre.governance.isGuardian v a = true → t.post.governance.isGuardian v a = false →
        removalKind.TakesEffect v a t) ∧
      (∀ v, (t.pre.governance.vaults v).id ≠ 0 →
        (t.post.governance.vaults v).approvalThreshold ≠ (t.pre.governance.vaults v).approvalThreshold →
        ∃ n, (t.post.governance.vaults v).approvalThreshold = uint96 n ∧ thresholdKind.TakesEffect v n t) ∧
      (∀ v a, removalKind.TakesEffect v a t → removalKind.Timelocked v a earlier t) ∧
      (∀ v n, thresholdKind.TakesEffect v n t → thresholdKind.Timelocked v n earlier t) := by
  obtain ⟨hr, hstep⟩ := h.suffix_step hsuf
  exact ⟨fun v a => hstep.removal_takes_effect, fun v => hstep.threshold_takes_effect (rosterOk hr),
    fun v a => Kind.timelocked hr hstep, fun v n => Kind.timelocked hr hstep⟩

theorem reconfiguration_timelocked_first : ∃ hist s s',
    VaultRun localChain ERC721.standard hist s ∧ Steps localChain ERC721.standard s firstRemoval s' ∧
      removalKind.TakesEffect 1 1 ⟨s, firstRemoval, s'⟩ ∧
      removalKind.Timelocked 1 1 hist ⟨s, firstRemoval, s'⟩ := by
  obtain ⟨hist, s, s', hrun, hstep, hend⟩ := exists_step localChain ERC721.standard 7
    bothRemovals firstRemoval
    (fun s _ => decide ((removalKind.proposal 1 1 s).Open 90000)) (by decide +kernel)
  have heffect : removalKind.TakesEffect 1 1 ⟨s, firstRemoval, s'⟩ :=
    ⟨⟨_, rfl, rfl⟩, of_decide_eq_true hend⟩
  exact ⟨hist, s, s', hrun, hstep, heffect,
    (reconfiguration_timelocked (.next hrun hstep) (List.suffix_refl _)).2.2.1 1 1 heffect⟩

/-- While no guardian is removed whose approval stands on another undecided proposal of the vault, every reconfiguration
that takes effect has a quorum of current guardians. -/
theorem reconfiguration_quorum (h : VaultRun chain nft hist s) (hsuf : (t :: earlier) <:+ hist)
    (hkeeps : ∀ u ∈ earlier, removalKind.KeepsApprovers u ∧ thresholdKind.KeepsApprovers u) :
    (∀ v a, removalKind.TakesEffect v a t → removalKind.QuorumOfGuardians v a earlier t) ∧
      (∀ v n, thresholdKind.TakesEffect v n t → thresholdKind.QuorumOfGuardians v n earlier t) := by
  obtain ⟨hr, hstep⟩ := h.suffix_step hsuf
  constructor
  · intro v a heffect
    exact Kind.quorum_of_keeps (fun _ _ _ _ hstep => removal_approver_guardian hstep) hr
      (fun u hu => (hkeeps u hu).1) hstep heffect
  · intro v n heffect
    exact Kind.quorum_of_keeps (fun _ _ _ _ hstep => threshold_approver_guardian hstep) hr
      (fun u hu => (hkeeps u hu).2) hstep heffect

/-- Guardian 4 is removed by the other three, who have a threshold under way. -/
def removalOfFourth : List Invocation :=
  [(callBy 1 100, .createVault (ascii "vault") [] [2, 3, 4] 1),
    (callBy 2 101, .governance (.acceptGuardianInvite 1)),
    (callBy 3 102, .governance (.acceptGuardianInvite 1)),
    (callBy 4 103, .governance (.acceptGuardianInvite 1)),
    (callBy 1 104, .governance (.proposeGuardianRemoval 1 4)),
    (callBy 1 105, .governance (.approveGuardianRemoval 1 4)),
    (callBy 2 106, .governance (.approveGuardianRemoval 1 4)),
    (callBy 3 107, .governance (.approveGuardianRemoval 1 4)),
    (callBy 1 108, .governance (.proposeThresholdUpdate 1 2)),
    (callBy 1 109, .governance (.approveThresholdUpdate 1 2)),
    (callBy 2 110, .governance (.approveThresholdUpdate 1 2)),
    (callBy 3 111, .governance (.approveThresholdUpdate 1 2)),
    (callBy 1 112, .governance (.queueVaultReconfiguration 1 4 2)),
    (callBy 8 90000, .governance (.executeVaultReconfiguration 1 4 0))]

def thresholdAfterRemoval : Invocation := (callBy 8 90001, .governance (.executeVaultReconfiguration 1 4 2))

theorem reconfiguration_quorum_first : ∃ hist s s',
    VaultRun localChain ERC721.standard hist s ∧ Steps localChain ERC721.standard s thresholdAfterRemoval s' ∧
      thresholdKind.TakesEffect 1 2 ⟨s, thresholdAfterRemoval, s'⟩ ∧
      thresholdKind.QuorumOfGuardians 1 2 hist ⟨s, thresholdAfterRemoval, s'⟩ := by
  obtain ⟨hist, s, hrun, hend⟩ := exists_run localChain ERC721.standard 7 removalOfFourth
    (fun hist s => decide ((∀ t earlier, t :: earlier <:+ hist → removalKind.silent t earlier = true) ∧
      (∀ t earlier, t :: earlier <:+ hist → thresholdKind.silent t earlier = true)) &&
      stepsTo (call localChain ERC721.standard) thresholdAfterRemoval
        (fun s _ => decide ((thresholdKind.proposal 1 2 s).Open 90001)) s) (by decide +kernel)
  rw [Bool.and_eq_true, stepsTo_iff, decide_eq_true_eq] at hend
  obtain ⟨⟨hremovals, hthresholds⟩, s', hstep, hopen⟩ := hend
  have heffect : thresholdKind.TakesEffect 1 2 ⟨s, thresholdAfterRemoval, s'⟩ := ⟨⟨_, rfl, rfl⟩, of_decide_eq_true hopen⟩
  have hkept := Kind.keepsApprovers_of_silent hrun hremovals
  have hkept' := Kind.keepsApprovers_of_silent hrun hthresholds
  exact ⟨hist, s, s', hrun, hstep, heffect, (reconfiguration_quorum (.next hrun hstep) (List.suffix_refl _)
    fun u hu => ⟨hkept u hu, hkept' u hu⟩).2 1 2 heffect⟩

/-- The second removal takes effect although one of its two approvers is no guardian any more. -/
theorem removal_without_quorum : ∃ hist s s',
    VaultRun localChain ERC721.standard hist s ∧ Steps localChain ERC721.standard s secondRemoval s' ∧
      removalKind.TakesEffect 1 2 ⟨s, secondRemoval, s'⟩ ∧
      (s.governance.isGuardian 1 2 = true ∧ s'.governance.isGuardian 1 2 = false) ∧
      ¬ removalKind.QuorumOfGuardians 1 2 hist ⟨s, secondRemoval, s'⟩ := by
  obtain ⟨hist, s, s', hrun, hstep, hend⟩ := exists_step localChain ERC721.standard 7
    (bothRemovals ++ [firstRemoval]) secondRemoval
    (fun s s' => decide ((removalKind.proposal 1 2 s).Open 90001 ∧
      (s.governance.isGuardian 1 2 = true ∧ s'.governance.isGuardian 1 2 = false) ∧
      ¬ (removalKind.staleApprovers 1 2 s).length + requiredApprovals s.governance 1 ≤
        (removalKind.proposal 1 2 s).approvedBy.length)) (by decide +kernel)
  obtain ⟨hopen, hremoved, hfew⟩ := of_decide_eq_true hend
  refine ⟨hist, s, s', hrun, hstep, ⟨⟨_, rfl, rfl⟩, hopen⟩, hremoved, fun hquorum => hfew ?_⟩
  exact (Kind.quorumOfGuardians_iff (k := removalKind) hrun).mp hquorum

end ChainGuard.Evm
