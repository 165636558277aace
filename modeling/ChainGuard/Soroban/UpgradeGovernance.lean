import ChainGuard.Library.CoSigning
import ChainGuard.Soroban.Contract

/-! The governance of code upgrades. The admins are fixed by one initialization, and every call of
`upgrade_contract` signs the one stored proposal: the code is swapped by the call that brings the
signatures to the threshold. -/
namespace ChainGuard.Soroban
open Guarded History
set_option autoImplicit false

variable {host : Host} {env : Env} {s s' : State} {u u' : Upgrades} {logs : List Event}
  {hist : List (Transition State Invocation)} {t : Transition State Invocation}

/-! ## The calls of the governance -/

def initialization (t : Transition State Invocation) : Option (List Address × ℕ) :=
  match t.label.2 with
  | .upgrades (.initAdmins admins threshold) => some (admins, threshold)
  | _ => none

def initializations (hist : List (Transition State Invocation)) : List (List Address × ℕ) :=
  hist.filterMap initialization

/-- The admin and the hash of an accepted `upgrade_contract`. -/
def endorsement (t : Transition State Invocation) : Option (Address × Bytes32) :=
  match t.label.2 with
  | .upgrades (.upgradeContract admin newWasmHash) => some (admin, newWasmHash)
  | _ => none

/-- The transition executed `update_current_contract_wasm`. -/
def swaps (t : Transition State Invocation) : Bool :=
  match endorsement t with
  | some (_, newWasmHash) => decide (.contractUpgraded newWasmHash ∈ t.post.logs)
  | none => false

/-- The storage after an invocation; one that fails is rolled back. -/
def outcome (host : Host) (s : State) (i : Invocation) : State :=
  match exec host i.1 s i.2 with
  | .ok s' => s'
  | .error _ => s

/-! ## What they do -/

def proposalSlot (s : State) : CoSigning.Slot Address Bytes32 :=
  s.upgrades.upgradeProposal.map fun proposal => (proposal.newWasmHash, proposal.approvedBy)

inductive UpgradeEffect (s : State) (admin : Address) (newWasmHash : Bytes32) :
    Upgrades → List Event → Prop
  | signed : UpgradeEffect s admin newWasmHash
      { s.upgrades with
        upgradeProposal := some
          { newWasmHash, approvedBy := CoSigning.signers newWasmHash (proposalSlot s) ++ [admin] } } []
  | swapped : s.upgrades.adminThreshold ≤ (CoSigning.signers newWasmHash (proposalSlot s)).length + 1 →
      UpgradeEffect s admin newWasmHash { s.upgrades with upgradeProposal := none }
        [.contractUpgraded newWasmHash]

theorem checkAdmin_ok {admin : Address} {x : Unit} :
    checkAdmin u admin = .ok x ↔ ∃ admins, u.admins = some admins ∧ admin ∈ admins := by
  unfold checkAdmin
  cases u.admins with
  | none => simp
  | some admins => simp

theorem superseded_eq (s : State) (newWasmHash : Bytes32) :
    (let pending := s.upgrades.upgradeProposal.getD { newWasmHash, approvedBy := [] }
      if pending.newWasmHash ≠ newWasmHash then { newWasmHash, approvedBy := [] } else pending) =
      ({ newWasmHash, approvedBy := CoSigning.signers newWasmHash (proposalSlot s) } : UpgradeProposal) := by
  unfold proposalSlot
  cases s.upgrades.upgradeProposal with
  | none => simp [CoSigning.signers]
  | some proposal =>
    obtain ⟨pendingHash, approvedBy⟩ := proposal
    by_cases h : pendingHash = newWasmHash
    · subst h
      simp [CoSigning.signers]
    · simp [CoSigning.signers, h]

theorem upgradeContract_ok {admin : Address} {newWasmHash : Bytes32}
    (h : upgradeContract env s.upgrades admin newWasmHash = .ok (u', logs)) :
    admin ∈ env.authorized ∧ (∃ admins, s.upgrades.admins = some admins ∧ admin ∈ admins) ∧
      admin ∉ CoSigning.signers newWasmHash (proposalSlot s) ∧
        UpgradeEffect s admin newWasmHash u' logs := by
  simp only [upgradeContract, bind_ok, requireAuth_ok, checkAdmin_ok, revertIf_ok, exists_const] at h
  obtain ⟨hauth, hadmin, hnew, h⟩ := h
  have hproposal := superseded_eq s newWasmHash
  dsimp only at hproposal
  rw [hproposal] at hnew h
  refine ⟨hauth, hadmin, hnew, ?_⟩
  split at h
  · next hreached =>
    simp only [bind_ok, revertIf_ok, exists_const, pure_ok, Prod.mk.injEq] at h
    obtain ⟨_, rfl, rfl⟩ := h
    refine .swapped ?_
    simpa using hreached
  · simp only [pure_ok, Prod.mk.injEq] at h
    obtain ⟨rfl, rfl⟩ := h
    exact .signed

theorem upgradeContract_effect {admin : Address} {newWasmHash : Bytes32}
    (h : upgradeContract env s.upgrades admin newWasmHash = .ok (u', logs)) :
    CoSigning.Effect proposalSlot (fun s => s.upgrades.adminThreshold) endorsement swaps
      ⟨s, (env, .upgrades (.upgradeContract admin newWasmHash)), { s with upgrades := u', logs }⟩ := by
  obtain ⟨_, _, hnew, heffect⟩ := upgradeContract_ok h
  cases heffect with
  | signed => exact .signed admin newWasmHash rfl rfl hnew rfl
  | swapped hreached =>
    have hswaps : swaps ⟨s, (env, .upgrades (.upgradeContract admin newWasmHash)),
        { s with
          upgrades := { s.upgrades with upgradeProposal := none }
          logs := [.contractUpgraded newWasmHash] }⟩ = true :=
      decide_eq_true (List.mem_singleton_self _)
    exact .executed admin newWasmHash rfl hswaps hnew hreached rfl

theorem initAdmins_ok {admins : List Address} {threshold : ℕ}
    (h : initAdmins env u admins threshold = .ok (u', logs)) :
    u.admins = none ∧ 0 < threshold ∧ u'.admins = some admins ∧ u'.adminThreshold = threshold ∧
      u'.upgradeProposal = u.upgradeProposal := by
  simp only [initAdmins, bind_ok, assert_ok, exists_const, pure_ok, Prod.mk.injEq,
    Option.isNone_iff_eq_none] at h
  obtain ⟨hnone, _, _, hthreshold, rfl, _⟩ := h
  exact ⟨hnone, hthreshold.1, rfl, rfl, rfl⟩

theorem migrate_ok {admin : Address} (h : migrate env u admin = .ok (u', logs)) :
    u'.admins = u.admins ∧ u'.adminThreshold = u.adminThreshold ∧
      u'.upgradeProposal = u.upgradeProposal := by
  simp only [migrate, bind_ok] at h
  obtain ⟨_, _, _, _, h⟩ := h
  split at h
  · simp only [pure_ok, Prod.mk.injEq] at h
    rw [← h.1]
    exact ⟨rfl, rfl, rfl⟩
  · simp only [pure_ok, Prod.mk.injEq] at h
    rw [← h.1]
    exact ⟨rfl, rfl, rfl⟩

theorem Steps.proposal_effect {i : Invocation} (h : Steps host s i s') :
    CoSigning.Effect proposalSlot (fun s => s.upgrades.adminThreshold) endorsement swaps ⟨s, i, s'⟩ := by
  cases h.effect with
  | @upgrades env c upgrades logs hexec =>
    cases c with
    | initAdmins admins threshold =>
      refine .kept rfl rfl ?_
      show Option.map _ upgrades.upgradeProposal = _
      rw [(initAdmins_ok hexec).2.2.2.2]
      rfl
    | upgradeContract admin newWasmHash => exact upgradeContract_effect hexec
    | migrate admin =>
      refine .kept rfl rfl ?_
      show Option.map _ upgrades.upgradeProposal = _
      rw [(migrate_ok hexec).2.2]
      rfl
  | _ => exact .kept rfl rfl rfl

/-- The admins are those of the one initialization, once there was one. -/
inductive AdminsFixed (hist : List (Transition State Invocation)) (s : State) : Prop
  | unset : initializations hist = [] → s.upgrades.admins = none → AdminsFixed hist s
  | set (admins : List Address) (threshold : ℕ) : initializations hist = [(admins, threshold)] →
      0 < threshold → s.upgrades.admins = some admins → s.upgrades.adminThreshold = threshold →
      AdminsFixed hist s

theorem AdminsFixed.kept (h : AdminsFixed hist t.pre) (hnone : initialization t = none)
    (hadmins : t.post.upgrades.admins = t.pre.upgrades.admins)
    (hthreshold : t.post.upgrades.adminThreshold = t.pre.upgrades.adminThreshold) :
    AdminsFixed (t :: hist) t.post := by
  have hsame : initializations (t :: hist) = initializations hist := List.filterMap_cons_none hnone
  cases h with
  | unset hempty hunset => exact .unset (hsame.trans hempty) (hadmins.trans hunset)
  | set admins threshold hone hpos hset hthr =>
    exact .set admins threshold (hsame.trans hone) hpos (hadmins.trans hset) (hthreshold.trans hthr)

theorem UpgradeEffect.admins {admin : Address} {newWasmHash : Bytes32}
    (h : UpgradeEffect s admin newWasmHash u' logs) :
    u'.admins = s.upgrades.admins ∧ u'.adminThreshold = s.upgrades.adminThreshold := by
  cases h with
  | signed => exact ⟨rfl, rfl⟩
  | swapped _ => exact ⟨rfl, rfl⟩

theorem Steps.adminsFixed {i : Invocation} (h : Steps host s i s') (hfixed : AdminsFixed hist s) :
    AdminsFixed (⟨s, i, s'⟩ :: hist) s' := by
  cases h.effect with
  | @upgrades env c upgrades logs hexec =>
    cases c with
    | initAdmins admins threshold =>
      obtain ⟨hunset, hpos, hadmins, hthreshold, _⟩ := initAdmins_ok hexec
      cases hfixed with
      | unset hempty _ =>
        refine .set admins threshold ?_ hpos hadmins hthreshold
        show (admins, threshold) :: initializations hist = _
        rw [hempty]
      | set _ _ _ _ hset _ =>
        rw [hunset] at hset
        cases hset
    | upgradeContract admin newWasmHash =>
      obtain ⟨hadmins, hthreshold⟩ := (upgradeContract_ok hexec).2.2.2.admins
      exact hfixed.kept rfl hadmins hthreshold
    | migrate admin =>
      obtain ⟨hadmins, hthreshold, _⟩ := migrate_ok hexec
      exact hfixed.kept rfl hadmins hthreshold
  | _ => exact hfixed.kept rfl rfl rfl

theorem adminsFixed (h : StellarRun host hist s) : AdminsFixed hist s := by
  refine h.relates (R := AdminsFixed) ?_ ?_
  · rintro s rfl
    exact .unset rfl rfl
  · intro hist s i s' _ ih hstep
    exact hstep.adminsFixed ih

theorem endorsement_admin {earlier : List (Transition State Invocation)} {admin : Address}
    {newWasmHash : Bytes32} (h : StellarRun host hist s) (hsuffix : t :: earlier <:+ hist)
    (hcall : endorsement t = some (admin, newWasmHash)) :
    admin ∈ t.label.1.authorized ∧ ∃ admins threshold, initializations earlier = [(admins, threshold)] ∧
      admin ∈ admins ∧ 0 < threshold ∧ t.pre.upgrades.adminThreshold = threshold := by
  obtain ⟨hbefore, hstep⟩ := h.suffix_step hsuffix
  obtain ⟨pre, ⟨env, c⟩, post⟩ := t
  have hstep : Steps host pre (env, c) post := hstep
  cases hstep.effect with
  | @upgrades _ c upgrades logs hexec =>
    cases c with
    | upgradeContract admin newWasmHash =>
      cases hcall
      obtain ⟨hauth, ⟨admins, hset, hmem⟩, _, _⟩ := upgradeContract_ok hexec
      refine ⟨hauth, ?_⟩
      cases adminsFixed hbefore with
      | unset _ hunset =>
        rw [hunset] at hset
        cases hset
      | set admins' threshold hone hpos hset' hthreshold =>
        rw [hset'] at hset
        cases hset
        exact ⟨admins, threshold, hone, hmem, hpos, hthreshold⟩
    | _ => cases hcall
  | _ => cases hcall

/-! ## What backs a swap -/

/-- The admin made an accepted call for the hash at this place of the history, and no accepted call for
another hash came after it. -/
def Endorsed (hist : List (Transition State Invocation)) (newWasmHash : Bytes32) (p : ℕ × Address) :
    Prop :=
  ∃ since t before, hist = since ++ t :: before ∧ before.length = p.1 ∧
    endorsement t = some (p.2, newWasmHash) ∧ p.2 ∈ t.label.1.authorized ∧
      ∀ t' ∈ since, ∀ admin other, endorsement t' = some (admin, other) → other = newWasmHash

/-- The swap of `t` consumes the approvals of at least `threshold` of the admins, each of whom authorized
the hash. -/
structure Backed (earlier : List (Transition State Invocation)) (t : Transition State Invocation)
    (newWasmHash : Bytes32) (admins : List Address) (threshold : ℕ) : Prop where
  initialized : initializations earlier = [(admins, threshold)]
  positive : 0 < threshold
  distinct : ((CoSigning.consumedBy endorsement swaps t earlier).map Prod.snd).Nodup
  enough : threshold ≤ (CoSigning.consumedBy endorsement swaps t earlier).length
  members : ∀ p ∈ CoSigning.consumedBy endorsement swaps t earlier, p.2 ∈ admins
  endorsed : ∀ p ∈ CoSigning.consumedBy endorsement swaps t earlier, Endorsed (t :: earlier) newWasmHash p

theorem initialization_unique {before earlier : List (Transition State Invocation)}
    {x y : List Address × ℕ} (hsuffix : before <:+ earlier) (hx : initializations earlier = [x])
    (hy : initializations before = [y]) : y = x := by
  have hlists : initializations before <:+ initializations earlier := hsuffix.filterMap initialization
  rw [hx, hy] at hlists
  have hsame : [y] = [x] := hlists.eq_of_length rfl
  exact List.singleton_inj.mp hsame

theorem records (h : StellarRun host hist s) :
    CoSigning.Records proposalSlot endorsement swaps hist s := by
  have hstart : ∀ s, Deployed s → proposalSlot s = none := by
    rintro s rfl
    rfl
  exact CoSigning.records hstart (fun _ _ _ _ _ hstep => Steps.proposal_effect hstep) h

theorem consumed_endorsed {earlier : List (Transition State Invocation)} {admin : Address}
    {newWasmHash : Bytes32} {p : ℕ × Address} (h : StellarRun host hist s) (hsuffix : t :: earlier <:+ hist)
    (hcall : endorsement t = some (admin, newWasmHash))
    (hp : p ∈ CoSigning.consumedBy endorsement swaps t earlier) : Endorsed (t :: earlier) newWasmHash p := by
  obtain ⟨since, t₀, before, hsplit, hplace, hsigned, hsince⟩ := CoSigning.consumedBy_signed hcall hp
  have hpart : t₀ :: before <:+ hist := by
    rw [hsplit] at hsuffix
    exact (List.suffix_append since _).trans hsuffix
  obtain ⟨hauth, _⟩ := endorsement_admin h hpart hsigned
  exact ⟨since, t₀, before, hsplit, hplace, hsigned, hauth, hsince⟩

theorem Endorsed.member {earlier : List (Transition State Invocation)} {newWasmHash : Bytes32}
    {p : ℕ × Address} {admins : List Address} {threshold : ℕ}
    (hp : Endorsed (t :: earlier) newWasmHash p) (h : StellarRun host hist s)
    (hsuffix : t :: earlier <:+ hist) (hinit : initializations earlier = [(admins, threshold)]) :
    p.2 ∈ admins := by
  obtain ⟨since, t₀, before, hsplit, _, hsigned, _⟩ := hp
  have hpart : t₀ :: before <:+ t :: earlier := by
    rw [hsplit]
    exact List.suffix_append since _
  obtain ⟨_, admins', threshold', hinit', hmem, _⟩ := endorsement_admin h (hpart.trans hsuffix) hsigned
  have hbefore : before <:+ earlier := by
    rcases List.suffix_cons_iff.mp hpart with heq | hpart
    · rw [(List.cons.inj heq).2]
    · exact (List.suffix_cons t₀ before).trans hpart
  obtain ⟨rfl, rfl⟩ := Prod.mk.inj (initialization_unique hbefore hinit hinit')
  exact hmem

theorem swap_backed {earlier : List (Transition State Invocation)} {admin : Address}
    {newWasmHash : Bytes32} (h : StellarRun host hist s) (hsuffix : t :: earlier <:+ hist)
    (hcall : endorsement t = some (admin, newWasmHash)) (hswaps : swaps t = true) :
    ∃ admins threshold, Backed earlier t newWasmHash admins threshold := by
  obtain ⟨hbefore, hstep⟩ := h.suffix_step hsuffix
  obtain ⟨_, admins, threshold, hinit, _, hpos, hthreshold⟩ := endorsement_admin h hsuffix hcall
  obtain ⟨hdistinct, henough⟩ :=
    CoSigning.consumes_threshold (records hbefore) (Steps.proposal_effect hstep) hswaps
  rw [hthreshold] at henough
  refine ⟨admins, threshold, hinit, hpos, hdistinct, henough, ?_, ?_⟩
  · intro p hp
    exact (consumed_endorsed h hsuffix hcall hp).member h hsuffix hinit
  · intro p hp
    exact consumed_endorsed h hsuffix hcall hp

/-- In every run there is at most one initialization, every swap is backed by the admins it fixed, no
approval is consumed by two swaps, and a failing call leaves the pending proposal alone. -/
theorem upgrade_governance (h : StellarRun host hist s) :
    (initializations hist).length ≤ 1 ∧
    (∀ t earlier, t :: earlier <:+ hist → ∀ admin newWasmHash,
      endorsement t = some (admin, newWasmHash) → swaps t = true →
        ∃ admins threshold, Backed earlier t newWasmHash admins threshold) ∧
    (CoSigning.consumed endorsement swaps hist).Nodup ∧
    ∀ i e, exec host i.1 s i.2 = .error e →
      (outcome host s i).upgrades.upgradeProposal = s.upgrades.upgradeProposal := by
  refine ⟨?_, ?_, CoSigning.consumed_nodup _ _ hist, ?_⟩
  · cases adminsFixed h with
    | unset hnone _ =>
      rw [hnone]
      exact Nat.zero_le 1
    | set _ _ hone _ _ _ =>
      rw [hone]
      exact le_rfl
  · intro t earlier hsuffix admin newWasmHash hcall hswaps
    exact swap_backed h hsuffix hcall hswaps
  · intro i e hfails
    rw [outcome, hfails]

/-- Accounts 1 and 2 become the admins and both authorize a Wasm. -/
def governedUpgrade : List Invocation :=
  [(invokedBy [acct 1, acct 2] 100, .upgrades (.initAdmins [acct 1, acct 2] 2)),
    (invokedBy [acct 1] 101, .upgrades (.upgradeContract (acct 1) 7)),
    (invokedBy [acct 2] 102, .upgrades (.upgradeContract (acct 2) 7))]

theorem upgrade_governance_two : ∃ hist s, StellarRun localHost hist s ∧
    (CoSigning.consumed endorsement swaps hist).length = 2 ∧
      (CoSigning.consumed endorsement swaps hist).Nodup := by
  obtain ⟨hist, s, hrun, hp⟩ := exists_run localHost governedUpgrade
    (fun hist _ => decide ((CoSigning.consumed endorsement swaps hist).length = 2)) (by decide +kernel)
  exact ⟨hist, s, hrun, of_decide_eq_true hp, (upgrade_governance hrun).2.2.1⟩

end ChainGuard.Soroban
