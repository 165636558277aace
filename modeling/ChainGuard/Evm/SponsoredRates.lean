import ChainGuard.Library.FixedWindow
import ChainGuard.Evm.Sponsorship

/-! How many operations the paymaster accepts of a sender and of a vault, in runs in which calls may be rejected. -/
namespace ChainGuard.Evm.SpooPaymaster
open Guarded History FixedWindow
set_option autoImplicit false

/-! ## Calls that may be rejected -/

/-- A call that reverts leaves everything as it was. -/
def attempt (s : System) (i : Invocation) : System :=
  match exec i.1 s i.2 with
  | .ok s' => s'
  | .error _ => s

/-- From a deployed paymaster, or one that was used in any way. -/
abbrev AttemptRun (hist : List (Transition System Invocation)) (s : System) : Prop :=
  Run (fun _ => True) (fun s i s' => attempt s i = s') hist s

/-- The limits in force. -/
structure Limited (maxOps window maxVaultOps : ℕ) (s : System) : Prop where
  maxOpsPerWindow : s.paymaster.maxOpsPerWindow = maxOps
  rateLimitWindow : s.paymaster.rateLimitWindow = window
  maxVaultOpsPerWindow : s.paymaster.maxVaultOpsPerWindow = maxVaultOps

instance (maxOps window maxVaultOps : ℕ) (s : System) : Decidable (Limited maxOps window maxVaultOps s) :=
  decidable_of_iff (s.paymaster.maxOpsPerWindow = maxOps ∧ s.paymaster.rateLimitWindow = window ∧
    s.paymaster.maxVaultOpsPerWindow = maxVaultOps) ⟨fun h => ⟨h.1, h.2.1, h.2.2⟩, fun h => ⟨h.1, h.2, h.3⟩⟩

def Chronological (hist : List (Transition System Invocation)) : Prop :=
  hist.Pairwise fun later earlier => earlier.label.1.timestamp ≤ later.label.1.timestamp

def accepted (t : Transition System Invocation) : Option Context :=
  match t.label.2 with
  | .validatePaymasterUserOp userOp maxCost =>
    match validatePaymasterUserOp t.label.1 t.pre.paymaster userOp maxCost with
    | .ok (_, context) => decodeContext context
    | .error _ => none
  | _ => none

def Rejected (t : Transition System Invocation) : Prop :=
  ∃ userOp maxCost e, t.label.2 = .validatePaymasterUserOp userOp maxCost ∧
    validatePaymasterUserOp t.label.1 t.pre.paymaster userOp maxCost = .error e

/-- When an operation of the sender is accepted. -/
def acceptedOf (guardian : Address) (t : Transition System Invocation) : Option ℕ :=
  (accepted t).bind fun c => if c.guardian = guardian then some t.label.1.timestamp else none

def acceptedOn (vaultId : ℕ) (t : Transition System Invocation) : Option ℕ :=
  (accepted t).bind fun c => if c.vaultId = vaultId then some t.label.1.timestamp else none

/-! ## The counters -/

def Storage.guardianWindow (p : Storage) (guardian : Address) : Window :=
  ⟨p.guardianWindowStart guardian, p.guardianOpCount guardian⟩

def Storage.vaultWindow (p : Storage) (vaultId : ℕ) : Window := ⟨p.vaultWindowStart vaultId, p.vaultOpCount vaultId⟩

structure SameCounters (p p' : Storage) : Prop where
  guardianOpCount : p'.guardianOpCount = p.guardianOpCount
  guardianWindowStart : p'.guardianWindowStart = p.guardianWindowStart
  vaultOpCount : p'.vaultOpCount = p.vaultOpCount
  vaultWindowStart : p'.vaultWindowStart = p.vaultWindowStart

theorem SameCounters.guardianWindow {p p' : Storage} (h : SameCounters p p') (guardian : Address) :
    p'.guardianWindow guardian = p.guardianWindow guardian := by
  unfold Storage.guardianWindow
  rw [h.guardianWindowStart, h.guardianOpCount]

theorem SameCounters.vaultWindow {p p' : Storage} (h : SameCounters p p') (vaultId : ℕ) :
    p'.vaultWindow vaultId = p.vaultWindow vaultId := by
  unfold Storage.vaultWindow
  rw [h.vaultWindowStart, h.vaultOpCount]

/-- What is claimed of the limits: in every interval as long as a window at most twice as many operations are
accepted as in a window, and a rejected one is not counted. -/
structure RateLimited (maxOps window maxVaultOps : ℕ) (hist : List (Transition System Invocation)) : Prop where
  sender : ∀ guardian start, (hist.filterMap (acceptedOf guardian)).countP (within window start) ≤ 2 * maxOps
  vault : ∀ vaultId start, (hist.filterMap (acceptedOn vaultId)).countP (within window start) ≤ 2 * maxVaultOps
  rejected : ∀ t ∈ hist, Rejected t → SameCounters t.pre.paymaster t.post.paymaster

/-! ## What a call does to them -/

section Effects
variable {env : CallEnv} {s s' : System} {p p' : Storage} {c : Call} {t : Transition System Invocation}
  {maxOps window maxVaultOps : ℕ}

theorem countOp_admits {windowStart opCount maxOps start count : ℕ} {exceeded : PaymasterError}
    (h : countOp env p windowStart opCount maxOps exceeded = .ok (start, count)) :
    Admits p.rateLimitWindow maxOps ⟨windowStart, opCount⟩ env.timestamp ⟨start, count⟩ := by
  simp only [countOp, bind_ok, add_ok] at h
  obtain ⟨windowEnd, ⟨_, rfl⟩, h⟩ := h
  split at h
  · next hend =>
    cases h
    exact .opens hend
  · next hend =>
    simp only [revertIf_bind, pure_ok, not_le] at h
    obtain ⟨hcount, heq⟩ := h
    cases heq
    exact .joins (Nat.lt_of_not_le hend) hcount

theorem enforceRateLimits_admits {guardian : Address} {vaultId : ℕ}
    (h : enforceRateLimits env p guardian vaultId = .ok p') :
    Admits p.rateLimitWindow p.maxOpsPerWindow (p.guardianWindow guardian) env.timestamp (p'.guardianWindow guardian) ∧
      (∀ other, other ≠ guardian → p'.guardianWindow other = p.guardianWindow other) ∧
    Admits p.rateLimitWindow p.maxVaultOpsPerWindow (p.vaultWindow vaultId) env.timestamp (p'.vaultWindow vaultId) ∧
      ∀ other, other ≠ vaultId → p'.vaultWindow other = p.vaultWindow other := by
  simp only [enforceRateLimits, bind_ok, pure_ok] at h
  obtain ⟨⟨guardianStart, guardianCount⟩, hguardian, ⟨vaultStart, vaultCount⟩, hvault, rfl⟩ := h
  simp only [Storage.guardianWindow, Storage.vaultWindow, Function.update_self]
  refine ⟨countOp_admits hguardian, fun other hne => ?_, countOp_admits hvault, fun other hne => ?_⟩
  · rw [Function.update_of_ne hne, Function.update_of_ne hne]
  · rw [Function.update_of_ne hne, Function.update_of_ne hne]

theorem exec_sameCounters (h : exec env s c = .ok s')
    (hother : ∀ userOp maxCost, c ≠ .validatePaymasterUserOp userOp maxCost) :
    SameCounters s.paymaster s'.paymaster := by
  cases c with
  | validatePaymasterUserOp userOp maxCost => exact absurd rfl (hother userOp maxCost)
  | receive | deposit | depositForCreator _ =>
    simp only [exec, execSponsor, bind_ok, pure_ok] at h
    obtain ⟨⟨⟨p', deposit'⟩, logs⟩, hdeposit, rfl⟩ := h
    obtain ⟨rfl, _⟩ := depositForCreator_ok hdeposit
    exact ⟨rfl, rfl, rfl, rfl⟩
  | depositForVault vaultId =>
    simp only [exec, execSponsor, bind_ok, pure_ok] at h
    obtain ⟨⟨⟨p', deposit'⟩, logs⟩, hdeposit, rfl⟩ := h
    obtain ⟨rfl, _⟩ := depositForVault_ok hdeposit
    exact ⟨rfl, rfl, rfl, rfl⟩
  | withdrawVaultDeposit vaultId amount =>
    simp only [exec, execSponsor, bind_ok, pure_ok] at h
    obtain ⟨⟨⟨p', deposit'⟩, logs⟩, hwithdraw, rfl⟩ := h
    obtain ⟨_, rfl, _⟩ := withdrawVaultDeposit_ok hwithdraw
    exact ⟨rfl, rfl, rfl, rfl⟩
  | withdrawCreatorDeposit amount =>
    simp only [exec, execSponsor, bind_ok, pure_ok] at h
    obtain ⟨⟨⟨p', deposit'⟩, logs⟩, hwithdraw, rfl⟩ := h
    obtain ⟨_, rfl, _⟩ := withdrawCreatorDeposit_ok hwithdraw
    exact ⟨rfl, rfl, rfl, rfl⟩
  | setRateLimits _ _ _ =>
    simp only [exec, setRateLimits, bind_ok, pure_ok] at h
    obtain ⟨_, ⟨_, _, rfl⟩, rfl⟩ := h
    exact ⟨rfl, rfl, rfl, rfl⟩
  | setSpooVault _ =>
    simp only [exec, setSpooVault, bind_ok, pure_ok] at h
    obtain ⟨_, ⟨_, _, _, _, rfl⟩, rfl⟩ := h
    exact ⟨rfl, rfl, rfl, rfl⟩
  | transferOwnership _ =>
    simp only [exec, transferOwnership, bind_ok, pure_ok] at h
    obtain ⟨_, ⟨_, _, _, _, rfl⟩, rfl⟩ := h
    exact ⟨rfl, rfl, rfl, rfl⟩
  | renounceOwnership =>
    simp only [exec, renounceOwnership, bind_ok, pure_ok] at h
    obtain ⟨_, ⟨_, _, rfl⟩, rfl⟩ := h
    exact ⟨rfl, rfl, rfl, rfl⟩
  | postOp mode context maxCost actualGasCost =>
    simp only [exec, postOp, bind_ok, pure_ok] at h
    obtain ⟨_, _, _, ⟨_, _, c, _, rfl⟩, rfl⟩ := h
    dsimp only
    split
    · exact ⟨rfl, rfl, rfl, rfl⟩
    · exact ⟨rfl, rfl, rfl, rfl⟩

theorem accepted_none_of_other (hother : ∀ userOp maxCost, t.label.2 ≠ .validatePaymasterUserOp userOp maxCost) :
    accepted t = none := by
  unfold accepted
  split
  · next userOp maxCost heq => exact absurd heq (hother userOp maxCost)
  · rfl

theorem attempt_cases (h : attempt t.pre t.label = t.post) :
    (∃ c, accepted t = some c ∧
      enforceRateLimits t.label.1 t.pre.paymaster c.guardian c.vaultId = .ok t.post.paymaster) ∨
    accepted t = none ∧ SameCounters t.pre.paymaster t.post.paymaster := by
  obtain ⟨s, ⟨env, call⟩, s'⟩ := t
  obtain rfl : attempt s (env, call) = s' := h
  by_cases hvalidate : ∃ userOp maxCost, call = .validatePaymasterUserOp userOp maxCost
  · obtain ⟨userOp, maxCost, rfl⟩ := hvalidate
    cases hresult : validatePaymasterUserOp env s.paymaster userOp maxCost with
    | error e =>
      refine .inr ⟨?_, ?_⟩
      · simp only [accepted, hresult]
      · have hrejected : exec env s (.validatePaymasterUserOp userOp maxCost) = .error e := by
          simp only [exec, hresult]
          rfl
        simp only [attempt, hrejected]
        exact ⟨rfl, rfl, rfl, rfl⟩
    | ok result =>
      obtain ⟨p', context⟩ := result
      obtain ⟨c, hvalidated, hcontext⟩ := validatePaymasterUserOp_ok.mp hresult
      have hdecode : decodeContext context = some c := by rw [hcontext, decodeContext_encode hvalidated.vaultId_lt]
      refine .inl ⟨c, ?_, ?_⟩
      · simp only [accepted, hresult, hdecode]
      · have hexec : exec env s (.validatePaymasterUserOp userOp maxCost) =
            .ok { s with paymaster := p', pending := (context, maxCost) :: s.pending } := by
          simp only [exec, hresult]
          rfl
        simp only [attempt, hexec]
        rw [hvalidated.guardian]
        exact hvalidated.limits
  · have hother : ∀ userOp maxCost, call ≠ .validatePaymasterUserOp userOp maxCost :=
      fun userOp maxCost heq => hvalidate ⟨userOp, maxCost, heq⟩
    refine .inr ⟨accepted_none_of_other hother, ?_⟩
    unfold attempt
    cases hexec : exec env s call with
    | error e => exact ⟨rfl, rfl, rfl, rfl⟩
    | ok s' => exact exec_sameCounters hexec hother

theorem effect_sender (h : attempt t.pre t.label = t.post) (hlimited : Limited maxOps window maxVaultOps t.pre)
    (guardian : Address) :
    FixedWindow.Effect window maxOps (fun s : System => s.paymaster.guardianWindow guardian) (acceptedOf guardian) t := by
  rcases attempt_cases h with ⟨c, haccepted, henforce⟩ | ⟨hnone, hsame⟩
  · obtain ⟨hadmits, hothers, _, _⟩ := enforceRateLimits_admits henforce
    rw [hlimited.rateLimitWindow, hlimited.maxOpsPerWindow] at hadmits
    by_cases heq : c.guardian = guardian
    · subst heq
      exact .admits _ (by simp [acceptedOf, haccepted]) hadmits
    · exact .kept (by simp [acceptedOf, haccepted, heq]) (hothers guardian (Ne.symm heq))
  · exact .kept (by simp [acceptedOf, hnone]) (hsame.guardianWindow guardian)

theorem effect_vault (h : attempt t.pre t.label = t.post) (hlimited : Limited maxOps window maxVaultOps t.pre)
    (vaultId : ℕ) :
    FixedWindow.Effect window maxVaultOps (fun s : System => s.paymaster.vaultWindow vaultId) (acceptedOn vaultId) t := by
  rcases attempt_cases h with ⟨c, haccepted, henforce⟩ | ⟨hnone, hsame⟩
  · obtain ⟨_, _, hadmits, hothers⟩ := enforceRateLimits_admits henforce
    rw [hlimited.rateLimitWindow, hlimited.maxVaultOpsPerWindow] at hadmits
    by_cases heq : c.vaultId = vaultId
    · subst heq
      exact .admits _ (by simp [acceptedOn, haccepted]) hadmits
    · exact .kept (by simp [acceptedOn, haccepted, heq]) (hothers vaultId (Ne.symm heq))
  · exact .kept (by simp [acceptedOn, hnone]) (hsame.vaultWindow vaultId)

end Effects

/-! ## Runs -/

section Runs
variable {hist : List (Transition System Invocation)} {s : System} {maxOps window maxVaultOps : ℕ}

theorem Chronological.times (h : Chronological hist) {p : Context → Prop} [DecidablePred p] :
    (hist.filterMap fun t => (accepted t).bind fun c => if p c then some t.label.1.timestamp else none).Pairwise
      (· ≥ ·) := by
  refine List.Pairwise.filterMap _ ?_ h
  intro later earlier hle time htime time' htime'
  have hpicked : ∀ {t : Transition System Invocation} {n : ℕ},
      ((accepted t).bind fun c => if p c then some t.label.1.timestamp else none) = some n →
        n = t.label.1.timestamp := by
    intro t n hpick
    obtain ⟨c, _, hpick⟩ := Option.bind_eq_some_iff.mp hpick
    split at hpick
    · exact (Option.some.inj hpick).symm
    · cases hpick
  rw [hpicked htime, hpicked htime']
  exact hle

/-- The limits hold in every interval, however the operations of senders and vaults are mixed. -/
theorem rate_limits_hold (hmax : 1 ≤ maxOps) (hvault : 1 ≤ maxVaultOps) (hwindow : 0 < window)
    (h : AttemptRun hist s) (hlimited : ∀ t ∈ hist, Limited maxOps window maxVaultOps t.pre)
    (htime : Chronological hist) : RateLimited maxOps window maxVaultOps hist := by
  have hstep : ∀ t ∈ hist, attempt t.pre t.label = t.post := by
    intro t ht
    obtain ⟨_, _, _, hstep⟩ := h.of_mem ht
    exact hstep
  constructor
  · intro guardian start
    have heffect := fun t ht => effect_sender (hstep t ht) (hlimited t ht) guardian
    exact (admitted_of_run h heffect htime.times).countP_le hmax hwindow start
  · intro vaultId start
    have heffect := fun t ht => effect_vault (hstep t ht) (hlimited t ht) vaultId
    exact (admitted_of_run h heffect htime.times).countP_le hvault hwindow start
  · intro t ht hrejected
    obtain ⟨userOp, maxCost, e, hcall, herror⟩ := hrejected
    rcases attempt_cases (hstep t ht) with ⟨c, haccepted, _⟩ | ⟨_, hsame⟩
    · simp [accepted, hcall, herror] at haccepted
    · exact hsame

end Runs

/-- A paymaster that accepts one operation of a sender in an hour, and a vault with enough for many. -/
def oncePerHour : System where
  paymaster := { entryPoint := 0x60, spooVault := 0x70, owner := 9, maxOpsPerWindow := 1,
                 vaultSponsorBalances := fun _ => 1000 }

/-- Newest first: the second comes too early, and the third an hour after the first. -/
def thriceAccepting : List Invocation :=
  [(paying 0x60 0 8600, .validatePaymasterUserOp acceptance 100),
    (paying 0x60 0 8599, .validatePaymasterUserOp acceptance 100),
    (paying 0x60 0 5000, .validatePaymasterUserOp acceptance 100)]

/-- Two of the three are accepted. -/
theorem rate_limits_hold_hour : RateLimited 1 3600 50 (History.executed attempt oncePerHour thriceAccepting).1 ∧
    (History.executed attempt oncePerHour thriceAccepting).1.filterMap (acceptedOf 5) = [8600, 5000] := by
  refine ⟨rate_limits_hold (by decide) (by decide) (by decide) (executed_run trivial (fun _ _ => rfl) _) ?_ ?_, ?_⟩
  · decide +kernel
  · unfold Chronological
    decide +kernel
  · decide +kernel

end ChainGuard.Evm.SpooPaymaster
