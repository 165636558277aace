import Mathlib
import ChainGuard.Library.Counters
import ChainGuard.OffChain.Relayer

/-! Approvals that the relayer service accepts. A nonce is counted under the vault, the guardian, the
approval type and the chains; an approval without a nonce is signed as nonce 0 and counted nowhere. -/
namespace ChainGuard.OffChain
open Methods History
set_option autoImplicit false

variable {Num : Type} [JsNumber Num] {rt : Runtime} {s s' : Relayer} {c : RelayerCall Num}
  {hist earlier : List (Transition Relayer (RelayerCall Num))} {t : Transition Relayer (RelayerCall Num)}

/-! ## Accepted approvals -/

def approved (rt : Runtime) (t : Transition Relayer (RelayerCall Num)) : Option (CrossChainPayload Num) :=
  match t.label with
  | .processMessage payload _ _ => if (outcome rt t.pre t.label).1 = none then some payload else none
  | _ => none

def broadcast (rt : Runtime) (t : Transition Relayer (RelayerCall Num)) :
    Option (CrossChainRevocationPayload Num × JsString) :=
  match t.label with
  | .processRevocationBroadcast payload secretKey =>
    if (outcome rt t.pre t.label).1 = none then some (payload, secretKey) else none
  | _ => none

/-- What a call does to the service. -/
inductive RelayerEffect (rt : Runtime) (t : Transition Relayer (RelayerCall Num)) : Prop
  | kept : approved rt t = none → broadcast rt t = none → t.post = t.pre → RelayerEffect rt t
  | approves (payload : CrossChainPayload Num) : approved rt t = some payload → broadcast rt t = none →
      Approves rt payload t.pre t.post → RelayerEffect rt t
  | revokes (payload : CrossChainRevocationPayload Num) (secretKey : JsString) : approved rt t = none →
      broadcast rt t = some (payload, secretKey) → Revokes rt payload secretKey t.pre t.post →
      RelayerEffect rt t

theorem outcome_throws {e : Thrown} (h : outcome rt s c = (some e, s')) : s' = s := by
  unfold outcome at h
  split at h
  · split at h
    · cases h
    · exact (Prod.mk.inj h).2.symm
  · cases h
  · split at h
    · cases h
    · next hcall =>
      obtain ⟨_, rfl⟩ := Prod.mk.inj h
      exact processMessage_throws hcall
  · split at h
    · cases h
    · next hcall =>
      obtain ⟨_, rfl⟩ := Prod.mk.inj h
      exact processRevocationBroadcast_throws hcall

theorem RelayerStep.effect (h : RelayerStep rt s c s') : RelayerEffect rt ⟨s, c, s'⟩ := by
  cases hthrown : (outcome rt s c).1 with
  | some e =>
    have hpost : s' = s := outcome_throws (Prod.ext hthrown h)
    refine .kept ?_ ?_ hpost
    · unfold approved
      dsimp only
      split
      · rw [hthrown]; rfl
      · rfl
    · unfold broadcast
      dsimp only
      split
      · rw [hthrown]; rfl
      · rfl
  | none =>
    cases c with
    | signPayload payload secretKey =>
      refine .kept rfl rfl ?_
      rw [← h, outcome]
      split
      · rfl
      · rfl
    | signRevocationPayload payload secretKey => exact .kept rfl rfl h.symm
    | processMessage payload secretKey now =>
      refine .approves payload (if_pos hthrown) rfl ?_
      unfold RelayerStep outcome at h
      unfold outcome at hthrown
      dsimp only at h hthrown
      split at h
      · next hcall =>
        obtain rfl := h
        exact processMessage_returns hcall
      · next hcall =>
        rw [hcall] at hthrown
        cases hthrown
    | processRevocationBroadcast payload secretKey =>
      refine .revokes payload secretKey rfl (if_pos hthrown) ?_
      unfold RelayerStep outcome at h
      unfold outcome at hthrown
      dsimp only at h hthrown
      split at h
      · next hcall =>
        obtain rfl := h
        exact processRevocationBroadcast_returns hcall
      · next hcall =>
        rw [hcall] at hthrown
        cases hthrown

/-! ## Nonces -/

/-- The vault, guardian, approval type and chains of an approval, normalized. -/
abbrev ApprovalScope (Num : Type) := JsString × JsString × Num × JsString × JsString

def NormalizedApproval.scope (content : NormalizedApproval Num) : ApprovalScope Num :=
  (content.vaultGID, content.guardian, content.approvalType, content.sourceChain, content.destinationChain)

def scopeOf (rt : Runtime) (payload : CrossChainPayload Num) : ApprovalScope Num :=
  (normalizeApprovalPayload rt payload).scope

/-- The nonce as an integer, a missing one as 0. -/
def nonceValue (payload : CrossChainPayload Num) : ℤ :=
  match payload.nonce with
  | none => 0
  | some x => x.toBigInt.getD 0

def lastApproval (s : Relayer) (key : JsString) : ℤ := (s.lastApprovalNonces key).getD 0

/-- The key and the integer that an accepted approval with a nonce is tracked under. -/
def trackedNonce (rt : Runtime) (t : Transition Relayer (RelayerCall Num)) : Option (JsString × ℤ) :=
  (approved rt t).bind fun payload => payload.nonce.map fun _ => (approvalKey rt payload, nonceValue payload)

theorem approvalKey_of_scope {payload payload' : CrossChainPayload Num}
    (h : scopeOf rt payload = scopeOf rt payload') : approvalKey rt payload = approvalKey rt payload' := by
  simp only [scopeOf, NormalizedApproval.scope, normalizeApprovalPayload, Prod.mk.injEq] at h
  obtain ⟨hvault, hguardian, htype, hsource, hdestination⟩ := h
  rw [approvalKey, approvalKey, hvault, hguardian, htype, hsource, hdestination]

theorem RelayerStep.tracked (h : RelayerStep rt s c s') :
    Counters.Effect lastApproval (trackedNonce rt) ⟨s, c, s'⟩ := by
  cases h.effect with
  | kept hnone _ hpost =>
    refine .kept (by rw [trackedNonce, hnone]; rfl) ?_
    exact congrArg lastApproval hpost
  | revokes payload secretKey hnone _ hrevokes =>
    refine .kept (by rw [trackedNonce, hnone]; rfl) ?_
    funext key
    exact congrArg (Option.getD · 0) (congrFun hrevokes.lastApprovalNonces key)
  | approves payload hsome _ happroves =>
    cases hnonce : payload.nonce with
    | none =>
      refine .kept (by rw [trackedNonce, hsome, Option.bind_some, hnonce]; rfl) ?_
      funext key
      exact congrArg (Option.getD · 0) (congrFun (happroves.noNonce hnonce) key)
    | some x =>
      obtain ⟨n, hn, hlt, hwritten⟩ := happroves.nonce x hnonce
      have hvalue : nonceValue payload = n := by rw [nonceValue, hnonce]; simp [hn]
      refine .accepts (approvalKey rt payload) n ?_ hlt ?_
      · rw [trackedNonce, hsome, Option.bind_some, hnonce, hvalue]
        rfl
      · funext key
        dsimp only at hwritten
        rw [lastApproval, hwritten, Function.update_apply, Function.update_apply]
        split
        · rfl
        · rfl

theorem lastApproval_nonneg (h : RelayerRun rt hist s) (key : JsString) : 0 ≤ lastApproval s key := by
  refine Run.invariant (I := fun s => 0 ≤ lastApproval s key) ?_ ?_ h
  · rintro s rfl
    exact le_rfl
  · intro s c s' hle hstep
    exact hle.trans (hstep.tracked.le key)

theorem tracked_pos (h : RelayerRun rt hist s) (hmem : t ∈ hist) {key : JsString} {n : ℤ}
    (htracked : trackedNonce rt t = some (key, n)) : 0 < n := by
  obtain ⟨earlier, _, hrun, hstep⟩ := h.of_mem hmem
  have hnonneg := lastApproval_nonneg hrun key
  cases RelayerStep.tracked hstep with
  | kept hnone _ => exact absurd (htracked.symm.trans hnone) (by simp)
  | accepts key' n' hsome hlt _ =>
    obtain ⟨rfl, rfl⟩ := Prod.mk.inj (Option.some.inj (hsome.symm.trans htracked))
    exact hnonneg.trans_lt hlt

theorem trackedNonce_of_approved {payload : CrossChainPayload Num} (happroved : approved rt t = some payload)
    (hnonce : payload.nonce ≠ none) :
    trackedNonce rt t = some (approvalKey rt payload, nonceValue payload) := by
  obtain ⟨x, hx⟩ := Option.ne_none_iff_exists'.mp hnonce
  rw [trackedNonce, happroved, Option.bind_some, hx]
  rfl

theorem nonceValue_of_none {payload : CrossChainPayload Num} (hnonce : payload.nonce = none) :
    nonceValue payload = 0 := by
  rw [nonceValue, hnonce]

theorem nonceValue_nonneg (h : RelayerRun rt hist s) (hmem : t ∈ hist) {payload : CrossChainPayload Num}
    (happroved : approved rt t = some payload) : 0 ≤ nonceValue payload := by
  by_cases hnonce : payload.nonce = none
  · rw [nonceValue_of_none hnonce]
  · exact (tracked_pos h hmem (trackedNonce_of_approved happroved hnonce)).le

theorem nonce_increases (h : RelayerRun rt hist s) (hsuffix : t :: earlier <:+ hist)
    {payload : CrossChainPayload Num} (happroved : approved rt t = some payload)
    (hnonce : payload.nonce ≠ none) {t' : Transition Relayer (RelayerCall Num)} (hmem : t' ∈ earlier)
    {payload' : CrossChainPayload Num} (happroved' : approved rt t' = some payload')
    (hscope : scopeOf rt payload' = scopeOf rt payload) : nonceValue payload' < nonceValue payload := by
  have htracked := trackedNonce_of_approved happroved hnonce
  by_cases hnonce' : payload'.nonce = none
  · -- The nonce that the earlier one lacks is signed as 0, and no counter is below 0.
    rw [nonceValue_of_none hnonce']
    exact tracked_pos h (hsuffix.subset (List.mem_cons_self ..)) htracked
  · have htracked' := trackedNonce_of_approved happroved' hnonce'
    rw [approvalKey_of_scope hscope] at htracked'
    exact Counters.increasing (fun _ _ _ => RelayerStep.tracked) h hsuffix hmem htracked htracked'

/-! ## Contents -/

/-- The contents accepted, newest first. -/
def approvedContents (rt : Runtime) (hist : List (Transition Relayer (RelayerCall Num))) :
    List (NormalizedApproval Num) :=
  (hist.filterMap (approved rt)).map (normalizeApprovalPayload rt)

def NoncesIncrease (rt : Runtime) (hist : List (Transition Relayer (RelayerCall Num))) : Prop :=
  (hist.filterMap (approved rt)).Pairwise fun later earlier =>
    scopeOf rt earlier = scopeOf rt later → nonceValue earlier < nonceValue later

/-- An approval without a nonce is not of the scope of an earlier one, and the content of an earlier
one does not come back with its nonce read as another integer. -/
structure Distinguishable (rt : Runtime) (later earlier : CrossChainPayload Num) : Prop where
  noNonce : later.nonce = none → scopeOf rt earlier ≠ scopeOf rt later
  sameNonce : normalizeApprovalPayload rt earlier = normalizeApprovalPayload rt later →
    nonceValue earlier = nonceValue later

instance [DecidableEq Num] (later earlier : CrossChainPayload Num) :
    Decidable (Distinguishable rt later earlier) :=
  decidable_of_iff ((later.nonce = none → scopeOf rt earlier ≠ scopeOf rt later) ∧
      (normalizeApprovalPayload rt earlier = normalizeApprovalPayload rt later →
        nonceValue earlier = nonceValue later))
    ⟨fun h => ⟨h.1, h.2⟩, fun h => ⟨h.noNonce, h.sameNonce⟩⟩

theorem distinguishable_iff (h : RelayerRun rt hist s) (hsuffix : t :: earlier <:+ hist)
    {payload : CrossChainPayload Num} (happroved : approved rt t = some payload) :
    (normalizeApprovalPayload rt payload ∉ approvedContents rt earlier ∧
        ∀ payload' ∈ earlier.filterMap (approved rt), scopeOf rt payload' = scopeOf rt payload →
          nonceValue payload' < nonceValue payload) ↔
      ∀ payload' ∈ earlier.filterMap (approved rt), Distinguishable rt payload payload' := by
  constructor
  · rintro ⟨hfresh, habove⟩ payload' hmem
    refine ⟨fun hnone hscope => ?_, fun hcontent => ?_⟩
    · have hlt := habove payload' hmem hscope
      obtain ⟨t', ht', happroved'⟩ := List.mem_filterMap.mp hmem
      have hnonneg := nonceValue_nonneg h (hsuffix.subset (List.mem_cons_of_mem _ ht')) happroved'
      rw [nonceValue_of_none hnone] at hlt
      exact absurd hlt (not_lt.mpr hnonneg)
    · exact absurd (List.mem_map.mpr ⟨payload', hmem, hcontent⟩) hfresh
  · intro hdistinct
    have habove : ∀ payload' ∈ earlier.filterMap (approved rt),
        scopeOf rt payload' = scopeOf rt payload → nonceValue payload' < nonceValue payload := by
      intro payload' hmem hscope
      have hnonce : payload.nonce ≠ none := fun hnone => (hdistinct payload' hmem).noNonce hnone hscope
      obtain ⟨t', ht', happroved'⟩ := List.mem_filterMap.mp hmem
      exact nonce_increases h hsuffix happroved hnonce ht' happroved' hscope
    refine ⟨fun hmem => ?_, habove⟩
    obtain ⟨payload', hmem, hcontent⟩ := List.mem_map.mp hmem
    have hlt := habove payload' hmem (congrArg NormalizedApproval.scope hcontent)
    rw [(hdistinct payload' hmem).sameNonce hcontent] at hlt
    exact lt_irrefl _ hlt

theorem noncesIncrease_iff (h : RelayerRun rt hist s) :
    ((approvedContents rt hist).Nodup ∧ NoncesIncrease rt hist) ↔
      (hist.filterMap (approved rt)).Pairwise (Distinguishable rt) := by
  induction h with
  | start _ => exact ⟨fun _ => List.Pairwise.nil, fun _ => ⟨List.Pairwise.nil, List.Pairwise.nil⟩⟩
  | @next hist s s' c hrun hstep ih =>
    unfold approvedContents NoncesIncrease
    cases happroved : approved rt ⟨s, c, s'⟩ with
    | none =>
      rw [List.filterMap_cons_none happroved]
      exact ih
    | some payload =>
      have hfirst := distinguishable_iff (.next hrun hstep) (List.suffix_refl _) happroved
      rw [List.filterMap_cons_some happroved, List.map_cons, List.nodup_cons, List.pairwise_cons,
        List.pairwise_cons, ← hfirst, ← ih]
      exact and_and_and_comm

/-- A call that throws changes nothing. In every run no content is accepted twice and the nonces of a
scope increase exactly when each accepted approval can be told from the earlier ones. -/
theorem approvals_once_iff (h : RelayerRun rt hist s) :
    (∀ s (c : RelayerCall Num), (outcome rt s c).1 ≠ none → (outcome rt s c).2 = s) ∧
      (((approvedContents rt hist).Nodup ∧ NoncesIncrease rt hist) ↔
        (hist.filterMap (approved rt)).Pairwise (Distinguishable rt)) := by
  refine ⟨fun s c hthrows => ?_, noncesIncrease_iff h⟩
  obtain ⟨e, he⟩ := Option.ne_none_iff_exists'.mp hthrows
  exact outcome_throws (Prod.ext he rfl)

/-- An approval of guardian 1 with the given signature and nonce. -/
def sampleApproval (signature : String) (nonce : Option (Numeric ℤ)) : RelayerCall ℤ :=
  .processMessage
    { vaultGID := js "0xA", guardian := js "0x1", approvalType := 1, timestamp := 0, nonce := nonce
      signature := some (js signature) } (js "key") 1

/-- Nonces 1 and 2 are accepted, and 2 is not accepted again. -/
theorem approvals_once_numbered : ∃ (hist : List (Transition Relayer (RelayerCall ℤ))) (s : Relayer),
    RelayerRun localRuntime hist s ∧
    (hist.filterMap (approved localRuntime)).length = 2 ∧
    (approvedContents localRuntime hist).Nodup := by
  have hrun := relayerRun_historyOf localRuntime
    [sampleApproval "AB" (some (.number 2)), sampleApproval "ab" (some (.bigint 2)),
      sampleApproval "ab" (some (.number 1))]
  refine ⟨_, _, hrun, by decide +kernel, ?_⟩
  exact ((approvals_once_iff hrun).2.mpr (by decide +kernel)).1

/-- An approval without a nonce is accepted again with its signature in upper case. -/
theorem approval_replayed : ∃ (hist : List (Transition Relayer (RelayerCall ℤ))) (s : Relayer),
    RelayerRun localRuntime hist s ∧
    (hist.filterMap (approved localRuntime)).length = 2 ∧
    ¬ (approvedContents localRuntime hist).Nodup := by
  have hrun := relayerRun_historyOf localRuntime [sampleApproval "AB" none, sampleApproval "ab" none]
  exact ⟨_, _, hrun, by decide +kernel, by decide +kernel⟩

end ChainGuard.OffChain
