import ChainGuard.Evm.Approvals

/-! What a request's accumulator holds: the sum of the ciphertexts that were submitted for it, in the order
of their submission. -/
namespace ChainGuard.Evm
open Guarded History
set_option autoImplicit false

namespace FHEEngine

def ciphertext (body : List ℕ) : Bytes := ((body.length - 1) :: body).flatMap word

def addWords (body body' : List ℕ) : List ℕ := List.zipWith (fun x y => (x + y) % FHE_PRIME) body body'

theorem words_length (ws : List ℕ) : (ws.flatMap word).length = 32 * ws.length := by
  induction ws with
  | nil => rfl
  | cons w ws ih =>
    rw [List.flatMap_cons, List.length_append, word_length, ih, List.length_cons]
    ring

theorem mload_words {ws : List ℕ} {i : ℕ} (hi : i < ws.length) : mload (ws.flatMap word) i = ws[i] % 2 ^ 256 := by
  induction ws generalizing i with
  | nil => exact absurd hi (Nat.not_lt_zero i)
  | cons w ws ih =>
    cases i with
    | zero =>
      rw [mload, Nat.mul_zero, List.drop_zero, List.flatMap_cons, List.take_left' (word_length w), natBE_word]
      rfl
    | succ i =>
      have hdrop : ((w :: ws).flatMap word).drop (32 * (i + 1)) = (ws.flatMap word).drop (32 * i) := by
        rw [List.flatMap_cons, show 32 * (i + 1) = (word w).length + 32 * i by rw [word_length]; ring,
          List.drop_length_add_append]
      rw [mload, hdrop]
      exact ih (Nat.lt_of_succ_lt_succ hi)

theorem sumWords_eq {d d' : ℕ} {body body' : List ℕ} (hlength : body.length = body'.length)
    (hbody : ∀ w ∈ body, w < 2 ^ 256) (hbody' : ∀ w ∈ body', w < 2 ^ 256) :
    sumWords ((d :: body).flatMap word) ((d' :: body').flatMap word) body.length =
      (addWords body body').flatMap word := by
  have hwords : (List.range body.length).map (fun i => (mload ((d :: body).flatMap word) (i + 1) +
      mload ((d' :: body').flatMap word) (i + 1)) % FHE_PRIME) = addWords body body' := by
    refine List.ext_getElem (by simp [addWords, hlength]) fun i hi hi' => ?_
    have hlt : i < body.length := by simpa using hi
    have hlt' : i < body'.length := hlength ▸ hlt
    rw [List.getElem_map, List.getElem_range, mload_words (by simpa using hlt), mload_words (by simpa using hlt')]
    simp only [List.getElem_cons_succ, addWords, List.getElem_zipWith]
    rw [Nat.mod_eq_of_lt (hbody _ (List.getElem_mem hlt)), Nat.mod_eq_of_lt (hbody' _ (List.getElem_mem hlt'))]
  rw [sumWords, ← hwords, List.flatMap_map]

theorem fheAdd_ciphertext {body body' : List ℕ} (hlength : body.length = body'.length) (h2 : 2 ≤ body.length)
    (hsmall : body.length < 2 ^ 250) (hbody : ∀ w ∈ body, w < 2 ^ 256) (hbody' : ∀ w ∈ body', w < 2 ^ 256) :
    fheAdd (ciphertext body) (ciphertext body') = .ok (ciphertext (addWords body body')) := by
  have hsize : (ciphertext body).length = 32 * (body.length + 1) := words_length _
  have hsize' : (ciphertext body').length = 32 * (body.length + 1) := by
    rw [hlength]
    exact words_length _
  have hdim : mload (ciphertext body) 0 = body.length - 1 := by
    rw [ciphertext, mload_words (Nat.zero_lt_succ _)]
    exact Nat.mod_eq_of_lt (show body.length - 1 < 2 ^ 256 by omega)
  have hwords : (addWords body body').length = body.length := by simp [addWords, hlength]
  unfold fheAdd
  rw [if_neg (by omega), if_neg (by omega)]
  simp only [revertIf_bind, hdim, hsize, hsize', pure_ok]
  refine ⟨by omega, by omega, by omega, by omega, ?_⟩
  rw [show body.length - 1 + 1 = body.length by omega, ciphertext, ciphertext, sumWords_eq hlength hbody hbody',
    ciphertext, hwords, List.flatMap_cons]

end FHEEngine

variable {L : Type} {chain : Chain} {nft : ERC721 L} {env : Env} {s : State L} {q q' : Requests}
  {logs : List Event} {r : ℕ}

/-! ## What leaves the accumulators alone -/

structure SameAccumulators (q q' : Requests) : Prop where
  accumulator : q'.fheRequestAccumulator = q.fheRequestAccumulator
  count : q'.fheAccumulatorCount = q.fheAccumulatorCount

theorem SameAccumulators.trans {q q' q'' : Requests} (h : SameAccumulators q q') (h' : SameAccumulators q' q'') :
    SameAccumulators q q'' :=
  ⟨h'.accumulator.trans h.accumulator, h'.count.trans h.count⟩

theorem submitShare_accumulators {d : Documents} {requestId documentId : ℕ} {guardian : Address} {share : Bytes}
    (h : submitShare chain d q requestId documentId guardian share = .ok (q', logs)) : SameAccumulators q q' := by
  unfold submitShare at h
  split at h
  · rw [pure_ok, Prod.mk.injEq] at h
    rw [← h.1]
    exact ⟨rfl, rfl⟩
  · simp only [revertIf_bind, pure_ok, Prod.mk.injEq] at h
    rw [← h.2.1]
    exact ⟨rfl, rfl⟩

theorem processBLSGuardians_accumulators {requestId vaultId documentId : ℕ} {requester : Address}
    {previous : Option Address} {guardianAddresses : List Address} {shares : List Bytes}
    (h : processBLSGuardians chain s requestId vaultId documentId requester q previous guardianAddresses shares =
      .ok (q', logs)) : SameAccumulators q q' := by
  induction guardianAddresses generalizing q previous shares logs with
  | nil =>
    simp only [processBLSGuardians, pure_ok, Prod.mk.injEq] at h
    rw [← h.1]
    exact ⟨rfl, rfl⟩
  | cons guardian rest ih =>
    simp only [processBLSGuardians, ↓revertIf_bind, bind_ok, pure_ok, Prod.mk.injEq] at h
    obtain ⟨_, _, _, _, _, ⟨submitted, ev⟩, hshare, ⟨processed, ev'⟩, hrest, hq, _⟩ := h
    cases hq
    exact (submitShare_accumulators hshare).trans (ih hrest)

theorem Settles.accumulators {requestId vaultId : ℕ} {a : Grants} (h : Settles s q requestId vaultId q' a) :
    SameAccumulators q q' := by
  obtain ⟨status, _, rfl⟩ := h.bookkeeping
  exact ⟨rfl, rfl⟩

theorem SettlesIfReached.accumulators {requestId vaultId : ℕ} {a : Grants}
    (h : SettlesIfReached s q requestId vaultId q' a) : SameAccumulators q q' := by
  cases h with
  | below => exact ⟨rfl, rfl⟩
  | reached _ h => exact h.accumulators

theorem execApproval_accumulators {c : ApprovalCall} {a : Grants}
    (h : execApproval chain env s c = .ok ((q, a), logs))
    (hother : ∀ requestId payload, c ≠ .approveAccessFHE requestId payload) : SameAccumulators s.requests q := by
  have hshared : ∀ {requestId documentId guardian share submitted ev}, submitShare chain s.documents
      (recordApproval s.requests requestId guardian) requestId documentId guardian share = .ok (submitted, ev) →
      (settleIfReached s submitted requestId (requestVault s requestId)).1 = (q, a) →
      SameAccumulators s.requests q := by
    intro requestId documentId guardian share submitted ev hshare hq
    have hsettled := (settleIfReached_settles s submitted requestId (requestVault s requestId)).accumulators
    have hshared := submitShare_accumulators hshare
    rw [hq] at hsettled
    exact ⟨hsettled.accumulator.trans hshared.accumulator, hsettled.count.trans hshared.count⟩
  cases c with
  | approveAccess requestId share =>
    simp only [execApproval, approveAccess, ↓revertIf_bind, bind_ok, pure_ok, Prod.mk.injEq] at h
    obtain ⟨_, _, _, _, _, _, _, ⟨submitted, ev⟩, hshare, hq, _⟩ := h
    exact hshared hshare hq
  | approveAccessByDelegation requestId guardian validUntil nonce signature share
  | approveAccessDelegated requestId guardian validUntil nonce signature share =>
    simp only [execApproval, approveAccessDelegated, ↓revertIf_bind, bind_ok, pure_ok, Prod.mk.injEq] at h
    obtain ⟨_, _, _, _, _, _, _, ⟨submitted, ev⟩, hshare, hq, _⟩ := h
    exact hshared hshare hq
  | approveAccessFHE requestId payload => exact absurd rfl (hother requestId payload)
  | approveAccessBLS requestId guardianAddresses aggregatedSignature aggregatedPublicKey shares =>
    simp only [execApproval, approveAccessBLS, ↓revertIf_bind, bind_ok, pure_ok, Prod.mk.injEq] at h
    obtain ⟨_, _, _, ⟨processed, ev⟩, hloop, _, _, hq, _⟩ := h
    have hsettled := (settleRequest_settles s processed requestId (requestVault s requestId)).accumulators
    rw [hq] at hsettled
    exact (processBLSGuardians_accumulators hloop).trans hsettled

/-! ## Submissions -/

def fheSubmission (r : ℕ) (t : Transition (State L) Invocation) : Option (Address × Bytes) :=
  match t.label with
  | (env, .approval (.approveAccessFHE requestId payload)) =>
    if requestId = r then some (env.sender, payload) else none
  | _ => none

/-- The submissions for a request, oldest first. -/
def submissions (r : ℕ) (hist : List (Transition (State L) Invocation)) : List (Address × Bytes) :=
  (hist.filterMap (fheSubmission r)).reverse

/-- What a submission for a request does to its accumulator and counter: an empty payload leaves them. -/
inductive Submits (q q' : Requests) (r : ℕ) (payload : Bytes) : Prop
  | empty : payload = [] → q'.fheRequestAccumulator r = q.fheRequestAccumulator r →
      q'.fheAccumulatorCount r = q.fheAccumulatorCount r → Submits q q' r payload
  | added : payload ≠ [] →
      FHEEngine.fheAdd (q.fheRequestAccumulator r) payload = .ok (q'.fheRequestAccumulator r) →
      q'.fheAccumulatorCount r = q.fheAccumulatorCount r + 1 → Submits q q' r payload

theorem approveAccessFHE_others {requestId : ℕ} {payload : Bytes} {a : Grants}
    (h : approveAccessFHE chain env s requestId payload = .ok ((q, a), logs)) (hr : requestId ≠ r) :
    q.fheRequestAccumulator r = s.requests.fheRequestAccumulator r ∧
      q.fheAccumulatorCount r = s.requests.fheAccumulatorCount r := by
  simp only [approveAccessFHE, ↓revertIf_bind, bind_ok, pure_ok, Prod.mk.injEq, checkPendingRequest_ok] at h
  obtain ⟨_, _, _, _, _, _, _, ⟨accumulated, ev⟩, hshare, hq, _⟩ := h
  have hsettled := (settleIfReached_settles s accumulated requestId (requestVault s requestId)).accumulators
  rw [hq] at hsettled
  unfold accumulateFheShare at hshare
  split at hshare
  · simp only [pure_ok, Prod.mk.injEq] at hshare
    obtain ⟨rfl, _⟩ := hshare
    exact ⟨congrFun hsettled.accumulator r, congrFun hsettled.count r⟩
  · simp only [bind_ok, pure_ok, Prod.mk.injEq] at hshare
    obtain ⟨sum, _, rfl, _⟩ := hshare
    rw [hsettled.accumulator, hsettled.count]
    exact ⟨Function.update_of_ne (Ne.symm hr) _ _, Function.update_of_ne (Ne.symm hr) _ _⟩

theorem approveAccessFHE_submits {payload : Bytes} {a : Grants}
    (h : approveAccessFHE chain env s r payload = .ok ((q, a), logs)) : Submits s.requests q r payload := by
  simp only [approveAccessFHE, ↓revertIf_bind, bind_ok, pure_ok, Prod.mk.injEq, checkPendingRequest_ok] at h
  obtain ⟨_, _, _, _, _, _, _, ⟨accumulated, ev⟩, hshare, hq, _⟩ := h
  have hsettled := (settleIfReached_settles s accumulated r (requestVault s r)).accumulators
  rw [hq] at hsettled
  unfold accumulateFheShare at hshare
  split at hshare
  case isTrue hempty =>
    simp only [pure_ok, Prod.mk.injEq] at hshare
    obtain ⟨rfl, _⟩ := hshare
    exact .empty (List.eq_nil_of_length_eq_zero hempty) (congrFun hsettled.accumulator r)
      (congrFun hsettled.count r)
  case isFalse hne =>
    simp only [bind_ok, pure_ok, Prod.mk.injEq] at hshare
    obtain ⟨sum, hsum, rfl, _⟩ := hshare
    refine .added (fun hnil => hne (by rw [hnil, List.length_nil])) ?_ ?_
    · have hwritten : q.fheRequestAccumulator r = sum := by
        rw [hsettled.accumulator]
        exact Function.update_self ..
      rw [hwritten]
      exact hsum
    · rw [hsettled.count]
      exact Function.update_self ..

theorem accumulateFheShare_admits {guardian : Address} {payload sum : Bytes}
    (h : FHEEngine.fheAdd (q.fheRequestAccumulator r) payload = .ok sum) :
    ∃ out, accumulateFheShare q r guardian payload = .ok out := by
  unfold accumulateFheShare
  split
  · exact ⟨_, rfl⟩
  · exact ⟨_, (bind_ok _ _ _).mpr ⟨sum, h, rfl⟩⟩

theorem approveAccessFHE_admits {payload sum : Bytes}
    (h : ∃ out, approveAccessFHE chain env s r [] = .ok out)
    (hsum : FHEEngine.fheAdd (s.requests.fheRequestAccumulator r) payload = .ok sum) :
    ∃ out, approveAccessFHE chain env s r payload = .ok out := by
  obtain ⟨⟨⟨q, a⟩, logs⟩, h⟩ := h
  obtain ⟨accumulated, hshare⟩ := @accumulateFheShare_admits (recordApproval s.requests r env.sender) r env.sender payload
    sum hsum
  simp only [approveAccessFHE, ↓revertIf_bind, bind_ok, pure_ok, Prod.mk.injEq] at h ⊢
  obtain ⟨u, hpending, hself, hguardian, hflag, v, hkey, _⟩ := h
  exact ⟨_, u, hpending, hself, hguardian, hflag, v, hkey, accumulated, hshare, rfl⟩

theorem Steps.submits {i : Invocation} {s' : State L} (h : Steps chain nft s i s') (r : ℕ) :
    (fheSubmission r ⟨s, i, s'⟩ = none ∧
      s'.requests.fheRequestAccumulator r = s.requests.fheRequestAccumulator r ∧
        s'.requests.fheAccumulatorCount r = s.requests.fheAccumulatorCount r) ∨
    ∃ guardian payload, fheSubmission r ⟨s, i, s'⟩ = some (guardian, payload) ∧
      Submits s.requests s'.requests r payload := by
  cases h.effect with
  | accounts _ | keys _ | createVault _ _ | governance _ _ | release _ | emergency _ _ | addDocument _ _
  | documents _ | grants _ _ | mint _ _ | tokens _ | tokenReceived _ | randomWordsRequested _ =>
    exact .inl ⟨rfl, rfl, rfl⟩
  | requestAccess _ hbody =>
    simp only [requestAccess, ↓revertIf_bind, bind_ok, pure_ok, Prod.mk.injEq] at hbody
    obtain ⟨_, _, _, _, _, _, _, _, rfl, _⟩ := hbody
    exact .inl ⟨rfl, rfl, rfl⟩
  | @approval env c requests grants logs _ hbody =>
    by_cases hfhe : ∃ requestId payload, c = .approveAccessFHE requestId payload
    · obtain ⟨requestId, payload, rfl⟩ := hfhe
      by_cases hr : requestId = r
      · subst hr
        exact .inr ⟨env.sender, payload, if_pos rfl, approveAccessFHE_submits hbody⟩
      · exact .inl ⟨if_neg hr, approveAccessFHE_others hbody hr⟩
    · have hsame := execApproval_accumulators hbody fun requestId payload hc => hfhe ⟨requestId, payload, hc⟩
      refine .inl ⟨?_, congrFun hsame.accumulator r, congrFun hsame.count r⟩
      cases c with
      | approveAccessFHE requestId payload => exact absurd ⟨requestId, payload, rfl⟩ hfhe
      | _ => rfl

theorem Steps.accumulator {i : Invocation} {s' : State L} (h : Steps chain nft s i s') (r : ℕ) :
    ((fheSubmission r ⟨s, i, s'⟩).toList.map Prod.snd).foldlM FHEEngine.fheAdd
      (s.requests.fheRequestAccumulator r) = .ok (s'.requests.fheRequestAccumulator r) := by
  obtain ⟨hnone, hacc, _⟩ | ⟨guardian, payload, hsome, hsubmits⟩ := h.submits r
  · rw [hnone, hacc]
    rfl
  · simp only [hsome, Option.toList_some, List.map_cons, List.map_nil, List.foldlM_cons, List.foldlM_nil]
    have hadd : FHEEngine.fheAdd (s.requests.fheRequestAccumulator r) payload =
        .ok (s'.requests.fheRequestAccumulator r) := by
      cases hsubmits with
      | empty hempty hacc _ =>
        subst hempty
        rw [hacc]
        unfold FHEEngine.fheAdd
        split
        case isTrue hnil => rw [List.eq_nil_of_length_eq_zero hnil]
        case isFalse => rfl
      | added _ hadd _ => exact hadd
    rw [hadd]
    rfl

theorem accumulator_eq {hist : List (Transition (State L) Invocation)} (h : VaultRun chain nft hist s) (r : ℕ) :
    ((submissions r hist).map Prod.snd).foldlM FHEEngine.fheAdd [] =
      .ok (s.requests.fheRequestAccumulator r) := by
  refine h.relates (R := fun hist s => ((submissions r hist).map Prod.snd).foldlM FHEEngine.fheAdd [] =
    .ok (s.requests.fheRequestAccumulator r)) ?_ ?_
  · rintro s ⟨deployer, rfl⟩
    rfl
  · intro hist s i s' _ ih hstep
    have hsplit : submissions r (⟨s, i, s'⟩ :: hist) = submissions r hist ++ (fheSubmission r ⟨s, i, s'⟩).toList := by
      unfold submissions
      cases hsub : fheSubmission r ⟨s, i, s'⟩ with
      | none => rw [List.filterMap_cons_none hsub]; simp
      | some b => rw [List.filterMap_cons_some hsub]; simp
    rw [hsplit, List.map_append, List.foldlM_append, ih]
    exact hstep.accumulator r

end ChainGuard.Evm
