import ChainGuard.OffChain.OpaqueKeyring

/-! What a step of the keyring server does to its tables, to the requests that wait and to the store. -/
namespace ChainGuard.OffChain.OpaqueKeyring
open Methods History
set_option autoImplicit false

variable {cfg : Config} {s s' : Server} {e : Event} {now : ℕ} {random account : JsString} {t t' : Tables}

/-! ## Tables -/

structure Tables.Shrinks (t t' : Tables) : Prop where
  logins : ∀ id login, t'.logins id = some login → t.logins id = some login
  tokens : ∀ token entry, t'.managementTokens token = some entry → t.managementTokens token = some entry

theorem Tables.Shrinks.refl (t : Tables) : t.Shrinks t := ⟨fun _ _ h => h, fun _ _ h => h⟩

theorem Tables.Shrinks.trans (t t' t'' : Tables) (h : t.Shrinks t') (h' : t'.Shrinks t'') : t.Shrinks t'' :=
  ⟨fun id login hl => h.logins id login (h'.logins id login hl),
    fun token entry he => h.tokens token entry (h'.tokens token entry he)⟩

theorem unexpired_shrinks (now : ℕ) (t : Tables) : t.Shrinks (t.unexpired now) :=
  ⟨fun _ _ h => (Option.filter_eq_some_iff.mp h).1, fun _ _ h => (Option.filter_eq_some_iff.mp h).1⟩

theorem withoutTokensOf_shrinks (account : JsString) (t : Tables) : t.Shrinks (t.withoutTokensOf account) :=
  ⟨fun _ _ h => h, fun _ _ h => (Option.filter_eq_some_iff.mp h).1⟩

theorem withoutTokensOf_account {token : JsString} {entry : ManagementToken}
    (h : (t.withoutTokensOf account).managementTokens token = some entry) : entry.account ≠ account :=
  of_decide_eq_true (Option.filter_eq_some_iff.mp h).2

theorem setLogin_none_shrinks (id : JsString) (t : Tables) : t.Shrinks (t.setLogin id none) := by
  refine ⟨fun id' login h => ?_, fun _ _ h => h⟩
  by_cases hsame : id' = id
  · subst hsame
    rw [Tables.setLogin_logins, Function.update_self] at h
    cases h
  · rwa [Tables.setLogin_logins, Function.update_of_ne hsame] at h

theorem setAttempts_shrinks (account : JsString) (value : Option Attempts) (t : Tables) :
    t.Shrinks (t.setAttempts account value) := ⟨fun _ _ h => h, fun _ _ h => h⟩

theorem setToken_tokens {token token' : JsString} {entry entry' : ManagementToken}
    (h : (t.setToken token entry).managementTokens token' = some entry') :
    (token' = token ∧ entry' = entry) ∨ t.managementTokens token' = some entry' := by
  by_cases hsame : token' = token
  · subst hsame
    rw [Tables.setToken_managementTokens, Function.update_self, Option.some.injEq] at h
    exact .inl ⟨rfl, h.symm⟩
  · rw [Tables.setToken_managementTokens, Function.update_of_ne hsame] at h
    exact .inr h

theorem normalizeAccount_shrinks (account : Field) : Within Tables.Shrinks (normalizeAccount cfg account) :=
  .bind Tables.Shrinks.trans (.throwIf .refl _ _) fun _ => .pure .refl _

theorem validateOpaqueValue_shrinks (value : Field) (field : String) (maxLength : ℕ) :
    Within Tables.Shrinks (validateOpaqueValue value field maxLength) :=
  .bind Tables.Shrinks.trans (.orThrow .refl _ _) fun _ =>
    .bind Tables.Shrinks.trans (.throwIf .refl _ _) fun _ => .pure .refl _

theorem validateOpaqueValue_returns {value : Field} {field : String} {maxLength : ℕ} {v : JsString}
    (h : call (validateOpaqueValue value field maxLength) t = (.ok v, t')) : value = some v ∧ t = t' := by
  simp only [validateOpaqueValue, bind_returns, orThrow_returns, throwIf_returns, call_pure, Prod.mk.injEq,
    Except.ok.injEq] at h
  obtain ⟨_, _, ⟨hvalue, rfl⟩, _, _, ⟨_, rfl⟩, rfl, rfl⟩ := h
  exact ⟨hvalue, rfl⟩

theorem authorizeManagement_shrinks (now : ℕ) (account : JsString) (token : Field) :
    Within Tables.Shrinks (authorizeManagement now account token) :=
  .bind Tables.Shrinks.trans (.modify (unexpired_shrinks now)) fun _ =>
    .bind Tables.Shrinks.trans (.get .refl) fun _ => .pure .refl _

theorem consumeAttempt_shrinks (now : ℕ) (account : JsString) :
    Within Tables.Shrinks (consumeAttempt cfg now account) := by
  refine .bind Tables.Shrinks.trans (.modify (unexpired_shrinks now)) fun _ =>
    .bind Tables.Shrinks.trans (.get .refl) fun t => ?_
  split
  · exact .modify (setAttempts_shrinks _ _)
  · exact .bind Tables.Shrinks.trans (.throwIf .refl _ _) fun _ => .modify (setAttempts_shrinks _ _)

/-! ## Tokens -/

structure Accepted (t : Tables) (now : ℕ) (account token : JsString) (entry : ManagementToken) : Prop where
  found : t.managementTokens token = some entry
  account_eq : entry.account = account
  unexpired : now < entry.expiresAt

inductive Issues (cfg : Config) (s : Server) : Event → JsString → ManagementToken → Prop
  /-- At the end of the registration that stored the credential. -/
  | registration {id now : ℕ} {random account : JsString}
      (h : s.pending id = some (.registrationStored account)) :
      Issues cfg s (.resume id now random) random
        { account, expiresAt := now + cfg.tokenTtlMs, issuedFor := some id }
  /-- By a login whose proof verifies. -/
  | login {loginId request random : JsString} {now : ℕ} {login : Login}
      (hfound : s.tables.logins loginId = some login) (hunexpired : now < login.expiresAt)
      (hproof : cfg.finishLogin request login.serverLoginState login.account = true) :
      Issues cfg s (.call (.finishLogin (some loginId) (some request)) now random) random
        { account := login.account, expiresAt := now + cfg.tokenTtlMs
          issuedFor := login.credential.map (·.storedBy) }

def Login.Started (cfg : Config) (login : Login) : Prop :=
  ∃ request response, cfg.startLogin (login.credential.map (·.registrationRecord)) request login.account =
    some (login.serverLoginState, response)

/-- The event is the last piece of a request that wrote the account's credential. -/
def Ends (s : Server) (e : Event) (account : JsString) : Prop :=
  ∃ id now random, e = .resume id now random ∧
    (s.pending id = some (.registrationStored account) ∨ s.pending id = some (.deletionStored account))

/-- What the tables hold after an event, besides some of what they held. -/
structure TablesAfter (cfg : Config) (s : Server) (e : Event) (t' : Tables) : Prop where
  tokens : ∀ token entry, t'.managementTokens token = some entry →
    s.tables.managementTokens token = some entry ∨ Issues cfg s e token entry
  logins : ∀ id login, t'.logins id = some login → s.tables.logins id = some login ∨ login.Started cfg
  revoked : ∀ account, Ends s e account → ∀ token entry, t'.managementTokens token = some entry →
    entry.account = account → Issues cfg s e token entry

theorem authorizeManagement_returns {token : Field} {entry : ManagementToken}
    (h : call (authorizeManagement now account token) t = (.ok (some entry), t')) :
    ∃ token', token = some token' ∧ Accepted t now account token' entry := by
  simp only [authorizeManagement, cleanup, bind_returns, call_modify, call_get, call_pure, Prod.mk.injEq,
    Except.ok.injEq, Option.bind_eq_some_iff, Option.filter_eq_some_iff, Bool.decide_and, Bool.and_eq_true,
    decide_eq_true_eq] at h
  obtain ⟨_, _, ⟨_, rfl⟩, _, _, ⟨rfl, rfl⟩, ⟨token', htoken, hfound, haccount, hunexpired⟩, _⟩ := h
  exact ⟨token', htoken, (Option.filter_eq_some_iff.mp hfound).1, haccount, hunexpired⟩

theorem Tables.Shrinks.after (h : s.tables.Shrinks t') (hend : ∀ account, ¬ Ends s e account) :
    TablesAfter cfg s e t' :=
  ⟨fun token entry he => .inl (h.tokens token entry he), fun id login hl => .inl (h.logins id login hl),
    fun account hends => absurd hends (hend account)⟩

theorem not_ends_call {request : Request} (account : JsString) : ¬ Ends s (.call request now random) account := by
  rintro ⟨_, _, _, h, _⟩
  cases h

theorem validateOpaqueValue_throws {value : Field} {field : String} {maxLength : ℕ} {failure : Failure}
    (h : call (validateOpaqueValue value field maxLength) t = (.error failure, t')) : t.Shrinks t' := by
  have hshrinks := validateOpaqueValue_shrinks value field maxLength t
  rwa [h] at hshrinks

theorem finishLogin_after {loginId finishLoginRequest : Field} :
    TablesAfter cfg s (.call (.finishLogin loginId finishLoginRequest) now random)
      (call (finishLogin cfg now random loginId finishLoginRequest) s.tables).2 := by
  have hshrink : ∀ t', s.tables.Shrinks t' →
      TablesAfter cfg s (.call (.finishLogin loginId finishLoginRequest) now random) t' :=
    fun t' h => h.after fun account => not_ends_call account
  refine bind_writes (fun _ _ h => hshrink _ (validateOpaqueValue_throws h)) ?_
  intro loginId mid hid
  obtain ⟨rfl, rfl⟩ := validateOpaqueValue_returns hid
  refine bind_writes (fun _ _ h => hshrink _ (validateOpaqueValue_throws h)) ?_
  intro request mid hrequest
  obtain ⟨rfl, rfl⟩ := validateOpaqueValue_returns hrequest
  simp only [cleanup, call_bind, call_modify, call_get]
  have hdeleted : s.tables.Shrinks ((s.tables.unexpired now).setLogin loginId none) :=
    (unexpired_shrinks now _).trans _ _ _ (setLogin_none_shrinks loginId _)
  cases hlogin : (s.tables.unexpired now).logins loginId with
  | none => exact hshrink _ hdeleted
  | some login =>
    obtain ⟨hfound, hunexpired⟩ := Option.filter_eq_some_iff.mp hlogin
    have hlive : ¬ login.expiresAt ≤ now := not_le.mpr (of_decide_eq_true hunexpired)
    simp only [orThrow, call_pure, throwIf, if_neg hlive]
    cases hproof : cfg.finishLogin request login.serverLoginState login.account with
    | false => exact hshrink _ hdeleted
    | true =>
      simp only [reduceCtorEq, if_false, call_pure, issueManagementToken, cleanup, call_bind, call_modify]
      have hrest := (hdeleted.trans _ _ _ (setAttempts_shrinks login.account none _)).trans _ _ _
        (unexpired_shrinks now _)
      refine ⟨fun token entry hentry => ?_, fun id login hlogin => .inl (hrest.logins id login hlogin),
        fun account hends => absurd hends (not_ends_call account)⟩
      rcases setToken_tokens hentry with ⟨rfl, rfl⟩ | hold
      · exact .inr (.login hfound (of_decide_eq_true hunexpired) hproof)
      · exact .inl (hrest.tokens token entry hold)

theorem begin_after (request : Request) :
    TablesAfter cfg s (.call request now random) (call (begin cfg s now random request) s.tables).2 := by
  have hshrink : ∀ {x : Handler Outcome}, Within Tables.Shrinks x →
      TablesAfter cfg s (.call request now random) (call x s.tables).2 :=
    fun h => (h s.tables).after fun account => not_ends_call account
  cases request with
  | startRegistration account registrationRequest =>
    exact hshrink (.bind Tables.Shrinks.trans (normalizeAccount_shrinks _) fun _ =>
      .bind Tables.Shrinks.trans (validateOpaqueValue_shrinks _ _ _) fun _ =>
      .bind Tables.Shrinks.trans (.orThrow .refl _ _) fun _ => .pure .refl _)
  | finishRegistration account registrationRecord managementToken =>
    exact hshrink (.bind Tables.Shrinks.trans (normalizeAccount_shrinks _) fun _ =>
      .bind Tables.Shrinks.trans (validateOpaqueValue_shrinks _ _ _) fun _ => .pure .refl _)
  | startLogin account startLoginRequest =>
    exact hshrink (.bind Tables.Shrinks.trans (normalizeAccount_shrinks _) fun _ =>
      .bind Tables.Shrinks.trans (validateOpaqueValue_shrinks _ _ _) fun _ =>
      .bind Tables.Shrinks.trans (consumeAttempt_shrinks _ _) fun _ => .pure .refl _)
  | finishLogin loginId finishLoginRequest => exact finishLogin_after
  | deleteCredential account managementToken =>
    exact hshrink (.bind Tables.Shrinks.trans (normalizeAccount_shrinks _) fun _ =>
      .bind Tables.Shrinks.trans (authorizeManagement_shrinks _ _ _) fun _ =>
      .bind Tables.Shrinks.trans (.orThrow .refl _ _) fun _ => .pure .refl _)

theorem checkRegistration_shrinks (record : JsString) (token : Field) (existing : Option Credential)
    (stored : Option ℕ) :
    Within Tables.Shrinks (checkRegistration now account record token existing stored) := by
  cases existing with
  | none => exact .pure .refl _
  | some _ =>
    exact .bind Tables.Shrinks.trans (authorizeManagement_shrinks _ _ _) fun _ =>
      .bind Tables.Shrinks.trans (.orThrow .refl _ _) fun _ => .pure .refl _

theorem not_ends_of_pending {id : ℕ} {p : Pending} (hp : s.pending id = some p)
    (h : ∀ account, p ≠ .registrationStored account ∧ p ≠ .deletionStored account) (account : JsString) :
    ¬ Ends s (.resume id now random) account := by
  rintro ⟨_, _, _, heq, hends⟩
  cases heq
  rw [hp, Option.some.injEq, Option.some.injEq] at hends
  exact hends.elim (h account).1 (h account).2

theorem Ends.account_eq {id : ℕ} {account' : JsString} (h : Ends s (.resume id now random) account')
    (hp : s.pending id = some (.registrationStored account) ∨ s.pending id = some (.deletionStored account)) :
    account' = account := by
  obtain ⟨_, _, _, heq, hends⟩ := h
  cases heq
  rcases hp with hp | hp
  · simpa [hp, eq_comm] using hends
  · simpa [hp, eq_comm] using hends

theorem advance_after {id : ℕ} {p : Pending} (hp : s.pending id = some p) :
    TablesAfter cfg s (.resume id now random) (call (advance cfg s id now random p) s.tables).2 := by
  cases p with
  | registrationReading | registrationWriting | loginReading | deletionWriting =>
    exact (Tables.Shrinks.refl _).after (not_ends_of_pending hp (by simp))
  | registrationChecking account record token existing =>
    exact (checkRegistration_shrinks _ _ _ _ _).after (not_ends_of_pending hp (by simp))
  | registrationStored account =>
    have hrest := (withoutTokensOf_shrinks account s.tables).trans _ _ _ (unexpired_shrinks now _)
    simp only [advance, endRegistration, revokeManagementTokens, issueManagementToken, cleanup, call_bind,
      call_modify, call_pure]
    have hissued : Issues cfg s (.resume id now random) random
        { account, expiresAt := now + cfg.tokenTtlMs, issuedFor := some id } := .registration hp
    refine ⟨fun token entry hentry => ?_, fun id login hlogin => .inl (hrest.logins id login hlogin),
      fun account' hends token entry hentry haccount => ?_⟩
    · rcases setToken_tokens hentry with ⟨rfl, rfl⟩ | hold
      · exact .inr hissued
      · exact .inl (hrest.tokens token entry hold)
    · rcases setToken_tokens hentry with ⟨rfl, rfl⟩ | hold
      · exact hissued
      · have hkept := (unexpired_shrinks now _).tokens token entry hold
        have haccount' : account' = account := hends.account_eq (.inl hp)
        exact absurd (haccount.trans haccount') (withoutTokensOf_account hkept)
  | loginStarting account startLoginRequest credential =>
    simp only [advance, openLogin, call_bind]
    cases hstart : cfg.startLogin (credential.map (·.registrationRecord)) startLoginRequest account with
    | none => exact (Tables.Shrinks.refl _).after (not_ends_of_pending hp (by simp))
    | some started =>
      simp only [orThrow, call_pure, call_modify]
      refine ⟨fun token entry hentry => .inl hentry, fun id' login hlogin => ?_,
        fun account hends => absurd hends (not_ends_of_pending hp (by simp) account)⟩
      by_cases hsame : id' = random
      · rw [hsame, Tables.setLogin_logins, Function.update_self, Option.some.injEq] at hlogin
        subst hlogin
        exact .inr ⟨startLoginRequest, started.2, hstart⟩
      · rw [Tables.setLogin_logins, Function.update_of_ne hsame] at hlogin
        exact .inl hlogin
  | deletionStored account =>
    have hrest := withoutTokensOf_shrinks account s.tables
    refine ⟨fun token entry hentry => .inl (hrest.tokens token entry hentry),
      fun id login hlogin => .inl (hrest.logins id login hlogin),
      fun account' hends token entry hentry haccount => ?_⟩
    have haccount' : account' = account := hends.account_eq (.inr hp)
    exact absurd (haccount.trans haccount') (withoutTokensOf_account hentry)

/-! ## Waiting requests -/

inductive Waits (cfg : Config) (s : Server) : Event → Pending → Prop
  | registration {request : Request} {now : ℕ} {random account record : JsString} {token : Field} :
      Waits cfg s (.call request now random) (.registrationReading account record token)
  | login {request : Request} {now : ℕ} {random account startLoginRequest : JsString} :
      Waits cfg s (.call request now random) (.loginReading account startLoginRequest)
  | deletion {account : Field} {token random : JsString} {now : ℕ} {entry : ManagementToken}
      (h : Accepted s.tables now ((account.map cfg.trimLower).getD []) token entry) :
      Waits cfg s (.call (.deleteCredential account (some token)) now random)
        (.deletionWriting ((account.map cfg.trimLower).getD []) entry
          (s.stored ((account.map cfg.trimLower).getD [])))
  | registrationRead {id now : ℕ} {random account record : JsString} {token : Field}
      (hp : s.pending id = some (.registrationReading account record token)) :
      Waits cfg s (.resume id now random) (.registrationChecking account record token (s.store account))
  | unopposed {id now : ℕ} {random account record : JsString} {token : Field}
      (hp : s.pending id = some (.registrationChecking account record token none)) :
      Waits cfg s (.resume id now random) (.registrationWriting account record none none)
  | authorized {id now : ℕ} {random account record token : JsString} {existing : Credential}
      {entry : ManagementToken}
      (hp : s.pending id = some (.registrationChecking account record (some token) (some existing)))
      (h : Accepted s.tables now account token entry) :
      Waits cfg s (.resume id now random) (.registrationWriting account record (some entry) (s.stored account))
  | registered {id now : ℕ} {random account record : JsString} {authority : Option ManagementToken}
      {seen : Option ℕ} (hp : s.pending id = some (.registrationWriting account record authority seen)) :
      Waits cfg s (.resume id now random) (.registrationStored account)
  | loginRead {id now : ℕ} {random account startLoginRequest : JsString}
      (hp : s.pending id = some (.loginReading account startLoginRequest)) :
      Waits cfg s (.resume id now random) (.loginStarting account startLoginRequest (s.store account))
  | removed {id now : ℕ} {random account : JsString} {authority : ManagementToken} {seen : Option ℕ}
      (hp : s.pending id = some (.deletionWriting account authority seen)) :
      Waits cfg s (.resume id now random) (.deletionStored account)

theorem begin_waits {request : Request} {p : Pending}
    (h : call (begin cfg s now random request) s.tables = (.ok (.inl p), t')) :
    Waits cfg s (.call request now random) p := by
  cases request with
  | startRegistration account registrationRequest =>
    simp only [begin, startRegistration, bind_returns, call_pure, Prod.mk.injEq, Except.ok.injEq, reduceCtorEq, false_and,
      and_false, exists_false] at h
  | finishRegistration account registrationRecord managementToken =>
    simp only [begin, finishRegistration, bind_returns, call_pure, Prod.mk.injEq, Except.ok.injEq,
      Sum.inl.injEq] at h
    obtain ⟨_, _, _, _, _, _, rfl, _⟩ := h
    exact .registration
  | startLogin account startLoginRequest =>
    simp only [begin, startLogin, bind_returns, call_pure, Prod.mk.injEq, Except.ok.injEq,
      Sum.inl.injEq] at h
    obtain ⟨_, _, _, _, _, _, _, _, _, rfl, _⟩ := h
    exact .login
  | finishLogin loginId finishLoginRequest =>
    simp only [begin, finishLogin, bind_returns, call_pure, Prod.mk.injEq, Except.ok.injEq, reduceCtorEq, false_and,
      and_false, exists_false] at h
  | deleteCredential account managementToken =>
    simp only [begin, deleteCredential, normalizeAccount, bind_returns, throwIf_returns, orThrow_returns,
      call_pure, Prod.mk.injEq, Except.ok.injEq, Sum.inl.injEq] at h
    obtain ⟨_, _, ⟨_, _, ⟨_, rfl⟩, rfl, rfl⟩, found, _, hfound, entry, _, ⟨rfl, rfl⟩, rfl, _⟩ := h
    obtain ⟨token, rfl, haccepted⟩ := authorizeManagement_returns hfound
    exact .deletion haccepted

theorem advance_waits {id : ℕ} {p p' : Pending} (hp : s.pending id = some p)
    (h : call (advance cfg s id now random p) s.tables = (.ok (.inl p'), t')) :
    Waits cfg s (.resume id now random) p' := by
  cases p with
  | registrationReading account record token =>
    simp only [advance, call_pure, Prod.mk.injEq, Except.ok.injEq, Sum.inl.injEq] at h
    obtain ⟨rfl, _⟩ := h
    exact .registrationRead hp
  | registrationChecking account record token existing =>
    cases existing with
    | none =>
      simp only [advance, checkRegistration, call_pure, Prod.mk.injEq, Except.ok.injEq, Sum.inl.injEq] at h
      obtain ⟨rfl, _⟩ := h
      exact .unopposed hp
    | some existing =>
      simp only [advance, checkRegistration, bind_returns, orThrow_returns, call_pure, Prod.mk.injEq,
        Except.ok.injEq, Sum.inl.injEq] at h
      obtain ⟨found, _, hfound, entry, _, ⟨rfl, rfl⟩, rfl, _⟩ := h
      obtain ⟨token, rfl, haccepted⟩ := authorizeManagement_returns hfound
      exact .authorized hp haccepted
  | registrationWriting account record authority seen =>
    simp only [advance, call_pure, Prod.mk.injEq, Except.ok.injEq, Sum.inl.injEq] at h
    obtain ⟨rfl, _⟩ := h
    exact .registered hp
  | registrationStored account =>
    simp only [advance, endRegistration, bind_returns, call_pure, Prod.mk.injEq, Except.ok.injEq, reduceCtorEq, false_and,
      and_false, exists_false] at h
  | loginReading account startLoginRequest =>
    simp only [advance, call_pure, Prod.mk.injEq, Except.ok.injEq, Sum.inl.injEq] at h
    obtain ⟨rfl, _⟩ := h
    exact .loginRead hp
  | loginStarting account startLoginRequest credential =>
    simp only [advance, openLogin, bind_returns, call_pure, Prod.mk.injEq, Except.ok.injEq, reduceCtorEq, false_and,
      and_false, exists_false] at h
  | deletionWriting account authority seen =>
    simp only [advance, call_pure, Prod.mk.injEq, Except.ok.injEq, Sum.inl.injEq] at h
    obtain ⟨rfl, _⟩ := h
    exact .removed hp
  | deletionStored account =>
    simp only [advance, endDeletion, bind_returns, call_pure, Prod.mk.injEq, Except.ok.injEq, reduceCtorEq, false_and,
      and_false, exists_false] at h

/-! ## Steps -/

/-- Where a request waits once it has written. -/
def Pending.stored : Pending → Option Pending
  | .registrationWriting account _ _ _ => some (.registrationStored account)
  | .deletionWriting account _ _ => some (.deletionStored account)
  | _ => none

def Event.request (s : Server) : Event → ℕ
  | .call _ _ _ => s.next
  | .resume id _ _ => id

def written (s : Server) : Event → JsString → Option Credential
  | .call _ _ _ => s.store
  | .resume id _ _ => (s.pending id).elim s.store (write s id)

structure After (cfg : Config) (s : Server) (e : Event) (s' : Server) : Prop where
  tables : TablesAfter cfg s e s'.tables
  store : s'.store = written s e
  pending : ∃ p, s'.pending = Function.update s.pending (e.request s) p ∧ ∀ p' ∈ p, Waits cfg s e p'
  next_le : s.next ≤ s'.next
  request_lt : s'.pending (e.request s) ≠ none → s.pending (e.request s) = none → e.request s < s'.next
  stored_next : ∀ id now random p, e = .resume id now random → s.pending id = some p → ∀ p', p.stored = some p' →
    s'.pending id = some p'

theorem settle_tables (id : ℕ) (result : Except Failure Outcome × Tables) :
    (settle s id result).1.tables = result.2 := by
  unfold settle
  split
  · rfl
  · rfl
  · rfl

theorem settle_store (id : ℕ) (result : Except Failure Outcome × Tables) :
    (settle s id result).1.store = s.store := by
  unfold settle
  split
  · rfl
  · rfl
  · rfl

theorem settle_next (id : ℕ) (result : Except Failure Outcome × Tables) :
    (settle s id result).1.next = s.next := by
  unfold settle
  split
  · rfl
  · rfl
  · rfl

theorem settle_pending (id : ℕ) (result : Except Failure Outcome × Tables) :
    ∃ p, (settle s id result).1.pending = Function.update s.pending id p ∧
      ∀ p' ∈ p, result.1 = .ok (.inl p') := by
  unfold settle
  split
  · next p hp => exact ⟨some p, rfl, fun p' h => by rw [hp, Option.mem_some.mp h]⟩
  · exact ⟨none, rfl, fun p' h => by cases h⟩
  · exact ⟨none, rfl, fun p' h => by cases h⟩

theorem Steps.after (h : Steps cfg s e s') : After cfg s e s' := by
  cases e with
  | call request now random =>
    subst h
    refine ⟨?_, settle_store _ _, ?_, ?_, ?_, fun _ _ _ _ heq => by cases heq⟩
    · rw [exec, settle_tables]
      exact begin_after request
    · obtain ⟨p, hpending, hp⟩ := settle_pending (s := { s with next := s.next + 1 }) s.next
        (call (begin cfg s now random request) s.tables)
      refine ⟨p, hpending, fun p' hmem => begin_waits (Prod.ext (hp p' hmem) rfl)⟩
    · rw [exec, settle_next]
      exact Nat.le_succ _
    · intro _ _
      rw [exec, settle_next]
      exact Nat.lt_succ_self _
  | resume id now random =>
    cases hp : s.pending id with
    | none =>
      obtain rfl : s = s' := by simpa [Steps, exec, hp] using h
      refine ⟨(Tables.Shrinks.refl _).after ?_, ?_, ⟨none, ?_, fun p' hmem => by cases hmem⟩, le_refl _, ?_, ?_⟩
      · rintro account ⟨_, _, _, heq, hends⟩
        cases heq
        simp [hp] at hends
      · simp [written, hp]
      · exact (Function.update_eq_self_iff.mpr hp.symm).symm
      · exact fun hsome _ => absurd hp hsome
      · rintro _ _ _ p heq hsome
        cases heq
        rw [hp] at hsome
        cases hsome
    | some p =>
      have hs' : (settle { s with store := write s id p } id
          (call (advance cfg s id now random p) s.tables)).1 = s' := by simpa [Steps, exec, hp] using h
      subst hs'
      refine ⟨?_, ?_, ?_, ?_, ?_, ?_⟩
      · rw [settle_tables]
        exact advance_after hp
      · rw [settle_store]
        simp [written, hp]
      · obtain ⟨p', hpending, hp'⟩ := settle_pending (s := { s with store := write s id p }) id
          (call (advance cfg s id now random p) s.tables)
        exact ⟨p', hpending, fun p'' hmem => advance_waits hp (Prod.ext (hp' p'' hmem) rfl)⟩
      · rw [settle_next]
      · intro _ hnone
        simp [Event.request, hp] at hnone
      · rintro _ _ _ p' heq hsome p'' hstored
        cases heq
        obtain rfl : p = p' := Option.some.inj (hp.symm.trans hsome)
        cases p with
        | registrationWriting | deletionWriting =>
          obtain rfl := Option.some.inj hstored
          exact Function.update_self ..
        | _ => cases hstored

end ChainGuard.OffChain.OpaqueKeyring
