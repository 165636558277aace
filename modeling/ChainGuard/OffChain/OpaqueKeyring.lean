import ChainGuard.Library.History
import ChainGuard.Library.Methods
import ChainGuard.OffChain.Js

/-! The OPAQUE keyring protocol of `createOpaqueKeyringProtocol`. A request runs in pieces, cut at its
awaits on the store, and the pieces of different requests interleave. -/
namespace ChainGuard.OffChain.OpaqueKeyring
open Methods History
set_option autoImplicit false

def DEFAULT_SESSION_TTL_MS : ℕ := 60000
def DEFAULT_TOKEN_TTL_MS : ℕ := 15 * 60000
def DEFAULT_RATE_LIMIT_WINDOW_MS : ℕ := 60000
def DEFAULT_RATE_LIMIT_ATTEMPTS : ℕ := 5

/-- The library `@serenity-kit/opaque` under the server's setup, the string functions, and the limits. -/
structure Config where
  /-- `account.trim().toLowerCase()` -/
  trimLower : JsString → JsString
  /-- From `userIdentifier` and `registrationRequest`, unless it throws. -/
  createRegistrationResponse : JsString → JsString → Option JsString
  /-- From `registrationRecord`, `startLoginRequest` and `userIdentifier`: the `serverLoginState` and the
  `loginResponse`. -/
  startLogin : Option JsString → JsString → JsString → Option (JsString × JsString)
  /-- From `finishLoginRequest`, `serverLoginState` and the client's identifier: whether it returns. -/
  finishLogin : JsString → JsString → JsString → Bool
  sessionTtlMs : ℕ := DEFAULT_SESSION_TTL_MS
  tokenTtlMs : ℕ := DEFAULT_TOKEN_TTL_MS
  rateLimitWindowMs : ℕ := DEFAULT_RATE_LIMIT_WINDOW_MS
  rateLimitAttempts : ℕ := DEFAULT_RATE_LIMIT_ATTEMPTS

/-- What a request throws. -/
inductive Failure
  | api (status : ℕ) (code message : String)
  /-- By the library. -/
  | opaqueLibrary
  deriving DecidableEq

/-! ## Tables -/

/-- The record, and the request that stored it, by which credentials are told apart here. -/
structure Credential where
  registrationRecord : JsString
  storedBy : ℕ
  deriving DecidableEq

/-- A login under way; the credential that it was started with is kept for the statements only. -/
structure Login where
  account : JsString
  serverLoginState : JsString
  expiresAt : ℕ
  credential : Option Credential
  deriving DecidableEq

/-- A token; the credential it was issued for, by the request that stored it, is kept for the
statements only. -/
structure ManagementToken where
  account : JsString
  expiresAt : ℕ
  issuedFor : Option ℕ
  deriving DecidableEq

structure Attempts where
  count : ℕ
  resetAt : ℕ
  deriving DecidableEq

structure Tables where
  logins : JsString → Option Login := fun _ => none
  managementTokens : JsString → Option ManagementToken := fun _ => none
  attempts : JsString → Option Attempts := fun _ => none

abbrev Handler (α : Type) := Method Tables Failure α

/-! ## Validation -/

/-- `/[a-zA-Z0-9:._-]/` -/
def isAccountChar (c : UInt16) : Bool :=
  (97 ≤ c && c ≤ 122) || (65 ≤ c && c ≤ 90) || (48 ≤ c && c ≤ 57) || c == 58 || c == 46 || c == 95 || c == 45

/-- `/[A-Za-z0-9_-]/` -/
def isOpaqueChar (c : UInt16) : Bool :=
  (97 ≤ c && c ≤ 122) || (65 ≤ c && c ≤ 90) || (48 ≤ c && c ≤ 57) || c == 95 || c == 45

/-- A field of a request, `none` when it is not a string. -/
abbrev Field := Option JsString

def normalizeAccount (cfg : Config) (account : Field) : Handler JsString := do
  let normalized := (account.map cfg.trimLower).getD []
  throwIf (¬ (3 ≤ normalized.length ∧ normalized.length ≤ 128 ∧ normalized.all isAccountChar = true))
    (.api 400 "INVALID_ACCOUNT" "Invalid account")
  return normalized

def validateOpaqueValue (value : Field) (field : String) (maxLength : ℕ) : Handler JsString := do
  let value ← orThrow value (.api 400 "INVALID_OPAQUE_MESSAGE" ("Invalid " ++ field))
  throwIf (value.length < 16 ∨ maxLength < value.length ∨ value.all isOpaqueChar = false)
    (.api 400 "INVALID_OPAQUE_MESSAGE" ("Invalid " ++ field))
  return value

/-! ## Tokens and attempts -/

def Tables.unexpired (now : ℕ) (t : Tables) : Tables where
  logins id := (t.logins id).filter fun value => now < value.expiresAt
  managementTokens token := (t.managementTokens token).filter fun value => now < value.expiresAt
  attempts account := (t.attempts account).filter fun value => now < value.resetAt

def Tables.setToken (token : JsString) (entry : ManagementToken) (t : Tables) : Tables :=
  { t with managementTokens := Function.update t.managementTokens token (some entry) }

def Tables.withoutTokensOf (account : JsString) (t : Tables) : Tables :=
  { t with
    managementTokens := fun token => (t.managementTokens token).filter fun value => value.account ≠ account }

def Tables.setLogin (id : JsString) (login : Option Login) (t : Tables) : Tables :=
  { t with logins := Function.update t.logins id login }

def Tables.setAttempts (account : JsString) (value : Option Attempts) (t : Tables) : Tables :=
  { t with attempts := Function.update t.attempts account value }

section Fields
variable (t : Tables) (id token account : JsString) (login : Option Login) (entry : ManagementToken)
  (value : Option Attempts)

@[simp] theorem Tables.setToken_logins : (t.setToken token entry).logins = t.logins := rfl
@[simp] theorem Tables.setToken_managementTokens :
    (t.setToken token entry).managementTokens = Function.update t.managementTokens token (some entry) := rfl
@[simp] theorem Tables.setLogin_logins : (t.setLogin id login).logins = Function.update t.logins id login := rfl
@[simp] theorem Tables.setLogin_managementTokens :
    (t.setLogin id login).managementTokens = t.managementTokens := rfl
@[simp] theorem Tables.withoutTokensOf_logins : (t.withoutTokensOf account).logins = t.logins := rfl
@[simp] theorem Tables.setAttempts_logins : (t.setAttempts account value).logins = t.logins := rfl
@[simp] theorem Tables.setAttempts_managementTokens :
    (t.setAttempts account value).managementTokens = t.managementTokens := rfl

end Fields

def cleanup (now : ℕ) : Handler Unit := modify (Tables.unexpired now)

/-- `token` is the fresh `tokenValue()`. -/
def issueManagementToken (cfg : Config) (now : ℕ) (token account : JsString) (issuedFor : Option ℕ) :
    Handler JsString := do
  cleanup now
  modify (Tables.setToken token { account, expiresAt := now + cfg.tokenTtlMs, issuedFor })
  return token

def revokeManagementTokens (account : JsString) : Handler Unit := modify (Tables.withoutTokensOf account)

/-- `authorizeManagement`: the entry that the loop stops at. -/
def authorizeManagement (now : ℕ) (account : JsString) (token : Field) : Handler (Option ManagementToken) := do
  cleanup now
  let t ← get
  return token.bind fun token =>
    (t.managementTokens token).filter fun value => value.account = account ∧ now < value.expiresAt

def consumeAttempt (cfg : Config) (now : ℕ) (account : JsString) : Handler Unit := do
  cleanup now
  match ((← get).attempts account).filter fun current => now < current.resetAt with
  | none => modify (Tables.setAttempts account (some { count := 1, resetAt := now + cfg.rateLimitWindowMs }))
  | some current =>
    throwIf (cfg.rateLimitAttempts ≤ current.count)
      (.api 429 "OPAQUE_RATE_LIMITED" "Too many OPAQUE login attempts")
    modify (Tables.setAttempts account (some { current with count := current.count + 1 }))

/-! ## Requests -/

inductive Request
  | startRegistration (account registrationRequest : Field)
  | finishRegistration (account registrationRecord managementToken : Field)
  | startLogin (account startLoginRequest : Field)
  | finishLogin (loginId finishLoginRequest : Field)
  | deleteCredential (account managementToken : Field)

inductive Response
  | registrationResponse (value : JsString)
  | managementToken (token : JsString)
  | login (loginId loginResponse : JsString)
  | deleted
  deriving DecidableEq

/-- Where a request waits for the store, with its variables. Of a request that was let through: the
token that let it through, and the stored credential that it was let through for. -/
inductive Pending
  /-- `store.get` of `finishRegistration` is about to read. -/
  | registrationReading (account record : JsString) (token : Field)
  | registrationChecking (account record : JsString) (token : Field) (existing : Option Credential)
  /-- `store.put` is about to write. -/
  | registrationWriting (account record : JsString) (authority : Option ManagementToken) (seen : Option ℕ)
  | registrationStored (account : JsString)
  | loginReading (account startLoginRequest : JsString)
  | loginStarting (account startLoginRequest : JsString) (credential : Option Credential)
  /-- `store.delete` is about to write. -/
  | deletionWriting (account : JsString) (authority : ManagementToken) (seen : Option ℕ)
  | deletionStored (account : JsString)
  deriving DecidableEq

abbrev Outcome := Pending ⊕ Response

section Pieces
variable (cfg : Config) (now : ℕ) (random : JsString)

def startRegistration (account registrationRequest : Field) : Handler Outcome := do
  let normalized ← normalizeAccount cfg account
  let request ← validateOpaqueValue registrationRequest "registrationRequest" 4096
  let response ← orThrow (cfg.createRegistrationResponse normalized request) .opaqueLibrary
  return .inr (.registrationResponse response)

def finishRegistration (account registrationRecord managementToken : Field) : Handler Outcome := do
  let normalized ← normalizeAccount cfg account
  let record ← validateOpaqueValue registrationRecord "registrationRecord" 4096
  return .inl (.registrationReading normalized record managementToken)

/-- `if (existing && !authorizeManagement(…)) throw …`, and the call of `store.put`. -/
def checkRegistration (account record : JsString) (token : Field) (existing : Option Credential)
    (stored : Option ℕ) : Handler Outcome :=
  match existing with
  | none => return .inl (.registrationWriting account record none none)
  | some _ => do
    let found ← authorizeManagement now account token
    let authority ← orThrow found (.api 409 "OPAQUE_CREDENTIAL_EXISTS" "OPAQUE credential already exists")
    return .inl (.registrationWriting account record (some authority) stored)

def endRegistration (id : ℕ) (account : JsString) : Handler Outcome := do
  revokeManagementTokens account
  let token ← issueManagementToken cfg now random account (some id)
  return .inr (.managementToken token)

def startLogin (account startLoginRequest : Field) : Handler Outcome := do
  let normalized ← normalizeAccount cfg account
  let request ← validateOpaqueValue startLoginRequest "startLoginRequest" 4096
  consumeAttempt cfg now normalized
  return .inl (.loginReading normalized request)

def openLogin (account startLoginRequest : JsString) (credential : Option Credential) : Handler Outcome := do
  let (serverLoginState, loginResponse) ←
    orThrow (cfg.startLogin (credential.map (·.registrationRecord)) startLoginRequest account) .opaqueLibrary
  modify (Tables.setLogin random
    (some { account, serverLoginState, expiresAt := now + cfg.sessionTtlMs, credential }))
  return .inr (.login random loginResponse)

def finishLogin (loginId finishLoginRequest : Field) : Handler Outcome := do
  let loginId ← validateOpaqueValue loginId "loginId" 256
  let request ← validateOpaqueValue finishLoginRequest "finishLoginRequest" 4096
  cleanup now
  let found := (← get).logins loginId
  modify (Tables.setLogin loginId none)
  let login ← orThrow found (.api 401 "OPAQUE_LOGIN_EXPIRED" "OPAQUE login expired")
  throwIf (login.expiresAt ≤ now) (.api 401 "OPAQUE_LOGIN_EXPIRED" "OPAQUE login expired")
  throwIf (cfg.finishLogin request login.serverLoginState login.account = false)
    (.api 401 "OPAQUE_VERIFICATION_FAILED" "OPAQUE proof verification failed")
  modify (Tables.setAttempts login.account none)
  let token ← issueManagementToken cfg now random login.account (login.credential.map (·.storedBy))
  return .inr (.managementToken token)

def deleteCredential (account managementToken : Field) (stored : JsString → Option ℕ) : Handler Outcome := do
  let normalized ← normalizeAccount cfg account
  let found ← authorizeManagement now normalized managementToken
  let authority ← orThrow found
    (.api 401 "OPAQUE_MANAGEMENT_UNAUTHORIZED" "Credential authorization failed")
  return .inl (.deletionWriting normalized authority (stored normalized))

def endDeletion (account : JsString) : Handler Outcome := do
  revokeManagementTokens account
  return .inr .deleted

end Pieces

/-! ## The server -/

/-- The tables, what the store holds, and the requests that wait; requests are numbered as they come. -/
structure Server where
  tables : Tables := {}
  store : JsString → Option Credential := fun _ => none
  pending : ℕ → Option Pending := fun _ => none
  next : ℕ := 0

def Server.stored (s : Server) (account : JsString) : Option ℕ := (s.store account).map (·.storedBy)

/-- A request arrives, or the piece of a waiting request runs; with the time and a fresh `tokenValue()`. -/
inductive Event
  | call (request : Request) (now : ℕ) (random : JsString)
  | resume (id now : ℕ) (random : JsString)

section Execution
variable (cfg : Config) (s : Server)

def begin (now : ℕ) (random : JsString) : Request → Handler Outcome
  | .startRegistration account registrationRequest => startRegistration cfg account registrationRequest
  | .finishRegistration account registrationRecord managementToken =>
    finishRegistration cfg account registrationRecord managementToken
  | .startLogin account startLoginRequest => startLogin cfg now account startLoginRequest
  | .finishLogin loginId finishLoginRequest => finishLogin cfg now random loginId finishLoginRequest
  | .deleteCredential account managementToken => deleteCredential cfg now account managementToken s.stored

/-- The next piece of request `id`. -/
def advance (id now : ℕ) (random : JsString) : Pending → Handler Outcome
  | .registrationReading account record token =>
    return .inl (.registrationChecking account record token (s.store account))
  | .registrationChecking account record token existing =>
    checkRegistration now account record token existing (s.stored account)
  | .registrationWriting account _ _ _ => return .inl (.registrationStored account)
  | .registrationStored account => endRegistration cfg now random id account
  | .loginReading account startLoginRequest =>
    return .inl (.loginStarting account startLoginRequest (s.store account))
  | .loginStarting account startLoginRequest credential =>
    openLogin cfg now random account startLoginRequest credential
  | .deletionWriting account _ _ => return .inl (.deletionStored account)
  | .deletionStored account => endDeletion account

/-- What the piece of request `id` writes to the store. -/
def write (id : ℕ) : Pending → JsString → Option Credential
  | .registrationWriting account record _ _ =>
    Function.update s.store account (some { registrationRecord := record, storedBy := id })
  | .deletionWriting account _ _ => Function.update s.store account none
  | _ => s.store

/-- Request `id` waits again, or is answered. -/
def settle (id : ℕ) (result : Except Failure Outcome × Tables) : Server × Option (Except Failure Response) :=
  match result.1 with
  | .ok (.inl p) => ({ s with tables := result.2, pending := Function.update s.pending id (some p) }, none)
  | .ok (.inr r) => ({ s with tables := result.2, pending := Function.update s.pending id none }, some (.ok r))
  | .error e => ({ s with tables := result.2, pending := Function.update s.pending id none }, some (.error e))

def exec : Event → Server × Option (Except Failure Response)
  | .call request now random =>
    settle { s with next := s.next + 1 } s.next (call (begin cfg s now random request) s.tables)
  | .resume id now random =>
    match s.pending id with
    | none => (s, none)
    | some p =>
      settle { s with store := write s id p } id (call (advance cfg s id now random p) s.tables)

end Execution

def Steps (cfg : Config) (s : Server) (e : Event) (s' : Server) : Prop := (exec cfg s e).1 = s'

/-- A new server on an empty store, and any interleaving of requests. -/
abbrev KeyringRun (cfg : Config) : List (Transition Server Event) → Server → Prop :=
  Run (· = {}) (Steps cfg)

end ChainGuard.OffChain.OpaqueKeyring
