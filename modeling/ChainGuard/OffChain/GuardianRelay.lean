import ChainGuard.Library.History
import ChainGuard.OffChain.Js

/-! The guardian notification relayer: `MultiChainListener`, `handleEvent`, `NotificationService.buildJobs` and
`DurableRelayQueue`. A handler waits only for the contacts registry, and no other handler touches what it uses
meanwhile, so that it runs in one step with the registry's answer. -/
namespace ChainGuard.OffChain.GuardianRelay
open History
set_option autoImplicit false

/-! ## Events -/

/-- A part of an event's id: a contract, or what the chain calls the event. -/
structure IdPart where
  value : JsString
  noColon : colon ∉ value

/-- `evm:<contract>:<block>:<index>` or `soroban:<contract>:<event>`. -/
inductive EventId
  | evm (contractAddress : IdPart) (blockNumber index : ℕ)
  | soroban (contractId event : IdPart)

def EventId.string : EventId → JsString
  | .evm contractAddress blockNumber index =>
    joinColon [js "evm", contractAddress.value, decimal blockNumber, decimal index]
  | .soroban contractId event => joinColon [js "soroban", contractId.value, event.value]

structure AccessRequestEvent where
  id : EventId
  chain : JsString
  contractId : JsString
  requestId : ℕ
  documentId : ℕ
  requester : JsString
  blockNumber : ℕ
  confirmedAt : JsString
  detectedAtMs : ℕ

/-! ## Contacts -/

structure GuardianChannels where
  pushWebhook : Option JsString := none
  telegramChatId : Option JsString := none
  email : Option JsString := none
  deriving DecidableEq

structure GuardianContact where
  guardian : JsString
  publicKey : Option JsString := none
  channels : GuardianChannels := {}
  deriving DecidableEq

/-- An object that the registry lists; a field is `none` when it is not a string. -/
structure RegistryEntry where
  guardian : Option JsString
  publicKey : Option JsString := none
  channels : GuardianChannels := {}

/-- `value || undefined` -/
def truthy (value : Option JsString) : Option JsString := value.filter (· ≠ [])

structure AccessRequestNotification where
  title : JsString
  body : JsString
  requestId : ℕ
  documentId : ℕ
  requester : JsString
  chain : JsString
  contractId : JsString
  deepLink : JsString
  confirmedAt : JsString

structure Config where
  toLowerCase : JsString → JsString
  approvalUiBaseUrl : JsString
  /-- `new URLSearchParams(…).toString()` -/
  searchParams : List (JsString × JsString) → JsString
  /-- `nacl.box` of the notification as JSON, for the recipient, under the ephemeral key and the nonce that the first
  argument stands for; and the base64 of the envelope. -/
  box : JsString → Bytes → AccessRequestNotification → JsString
  telegramBotToken : Option JsString := none
  emailWebhookUrl : Option JsString := none
  maxAttempts : ℕ := 5
  retryBaseMs : ℕ := 500
  retryMaxBackoffMs : ℕ := 30000

section Jobs
variable (cfg : Config)

def normalizeContacts (raw : List (Option RegistryEntry)) : List GuardianContact :=
  raw.filterMap fun entry => do
    let obj ← entry
    let guardian ← truthy obj.guardian
    return {
      guardian := cfg.toLowerCase guardian
      publicKey := obj.publicKey
      channels := {
        pushWebhook := truthy obj.channels.pushWebhook
        telegramChatId := truthy obj.channels.telegramChatId
        email := truthy obj.channels.email } }

def slash : UInt16 := 0x2f

/-- `approvalUiBaseUrl.replace(/\/+$/, "")` -/
def trimSlashes (url : JsString) : JsString := (url.reverse.dropWhile (· = slash)).reverse

def buildNotification (event : AccessRequestEvent) : AccessRequestNotification :=
  let params := cfg.searchParams
    [(js "requestId", decimal event.requestId), (js "documentId", decimal event.documentId), (js "chain", event.chain)]
  { title := js "Guardian approval requested (#" ++ decimal event.requestId ++ js ")"
    body := js "An access request for document " ++ decimal event.documentId ++ js " was filed on " ++ event.chain ++
      js ". Review and approve it in the SpooVault access center."
    requestId := event.requestId
    documentId := event.documentId
    requester := event.requester
    chain := event.chain
    contractId := event.contractId
    deepLink := trimSlashes cfg.approvalUiBaseUrl ++ js "/access?" ++ params
    confirmedAt := event.confirmedAt }

def PUBLIC_KEY_LENGTH : ℕ := 32

def encryptForGuardian (random publicKeyB64 : JsString) (payload : AccessRequestNotification) :
    Except JsString JsString :=
  let recipient := bufferFromBase64 publicKeyB64
  if recipient.length = 0 then .error (js "Could not decode guardian public key")
  else if recipient.length ≠ PUBLIC_KEY_LENGTH then
    .error (js "Invalid guardian public key length: " ++ decimal recipient.length)
  else .ok (cfg.box random recipient payload)

structure DispatchJob where
  id : JsString
  eventId : JsString
  contact : GuardianContact
  notification : AccessRequestNotification
  encryptedPayload : Option JsString
  createdAtMs : ℕ

def isReachable (contact : GuardianContact) : Bool :=
  (truthy contact.channels.pushWebhook).isSome ||
    ((truthy contact.channels.telegramChatId).isSome && (truthy cfg.telegramBotToken).isSome) ||
    ((truthy contact.channels.email).isSome && (truthy cfg.emailWebhookUrl).isSome)

def jobId (event : AccessRequestEvent) (contact : GuardianContact) : JsString :=
  event.id.string ++ colon :: cfg.toLowerCase contact.guardian

/-- The clock and the random values of a handler, the latter for each contact. -/
structure Ambient where
  now : ℕ := 0
  random : GuardianContact → JsString := fun _ => []

def encryptedPayload (ambient : Ambient) (notification : AccessRequestNotification)
    (contact : GuardianContact) : Except JsString (Option JsString) :=
  match truthy contact.publicKey with
  | some publicKey => (encryptForGuardian cfg (ambient.random contact) publicKey notification).map some
  | none => .ok none

def buildJob (ambient : Ambient) (event : AccessRequestEvent) (contact : GuardianContact) :
    Except JsString DispatchJob :=
  (encryptedPayload cfg ambient (buildNotification cfg event) contact).map fun payload =>
    { id := jobId cfg event contact
      eventId := event.id.string
      contact := contact
      notification := buildNotification cfg event
      encryptedPayload := payload
      createdAtMs := ambient.now }

def buildJobs (ambient : Ambient) (event : AccessRequestEvent) :
    List GuardianContact → Except JsString (List DispatchJob)
  | [] => return []
  | contact :: contacts =>
    if isReachable cfg contact then do
      let job ← buildJob cfg ambient event contact
      let jobs ← buildJobs ambient event contacts
      return job :: jobs
    else buildJobs ambient event contacts

end Jobs

/-! ## The queue -/

def MAX_COMPLETED_IDS : ℕ := 2000
def MAX_DEAD_JOBS : ℕ := 100

structure PersistedJob where
  id : JsString
  payload : DispatchJob
  attempts : ℕ
  nextAttemptAtMs : ℕ
  lastError : Option JsString := none

structure QueueState where
  jobs : List PersistedJob := []
  completedIds : List JsString := []
  /-- With the error. -/
  dead : List (PersistedJob × JsString) := []

def QueueState.known (q : QueueState) (id : JsString) : Prop :=
  id ∈ q.jobs.map PersistedJob.id ∨ id ∈ q.completedIds ∨ id ∈ q.dead.map fun job => job.1.id

instance (q : QueueState) (id : JsString) : Decidable (q.known id) := inferInstanceAs (Decidable (_ ∨ _))

/-- When the id is not known yet. -/
def QueueState.push (now : ℕ) (id : JsString) (payload : DispatchJob) (q : QueueState) : QueueState :=
  { q with jobs := q.jobs ++ [{ id := id, payload := payload, attempts := 0, nextAttemptAtMs := now }] }

def keepLatest (completedIds : List JsString) : List JsString :=
  completedIds.drop (completedIds.length - MAX_COMPLETED_IDS)

def QueueState.complete (dueIndex : ℕ) (job : PersistedJob) (q : QueueState) : QueueState :=
  { q with jobs := q.jobs.eraseIdx dueIndex, completedIds := keepLatest (q.completedIds ++ [job.id]) }

/-- `if (dead.length > MAX_DEAD_JOBS) dead.shift();` -/
def shiftOverlong (dead : List (PersistedJob × JsString)) : List (PersistedJob × JsString) :=
  if MAX_DEAD_JOBS < dead.length then dead.tail else dead

def QueueState.deadLetter (dueIndex : ℕ) (job : PersistedJob) (message : JsString) (q : QueueState) : QueueState :=
  { q with jobs := q.jobs.eraseIdx dueIndex, dead := shiftOverlong (q.dead ++ [(job, message)]) }

def QueueState.postpone (cfg : Config) (now dueIndex : ℕ) (job : PersistedJob) (message : JsString) (q : QueueState) :
    QueueState :=
  let backoff := min (cfg.retryBaseMs * 2 ^ (job.attempts - 1)) cfg.retryMaxBackoffMs
  { q with
    jobs := q.jobs.set dueIndex { job with nextAttemptAtMs := now + backoff, lastError := some message } }

/-- The job that was due, after an attempt with the outcome `delivery`. -/
def QueueState.attempt (cfg : Config) (now dueIndex : ℕ) (job : PersistedJob) (delivery : Except JsString Unit)
    (q : QueueState) : QueueState :=
  match delivery with
  | .ok () => q.complete dueIndex job
  | .error message =>
    if cfg.maxAttempts ≤ job.attempts then q.deadLetter dueIndex job message
    else q.postpone cfg now dueIndex job message

/-- The first job that is due is handed to the handler. -/
def QueueState.pump (cfg : Config) (now : ℕ) (delivery : Except JsString Unit) (q : QueueState) : QueueState :=
  match q.jobs.findIdx? fun job => job.nextAttemptAtMs ≤ now with
  | none => q
  | some dueIndex =>
    match q.jobs[dueIndex]? with
    | none => q
    | some job => q.attempt cfg now dueIndex { job with attempts := job.attempts + 1 } delivery

/-! ## The relayer -/

structure GuardianRelayer where
  seen : List JsString := []
  eventsDetected : ℕ := 0
  /-- The jobs that `notificationsQueued` counts. -/
  queued : List DispatchJob := []
  queue : QueueState := {}

/-- `if (queue.enqueue(job.id, job)) notificationsQueued += 1;` -/
def GuardianRelayer.enqueue (now : ℕ) (s : GuardianRelayer) (job : DispatchJob) : GuardianRelayer :=
  if s.queue.known job.id then s
  else { s with queued := s.queued ++ [job], queue := s.queue.push now job.id job }

section Relayer
variable (cfg : Config)

/-- `answer` is what the registry answers to the query, `none` when it fails. An error is logged. -/
def handleEvent (ambient : Ambient) (event : AccessRequestEvent) (answer : Option (List (Option RegistryEntry)))
    (s : GuardianRelayer) : GuardianRelayer :=
  let s := { s with eventsDetected := s.eventsDetected + 1 }
  match answer with
  | none => s
  | some raw =>
    match buildJobs cfg ambient event (normalizeContacts cfg raw) with
    | .error _ => s
    | .ok jobs => jobs.foldl (GuardianRelayer.enqueue ambient.now) s

def emitNew (ambient : Ambient) (event : AccessRequestEvent) (answer : Option (List (Option RegistryEntry)))
    (s : GuardianRelayer) : GuardianRelayer :=
  if event.id.string ∈ s.seen then s
  else handleEvent cfg ambient event answer { s with seen := event.id.string :: s.seen }

inductive Happening
  /-- A listener reports the event, at a time when the registry gives the answer to whoever asks. -/
  | report (event : AccessRequestEvent) (answer : Option (List (Option RegistryEntry))) (ambient : Ambient)
  | pump (now : ℕ) (delivery : Except JsString Unit)

def exec (s : GuardianRelayer) : Happening → GuardianRelayer
  | .report event answer ambient => emitNew cfg ambient event answer s
  | .pump now delivery => { s with queue := s.queue.pump cfg now delivery }

end Relayer
end ChainGuard.OffChain.GuardianRelay
