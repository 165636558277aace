import ChainGuard.Library.History
import ChainGuard.OffChain.Js

/-! The crypto worker pool of `CryptoWorkerService`, the worker module `crypto.worker.ts` and the messages
between them. Messages posted to the workers are processed, and responses delivered, in any order. -/
namespace ChainGuard.OffChain.CryptoWorker
open History
set_option autoImplicit false

/-- What `crypto.getRandomValues` returns in one execution. -/
abbrev Random := ℕ → UInt8

/-- `crypto.subtle` and the services that both sides import. What throws does so with a message. -/
structure Crypto (Num : Type) where
  CryptoKey : Type
  importKey : Bytes → Except JsString CryptoKey
  /-- AES-GCM under a key and an initialization vector. -/
  encrypt : CryptoKey → Bytes → Bytes → Bytes
  decrypt : CryptoKey → Bytes → Bytes → Except JsString Bytes
  decrypt_encrypt : ∀ key iv data, decrypt key iv (encrypt key iv data) = .ok data
  sha256 : Bytes → Except JsString Bytes
  splitSecretVSS : Random → JsString → Num → Num → Except JsString (List JsString × List JsString)
  decryptWithPrivateKey : JsString → JsString → Except JsString JsString
  encryptWithPublicKey : Random → JsString → JsString → Except JsString JsString

/-! ## Messages -/

inductive CryptoWorkerRequest (Num : Type)
  | encrypt (data : Bytes) (key : JsString)
  | decrypt (data : Bytes) (key : JsString)
  | splitSecret (secretHex : JsString) (n k : Num)
  | reencryptEnvelope (data key : JsString) (oldPrivateKey newPublicKey : Option JsString)

inductive CryptoWorkerResponse
  | encryptSuccess (result : Bytes)
  | decryptSuccess (result : Bytes)
  | splitSecretSuccess (shares commitments : List JsString)
  | reencryptSuccess (result : JsString)
  | error (error : JsString)

/-- What a worker can be posted. -/
inductive Message (Num : Type)
  | request (id : JsString) (request : CryptoWorkerRequest Num)
  | hash (buffer : Bytes)

/-- `event.data.type` -/
def Message.type {Num : Type} : Message Num → String
  | .request _ (.encrypt ..) => "ENCRYPT"
  | .request _ (.decrypt ..) => "DECRYPT"
  | .request _ (.splitSecret ..) => "SPLIT_SECRET"
  | .request _ (.reencryptEnvelope ..) => "REENCRYPT_ENVELOPE"
  | .hash _ => "COMPUTE_HASH"

/-- `event.data.buffer`, `none` when it is undefined. -/
def Message.buffer {Num : Type} : Message Num → Option Bytes
  | .request .. => none
  | .hash buffer => some buffer

inductive Post
  /-- The `id` is undefined when the message had none. -/
  | response (id : Option JsString) (response : CryptoWorkerResponse)
  /-- It has a `status` and no `id`. -/
  | hashed (hash : Except JsString Bytes)

/-! ## The worker module -/

variable {Num : Type} (crypto : Crypto Num)

/-- `a || b` of two strings. -/
def orElse (a b : JsString) : JsString := if a = [] then b else a

def initializationVector (random : Random) : Bytes := (List.range 12).map random

/-- The branches of the first handler on `type`, up to the response. -/
def respond (random : Random) : CryptoWorkerRequest Num → Except JsString CryptoWorkerResponse
  | .encrypt data key => do
    let cryptoKey ← crypto.importKey (hexToBytes key)
    let iv := initializationVector random
    let ciphertext := crypto.encrypt cryptoKey iv data
    return .encryptSuccess (iv ++ ciphertext)
  | .decrypt data key => do
    let cryptoKey ← crypto.importKey (hexToBytes key)
    let decrypted ← crypto.decrypt cryptoKey (data.take 12) (data.drop 12)
    return .decryptSuccess decrypted
  | .splitSecret secretHex n k => do
    let (shares, commitments) ← crypto.splitSecretVSS random secretHex n k
    return .splitSecretSuccess shares commitments
  | .reencryptEnvelope data _ oldPrivateKey newPublicKey => do
    match oldPrivateKey, newPublicKey with
    | some (c :: oldPrivateKey), some (d :: newPublicKey) =>
      let plaintext ← crypto.decryptWithPrivateKey data (c :: oldPrivateKey)
      let reencrypted ← crypto.encryptWithPublicKey random plaintext (d :: newPublicKey)
      return .reencryptSuccess reencrypted
    | _, _ => throw (js "REENCRYPT_ENVELOPE requires oldPrivateKey and newPublicKey")

abbrev Handler (Num : Type) := Message Num → Random → Option Post

/-- The handler that the module assigns first. -/
def handleRequest : Handler Num
  | .request id request, random =>
    match respond crypto random request with
    | .ok response => some (.response id response)
    | .error message => some (.response id (.error (orElse message (js "Crypto worker execution error"))))
  -- a type it does not know, without a payload
  | .hash _, _ => some (.response none (.error (js "Unsupported worker operation type: undefined")))

/-- The handler that the module assigns second. -/
def handleHash : Handler Num := fun message _ =>
  if message.type = "COMPUTE_HASH" then some (.hashed (crypto.sha256 (message.buffer.getD []))) else none

structure WorkerScope (Num : Type) where
  onmessage : Option (Handler Num) := none

/-- The scope once the module has been evaluated. -/
def cryptoWorker : WorkerScope Num :=
  let self : WorkerScope Num := {}
  let self := { self with onmessage := some (handleRequest crypto) }
  { self with onmessage := some (handleHash crypto) }

def WorkerScope.receive (self : WorkerScope Num) (message : Message Num) (random : Random) : Option Post :=
  self.onmessage.bind fun handler => handler message random

/-! ## The service -/

/-- What a promise resolves to. -/
inductive Value
  | buffer (bytes : Bytes)
  | shares (shares commitments : List JsString)
  | envelope (envelope : JsString)

/-- The calls of the service. -/
inductive Call (Num : Type)
  | encryptAsync (data : Bytes) (key : JsString)
  | decryptAsync (encryptedData : Bytes) (key : JsString)
  | splitSecretVSSAsync (secretHex : JsString) (n k : Num)
  | reencryptEnvelopeAsync (envelope oldPrivateKey newPublicKey : JsString)

def Call.request : Call Num → CryptoWorkerRequest Num
  | .encryptAsync data key => .encrypt data key
  | .decryptAsync encryptedData key => .decrypt encryptedData key
  | .splitSecretVSSAsync secretHex n k => .splitSecret secretHex n k
  | .reencryptEnvelopeAsync envelope oldPrivateKey newPublicKey =>
    .reencryptEnvelope envelope [] (some oldPrivateKey) (some newPublicKey)

/-- The fallback on the main thread. -/
def Call.fallback (random : Random) : Call Num → Except JsString Value
  | .encryptAsync data key => do
    let cryptoKey ← crypto.importKey (hexToBytes key)
    let iv := initializationVector random
    let ciphertext := crypto.encrypt cryptoKey iv data
    return .buffer (iv ++ ciphertext)
  | .decryptAsync encryptedData key => do
    let cryptoKey ← crypto.importKey (hexToBytes key)
    let decrypted ← crypto.decrypt cryptoKey (encryptedData.take 12) (encryptedData.drop 12)
    return .buffer decrypted
  | .splitSecretVSSAsync secretHex n k => do
    let (shares, commitments) ← crypto.splitSecretVSS random secretHex n k
    return .shares shares commitments
  | .reencryptEnvelopeAsync envelope oldPrivateKey newPublicKey => do
    let plaintext ← crypto.decryptWithPrivateKey envelope oldPrivateKey
    let reencrypted ← crypto.encryptWithPublicKey random plaintext newPublicKey
    return .envelope reencrypted

/-- How `worker.onmessage` of the service settles the promise. -/
def settle : CryptoWorkerResponse → Except JsString Value
  | .error error => .error (orElse error (js "Worker operation failed"))
  | .encryptSuccess result => .ok (.buffer result)
  | .decryptSuccess result => .ok (.buffer result)
  | .splitSecretSuccess shares commitments => .ok (.shares shares commitments)
  | .reencryptSuccess result => .ok (.envelope result)

/-- Workers are told apart by a number; of the pending requests the ids are kept. -/
structure CryptoWorkerService where
  workers : List ℕ := []
  nextWorkerIndex : ℕ := 0
  pendingRequests : List JsString := []

/-- Where the service is constructed. -/
structure Browser where
  hasWindow : Bool
  hasWorker : Bool
  hardwareConcurrency : ℕ
  /-- `new Worker` throws. -/
  refused : Bool

def initWorkers (browser : Browser) : CryptoWorkerService :=
  if browser.hasWindow && browser.hasWorker && !browser.refused then
    let poolSize := if browser.hardwareConcurrency = 0 then 4 else browser.hardwareConcurrency
    { workers := List.range poolSize }
  else {}

def CryptoWorkerService.getNextWorker (s : CryptoWorkerService) : Option ℕ × CryptoWorkerService :=
  if s.workers.length = 0 then (none, s)
  else
    (s.workers[s.nextWorkerIndex]?, { s with nextWorkerIndex := (s.nextWorkerIndex + 1) % s.workers.length })

/-- The service, what is posted to its workers and by them, and the promises of its calls. -/
structure Pool (Num : Type) where
  service : CryptoWorkerService
  /-- Posted to a worker and not processed. -/
  messages : List (ℕ × JsString × CryptoWorkerRequest Num) := []
  /-- Posted by a worker and not delivered. -/
  responses : List (JsString × CryptoWorkerResponse) := []
  calls : List (JsString × Call Num) := []
  settled : List (JsString × Except JsString Value) := []

variable {crypto}

def Pool.call (crypto : Crypto Num) (id : JsString) (call : Call Num) (random : Random) (s : Pool Num) : Pool Num :=
  match s.service.getNextWorker with
  | (none, service) =>
    { s with service, calls := (id, call) :: s.calls, settled := (id, call.fallback crypto random) :: s.settled }
  | (some worker, service) =>
    { s with service := { service with pendingRequests := id :: service.pendingRequests }
             calls := (id, call) :: s.calls
             messages := s.messages ++ [(worker, id, call.request)] }

/-- What a worker posts for the message at position `i`. The service drops what has no `id`. -/
def Pool.process (self : WorkerScope Num) (i : ℕ) (random : Random) (s : Pool Num) : Pool Num :=
  match s.messages[i]? with
  | none => s
  | some (_, id, request) =>
    let responses :=
      match self.receive (.request id request) random with
      | some (.response (some id) response) => s.responses ++ [(id, response)]
      | some (.response none _) => s.responses
      | some (.hashed _) => s.responses
      | none => s.responses
    { s with messages := s.messages.eraseIdx i, responses }

/-- `worker.onmessage` of the service for the response at position `i`. -/
def Pool.deliver (i : ℕ) (s : Pool Num) : Pool Num :=
  match s.responses[i]? with
  | none => s
  | some (id, response) =>
    let s := { s with responses := s.responses.eraseIdx i }
    if id ∈ s.service.pendingRequests then
      { s with service := { s.service with pendingRequests := s.service.pendingRequests.filter (· ≠ id) }
               settled := (id, settle response) :: s.settled }
    else s

def Pool.terminate (s : Pool Num) : Pool Num :=
  { s with service := { s.service with workers := [] }, messages := [] }

inductive Event (Num : Type)
  /-- `id` is the fresh `generateId()`, by which the promise is named also where the fallback serves it. -/
  | call (id : JsString) (call : Call Num) (random : Random)
  | process (i : ℕ) (random : Random)
  | deliver (i : ℕ)
  | terminate

def Pool.next (crypto : Crypto Num) (self : WorkerScope Num) (s : Pool Num) : Event Num → Pool Num
  | .call id c random => s.call crypto id c random
  | .process i random => s.process self i random
  | .deliver i => s.deliver i
  | .terminate => s.terminate

/-- Request ids are distinct. -/
def Pool.Allows (s : Pool Num) : Event Num → Prop
  | .call id .. => id ∉ s.calls.map Prod.fst
  | _ => True

def Pool.start (browser : Browser) : Pool Num := { service := initWorkers browser }

abbrev WorkerRun (crypto : Crypto Num) (self : WorkerScope Num) (browser : Browser) :
    List (Transition (Pool Num) (Event Num)) → Pool Num → Prop :=
  Run (· = .start browser) (fun s e s' => s.Allows e ∧ s.next crypto self e = s')

/-- The workers have processed all their messages, and what they posted has been delivered. -/
structure Pool.Final (s : Pool Num) : Prop where
  messages : s.messages = []
  responses : s.responses = []

end ChainGuard.OffChain.CryptoWorker
