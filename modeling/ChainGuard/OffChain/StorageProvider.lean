import ChainGuard.Library.Guarded
import ChainGuard.OffChain.Js

/-! Replication of documents to the backup providers, the table of their references and the fetch that falls
back to it. -/
namespace ChainGuard.OffChain.StorageProvider
open Guarded
set_option autoImplicit false

inductive StorageProviderId
  | ipfs
  | filecoin
  | arweave
  deriving DecidableEq

def StorageProviderId.name : StorageProviderId → JsString
  | .ipfs => js "ipfs"
  | .filecoin => js "filecoin"
  | .arweave => js "arweave"

def DEFAULT_BACKUP_PROVIDERS : List StorageProviderId := [.filecoin, .arweave]

structure StorageRefRecord where
  arweave : Option JsString := none
  filecoin : Option JsString := none
  deriving DecidableEq

/-- `record[provider]` -/
def StorageRefRecord.get (record : StorageRefRecord) : StorageProviderId → Option JsString
  | .ipfs => none
  | .filecoin => record.filecoin
  | .arweave => record.arweave

/-- `{ [provider]: reference }` -/
def StorageRefRecord.single (reference : JsString) : StorageProviderId → StorageRefRecord
  | .ipfs => {}
  | .filecoin => { filecoin := some reference }
  | .arweave => { arweave := some reference }

structure StorageUploadResult where
  provider : StorageProviderId
  reference : JsString
  size : ℕ
  permanent : Bool
  deriving DecidableEq

structure StorageUploadFailure where
  provider : StorageProviderId
  error : JsString
  deriving DecidableEq

structure BackupDocumentOptions where
  ipfsHash : JsString
  plaintext : Option Bytes := none
  keyHex : JsString := []
  ciphertext : Option Bytes := none
  providers : Option (List StorageProviderId) := none

structure BackupDocumentReport where
  ipfsHash : JsString
  backups : List StorageUploadResult := []
  failures : List StorageUploadFailure := []
  deriving DecidableEq

/-- A value in a payload; `other` carries what `String` makes of it. -/
inductive Json
  | nullish
  | string (s : JsString)
  | other (text : JsString)

/-- `this ?? that` -/
def Json.or (this that : Json) : Json :=
  match this with
  | .nullish => that
  | json => json

/-- `String(this ?? "")` -/
def Json.text : Json → JsString
  | .nullish => []
  | .string s => s
  | .other text => text

/-- What `parseResponseBody` returns: a text, or a value with its properties and its `JSON.stringify`. -/
inductive Payload
  | text (s : JsString)
  | value (field : JsString → Json) (stringified : JsString)

def Payload.field : Payload → JsString → Json
  | .text _, _ => .nullish
  | .value field _, name => field name

/-- The start of the payload in an error. -/
def Payload.excerpt : Payload → JsString
  | .text s => s.take 200
  | .value _ stringified => stringified.take 200

structure Response where
  ok : Bool
  status : ℕ
  payload : Payload

/-- The options of the service and what it finds in its surroundings. -/
structure Service where
  lighthouseApiKey : JsString
  ipfsConfigured : Bool
  /-- `options.backupProviders`, or those that the environment variable names. -/
  backupProviders : Option (List StorageProviderId)
  /-- There is a `refStore` or a `window`. -/
  hasStore : Bool
  /-- `encryptFileStream` and `collectStream`, which may throw. -/
  encrypt : Bytes → JsString → Except JsString Bytes
  /-- `Number(x)`, unless it is falsy. -/
  number : Json → Option ℕ

section Uploads
variable (svc : Service)

def isConfigured : StorageProviderId → Bool
  | .ipfs => svc.ipfsConfigured
  | .filecoin => svc.lighthouseApiKey ≠ []
  | .arweave => true

def getConfiguredBackupProviders : List StorageProviderId :=
  (svc.backupProviders.getD DEFAULT_BACKUP_PROVIDERS).filter (isConfigured svc)

/-- `post` is what the request of the upload and the reading of its body come to. -/
def uploadToProvider (provider : StorageProviderId) (data : Bytes) (post : Except JsString Response) :
    Except JsString StorageUploadResult := do
  revertIf (isConfigured svc provider = false) (js "Storage provider " ++ provider.name ++ js " is not configured")
  match provider with
  | .filecoin =>
    let response ← post
    match (response.payload.field (js "Hash")).or (response.payload.field (js "hash")) with
    | .string hash =>
      revertIf (response.ok = false ∨ hash = [])
        (js "Filecoin upload failed (" ++ decimal response.status ++ js "): " ++ response.payload.excerpt)
      return { provider, reference := hash, size := (svc.number (response.payload.field (js "Size"))).getD data.length,
               permanent := true }
    | _ => throw (js "Filecoin upload failed (" ++ decimal response.status ++ js "): " ++ response.payload.excerpt)
  | .arweave =>
    let response ← post
    let id := match response.payload with
      | .text s => trim s
      | payload => trim ((payload.field (js "id")).or (payload.field (js "transactionId"))).text
    revertIf (response.ok = false ∨ id = [])
      (js "Arweave upload failed (" ++ decimal response.status ++ js "): " ++ response.payload.excerpt)
    return { provider, reference := id, size := data.length, permanent := true }
  | .ipfs => throw (js "Provider ipfs is the primary IPFS pin; use ipfsService")

end Uploads

/-! ## The table of references -/

/-- The own properties of the stored object; none where nothing is stored that parses to one. -/
abbrev Refs := JsString → Option StorageRefRecord

/-- `all[ipfsHash] = merged`: a key that is not an own property yet may be the accessor of the prototype. -/
def assign (all : Refs) (ipfsHash : JsString) (merged : StorageRefRecord) : Refs :=
  if ipfsHash = js "__proto__" ∧ all ipfsHash = none then all else Function.update all ipfsHash (some merged)

structure StoreAccess where
  readThrows : Bool := false
  writeThrows : Option JsString := none

section Records
variable (svc : Service)

def readAllRefs (access : StoreAccess) (stored : Refs) : Refs :=
  if svc.hasStore = true ∧ access.readThrows = false then stored else fun _ => none

def writeAllRefs (access : StoreAccess) (stored refs : Refs) : Except JsString Refs :=
  if svc.hasStore then
    match access.writeThrows with
    | some message => .error message
    | none => .ok refs
  else .ok stored

def getBackupRefs (access : StoreAccess) (stored : Refs) (ipfsHash : JsString) : Option StorageRefRecord :=
  readAllRefs svc access stored ipfsHash

/-- The references of `refs` that are not empty go over those of `record`. -/
def StorageRefRecord.merge (record refs : StorageRefRecord) : StorageRefRecord where
  arweave := (refs.arweave.filter (· ≠ [])).or record.arweave
  filecoin := (refs.filecoin.filter (· ≠ [])).or record.filecoin

def recordBackupRefs (access : StoreAccess) (stored : Refs) (ipfsHash : JsString) (refs : StorageRefRecord) :
    Except JsString (StorageRefRecord × Refs) := do
  let all := readAllRefs svc access stored
  let merged := ((all ipfsHash).getD {}).merge refs
  let stored ← writeAllRefs svc access stored (assign all ipfsHash merged)
  return (merged, stored)

end Records

/-! ## Replication -/

/-- What one provider's turn meets: other calls may have written the table since the last one. -/
structure Turn where
  meanwhile : Refs → Refs := id
  post : Except JsString Response
  access : StoreAccess := {}

section Backup
variable (svc : Service)

def resolveCiphertext (opts : BackupDocumentOptions) : Except JsString Bytes :=
  match opts.ciphertext, opts.plaintext with
  | some ciphertext, _ => .ok ciphertext
  | none, some plaintext =>
    if opts.keyHex ≠ [] then svc.encrypt plaintext opts.keyHex
    else .error (js "backupDocument requires ciphertext or plaintext+keyHex")
  | none, none => .error (js "backupDocument requires ciphertext or plaintext+keyHex")

/-- The body of the loop over the providers. -/
def backUp (ipfsHash : JsString) (bytes : Bytes) (turn : Turn) (provider : StorageProviderId)
    (s : BackupDocumentReport × Refs) : BackupDocumentReport × Refs :=
  let (report, stored) := (s.1, turn.meanwhile s.2)
  match uploadToProvider svc provider bytes turn.post with
  | .error error => ({ report with failures := report.failures ++ [⟨provider, error⟩] }, stored)
  | .ok result =>
    let report := { report with backups := report.backups ++ [result] }
    match recordBackupRefs svc turn.access stored ipfsHash (.single result.reference provider) with
    | .error error => ({ report with failures := report.failures ++ [⟨provider, error⟩] }, stored)
    | .ok (_, stored) => (report, stored)

def providersOf (opts : BackupDocumentOptions) : List StorageProviderId :=
  opts.providers.getD (getConfiguredBackupProviders svc)

def backupDocument (opts : BackupDocumentOptions) (turns : StorageProviderId → Turn) (stored : Refs) :
    Except JsString (BackupDocumentReport × Refs) := do
  revertIf (opts.ipfsHash = []) (js "backupDocument requires the primary ipfsHash")
  let providers := providersOf svc opts
  let report : BackupDocumentReport := { ipfsHash := opts.ipfsHash }
  if providers = [] then
    return (report, stored)
  else
    let bytes ← resolveCiphertext svc opts
    return providers.foldl (fun s provider => backUp svc opts.ipfsHash bytes (turns provider) provider s) (report, stored)

end Backup

/-! ## Retrieval -/

/-- What a fetch meets: the gateways of IPFS, the store, and the provider's answer for a reference. -/
structure Retrieval where
  ipfs : Except JsString Response
  access : StoreAccess := {}
  fetchFn : StorageProviderId → JsString → Except JsString Response

inductive FetchError
  | required
  /-- Each attempt with its error. -/
  | failed (reference : JsString) (attempts : List (StorageProviderId × JsString))

section Fetch
variable (svc : Service) (r : Retrieval)

def fetchFromProvider (provider : StorageProviderId) (reference : JsString) : Except JsString Response := do
  let response ← r.fetchFn provider reference
  revertIf (response.ok = false) (provider.name ++ js " fetch HTTP " ++ decimal response.status)
  return response

def fetchInOrder (ipfsHash : JsString) (refs : StorageRefRecord) (attempts : List (StorageProviderId × JsString)) :
    List StorageProviderId → Except FetchError Response
  | [] => .error (.failed ipfsHash attempts)
  | provider :: rest =>
    match (refs.get provider).filter (· ≠ []) with
    | none => fetchInOrder ipfsHash refs attempts rest
    | some reference =>
      match fetchFromProvider r provider reference with
      | .ok response => .ok response
      | .error error => fetchInOrder ipfsHash refs (attempts ++ [(provider, error)]) rest

def fetchDocument (ipfsHash : JsString) (stored : Refs) : Except FetchError Response := do
  revertIf (ipfsHash = []) .required
  match r.ipfs with
  | .ok response => return response
  | .error error =>
    let refs := (getBackupRefs svc r.access stored ipfsHash).getD {}
    fetchInOrder r ipfsHash refs [(.ipfs, error)] [.arweave, .filecoin]

end Fetch

/-! ## What is asked of a report and of a fetch -/

section Truth
variable (svc : Service)

def Recorded (stored : Refs) (ipfsHash : JsString) (provider : StorageProviderId) (reference : JsString) : Prop :=
  svc.hasStore = true ∧ reference ≠ [] ∧ ∃ record, stored ipfsHash = some record ∧ record.get provider = some reference

structure Recording where
  provider : StorageProviderId
  before : Refs
  after : Refs

/-- The turns of a call, in order. -/
def recordings (ipfsHash : JsString) (bytes : Bytes) (turns : StorageProviderId → Turn) :
    BackupDocumentReport × Refs → List StorageProviderId → List Recording
  | _, [] => []
  | s, provider :: rest =>
    let s' := backUp svc ipfsHash bytes (turns provider) provider s
    ⟨provider, (turns provider).meanwhile s.2, s'.2⟩ :: recordings ipfsHash bytes turns s' rest

/-- The report partitions the providers, and no turn loses a reference. -/
structure ReportTruthful (ipfsHash : JsString) (bytes : Bytes) (turns : StorageProviderId → Turn)
    (providers : List StorageProviderId) (done : List Recording) (report : BackupDocumentReport) : Prop where
  once : ∀ p, (report.backups.map (·.provider) ++ report.failures.map (·.provider)).count p = if p ∈ providers then 1 else 0
  backups : ∀ p ∈ providers, p ∈ report.backups.map (·.provider) ↔
    ∃ result, uploadToProvider svc p bytes (turns p).post = .ok result ∧
      ∃ d ∈ done, d.provider = p ∧ Recorded svc d.after ipfsHash p result.reference
  kept : ∀ d ∈ done, ∀ doc q reference, Recorded svc d.before doc q reference →
    Recorded svc d.after doc q reference ∨
      doc = ipfsHash ∧ q = d.provider ∧ ∃ newer, Recorded svc d.after doc q newer

/-- A fetch rejects only after the gateways of IPFS and each recorded provider have failed it. -/
def FetchTruthful (r : Retrieval) (ipfsHash : JsString) (stored : Refs) : Prop :=
  ∀ reference attempts, fetchDocument svc r ipfsHash stored = .error (.failed reference attempts) →
    (∃ error, r.ipfs = .error error) ∧ ∀ p reference, Recorded svc stored ipfsHash p reference →
      ∃ error, fetchFromProvider r p reference = .error error ∧ (p, error) ∈ attempts

/-- The store takes the reference of an uploaded document, and hides none when it is read for that. -/
structure Records (ipfsHash : JsString) (turn : Turn) (d : Recording) : Prop where
  store : svc.hasStore = true
  written : turn.access.writeThrows = none
  own : ipfsHash = js "__proto__" → turn.access.readThrows = false ∧ d.before ipfsHash ≠ none
  read : turn.access.readThrows = true → ∀ doc q reference, Recorded svc d.before doc q reference →
    doc = ipfsHash ∧ q = d.provider

/-- The table is read where the gateways of IPFS fail, or holds nothing of the document. -/
def Retrieves (r : Retrieval) (ipfsHash : JsString) (stored : Refs) : Prop :=
  (∃ response, r.ipfs = .ok response) ∨ r.access.readThrows = false ∨
    ∀ p reference, ¬ Recorded svc stored ipfsHash p reference

/-- Replication tells the truth of a call, and a fetch finds what is recorded by then. -/
structure ReplicationTruthful (opts : BackupDocumentOptions) (bytes : Bytes) (turns : StorageProviderId → Turn)
    (stored : Refs) (r : Retrieval) (doc : JsString) (later : Refs) : Prop where
  report : ∃ report after, backupDocument svc opts turns stored = .ok (report, after) ∧
    ReportTruthful svc opts.ipfsHash bytes turns (providersOf svc opts)
      (recordings svc opts.ipfsHash bytes turns ({ ipfsHash := opts.ipfsHash }, stored) (providersOf svc opts)) report
  fetch : FetchTruthful svc r doc later

end Truth

/-! ## Uploads -/

variable {svc : Service}

theorem uploadToProvider_ok {provider : StorageProviderId} {data : Bytes} {post : Except JsString Response}
    {result : StorageUploadResult} (h : uploadToProvider svc provider data post = .ok result) :
    result.provider = provider ∧ result.reference ≠ [] ∧ provider ≠ .ipfs := by
  unfold uploadToProvider at h
  obtain ⟨_, h⟩ := (revertIf_bind _ _ _ _).mp h
  cases provider with
  | ipfs => cases h
  | filecoin =>
    obtain ⟨response, _, h⟩ := (bind_ok _ _ _).mp h
    split at h
    · obtain ⟨hchecked, h⟩ := (revertIf_bind _ _ _ _).mp h
      cases h
      exact ⟨rfl, fun hempty => hchecked (.inr hempty), nofun⟩
    · cases h
  | arweave =>
    obtain ⟨response, _, h⟩ := (bind_ok _ _ _).mp h
    obtain ⟨hchecked, h⟩ := (revertIf_bind _ _ _ _).mp h
    cases h
    exact ⟨rfl, fun hempty => hchecked (.inr hempty), nofun⟩

/-! ## The table -/

section Table
variable {ipfsHash reference : JsString} {provider : StorageProviderId} {stored all : Refs} {access : StoreAccess}

theorem get_merge (record refs : StorageRefRecord) (q : StorageProviderId) :
    (record.merge refs).get q = ((refs.get q).filter (· ≠ [])).or (record.get q) := by
  cases q <;> rfl

theorem get_merge_single (record : StorageRefRecord) (hreference : reference ≠ []) (hprovider : provider ≠ .ipfs)
    (q : StorageProviderId) :
    (record.merge (.single reference provider)).get q = if q = provider then some reference else record.get q := by
  have htruthy : (some reference).filter (· ≠ []) = some reference := by
    rw [Option.filter_some, if_pos (decide_eq_true hreference)]
  rw [get_merge]
  cases provider with
  | ipfs => exact absurd rfl hprovider
  | filecoin => cases q <;> simp [StorageRefRecord.single, StorageRefRecord.get, hreference]
  | arweave => cases q <;> simp [StorageRefRecord.single, StorageRefRecord.get, hreference]

theorem assign_own (hown : ipfsHash = js "__proto__" → all ipfsHash ≠ none) (merged : StorageRefRecord) :
    assign all ipfsHash merged = Function.update all ipfsHash (some merged) :=
  if_neg fun h => hown h.1 h.2

theorem assign_prototype (hproto : ipfsHash = js "__proto__") (hnone : all ipfsHash = none) (merged : StorageRefRecord) :
    assign all ipfsHash merged = all :=
  if_pos ⟨hproto, hnone⟩

def written (svc : Service) (access : StoreAccess) (stored : Refs) (ipfsHash : JsString) (provider : StorageProviderId)
    (reference : JsString) : Refs :=
  let all := readAllRefs svc access stored
  assign all ipfsHash (((all ipfsHash).getD {}).merge (.single reference provider))

theorem recordBackupRefs_eq : recordBackupRefs svc access stored ipfsHash (.single reference provider) =
    if svc.hasStore = true then
      match access.writeThrows with
      | some message => .error message
      | none => .ok (((readAllRefs svc access stored ipfsHash).getD {}).merge (.single reference provider),
          written svc access stored ipfsHash provider reference)
    else .ok (((readAllRefs svc access stored ipfsHash).getD {}).merge (.single reference provider), stored) := by
  simp only [recordBackupRefs, writeAllRefs]
  split_ifs with hstore
  · cases access.writeThrows <;> rfl
  · rfl

theorem readAllRefs_eq (hstore : svc.hasStore = true) :
    readAllRefs svc access stored = if access.readThrows = true then fun _ => none else stored := by
  rw [readAllRefs]
  cases access.readThrows <;> simp [hstore]

theorem recorded_update {record : StorageRefRecord} {doc : JsString} {q : StorageProviderId} {r : JsString} :
    Recorded svc (Function.update all ipfsHash (some record)) doc q r ↔
      svc.hasStore = true ∧ r ≠ [] ∧
        if doc = ipfsHash then record.get q = some r else ∃ other, all doc = some other ∧ other.get q = some r := by
  rw [Recorded]
  by_cases hdoc : doc = ipfsHash
  · subst hdoc
    simp only [Function.update_self, Option.some.injEq, exists_eq_left', if_true]
  · simp only [Function.update_of_ne hdoc, if_neg hdoc]

theorem written_own (hstore : svc.hasStore = true) (hreference : reference ≠ []) (hprovider : provider ≠ .ipfs)
    (hown : ipfsHash = js "__proto__" → access.readThrows = false ∧ stored ipfsHash ≠ none) (doc : JsString)
    (q : StorageProviderId) (r : JsString) :
    Recorded svc (written svc access stored ipfsHash provider reference) doc q r ↔
      if doc = ipfsHash ∧ q = provider then r = reference else access.readThrows = false ∧ Recorded svc stored doc q r := by
  have hassign : readAllRefs svc access stored ipfsHash ≠ none ∨ ipfsHash ≠ js "__proto__" := by
    by_cases hproto : ipfsHash = js "__proto__"
    · rw [readAllRefs_eq hstore, if_neg (by rw [(hown hproto).1]; exact Bool.false_ne_true)]
      exact .inl (hown hproto).2
    · exact .inr hproto
  rw [written, assign_own fun hproto => hassign.resolve_right fun h => h hproto, recorded_update,
    get_merge_single _ hreference hprovider, readAllRefs_eq hstore]
  by_cases hdoc : doc = ipfsHash
  · subst hdoc
    by_cases hq : q = provider
    · simp only [hq, hstore, and_self, if_true, Option.some.injEq, true_and]
      constructor
      · rintro ⟨_, h⟩
        exact h.symm
      · rintro rfl
        exact ⟨hreference, rfl⟩
    · simp only [hq, and_false, if_false, if_true]
      cases hread : access.readThrows with
      | true =>
        simp only [if_true]
        constructor
        · rintro ⟨_, _, h⟩
          cases q <;> cases h
        · rintro ⟨h, _⟩
          cases h
      | false =>
        simp only [Bool.false_eq_true, if_false, true_and, Recorded]
        refine and_congr Iff.rfl (and_congr Iff.rfl ?_)
        cases hstored : stored doc with
        | none =>
          constructor
          · intro h
            cases q <;> cases h
          · rintro ⟨record, h, _⟩
            cases h
        | some record => simp only [Option.getD_some, Option.some.injEq, exists_eq_left']
  · simp only [hdoc, false_and, if_false]
    cases hread : access.readThrows with
    | true =>
      simp only [if_true]
      constructor
      · rintro ⟨_, _, other, h, _⟩
        cases h
      · rintro ⟨h, _⟩
        cases h
    | false =>
      simp only [Bool.false_eq_true, if_false, true_and]
      rfl

theorem written_prototype (hproto : ipfsHash = js "__proto__")
    (hown : ¬ (access.readThrows = false ∧ stored ipfsHash ≠ none)) {q : StorageProviderId} {r : JsString} :
    ¬ Recorded svc (written svc access stored ipfsHash provider reference) ipfsHash q r := by
  have hnone : readAllRefs svc access stored ipfsHash = none := by
    rw [readAllRefs]
    split_ifs with hread
    · by_contra hsome
      exact hown ⟨hread.2, hsome⟩
    · rfl
  rw [written, assign_prototype hproto hnone]
  rintro ⟨_, _, record, h, _⟩
  rw [hnone] at h
  cases h

end Table

/-! ## A turn -/

section Turns
variable {ipfsHash : JsString} {bytes : Bytes} {turns : StorageProviderId → Turn} {turn : Turn} {p : StorageProviderId}
  {providers : List StorageProviderId} {s : BackupDocumentReport × Refs} {d : Recording}

/-- The failure that a turn reports: of the upload, or of the write of its reference. -/
def failureOf (svc : Service) (bytes : Bytes) (turn : Turn) (provider : StorageProviderId) : Option StorageUploadFailure :=
  match uploadToProvider svc provider bytes turn.post with
  | .error error => some ⟨provider, error⟩
  | .ok _ => if svc.hasStore then turn.access.writeThrows.map fun error => ⟨provider, error⟩ else none

def afterTurn (svc : Service) (ipfsHash : JsString) (bytes : Bytes) (turn : Turn) (provider : StorageProviderId)
    (before : Refs) : Refs :=
  match uploadToProvider svc provider bytes turn.post with
  | .error _ => before
  | .ok result =>
    if svc.hasStore = true ∧ turn.access.writeThrows = none then
      written svc turn.access before ipfsHash provider result.reference
    else before

theorem backUp_eq : backUp svc ipfsHash bytes turn p s =
    ({ s.1 with backups := s.1.backups ++ (uploadToProvider svc p bytes turn.post).toOption.toList
                failures := s.1.failures ++ (failureOf svc bytes turn p).toList },
      afterTurn svc ipfsHash bytes turn p (turn.meanwhile s.2)) := by
  rw [backUp, failureOf, afterTurn]
  cases uploadToProvider svc p bytes turn.post with
  | error e => simp [Except.toOption]
  | ok result =>
    simp only [recordBackupRefs_eq]
    cases hstore : svc.hasStore with
    | false => simp [Except.toOption]
    | true => cases hwrite : turn.access.writeThrows <;> simp [Except.toOption]

theorem foldl_backUp (svc : Service) (ipfsHash : JsString) (bytes : Bytes) (turns : StorageProviderId → Turn)
    (providers : List StorageProviderId) (s : BackupDocumentReport × Refs) :
    (providers.foldl (fun s provider => backUp svc ipfsHash bytes (turns provider) provider s) s).1 =
      { s.1 with
        backups := s.1.backups ++ providers.filterMap fun p => (uploadToProvider svc p bytes (turns p).post).toOption
        failures := s.1.failures ++ providers.filterMap fun p => failureOf svc bytes (turns p) p } := by
  induction providers generalizing s with
  | nil => simp
  | cons p rest ih =>
    rw [List.foldl_cons, ih, backUp_eq, List.filterMap_cons, List.filterMap_cons]
    cases (uploadToProvider svc p bytes (turns p).post).toOption <;> cases failureOf svc bytes (turns p) p <;> simp

theorem recordings_providers (svc : Service) (ipfsHash : JsString) (bytes : Bytes) (turns : StorageProviderId → Turn)
    (providers : List StorageProviderId) (s : BackupDocumentReport × Refs) :
    (recordings svc ipfsHash bytes turns s providers).map (·.provider) = providers := by
  induction providers generalizing s with
  | nil => rfl
  | cons p rest ih => rw [recordings, List.map_cons, ih]

theorem recordings_after (h : d ∈ recordings svc ipfsHash bytes turns s providers) :
    d.after = afterTurn svc ipfsHash bytes (turns d.provider) d.provider d.before := by
  induction providers generalizing s with
  | nil => cases h
  | cons p rest ih =>
    rcases List.mem_cons.mp h with rfl | h
    · exact congrArg Prod.snd backUp_eq
    · exact ih h

theorem turn_records_iff {result : StorageUploadResult}
    (hupload : uploadToProvider svc d.provider bytes turn.post = .ok result)
    (hafter : d.after = afterTurn svc ipfsHash bytes turn d.provider d.before) :
    Records svc ipfsHash turn d ↔ (svc.hasStore = true → turn.access.writeThrows = none) ∧
      Recorded svc d.after ipfsHash d.provider result.reference ∧
      ∀ doc q old, Recorded svc d.before doc q old → Recorded svc d.after doc q old ∨
        doc = ipfsHash ∧ q = d.provider ∧ ∃ newer, Recorded svc d.after doc q newer := by
  obtain ⟨_, hreference, hprovider⟩ := uploadToProvider_ok hupload
  rw [afterTurn, hupload] at hafter
  constructor
  · intro h
    simp only [h.store, h.written, and_self, if_true] at hafter
    have hrecorded := written_own h.store hreference hprovider h.own
    have hnew : Recorded svc d.after ipfsHash d.provider result.reference := by
      rw [hafter, hrecorded, if_pos ⟨rfl, rfl⟩]
    refine ⟨fun _ => h.written, hnew, fun doc q old hold => ?_⟩
    by_cases hsame : doc = ipfsHash ∧ q = d.provider
    · obtain ⟨rfl, rfl⟩ := hsame
      exact .inr ⟨rfl, rfl, _, hnew⟩
    · refine .inl ?_
      rw [hafter, hrecorded, if_neg hsame]
      exact ⟨Bool.eq_false_iff.mpr fun hread => hsame (h.read hread doc q old hold), hold⟩
  · rintro ⟨hwritten, hrecorded, hkept⟩
    have hstore := hrecorded.1
    simp only [hstore, hwritten hstore, and_self, if_true] at hafter
    have hown : ipfsHash = js "__proto__" → turn.access.readThrows = false ∧ d.before ipfsHash ≠ none := by
      intro hproto
      by_contra hown
      rw [hafter] at hrecorded
      exact written_prototype hproto hown hrecorded
    refine ⟨hstore, hwritten hstore, hown, fun hread doc q old hold => ?_⟩
    rcases hkept doc q old hold with hstays | ⟨hdoc, hq, _⟩
    · rw [hafter, written_own hstore hreference hprovider hown] at hstays
      split_ifs at hstays with hsame
      · exact hsame
      · rw [hread] at hstays
        cases hstays.1
    · exact ⟨hdoc, hq⟩

theorem mem_backups_iff {report : BackupDocumentReport}
    (hreport : report.backups = providers.filterMap fun p => (uploadToProvider svc p bytes (turns p).post).toOption) :
    p ∈ report.backups.map (·.provider) ↔
      p ∈ providers ∧ ∃ result, uploadToProvider svc p bytes (turns p).post = .ok result := by
  rw [hreport, List.mem_map]
  simp only [List.mem_filterMap]
  constructor
  · rintro ⟨result, ⟨q, hq, hupload⟩, rfl⟩
    cases hresult : uploadToProvider svc q bytes (turns q).post with
    | error e =>
      rw [hresult] at hupload
      cases hupload
    | ok other =>
      rw [hresult] at hupload
      cases hupload
      rw [(uploadToProvider_ok hresult).1]
      exact ⟨hq, _, hresult⟩
  · rintro ⟨hp, result, hupload⟩
    exact ⟨result, ⟨p, hp, by rw [hupload]; rfl⟩, (uploadToProvider_ok hupload).1⟩

theorem failureOf_provider {failure : StorageUploadFailure} (h : failureOf svc bytes turn p = some failure) :
    failure.provider = p := by
  rw [failureOf] at h
  cases hupload : uploadToProvider svc p bytes turn.post with
  | error e =>
    rw [hupload] at h
    cases h
    rfl
  | ok result =>
    rw [hupload] at h
    dsimp only at h
    split_ifs at h
    cases hwrite : turn.access.writeThrows with
    | none =>
      rw [hwrite] at h
      cases h
    | some error =>
      rw [hwrite] at h
      cases h
      rfl

theorem map_filterMap {α : Type} (entry : StorageProviderId → Option α) (provider : α → StorageProviderId)
    (hentry : ∀ p a, entry p = some a → provider a = p) (providers : List StorageProviderId) :
    (providers.filterMap entry).map provider = providers.filter fun p => (entry p).isSome := by
  induction providers with
  | nil => rfl
  | cons p rest ih =>
    cases hp : entry p with
    | none => rw [List.filterMap_cons_none hp, List.filter_cons_of_neg (by simp [hp]), ih]
    | some a => rw [List.filterMap_cons_some hp, List.filter_cons_of_pos (by simp [hp]), List.map_cons, ih, hentry p a hp]

theorem count_filter (hnodup : providers.Nodup) (chosen : StorageProviderId → Bool) (p : StorageProviderId) :
    (providers.filter chosen).count p = if p ∈ providers ∧ chosen p = true then 1 else 0 := by
  have hfiltered := (hnodup.filter chosen).count (a := p)
  rw [hfiltered]
  simp only [List.mem_filter]

theorem once_iff (hnodup : providers.Nodup) {report : BackupDocumentReport}
    (hbackups : report.backups = providers.filterMap fun p => (uploadToProvider svc p bytes (turns p).post).toOption)
    (hfailures : report.failures = providers.filterMap fun p => failureOf svc bytes (turns p) p) :
    (∀ p, (report.backups.map (·.provider) ++ report.failures.map (·.provider)).count p =
        if p ∈ providers then 1 else 0) ↔
      ∀ p ∈ providers, ∀ result, uploadToProvider svc p bytes (turns p).post = .ok result →
        svc.hasStore = true → (turns p).access.writeThrows = none := by
  have hupload : ∀ p result, (uploadToProvider svc p bytes (turns p).post).toOption = some result →
      result.provider = p := by
    intro p result h
    cases hresult : uploadToProvider svc p bytes (turns p).post with
    | error e =>
      rw [hresult] at h
      cases h
    | ok other =>
      rw [hresult] at h
      cases h
      exact (uploadToProvider_ok hresult).1
  rw [hbackups, hfailures, map_filterMap _ _ hupload, map_filterMap _ _ fun p failure h => failureOf_provider h]
  simp only [List.count_append, count_filter hnodup]
  refine forall_congr' fun p => ?_
  by_cases hp : p ∈ providers
  · simp only [hp, true_and, if_true, forall_true_left, failureOf]
    cases hresult : uploadToProvider svc p bytes (turns p).post with
    | error e => simp [Except.toOption]
    | ok result =>
      cases hstore : svc.hasStore with
      | false => simp [Except.toOption]
      | true => cases hwrite : (turns p).access.writeThrows <;> simp [Except.toOption]
  · simp only [hp, false_and, if_false, false_implies]

theorem report_truthful_iff (ipfsHash : JsString) (s : BackupDocumentReport × Refs) (hnodup : providers.Nodup) {report : BackupDocumentReport}
    (hbackups : report.backups = providers.filterMap fun p => (uploadToProvider svc p bytes (turns p).post).toOption)
    (hfailures : report.failures = providers.filterMap fun p => failureOf svc bytes (turns p) p) :
    ReportTruthful svc ipfsHash bytes turns providers (recordings svc ipfsHash bytes turns s providers) report ↔
      ∀ d ∈ recordings svc ipfsHash bytes turns s providers, ∀ result,
        uploadToProvider svc d.provider bytes (turns d.provider).post = .ok result →
          Records svc ipfsHash (turns d.provider) d := by
  have hproviders := recordings_providers svc ipfsHash bytes turns providers s
  have hmem : ∀ d ∈ recordings svc ipfsHash bytes turns s providers, d.provider ∈ providers := by
    intro d hd
    have hd' := List.mem_map_of_mem (f := (·.provider)) hd
    rwa [hproviders] at hd'
  have hunique : ∀ d ∈ recordings svc ipfsHash bytes turns s providers,
      ∀ d' ∈ recordings svc ipfsHash bytes turns s providers, d'.provider = d.provider → d' = d := by
    intro d hd d' hd' hsame
    have hmapped : ((recordings svc ipfsHash bytes turns s providers).map (·.provider)).Nodup := hproviders.symm ▸ hnodup
    exact List.inj_on_of_nodup_map hmapped hd' hd hsame
  constructor
  · intro h d hd result hupload
    refine (turn_records_iff hupload (recordings_after hd)).mpr ⟨?_, ?_, h.kept d hd⟩
    · exact (once_iff hnodup hbackups hfailures).mp h.once d.provider (hmem d hd) result hupload
    · obtain ⟨result', hupload', d', hd', hsame, hrecorded⟩ := (h.backups d.provider (hmem d hd)).mp
        ((mem_backups_iff hbackups).mpr ⟨hmem d hd, result, hupload⟩)
      rw [hupload] at hupload'
      cases hupload'
      rwa [hunique d hd d' hd' hsame] at hrecorded
  · intro h
    refine ⟨(once_iff hnodup hbackups hfailures).mpr ?_, ?_, ?_⟩
    · intro p hp result hupload _
      obtain ⟨d, hd, rfl⟩ := List.mem_map.mp (hproviders.symm ▸ hp)
      exact (h d hd result hupload).written
    · intro p hp
      rw [mem_backups_iff hbackups]
      constructor
      · rintro ⟨_, result, hupload⟩
        obtain ⟨d, hd, rfl⟩ := List.mem_map.mp (hproviders.symm ▸ hp)
        exact ⟨result, hupload, d, hd, rfl, ((turn_records_iff hupload (recordings_after hd)).mp (h d hd result hupload)).2.1⟩
      · rintro ⟨result, hupload, _⟩
        exact ⟨hp, result, hupload⟩
    · intro d hd
      cases hupload : uploadToProvider svc d.provider bytes (turns d.provider).post with
      | error e =>
        intro doc q reference hold
        rw [recordings_after hd, afterTurn, hupload]
        exact .inl hold
      | ok result => exact ((turn_records_iff hupload (recordings_after hd)).mp (h d hd result hupload)).2.2

end Turns

/-! ## A fetch -/

section Fetches
variable {r : Retrieval} {ipfsHash reference : JsString} {refs : StorageRefRecord} {stored : Refs}
  {attempts failed : List (StorageProviderId × JsString)} {p : StorageProviderId} {error : JsString}

theorem fetchInOrder_failed {order : List StorageProviderId} {hash : JsString}
    (h : fetchInOrder r ipfsHash refs attempts order = .error (.failed hash failed)) :
    (∀ a ∈ attempts, a ∈ failed) ∧ ∀ p ∈ order, ∀ reference, refs.get p = some reference → reference ≠ [] →
      ∃ error, fetchFromProvider r p reference = .error error ∧ (p, error) ∈ failed := by
  induction order generalizing attempts with
  | nil =>
    cases h
    exact ⟨fun a ha => ha, nofun⟩
  | cons p rest ih =>
    rw [fetchInOrder] at h
    cases hreference : (refs.get p).filter (· ≠ []) with
    | none =>
      rw [hreference] at h
      obtain ⟨hkept, hrest⟩ := ih h
      refine ⟨hkept, fun q hq reference hget hne => ?_⟩
      rcases List.mem_cons.mp hq with rfl | hq
      · rw [hget, Option.filter_some, if_pos (decide_eq_true hne)] at hreference
        cases hreference
      · exact hrest q hq reference hget hne
    | some reference =>
      rw [hreference] at h
      dsimp only at h
      cases hfetch : fetchFromProvider r p reference with
      | ok response =>
        rw [hfetch] at h
        cases h
      | error error =>
        rw [hfetch] at h
        obtain ⟨hkept, hrest⟩ := ih h
        refine ⟨fun a ha => hkept a (List.mem_append_left _ ha), fun q hq reference' hget hne => ?_⟩
        rcases List.mem_cons.mp hq with rfl | hq
        · rw [hget, Option.filter_some, if_pos (decide_eq_true hne)] at hreference
          cases hreference
          exact ⟨error, hfetch, hkept _ (List.mem_append_right _ List.mem_cons_self)⟩
        · exact hrest q hq reference' hget hne

theorem fetchInOrder_none {order : List StorageProviderId} (h : ∀ p ∈ order, (refs.get p).filter (· ≠ []) = none) :
    fetchInOrder r ipfsHash refs attempts order = .error (.failed ipfsHash attempts) := by
  induction order with
  | nil => rfl
  | cons p rest ih =>
    rw [fetchInOrder, h p List.mem_cons_self]
    exact ih fun q hq => h q (List.mem_cons_of_mem _ hq)

theorem recorded_get (h : Recorded svc stored ipfsHash p reference) : p ∈ [StorageProviderId.arweave, .filecoin] ∧
    ((stored ipfsHash).getD {}).get p = some reference ∧ reference ≠ [] := by
  obtain ⟨_, hne, record, hrecord, hget⟩ := h
  refine ⟨?_, by rw [hrecord, Option.getD_some, hget], hne⟩
  cases p with
  | ipfs => cases hget
  | filecoin => decide
  | arweave => decide

theorem fetch_truthful_iff (hhash : ipfsHash ≠ []) : FetchTruthful svc r ipfsHash stored ↔ Retrieves svc r ipfsHash stored := by
  have hfetch : ∀ error, r.ipfs = .error error → fetchDocument svc r ipfsHash stored = fetchInOrder r ipfsHash
      ((getBackupRefs svc r.access stored ipfsHash).getD {}) [(.ipfs, error)] [.arweave, .filecoin] := by
    intro error herror
    rw [fetchDocument, revertIf, if_neg hhash, herror]
    rfl
  constructor
  · intro h
    cases hipfs : r.ipfs with
    | ok response => exact .inl ⟨response, hipfs⟩
    | error error =>
      refine .inr ?_
      by_contra hnot
      rw [not_or, not_forall] at hnot
      obtain ⟨hread, p, hnone⟩ := hnot
      rw [not_forall] at hnone
      obtain ⟨reference, hrecorded⟩ := hnone
      have hrecorded := not_not.mp hrecorded
      have hempty : fetchDocument svc r ipfsHash stored = .error (.failed ipfsHash [(.ipfs, error)]) := by
        rw [hfetch error hipfs, getBackupRefs, readAllRefs, if_neg fun hboth => hread hboth.2]
        exact fetchInOrder_none fun q _ => by cases q <;> rfl
      obtain ⟨_, hmem⟩ := (h ipfsHash _ hempty).2 p reference hrecorded
      rw [List.mem_singleton] at hmem
      have hipfs : p = .ipfs := congrArg Prod.fst hmem.2
      have hlisted := (recorded_get hrecorded).1
      rw [hipfs] at hlisted
      revert hlisted
      decide
  · rintro h hash attempts hfailed
    cases hipfs : r.ipfs with
    | ok response =>
      rw [fetchDocument, revertIf, if_neg hhash, hipfs] at hfailed
      cases hfailed
    | error error =>
      refine ⟨⟨error, rfl⟩, fun p reference hrecorded => ?_⟩
      rw [hfetch error hipfs] at hfailed
      rcases h with ⟨response, hok⟩ | hread | hnone
      · rw [hipfs] at hok
        cases hok
      · rw [getBackupRefs, readAllRefs, if_pos ⟨hrecorded.1, hread⟩] at hfailed
        obtain ⟨hlisted, hget, hne⟩ := recorded_get hrecorded
        exact (fetchInOrder_failed hfailed).2 p hlisted reference hget hne
      · exact absurd hrecorded (hnone p reference)

end Fetches

/-! ## A call and a later fetch -/

section Calls
variable {opts : BackupDocumentOptions} {bytes : Bytes} {turns : StorageProviderId → Turn} {stored later : Refs}
  {r : Retrieval} {doc : JsString}

/-- Replication tells the truth just if each upload's reference is recorded, and the table can be read when a
fetch needs it. -/
theorem replication_truthful_iff (hhash : opts.ipfsHash ≠ []) (hbytes : resolveCiphertext svc opts = .ok bytes)
    (hnodup : (providersOf svc opts).Nodup) (hdoc : doc ≠ []) :
    ReplicationTruthful svc opts bytes turns stored r doc later ↔
      (∀ d ∈ recordings svc opts.ipfsHash bytes turns ({ ipfsHash := opts.ipfsHash }, stored) (providersOf svc opts),
        ∀ result, uploadToProvider svc d.provider bytes (turns d.provider).post = .ok result →
          Records svc opts.ipfsHash (turns d.provider) d) ∧
        Retrieves svc r doc later := by
  have hcall : backupDocument svc opts turns stored = .ok ((providersOf svc opts).foldl
      (fun s provider => backUp svc opts.ipfsHash bytes (turns provider) provider s)
        ({ ipfsHash := opts.ipfsHash }, stored)) := by
    rw [backupDocument, revertIf, if_neg hhash, hbytes]
    by_cases hempty : providersOf svc opts = []
    · rw [hempty]
      rfl
    · rw [ok_bind, if_neg hempty]
      rfl
  have hreport := foldl_backUp svc opts.ipfsHash bytes turns (providersOf svc opts) ({ ipfsHash := opts.ipfsHash }, stored)
  have htruthful := report_truthful_iff opts.ipfsHash ({ ipfsHash := opts.ipfsHash }, stored) hnodup
    (congrArg BackupDocumentReport.backups hreport)
    (congrArg BackupDocumentReport.failures hreport)
  constructor
  · rintro ⟨⟨report, after, hok, hreported⟩, hfetch⟩
    rw [hcall] at hok
    have hsame : _ = (report, after) := Except.ok.inj hok
    rw [hsame] at htruthful
    exact ⟨htruthful.mp hreported, (fetch_truthful_iff hdoc).mp hfetch⟩
  · rintro ⟨hrecords, hretrieves⟩
    exact ⟨⟨_, _, hcall, htruthful.mpr hrecords⟩, (fetch_truthful_iff hdoc).mpr hretrieves⟩

end Calls

/-! ## Two configured providers -/

def configured : Service where
  lighthouseApiKey := js "key"
  ipfsConfigured := true
  backupProviders := none
  hasStore := true
  encrypt plaintext _ := .ok plaintext
  number _ := none

def sealedDocument : BackupDocumentOptions where
  ipfsHash := js "Qm"
  ciphertext := some [1, 2, 3]

/-- Both providers take the document, and the store answers as given. -/
def uploads (access : StoreAccess) : StorageProviderId → Turn
  | .filecoin => { post := .ok ⟨true, 200, .value (fun name => if name = js "Hash" then .string (js "bafy") else .nullish) []⟩, access }
  | _ => { post := .ok ⟨true, 200, .text (js "tx")⟩, access }

def gatewaysDown : Retrieval where
  ipfs := .error (js "timeout")
  fetchFn _ _ := .error (js "timeout")

/-- The table after both uploads. -/
def uploaded : Refs := Function.update (fun _ => none) (js "Qm") (some { arweave := js "tx", filecoin := js "bafy" })

theorem replication_truthful_configured :
    ReplicationTruthful configured sealedDocument [1, 2, 3] (uploads {}) (fun _ => none) gatewaysDown (js "Qm") uploaded ∧
    Recorded configured uploaded (js "Qm") .arweave (js "tx") := by
  refine ⟨?_, rfl, by decide, _, Function.update_self .., rfl⟩
  refine (replication_truthful_iff (by decide) rfl (by decide) (by decide)).mpr ⟨fun d _ result _ => ?_, .inr (.inl rfl)⟩
  have haccess : (uploads {} d.provider).access = {} := by cases d.provider <;> rfl
  refine ⟨rfl, by rw [haccess], fun hproto => absurd hproto (by decide), fun hread => ?_⟩
  rw [haccess] at hread
  cases hread

/-- The store is full when the reference of Filecoin is written: it has been backed up, and has failed. -/
theorem full_store_reports_both : ¬ ReplicationTruthful configured sealedDocument [1, 2, 3]
    (uploads { writeThrows := some (js "QuotaExceededError") }) (fun _ => none) gatewaysDown (js "Qm") (fun _ => none) := by
  rintro ⟨⟨report, after, hok, h⟩, _⟩
  have hreport : (backupDocument configured sealedDocument (uploads { writeThrows := some (js "QuotaExceededError") })
      (fun _ => none)).map Prod.fst = .ok
        { ipfsHash := js "Qm"
          backups := [⟨.filecoin, js "bafy", 3, true⟩, ⟨.arweave, js "tx", 3, true⟩]
          failures := [⟨.filecoin, js "QuotaExceededError"⟩, ⟨.arweave, js "QuotaExceededError"⟩] } := by decide +kernel
  rw [hok] at hreport
  cases hreport
  have htwice := h.once .filecoin
  revert htwice
  decide +kernel

end ChainGuard.OffChain.StorageProvider
