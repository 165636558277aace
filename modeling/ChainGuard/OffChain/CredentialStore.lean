import ChainGuard.Library.History
import ChainGuard.OffChain.Js

/-! `OpaqueCredentialStore`: credential records in memory, and the file that they are loaded from and
written to. A call runs in pieces, cut at its awaits, and the pieces of different calls interleave. -/
namespace ChainGuard.OffChain.OpaqueCredentialStore
open History
set_option autoImplicit false

def STORE_VERSION : String := "spoovault-opaque-credential-store-v1"

structure CredentialRecord where
  registrationRecord : JsString
  createdAt : JsString
  updatedAt : JsString
  deriving DecidableEq

abbrev Records := JsString → Option CredentialRecord

/-- The file, as `JSON.parse` returns it. -/
structure StoreFile where
  version : String
  records : Records

inductive ReadFailure
  /-- The code `ENOENT`. -/
  | noEntry
  | other
  deriving DecidableEq

inductive Operation
  | get (account : JsString)
  | put (account registrationRecord : JsString)
  | delete (account : JsString)
  deriving DecidableEq

/-- Where a call is. -/
inductive Stage
  /-- `readFile` is under way. -/
  | reading
  /-- `load` is about to go on with what `readFile` came to. -/
  | read (content : Except ReadFailure StoreFile)
  /-- `load` has returned. -/
  | loaded
  /-- The write of its snapshot is under way, or waits for others. -/
  | writing
  /-- `persist` is about to return. -/
  | written
  | resolved (value : Option CredentialRecord)
  | rejected

structure Call where
  operation : Operation
  stage : Stage

/-- The promise `pendingWrite`: the calls whose writes are chained on it, each with its snapshot, oldest
first, or that it is rejected. -/
structure PendingWrite where
  queue : List (ℕ × Records) := []
  rejected : Bool := false

/-- The store with its file and with the calls made so far, numbered as they come. -/
structure Store where
  /-- Whether there is one. -/
  filePath : Bool := true
  file : Option StoreFile
  records : Records := fun _ => none
  loaded : Bool := false
  pendingWrite : PendingWrite := {}
  calls : ℕ → Option Call := fun _ => none
  next : ℕ := 0

/-- What happens: a method is called, the next piece of a call runs, or `readFile` or the first write of
the chain ends, by failing or not. -/
inductive Event
  | call (operation : Operation)
  | read (id : ℕ) (fails : Bool)
  | resume (id : ℕ) (now : JsString)
  | write (fails : Bool)

/-! ## Pieces -/

def Store.setStages (ids : List ℕ) (stage : Stage) (s : Store) : Store :=
  { s with calls := fun id => if id ∈ ids then (s.calls id).map ({ · with stage }) else s.calls id }

def Store.setStage (id : ℕ) (stage : Stage) (s : Store) : Store := s.setStages [id] stage

/-- `load`, up to its await. -/
def load (s : Store) : Store × Stage :=
  if s.loaded then (s, .loaded)
  else if s.filePath then ({ s with loaded := true }, .reading)
  else ({ s with loaded := true }, .loaded)

/-- A method up to its first await. -/
def start (operation : Operation) (s : Store) : Store :=
  let (s, stage) := load s
  { s with calls := Function.update s.calls s.next (some { operation, stage }), next := s.next + 1 }

def readFile (fails : Bool) (file : Option StoreFile) : Except ReadFailure StoreFile :=
  if fails then .error .other
  else
    match file with
    | none => .error .noEntry
    | some content => .ok content

/-- The rest of `load`: the records, unless it throws. -/
def finishLoad (records : Records) : Except ReadFailure StoreFile → Option Records
  | .error .noEntry => some records
  | .error .other => none
  | .ok parsed =>
    if parsed.version ≠ STORE_VERSION then none
    else some fun account => (parsed.records account).or (records account)

/-- `persist`, up to its await. -/
def persist (id : ℕ) (s : Store) : Store :=
  if s.filePath = false then s.setStage id .written
  else if s.pendingWrite.rejected then s.setStage id .rejected
  else
    { s with
      pendingWrite := { s.pendingWrite with queue := s.pendingWrite.queue ++ [(id, s.records)] } }.setStage id
        .writing

def get (id : ℕ) (account : JsString) (s : Store) : Store :=
  s.setStage id (.resolved (s.records account))

def put (id : ℕ) (account registrationRecord now : JsString) (s : Store) : Store :=
  let previous := s.records account
  let record := { registrationRecord, createdAt := (previous.map (·.createdAt)).getD now, updatedAt := now }
  persist id { s with records := Function.update s.records account (some record) }

def delete (id : ℕ) (account : JsString) (s : Store) : Store :=
  persist id { s with records := Function.update s.records account none }

/-- The next piece of a call. -/
def advance (id : ℕ) (now : JsString) (call : Call) (s : Store) : Store :=
  match call.stage with
  | .read content =>
    match finishLoad s.records content with
    | none => s.setStage id .rejected
    | some records => { s with records }.setStage id .loaded
  | .loaded =>
    match call.operation with
    | .get account => get id account s
    | .put account registrationRecord => put id account registrationRecord now s
    | .delete account => delete id account s
  | .written => s.setStage id (.resolved none)
  | .reading | .writing | .resolved _ | .rejected => s

/-- The first write of the chain ends. When it fails, every write chained after it is rejected with it. -/
def finishWrite (fails : Bool) (s : Store) : Store :=
  match s.pendingWrite.queue with
  | [] => s
  | (id, snapshot) :: rest =>
    if fails then
      { s with pendingWrite := { queue := [], rejected := true } }.setStages (id :: rest.map Prod.fst) .rejected
    else
      { s with
        file := some { version := STORE_VERSION, records := snapshot }
        pendingWrite := { s.pendingWrite with queue := rest } }.setStage id .written

def exec (s : Store) : Event → Store
  | .call operation => start operation s
  | .read id fails =>
    match s.calls id with
    | some { stage := .reading, .. } => s.setStage id (.read (readFile fails s.file))
    | _ => s
  | .resume id now =>
    match s.calls id with
    | some call => advance id now call s
    | none => s
  | .write fails => finishWrite fails s

def Steps (s : Store) (e : Event) (s' : Store) : Prop := exec s e = s'

/-- A new store on a file, and any interleaving of calls, reads and writes. -/
abbrev StoreRun (file : Option StoreFile) : List (Transition Store Event) → Store → Prop :=
  Run (· = { file }) Steps

/-! ## Stages -/

section Stages
variable (s : Store) (id : ℕ) (ids : List ℕ) (stage : Stage)

@[simp] theorem setStages_pendingWrite : (s.setStages ids stage).pendingWrite = s.pendingWrite := rfl

variable {s id ids stage}

theorem setStages_calls {call : Call} (h : (s.setStages ids stage).calls id = some call) :
    id ∈ ids ∧ (∃ before, s.calls id = some before ∧ call = { before with stage }) ∨
      id ∉ ids ∧ s.calls id = some call := by
  simp only [Store.setStages] at h
  split at h
  · next hmem =>
    obtain ⟨before, hbefore, rfl⟩ := Option.map_eq_some_iff.mp h
    exact .inl ⟨hmem, before, hbefore, rfl⟩
  · next hmem => exact .inr ⟨hmem, h⟩

theorem setStages_none (h : s.calls id = none) : (s.setStages ids stage).calls id = none := by
  simp [Store.setStages, h]

theorem setStages_operation {call : Call} (h : s.calls id = some call) :
    ∃ call', (s.setStages ids stage).calls id = some call' ∧ call'.operation = call.operation := by
  by_cases hmem : id ∈ ids
  · exact ⟨{ call with stage }, by simp [Store.setStages, hmem, h], rfl⟩
  · exact ⟨call, by simp [Store.setStages, hmem, h], rfl⟩

theorem setStage_self {call : Call} (h : s.calls id = some call) :
    (s.setStage id stage).calls id = some { call with stage } := by
  simp [Store.setStage, Store.setStages, h]

end Stages

end ChainGuard.OffChain.OpaqueCredentialStore
