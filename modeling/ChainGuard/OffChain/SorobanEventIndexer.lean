import ChainGuard.Library.PagedLog
import ChainGuard.OffChain.Js

/-! `SorobanEventIndexer`: the polls of the RPC, what they publish, and where they leave the cursor. The WebSocket relay
and the listeners' own code are left out. -/
namespace ChainGuard.OffChain.SorobanEvents
open History
set_option autoImplicit false

/-! ## Events -/

inductive SorobanEventTopic
  | VaultCreated | GuardianAdded | AccessRequested
  deriving DecidableEq

def SorobanEventTopic.string : SorobanEventTopic → JsString
  | .VaultCreated => js "VaultCreated"
  | .GuardianAdded => js "GuardianAdded"
  | .AccessRequested => js "AccessRequested"

def SOROBAN_EVENT_TOPICS : List SorobanEventTopic := [.VaultCreated, .GuardianAdded, .AccessRequested]

/-- An event of the RPC's answer. -/
structure RpcEvent (Json : Type) where
  id : Option JsString := none
  pagingToken : Option JsString := none
  contractId : Option JsString := none
  ledger : Option ℕ := none
  ledgerClosedAt : Option JsString := none
  topic : Option (List Json) := none
  value : Option Json := none

structure IndexedSorobanEvent (Json : Type) where
  id : JsString
  cursor : JsString
  contractId : JsString
  ledger : ℕ
  ledgerClosedAt : JsString
  topic : SorobanEventTopic
  rawTopics : List JsString
  value : Option Json

variable {Json : Type}

/-- `raw.pagingToken ?? raw.id` -/
def RpcEvent.cursor (raw : RpcEvent Json) : Option JsString := raw.pagingToken.or raw.id

def topicFrom (rawTopics : List JsString) : Option SorobanEventTopic :=
  SOROBAN_EVENT_TOPICS.find? fun topic => decide (topic.string <:+: (js " ").intercalate rawTopics)

/-- `string` is `String` on the topics' values, `now` the time as an ISO string. -/
def parseSorobanEvent (string : Json → JsString) (now : JsString) (raw : RpcEvent Json) (fallbackContractId : JsString) :
    Option (IndexedSorobanEvent Json) :=
  let rawTopics := (raw.topic.getD []).map string
  match topicFrom rawTopics, raw.cursor with
  | some topic, some cursor =>
    if cursor = [] then none
    else some {
      id := raw.id.getD cursor
      cursor
      contractId := raw.contractId.getD fallbackContractId
      ledger := raw.ledger.getD 0
      ledgerClosedAt := raw.ledgerClosedAt.getD now
      topic
      rawTopics
      value := raw.value }
  | _, _ => none

/-! ## The store -/

/-- The object stores of `spoovault-soroban-events`. -/
structure Database (Json : Type) where
  events : JsString → Option (IndexedSorobanEvent Json)
  eventsByTopic : SorobanEventTopic → Option JsString
  cursors : JsString → Option JsString

structure EventStore (Json : Type) where
  /-- A `Map`, in the order of insertion. -/
  memory : List (JsString × IndexedSorobanEvent Json) := []
  topicIndex : SorobanEventTopic → List JsString := fun _ => []
  /-- `none` where IndexedDB is unavailable. -/
  db : Option (Database Json) := none
  eventsIndexed : ℕ := 0

def Database.put (event : IndexedSorobanEvent Json) (db : Database Json) : Database Json where
  events := Function.update db.events event.id (some event)
  eventsByTopic := Function.update db.eventsByTopic event.topic (some event.id)
  cursors := Function.update db.cursors event.contractId (some event.cursor)

/-- `Map.prototype.set` -/
def mapSet {α : Type} (k : JsString) (v : α) : List (JsString × α) → List (JsString × α)
  | [] => [(k, v)]
  | entry :: entries => if entry.1 = k then (k, v) :: entries else entry :: mapSet k v entries

def EventStore.put (event : IndexedSorobanEvent Json) (store : EventStore Json) : EventStore Json where
  memory := mapSet event.id event store.memory
  topicIndex := Function.update store.topicIndex event.topic
    (if event.id ∈ store.topicIndex event.topic then store.topicIndex event.topic
      else store.topicIndex event.topic ++ [event.id])
  db := store.db.map (Database.put event)
  eventsIndexed := store.eventsIndexed + 1

/-! ## The indexer -/

structure IndexerConfig where
  /-- `none` is `Infinity`. -/
  maxRetries : Option ℕ := none
  batchSize : ℕ := 100

structure SorobanEventIndexer (Json : Type) where
  running : Bool := false
  cursor : Option JsString := none
  failures : ℕ := 0
  contractId : JsString := []
  store : EventStore Json := {}
  /-- What the listeners were called with, and the window's event was dispatched for. -/
  published : List (IndexedSorobanEvent Json) := []

def SorobanEventIndexer.publish (event : IndexedSorobanEvent Json) (s : SorobanEventIndexer Json) :
    SorobanEventIndexer Json :=
  { s with store := s.store.put event, published := s.published ++ [event] }

/-- What `fetch` leads to: an error, a status that is not ok, a JSON-RPC error, or events. -/
inductive Response (Json : Type)
  | failed
  | events (events : List (RpcEvent Json))

/-- One round of the loop of `poll`. -/
def SorobanEventIndexer.index (string : Json → JsString) (now : JsString) (s : SorobanEventIndexer Json)
    (raw : RpcEvent Json) : SorobanEventIndexer Json :=
  match parseSorobanEvent string now raw s.contractId with
  | some event => { s with cursor := some event.cursor }.publish event
  | none => s

def SorobanEventIndexer.poll (config : IndexerConfig) (string : Json → JsString) (now : RpcEvent Json → JsString)
    (response : Response Json) (s : SorobanEventIndexer Json) : SorobanEventIndexer Json :=
  if s.running then
    match response with
    | .events events =>
      { events.foldl (fun s raw => s.index string (now raw) raw) s with failures := 0 }
    | .failed =>
      match config.maxRetries with
      | some maxRetries =>
        { s with failures := s.failures + 1, running := !decide (maxRetries ≤ s.failures + 1) }
      | none => { s with failures := s.failures + 1 }
  else s

/-! ## Runs -/

/-- Where the event stands in the contract's log. -/
def RpcEvent.position (raw : RpcEvent Json) : JsString := raw.cursor.getD []

/-- The events that the RPC has of the contract: each has a paging token or an id, and these are different. -/
structure EventLog (Json : Type) where
  events : List (RpcEvent Json)
  positioned : ∀ raw ∈ events, raw.position ≠ []
  distinct : (events.map RpcEvent.position).Nodup

def recognised (string : Json → JsString) (raw : RpcEvent Json) : Bool :=
  (topicFrom ((raw.topic.getD []).map string)).isSome

/-- A successful poll: the page that the RPC answers with, and what the clock says at each of its events. -/
structure Poll (Json : Type) where
  page : List (RpcEvent Json)
  now : RpcEvent Json → JsString

/-- The state that `start` leaves when no cursor was persisted. -/
structure Started (contractId : JsString) (s : SorobanEventIndexer Json) : Prop where
  running : s.running = true
  cursor : s.cursor = none
  contractId : s.contractId = contractId
  published : s.published = []

/-- The RPC answers with at most `batchSize` events strictly after the cursor, in the order of the log. -/
def Polls (config : IndexerConfig) (string : Json → JsString) (log : EventLog Json) (s : SorobanEventIndexer Json)
    (poll : Poll Json) (s' : SorobanEventIndexer Json) : Prop :=
  PagedLog.Page RpcEvent.position log.events config.batchSize s.cursor poll.page ∧
    s' = s.poll config string poll.now (.events poll.page)

abbrev PollRun (config : IndexerConfig) (string : Json → JsString) (log : EventLog Json) (contractId : JsString) :
    List (Transition (SorobanEventIndexer Json) (Poll Json)) → SorobanEventIndexer Json → Prop :=
  Run (Started contractId) (Polls config string log)

def SorobanEventIndexer.reader (s : SorobanEventIndexer Json) : PagedLog.Reader JsString :=
  ⟨s.cursor, s.published.map (·.cursor)⟩

/-- Every published event is one of the log, and they are published once, in the order of the log, all of them after
as many polls as the log has events; the cursor is the last event of a page. -/
structure Delivered (string : Json → JsString) (log : EventLog Json) (contractId : JsString)
    (hist : List (Transition (SorobanEventIndexer Json) (Poll Json))) (s : SorobanEventIndexer Json) : Prop where
  parsed : ∀ event ∈ s.published, ∃ raw ∈ log.events, ∃ now, parseSorobanEvent string now raw contractId = some event
  delivered : PagedLog.Delivered RpcEvent.position log.events (recognised string) (hist.map (·.label.page)) s.reader

section Polling
variable {config : IndexerConfig} {string : Json → JsString} {log : EventLog Json} {contractId : JsString}

theorem parse_recognised {now : JsString} {raw : RpcEvent Json} (hposition : raw.position ≠ [])
    (hrecognised : recognised string raw = true) :
    ∃ event, parseSorobanEvent string now raw contractId = some event ∧ event.cursor = raw.position := by
  obtain ⟨topic, htopic⟩ := Option.isSome_iff_exists.mp hrecognised
  cases hcursor : raw.cursor with
  | none =>
    rw [RpcEvent.position, hcursor] at hposition
    exact (hposition rfl).elim
  | some cursor =>
    rw [RpcEvent.position, hcursor, Option.getD_some] at hposition
    simp [parseSorobanEvent, RpcEvent.position, htopic, hcursor, hposition]

theorem parse_unrecognised {now : JsString} {raw : RpcEvent Json} (hrecognised : ¬ recognised string raw = true) :
    parseSorobanEvent string now raw contractId = none := by
  rw [recognised, Option.not_isSome_iff_eq_none] at hrecognised
  simp [parseSorobanEvent, hrecognised]

theorem index_reads (now : RpcEvent Json → JsString) {page : List (RpcEvent Json)}
    (hpositioned : ∀ raw ∈ page, raw.position ≠ []) (s : SorobanEventIndexer Json) :
    (page.foldl (fun s raw => s.index string (now raw) raw) s).reader =
      s.reader.read RpcEvent.position (recognised string) page := by
  induction page generalizing s with
  | nil => simp [PagedLog.Reader.read]
  | cons raw page ih =>
    obtain ⟨hposition, hpositioned⟩ := List.forall_mem_cons.mp hpositioned
    rw [List.foldl_cons, ih hpositioned]
    by_cases hrecognised : recognised string raw = true
    · obtain ⟨event, hparse, hcursor⟩ := parse_recognised hposition hrecognised
      rw [SorobanEventIndexer.index, hparse, PagedLog.Reader.read, PagedLog.Reader.read,
        List.filter_cons_of_pos hrecognised, List.getLast?_cons]
      cases (page.filter (recognised string)).getLast? with
      | none => simp [SorobanEventIndexer.reader, SorobanEventIndexer.publish, hcursor]
      | some last => simp [SorobanEventIndexer.reader, SorobanEventIndexer.publish, hcursor]
    · rw [SorobanEventIndexer.index, parse_unrecognised hrecognised, PagedLog.Reader.read, PagedLog.Reader.read,
        List.filter_cons_of_neg hrecognised]

theorem index_parsed (now : RpcEvent Json → JsString) (page : List (RpcEvent Json)) (s : SorobanEventIndexer Json) :
    let s' := page.foldl (fun s raw => s.index string (now raw) raw) s
    s'.running = s.running ∧ s'.contractId = s.contractId ∧ ∀ event ∈ s'.published, event ∈ s.published ∨
      ∃ raw ∈ page, ∃ now, parseSorobanEvent string now raw s.contractId = some event := by
  induction page generalizing s with
  | nil => exact ⟨rfl, rfl, fun event hevent => .inl hevent⟩
  | cons raw page ih =>
    obtain ⟨hrunning, hcontract, hpublished⟩ := ih (s.index string (now raw) raw)
    rw [List.foldl_cons]
    cases hparse : parseSorobanEvent string (now raw) raw s.contractId with
    | none =>
      have hsame : s.index string (now raw) raw = s := by rw [SorobanEventIndexer.index, hparse]
      rw [hsame] at hrunning hcontract hpublished ⊢
      refine ⟨hrunning, hcontract, fun event hevent => (hpublished event hevent).imp_right ?_⟩
      rintro ⟨raw', hraw', hparsed⟩
      exact ⟨raw', List.mem_cons_of_mem _ hraw', hparsed⟩
    | some first =>
      have hindex : s.index string (now raw) raw = { s with cursor := some first.cursor }.publish first := by
        rw [SorobanEventIndexer.index, hparse]
      rw [hindex] at hrunning hcontract hpublished ⊢
      refine ⟨hrunning, hcontract, fun event hevent => ?_⟩
      rcases hpublished event hevent with hold | ⟨raw', hraw', hparsed⟩
      · rcases List.mem_append.mp hold with hold | hfirst
        · exact .inl hold
        · rw [List.mem_singleton.mp hfirst]
          exact .inr ⟨raw, List.mem_cons_self .., now raw, hparse⟩
      · exact .inr ⟨raw', List.mem_cons_of_mem _ hraw', hparsed⟩

structure Polling (string : Json → JsString) (log : EventLog Json) (contractId : JsString)
    (s : SorobanEventIndexer Json) : Prop where
  running : s.running = true
  contract : s.contractId = contractId
  parsed : ∀ event ∈ s.published, ∃ raw ∈ log.events, ∃ now, parseSorobanEvent string now raw contractId = some event

theorem page_subset {limit : ℕ} {cursor : Option JsString} {page : List (RpcEvent Json)}
    (h : PagedLog.Page RpcEvent.position log.events limit cursor page) : page ⊆ log.events :=
  fun _ hraw => (PagedLog.after_suffix cursor).subset (h.ordered.subset hraw)

theorem polling {hist : List (Transition (SorobanEventIndexer Json) (Poll Json))} {s : SorobanEventIndexer Json}
    (h : PollRun config string log contractId hist s) : Polling string log contractId s := by
  apply h.invariant
  · intro s hstart
    refine ⟨hstart.running, hstart.contractId, fun event hevent => ?_⟩
    rw [hstart.published] at hevent
    cases hevent
  · rintro s poll _ hpolling ⟨hpage, rfl⟩
    obtain ⟨hrunning, hcontract, hpublished⟩ := @index_parsed Json string poll.now poll.page s
    rw [SorobanEventIndexer.poll, if_pos hpolling.running]
    refine ⟨hrunning.trans hpolling.running, hcontract.trans hpolling.contract, fun event hevent => ?_⟩
    rcases hpublished event hevent with hold | ⟨raw, hraw, hparsed⟩
    · exact hpolling.parsed event hold
    · exact ⟨raw, page_subset hpage hraw, hpolling.contract ▸ hparsed⟩

theorem poll_reads {s : SorobanEventIndexer Json} {poll : Poll Json} {s' : SorobanEventIndexer Json}
    (hrunning : s.running = true) (h : Polls config string log s poll s') :
    PagedLog.Page RpcEvent.position log.events config.batchSize s.reader.cursor poll.page ∧
      s'.reader = s.reader.read RpcEvent.position (recognised string) poll.page := by
  obtain ⟨hpage, rfl⟩ := h
  refine ⟨hpage, ?_⟩
  rw [SorobanEventIndexer.poll, if_pos hrunning]
  exact index_reads poll.now (fun raw hraw => log.positioned raw (page_subset hpage hraw)) s

theorem reads {hist : List (Transition (SorobanEventIndexer Json) (Poll Json))} {s : SorobanEventIndexer Json}
    (h : PollRun config string log contractId hist s) :
    PagedLog.ReaderRun RpcEvent.position log.events (recognised string) config.batchSize
      (hist.map fun t => ⟨t.pre.reader, t.label.page, t.post.reader⟩) s.reader := by
  induction h with
  | start hstart => exact .start (by simp [SorobanEventIndexer.reader, hstart.cursor, hstart.published])
  | next hrun hstep ih => exact .next ih (poll_reads (polling hrun).running hstep)

theorem events_delivered_iff {hist : List (Transition (SorobanEventIndexer Json) (Poll Json))}
    {s : SorobanEventIndexer Json} (h : PollRun config string log contractId hist s) :
    (∀ early mid, Visits hist s early mid → Delivered string log contractId early mid) ↔
      ∀ t ∈ hist, ∀ last, t.label.page.getLast? = some last → recognised string last = true := by
  constructor
  · intro hdelivered t ht
    obtain ⟨earlier, hvisit, hrun, hstep⟩ := h.visits_of_mem ht
    have hreads := reads (hvisit.run h)
    apply PagedLog.ends_of_delivered log.distinct hreads
    simpa [Function.comp_def] using (hdelivered _ _ hvisit).delivered
  · intro hends early mid hvisit
    have hrun := hvisit.run h
    refine ⟨(polling hrun).parsed, ?_⟩
    have hreads := PagedLog.delivered_of_ends log.distinct (reads hrun) (by
      intro t ht
      obtain ⟨u, hu, rfl⟩ := List.mem_map.mp ht
      exact hends u (hvisit.suffix.subset hu))
    simpa [Function.comp_def] using hreads

end Polling

/-! ## Three events, of which the first is not recognised -/

def guardianRemoved : RpcEvent JsString := { id := some (js "1"), topic := some [js "GuardianRemoved"] }

def vaultCreated : RpcEvent JsString := { id := some (js "2"), topic := some [js "VaultCreated"] }

def guardianAdded : RpcEvent JsString := { id := some (js "3"), topic := some [js "GuardianAdded"] }

def mixedLog : EventLog JsString where
  events := [guardianRemoved, vaultCreated, guardianAdded]
  positioned := by decide
  distinct := by decide

def start (contractId : JsString) : SorobanEventIndexer JsString := { running := true, contractId }

theorem started (contractId : JsString) : Started contractId (start contractId) := ⟨rfl, rfl, rfl, rfl⟩

theorem mixedLog_page {page : List (RpcEvent JsString)}
    (h : PagedLog.Page RpcEvent.position mixedLog.events 1 none page) : page = [guardianRemoved] := by
  obtain ⟨rest, hrest⟩ := h.ordered
  match page, h.bounded, hrest with
  | [], _, _ => exact nomatch (h.exhausted rfl)
  | [raw], _, hrest =>
    obtain ⟨rfl, _⟩ := List.cons.inj hrest
    rfl

/-- However long it polls one event at a time, nothing is published. -/
theorem vaultCreated_blocked :
    (∀ hist s, PollRun { batchSize := 1 } id mixedLog (js "C") hist s → s.published = [] ∧ s.cursor = none) ∧
      recognised id vaultCreated = true ∧
      ∃ hist s, PollRun { batchSize := 1 } id mixedLog (js "C") hist s ∧ ¬ Delivered id mixedLog (js "C") hist s := by
  refine ⟨fun hist s h => ?_, by decide, ?_⟩
  · have hblocked : s.running = true ∧ s.published = [] ∧ s.cursor = none := by
      apply h.invariant (I := fun s => s.running = true ∧ s.published = [] ∧ s.cursor = none)
      · exact fun s hstart => ⟨hstart.running, hstart.published, hstart.cursor⟩
      · rintro s ⟨page, now⟩ _ ⟨hrunning, hpublished, hcursor⟩ ⟨hpage, rfl⟩
        rw [hcursor] at hpage
        cases mixedLog_page hpage
        have hparse : parseSorobanEvent id (now guardianRemoved) guardianRemoved s.contractId = none :=
          parse_unrecognised (by decide)
        simp [SorobanEventIndexer.poll, SorobanEventIndexer.index, hparse, hrunning, hpublished, hcursor]
    exact hblocked.2
  · have hpage : PagedLog.Page RpcEvent.position mixedLog.events 1 none [guardianRemoved] :=
      PagedLog.page_take _ _ (le_refl 1) none
    refine ⟨[⟨start (js "C"), ⟨[guardianRemoved], fun _ => []⟩, start (js "C")⟩], start (js "C"),
      .next (.start (started _)) ⟨hpage, rfl⟩, fun h => ?_⟩
    have hcursor := h.delivered.atLast _ _ guardianRemoved rfl rfl
    cases hcursor

/-- Each poll reads two events at most, and the first of them is not recognised. -/
theorem events_delivered_created : ∃ hist s, PollRun { batchSize := 2 } id mixedLog (js "C") hist s ∧
    (s.published.map (·.cursor) = [js "2", js "3"] ∧ hist.length = 3) ∧
    ∀ early mid, Visits hist s early mid → Delivered id mixedLog (js "C") early mid := by
  let polls : List (Poll JsString) :=
    [⟨[], fun _ => []⟩, ⟨[guardianAdded], fun _ => []⟩, ⟨[guardianRemoved, vaultCreated], fun _ => []⟩]
  let next (s : SorobanEventIndexer JsString) (poll : Poll JsString) :=
    s.poll { batchSize := 2 } id poll.now (.events poll.page)
  have hrun : PollRun { batchSize := 2 } id mixedLog (js "C") (executed next (start (js "C")) polls).1
      (executed next (start (js "C")) polls).2 :=
    .next (.next (.next (.start (started _)) ⟨PagedLog.page_take _ _ (by decide) none, rfl⟩)
      ⟨PagedLog.page_take _ _ (by decide) (some (js "2")), rfl⟩) ⟨PagedLog.page_take _ _ (by decide) (some (js "3")), rfl⟩
  refine ⟨_, _, hrun, ⟨by decide, rfl⟩, (events_delivered_iff hrun).mpr ?_⟩
  simp only [polls, executed, List.forall_mem_cons]
  refine ⟨nofun, ?_, ?_, nofun⟩
  · rintro _ ⟨⟩
    decide
  · rintro _ ⟨⟩
    decide

/-! ## Reloads -/

def Database.empty : Database Json := ⟨fun _ => none, fun _ => none, fun _ => none⟩

/-- The records of the topic's key, of which a store has one at most, and the events that they name. -/
def Database.getByTopic (topic : SorobanEventTopic) (db : Database Json) : List (IndexedSorobanEvent Json) :=
  match db.eventsByTopic topic with
  | some eventId => (db.events eventId).toList
  | none => []

/-- A topic has a set as soon as it has an id, and then the database is not asked. -/
def EventStore.getByTopic (topic : SorobanEventTopic) (store : EventStore Json) : List (IndexedSorobanEvent Json) :=
  match store.topicIndex topic with
  | [] => store.db.elim [] (Database.getByTopic topic)
  | memoryIds => memoryIds.filterMap fun id => store.memory.lookup id

def EventStore.getCursor (contractId : JsString) (store : EventStore Json) : Option JsString :=
  store.db.bind fun db => db.cursors contractId

/-- A fresh store over the same database. -/
def EventStore.reload (store : EventStore Json) : EventStore Json := { db := store.db }

inductive StoreStep (Json : Type)
  | put (event : IndexedSorobanEvent Json)
  | reload

/-- The store after the steps, the last one first, over a database that was empty. -/
def EventStore.after : List (StoreStep Json) → EventStore Json
  | [] => { db := some .empty }
  | .put event :: earlier => (after earlier).put event
  | .reload :: earlier => (after earlier).reload

/-- The events put, the last one first. -/
def putEvents : List (StoreStep Json) → List (IndexedSorobanEvent Json)
  | [] => []
  | .put event :: earlier => event :: putEvents earlier
  | .reload :: earlier => putEvents earlier

def lastPut {β : Type} [DecidableEq β] (key : IndexedSorobanEvent Json → β) (events : List (IndexedSorobanEvent Json))
    (k : β) : Option (IndexedSorobanEvent Json) :=
  events.find? fun event => decide (key event = k)

def StoredEvent (events : List (IndexedSorobanEvent Json)) (event : IndexedSorobanEvent Json) : Prop :=
  lastPut (·.id) events event.id = some event

/-- A fresh store finds the stored events of each topic, which are those found before, and each contract's last cursor. -/
structure Survives (steps : List (StoreStep Json)) : Prop where
  byTopic : ∀ topic event, event ∈ (EventStore.after steps).reload.getByTopic topic ↔
    StoredEvent (putEvents steps) event ∧ event.topic = topic
  same : ∀ topic event, event ∈ (EventStore.after steps).getByTopic topic ↔
    event ∈ (EventStore.after steps).reload.getByTopic topic
  cursor : ∀ contractId, (EventStore.after steps).reload.getCursor contractId =
    (lastPut (·.contractId) (putEvents steps) contractId).map (·.cursor)

def OneIdEach (events : List (IndexedSorobanEvent Json)) : Prop :=
  ∀ event ∈ events, ∀ event' ∈ events, event.topic = event'.topic ↔ event.id = event'.id

section Last
variable {β : Type} [DecidableEq β] {key : IndexedSorobanEvent Json → β} {events : List (IndexedSorobanEvent Json)}
  {event : IndexedSorobanEvent Json} {k : β}

theorem lastPut_cons (event : IndexedSorobanEvent Json) (events : List (IndexedSorobanEvent Json)) :
    lastPut key (event :: events) = Function.update (lastPut key events) (key event) (some event) := by
  funext k
  by_cases h : k = key event
  · subst h
    rw [Function.update_self, lastPut, List.find?_cons_of_pos (by simp)]
  · rw [Function.update_of_ne h, lastPut, List.find?_cons_of_neg (by simpa using Ne.symm h)]
    rfl

theorem key_of_lastPut (key : IndexedSorobanEvent Json → β) (h : lastPut key events k = some event) : key event = k := by
  simpa using List.find?_some h

theorem mem_of_lastPut (h : lastPut key events k = some event) : event ∈ events := List.mem_of_find?_eq_some h

theorem exists_lastPut (key : IndexedSorobanEvent Json → β) (h : event ∈ events) :
    ∃ last, lastPut key events (key event) = some last := by
  apply Option.isSome_iff_exists.mp
  rw [lastPut, List.find?_isSome]
  exact ⟨event, h, by simp⟩

end Last

theorem lookup_cons {α : Type} (entry : JsString × α) (entries : List (JsString × α)) (k : JsString) :
    (entry :: entries).lookup k = if k = entry.1 then some entry.2 else entries.lookup k := by
  obtain ⟨name, value⟩ := entry
  by_cases h : k = name
  · subst h
    simp
  · have hbeq : (k == name) = false := by simpa using h
    simp [List.lookup_cons, hbeq, h]

theorem mapSet_lookup {α : Type} (k : JsString) (v : α) (entries : List (JsString × α)) (k' : JsString) :
    (mapSet k v entries).lookup k' = if k' = k then some v else entries.lookup k' := by
  induction entries with
  | nil => rw [mapSet, lookup_cons]
  | cons entry entries ih =>
    rw [mapSet]
    split
    · next hname =>
      subst hname
      rw [lookup_cons, lookup_cons]
      split <;> rfl
    · next hname =>
      rw [lookup_cons, lookup_cons, ih]
      split
      · next h =>
        subst h
        rw [if_neg hname]
      · rfl

def Database.of (events : List (IndexedSorobanEvent Json)) : Database Json where
  events := lastPut (·.id) events
  eventsByTopic := fun topic => (lastPut (·.topic) events topic).map (·.id)
  cursors := fun contractId => (lastPut (·.contractId) events contractId).map (·.cursor)

theorem Database.put_of (event : IndexedSorobanEvent Json) (events : List (IndexedSorobanEvent Json)) :
    (Database.of events).put event = Database.of (event :: events) := by
  have hupdate : ∀ {β γ : Type} [DecidableEq β] (f : β → Option (IndexedSorobanEvent Json)) (k : β)
      (g : IndexedSorobanEvent Json → γ), (fun x => (Function.update f k (some event) x).map g) =
        Function.update (fun x => (f x).map g) k (some (g event)) := by
    intro β γ _ f k g
    exact Function.comp_update (Option.map g) f k (some event)
  simp only [Database.put, Database.of, lastPut_cons, hupdate]

structure Kept (events : List (IndexedSorobanEvent Json)) (store : EventStore Json) : Prop where
  db : store.db = some (.of events)
  memory : ∀ id event, store.memory.lookup id = some event → lastPut (·.id) events id = some event
  index : ∀ topic, ∀ id ∈ store.topicIndex topic, (∃ event, store.memory.lookup id = some event) ∧
    ∃ event ∈ events, event.topic = topic ∧ event.id = id

theorem Kept.put {events : List (IndexedSorobanEvent Json)} {store : EventStore Json} (h : Kept events store)
    (event : IndexedSorobanEvent Json) : Kept (event :: events) (store.put event) where
  db := by rw [EventStore.put, h.db, Option.map_some, Database.put_of]
  memory := by
    intro id last hlookup
    rw [EventStore.put, mapSet_lookup] at hlookup
    by_cases hid : id = event.id
    · subst hid
      rw [if_pos rfl] at hlookup
      rw [lastPut_cons, Function.update_self, hlookup]
    · rw [if_neg hid] at hlookup
      rw [lastPut_cons, Function.update_of_ne hid, h.memory id last hlookup]
  index := by
    intro topic id hid
    have hcases : id ∈ store.topicIndex topic ∨ topic = event.topic ∧ id = event.id := by
      change id ∈ Function.update store.topicIndex event.topic _ topic at hid
      by_cases htopic : topic = event.topic
      · subst htopic
        rw [Function.update_self] at hid
        split at hid
        · exact .inl hid
        · simpa using hid
      · rw [Function.update_of_ne htopic] at hid
        exact .inl hid
    rw [EventStore.put, mapSet_lookup]
    rcases hcases with hold | ⟨rfl, rfl⟩
    · obtain ⟨⟨last, hlast⟩, first, hfirst, hnames⟩ := h.index topic id hold
      refine ⟨?_, first, List.mem_cons_of_mem _ hfirst, hnames⟩
      split
      · exact ⟨event, rfl⟩
      · exact ⟨last, hlast⟩
    · exact ⟨⟨event, if_pos rfl⟩, event, List.mem_cons_self .., rfl, rfl⟩

theorem Kept.reload {events : List (IndexedSorobanEvent Json)} {store : EventStore Json} (h : Kept events store) :
    Kept events store.reload where
  db := h.db
  memory := by
    intro id event hlookup
    cases hlookup
  index := by
    intro topic id hid
    cases hid

theorem kept (steps : List (StoreStep Json)) : Kept (putEvents steps) (EventStore.after steps) := by
  induction steps with
  | nil =>
    exact ⟨rfl, fun id event hlookup => (nomatch hlookup), fun topic id hid => (nomatch hid)⟩
  | cons step steps ih =>
    cases step with
    | put event => exact ih.put event
    | reload => exact ih.reload

section Reload
variable {events : List (IndexedSorobanEvent Json)} {store : EventStore Json} {topic : SorobanEventTopic}
  {event : IndexedSorobanEvent Json}

theorem Database.mem_getByTopic : event ∈ (Database.of events).getByTopic topic ↔
    ∃ last, lastPut (·.topic) events topic = some last ∧ lastPut (·.id) events last.id = some event := by
  cases hlast : lastPut (·.topic) events topic <;> simp [Database.getByTopic, Database.of, hlast]

theorem Kept.mem_reload (h : Kept events store) : event ∈ store.reload.getByTopic topic ↔
    ∃ last, lastPut (·.topic) events topic = some last ∧ lastPut (·.id) events last.id = some event := by
  rw [← Database.mem_getByTopic, EventStore.getByTopic, EventStore.reload, h.db, Option.elim_some]

theorem Kept.byTopic (h : Kept events store) (hone : OneIdEach events) :
    event ∈ store.reload.getByTopic topic ↔ StoredEvent events event ∧ event.topic = topic := by
  rw [h.mem_reload]
  constructor
  · intro ⟨last, hlast, hevent⟩
    have hid : event.id = last.id := key_of_lastPut (·.id) hevent
    refine ⟨?_, ?_⟩
    · rw [StoredEvent, hid]
      exact hevent
    · rw [(hone event (mem_of_lastPut hevent) last (mem_of_lastPut hlast)).mpr hid]
      exact key_of_lastPut _ hlast
  · intro ⟨hstored, htopic⟩
    subst htopic
    obtain ⟨last, hlast⟩ := exists_lastPut (·.topic) (mem_of_lastPut hstored)
    refine ⟨last, hlast, ?_⟩
    have hid := (hone last (mem_of_lastPut hlast) event (mem_of_lastPut hstored)).mp (key_of_lastPut _ hlast)
    rw [hid]
    exact hstored

theorem Kept.same (h : Kept events store) (hone : OneIdEach events) :
    event ∈ store.getByTopic topic ↔ event ∈ store.reload.getByTopic topic := by
  have hids : ∀ id ∈ store.topicIndex topic, ∀ last, lastPut (·.topic) events topic = some last → last.id = id := by
    intro id hid last hlast
    obtain ⟨-, first, hfirst, htopic, rfl⟩ := h.index topic id hid
    exact (hone last (mem_of_lastPut hlast) first hfirst).mp ((key_of_lastPut _ hlast).trans htopic.symm)
  rw [h.mem_reload, EventStore.getByTopic]
  split
  · rw [h.db, Option.elim_some, Database.mem_getByTopic]
  · next hnonempty =>
    obtain ⟨id, hid⟩ := List.exists_mem_of_ne_nil _ hnonempty
    rw [List.mem_filterMap]
    constructor
    · intro ⟨id', hid', hlookup⟩
      obtain ⟨-, first, hfirst, rfl, rfl⟩ := h.index topic id' hid'
      obtain ⟨last, hlast⟩ := exists_lastPut (·.topic) hfirst
      refine ⟨last, hlast, ?_⟩
      rw [hids _ hid' last hlast]
      exact h.memory _ event hlookup
    · intro ⟨last, hlast, hevent⟩
      obtain ⟨⟨found, hfound⟩, -⟩ := h.index topic id hid
      refine ⟨id, hid, ?_⟩
      have hmemory := h.memory id found hfound
      rw [hids id hid last hlast, hmemory] at hevent
      rw [hfound, hevent]

/-- The first event that shares its topic or its id, but not both, with an earlier one is not found, or found under
the wrong topic. -/
theorem Kept.one_id (h : Kept (event :: events) store) (hone : OneIdEach events)
    (hsurvives : ∀ topic found, found ∈ store.reload.getByTopic topic ↔
      StoredEvent (event :: events) found ∧ found.topic = topic) : OneIdEach (event :: events) := by
  have hlast : StoredEvent (event :: events) event := by rw [StoredEvent, lastPut_cons, Function.update_self]
  have hnew : ∀ earlier ∈ events, event.topic = earlier.topic ↔ event.id = earlier.id := by
    intro earlier hearlier
    constructor
    · intro htopic
      apply Decidable.byContradiction
      intro hid
      obtain ⟨stored, hstored⟩ := exists_lastPut (·.id) hearlier
      have hstoredId : stored.id = earlier.id := key_of_lastPut _ hstored
      have hstoredTopic := (hone stored (mem_of_lastPut hstored) earlier hearlier).mpr hstoredId
      have hkept : StoredEvent (event :: events) stored := by
        rw [StoredEvent, lastPut_cons, hstoredId, Function.update_of_ne (Ne.symm hid), hstored]
      obtain ⟨newest, hnewest, hfound⟩ := h.mem_reload.mp ((hsurvives _ stored).mpr ⟨hkept, rfl⟩)
      rw [hstoredTopic, ← htopic, lastPut_cons, Function.update_self] at hnewest
      cases hnewest
      exact hid ((key_of_lastPut (·.id) hfound).symm.trans hstoredId)
    · intro hid
      apply Decidable.byContradiction
      intro htopic
      obtain ⟨newest, hnewest⟩ := exists_lastPut (·.topic) hearlier
      have hnewestId := (hone newest (mem_of_lastPut hnewest) earlier hearlier).mp (key_of_lastPut _ hnewest)
      have hfound : event ∈ store.reload.getByTopic earlier.topic := by
        rw [h.mem_reload]
        refine ⟨newest, ?_, ?_⟩
        · rw [lastPut_cons, Function.update_of_ne (Ne.symm htopic), hnewest]
        · rw [hnewestId, ← hid]
          exact hlast
      exact htopic ((hsurvives _ event).mp hfound).2
  intro first hfirst second hsecond
  rcases List.mem_cons.mp hfirst with rfl | hfirst
  · rcases List.mem_cons.mp hsecond with rfl | hsecond
    · exact iff_of_true rfl rfl
    · exact hnew second hsecond
  · rcases List.mem_cons.mp hsecond with hsecond | hsecond
    · rw [hsecond, eq_comm, hnew first hfirst, eq_comm]
    · exact hone first hfirst second hsecond

end Reload

theorem survives {steps : List (StoreStep Json)} (hone : OneIdEach (putEvents steps)) : Survives steps where
  byTopic := fun _ _ => (kept steps).byTopic hone
  same := fun _ _ => (kept steps).same hone
  cursor := by
    intro contractId
    rw [EventStore.getCursor, EventStore.reload, (kept steps).db]
    rfl

/-- Reloads lose nothing, at any point of the steps, exactly where each topic has one id and each id one topic. -/
theorem survives_reload_iff (steps : List (StoreStep Json)) :
    (∀ earlier, earlier <:+ steps → Survives earlier) ↔ OneIdEach (putEvents steps) := by
  constructor
  · intro hsurvives
    induction steps with
    | nil =>
      intro event hevent
      cases hevent
    | cons step steps ih =>
      have hone := ih fun earlier hsuffix => hsurvives earlier (hsuffix.trans (List.suffix_cons _ _))
      cases step with
      | put event => exact (kept (.put event :: steps)).one_id hone (hsurvives _ (List.suffix_refl _)).byTopic
      | reload => exact hone
  · intro hone earlier hsuffix
    apply survives
    have hsubset : ∀ event ∈ putEvents earlier, event ∈ putEvents steps := by
      obtain ⟨later, rfl⟩ := hsuffix
      induction later with
      | nil => exact fun _ hevent => hevent
      | cons step later ih =>
        have hlater : ∀ event ∈ putEvents (later ++ earlier), event ∈ putEvents (step :: later ++ earlier) := by
          cases step with
          | put _ => exact fun _ hevent => List.mem_cons_of_mem _ hevent
          | reload => exact fun _ hevent => hevent
        have hrest : OneIdEach (putEvents (later ++ earlier)) :=
          fun event hevent event' hevent' => hone event (hlater event hevent) event' (hlater event' hevent')
        exact fun event hevent => hlater event (ih hrest event hevent)
    exact fun event hevent event' hevent' => hone event (hsubset event hevent) event' (hsubset event' hevent')

def accessRequested (id : JsString) : IndexedSorobanEvent JsString where
  id := id
  cursor := id
  contractId := js "C"
  ledger := 7
  ledgerClosedAt := js "2025-01-01T00:00:00Z"
  topic := .AccessRequested
  rawTopics := [js "AccessRequested"]
  value := none

/-- Of two requests, both found before the reload, the first is lost. -/
theorem accessRequested_lost :
    let store := EventStore.after [.put (accessRequested (js "2")), .put (accessRequested (js "1"))]
    (store.getByTopic .AccessRequested).map (·.id) = [js "1", js "2"] ∧
      (store.reload.getByTopic .AccessRequested).map (·.id) = [js "2"] ∧
      ¬ Survives [.put (accessRequested (js "2")), .put (accessRequested (js "1"))] := by
  refine ⟨by decide, by decide, fun h => ?_⟩
  have hfound := (h.byTopic .AccessRequested (accessRequested (js "1"))).mpr ⟨by rfl, rfl⟩
  have hids : js "1" ∈ ((EventStore.after [.put (accessRequested (js "2")),
      .put (accessRequested (js "1"))]).reload.getByTopic .AccessRequested).map (·.id) :=
    List.mem_map_of_mem hfound
  exact absurd hids (by decide)

end ChainGuard.OffChain.SorobanEvents
