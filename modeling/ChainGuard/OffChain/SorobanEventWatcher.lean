import ChainGuard.Library.PagedLog
import ChainGuard.OffChain.Js

/-! `SorobanEventWatcher`: calls of `start` and `stop`, timers, and the answers of the RPC in any order. Handlers that
throw, or that call the watcher themselves, are left out. -/
namespace ChainGuard.OffChain.SorobanEventWatcher
open History
set_option autoImplicit false

/-! ## Events -/

structure SorobanEvent where
  contractId : JsString
  ledger : ℕ
  pagingToken : JsString
  deriving DecidableEq

/-- The events of all contracts, in the order of the ledgers; each has a paging token of its own. -/
structure EventLog where
  events : List SorobanEvent
  positioned : ∀ event ∈ events, event.pagingToken ≠ []
  distinct : (events.map (·.pagingToken)).Nodup
  sorted : events.Pairwise (·.ledger ≤ ·.ledger)

/-- The parameters of `getEvents`: a start ledger, or a cursor, beside which there may be a start ledger too. -/
inductive Range
  | startLedger (ledger : ℕ)
  | cursor (token : JsString) (startLedger : Option ℕ)
  deriving DecidableEq

structure Query where
  contractId : JsString
  range : Range
  deriving DecidableEq

def Range.token : Range → Option JsString
  | .startLedger _ => none
  | .cursor token _ => some token

/-- The events that a request ranges over: after the cursor, or without one from the start ledger. -/
def Query.matching (log : EventLog) (query : Query) : List SorobanEvent :=
  match query.range with
  | .startLedger ledger =>
    log.events.filter fun event => decide (event.contractId = query.contractId ∧ ledger ≤ event.ledger)
  | .cursor token _ =>
    (PagedLog.after SorobanEvent.pagingToken log.events (some token)).filter fun event =>
      decide (event.contractId = query.contractId)

/-! ## The watcher -/

/-- What a poll awaits. -/
inductive Poll
  | latestLedger
  | events (query : Query)
  deriving DecidableEq

/-- What is remembered here, not by the watcher, of the last call of `start` that took effect. -/
structure WatchRun where
  began : Option JsString := none
  dispatchedBefore : ℕ := 0
  /-- The first latest ledger that was obtained since. -/
  latest : Option ℕ := none
  /-- The start ledger of the first request without a cursor that brought events. -/
  origin : Option ℕ := none

structure Feed where
  contractId : JsString := []
  /-- An empty cursor is as good as none. -/
  lastCursor : Option JsString := none
  /-- What the handlers were called with. -/
  dispatched : List SorobanEvent := []
  run : WatchRun := {}

structure Watcher extends Feed where
  isRunning : Bool := false
  intervalId : Option ℕ := none
  rpcUrl : JsString := []
  /-- The timers that have not fired and were not cleared. -/
  timers : List ℕ := []
  nextTimer : ℕ := 1
  polls : ℕ → Option Poll := fun _ => none
  nextPoll : ℕ := 0

/-- `if (this.isRunning) this.intervalId = window.setTimeout(…)` -/
def Watcher.schedule (s : Watcher) : Watcher :=
  if s.isRunning then
    { s with intervalId := some s.nextTimer, timers := s.nextTimer :: s.timers, nextTimer := s.nextTimer + 1 }
  else s

def Watcher.send (poll : Poll) (s : Watcher) : Watcher :=
  { s with polls := Function.update s.polls s.nextPoll (some poll), nextPoll := s.nextPoll + 1 }

/-- `poll`, up to the first request. -/
def Watcher.poll (s : Watcher) : Watcher :=
  if !s.isRunning then s
  else if s.rpcUrl = [] ∨ s.contractId = [] then s.schedule
  else match s.lastCursor with
    | some token => s.send (.events ⟨s.contractId, .cursor token none⟩)
    | none => s.send .latestLedger

def Watcher.stop (s : Watcher) : Watcher :=
  { s with
    isRunning := false
    timers := s.timers.filter fun id => decide (s.intervalId ≠ some id)
    intervalId := none }

def Watcher.start (rpcUrl contractId : JsString) (s : Watcher) : Watcher :=
  if s.isRunning ∧ s.rpcUrl = rpcUrl ∧ s.contractId = contractId then s
  else
    let s := if s.isRunning then s.stop else s
    Watcher.poll { s with
      rpcUrl, contractId
      isRunning := true
      run := { began := s.lastCursor, dispatchedBefore := s.dispatched.length } }

def Watcher.finish (id : ℕ) (s : Watcher) : Watcher :=
  Watcher.schedule { s with polls := Function.update s.polls id none }

/-- The rest of the parameters is read when the latest ledger is there; on a failure it is zero. -/
def Watcher.obtain (id sequence : ℕ) (s : Watcher) : Watcher :=
  if sequence = 0 then s.finish id
  else
    let range := match s.lastCursor with
      | some token => Range.cursor token (some sequence)
      | none => .startLedger sequence
    { s with
      polls := Function.update s.polls id (some (.events ⟨s.contractId, range⟩))
      run := { s.run with latest := s.run.latest.or (some sequence) } }

def Feed.receive (f : Feed) (event : SorobanEvent) : Feed :=
  { f with
    lastCursor := if event.pagingToken = [] then none else some event.pagingToken
    dispatched := f.dispatched ++ [event] }

def Feed.read (range : Range) (page : List SorobanEvent) (f : Feed) : Feed :=
  let origin := match range with
    | .startLedger ledger => if page = [] then none else some ledger
    | .cursor _ _ => none
  page.foldl Feed.receive { f with run := { f.run with origin := f.run.origin.or origin } }

inductive Answer
  | failed
  | events (page : List SorobanEvent)

def Watcher.answer (id : ℕ) (query : Query) (answer : Answer) (s : Watcher) : Watcher :=
  match answer with
  | .failed => s.finish id
  | .events page => Watcher.finish id { s with toFeed := s.toFeed.read query.range page }

/-! ## Runs -/

inductive WatcherStep
  | start (rpcUrl contractId : JsString)
  | stop
  | timer (id : ℕ)
  | latestLedger (poll sequence : ℕ)
  | answer (poll : ℕ) (query : Query) (answer : Answer)

def Watcher.next (s : Watcher) : WatcherStep → Watcher
  | .start rpcUrl contractId => s.start rpcUrl contractId
  | .stop => s.stop
  | .timer id => Watcher.poll { s with timers := s.timers.filter fun timer => decide (timer ≠ id) }
  | .latestLedger poll sequence => s.obtain poll sequence
  | .answer poll query answer => s.answer poll query answer

/-- A page lists the first of the matching events, at most a hundred. -/
def Watcher.Enabled (log : EventLog) (s : Watcher) : WatcherStep → Prop
  | .start _ _ => True
  | .stop => True
  | .timer id => id ∈ s.timers
  | .latestLedger poll _ => s.polls poll = some .latestLedger
  | .answer poll query answer => s.polls poll = some (.events query) ∧
    match answer with
    | .failed => True
    | .events page => page <+: query.matching log ∧ page.length ≤ 100

def Steps (log : EventLog) (s : Watcher) (label : WatcherStep) (s' : Watcher) : Prop :=
  s.Enabled log label ∧ s' = s.next label

abbrev WatcherRun (log : EventLog) : List (Transition Watcher WatcherStep) → Watcher → Prop :=
  Run (· = {}) (Steps log)

/-! ## What is promised -/

/-- The ledger from which the present run on a contract owes its events: after that of the cursor it began with, where
this is one of the contract, else the first latest ledger it obtained. -/
def Feed.owedFrom (log : EventLog) (f : Feed) : Option ℕ :=
  match f.run.began.bind fun token =>
      log.events.find? fun event => decide (event.pagingToken = token ∧ event.contractId = f.contractId) with
  | some event => some (event.ledger + 1)
  | none => f.run.latest

def NotBack (log : EventLog) (before later : Option JsString) : Prop :=
  ∀ token, before = some token → ∃ token', later = some token' ∧
    (token' = token ∨ ∃ event ∈ PagedLog.after SorobanEvent.pagingToken log.events (some token),
      event.pagingToken = token')

/-- Each contract's events are dispatched once and in the order of the log, the cursor does not move back, and the
present run has dispatched, before each of its events, the ones before it that are owed. -/
structure Dispatches (log : EventLog) (hist : List (Transition Watcher WatcherStep)) (s : Watcher) : Prop where
  once : ∀ contractId, (s.dispatched.filter fun event => decide (event.contractId = contractId)).Nodup
  inOrder : ∀ contractId, (s.dispatched.filter fun event => decide (event.contractId = contractId)).Sublist log.events
  forward : ∀ t ∈ hist, NotBack log t.pre.lastCursor t.post.lastCursor
  noneSkipped : ∀ ledger, s.owedFrom log = some ledger →
    ∀ i event, s.dispatched[i]? = some event → s.run.dispatchedBefore ≤ i → event.contractId = s.contractId →
    ∀ earlier, [earlier, event].Sublist log.events → earlier.contractId = s.contractId → ledger ≤ earlier.ledger →
      earlier ∈ s.dispatched.take i

/-! ## When it is kept -/

/-- The events that the present run's requests range over: after the cursor it began with, or from the start ledger of
the request that brought its first events. -/
def Feed.reach (log : EventLog) (f : Feed) : Option (List SorobanEvent) :=
  match f.run.began, f.run.origin with
  | some token, _ => some (Query.matching log ⟨f.contractId, .cursor token none⟩)
  | none, some ledger => some (Query.matching log ⟨f.contractId, .startLedger ledger⟩)
  | none, none => none

def Reaches (log : EventLog) (f : Feed) : Prop :=
  ∀ ledger, f.owedFrom log = some ledger → ∀ reach, f.reach log = some reach →
    ∀ event ∈ log.events, event.contractId = f.contractId → ledger ≤ event.ledger → event ∈ reach

/-- An answer with events comes while the watcher is on the request's contract, with the cursor that the request had;
and no latest ledger is obtained, and no request begun with, such that owed events are out of the requests' range. -/
def Meets (log : EventLog) (t : Transition Watcher WatcherStep) : Prop :=
  (∀ poll query page, t.label = .answer poll query (.events page) → page ≠ [] →
    query.contractId = t.pre.contractId ∧ query.range.token = t.pre.lastCursor) ∧ Reaches log t.post.toFeed

/-! ## Reading -/

section Reading
variable {log : EventLog}

theorem events_nodup (log : EventLog) : log.events.Nodup := log.distinct.of_map _

theorem split_of_page {accept : SorobanEvent → Bool} {later page : List SorobanEvent}
    (h : page <+: later.filter accept) (hpage : page ≠ []) : ∃ read rest, later = read ++ rest ∧
      read.filter accept = page ∧ read.getLast? = page.getLast? := by
  induction later generalizing page with
  | nil => exact absurd (List.prefix_nil.mp h) hpage
  | cons event later ih =>
    by_cases haccept : accept event = true
    · rw [List.filter_cons_of_pos haccept] at h
      obtain ⟨first, tail, rfl⟩ := List.exists_cons_of_ne_nil hpage
      obtain ⟨rfl, htail⟩ := List.cons_prefix_cons.mp h
      by_cases hone : tail = []
      · subst hone
        exact ⟨[first], later, rfl, by simp [haccept], rfl⟩
      · obtain ⟨read, rest, rfl, hread, hlast⟩ := ih htail hone
        refine ⟨first :: read, rest, rfl, by rw [List.filter_cons_of_pos haccept, hread], ?_⟩
        rw [List.getLast?_cons, List.getLast?_cons, hlast]
    · rw [List.filter_cons_of_neg haccept] at h
      obtain ⟨read, rest, rfl, hread, hlast⟩ := ih h hpage
      refine ⟨event :: read, rest, rfl, by rw [List.filter_cons_of_neg haccept, hread], ?_⟩
      obtain ⟨first, tail, rfl⟩ := List.exists_cons_of_ne_nil hpage
      rw [List.getLast?_cons, hlast, List.getLast?_cons]
      rfl

def Feed.own (f : Feed) : List SorobanEvent := f.dispatched.drop f.run.dispatchedBefore

/-- What was dispatched comes from the part of the log up to the cursor, and the present run has had all of its reach
that is in this part. -/
structure ReadUpTo (log : EventLog) (f : Feed) (before later : List SorobanEvent) : Prop where
  split : log.events = before ++ later
  dispatched : f.dispatched.Sublist before
  cursor : f.lastCursor = before.getLast?.map (·.pagingToken)
  length : f.run.dispatchedBefore ≤ f.dispatched.length
  last : f.lastCursor = (f.own.getLast?.map (·.pagingToken)).or f.run.began
  fresh : f.run.began = none → f.run.origin = none → f.own = []
  origin : f.run.origin ≠ none → f.run.began = none ∧ f.own ≠ []
  reach : ∀ reach, f.reach log = some reach →
    reach = f.own ++ later.filter fun event => decide (event.contractId = f.contractId)

theorem readUpTo_init : ReadUpTo log {} [] log.events := by
  refine ⟨rfl, List.Sublist.refl _, rfl, le_rfl, rfl, fun _ _ => rfl, fun h => absurd rfl h, ?_⟩
  intro reach hreach
  cases hreach

theorem ReadUpTo.after {f : Feed} {before later : List SorobanEvent} (h : ReadUpTo log f before later) :
    PagedLog.after SorobanEvent.pagingToken log.events f.lastCursor = later := by
  rw [h.cursor, h.split]
  apply PagedLog.after_done
  rw [← h.split]
  exact log.distinct

theorem ReadUpTo.start {f : Feed} {before later : List SorobanEvent} (h : ReadUpTo log f before later)
    (contractId : JsString) : ReadUpTo log
      { f with contractId, run := { began := f.lastCursor, dispatchedBefore := f.dispatched.length } } before later where
  split := h.split
  dispatched := h.dispatched
  cursor := h.cursor
  length := le_rfl
  last := by simp [Feed.own]
  fresh := by simp [Feed.own]
  origin := fun hne => absurd rfl hne
  reach := by
    intro reach hreach
    have hafter := h.after
    cases hcursor : f.lastCursor with
    | none =>
      rw [Feed.reach, hcursor] at hreach
      cases hreach
    | some token =>
      rw [Feed.reach, hcursor] at hreach
      rw [hcursor] at hafter
      obtain rfl := Option.some.inj hreach
      simp [Feed.own, Query.matching, hafter]

theorem ReadUpTo.obtain {f : Feed} {before later : List SorobanEvent} (h : ReadUpTo log f before later)
    (latest : Option ℕ) : ReadUpTo log { f with run := { f.run with latest } } before later :=
  ⟨h.split, h.dispatched, h.cursor, h.length, h.last, h.fresh, h.origin, h.reach⟩

theorem receive_foldl (page : List SorobanEvent) (f : Feed) (hpage : page ≠ [])
    (hpositioned : ∀ event ∈ page, event.pagingToken ≠ []) : page.foldl Feed.receive f =
      { f with lastCursor := page.getLast?.map (·.pagingToken), dispatched := f.dispatched ++ page } := by
  induction page using List.reverseRecOn with
  | nil => exact absurd rfl hpage
  | append_singleton page event ih =>
    have hevent := hpositioned event (by simp)
    rw [List.foldl_append, List.foldl_cons, List.foldl_nil]
    by_cases hone : page = []
    · subst hone
      simp [Feed.receive, hevent]
    · rw [ih hone fun event hmem => hpositioned event (List.mem_append_left _ hmem)]
      simp [Feed.receive, hevent]

theorem read_nil (range : Range) (f : Feed) : f.read range [] = f := by
  cases range <;> simp [Feed.read]

theorem matching_sublist (query : Query) : (query.matching log).Sublist log.events := by
  rw [Query.matching]
  split
  · exact List.filter_sublist
  · exact List.filter_sublist.trans (PagedLog.after_suffix _).sublist

theorem sorted_after {before later : List SorobanEvent} {event event' : SorobanEvent}
    (hsplit : log.events = before ++ later) (hevent : event ∈ before) (hevent' : event' ∈ later) :
    event.ledger ≤ event'.ledger := by
  have hsorted := log.sorted
  rw [hsplit, List.pairwise_append] at hsorted
  exact hsorted.2.2 event hevent event' hevent'

def Feed.extended (f : Feed) (origin : Option ℕ) (page : List SorobanEvent) : Feed :=
  { f with
    lastCursor := page.getLast?.map (·.pagingToken)
    dispatched := f.dispatched ++ page
    run := { f.run with origin } }

theorem read_startLedger (f : Feed) (ledger : ℕ) {page : List SorobanEvent} (hpage : page ≠ [])
    (hpositioned : ∀ event ∈ page, event.pagingToken ≠ []) :
    f.read (.startLedger ledger) page = f.extended (f.run.origin.or (some ledger)) page := by
  unfold Feed.read
  dsimp only
  rw [if_neg hpage, receive_foldl page _ hpage hpositioned]
  rfl

theorem read_cursor (f : Feed) (token : JsString) (startLedger : Option ℕ) {page : List SorobanEvent}
    (hpage : page ≠ []) (hpositioned : ∀ event ∈ page, event.pagingToken ≠ []) :
    f.read (.cursor token startLedger) page = f.extended f.run.origin page := by
  unfold Feed.read
  dsimp only
  rw [Option.or_none, receive_foldl page _ hpage hpositioned]
  rfl

theorem extended_own {f : Feed} (hlength : f.run.dispatchedBefore ≤ f.dispatched.length) (origin : Option ℕ)
    (page : List SorobanEvent) : (f.extended origin page).own = f.own ++ page :=
  List.drop_append_of_le_length hlength

theorem ReadUpTo.extend {f : Feed} {before later : List SorobanEvent} (h : ReadUpTo log f before later)
    {origin : Option ℕ} {page read rest : List SorobanEvent} (hne : page ≠ []) (hsplit : later = read ++ rest)
    (hsublist : page.Sublist read) (hread : read.getLast? = page.getLast?)
    (horigin : origin ≠ none → f.run.began = none) (hbegan : f.run.began = none → origin ≠ none)
    (hreach : ∀ reach, (f.extended origin page).reach log = some reach →
      reach = f.own ++ page ++ rest.filter fun event => decide (event.contractId = f.contractId)) :
    ReadUpTo log (f.extended origin page) (before ++ read) rest := by
  have hlast : ∃ last, page.getLast? = some last := by
    cases hlast : page.getLast? with
    | none => exact absurd (List.getLast?_eq_none_iff.mp hlast) hne
    | some last => exact ⟨last, rfl⟩
  obtain ⟨last, hlast⟩ := hlast
  refine ⟨by rw [h.split, hsplit, List.append_assoc], h.dispatched.append hsublist, ?_, ?_, ?_, ?_, ?_, ?_⟩
  · rw [List.getLast?_append, hread, Feed.extended, hlast]
    rfl
  · have hlength := h.length
    simp only [Feed.extended, List.length_append]
    omega
  · rw [extended_own h.length, List.getLast?_append, Feed.extended, hlast]
    rfl
  · exact fun hnone hnone' => absurd hnone' (hbegan hnone)
  · intro hsome
    rw [extended_own h.length]
    exact ⟨horigin hsome, by simp [hne]⟩
  · intro reach heq
    rw [extended_own h.length]
    exact hreach reach heq

theorem ReadUpTo.unread {f : Feed} {before later : List SorobanEvent} (h : ReadUpTo log f before later)
    (hcursor : f.lastCursor = none) :
    f.own = [] ∧ f.run.began = none ∧ f.run.origin = none ∧ later = log.events := by
  have hlast := h.last
  have hafter := h.after
  rw [hcursor] at hlast hafter
  have hown : f.own = [] := by
    apply List.getLast?_eq_none_iff.mp
    cases hgot : f.own.getLast? with
    | none => rfl
    | some _ =>
      rw [hgot] at hlast
      cases hlast
  refine ⟨hown, ?_, ?_, hafter.symm⟩
  · rw [hown] at hlast
    exact hlast.symm
  · apply Decidable.byContradiction
    intro hsome
    exact (h.origin hsome).2 hown

theorem ReadUpTo.read {f : Feed} {before later : List SorobanEvent} (h : ReadUpTo log f before later) {query : Query}
    {page : List SorobanEvent} (hpage : page <+: query.matching log) (hne : page ≠ [])
    (hcontract : query.contractId = f.contractId) (htoken : query.range.token = f.lastCursor) :
    ∃ read rest, later = read ++ rest ∧ read.getLast? = page.getLast? ∧
      ReadUpTo log (f.read query.range page) (before ++ read) rest := by
  have hpositioned : ∀ event ∈ page, event.pagingToken ≠ [] := fun event hevent =>
    log.positioned event ((matching_sublist query).subset (hpage.subset hevent))
  rw [Query.matching, hcontract] at hpage
  cases hrange : query.range with
  | startLedger ledger =>
    rw [hrange, Range.token] at htoken
    rw [hrange] at hpage
    obtain ⟨hown, hbegan, horigin, rfl⟩ := h.unread htoken.symm
    obtain ⟨read, rest, hsplit, hread, hlast⟩ := split_of_page hpage hne
    refine ⟨read, rest, hsplit, hlast, ?_⟩
    rw [read_startLedger f ledger hne hpositioned, horigin]
    apply h.extend hne hsplit (hread ▸ List.filter_sublist) hlast (fun _ => hbegan) (fun _ => Option.some_ne_none _)
    intro reach hreach
    rw [Feed.reach, Feed.extended, hbegan] at hreach
    obtain rfl := Option.some.inj hreach
    -- what is left of the log lies behind the page's events, which start at the ledger
    have hrest : rest.filter (fun event => decide (event.contractId = f.contractId ∧ ledger ≤ event.ledger)) =
        rest.filter fun event => decide (event.contractId = f.contractId) := by
      apply List.filter_congr
      intro event hevent
      obtain ⟨first, hfirst⟩ := List.exists_mem_of_ne_nil page hne
      rw [← hread] at hfirst
      obtain ⟨hfirst, hledger⟩ := List.mem_filter.mp hfirst
      have hle := sorted_after hsplit hfirst hevent
      simp only [decide_eq_true_eq] at hledger
      have hlater : ledger ≤ event.ledger := hledger.2.trans hle
      simp [hlater]
    rw [Query.matching]
    dsimp only
    rw [hsplit, List.filter_append, hread, hrest, hown]
    rfl
  | cursor token startLedger =>
    rw [hrange, Range.token] at htoken
    rw [hrange] at hpage
    dsimp only at hpage
    rw [htoken, h.after] at hpage
    obtain ⟨read, rest, hsplit, hread, hlast⟩ := split_of_page hpage hne
    refine ⟨read, rest, hsplit, hlast, ?_⟩
    rw [read_cursor f token startLedger hne hpositioned]
    apply h.extend hne hsplit (hread ▸ List.filter_sublist) hlast (fun hsome => (h.origin hsome).1)
    · intro hbegan horigin
      have hempty := h.last
      rw [h.fresh hbegan horigin, hbegan, ← htoken] at hempty
      cases hempty
    · intro reach hreach
      rw [h.reach reach hreach, hsplit, List.filter_append, hread, List.append_assoc]

/-! ## Steps -/

@[simp] theorem schedule_toFeed (s : Watcher) : s.schedule.toFeed = s.toFeed := by
  rw [Watcher.schedule]
  split <;> rfl

@[simp] theorem finish_toFeed (id : ℕ) (s : Watcher) : (s.finish id).toFeed = s.toFeed := by
  rw [Watcher.finish, schedule_toFeed]

@[simp] theorem poll_toFeed (s : Watcher) : s.poll.toFeed = s.toFeed := by
  rw [Watcher.poll]
  split
  · rfl
  · split
    · exact schedule_toFeed s
    · split <;> rfl

theorem start_toFeed (rpcUrl contractId : JsString) (s : Watcher) : (s.start rpcUrl contractId).toFeed = s.toFeed ∨
    (s.start rpcUrl contractId).toFeed = { s.toFeed with
      contractId, run := { began := s.lastCursor, dispatchedBefore := s.dispatched.length } } := by
  rw [Watcher.start]
  split
  · exact .inl rfl
  · right
    dsimp only
    rw [poll_toFeed]
    split <;> rfl

theorem obtain_toFeed (id sequence : ℕ) (s : Watcher) :
    ∃ latest, (s.obtain id sequence).toFeed = { s.toFeed with run := { s.run with latest } } := by
  rw [Watcher.obtain]
  split
  · exact ⟨s.run.latest, finish_toFeed id s⟩
  · exact ⟨_, rfl⟩

theorem notBack_refl (cursor : Option JsString) : NotBack log cursor cursor := fun token htoken => ⟨token, htoken, .inl rfl⟩

theorem step_reads {s s' : Watcher} {label : WatcherStep} (hstep : Steps log s label s')
    (hmeets : ∀ poll query page, label = .answer poll query (.events page) → page ≠ [] →
      query.contractId = s.contractId ∧ query.range.token = s.lastCursor)
    {before later : List SorobanEvent} (h : ReadUpTo log s.toFeed before later) :
    (∃ before' later', ReadUpTo log s'.toFeed before' later') ∧ NotBack log s.lastCursor s'.lastCursor := by
  obtain ⟨henabled, rfl⟩ := hstep
  have hsame : ∀ {t : Watcher}, t.toFeed = s.toFeed →
      (∃ before' later', ReadUpTo log t.toFeed before' later') ∧ NotBack log s.lastCursor t.lastCursor := by
    intro t ht
    rw [ht]
    exact ⟨⟨before, later, h⟩, notBack_refl _⟩
  cases label with
  | start rpcUrl contractId =>
    rcases start_toFeed rpcUrl contractId s with heq | heq
    · exact hsame heq
    · rw [Watcher.next, heq]
      exact ⟨⟨before, later, h.start contractId⟩, notBack_refl _⟩
  | stop => exact hsame rfl
  | timer id => exact hsame (poll_toFeed _)
  | latestLedger poll sequence =>
    obtain ⟨latest, heq⟩ := obtain_toFeed poll sequence s
    rw [Watcher.next, heq]
    exact ⟨⟨before, later, h.obtain latest⟩, notBack_refl _⟩
  | answer poll query answer =>
    obtain ⟨-, hanswer⟩ := henabled
    cases answer with
    | failed => exact hsame (finish_toFeed _ _)
    | events page =>
      have heq : (s.next (.answer poll query (.events page))).toFeed = s.toFeed.read query.range page := finish_toFeed _ _
      by_cases hne : page = []
      · subst hne
        exact hsame (heq.trans (read_nil _ _))
      · obtain ⟨hcontract, htoken⟩ := hmeets poll query page rfl hne
        obtain ⟨read, rest, hsplit, hlast, hread⟩ := h.read hanswer.1 hne hcontract htoken
        rw [heq]
        refine ⟨⟨_, _, hread⟩, fun token hcursor => ?_⟩
        obtain ⟨event, hevent⟩ : ∃ event, page.getLast? = some event := by
          cases hgot : page.getLast? with
          | none => exact absurd (List.getLast?_eq_none_iff.mp hgot) hne
          | some event => exact ⟨event, rfl⟩
        rw [hevent] at hlast
        refine ⟨event.pagingToken, ?_, .inr ⟨event, ?_, rfl⟩⟩
        · rw [hread.cursor, List.getLast?_append, hlast]
          rfl
        · rw [← hcursor, h.after, hsplit]
          exact List.mem_append_left _ (List.mem_of_getLast? hlast)

/-! ## Runs -/

theorem pair_antisymm {events : List SorobanEvent} (hnodup : events.Nodup) {a b : SorobanEvent}
    (h : [a, b].Sublist events) : ¬ [b, a].Sublist events := by
  induction events with
  | nil => simp at h
  | cons event events ih =>
    obtain ⟨hnew, hnodup⟩ := List.nodup_cons.mp hnodup
    intro h'
    cases h with
    | cons _ h =>
      cases h' with
      | cons _ h' => exact ih hnodup h h'
      | cons_cons _ h' => exact hnew (h.subset (by simp))
    | cons_cons _ h =>
      cases h' with
      | cons _ h' => exact hnew (h'.subset (by simp))
      | cons_cons _ h' => exact hnew (h.subset (by simp))

theorem reach_sublist {f : Feed} {reach : List SorobanEvent} (h : f.reach log = some reach) :
    reach.Sublist log.events := by
  rw [Feed.reach] at h
  split at h
  · exact Option.some.inj h ▸ matching_sublist _
  · exact Option.some.inj h ▸ matching_sublist _
  · cases h

theorem ReadUpTo.none_skipped {f : Feed} {before later : List SorobanEvent} (h : ReadUpTo log f before later)
    (hreaches : Reaches log f) {ledger : ℕ} (howed : f.owedFrom log = some ledger) {i : ℕ} {event : SorobanEvent}
    (hevent : f.dispatched[i]? = some event) (hrun : f.run.dispatchedBefore ≤ i) {earlier : SorobanEvent}
    (hearlier : [earlier, event].Sublist log.events) (hcontract : earlier.contractId = f.contractId)
    (hledger : ledger ≤ earlier.ledger) : earlier ∈ f.dispatched.take i := by
  obtain ⟨j, rfl⟩ := Nat.exists_eq_add_of_le hrun
  have hown : f.own[j]? = some event := by rw [Feed.own, List.getElem?_drop, hevent]
  obtain ⟨reach, hreach⟩ : ∃ reach, f.reach log = some reach := by
    cases hbegan : f.run.began with
    | some token => exact ⟨_, by rw [Feed.reach, hbegan]⟩
    | none =>
      cases horigin : f.run.origin with
      | some origin => exact ⟨_, by rw [Feed.reach, hbegan, horigin]⟩
      | none =>
        rw [h.fresh hbegan horigin] at hown
        cases hown
  have hmem := hreaches ledger howed reach hreach earlier (hearlier.subset (by simp)) hcontract hledger
  obtain ⟨hj, hget⟩ := List.getElem?_eq_some_iff.mp hown
  have hsplit : f.own = f.own.take j ++ event :: f.own.drop (j + 1) := by
    rw [← hget, List.getElem_cons_drop, List.take_append_drop]
  have hfull := h.reach reach hreach
  rw [hsplit, List.append_assoc, List.cons_append] at hfull
  have hsublist := reach_sublist hreach
  rw [hfull] at hmem hsublist
  rcases List.mem_append.mp hmem with hread | hmem
  · have hdrop : (f.dispatched.take (f.run.dispatchedBefore + j)).drop f.run.dispatchedBefore = f.own.take j := by
      rw [List.drop_take, Nat.add_sub_cancel_left]
      rfl
    rw [← hdrop] at hread
    exact List.mem_of_mem_drop hread
  · exfalso
    rcases List.mem_cons.mp hmem with rfl | hlater
    · exact pair_antisymm (events_nodup log) hearlier hearlier
    · refine pair_antisymm (events_nodup log) hearlier (List.Sublist.trans ?_ hsublist)
      exact ((List.singleton_sublist.mpr hlater).cons_cons event).trans (List.sublist_append_right _ _)

theorem readUpTo_run {hist : List (Transition Watcher WatcherStep)} {s : Watcher} (h : WatcherRun log hist s)
    (hmeets : ∀ t ∈ hist, Meets log t) : (∃ before later, ReadUpTo log s.toFeed before later) ∧
      Reaches log s.toFeed ∧ ∀ t ∈ hist, NotBack log t.pre.lastCursor t.post.lastCursor := by
  apply h.relates_of (C := Meets log) (R := fun hist s => (∃ before later, ReadUpTo log s.toFeed before later) ∧
    Reaches log s.toFeed ∧ ∀ t ∈ hist, NotBack log t.pre.lastCursor t.post.lastCursor) ?_ ?_ hmeets
  · intro s hs
    subst hs
    refine ⟨⟨[], log.events, readUpTo_init⟩, ?_, fun t ht => (nomatch ht)⟩
    intro ledger howed
    cases howed
  · intro hist s label s' _ hR hmeets hstep
    obtain ⟨⟨before, later, hread⟩, -, hback⟩ := hR
    obtain ⟨hread', hnotBack⟩ := step_reads hstep hmeets.1 hread
    refine ⟨hread', hmeets.2, fun t ht => ?_⟩
    rcases List.mem_cons.mp ht with rfl | ht
    · exact hnotBack
    · exact hback t ht

/-- In a run whose answers all come to the contract and the cursor that they were asked for, and whose requests reach
the owed events, the promises are kept at every point. -/
theorem dispatches_of_meets {hist : List (Transition Watcher WatcherStep)} {s : Watcher} (h : WatcherRun log hist s)
    (hmeets : ∀ t ∈ hist, Meets log t) {early : List (Transition Watcher WatcherStep)} {mid : Watcher}
    (hvisit : Visits hist s early mid) : Dispatches log early mid := by
  obtain ⟨⟨before, later, hread⟩, hreaches, hback⟩ := readUpTo_run (hvisit.run h) fun t ht =>
    hmeets t (hvisit.suffix.subset ht)
  have hsublist : mid.dispatched.Sublist log.events := by
    rw [hread.split]
    exact hread.dispatched.trans (List.sublist_append_left _ _)
  refine ⟨fun contractId => ?_, fun contractId => List.filter_sublist.trans hsublist, hback, ?_⟩
  · exact (events_nodup log).sublist (List.filter_sublist.trans hsublist)
  · intro ledger howed i event hevent hrun _ earlier hearlier hcontract hledger
    exact hread.none_skipped hreaches howed hevent hrun hearlier hcontract hledger

end Reading

/-! ## Two events -/

def eventAt (ledger : ℕ) (pagingToken : JsString) : SorobanEvent := ⟨js "C", ledger, pagingToken⟩

def twoEvents : EventLog where
  events := [eventAt 101 (js "1"), eventAt 103 (js "2")]
  positioned := by decide
  distinct := by decide
  sorted := by decide

instance (log : EventLog) (s : Watcher) : (label : WatcherStep) → Decidable (s.Enabled log label)
  | .start _ _ => inferInstanceAs (Decidable True)
  | .stop => inferInstanceAs (Decidable True)
  | .timer id => inferInstanceAs (Decidable (id ∈ s.timers))
  | .latestLedger poll _ => inferInstanceAs (Decidable (s.polls poll = some .latestLedger))
  | .answer poll query .failed => inferInstanceAs (Decidable (s.polls poll = some (.events query) ∧ True))
  | .answer poll query (.events page) => inferInstanceAs (Decidable (s.polls poll = some (.events query) ∧
      page <+: query.matching log ∧ page.length ≤ 100))

/-- The steps can be taken, the last one first. -/
def Allowed (log : EventLog) : List WatcherStep → Prop
  | [] => True
  | label :: earlier => (executed Watcher.next {} earlier).2.Enabled log label ∧ Allowed log earlier

instance Allowed.decidable (log : EventLog) : (labels : List WatcherStep) → Decidable (Allowed log labels)
  | [] => inferInstanceAs (Decidable True)
  | label :: earlier =>
    have := Allowed.decidable log earlier
    inferInstanceAs (Decidable ((executed Watcher.next {} earlier).2.Enabled log label ∧ Allowed log earlier))

theorem allowed_run {log : EventLog} {labels : List WatcherStep} (h : Allowed log labels) :
    WatcherRun log (executed Watcher.next {} labels).1 (executed Watcher.next {} labels).2 := by
  induction labels with
  | nil => exact .start rfl
  | cons label labels ih => exact .next (ih h.2) ⟨h.1, rfl⟩

def startC : WatcherStep := .start (js "rpc") (js "C")

def fromLedger (ledger : ℕ) : Query := ⟨js "C", .startLedger ledger⟩

def restarted : List WatcherStep :=
  [.answer 1 (fromLedger 100) (.events [eventAt 101 (js "1")]), .answer 0 (fromLedger 100) (.events [eventAt 101 (js "1")]),
    .latestLedger 1 100, startC, .stop, .latestLedger 0 100, startC]

/-- Two polls without a cursor, between which the first event happens. -/
def polledTwice : List WatcherStep :=
  [.answer 1 (fromLedger 102) (.events [eventAt 103 (js "2")]), .latestLedger 1 102, .timer 1,
    .answer 0 (fromLedger 100) (.events []), .latestLedger 0 100, startC]

/-- The one run dispatches an event twice, the other skips one. -/
theorem promises_broken :
    (WatcherRun twoEvents (executed Watcher.next {} restarted).1 (executed Watcher.next {} restarted).2 ∧
      (executed Watcher.next {} restarted).2.dispatched = [eventAt 101 (js "1"), eventAt 101 (js "1")] ∧
      ¬ Dispatches twoEvents (executed Watcher.next {} restarted).1 (executed Watcher.next {} restarted).2) ∧
    WatcherRun twoEvents (executed Watcher.next {} polledTwice).1 (executed Watcher.next {} polledTwice).2 ∧
      (executed Watcher.next {} polledTwice).2.dispatched = [eventAt 103 (js "2")] ∧
      ¬ Dispatches twoEvents (executed Watcher.next {} polledTwice).1 (executed Watcher.next {} polledTwice).2 := by
  refine ⟨⟨allowed_run (by decide), by decide, fun h => ?_⟩, allowed_run (by decide), by decide, fun h => ?_⟩
  · exact absurd (h.once (js "C")) (by decide)
  · have hskipped := h.noneSkipped 100 (by decide) 0 (eventAt 103 (js "2")) (by decide) (by decide) (by decide)
      (eventAt 101 (js "1")) (List.Sublist.refl _) (by decide) (by decide)
    exact absurd hskipped (by decide)

def afterToken (token : JsString) : Query := ⟨js "C", .cursor token none⟩

/-- Two polls with an event each, and a restart with its poll. -/
def answered : List WatcherStep :=
  [.answer 2 (afterToken (js "2")) (.events []), startC, .stop,
    .answer 1 (afterToken (js "1")) (.events [eventAt 103 (js "2")]), .timer 1,
    .answer 0 (fromLedger 100) (.events [eventAt 101 (js "1")]), .latestLedger 0 100, startC]

instance (log : EventLog) (f : Feed) : Decidable (Reaches log f) :=
  inferInstanceAs (Decidable (∀ ledger ∈ f.owedFrom log, ∀ reach ∈ f.reach log,
    ∀ event ∈ log.events, event.contractId = f.contractId → ledger ≤ event.ledger → event ∈ reach))

theorem answered_meets : ∀ t ∈ (executed Watcher.next {} answered).1, Meets twoEvents t := by
  have hreaches : ∀ t ∈ (executed Watcher.next {} answered).1, Reaches twoEvents t.post.toFeed := by decide
  refine fun t ht => ⟨fun poll query page hlabel hpage => ?_, hreaches t ht⟩
  simp only [answered, executed, List.mem_cons, List.not_mem_nil, or_false] at ht
  rcases ht with rfl | rfl | rfl | rfl | rfl | rfl | rfl | rfl
  case inl =>
    cases hlabel
    exact absurd rfl hpage
  all_goals cases hlabel
  · exact ⟨by decide, by decide⟩
  · exact ⟨by decide, by decide⟩

theorem dispatches_answered :
    (executed Watcher.next {} answered).2.dispatched = [eventAt 101 (js "1"), eventAt 103 (js "2")] ∧
    Dispatches twoEvents (executed Watcher.next {} answered).1 (executed Watcher.next {} answered).2 :=
  ⟨by decide, dispatches_of_meets (allowed_run (by decide)) answered_meets .here⟩

end ChainGuard.OffChain.SorobanEventWatcher
