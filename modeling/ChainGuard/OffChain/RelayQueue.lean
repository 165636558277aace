import ChainGuard.Library.History
import ChainGuard.OffChain.Js

/-! `DurableRelayQueue`: jobs are retried with a backoff, and every transition is written to a journal that a
later process loads. A handler is awaited, and others run meanwhile. -/
namespace ChainGuard.OffChain.RelayQueue
open History
set_option autoImplicit false

variable {T : Type}

def MAX_COMPLETED_IDS : ℕ := 2000
def MAX_DEAD_JOBS : ℕ := 100

/-! ## State -/

structure PersistedJob (T : Type) where
  id : JsString
  payload : T
  attempts : ℕ
  nextAttemptAtMs : ℕ
  lastError : Option JsString := none
  /-- The objects are told apart here by which accepted call of `enqueue` they come from. -/
  ref : ℕ

structure DeadJob (T : Type) extends PersistedJob T where
  error : JsString

structure QueueState (T : Type) where
  jobs : List (PersistedJob T) := []
  completedIds : List JsString := []
  dead : List (DeadJob T) := []

def QueueState.jobIds (q : QueueState T) : List JsString := q.jobs.map (·.id)

def QueueState.deadIds (q : QueueState T) : List JsString := q.dead.map (·.id)

structure QueueOptions where
  maxAttempts : ℕ := 5
  retryBaseMs : ℕ := 500
  retryMaxBackoffMs : ℕ := 30000
  /-- `num` of the relayer's configuration lets only positive numbers through. -/
  maxAttempts_pos : 0 < maxAttempts := by decide

/-- A call of the handler, with the variables of `pump` that are used after it. -/
structure Attempt (T : Type) where
  call : ℕ
  dueIndex : ℕ
  job : PersistedJob T

structure Process (T : Type) where
  state : QueueState T := {}
  stopped : Bool := true
  /-- Whether `this.inFlight` is set. -/
  inFlight : Bool := false
  journal : Option (QueueState T) := none
  /-- The calls of the handler that have not settled. -/
  running : List (Attempt T) := []
  calls : ℕ := 0
  next : ℕ := 0

def load (journal : Option (QueueState T)) : QueueState T := journal.getD {}

def Process.persist (p : Process T) : Process T := { p with journal := some p.state }

/-! ## `enqueue` -/

def QueueState.seen (q : QueueState T) (id : JsString) : Prop := id ∈ q.jobIds ∨ id ∈ q.completedIds ∨ id ∈ q.deadIds

instance (q : QueueState T) (id : JsString) : Decidable (q.seen id) := inferInstanceAs (Decidable (_ ∨ _ ∨ _))

/-- With whether the job is accepted. -/
def Process.enqueue (id : JsString) (payload : T) (now : ℕ) (p : Process T) : Bool × Process T :=
  if p.state.seen id then (false, p)
  else
    let job := { id, payload, attempts := 0, nextAttemptAtMs := now, ref := p.next }
    (true, Process.persist { p with state := { p.state with jobs := p.state.jobs ++ [job] }, next := p.next + 1 })

/-! ## `pump` -/

/-- What the calls of the clock and of the handler return in a `pump`. -/
structure Pump where
  /-- The clock, read for one job after the other. -/
  now : ℕ → ℕ
  /-- The handler throws before it returns a promise, and then the time. -/
  thrown : Option JsString := none
  later : ℕ := 0

def backoff (o : QueueOptions) (attempts : ℕ) : ℕ := min (o.retryBaseMs * 2 ^ (attempts - 1)) o.retryMaxBackoffMs

def keepLatest (completedIds : List JsString) : List JsString :=
  completedIds.drop (completedIds.length - MAX_COMPLETED_IDS)

/-- `if (this.state.dead.length > MAX_DEAD_JOBS) this.state.dead.shift();` -/
def shiftOverlong (dead : List (DeadJob T)) : List (DeadJob T) :=
  if MAX_DEAD_JOBS < dead.length then dead.tail else dead

def QueueState.complete (a : Attempt T) (q : QueueState T) : QueueState T :=
  { q with jobs := q.jobs.eraseIdx a.dueIndex, completedIds := keepLatest (q.completedIds ++ [a.job.id]) }

def QueueState.deadLetter (a : Attempt T) (message : JsString) (q : QueueState T) : QueueState T :=
  { q with jobs := q.jobs.eraseIdx a.dueIndex, dead := shiftOverlong (q.dead ++ [{ a.job with error := message }]) }

/-- The object of the job is written, wherever it stands. -/
def QueueState.postpone (o : QueueOptions) (a : Attempt T) (message : JsString) (now : ℕ) (q : QueueState T) :
    QueueState T :=
  let job := { a.job with nextAttemptAtMs := now + backoff o a.job.attempts, lastError := some message }
  { q with jobs := q.jobs.map fun other => if other.ref = a.job.ref then job else other }

/-- The handler has returned, or thrown. -/
def QueueState.settle (o : QueueOptions) (a : Attempt T) (result : Except JsString Unit) (now : ℕ) (q : QueueState T) :
    QueueState T :=
  match result with
  | .ok () => q.complete a
  | .error message =>
    if o.maxAttempts ≤ a.job.attempts then q.deadLetter a message else q.postpone o a message now

def Process.settle (o : QueueOptions) (a : Attempt T) (result : Except JsString Unit) (now : ℕ) (p : Process T) :
    Process T :=
  Process.persist { p with state := p.state.settle o a result now }

def QueueState.dueIndex (now : ℕ → ℕ) (q : QueueState T) : Option ℕ :=
  q.jobs.zipIdx.findIdx? fun (job, i) => job.nextAttemptAtMs ≤ now i

/-- The call of the handler that a `pump` makes. -/
def Process.due (now : ℕ → ℕ) (p : Process T) : Option (Attempt T) :=
  match p.state.dueIndex now with
  | none => none
  | some dueIndex =>
    if p.inFlight then none
    else (p.state.jobs[dueIndex]?).map fun job =>
      { call := p.calls, dueIndex, job := { job with attempts := job.attempts + 1 } }

/-- `job.attempts += 1`, and `this.inFlight` is set. -/
def Process.begin (a : Attempt T) (p : Process T) : Process T :=
  { p with
    state := { p.state with jobs := p.state.jobs.set a.dueIndex a.job }
    inFlight := true
    calls := p.calls + 1 }

def Process.pump (o : QueueOptions) (pump : Pump) (p : Process T) : Process T :=
  match p.due pump.now with
  | none => p
  | some a =>
    match pump.thrown with
    | none => { p.begin a with running := a :: p.running }
    -- `finally` clears `this.inFlight` before the promise is assigned to it, so it stays set
    | some message => (p.begin a).settle o a (.error message) pump.later

/-! ## Steps -/

inductive Event (T : Type)
  | enqueue (id : JsString) (payload : T) (now : ℕ)
  | start (pump : Pump)
  /-- A timer fires. -/
  | tick (pump : Pump)
  /-- A call of the handler settles. -/
  | settle (call : ℕ) (result : Except JsString Unit) (now : ℕ)
  | stop
  /-- The process ends wherever it is, and another is made. -/
  | restart

def exec (o : QueueOptions) (p : Process T) : Event T → Process T
  | .enqueue id payload now => (p.enqueue id payload now).2
  | .start pump => if p.stopped then Process.pump o pump { p with stopped := false } else p
  | .tick pump => if p.stopped then p else p.pump o pump
  | .settle call result now =>
    match p.running.find? fun a => a.call = call with
    | none => p
    | some a =>
      { p.settle o a result now with inFlight := false, running := p.running.filter fun a => a.call ≠ call }
  | .stop => { p with stopped := true }
  | .restart => { state := load p.journal, journal := p.journal, calls := p.calls, next := p.next }

/-- The first process finds no journal. -/
abbrev QueueRun (o : QueueOptions) : List (Transition (Process T) (Event T)) → Process T → Prop :=
  Run (· = {}) fun p e p' => exec o p e = p'

/-! ## What a run shows -/

/-- The oldest of more than 2000 completed ids, or of more than 100 dead jobs, is dropped. -/
inductive QueueState.Drops (q q' : QueueState T) (id : JsString) : Prop
  | completed (last : JsString) (rest : List JsString) : q.completedIds ++ [last] = id :: rest →
      MAX_COMPLETED_IDS ≤ rest.length → q'.completedIds = rest → Drops q q' id
  | dead (last oldest : DeadJob T) (rest : List (DeadJob T)) : q.dead ++ [last] = oldest :: rest →
      oldest.id = id → MAX_DEAD_JOBS ≤ rest.length → q'.dead = rest → Drops q q' id

section Shows
variable (t : Transition (Process T) (Event T))

/-- The pump that the transition runs. -/
def pumped : Option Pump :=
  match t.label with
  | .start pump => if t.pre.stopped then some pump else none
  | .tick pump => if t.pre.stopped then none else some pump
  | _ => none

/-- The call of the handler that the transition makes, and the reading of the clock by which the job was due. -/
def started : Option (Attempt T × ℕ) :=
  (pumped t).bind fun pump => (t.pre.due pump.now).map fun a => (a, pump.now a.dueIndex)

def finished : Option (Attempt T × Except JsString Unit × ℕ) :=
  match t.label with
  | .settle call result now => (t.pre.running.find? fun a => a.call = call).map fun a => (a, result, now)
  | _ => (pumped t).bind fun pump => pump.thrown.bind fun message =>
      (t.pre.due pump.now).map fun a => (a, .error message, pump.later)

/-- `enqueue` returns true. -/
def Accepts (id : JsString) : Prop :=
  ∃ payload now, t.label = .enqueue id payload now ∧ (t.pre.enqueue id payload now).1 = true

def Evicts (id : JsString) : Prop := t.pre.state.Drops t.post.state id

def Restarts : Prop := t.label = .restart

instance : Decidable (Restarts t) :=
  match h : t.label with
  | .restart => isTrue h
  | .enqueue .. | .start .. | .tick .. | .settle .. | .stop => isFalse fun h' => by rw [Restarts, h] at h'; cases h'

end Shows

def handled (ref : ℕ) (hist : List (Transition (Process T) (Event T))) : ℕ :=
  (hist.takeWhile fun t => ¬ Restarts t).countP fun t => (started t).any fun start => start.1.job.ref = ref

def lastFailure (ref : ℕ) (hist : List (Transition (Process T) (Event T))) : Option (ℕ × ℕ) :=
  hist.findSome? fun t =>
    match finished t with
    | some (a, .error _, now) => if a.job.ref = ref then some (now, a.job.attempts) else none
    | _ => none

/-- In one of the three lists, once. -/
def QueueState.HoldsOnce (q : QueueState T) (id : JsString) : Prop :=
  (q.jobIds ++ q.completedIds ++ q.deadIds).count id = 1

/-- What the end of a call moves: the job that it ran for, and nothing else. -/
inductive Moves (o : QueueOptions) (a : Attempt T) (q q' : QueueState T) : Except JsString Unit → ℕ → Prop
  | completed {now : ℕ} : q' = { q with
      jobs := q.jobs.filter fun job => job.ref ≠ a.job.ref
      completedIds := keepLatest (q.completedIds ++ [a.job.id]) } → Moves o a q q' (.ok ()) now
  | dead {now : ℕ} {message : JsString} : o.maxAttempts ≤ a.job.attempts → q' = { q with
      jobs := q.jobs.filter fun job => job.ref ≠ a.job.ref
      dead := shiftOverlong (q.dead ++ [{ a.job with error := message }]) } → Moves o a q q' (.error message) now
  | postponed {now : ℕ} {message : JsString} : a.job.attempts < o.maxAttempts → q' = { q with
      jobs := q.jobs.map fun job =>
        if job.ref = a.job.ref then
          { a.job with nextAttemptAtMs := now + backoff o a.job.attempts, lastError := some message }
        else job } → Moves o a q q' (.error message) now

/-- What is claimed of a run. -/
structure Conserves (o : QueueOptions) (hist : List (Transition (Process T) (Event T))) (p : Process T) : Prop where
  held : ∀ id, Since (fun t => ¬ Evicts t id) (fun t => Accepts t id) hist → p.state.HoldsOnce id
  moves : ∀ t ∈ hist, ∀ a result now, finished t = some (a, result, now) →
    (∃ job ∈ t.pre.state.jobs, job.ref = a.job.ref ∧ job.id = a.job.id) ∧
      Moves o a t.pre.state t.post.state result now
  apart : p.running.length ≤ 1 ∧ ∀ t ∈ hist, (started t).isSome → t.pre.running = []
  handled_le : ∀ ref, handled ref hist ≤ o.maxAttempts
  elapsed : ∀ t earlier, t :: earlier <:+ hist → ∀ a reading, started t = some (a, reading) →
    ∀ failedAt attempts, lastFailure a.job.ref earlier = some (failedAt, attempts) →
      failedAt + backoff o attempts ≤ reading
  fresh : ∀ t ∈ hist, ∀ id, t.pre.state.seen id → ¬ Accepts t id

/-! ## The lists -/

section Lists
variable {o : QueueOptions} {q q' : QueueState T} {a : Attempt T} {next : ℕ} {id : JsString}

/-- All ids that are held. -/
def QueueState.ids (q : QueueState T) : List JsString := q.jobIds ++ q.completedIds ++ q.deadIds

theorem QueueState.mem_ids : id ∈ q.ids ↔ q.seen id := by
  rw [QueueState.ids, QueueState.seen, List.mem_append, List.mem_append, or_assoc]

/-- The lists hold every id once, and the jobs are told apart. -/
structure QueueState.Sound (q : QueueState T) (next : ℕ) : Prop where
  ids : q.ids.Nodup
  refs : (q.jobs.map (·.ref)).Nodup
  refs_lt : ∀ job ∈ q.jobs, job.ref < next
  completed_le : q.completedIds.length ≤ MAX_COMPLETED_IDS
  dead_le : q.dead.length ≤ MAX_DEAD_JOBS

theorem QueueState.Sound.holdsOnce (h : q.Sound next) (hseen : q.seen id) : q.HoldsOnce id :=
  List.count_eq_one_of_mem h.ids (QueueState.mem_ids.mpr hseen)

/-- The job stands where it stood when the handler was called. -/
def QueueState.At (q : QueueState T) (a : Attempt T) : Prop := q.jobs[a.dueIndex]? = some a.job

theorem eraseIdx_eq_filter {α : Type} {key : α → ℕ} {l : List α} {i : ℕ} {x : α} (hkeys : (l.map key).Nodup)
    (hget : l[i]? = some x) : l.eraseIdx i = l.filter fun y => key y ≠ key x := by
  induction l generalizing i with
  | nil => cases hget
  | cons y l ih =>
    obtain ⟨hnotin, hkeys⟩ := List.nodup_cons.mp hkeys
    cases i with
    | zero =>
      obtain rfl : y = x := Option.some.inj hget
      have hall : l.filter (fun z => key z ≠ key y) = l := by
        refine List.filter_eq_self.mpr fun z hz => decide_eq_true ?_
        rintro heq
        exact hnotin (heq ▸ List.mem_map_of_mem hz)
      rw [List.eraseIdx_cons_zero, List.filter_cons_of_neg (by simp), hall]
    | succ i =>
      have hmem : x ∈ l := List.mem_of_getElem? hget
      have hne : key y ≠ key x := fun heq => hnotin (heq ▸ List.mem_map_of_mem hmem)
      rw [List.eraseIdx_cons_succ, List.filter_cons_of_pos (by simpa using hne), ih hkeys hget]

theorem QueueState.At.mem (h : q.At a) : a.job ∈ q.jobs := List.mem_of_getElem? h

theorem QueueState.At.eraseIdx (h : q.At a) (hsound : q.Sound next) :
    q.jobs.eraseIdx a.dueIndex = q.jobs.filter fun job => job.ref ≠ a.job.ref :=
  eraseIdx_eq_filter hsound.refs h

/-- The ids before a job is moved, with that of the job first. -/
theorem QueueState.At.ids_perm (h : q.At a) :
    q.ids.Perm (a.job.id :: ((q.jobs.eraseIdx a.dueIndex).map (·.id) ++ q.completedIds ++ q.deadIds)) := by
  obtain ⟨hlt, hget⟩ := List.getElem?_eq_some_iff.mp h
  have hjobs := (List.getElem_cons_eraseIdx_perm hlt).map (·.id)
  rw [hget, List.map_cons] at hjobs
  exact (hjobs.symm.append_right q.completedIds).append_right q.deadIds

theorem keepLatest_sublist (ids : List JsString) : (keepLatest ids).Sublist ids := List.drop_sublist _ _

theorem shiftOverlong_sublist (dead : List (DeadJob T)) : (shiftOverlong dead).Sublist dead := by
  unfold shiftOverlong
  split
  · exact List.tail_sublist dead
  · exact List.Sublist.refl dead

theorem keepLatest_length (ids : List JsString) : (keepLatest ids).length ≤ MAX_COMPLETED_IDS := by
  rw [keepLatest, List.length_drop]
  omega

theorem shiftOverlong_length {dead : List (DeadJob T)} (h : dead.length ≤ MAX_DEAD_JOBS) (last : DeadJob T) :
    (shiftOverlong (dead ++ [last])).length ≤ MAX_DEAD_JOBS := by
  have hlength : (dead ++ [last]).length = dead.length + 1 := List.length_append
  unfold shiftOverlong
  split
  · rw [List.length_tail]
    omega
  · omega

theorem QueueState.Sound.eraseIdx (h : q.Sound next) {completedIds : List JsString} {dead : List (DeadJob T)}
    (hids : ((q.jobs.eraseIdx a.dueIndex).map (·.id) ++ completedIds ++ dead.map (·.id)).Nodup)
    (hcompleted : completedIds.length ≤ MAX_COMPLETED_IDS) (hdead : dead.length ≤ MAX_DEAD_JOBS) :
    QueueState.Sound ⟨q.jobs.eraseIdx a.dueIndex, completedIds, dead⟩ next where
  ids := hids
  completed_le := hcompleted
  dead_le := hdead
  refs := h.refs.sublist ((List.eraseIdx_sublist ..).map _)
  refs_lt := fun job hjob => h.refs_lt job (List.mem_of_mem_eraseIdx hjob)

theorem QueueState.Sound.complete (h : q.Sound next) (hat : q.At a) : (q.complete a).Sound next := by
  refine h.eraseIdx ?_ (keepLatest_length _) h.dead_le
  have hnodup := hat.ids_perm.nodup h.ids
  have hmoved : ((q.jobs.eraseIdx a.dueIndex).map (·.id) ++ (q.completedIds ++ [a.job.id]) ++ q.deadIds).Nodup := by
    refine List.Perm.nodup ?_ hnodup
    rw [← List.append_assoc, List.append_assoc _ [a.job.id] q.deadIds]
    exact List.perm_middle.symm
  exact hmoved.sublist (((List.Sublist.refl _).append (keepLatest_sublist _)).append (List.Sublist.refl _))

theorem QueueState.Sound.deadLetter (h : q.Sound next) (hat : q.At a) (message : JsString) :
    (q.deadLetter a message).Sound next := by
  refine h.eraseIdx ?_ h.completed_le (shiftOverlong_length h.dead_le _)
  have hnodup := hat.ids_perm.nodup h.ids
  have hmoved : ((q.jobs.eraseIdx a.dueIndex).map (·.id) ++ q.completedIds ++ (q.deadIds ++ [a.job.id])).Nodup := by
    refine List.Perm.nodup ?_ hnodup
    rw [← List.append_assoc]
    exact (List.perm_append_singleton _ _).symm
  refine hmoved.sublist ((List.Sublist.refl _).append ?_)
  have hdead := (shiftOverlong_sublist (q.dead ++ [({ a.job with error := message } : DeadJob T)])).map (·.id)
  rwa [List.map_append] at hdead

theorem QueueState.Sound.mapJobs (h : q.Sound next) {f : PersistedJob T → PersistedJob T}
    (hid : ∀ job ∈ q.jobs, (f job).id = job.id) (href : ∀ job ∈ q.jobs, (f job).ref = job.ref) :
    QueueState.Sound { q with jobs := q.jobs.map f } next := by
  have hids : (q.jobs.map f).map (·.id) = q.jobs.map (·.id) := by
    rw [List.map_map]
    exact List.map_congr_left hid
  have hrefs : (q.jobs.map f).map (·.ref) = q.jobs.map (·.ref) := by
    rw [List.map_map]
    exact List.map_congr_left href
  constructor
  · show ((q.jobs.map f).map (·.id) ++ q.completedIds ++ q.deadIds).Nodup
    rw [hids]
    exact h.ids
  · show ((q.jobs.map f).map (·.ref)).Nodup
    rw [hrefs]
    exact h.refs
  · intro other hother
    obtain ⟨job, hjob, rfl⟩ := List.mem_map.mp hother
    rw [href job hjob]
    exact h.refs_lt job hjob
  · exact h.completed_le
  · exact h.dead_le

theorem QueueState.Sound.eq_of_ref (h : q.Sound next) {job job' : PersistedJob T} (hjob : job ∈ q.jobs)
    (hjob' : job' ∈ q.jobs) (href : job.ref = job'.ref) : job = job' :=
  List.inj_on_of_nodup_map h.refs hjob hjob' href

/-- Where a key tells the members apart, one of them is replaced by its place or by its key. -/
theorem set_eq_map {α : Type} {key : α → ℕ} {l : List α} {i : ℕ} {x x' : α} (hkeys : (l.map key).Nodup)
    (hget : l[i]? = some x) : l.set i x' = l.map fun y => if key y = key x then x' else y := by
  induction l generalizing i with
  | nil => cases hget
  | cons y l ih =>
    obtain ⟨hnotin, hkeys⟩ := List.nodup_cons.mp hkeys
    cases i with
    | zero =>
      obtain rfl : y = x := Option.some.inj hget
      have hall : l.map (fun z => if key z = key y then x' else z) = l := by
        refine (List.map_congr_left fun z hz => if_neg ?_).trans (List.map_id l)
        exact fun heq => hnotin (heq ▸ List.mem_map_of_mem hz)
      rw [List.set_cons_zero, List.map_cons, if_pos rfl, hall]
    | succ i =>
      have hmem : x ∈ l := List.mem_of_getElem? hget
      have hne : key y ≠ key x := fun heq => hnotin (heq ▸ List.mem_map_of_mem hmem)
      rw [List.set_cons_succ, List.map_cons, if_neg hne, ih hkeys hget]

theorem QueueState.Sound.replace (h : q.Sound next) {job job' : PersistedJob T} (hjob : job ∈ q.jobs)
    (hid : job'.id = job.id) (href : job'.ref = job.ref) :
    QueueState.Sound { q with jobs := q.jobs.map fun other => if other.ref = job.ref then job' else other } next := by
  refine h.mapJobs (fun other hother => ?_) (fun other hother => ?_)
  · split
    · next heq => rw [h.eq_of_ref hother hjob heq, hid]
    · rfl
  · split
    · next heq => rw [heq, href]
    · rfl

theorem QueueState.Sound.settle (h : q.Sound next) (hat : q.At a) (result : Except JsString Unit) (now : ℕ) :
    (q.settle o a result now).Sound next := by
  unfold QueueState.settle
  cases result with
  | ok _ => exact h.complete hat
  | error message =>
    dsimp only
    split
    · exact h.deadLetter hat message
    · exact h.replace hat.mem rfl rfl

theorem QueueState.dueIndex_spec {now : ℕ → ℕ} {i : ℕ} (h : q.dueIndex now = some i) :
    ∃ job, q.jobs[i]? = some job ∧ job.nextAttemptAtMs ≤ now i := by
  obtain ⟨hlt, hdue, _⟩ := List.findIdx?_eq_some_iff_getElem.mp h
  rw [List.length_zipIdx] at hlt
  refine ⟨q.jobs[i], List.getElem?_eq_getElem hlt, ?_⟩
  simpa using hdue

end Lists

/-! ## Processes -/

section Processes
variable {o : QueueOptions} {p : Process T} {a : Attempt T} {q q' : QueueState T}

def PersistedJob.forget (job : PersistedJob T) : PersistedJob T := { job with attempts := 0 }

/-- The same up to attempts, which a journal may lag behind in. -/
structure QueueState.Same (q q' : QueueState T) : Prop where
  jobs : q.jobs.map PersistedJob.forget = q'.jobs.map PersistedJob.forget
  completedIds : q.completedIds = q'.completedIds
  dead : q.dead = q'.dead

theorem QueueState.Same.map_jobs (h : q.Same q') {α : Type} (f : PersistedJob T → α)
    (hf : ∀ job, f job.forget = f job) : q.jobs.map f = q'.jobs.map f := by
  have hforget : ∀ jobs : List (PersistedJob T), (jobs.map PersistedJob.forget).map f = jobs.map f := by
    intro jobs
    rw [List.map_map]
    exact List.map_congr_left fun job _ => hf job
  rw [← hforget, h.jobs, hforget]

theorem QueueState.Same.ids_eq (h : q.Same q') : q.ids = q'.ids := by
  have hjobs : q.jobIds = q'.jobIds := h.map_jobs (·.id) fun _ => rfl
  have hdead : q.deadIds = q'.deadIds := by rw [QueueState.deadIds, h.dead, QueueState.deadIds]
  rw [QueueState.ids, hjobs, h.completedIds, hdead, QueueState.ids]

theorem QueueState.Same.mem (h : q.Same q') {job : PersistedJob T} (hjob : job ∈ q.jobs) :
    ∃ job' ∈ q'.jobs, job'.ref = job.ref ∧ job'.nextAttemptAtMs = job.nextAttemptAtMs := by
  have hmem : job.forget ∈ q'.jobs.map PersistedJob.forget := h.jobs ▸ List.mem_map_of_mem hjob
  obtain ⟨job', hjob', heq⟩ := List.mem_map.mp hmem
  exact ⟨job', hjob', congrArg (·.ref) heq, congrArg (·.nextAttemptAtMs) heq⟩

theorem QueueState.Same.sound (h : q.Same q') {next : ℕ} (hsound : q'.Sound next) : q.Sound next := by
  constructor
  · rw [h.ids_eq]
    exact hsound.ids
  · rw [h.map_jobs (·.ref) fun _ => rfl]
    exact hsound.refs
  · intro job hjob
    obtain ⟨job', hjob', href, _⟩ := h.mem hjob
    exact href ▸ hsound.refs_lt job' hjob'
  · rw [h.completedIds]
    exact hsound.completed_le
  · rw [h.dead]
    exact hsound.dead_le

/-- What holds of every process. -/
structure Process.Sound (p : Process T) : Prop where
  state : p.state.Sound p.next
  running : p.running = [] ∨ ∃ a, p.running = [a] ∧ p.inFlight = true ∧ p.state.At a
  journal : (load p.journal).Same p.state

theorem Process.Sound.init : Process.Sound ({} : Process T) where
  state := ⟨List.nodup_nil, List.nodup_nil, nofun, Nat.zero_le _, Nat.zero_le _⟩
  running := .inl rfl
  journal := ⟨rfl, rfl, rfl⟩

theorem Process.Sound.not_inFlight (h : p.Sound) (hfree : p.inFlight = false) : p.running = [] := by
  rcases h.running with hnone | ⟨a, _, hset, _⟩
  · exact hnone
  · rw [hfree] at hset
    cases hset

/-- A call that has not settled runs for the job where it stands. -/
theorem Process.Sound.running_at (h : p.Sound) (hmem : a ∈ p.running) : p.running = [a] ∧ p.state.At a := by
  rcases h.running with hnone | ⟨a', hone, _, hat⟩
  · rw [hnone] at hmem
    cases hmem
  · rw [hone] at hmem
    obtain rfl := List.mem_singleton.mp hmem
    exact ⟨hone, hat⟩

theorem due_spec {now : ℕ → ℕ} (h : p.due now = some a) : p.inFlight = false ∧
    ∃ job, p.state.jobs[a.dueIndex]? = some job ∧ a.job = { job with attempts := job.attempts + 1 } ∧
      job.nextAttemptAtMs ≤ now a.dueIndex := by
  unfold Process.due at h
  split at h
  · cases h
  · next dueIndex hdue =>
    split at h
    · cases h
    · next hfree =>
      obtain ⟨job, hget, hready⟩ := QueueState.dueIndex_spec hdue
      rw [hget] at h
      obtain rfl := Option.some.inj h
      exact ⟨Bool.eq_false_iff.mpr hfree, job, hget, rfl, hready⟩

theorem begin_spec (h : p.Sound) {now : ℕ → ℕ} (hdue : p.due now = some a) :
    (p.begin a).state.Sound p.next ∧ (p.begin a).state.At a ∧ (load p.journal).Same (p.begin a).state ∧
      (p.begin a).state.jobs = p.state.jobs.map fun other => if other.ref = a.job.ref then a.job else other := by
  obtain ⟨_, job, hget, heq, _⟩ := due_spec hdue
  have href : a.job.ref = job.ref := by rw [heq]
  have hjobs : (p.begin a).state.jobs = p.state.jobs.map fun other => if other.ref = a.job.ref then a.job else other := by
    rw [href]
    exact set_eq_map h.state.refs hget
  have hmem : job ∈ p.state.jobs := List.mem_of_getElem? hget
  have hstate : (p.begin a).state =
      { p.state with jobs := p.state.jobs.map fun other => if other.ref = job.ref then a.job else other } := by
    rw [← href, ← hjobs]
    rfl
  refine ⟨?_, ?_, ⟨?_, h.journal.completedIds, h.journal.dead⟩, hjobs⟩
  · rw [hstate]
    exact h.state.replace hmem (by rw [heq]) href
  · exact List.getElem?_set_self (List.getElem?_eq_some_iff.mp hget).1
  · rw [h.journal.jobs, hjobs, List.map_map]
    refine List.map_congr_left fun other hother => ?_
    simp only [Function.comp_apply]
    split
    · next hother' =>
      rw [h.state.eq_of_ref hother hmem (hother'.trans href), heq]
      rfl
    · rfl

theorem Process.Sound.persist (hstate : p.state.Sound p.next)
    (hrunning : p.running = [] ∨ ∃ a, p.running = [a] ∧ p.inFlight = true ∧ p.state.At a) : p.persist.Sound where
  state := hstate
  running := hrunning
  journal := ⟨rfl, rfl, rfl⟩

theorem Process.Sound.enqueue (h : p.Sound) (id : JsString) (payload : T) (now : ℕ) :
    (p.enqueue id payload now).2.Sound := by
  unfold Process.enqueue
  split
  · exact h
  · next hunseen =>
    refine Process.Sound.persist ⟨?_, ?_, ?_, h.state.completed_le, h.state.dead_le⟩ ?_
    · have hnotin : id ∉ p.state.ids := fun hmem => hunseen (QueueState.mem_ids.mp hmem)
      have hnodup : (id :: p.state.ids).Nodup := List.nodup_cons.mpr ⟨hnotin, h.state.ids⟩
      refine List.Perm.nodup ?_ hnodup
      simp only [QueueState.ids, QueueState.jobIds, QueueState.deadIds, List.map_append, List.map_cons, List.map_nil,
        List.append_assoc, List.singleton_append]
      exact List.perm_middle.symm
    · have hfresh : p.next ∉ p.state.jobs.map (·.ref) := by
        intro hmem
        obtain ⟨job, hjob, href⟩ := List.mem_map.mp hmem
        exact absurd (h.state.refs_lt job hjob) (href ▸ lt_irrefl _)
      simp only [List.map_append, List.map_cons, List.map_nil]
      exact h.state.refs.append (List.nodup_singleton _) (List.disjoint_singleton.mpr hfresh)
    · intro job hjob
      rcases List.mem_append.mp hjob with hjob | hjob
      · exact (h.state.refs_lt job hjob).trans (Nat.lt_succ_self _)
      · rw [List.mem_singleton.mp hjob]
        exact Nat.lt_succ_self _
    · refine h.running.imp (fun hnone => hnone) ?_
      rintro ⟨a, hone, hset, hat⟩
      exact ⟨a, hone, hset, (List.getElem?_append_left (List.getElem?_eq_some_iff.mp hat).1).trans hat⟩

theorem Process.Sound.pump (h : p.Sound) (pump : Pump) : (p.pump o pump).Sound := by
  unfold Process.pump
  split
  · exact h
  · next a hdue =>
    obtain ⟨hstate, hat, hsame, _⟩ := begin_spec h hdue
    have hrunning := h.not_inFlight (due_spec hdue).1
    split
    · exact ⟨hstate, .inr ⟨a, by rw [hrunning], rfl, hat⟩, hsame⟩
    · next message _ =>
      have hsettled := hstate.settle (o := o) hat (.error message) pump.later
      exact ⟨hsettled, .inl hrunning, ⟨rfl, rfl, rfl⟩⟩

theorem find_running {call : ℕ} (h : p.running.find? (fun a : Attempt T => a.call = call) = some a) :
    a ∈ p.running ∧ a.call = call := by
  refine ⟨List.mem_of_find?_eq_some h, ?_⟩
  have hfound := List.find?_some h
  exact of_decide_eq_true hfound

theorem exec_sound (h : p.Sound) (e : Event T) : (exec o p e).Sound := by
  cases e with
  | enqueue id payload now => exact h.enqueue id payload now
  | start pump =>
    simp only [exec]
    split
    · have hstarted : Process.Sound { p with stopped := false } := ⟨h.state, h.running, h.journal⟩
      exact hstarted.pump pump
    · exact h
  | tick pump =>
    simp only [exec]
    split
    · exact h
    · exact h.pump pump
  | settle call result now =>
    simp only [exec]
    split
    · exact h
    · next a hfind =>
      obtain ⟨hmem, hcall⟩ := find_running hfind
      obtain ⟨hone, hat⟩ := h.running_at hmem
      refine ⟨h.state.settle hat result now, .inl ?_, ⟨rfl, rfl, rfl⟩⟩
      simp [hone, hcall]
  | stop => exact ⟨h.state, h.running, h.journal⟩
  | restart => exact ⟨h.journal.sound h.state, .inl rfl, ⟨rfl, rfl, rfl⟩⟩

end Processes

end ChainGuard.OffChain.RelayQueue
