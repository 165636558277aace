import Mathlib.Tactic.Linarith
import Mathlib.Tactic.Positivity
import Mathlib.Tactic.FieldSimp
import ChainGuard.Library.History
import ChainGuard.OffChain.Js

/-! The health of the gateways: what each exchange with one records, and the races and fetches that make
the exchanges. Rates and latencies are rationals. -/
namespace ChainGuard.OffChain.GatewayHealth
open History
set_option autoImplicit false

def FAILURE_THRESHOLD : ℕ := 3
def MIN_BACKOFF_MS : ℕ := 10000
def MAX_BACKOFF_MS : ℕ := 300000
def EMA_ALPHA : ℚ := 3 / 10

inductive CircuitState
  | CLOSED
  | OPEN
  | HALF_OPEN
  deriving DecidableEq

structure Health where
  url : JsString
  latencyEma : ℚ
  successRate : ℚ
  totalRequests : ℕ
  totalSuccesses : ℕ
  consecutiveFailures : ℕ
  corsAvailable : Bool
  circuitState : CircuitState
  trippedAt : ℕ
  backoffMs : ℕ
  lastUpdatedAt : ℕ
  deriving DecidableEq

def defaultHealth (url : JsString) : Health where
  url := url
  latencyEma := 0
  successRate := 1
  totalRequests := 0
  totalSuccesses := 0
  consecutiveFailures := 0
  corsAvailable := true
  circuitState := .CLOSED
  trippedAt := 0
  backoffMs := MIN_BACKOFF_MS
  lastUpdatedAt := 0

/-! ## The scorer -/

/-- The values of `_health`, in the order in which they were set first; each is kept under its url. -/
abbrev HealthMap := List Health

/-- `_health.get(url) ?? defaultHealth(url)` -/
def HealthMap.get (m : HealthMap) (url : JsString) : Health := (m.find? (·.url = url)).getD (defaultHealth url)

/-- `_health.set(h.url, h)` -/
def HealthMap.set (m : HealthMap) (h : Health) : HealthMap :=
  if m.any (·.url = h.url) then m.map fun other => if other.url = h.url then h else other else m ++ [h]

def Health.succeeded (h : Health) (latencyMs : ℤ) (corsAvailable : Bool) (now : ℕ) : Health :=
  let totalRequests := min (h.totalRequests + 1) 10000
  let totalSuccesses := min (h.totalSuccesses + 1) 10000
  { h with
    totalRequests, totalSuccesses, corsAvailable
    consecutiveFailures := 0
    successRate := totalSuccesses / totalRequests
    latencyEma := if h.latencyEma = 0 then latencyMs else EMA_ALPHA * latencyMs + (1 - EMA_ALPHA) * h.latencyEma
    circuitState := .CLOSED
    trippedAt := 0
    backoffMs := MIN_BACKOFF_MS
    lastUpdatedAt := now }

def Health.failed (h : Health) (now : ℕ) : Health :=
  let totalRequests := min (h.totalRequests + 1) 10000
  let h' := { h with
    totalRequests
    consecutiveFailures := h.consecutiveFailures + 1
    successRate := h.totalSuccesses / totalRequests
    lastUpdatedAt := now }
  if h'.consecutiveFailures ≥ FAILURE_THRESHOLD ∧ (h'.circuitState = .CLOSED ∨ h'.circuitState = .HALF_OPEN) then
    { h' with circuitState := .OPEN, trippedAt := now, backoffMs := min (h'.backoffMs * 2) MAX_BACKOFF_MS }
  else h'

/-- A call of `recordSuccess` or `recordFailure`. -/
inductive Record
  | recordSuccess (url : JsString) (latencyMs : ℤ) (corsAvailable : Bool)
  | recordFailure (url : JsString)
  deriving DecidableEq

/-- The gateway it is about, and whether it is a success. -/
def Record.subject : Record → JsString × Bool
  | .recordSuccess url _ _ => (url, true)
  | .recordFailure url => (url, false)

def Record.apply (now : ℕ) (h : Health) : Record → Health
  | .recordSuccess _ latencyMs corsAvailable => h.succeeded latencyMs corsAvailable now
  | .recordFailure _ => h.failed now

def Record.run (now : ℕ) (m : HealthMap) (r : Record) : HealthMap := m.set (r.apply now (m.get r.subject.1))

def maybeTransitionToHalfOpen (now : ℕ) (m : HealthMap) (url : JsString) : HealthMap :=
  let h := m.get url
  if h.circuitState ≠ .OPEN then m
  else if now ≥ h.trippedAt + h.backoffMs then m.set { h with circuitState := .HALF_OPEN }
  else m

/-- `none` is `-Infinity`. -/
def score (h : Health) : Option ℚ :=
  if h.circuitState = .OPEN then none
  else
    let latency := if h.latencyEma > 0 then h.latencyEma else 1000
    let corsFactor : ℚ := if h.corsAvailable then 1 else 1 / 2
    some (h.successRate * corsFactor * 1000 / latency)

/-- `score(b) - score(a) <= 0`, or it is no number. -/
def ranksBefore (a b : Health) : Prop :=
  match score a, score b with
  | _, none => True
  | none, some _ => False
  | some x, some y => y ≤ x

instance : DecidableRel ranksBefore := fun a b => by
  unfold ranksBefore
  cases score a <;> cases score b <;> infer_instance

def ranked (m : HealthMap) : List Health := m.insertionSort ranksBefore

def topHealthy (m : HealthMap) (n : ℕ) : List Health := ((ranked m).filter (·.circuitState ≠ .OPEN)).take n

/-! ## The service -/

structure Race where
  id : ℕ
  cid : JsString
  candidates : List JsString
  /-- Those whose probe has not settled. -/
  pending : List JsString
  start : ℕ
  settled : Bool
  /-- It was started by `fetch`, which goes on with the winner. -/
  fetches : Bool
  deriving DecidableEq

/-- A request for the content that is under way. -/
structure Get where
  id : ℕ
  /-- The candidate that won; the code has only `winner`. -/
  gateway : JsString
  winner : JsString
  candidates : List JsString
  deriving DecidableEq

structure Service where
  health : HealthMap
  races : List Race := []
  gets : List Get := []
  next : ℕ := 0
  deriving DecidableEq

/-- What a probe comes to; a timeout and an abort are failures. -/
inductive ProbeAnswer
  | response (ok corsOk : Bool)
  | failed
  deriving DecidableEq

inductive GetAnswer
  | response (ok : Bool)
  | failed
  deriving DecidableEq

inductive Event
  | probeAndSelectGateway (cid : JsString) (now : ℕ)
  | fetch (cid : JsString) (now : ℕ)
  /-- The probe of a candidate in a race settles. -/
  | probed (race : ℕ) (url : JsString) (answer : ProbeAnswer) (now : ℕ)
  /-- The request for the content settles. -/
  | fetched (get : ℕ) (answer : GetAnswer) (now : ℕ)
  deriving DecidableEq

/-- `_race`, up to the first settled probe. -/
def Service.race (s : Service) (cid : JsString) (candidates : List Health) (fetches : Bool) (now : ℕ) : Service :=
  let urls := candidates.map (·.url)
  { s with
    races := { id := s.next, cid, candidates := urls, pending := urls, start := now, settled := false, fetches } :: s.races
    next := s.next + 1 }

/-- The loop that wakes the open gateways whose backoff is over. -/
def wake (now : ℕ) (m : HealthMap) : HealthMap :=
  (ranked m).foldl (fun m h => maybeTransitionToHalfOpen now m h.url) m

def Service.probeAndSelectGateway (s : Service) (cid : JsString) (now : ℕ) : Service :=
  let candidates := topHealthy s.health 3
  if candidates = [] then
    let s := { s with health := wake now s.health }
    let recovered := topHealthy s.health 3
    -- without a healthy gateway it answers Pinata's
    if recovered = [] then s else s.race cid recovered false now
  else s.race cid candidates false now

def Service.fetch (s : Service) (cid : JsString) (now : ℕ) : Service :=
  let s := { s with health := wake now s.health }
  let candidates := topHealthy s.health 3
  -- without a candidate it throws
  if candidates = [] then s else s.race cid candidates true now

/-- `bases.find((b) => fullUrl.startsWith(b)) ?? fullUrl` -/
def baseUrl (fullUrl : JsString) (bases : List JsString) : JsString := (bases.find? (·.isPrefixOf fullUrl)).getD fullUrl

def probeRecords (url : JsString) (latency : ℤ) : ProbeAnswer → List Record
  | .response true corsOk => [.recordSuccess url latency corsOk]
  | .response false _ => [.recordFailure url]
  | .failed => [.recordFailure url]

/-- What a settled request records. -/
def getRecords (get : Get) (answer : GetAnswer) : List Record :=
  let caught := [Record.recordFailure (baseUrl get.winner get.candidates)]
  match answer with
  | .response true => []
  -- the branch throws into the `catch`
  | .response false => Record.recordFailure (baseUrl get.winner get.candidates) :: caught
  | .failed => caught

/-- The exchange that an event settles, with what it records. -/
structure Exchange where
  gateway : JsString
  ok : Bool
  records : List Record
  deriving DecidableEq

def ProbeAnswer.ok : ProbeAnswer → Bool
  | .response ok _ => ok
  | .failed => false

def GetAnswer.ok : GetAnswer → Bool
  | .response ok => ok
  | .failed => false

def Service.exchange (s : Service) : Event → Option Exchange
  | .probed id url answer now => do
    let race ← s.races.find? fun r => r.id = id ∧ url ∈ r.pending
    return ⟨url, answer.ok, probeRecords url ((now : ℤ) - race.start) answer⟩
  | .fetched id answer _ => do
    let get ← s.gets.find? (·.id = id)
    return ⟨get.gateway, answer.ok, getRecords get answer⟩
  | _ => none

/-- The race after the probe of `url`. -/
def Race.probed (race : Race) (url : JsString) (ok : Bool) : Race :=
  { race with
    pending := race.pending.erase url
    settled := race.settled || ok }

/-- The races and requests after a probe has settled: its race may be won, and be followed by a request. -/
def Service.advance (s : Service) (race : Race) (url : JsString) (ok : Bool) : Service :=
  let races := s.races.map fun r => if r.id = race.id then race.probed url ok else r
  if ok = true ∧ race.settled = false ∧ race.fetches = true then
    { s with races, gets := ⟨s.next, url, url ++ race.cid, race.candidates⟩ :: s.gets, next := s.next + 1 }
  else { s with races }

def exec (s : Service) (e : Event) : Service :=
  match e with
  | .probeAndSelectGateway cid now => s.probeAndSelectGateway cid now
  | .fetch cid now => s.fetch cid now
  | .probed id url answer now =>
    match s.races.find? fun r => r.id = id ∧ url ∈ r.pending with
    | none => s
    | some race =>
      let health := (probeRecords url ((now : ℤ) - race.start) answer).foldl (Record.run now) s.health
      { s with health }.advance race url answer.ok
  | .fetched id answer now =>
    match s.gets.find? (·.id = id) with
    | none => s
    | some get =>
      let health := (getRecords get answer).foldl (Record.run now) s.health
      { s with health, gets := s.gets.filter (·.id ≠ id) }

/-! ## What is asked of a run -/

def Event.now : Event → ℕ
  | .probeAndSelectGateway _ now => now
  | .fetch _ now => now
  | .probed _ _ _ now => now
  | .fetched _ _ now => now

def settled (t : Transition Service Event) : Option Exchange := t.pre.exchange t.label

/-- The failed exchanges with a gateway since its last success, those that it was loaded with included. -/
def streak (start : HealthMap) (gateway : JsString) : List (Transition Service Event) → ℕ
  | [] => (start.get gateway).consecutiveFailures
  | t :: earlier =>
    match settled t with
    | none => streak start gateway earlier
    | some x =>
      if x.gateway ≠ gateway then streak start gateway earlier
      else if x.ok then 0
      else streak start gateway earlier + 1

def applied (now : ℕ) (m : HealthMap) : List Record → List (Health × Record)
  | [] => []
  | r :: rest => (m.get r.subject.1, r) :: applied now (r.run now m) rest

/-- A failure lowers a rate that is not zero, and a success lowers none. -/
def MovesRate (now : ℕ) (h : Health) : Record → Prop
  | .recordSuccess url latencyMs corsAvailable =>
    h.successRate ≤ ((Record.recordSuccess url latencyMs corsAvailable).apply now h).successRate
  | .recordFailure url => h.successRate ≠ 0 → ((Record.recordFailure url).apply now h).successRate < h.successRate

/-- The accounts of a run: each exchange is recorded once, for its gateway and as what it was. -/
structure Exact (start : HealthMap) (hist : List (Transition Service Event)) (s : Service) : Prop where
  once : ∀ t ∈ hist, ∀ x, settled t = some x → x.records.map Record.subject = [(x.gateway, x.ok)]
  totals : ∀ early mid, Visits hist s early mid → ∀ h ∈ mid.health, h.totalSuccesses ≤ h.totalRequests
  rates : ∀ t ∈ hist, ∀ x, settled t = some x →
    ∀ a ∈ applied t.label.now t.pre.health x.records, MovesRate t.label.now a.1 a.2
  opens : ∀ t earlier, t :: earlier <:+ hist → ∀ gateway, (t.pre.health.get gateway).circuitState = .CLOSED →
    (t.post.health.get gateway).circuitState = .OPEN → FAILURE_THRESHOLD ≤ streak start gateway (t :: earlier)

/-- A request for the content gets no response, and its gateway is the one that is found for its url; and no
failure meets a full count with a success in it. -/
structure Counts (t : Transition Service Event) : Prop where
  unanswered : ∀ id answer now get, t.label = .fetched id answer now → t.pre.gets.find? (·.id = id) = some get →
    answer = .failed ∧ baseUrl get.winner get.candidates = get.gateway
  unsaturated : ∀ x, settled t = some x → x.ok = false →
    (t.pre.health.get x.gateway).totalRequests < 10000 ∨ (t.pre.health.get x.gateway).totalSuccesses = 0

structure Health.Valid (h : Health) : Prop where
  le : h.totalSuccesses ≤ h.totalRequests
  capped : h.totalRequests ≤ 10000
  rate : h.successRate = if h.totalRequests = 0 then 1 else (h.totalSuccesses / h.totalRequests : ℚ)

/-! ## A record -/

variable {m m' : HealthMap} {h : Health} {now : ℕ} {url gateway : JsString}

def Woken (m m' : HealthMap) : Prop :=
  ∀ url, m'.get url = m.get url ∨
    (m.get url).circuitState = .OPEN ∧ m'.get url = { m.get url with circuitState := .HALF_OPEN }

theorem Woken.trans {m'' : HealthMap} (h : Woken m m') (h' : Woken m' m'') : Woken m m'' := by
  intro url
  rcases h url with hsame | ⟨hopen, hhalf⟩
  · have hlater := h' url
    rwa [hsame] at hlater
  · rcases h' url with hsame | ⟨hopen', _⟩
    · exact .inr ⟨hopen, hsame.trans hhalf⟩
    · rw [hhalf] at hopen'
      cases hopen'

variable {s : Service} {e : Event} {t : Transition Service Event} {start : HealthMap}
  {hist : List (Transition Service Event)}

theorem once_iff : (∀ x, settled t = some x → x.records.map Record.subject = [(x.gateway, x.ok)]) ↔
    ∀ id answer now get, t.label = .fetched id answer now → t.pre.gets.find? (·.id = id) = some get →
      answer = .failed ∧ baseUrl get.winner get.candidates = get.gateway := by
  rw [settled]
  cases hlabel : t.label with
  | probeAndSelectGateway cid now => exact ⟨fun _ _ _ _ _ h => (by cases h), fun _ x hx => (by cases hx)⟩
  | fetch cid now => exact ⟨fun _ _ _ _ _ h => (by cases h), fun _ x hx => (by cases hx)⟩
  | probed id url answer now =>
    refine ⟨fun _ _ _ _ _ h => (by cases h), fun _ x hx => ?_⟩
    obtain ⟨race, _, hx⟩ := Option.bind_eq_some_iff.mp hx
    cases hx
    rcases answer with ⟨ok, corsOk⟩ | _
    · cases ok <;> rfl
    · rfl
  | fetched id answer now =>
    constructor
    · rintro honce id' answer' now' get hsame hget
      cases hsame
      have hrecords := honce ⟨get.gateway, answer.ok, getRecords get answer⟩ (by
        rw [Service.exchange, hget]
        rfl)
      rcases answer with ok | _
      · have hlength := congrArg List.length hrecords
        cases ok <;> cases hlength
      · exact ⟨rfl, congrArg Prod.fst (List.cons.inj hrecords).1⟩
    · intro hcounts x hx
      obtain ⟨get, hget, hx⟩ := Option.bind_eq_some_iff.mp hx
      cases hx
      obtain ⟨rfl, hbase⟩ := hcounts id answer now get rfl hget
      show [(baseUrl get.winner get.candidates, false)] = _
      rw [hbase]
      rfl

end ChainGuard.OffChain.GatewayHealth
