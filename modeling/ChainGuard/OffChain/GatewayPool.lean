import Mathlib.Algebra.Order.Field.Rat
import ChainGuard.Library.History
import ChainGuard.OffChain.Js

/-! The client that races the gateways of its pool for a file: the abort signals of a race, its settlement
and the circuits. Times are rationals. -/
namespace ChainGuard.OffChain.GatewayPool
open History
set_option autoImplicit false

/-! ## The pool -/

def DEFAULT_IPFS_GATEWAYS : List JsString :=
  [js "https://gateway.pinata.cloud/ipfs/", js "https://ipfs.infura.io/ipfs/", js "https://cloudflare-ipfs.com/ipfs/",
    js "https://ipfs.io/ipfs/"]

def DEFAULT_CIRCUIT_COOLDOWN_MS : ℚ := 30000
def DEFAULT_FAILURE_THRESHOLD : ℚ := 1

def normalizeGatewayBase (gateway : JsString) : JsString :=
  let trimmed := trim gateway
  if trimmed = [] then []
  else if trimmed.getLast? = some 0x2f then trimmed else trimmed ++ js "/"

/-- The loop over the list with the keys that it has seen; `toLowerCase` is that of strings. -/
def uniqueFrom (toLowerCase : JsString → JsString) (seen : List JsString) : List JsString → List JsString
  | [] => []
  | raw :: rest =>
    let gateway := normalizeGatewayBase raw
    if gateway = [] ∨ toLowerCase gateway ∈ seen then uniqueFrom toLowerCase seen rest
    else gateway :: uniqueFrom toLowerCase (toLowerCase gateway :: seen) rest

def uniqueGateways (toLowerCase : JsString → JsString) (list : List JsString) : List JsString :=
  uniqueFrom toLowerCase [] list

def resolveGatewayPool (toLowerCase : JsString → JsString) (primary : Option JsString) (extras : List JsString) :
    List JsString :=
  let first := (primary.filter (· ≠ [])).getD (js "https://gateway.pinata.cloud/ipfs/")
  let pool := uniqueGateways toLowerCase (first :: DEFAULT_IPFS_GATEWAYS ++ extras)
  if pool = [] then DEFAULT_IPFS_GATEWAYS else pool

/-- `none` is no finite number. -/
def readPositiveNumber (value : Option ℚ) (fallback : ℚ) : ℚ := (value.filter (0 < ·)).getD fallback

structure ClientOptions where
  gateways : Option (List JsString) := none
  /-- Of the options, or of the environment. -/
  primary : Option JsString := none
  extras : List JsString := []
  cooldownMs : Option ℚ := none
  failureThreshold : Option ℚ := none

/-- What a client closes over. -/
structure Client where
  gateways : List JsString
  cooldownMs : ℚ
  failureThreshold : ℚ
  nodup : gateways.Nodup
  nonempty : gateways ≠ []

theorem uniqueFrom_spec (toLowerCase : JsString → JsString) (seen list : List JsString) :
    (uniqueFrom toLowerCase seen list).Nodup ∧ ∀ g ∈ uniqueFrom toLowerCase seen list, toLowerCase g ∉ seen := by
  induction list generalizing seen with
  | nil => exact ⟨List.nodup_nil, nofun⟩
  | cons raw rest ih =>
    rw [uniqueFrom]
    split_ifs with hskip
    · exact ih seen
    · obtain ⟨hnodup, hfresh⟩ := ih (toLowerCase (normalizeGatewayBase raw) :: seen)
      refine ⟨List.nodup_cons.mpr ⟨fun hmem => hfresh _ hmem List.mem_cons_self, hnodup⟩, fun g hg hseen => ?_⟩
      rcases List.mem_cons.mp hg with rfl | hg
      · exact hskip (.inr hseen)
      · exact hfresh g hg (List.mem_cons_of_mem _ hseen)

def createIpfsGatewayClient (toLowerCase : JsString → JsString) (options : ClientOptions) : Client :=
  let pool := uniqueGateways toLowerCase
    (options.gateways.getD (resolveGatewayPool toLowerCase options.primary options.extras))
  { gateways := if pool = [] then DEFAULT_IPFS_GATEWAYS else pool
    cooldownMs := readPositiveNumber options.cooldownMs DEFAULT_CIRCUIT_COOLDOWN_MS
    failureThreshold := readPositiveNumber options.failureThreshold DEFAULT_FAILURE_THRESHOLD
    nodup := by
      split_ifs
      · decide +kernel
      · exact (uniqueFrom_spec toLowerCase [] _).1
    nonempty := by
      split_ifs with hempty
      · exact List.cons_ne_nil _ _
      · exact hempty }

/-! ## The circuits -/

structure CircuitRecord where
  consecutiveFailures : ℕ := 0
  openedUntil : ℚ := 0
  deriving DecidableEq

/-- `getRecord` of each gateway. -/
abbrev Circuits := JsString → CircuitRecord

def isCircuitOpen (circuits : Circuits) (gateway : JsString) (timestamp : ℚ) : Bool :=
  (circuits gateway).openedUntil > timestamp

def selectGateways (c : Client) (circuits : Circuits) (timestamp : ℚ) : List JsString :=
  let healthy := c.gateways.filter fun gateway => !isCircuitOpen circuits gateway timestamp
  if healthy = [] then c.gateways else healthy

def recordSuccess (circuits : Circuits) (gateway : JsString) : Circuits := Function.update circuits gateway {}

def recordFailure (c : Client) (circuits : Circuits) (gateway : JsString) (timestamp : ℚ) : Circuits :=
  let record := circuits gateway
  let consecutiveFailures := record.consecutiveFailures + 1
  let openedUntil := if consecutiveFailures ≥ c.failureThreshold then timestamp + c.cooldownMs else record.openedUntil
  Function.update circuits gateway { consecutiveFailures, openedUntil }

/-! ## A race -/

/-- What a gateway's fetch settles with: a response with its status, or an error with its message. -/
inductive Answer
  | response (status : ℕ)
  | error (message : JsString)
  deriving DecidableEq

/-- `response.ok` -/
def Answer.ok : Answer → Bool
  | .response status => 200 ≤ status ∧ status ≤ 299
  | .error _ => false

def isRetryableStatus (status : ℕ) : Bool := status = 408 ∨ status = 425 ∨ status = 429 ∨ status ≥ 500

def shouldTripCircuit (status : ℕ) : Bool := isRetryableStatus status ∨ status = 401 ∨ status = 403

/-- A call of `resolve` or of `reject`. -/
inductive Settlement
  | resolved (gateway : JsString) (status : ℕ)
  /-- With the failures, each of a gateway and its detail. -/
  | failed (failures : List (JsString × JsString))
  | aborted
  deriving DecidableEq

structure Race where
  cid : JsString
  candidates : List JsString
  /-- The caller gave a signal. -/
  hasSignal : Bool
  /-- The candidates whose fetch has not settled. -/
  running : List JsString
  /-- Those whose timeout has fired. -/
  timedOut : List JsString := []
  /-- Those whose combined signal is aborted. -/
  abortedSignals : List JsString := []
  parentAborted : Bool := false
  failures : List (JsString × JsString) := []
  pending : ℕ
  settled : Bool := false
  /-- The calls of `resolve` and of `reject`, newest first. -/
  calls : List Settlement := []
  deriving DecidableEq

/-- `parentController.abort()`: every combined signal follows the parent's. -/
def Race.abortParent (race : Race) : Race := { race with parentAborted := true, abortedSignals := race.candidates }

inductive FetchResult
  | ok (status : ℕ)
  | failure (detail : JsString) (trip : Bool)

/-- What `fetchOne` makes of an answer. -/
def Race.fetchOne (race : Race) (gateway : JsString) : Answer → FetchResult
  | .response status =>
    if (Answer.response status).ok then .ok status else .failure (js "HTTP " ++ decimal status) (shouldTripCircuit status)
  | .error message =>
    if gateway ∈ race.timedOut ∧ race.parentAborted = false then .failure (js "timeout") true
    else if race.parentAborted then .failure (js "aborted") false
    else .failure (if message = [] then js "network error" else message) true

structure State where
  circuits : Circuits
  races : ℕ → Option Race := fun _ => none
  next : ℕ := 0

inductive Event
  /-- A call, with the state of the caller's signal where it gives one. -/
  | fetchFile (cid : JsString) (signal : Option Bool) (now : ℚ)
  /-- The timeout of a candidate fires. -/
  | timeout (race : ℕ) (gateway : JsString)
  /-- The fetch of a candidate settles. -/
  | settle (race : ℕ) (gateway : JsString) (answer : Answer) (now : ℚ)
  /-- The caller aborts its signal. -/
  | abort (race : ℕ)
  | resetCircuits

def State.set (s : State) (id : ℕ) (race : Race) : State := { s with races := Function.update s.races id (some race) }

section Steps
variable (c : Client)

/-- `failOne`, which is not called once the race has settled. -/
def State.failOne (s : State) (id : ℕ) (race : Race) (gateway detail : JsString) (trip : Bool) (now : ℚ) : State :=
  let race := { race with failures := race.failures ++ [(gateway, detail)], pending := race.pending - 1 }
  let s := { s with circuits := if trip then recordFailure c s.circuits gateway now else s.circuits }
  if race.pending = 0 then s.set id { race with settled := true, calls := .failed race.failures :: race.calls }
  else s.set id race

/-- The callback of `fetchOne(gateway, ...)`. -/
def State.settle (s : State) (id : ℕ) (race : Race) (gateway : JsString) (answer : Answer) (now : ℚ) : State :=
  let result := race.fetchOne gateway answer
  let race := { race with running := race.running.erase gateway }
  if race.settled then s.set id race
  else
    match result with
    | .ok status =>
      { s with circuits := recordSuccess s.circuits gateway }.set id
        { race.abortParent with settled := true, calls := .resolved gateway status :: race.calls }
    | .failure detail trip => s.failOne c id race gateway detail trip now

/-- `onExternalAbort`, whose listener is removed when the race has settled. -/
def Race.onExternalAbort (race : Race) : Race :=
  if race.settled ∨ race.hasSignal = false then race
  else { race.abortParent with settled := true, calls := .aborted :: race.calls }

def exec (s : State) : Event → State
  | .fetchFile cid signal now =>
    if cid = [] ∨ signal = some true then s
    else
      let candidates := selectGateways c s.circuits now
      { s.set s.next { cid, candidates, hasSignal := signal.isSome, running := candidates, pending := candidates.length } with
        next := s.next + 1 }
  | .timeout id gateway =>
    match s.races id with
    | none => s
    | some race =>
      if gateway ∈ race.running then
        s.set id { race with timedOut := gateway :: race.timedOut, abortedSignals := gateway :: race.abortedSignals }
      else s
  | .settle id gateway answer now =>
    match s.races id with
    | none => s
    | some race => if gateway ∈ race.running then s.settle c id race gateway answer now else s
  | .abort id =>
    match s.races id with
    | none => s
    | some race => s.set id race.onExternalAbort
  | .resetCircuits => { s with circuits := fun _ => {} }

end Steps

/-! ## What is asked of a run -/

abbrev Step := Transition State Event

def received (t : Step) : Option (ℕ × Race × JsString × Answer) :=
  match t.label with
  | .settle id gateway answer _ =>
    match t.pre.races id with
    | none => none
    | some race => if gateway ∈ race.running then some (id, race, gateway, answer) else none
  | _ => none

def Aborted (id : ℕ) (hist : List Step) : Prop :=
  ∃ t ∈ hist, t.label = .abort id ∧ ∃ race, t.pre.races id = some race ∧ race.hasSignal = true

open Classical in
/-- The answers of a race's gateways before the caller's abort, newest first. -/
noncomputable def answers (id : ℕ) : List Step → List (JsString × Answer)
  | [] => []
  | t :: earlier =>
    match received t with
    | none => answers id earlier
    | some (id', _, gateway, answer) =>
      if id' = id ∧ ¬ Aborted id earlier then (gateway, answer) :: answers id earlier else answers id earlier

/-- The fetch failed in a way that trips the circuit, while its race was not over. -/
def Trips (t : Step) (gateway : JsString) : Prop :=
  ∃ id race answer detail, received t = some (id, race, gateway, answer) ∧ race.settled = false ∧
    race.fetchOne gateway answer = .failure detail true

/-- A response with an ok status has arrived while its race was not over. -/
def Succeeds (t : Step) (gateway : JsString) : Prop :=
  ∃ id race answer, received t = some (id, race, gateway, answer) ∧ race.settled = false ∧ answer.ok = true

open Classical in
/-- The tripping failures of a gateway since its last success, those that the run started with included. -/
noncomputable def streak (start : Circuits) (gateway : JsString) : List Step → ℕ
  | [] => (start gateway).consecutiveFailures
  | t :: earlier =>
    if Succeeds t gateway then 0
    else if Trips t gateway then streak start gateway earlier + 1
    else streak start gateway earlier

structure RaceDelivers (race : Race) (answers : List (JsString × Answer)) : Prop where
  /-- The race settles at most once. -/
  once : race.calls.length ≤ 1
  /-- It resolves with the first response that arrived with an ok status. -/
  winner : ∀ gateway status, .resolved gateway status ∈ race.calls ↔
    (answers.filter (·.2.ok)).getLast? = some (gateway, .response status)
  /-- It rejects with its failures just if all the candidates failed. -/
  failed : (∃ failures, .failed failures ∈ race.calls) ↔ ∀ g ∈ race.candidates, ∃ a, (g, a) ∈ answers ∧ a.ok = false
  /-- There is one failure for each candidate then. -/
  entries : ∀ failures, .failed failures ∈ race.calls → (failures.map Prod.fst).Perm race.candidates

def KeepsWinner (race : Race) : Prop := ∀ gateway status, .resolved gateway status ∈ race.calls → gateway ∉ race.abortedSignals

/-- A circuit is opened only by as many failures in a row as the threshold says. -/
def OpensLate (c : Client) (start : Circuits) (t : Step) (earlier : List Step) : Prop :=
  ∀ gateway, (t.post.circuits gateway).openedUntil ≠ (t.pre.circuits gateway).openedUntil →
    (t.post.circuits gateway).openedUntil = 0 ∨ c.failureThreshold ≤ streak start gateway (t :: earlier)

structure Delivers (c : Client) (start : Circuits) (hist : List Step) (s : State) : Prop where
  races : ∀ early mid, Visits hist s early mid → ∀ id race, mid.races id = some race → RaceDelivers race (answers id early)
  signals : ∀ early mid, Visits hist s early mid → ∀ id race, mid.races id = some race → KeepsWinner race
  circuits : ∀ t earlier, t :: earlier <:+ hist → OpensLate c start t earlier

/-! ## One race -/

variable {race : Race} {as : List (JsString × Answer)} {ab : Prop} {g : JsString} {answer : Answer}

theorem fetchOne_ok (race : Race) (g : JsString) (h : answer.ok = true) :
    ∃ status, answer = .response status ∧ race.fetchOne g answer = .ok status := by
  cases answer with
  | response status => exact ⟨status, rfl, if_pos h⟩
  | error message => cases h

theorem fetchOne_failure (race : Race) (g : JsString) (h : answer.ok = false) :
    ∃ detail trip, race.fetchOne g answer = .failure detail trip := by
  cases answer with
  | response status => exact ⟨_, _, if_neg (by rw [h]; exact Bool.false_ne_true)⟩
  | error message =>
    rw [Race.fetchOne]
    split_ifs <;> exact ⟨_, _, rfl⟩

/-- How far a race has come, with the answers that arrived before an abort. -/
inductive Phase (race : Race) (as : List (JsString × Answer)) (ab : Prop) : Prop
  | racing (hcalls : race.calls = []) (hsettled : race.settled = false) (hlive : ¬ ab)
      (hfails : ∀ x ∈ as, x.2.ok = false) (hentries : race.failures.map Prod.fst = (as.map Prod.fst).reverse)
      (hcovers : ∀ c ∈ race.candidates, c ∈ as.map Prod.fst ∨ c ∈ race.running)
      (hpending : race.pending = race.running.length) (hrunning : race.running ≠ [])
  | won (gateway : JsString) (status : ℕ) (hcalls : race.calls = [.resolved gateway status])
      (hsettled : race.settled = true) (hfirst : (as.filter (·.2.ok)).getLast? = some (gateway, .response status))
      (haborted : gateway ∈ race.abortedSignals)
  | failed (failures : List (JsString × JsString)) (hcalls : race.calls = [.failed failures])
      (hsettled : race.settled = true) (hfails : ∀ x ∈ as, x.2.ok = false)
      (hentries : failures.map Prod.fst = (as.map Prod.fst).reverse) (hcovers : ∀ c ∈ race.candidates, c ∈ as.map Prod.fst)
      (hrunning : race.running = [])
  | aborted (hcalls : race.calls = [.aborted]) (hsettled : race.settled = true) (hover : ab)
      (hfails : ∀ x ∈ as, x.2.ok = false) (hleft : ∃ c ∈ race.candidates, c ∉ as.map Prod.fst)

structure RaceSound (race : Race) (as : List (JsString × Answer)) (ab : Prop) : Prop where
  candidates : race.candidates.Nodup
  nodup : (as.map Prod.fst ++ race.running).Nodup
  within : ∀ c ∈ as.map Prod.fst ++ race.running, c ∈ race.candidates
  phase : Phase race as ab

theorem RaceSound.answer_unique (h : RaceSound race as ab) {a a' : Answer} (ha : (g, a) ∈ as) (ha' : (g, a') ∈ as) :
    a = a' := by
  have hnodup : (as.map Prod.fst).Nodup := (List.nodup_append.mp h.nodup).1
  have hsame := List.inj_on_of_nodup_map hnodup ha ha' rfl
  exact congrArg Prod.snd hsame

theorem no_success (hfails : ∀ x ∈ as, x.2.ok = false) : as.filter (·.2.ok) = [] := by
  apply List.filter_eq_nil_iff.mpr
  intro x hx
  rw [hfails x hx]
  exact Bool.false_ne_true

theorem RaceSound.delivers (h : RaceSound race as ab) : RaceDelivers race as := by
  have hall : (∀ c ∈ race.candidates, ∃ a, (c, a) ∈ as ∧ a.ok = false) → ∀ c ∈ race.candidates, c ∈ as.map Prod.fst := by
    intro hfailed c hc
    obtain ⟨a, hmem, _⟩ := hfailed c hc
    exact List.mem_map_of_mem hmem
  cases h.phase with
  | racing hcalls _ _ hfails _ _ _ hrunning =>
    refine ⟨by rw [hcalls]; exact Nat.zero_le _, ?_, ?_, ?_⟩
    · intro gateway status
      rw [hcalls, no_success hfails]
      exact ⟨nofun, nofun⟩
    · refine iff_of_false (by rw [hcalls]; rintro ⟨_, hmem⟩; cases hmem) fun hfailed => ?_
      obtain ⟨c, hc⟩ := List.exists_mem_of_ne_nil _ hrunning
      exact (List.nodup_append.mp h.nodup).2.2 c
        (hall hfailed c (h.within c (List.mem_append_right _ hc))) c hc rfl
    · intro failures hmem
      rw [hcalls] at hmem
      cases hmem
  | won gateway status hcalls _ hfirst _ =>
    refine ⟨by rw [hcalls]; exact Nat.le_refl 1, ?_, ?_, ?_⟩
    · intro gateway' status'
      rw [hcalls, List.mem_singleton, hfirst, Option.some.injEq, Prod.mk.injEq, Settlement.resolved.injEq,
        Answer.response.injEq]
      exact ⟨fun h => ⟨h.1.symm, h.2.symm⟩, fun h => ⟨h.1.symm, h.2.symm⟩⟩
    · refine iff_of_false (by rw [hcalls]; rintro ⟨_, hmem⟩; cases List.mem_singleton.mp hmem) fun hfailed => ?_
      obtain ⟨hmem, hok⟩ := List.mem_filter.mp (List.mem_of_getLast? hfirst)
      obtain ⟨a, hmem', hfails⟩ := hfailed gateway (h.within gateway (List.mem_append_left _ (List.mem_map_of_mem hmem)))
      rw [← h.answer_unique hmem hmem'] at hfails
      exact Bool.false_ne_true (hfails.symm.trans hok)
    · intro failures hmem
      rw [hcalls] at hmem
      cases List.mem_singleton.mp hmem
  | failed failures hcalls _ hfails hentries hcovers _ =>
    refine ⟨by rw [hcalls]; exact Nat.le_refl 1, ?_, ?_, ?_⟩
    · intro gateway status
      rw [hcalls, no_success hfails]
      exact ⟨fun hmem => (by cases List.mem_singleton.mp hmem), nofun⟩
    · refine iff_of_true ⟨failures, by rw [hcalls]; exact List.mem_singleton_self _⟩ fun c hc => ?_
      obtain ⟨⟨_, a⟩, hmem, rfl⟩ := List.mem_map.mp (hcovers c hc)
      exact ⟨a, hmem, hfails _ hmem⟩
    · intro failures' hmem
      rw [hcalls] at hmem
      cases List.mem_singleton.mp hmem
      rw [hentries]
      refine (List.perm_ext_iff_of_nodup ?_ h.candidates).mpr fun c => ?_
      · exact List.nodup_reverse.mpr (List.nodup_append.mp h.nodup).1
      · rw [List.mem_reverse]
        exact ⟨fun hc => h.within c (List.mem_append_left _ hc), hcovers c⟩
  | aborted hcalls _ _ hfails hleft =>
    refine ⟨by rw [hcalls]; exact Nat.le_refl 1, ?_, ?_, ?_⟩
    · intro gateway status
      rw [hcalls, no_success hfails]
      exact ⟨fun hmem => (by cases List.mem_singleton.mp hmem), nofun⟩
    · refine iff_of_false (by rw [hcalls]; rintro ⟨_, hmem⟩; cases List.mem_singleton.mp hmem) fun hfailed => ?_
      obtain ⟨c, hc, hnot⟩ := hleft
      exact hnot (hall hfailed c hc)
    · intro failures hmem
      rw [hcalls] at hmem
      cases List.mem_singleton.mp hmem

def Race.after (race : Race) (gateway : JsString) (answer : Answer) : Race :=
  let result := race.fetchOne gateway answer
  let race := { race with running := race.running.erase gateway }
  if race.settled then race
  else
    match result with
    | .ok status => { race.abortParent with settled := true, calls := .resolved gateway status :: race.calls }
    | .failure detail _ =>
      let race := { race with failures := race.failures ++ [(gateway, detail)], pending := race.pending - 1 }
      if race.pending = 0 then { race with settled := true, calls := .failed race.failures :: race.calls } else race

theorem settle_races (c : Client) (s : State) (id : ℕ) (race : Race) (g : JsString) (answer : Answer) (now : ℚ) :
    (s.settle c id race g answer now).races = Function.update s.races id (some (race.after g answer)) ∧
      (s.settle c id race g answer now).next = s.next := by
  unfold State.settle Race.after
  cases hsettled : race.settled with
  | true => exact ⟨rfl, rfl⟩
  | false =>
    simp only [Bool.false_eq_true, if_false]
    cases race.fetchOne g answer with
    | ok status => exact ⟨rfl, rfl⟩
    | failure detail trip =>
      simp only [State.failOne]
      split_ifs <;> exact ⟨rfl, rfl⟩

theorem after_candidates (race : Race) (g : JsString) (answer : Answer) : (race.after g answer).candidates = race.candidates ∧
    (race.after g answer).running = race.running.erase g := by
  unfold Race.after
  cases hsettled : race.settled with
  | true => exact ⟨rfl, rfl⟩
  | false =>
    simp only [Bool.false_eq_true, if_false]
    cases race.fetchOne g answer with
    | ok status => exact ⟨rfl, rfl⟩
    | failure detail trip =>
      simp only []
      split_ifs <;> exact ⟨rfl, rfl⟩

theorem after_failure (hsettled : race.settled = false) (hfails : answer.ok = false) : ∃ detail,
    (race.after g answer).failures = race.failures ++ [(g, detail)] ∧ (race.after g answer).pending = race.pending - 1 ∧
      if race.pending - 1 = 0 then (race.after g answer).settled = true ∧
        (race.after g answer).calls = .failed (race.failures ++ [(g, detail)]) :: race.calls
      else (race.after g answer).settled = false ∧ (race.after g answer).calls = race.calls := by
  obtain ⟨detail, trip, hfetch⟩ := fetchOne_failure race g hfails
  refine ⟨detail, ?_⟩
  simp only [Race.after, hsettled, Bool.false_eq_true, if_false, hfetch]
  split_ifs <;> simp

theorem after_ok (hsettled : race.settled = false) (hok : answer.ok = true) : ∃ status, answer = .response status ∧
    (race.after g answer).settled = true ∧ (race.after g answer).calls = .resolved g status :: race.calls ∧
      (race.after g answer).abortedSignals = race.candidates := by
  obtain ⟨status, hanswer, hfetch⟩ := fetchOne_ok race g hok
  refine ⟨status, hanswer, ?_⟩
  simp only [Race.after, hsettled, Bool.false_eq_true, if_false, hfetch, true_and]
  rfl

theorem after_settled (hsettled : race.settled = true) :
    race.after g answer = { race with running := race.running.erase g } := by
  simp only [Race.after, hsettled, if_true]

theorem won_after_ok (hcalls : race.calls = []) (hsettled : race.settled = false) (hfails : ∀ x ∈ as, x.2.ok = false)
    (hg : g ∈ race.candidates) (hok : answer.ok = true) : Phase (race.after g answer) ((g, answer) :: as) ab := by
  obtain ⟨status, rfl, hsettled', hcalls', haborted⟩ := after_ok (g := g) hsettled hok
  refine .won g status (by rw [hcalls', hcalls]) hsettled' ?_ ?_
  · rw [List.filter_cons_of_pos (by exact hok), no_success hfails]
    rfl
  · rw [haborted]
    exact hg

theorem phase_after_failure (hg : g ∈ race.running) (hcalls : race.calls = [])
    (hsettled : race.settled = false) (hlive : ¬ ab) (hfails : ∀ x ∈ as, x.2.ok = false)
    (hentries : race.failures.map Prod.fst = (as.map Prod.fst).reverse)
    (hcovers : ∀ c ∈ race.candidates, c ∈ as.map Prod.fst ∨ c ∈ race.running)
    (hpending : race.pending = race.running.length) (hok : answer.ok = false) :
    Phase (race.after g answer) ((g, answer) :: as) ab := by
  obtain ⟨hcandidates, hrunning⟩ := after_candidates race g answer
  obtain ⟨detail, hfailures, hpending', hend⟩ := after_failure (g := g) hsettled hok
  have hlength : (race.running.erase g).length = race.pending - 1 := by
    rw [List.length_erase_of_mem hg, hpending]
  have hfails' : ∀ x ∈ (g, answer) :: as, x.2.ok = false := List.forall_mem_cons.mpr ⟨hok, hfails⟩
  have hentries' : (race.failures ++ [(g, detail)]).map Prod.fst = (((g, answer) :: as).map Prod.fst).reverse := by
    rw [List.map_append, hentries, List.map_cons (l := as), List.reverse_cons]
    rfl
  have hcovers' : ∀ c ∈ race.candidates, c ∈ ((g, answer) :: as).map Prod.fst ∨ c ∈ race.running.erase g := by
    intro c hc
    rw [List.map_cons, List.mem_cons]
    rcases hcovers c hc with hdone | hleft
    · exact .inl (.inr hdone)
    · by_cases hsame : c = g
      · exact .inl (.inl hsame)
      · exact .inr ((List.mem_erase_of_ne hsame).mpr hleft)
  split_ifs at hend with hlast
  · have hempty : race.running.erase g = [] := List.length_eq_zero_iff.mp (hlength.trans hlast)
    refine .failed _ (by rw [hend.2, hcalls]) hend.1 hfails' hentries' ?_ (hrunning.trans hempty)
    intro c hc
    rw [hcandidates] at hc
    apply (hcovers' c hc).resolve_right
    rw [hempty]
    exact List.not_mem_nil
  · refine .racing (hend.2.trans hcalls) hend.1 hlive hfails' (by rw [hfailures, hentries']) ?_ ?_ ?_
    · rw [hcandidates, hrunning]
      exact hcovers'
    · rw [hpending', hrunning, hlength]
    · rw [hrunning]
      intro hempty
      rw [hempty] at hlength
      exact hlast hlength.symm

theorem RaceSound.answered (h : RaceSound race as ab) (hg : g ∈ race.running) (hlive : ¬ ab) :
    RaceSound (race.after g answer) ((g, answer) :: as) ab := by
  obtain ⟨hcandidates, hrunning⟩ := after_candidates race g answer
  have hperm : (((g, answer) :: as).map Prod.fst ++ race.running.erase g).Perm (as.map Prod.fst ++ race.running) := by
    rw [List.map_cons, List.cons_append]
    refine List.Perm.trans ?_ ((List.perm_cons_erase hg).symm.append_left (as.map Prod.fst))
    exact List.perm_middle.symm
  refine ⟨by rw [hcandidates]; exact h.candidates, by rw [hrunning]; exact hperm.nodup_iff.mpr h.nodup, ?_, ?_⟩
  · intro c hc
    rw [hrunning] at hc
    rw [hcandidates]
    exact h.within c (hperm.subset hc)
  · cases h.phase with
    | racing hcalls hsettled _ hfails hentries hcovers hpending _ =>
      cases hok : answer.ok with
      | true => exact won_after_ok hcalls hsettled hfails (h.within g (List.mem_append_right _ hg)) hok
      | false => exact phase_after_failure hg hcalls hsettled hlive hfails hentries hcovers hpending hok
    | won gateway status hcalls hsettled hfirst haborted =>
      rw [after_settled hsettled]
      refine .won gateway status hcalls hsettled ?_ haborted
      rw [List.filter_cons]
      split_ifs
      · rw [List.getLast?_cons, hfirst]
        rfl
      · exact hfirst
    | failed _ _ _ _ _ _ hempty =>
      rw [hempty] at hg
      cases hg
    | aborted _ _ hover _ _ => exact absurd hover hlive

theorem RaceSound.late (h : RaceSound race as ab) (hg : g ∈ race.running) (hover : ab) :
    RaceSound (race.after g answer) as ab := by
  have hsettled : race.settled = true := by
    cases h.phase with
    | racing _ _ hlive _ _ _ _ _ => exact absurd hover hlive
    | won _ _ _ hsettled _ _ => exact hsettled
    | failed _ _ hsettled _ _ _ _ => exact hsettled
    | aborted _ hsettled _ _ _ => exact hsettled
  rw [after_settled hsettled]
  have hsub : (as.map Prod.fst ++ race.running.erase g).Sublist (as.map Prod.fst ++ race.running) :=
    List.Sublist.append_left List.erase_sublist _
  refine ⟨h.candidates, h.nodup.sublist hsub, fun c hc => h.within c (hsub.subset hc), ?_⟩
  cases h.phase with
  | racing _ _ hlive _ _ _ _ _ => exact absurd hover hlive
  | won gateway status hcalls _ hfirst haborted => exact .won gateway status hcalls hsettled hfirst haborted
  | failed failures hcalls _ hfails hentries hcovers hempty =>
    rw [hempty] at hg
    cases hg
  | aborted hcalls _ _ hfails hleft => exact .aborted hcalls hsettled hover hfails hleft

theorem RaceSound.abort (h : RaceSound race as ab) (hsignal : race.hasSignal = true) :
    RaceSound race.onExternalAbort as True := by
  cases hphase : h.phase with
  | racing hcalls hsettled _ hfails _ _ _ hrunning =>
    have hends : race.onExternalAbort = { race.abortParent with settled := true, calls := .aborted :: race.calls } := by
      refine if_neg ?_
      rw [hsettled, hsignal]
      decide
    rw [hends]
    obtain ⟨c, hc⟩ := List.exists_mem_of_ne_nil _ hrunning
    refine ⟨h.candidates, h.nodup, h.within, .aborted ?_ rfl trivial hfails ⟨c, ?_, ?_⟩⟩
    · rw [show ({ race.abortParent with settled := true, calls := .aborted :: race.calls } : Race).calls =
        .aborted :: race.calls from rfl, hcalls]
    · exact h.within c (List.mem_append_right _ hc)
    · exact fun hmem => (List.nodup_append.mp h.nodup).2.2 c hmem c hc rfl
  | won gateway status hcalls hsettled hfirst haborted =>
    rw [Race.onExternalAbort, if_pos (.inl hsettled)]
    exact ⟨h.candidates, h.nodup, h.within, .won gateway status hcalls hsettled hfirst haborted⟩
  | failed failures hcalls hsettled hfails hentries hcovers hrunning =>
    rw [Race.onExternalAbort, if_pos (.inl hsettled)]
    exact ⟨h.candidates, h.nodup, h.within, .failed failures hcalls hsettled hfails hentries hcovers hrunning⟩
  | aborted hcalls hsettled _ hfails hleft =>
    rw [Race.onExternalAbort, if_pos (.inl hsettled)]
    exact ⟨h.candidates, h.nodup, h.within, .aborted hcalls hsettled trivial hfails hleft⟩

/-! ## A step -/

variable {c : Client} {s s' : State} {e : Event} {id : ℕ} {hist : List Step} {start : Circuits} {t : Step}

theorem aborted_cons : Aborted id (t :: hist) ↔
    (t.label = .abort id ∧ ∃ race, t.pre.races id = some race ∧ race.hasSignal = true) ∨ Aborted id hist := by
  simp only [Aborted, List.mem_cons, exists_eq_or_imp]

theorem answers_none (h : received t = none) : answers id (t :: hist) = answers id hist := by
  rw [answers, h]

theorem answers_some (h : received t = some (id, race, g, answer)) :
    (¬ Aborted id hist → answers id (t :: hist) = (g, answer) :: answers id hist) ∧
      (Aborted id hist → answers id (t :: hist) = answers id hist) := by
  rw [answers, h]
  dsimp only
  exact ⟨fun hlive => if_pos ⟨rfl, hlive⟩, fun hover => if_neg fun hboth => hboth.2 hover⟩

theorem answers_other {id' : ℕ} (h : received t = some (id', race, g, answer)) (hid : id' ≠ id) :
    answers id (t :: hist) = answers id hist := by
  rw [answers, h]
  exact if_neg fun hboth => hid hboth.1

/-- What is known of each id: of one that is not taken there are no answers. -/
def Tracked (id : ℕ) (hist : List Step) (s : State) : Prop :=
  match s.races id with
  | none => answers id hist = [] ∧ ¬ Aborted id hist
  | some race => RaceSound race (answers id hist) (Aborted id hist)

theorem Tracked.same (h : Tracked id hist s) (hraces : s'.races id = s.races id)
    (hanswers : answers id (⟨s, e, s'⟩ :: hist) = answers id hist)
    (haborted : Aborted id (⟨s, e, s'⟩ :: hist) ↔ Aborted id hist) : Tracked id (⟨s, e, s'⟩ :: hist) s' := by
  rw [Tracked, hraces, hanswers, propext haborted]
  exact h

theorem selectGateways_spec (c : Client) (circuits : Circuits) (timestamp : ℚ) :
    (selectGateways c circuits timestamp).Nodup ∧ selectGateways c circuits timestamp ≠ [] := by
  rw [selectGateways]
  split_ifs with hempty
  · exact ⟨c.nodup, c.nonempty⟩
  · exact ⟨c.nodup.filter _, hempty⟩

theorem raceSound_start {candidates : List JsString} (cid : JsString) (hasSignal : Bool) (hnodup : candidates.Nodup)
    (hnonempty : candidates ≠ []) (hlive : ¬ ab) :
    RaceSound { cid, candidates, hasSignal, running := candidates, pending := candidates.length } [] ab :=
  ⟨hnodup, hnodup, fun _ hc => hc, .racing rfl rfl hlive nofun rfl (fun _ hc => .inr hc) rfl hnonempty⟩

theorem RaceSound.timeout (h : RaceSound race as ab) : RaceSound { race with
    timedOut := g :: race.timedOut, abortedSignals := g :: race.abortedSignals } as ab := by
  refine ⟨h.candidates, h.nodup, h.within, ?_⟩
  cases h.phase with
  | racing hcalls hsettled hlive hfails hentries hcovers hpending hrunning =>
    exact .racing hcalls hsettled hlive hfails hentries hcovers hpending hrunning
  | won gateway status hcalls hsettled hfirst haborted =>
    exact .won gateway status hcalls hsettled hfirst (List.mem_cons_of_mem _ haborted)
  | failed failures hcalls hsettled hfails hentries hcovers hrunning =>
    exact .failed failures hcalls hsettled hfails hentries hcovers hrunning
  | aborted hcalls hsettled hover hfails hleft => exact .aborted hcalls hsettled hover hfails hleft

inductive Did (c : Client) (t : Step) : Prop
  | idle (hraces : t.post.races = t.pre.races) (hnext : t.post.next = t.pre.next) (hreceived : received t = none)
      (habort : ∀ id, t.label = .abort id → t.pre.races id = none)
  | started (cid : JsString) (hasSignal : Bool) (now : ℚ) (hreceived : received t = none)
      (habort : ∀ id, t.label ≠ .abort id) (hnext : t.post.next = t.pre.next + 1)
      (hraces : t.post.races = Function.update t.pre.races t.pre.next (some
        { cid, hasSignal, candidates := selectGateways c t.pre.circuits now
          running := selectGateways c t.pre.circuits now, pending := (selectGateways c t.pre.circuits now).length }))
  | timedOut (id : ℕ) (race : Race) (g : JsString) (hrace : t.pre.races id = some race) (hreceived : received t = none)
      (habort : ∀ id, t.label ≠ .abort id) (hnext : t.post.next = t.pre.next)
      (hraces : t.post.races = Function.update t.pre.races id (some { race with
        timedOut := g :: race.timedOut, abortedSignals := g :: race.abortedSignals }))
  | answered (id : ℕ) (race : Race) (g : JsString) (answer : Answer) (hrace : t.pre.races id = some race)
      (hrunning : g ∈ race.running) (hreceived : received t = some (id, race, g, answer))
      (habort : ∀ id, t.label ≠ .abort id) (hnext : t.post.next = t.pre.next)
      (hraces : t.post.races = Function.update t.pre.races id (some (race.after g answer)))
  | aborted (id : ℕ) (race : Race) (hlabel : t.label = .abort id) (hrace : t.pre.races id = some race)
      (hreceived : received t = none) (hnext : t.post.next = t.pre.next)
      (hraces : t.post.races = Function.update t.pre.races id (some race.onExternalAbort))

theorem did_of_exec (hstep : exec c t.pre t.label = t.post) : Did c t := by
  obtain ⟨s, e, s'⟩ := t
  obtain rfl : exec c s e = s' := hstep
  cases e with
  | fetchFile cid signal now =>
    by_cases hrefused : cid = [] ∨ signal = some true
    · have hexec : exec c s (.fetchFile cid signal now) = s := if_pos hrefused
      rw [hexec]
      exact .idle rfl rfl rfl nofun
    · refine .started cid signal.isSome now rfl nofun ?_ ?_ <;> simp only [exec, if_neg hrefused, State.set]
  | timeout id g =>
    cases hrace : s.races id with
    | none =>
      have hexec : exec c s (.timeout id g) = s := by simp only [exec, hrace]
      rw [hexec]
      exact .idle rfl rfl rfl nofun
    | some race =>
      by_cases hrunning : g ∈ race.running
      · refine .timedOut id race g hrace rfl nofun ?_ ?_ <;> simp only [exec, hrace, if_pos hrunning, State.set]
      · have hexec : exec c s (.timeout id g) = s := by simp only [exec, hrace, if_neg hrunning]
        rw [hexec]
        exact .idle rfl rfl rfl nofun
  | settle id g answer now =>
    cases hrace : s.races id with
    | none =>
      have hexec : exec c s (.settle id g answer now) = s := by simp only [exec, hrace]
      rw [hexec]
      exact .idle rfl rfl (by simp only [received, hrace]) nofun
    | some race =>
      by_cases hrunning : g ∈ race.running
      · obtain ⟨hraces, hnext⟩ := settle_races c s id race g answer now
        have hexec : exec c s (.settle id g answer now) = s.settle c id race g answer now := by
          simp only [exec, hrace, if_pos hrunning]
        rw [hexec]
        exact .answered id race g answer hrace hrunning (by simp only [received, hrace, if_pos hrunning]) nofun hnext hraces
      · have hexec : exec c s (.settle id g answer now) = s := by simp only [exec, hrace, if_neg hrunning]
        rw [hexec]
        exact .idle rfl rfl (by simp only [received, hrace, if_neg hrunning]) nofun
  | abort id =>
    cases hrace : s.races id with
    | none =>
      have hexec : exec c s (.abort id) = s := by simp only [exec, hrace]
      rw [hexec]
      refine .idle rfl rfl rfl ?_
      rintro _ ⟨⟩
      exact hrace
    | some race => refine .aborted id race rfl hrace rfl ?_ ?_ <;> simp only [exec, hrace, State.set]
  | resetCircuits => exact .idle rfl rfl rfl nofun

/-- The ids from `next` on are free, and each id is tracked. -/
structure Sound (hist : List Step) (s : State) : Prop where
  free : ∀ id, s.next ≤ id → s.races id = none
  tracked : ∀ id, Tracked id hist s

theorem aborted_same (hnone : ∀ id', e = .abort id' → id' ≠ id ∨ s.races id = none) :
    Aborted id (⟨s, e, s'⟩ :: hist) ↔ Aborted id hist := by
  rw [aborted_cons, or_iff_right]
  rintro ⟨hlabel, race, hrace, _⟩
  rcases hnone id hlabel with hne | hfree
  · exact hne rfl
  · rw [hfree] at hrace
    cases hrace

theorem aborted_same_of_ne (habort : ∀ id', e ≠ .abort id') :
    Aborted id (⟨s, e, s'⟩ :: hist) ↔ Aborted id hist :=
  aborted_same fun id' hlabel => absurd hlabel (habort id')

theorem Sound.raceSound (h : Sound hist s) (hrace : s.races id = some race) :
    RaceSound race (answers id hist) (Aborted id hist) := by
  have htracked := h.tracked id
  rw [Tracked, hrace] at htracked
  exact htracked

theorem Sound.changed (h : Sound hist s) {race' : Race} (hrace : s.races id = some race) (hnext : s'.next = s.next)
    (hraces : s'.races = Function.update s.races id (some race'))
    (hself : RaceSound race' (answers id (⟨s, e, s'⟩ :: hist)) (Aborted id (⟨s, e, s'⟩ :: hist)))
    (hanswers : ∀ other, other ≠ id → answers other (⟨s, e, s'⟩ :: hist) = answers other hist)
    (haborted : ∀ other, other ≠ id → (Aborted other (⟨s, e, s'⟩ :: hist) ↔ Aborted other hist)) :
    Sound (⟨s, e, s'⟩ :: hist) s' where
  free := by
    intro other hother
    rw [hnext] at hother
    have hfree := h.free other hother
    have hne : other ≠ id := by
      rintro rfl
      rw [hfree] at hrace
      cases hrace
    rw [hraces, Function.update_of_ne hne]
    exact hfree
  tracked := by
    intro other
    by_cases hsame : other = id
    · subst hsame
      rw [Tracked, hraces, Function.update_self]
      exact hself
    · have hkept : s'.races other = s.races other := by rw [hraces, Function.update_of_ne hsame]
      exact (h.tracked other).same hkept (hanswers other hsame) (haborted other hsame)

theorem Sound.started (h : Sound hist s) {cid : JsString} {hasSignal : Bool} {now : ℚ}
    (hreceived : received ⟨s, e, s'⟩ = none) (habort : ∀ id, e ≠ .abort id) (hnext : s'.next = s.next + 1)
    (hraces : s'.races = Function.update s.races s.next (some
      { cid, hasSignal, candidates := selectGateways c s.circuits now, running := selectGateways c s.circuits now
        pending := (selectGateways c s.circuits now).length })) : Sound (⟨s, e, s'⟩ :: hist) s' where
  free := by
    intro id hid
    rw [hnext] at hid
    have hlt : s.next < id := hid
    rw [hraces, Function.update_of_ne hlt.ne']
    exact h.free id hlt.le
  tracked := by
    intro id
    by_cases hnew : id = s.next
    · subst hnew
      have htracked := h.tracked s.next
      rw [Tracked, h.free s.next (Nat.le_refl _)] at htracked
      rw [Tracked, hraces, Function.update_self, answers_none hreceived, htracked.1, propext (aborted_same_of_ne habort)]
      obtain ⟨hnodup, hnonempty⟩ := selectGateways_spec c s.circuits now
      exact raceSound_start cid hasSignal hnodup hnonempty htracked.2
    · have hkept : s'.races id = s.races id := by rw [hraces, Function.update_of_ne hnew]
      exact (h.tracked id).same hkept (answers_none hreceived) (aborted_same_of_ne habort)

theorem RaceSound.onAbort (h : RaceSound race (answers id hist) (Aborted id hist)) (hrace : s.races id = some race) :
    RaceSound race.onExternalAbort (answers id hist) (Aborted id (⟨s, .abort id, s'⟩ :: hist)) := by
  cases hsignal : race.hasSignal with
  | true =>
    have hover : Aborted id (⟨s, .abort id, s'⟩ :: hist) := aborted_cons.mpr (.inl ⟨rfl, race, hrace, hsignal⟩)
    rw [eq_true hover]
    exact h.abort hsignal
  | false =>
    have hsilent : Aborted id (⟨s, .abort id, s'⟩ :: hist) ↔ Aborted id hist := by
      rw [aborted_cons, or_iff_right]
      rintro ⟨_, race', hrace', hsignal'⟩
      cases hrace.symm.trans hrace'
      exact Bool.false_ne_true (hsignal.symm.trans hsignal')
    rw [propext hsilent, Race.onExternalAbort, if_pos (.inr hsignal)]
    exact h

theorem Sound.next (h : Sound hist s) (hdid : Did c ⟨s, e, s'⟩) : Sound (⟨s, e, s'⟩ :: hist) s' := by
  cases hdid with
  | idle hraces hnext hreceived habort =>
    constructor
    · intro id hid
      rw [show s'.races = s.races from hraces]
      exact h.free id (hnext ▸ hid)
    · intro id
      apply (h.tracked id).same (congrFun hraces id) (answers_none hreceived)
      apply aborted_same
      intro id' hlabel
      by_cases hsame : id' = id
      · exact .inr (hsame ▸ habort id' hlabel)
      · exact .inl hsame
  | started cid hasSignal now hreceived habort hnext hraces => exact h.started hreceived habort hnext hraces
  | timedOut id race g hrace hreceived habort hnext hraces =>
    apply h.changed hrace hnext hraces
    · rw [answers_none hreceived, propext (aborted_same_of_ne habort)]
      exact (h.raceSound hrace).timeout
    · exact fun other _ => answers_none hreceived
    · exact fun other _ => aborted_same_of_ne habort
  | answered id race g answer hrace hrunning hreceived habort hnext hraces =>
    apply h.changed hrace hnext hraces
    · have htracked := h.raceSound hrace
      rw [propext (aborted_same_of_ne habort)]
      by_cases hover : Aborted id hist
      · rw [(answers_some hreceived).2 hover]
        exact htracked.late hrunning hover
      · rw [(answers_some hreceived).1 hover]
        exact htracked.answered hrunning hover
    · exact fun other hne => answers_other hreceived (Ne.symm hne)
    · exact fun other _ => aborted_same_of_ne habort
  | aborted id race hlabel hrace hreceived hnext hraces =>
    obtain rfl : e = .abort id := hlabel
    apply h.changed hrace hnext hraces
    · rw [answers_none hreceived]
      exact (h.raceSound hrace).onAbort hrace
    · exact fun other _ => answers_none hreceived
    · intro other hne
      apply aborted_same
      intro id' hlabel
      cases hlabel
      exact .inl (Ne.symm hne)

/-! ## Runs -/

abbrev ClientRun (c : Client) (start : Circuits) : List Step → State → Prop :=
  Run (fun s => s = { circuits := start }) fun s e s' => exec c s e = s'

theorem sound (h : ClientRun c start hist s) : Sound hist s := by
  refine h.relates (fun s hinit => ?_) fun hist s e s' _ hsound hstep => hsound.next (did_of_exec hstep)
  subst hinit
  exact ⟨fun _ _ => rfl, fun _ => ⟨rfl, fun ⟨_, hmem, _⟩ => by cases hmem⟩⟩

theorem races_deliver (h : ClientRun c start hist s) (hrace : s.races id = some race) :
    RaceDelivers race (answers id hist) := by
  have htracked := (sound h).tracked id
  rw [Tracked, hrace] at htracked
  exact htracked.delivers

/-! ## Circuits -/

inductive CircuitDid (c : Client) (t : Step) (gateway : JsString) : Prop
  | same (hsame : t.post.circuits gateway = t.pre.circuits gateway) (hnot : ¬ Succeeds t gateway)
  | cleared (hcleared : t.post.circuits gateway = {})
  | tripped (now : ℚ) (htrips : Trips t gateway) (hnot : ¬ Succeeds t gateway)
      (hrecord : t.post.circuits gateway = recordFailure c t.pre.circuits gateway now gateway)

theorem not_succeeds_of_received (h : received t = none) : ¬ Succeeds t g := by
  rintro ⟨id, race, answer, hreceived, _⟩
  cases h.symm.trans hreceived

theorem failOne_circuits (c : Client) (s : State) (id : ℕ) (race : Race) (g detail : JsString) (trip : Bool) (now : ℚ) :
    (s.failOne c id race g detail trip now).circuits = if trip then recordFailure c s.circuits g now else s.circuits := by
  simp only [State.failOne]
  split_ifs <;> rfl

theorem circuitDid_settle {now : ℚ} (hrace : s.races id = some race) (hrunning : g ∈ race.running)
    (gateway : JsString) :
    CircuitDid c ⟨s, .settle id g answer now, s.settle c id race g answer now⟩ gateway := by
  have hreceived : received ⟨s, .settle id g answer now, s.settle c id race g answer now⟩ = some (id, race, g, answer) := by
    simp only [received, hrace, if_pos hrunning]
  have hsucceeds : Succeeds ⟨s, .settle id g answer now, s.settle c id race g answer now⟩ gateway →
      gateway = g ∧ race.settled = false ∧ answer.ok = true := by
    rintro ⟨id', race', answer', hreceived', hsettled, hok⟩
    cases hreceived.symm.trans hreceived'
    exact ⟨rfl, hsettled, hok⟩
  cases hsettled : race.settled with
  | true =>
    apply CircuitDid.same
    · simp only [State.settle, hsettled, if_true, State.set]
    · intro hdone
      rw [hsettled] at hsucceeds
      cases (hsucceeds hdone).2.1
  | false =>
    cases hok : answer.ok with
    | true =>
      obtain ⟨status, _, hfetch⟩ := fetchOne_ok race g hok
      have hcircuits : (s.settle c id race g answer now).circuits = recordSuccess s.circuits g := by
        simp only [State.settle, hsettled, Bool.false_eq_true, if_false, hfetch, State.set]
      by_cases hsame : gateway = g
      · apply CircuitDid.cleared
        rw [hcircuits, hsame, recordSuccess, Function.update_self]
      · apply CircuitDid.same
        · rw [hcircuits, recordSuccess, Function.update_of_ne hsame]
        · exact fun hdone => hsame (hsucceeds hdone).1
    | false =>
      obtain ⟨detail, trip, hfetch⟩ := fetchOne_failure race g hok
      have hnot : ¬ Succeeds ⟨s, .settle id g answer now, s.settle c id race g answer now⟩ gateway := by
        intro hdone
        rw [hok] at hsucceeds
        cases (hsucceeds hdone).2.2
      have hcircuits : (s.settle c id race g answer now).circuits =
          if trip then recordFailure c s.circuits g now else s.circuits := by
        simp only [State.settle, hsettled, Bool.false_eq_true, if_false, hfetch, failOne_circuits]
      by_cases hsame : gateway = g
      · subst hsame
        cases trip with
        | false => exact .same (by rw [hcircuits]; rfl) hnot
        | true =>
          refine .tripped now ⟨id, race, answer, detail, hreceived, hsettled, hfetch⟩ hnot ?_
          rw [hcircuits]
          rfl
      · refine .same ?_ hnot
        rw [hcircuits]
        split_ifs
        · rw [recordFailure, Function.update_of_ne hsame]
        · rfl

theorem circuitDid_of_exec (hstep : exec c t.pre t.label = t.post) (gateway : JsString) : CircuitDid c t gateway := by
  obtain ⟨s, e, s'⟩ := t
  obtain rfl : exec c s e = s' := hstep
  cases e with
  | fetchFile cid signal now =>
    refine .same ?_ (not_succeeds_of_received rfl)
    by_cases hrefused : cid = [] ∨ signal = some true
    · simp only [exec, if_pos hrefused]
    · simp only [exec, if_neg hrefused, State.set]
  | timeout id g =>
    refine .same ?_ (not_succeeds_of_received rfl)
    cases hrace : s.races id with
    | none => simp only [exec, hrace]
    | some race => by_cases hrunning : g ∈ race.running <;> simp [exec, hrace, hrunning, State.set]
  | abort id =>
    refine .same ?_ (not_succeeds_of_received rfl)
    cases hrace : s.races id <;> simp only [exec, hrace, State.set]
  | resetCircuits => exact .cleared rfl
  | settle id g answer now =>
    cases hrace : s.races id with
    | none =>
      have hexec : exec c s (.settle id g answer now) = s := by simp only [exec, hrace]
      rw [hexec]
      exact .same rfl (not_succeeds_of_received (by simp only [received, hrace]))
    | some race =>
      by_cases hrunning : g ∈ race.running
      · have hexec : exec c s (.settle id g answer now) = s.settle c id race g answer now := by
          simp only [exec, hrace, if_pos hrunning]
        rw [hexec]
        exact circuitDid_settle hrace hrunning gateway
      · have hexec : exec c s (.settle id g answer now) = s := by simp only [exec, hrace, if_neg hrunning]
        rw [hexec]
        exact .same rfl (not_succeeds_of_received (by simp only [received, hrace, if_neg hrunning]))

theorem streak_le (hnot : ¬ Succeeds t g) : streak start g hist ≤ streak start g (t :: hist) := by
  rw [streak, if_neg hnot]
  split_ifs
  · exact Nat.le_succ _
  · exact Nat.le_refl _

theorem streak_trips (htrips : Trips t g) (hnot : ¬ Succeeds t g) :
    streak start g (t :: hist) = streak start g hist + 1 := by
  rw [streak, if_neg hnot, if_pos htrips]

theorem counted_le (h : ClientRun c start hist s) (gateway : JsString) :
    (s.circuits gateway).consecutiveFailures ≤ streak start gateway hist := by
  refine h.relates (R := fun hist s => (s.circuits gateway).consecutiveFailures ≤ streak start gateway hist)
    (fun s hinit => by rw [hinit]; exact Nat.le_refl _) fun hist s e s' _ ih hstep => ?_
  cases circuitDid_of_exec (t := ⟨s, e, s'⟩) hstep gateway with
  | same hsame hnot =>
    rw [show s'.circuits gateway = s.circuits gateway from hsame]
    exact ih.trans (streak_le hnot)
  | cleared hcleared =>
    rw [show s'.circuits gateway = {} from hcleared]
    exact Nat.zero_le _
  | tripped now htrips hnot hrecord =>
    rw [show s'.circuits gateway = _ from hrecord, streak_trips htrips hnot, recordFailure, Function.update_self]
    exact Nat.succ_le_succ ih

theorem opens_late (h : ClientRun c start hist s) {earlier : List Step} (hsuffix : t :: earlier <:+ hist) :
    OpensLate c start t earlier := by
  intro gateway hopens
  obtain ⟨hrun, hstep⟩ := h.suffix_step hsuffix
  cases circuitDid_of_exec hstep gateway with
  | same hsame _ => exact absurd (congrArg CircuitRecord.openedUntil hsame) hopens
  | cleared hcleared => exact .inl (congrArg CircuitRecord.openedUntil hcleared)
  | tripped now htrips hnot hrecord =>
    refine .inr ?_
    rw [streak_trips htrips hnot]
    have hcounted := counted_le hrun gateway
    rw [hrecord, recordFailure, Function.update_self] at hopens
    dsimp only at hopens
    split_ifs at hopens with hthreshold
    · exact hthreshold.trans (by exact_mod_cast Nat.succ_le_succ hcounted)
    · exact absurd rfl hopens

/-! ## Winners -/

theorem RaceSound.wins_aborted (h : RaceSound race as ab) (hkeeps : KeepsWinner race) :
    ∀ gateway status, .resolved gateway status ∉ race.calls := by
  intro gateway status hmem
  cases h.phase with
  | racing hcalls _ _ _ _ _ _ _ =>
    rw [hcalls] at hmem
    cases hmem
  | won gateway' status' hcalls _ _ haborted =>
    have hmem' := hmem
    rw [hcalls] at hmem
    cases List.mem_singleton.mp hmem
    exact hkeeps gateway status hmem' haborted
  | failed failures hcalls _ _ _ _ _ =>
    rw [hcalls] at hmem
    cases List.mem_singleton.mp hmem
  | aborted hcalls _ _ _ _ =>
    rw [hcalls] at hmem
    cases List.mem_singleton.mp hmem

theorem received_races (hstep : exec c t.pre t.label = t.post) (h : received t = some (id, race, g, answer)) :
    t.post.races id = some (race.after g answer) := by
  cases did_of_exec hstep with
  | idle _ _ hreceived _ => cases h.symm.trans hreceived
  | started _ _ _ hreceived _ _ _ => cases h.symm.trans hreceived
  | timedOut _ _ _ _ hreceived _ _ _ => cases h.symm.trans hreceived
  | answered id' race' g' answer' _ _ hreceived _ _ hraces =>
    cases h.symm.trans hreceived
    rw [hraces, Function.update_self]
  | aborted _ _ _ _ hreceived _ _ => cases h.symm.trans hreceived

def Unwon (s : State) : Prop := ∀ id race, s.races id = some race → ∀ gateway status, .resolved gateway status ∉ race.calls

theorem Unwon.next (h : Unwon s) (hdid : Did c ⟨s, e, s'⟩) (hnot : ∀ gateway, ¬ Succeeds ⟨s, e, s'⟩ gateway) : Unwon s' := by
  have hupdate : ∀ id race', s'.races = Function.update s.races id (some race') →
      (∀ gateway status, .resolved gateway status ∉ race'.calls) → Unwon s' := by
    intro id race' hraces hcalls other race hrace
    rw [hraces] at hrace
    by_cases hsame : other = id
    · subst hsame
      rw [Function.update_self, Option.some.injEq] at hrace
      exact hrace ▸ hcalls
    · rw [Function.update_of_ne hsame] at hrace
      exact h other race hrace
  cases hdid with
  | idle hraces _ _ _ =>
    intro id race hrace
    exact h id race ((congrFun hraces id).symm.trans hrace)
  | started _ _ _ _ _ _ hraces => exact hupdate _ _ hraces fun _ _ hmem => by cases hmem
  | timedOut id race _ hrace _ _ _ hraces => exact hupdate id _ hraces (h id race hrace)
  | answered id race g answer hrace _ hreceived _ _ hraces =>
    refine hupdate id _ hraces fun gateway status hmem => ?_
    cases hsettled : race.settled with
    | true =>
      rw [after_settled hsettled] at hmem
      exact h id race hrace gateway status hmem
    | false =>
      cases hok : answer.ok with
      | true => exact hnot g ⟨id, race, answer, hreceived, hsettled, hok⟩
      | false =>
        obtain ⟨detail, _, _, hend⟩ := after_failure (g := g) hsettled hok
        split_ifs at hend
        · rw [hend.2] at hmem
          rcases List.mem_cons.mp hmem with hlast | hmem
          · cases hlast
          · exact h id race hrace gateway status hmem
        · rw [hend.2] at hmem
          exact h id race hrace gateway status hmem
  | aborted id race _ hrace _ _ hraces =>
    refine hupdate id _ hraces fun gateway status hmem => ?_
    rw [Race.onExternalAbort] at hmem
    split_ifs at hmem
    · exact h id race hrace gateway status hmem
    · rcases List.mem_cons.mp hmem with hlast | hmem
      · cases hlast
      · exact h id race hrace gateway status hmem

/-- Everything but the winner's signal is as asked in every run; the signal is kept just if no response with an
ok status arrives while its race is not over. -/
theorem delivers_iff (h : ClientRun c start hist s) :
    Delivers c start hist s ↔ ∀ t ∈ hist, ∀ gateway, ¬ Succeeds t gateway := by
  constructor
  · rintro hdelivers t ht gateway ⟨id, race, answer, hreceived, hsettled, hok⟩
    obtain ⟨earlier, hvisit, hrun, hstep⟩ := h.visits_of_mem ht
    have hrace := received_races hstep hreceived
    have htracked := (sound (.next hrun hstep)).tracked id
    rw [Tracked, hrace] at htracked
    obtain ⟨status, _, _, hcalls, _⟩ := after_ok (g := gateway) hsettled hok
    refine htracked.wins_aborted (hdelivers.signals _ _ hvisit id _ hrace) gateway status ?_
    rw [hcalls]
    exact List.mem_cons_self
  · intro hnot
    refine ⟨fun early mid hvisit id race hrace => races_deliver (hvisit.run h) hrace, ?_,
      fun t earlier hsuffix => opens_late h hsuffix⟩
    intro early mid hvisit id race hrace gateway status hmem
    have hunwon : Unwon mid := (hvisit.run h).relates_of (R := fun _ s => Unwon s)
      (C := fun t => ∀ gateway, ¬ Succeeds t gateway) (fun s hinit id race hrace => by rw [hinit] at hrace; cases hrace)
      (fun _ _ _ _ _ ih hnot hstep => ih.next (did_of_exec hstep) hnot) fun t ht => hnot t (hvisit.suffix.subset ht)
    exact absurd hmem (hunwon id race hrace gateway status)

/-- Whether an event brings a response with an ok status. -/
def Event.ok : Event → Bool
  | .settle _ _ answer _ => answer.ok
  | _ => false

theorem not_succeeds_of_label (h : t.label.ok = false) (gateway : JsString) : ¬ Succeeds t gateway := by
  rintro ⟨id, race, answer, hreceived, _, hok⟩
  obtain ⟨s, e, s'⟩ := t
  cases e with
  | settle id' g answer' now =>
    have hanswer : answer = answer' := by
      simp only [received] at hreceived
      split at hreceived
      · cases hreceived
      · split_ifs at hreceived
        cases hreceived
        rfl
    rw [hanswer] at hok
    exact Bool.false_ne_true (h.symm.trans hok)
  | fetchFile cid signal now => cases hreceived
  | timeout id' g => cases hreceived
  | abort id' => cases hreceived
  | resetCircuits => cases hreceived

def twoGateways : Client := createIpfsGatewayClient (fun s => s) { gateways := some [js "https://a/", js "https://b"] }

/-- Newest first: both gateways fail. -/
def allFail : List Event :=
  [.settle 0 (js "https://b/") (.error (js "refused")) 2, .settle 0 (js "https://a/") (.response 429) 1,
    .fetchFile (js "c") none 0]

theorem delivers_allFail :
    Delivers twoGateways (fun _ => {}) (executed (exec twoGateways) { circuits := fun _ => {} } allFail).1
        (executed (exec twoGateways) { circuits := fun _ => {} } allFail).2 ∧
      ((executed (exec twoGateways) { circuits := fun _ => {} } allFail).2.races 0).map (·.calls) =
        some [.failed [(js "https://a/", js "HTTP 429"), (js "https://b/", js "refused")]] := by
  have hlabels : ∀ t ∈ (executed (exec twoGateways) { circuits := fun _ => {} } allFail).1, t.label.ok = false := by
    decide +kernel
  exact ⟨(delivers_iff (executed_run (by rfl) (fun _ _ => by rfl) _)).mpr fun t ht => not_succeeds_of_label (hlabels t ht),
    by decide +kernel⟩

/-- Newest first: the first gateway answers. -/
def firstWins : List Event := [.settle 0 (js "https://a/") (.response 200) 1, .fetchFile (js "c") none 0]

/-- The signal of the winning fetch is aborted as those of the losers are. -/
theorem winner_aborted :
    ClientRun twoGateways (fun _ => {}) (executed (exec twoGateways) { circuits := fun _ => {} } firstWins).1
        (executed (exec twoGateways) { circuits := fun _ => {} } firstWins).2 ∧
      ¬ Delivers twoGateways (fun _ => {}) (executed (exec twoGateways) { circuits := fun _ => {} } firstWins).1
        (executed (exec twoGateways) { circuits := fun _ => {} } firstWins).2 := by
  refine ⟨executed_run (by rfl) (fun _ _ => by rfl) _, fun h => ?_⟩
  have hrace : ((executed (exec twoGateways) { circuits := fun _ => {} } firstWins).2.races 0).map
      (fun race => (race.calls, race.abortedSignals)) =
        some ([.resolved (js "https://a/") 200], [js "https://a/", js "https://b/"]) := by decide +kernel
  obtain ⟨race, hsome, hboth⟩ := Option.map_eq_some_iff.mp hrace
  obtain ⟨hcalls, haborted⟩ := Prod.mk.inj hboth
  refine h.signals _ _ .here 0 race hsome (js "https://a/") 200 ?_ ?_
  · rw [hcalls]
    exact List.mem_singleton_self _
  · rw [haborted]
    exact List.mem_cons_self

end ChainGuard.OffChain.GatewayPool
