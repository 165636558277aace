import ChainGuard.Library.RequestReply
import ChainGuard.OffChain.CryptoWorker

/-! What the promises of the worker pool settle with, whichever handler its workers run. -/
namespace ChainGuard.OffChain.CryptoWorker
open History RequestReply
set_option autoImplicit false

variable {Num : Type} {crypto : Crypto Num} {self : WorkerScope Num} {browser : Browser}
  {hist : List (Transition (Pool Num) (Event Num))} {s s' : Pool Num}

/-! ## The pool as requests and replies -/

def reply : Option Post → Option CryptoWorkerResponse
  | some (.response (some _) response) => some response
  | _ => none

def protocol (crypto : Crypto Num) (self : WorkerScope Num) :
    Protocol (CryptoWorkerRequest Num) CryptoWorkerResponse (Except JsString Value) where
  answers request answer := ∃ id random, reply (self.receive (.request id request) random) = answer
  settle := settle
  serves request out := ∃ (call : Call Num) (random : Random), call.request = request ∧ call.fallback crypto random = out

abbrev Requests (Num : Type) :=
  RequestReply.State JsString (CryptoWorkerRequest Num) CryptoWorkerResponse (Except JsString Value)

def Pool.requests (s : Pool Num) : Requests Num where
  calls := s.calls.map fun c => (c.1, c.2.request)
  pending := s.service.pendingRequests
  posted := s.messages.map Prod.snd
  replies := s.responses
  settled := s.settled

def WorkerScope.Echoes (self : WorkerScope Num) : Prop :=
  ∀ id request random id' response,
    self.receive (.request id request) random = some (.response (some id') response) → id' = id

def CryptoWorkerService.InRange (s : CryptoWorkerService) : Prop :=
  s.workers = [] ∨ s.nextWorkerIndex < s.workers.length

theorem getNextWorker_spec {s : CryptoWorkerService} (h : s.InRange) :
    (s.getNextWorker.1 = none ↔ s.workers = []) ∧ s.getNextWorker.2.InRange ∧
      s.getNextWorker.2.pendingRequests = s.pendingRequests := by
  unfold CryptoWorkerService.getNextWorker
  split
  case isTrue hnone =>
    have hempty : s.workers = [] := List.eq_nil_of_length_eq_zero hnone
    exact ⟨⟨fun _ => hempty, fun _ => rfl⟩, h, rfl⟩
  case isFalse hsome =>
    have hnonempty : s.workers ≠ [] := fun hempty => hsome (by rw [hempty]; rfl)
    have hlt : s.nextWorkerIndex < s.workers.length := h.resolve_left hnonempty
    refine ⟨?_, .inr (Nat.mod_lt _ (Nat.pos_of_ne_zero hsome)), rfl⟩
    rw [List.getElem?_eq_getElem hlt]
    exact ⟨fun h => absurd h (by simp), fun h => absurd h hnonempty⟩

def action (crypto : Crypto Num) (self : WorkerScope Num) (t : Transition (Pool Num) (Event Num)) :
    Option (Action JsString (CryptoWorkerRequest Num) CryptoWorkerResponse (Except JsString Value)) :=
  match t.label with
  | .call id call random =>
    if t.pre.service.workers = [] then some (.serve id call.request (call.fallback crypto random))
    else some (.post id call.request)
  | .process i random =>
    (t.pre.messages[i]?).map fun m => .process i (reply (self.receive (.request m.2.1 m.2.2) random))
  | .deliver i => (t.pre.responses[i]?).map fun _ => .deliver i
  | .terminate => some .discard

theorem initWorkers_inRange (browser : Browser) : (initWorkers browser).InRange := by
  unfold initWorkers
  split
  case isFalse => exact .inl rfl
  case isTrue =>
    refine .inr ?_
    have hpos : 0 < if browser.hardwareConcurrency = 0 then 4 else browser.hardwareConcurrency := by
      split <;> omega
    simpa using hpos

theorem inRange (h : WorkerRun crypto self browser hist s) : s.service.InRange := by
  refine h.invariant (I := fun s => s.service.InRange) ?_ ?_
  · rintro s rfl
    exact initWorkers_inRange browser
  · rintro s e s' hrange ⟨_, rfl⟩
    cases e with
    | call id call random =>
      have hspec := (getNextWorker_spec hrange).2.1
      simp only [Pool.next, Pool.call]
      split <;> rename_i hnext <;> rw [hnext] at hspec <;> exact hspec
    | process i random =>
      simp only [Pool.next, Pool.process]
      split <;> exact hrange
    | deliver i =>
      simp only [Pool.next, Pool.deliver]
      split
      · exact hrange
      · split <;> exact hrange
    | terminate => exact .inl rfl

/-! ## Every step of the pool is a step of the requests -/

theorem call_served {id : JsString} {call : Call Num} {random : Random} (hrange : s.service.InRange)
    (hnone : s.service.workers = []) :
    (s.call crypto id call random).requests =
      { s.requests with calls := (id, call.request) :: s.requests.calls
                        settled := (id, call.fallback crypto random) :: s.requests.settled } := by
  obtain ⟨hworker, _, hpending⟩ := getNextWorker_spec hrange
  have hnext : s.service.getNextWorker = (none, s.service.getNextWorker.2) := Prod.ext (hworker.mpr hnone) rfl
  unfold Pool.call
  rw [hnext]
  simp only [Pool.requests, List.map_cons, hpending]

theorem call_posted {id : JsString} {call : Call Num} {random : Random} (hrange : s.service.InRange)
    (hsome : s.service.workers ≠ []) :
    (s.call crypto id call random).requests =
      { s.requests with calls := (id, call.request) :: s.requests.calls
                        pending := id :: s.requests.pending
                        posted := s.requests.posted ++ [(id, call.request)] } := by
  obtain ⟨hworker, _, hpending⟩ := getNextWorker_spec hrange
  obtain ⟨worker, hworker⟩ := Option.ne_none_iff_exists'.mp (mt hworker.mp hsome)
  have hnext : s.service.getNextWorker = (some worker, s.service.getNextWorker.2) := Prod.ext hworker rfl
  unfold Pool.call
  rw [hnext]
  simp only [Pool.requests, List.map_cons, List.map_append, List.map_nil, hpending]

theorem process_requests (hechoes : self.Echoes) {i worker : ℕ} {id : JsString} {request : CryptoWorkerRequest Num}
    (random : Random) (hmessage : s.messages[i]? = some (worker, id, request)) :
    (s.process self i random).requests =
      { s.requests with
        posted := s.requests.posted.eraseIdx i
        replies := s.requests.replies ++
          ((reply (self.receive (.request id request) random)).map (id, ·)).toList } := by
  have herase : (s.messages.eraseIdx i).map Prod.snd = (s.messages.map Prod.snd).eraseIdx i :=
    (List.eraseIdx_map ..).symm
  unfold Pool.process
  rw [hmessage]
  cases hpost : self.receive (.request id request) random with
  | none => simp [Pool.requests, reply, hpost, herase]
  | some post =>
    cases post with
    | hashed hash => simp [Pool.requests, reply, hpost, herase]
    | response id' response =>
      cases id' with
      | none => simp [Pool.requests, reply, hpost, herase]
      | some id' =>
        obtain rfl := hechoes _ _ _ _ _ hpost
        simp [Pool.requests, reply, hpost, herase]

theorem deliver_requests {i : ℕ} {id : JsString} {response : CryptoWorkerResponse}
    (hresponse : s.responses[i]? = some (id, response)) :
    (s.deliver i).requests =
      ({ s.requests with replies := s.requests.replies.eraseIdx i } : Requests Num).receive settle id response := by
  unfold Pool.deliver
  rw [hresponse]
  simp only [State.receive, Pool.requests]
  by_cases hpending : id ∈ s.service.pendingRequests
  · simp only [hpending, if_true]
  · simp only [hpending, if_false]

theorem step_simulates (hechoes : self.Echoes) (hrange : s.service.InRange) {e : Event Num} (hallowed : s.Allows e)
    {a : Action JsString (CryptoWorkerRequest Num) CryptoWorkerResponse (Except JsString Value)}
    (ha : action crypto self ⟨s, e, s.next crypto self e⟩ = some a) :
    Step (protocol crypto self) s.requests a (s.next crypto self e).requests := by
  cases e with
  | call id call random =>
    have hnew : id ∉ s.requests.calls.map Prod.fst := by
      have hfresh : id ∉ s.calls.map Prod.fst := hallowed
      simpa [Pool.requests] using hfresh
    simp only [action] at ha
    split at ha
    case isTrue hnone =>
      obtain rfl := Option.some.inj ha
      rw [Pool.next, call_served hrange hnone]
      exact .serve hnew ⟨call, random, rfl, rfl⟩
    case isFalse hsome =>
      obtain rfl := Option.some.inj ha
      rw [Pool.next, call_posted hrange hsome]
      exact .post hnew
  | process i random =>
    obtain ⟨⟨worker, id, request⟩, hmessage, rfl⟩ := Option.map_eq_some_iff.mp ha
    rw [Pool.next, process_requests hechoes random hmessage]
    have hposted : s.requests.posted[i]? = some (id, request) := by
      simp only [Pool.requests, List.getElem?_map, hmessage, Option.map_some]
    exact .process hposted ⟨id, random, rfl⟩
  | deliver i =>
    obtain ⟨⟨id, response⟩, hresponse, rfl⟩ := Option.map_eq_some_iff.mp ha
    rw [Pool.next, deliver_requests hresponse]
    exact .deliver hresponse
  | terminate =>
    obtain rfl := Option.some.inj ha
    exact .discard

theorem step_idle {e : Event Num} (ha : action crypto self ⟨s, e, s.next crypto self e⟩ = none) :
    s.next crypto self e = s := by
  cases e with
  | call id call random =>
    simp only [action] at ha
    split at ha <;> cases ha
  | process i random =>
    have hmessage := Option.map_eq_none_iff.mp ha
    simp only [Pool.next, Pool.process, hmessage]
  | deliver i =>
    have hresponse := Option.map_eq_none_iff.mp ha
    simp only [Pool.next, Pool.deliver, hresponse]
  | terminate => cases ha

theorem requests_run (hechoes : self.Echoes) (h : WorkerRun crypto self browser hist s) :
    PoolRun (protocol crypto self) (hist.filterMap (Transition.project Pool.requests (action crypto self)))
      s.requests := by
  refine h.project Pool.requests ?_ ?_ ?_
  · rintro s rfl
    unfold Pool.start initWorkers
    dsimp only
    split <;> rfl
  · rintro hist s e s' _ ⟨_, rfl⟩ ha
    rw [step_idle ha]
  · rintro hist s e s' a hr ⟨hallowed, rfl⟩ ha
    exact step_simulates hechoes (inRange hr) hallowed ha

/-! ## Workers that answer like the fallback -/

/-- Both reject, or both resolve to the same value. -/
def Agrees (out out' : Except JsString Value) : Prop := out.toOption = out'.toOption

def WorkerScope.Faithful (crypto : Crypto Num) (self : WorkerScope Num) : Prop :=
  ∀ (call : Call Num) response, (protocol crypto self).answers call.request (some response) →
    ∃ random, Agrees (settle response) (call.fallback crypto random)

theorem request_injective {call call' : Call Num} (h : call.request = call'.request) : call = call' := by
  cases call <;> cases call' <;> simp_all [Call.request]

/-- The property of the pool in a final state. -/
structure Refines (crypto : Crypto Num) (s : Pool Num) : Prop where
  none_pending : s.service.pendingRequests = []
  once : (s.settled.map Prod.fst).Nodup
  own : ∀ id out, (id, out) ∈ s.settled →
    ∃ call, (id, call) ∈ s.calls ∧ ∃ random, Agrees out (call.fallback crypto random)
  round_trip : ∀ id id' data key encrypted, (id, .encryptAsync data key) ∈ s.calls →
    (id, .ok (.buffer encrypted)) ∈ s.settled → (id', .decryptAsync encrypted key) ∈ s.calls →
    (id', .ok (.buffer data)) ∈ s.settled

theorem settled_returned (hechoes : self.Echoes) (hfaithful : self.Faithful crypto)
    (h : WorkerRun crypto self browser hist s) {id : JsString} {out : Except JsString Value}
    (hsettled : (id, out) ∈ s.settled) :
    ∃ call, (id, call) ∈ s.calls ∧ ∃ random, Agrees out (call.fallback crypto random) := by
  obtain ⟨request, hcall, hreturns⟩ := (sound (requests_run hechoes h)).settled _ hsettled
  obtain ⟨⟨id', call⟩, hmem, heq⟩ := List.mem_map.mp hcall
  obtain ⟨rfl, rfl⟩ := Prod.mk.inj heq
  refine ⟨call, hmem, ?_⟩
  cases hreturns with
  | served hserved =>
    obtain ⟨call', random, hrequest, rfl⟩ := hserved
    rw [request_injective hrequest]
    exact ⟨random, rfl⟩
  | answered hanswer => exact hfaithful call _ hanswer

theorem call_unique (hechoes : self.Echoes) (h : WorkerRun crypto self browser hist s) {id : JsString}
    {call call' : Call Num} (hcall : (id, call) ∈ s.calls) (hcall' : (id, call') ∈ s.calls) : call = call' := by
  have hnodup := (sound (requests_run hechoes h)).calls_nodup
  simp only [Pool.requests, List.map_map, Function.comp_def] at hnodup
  exact congrArg Prod.snd (List.inj_on_of_nodup_map hnodup hcall hcall' rfl)

theorem fallback_round_trip {random random' : Random} {data encrypted : Bytes} {key : JsString}
    (h : Agrees (.ok (.buffer encrypted)) ((Call.encryptAsync data key : Call Num).fallback crypto random)) :
    (Call.decryptAsync encrypted key : Call Num).fallback crypto random' = .ok (.buffer data) := by
  simp only [Agrees, Call.fallback] at h
  simp only [Call.fallback]
  cases hkey : crypto.importKey (hexToBytes key) with
  | error message =>
    rw [hkey] at h
    cases h
  | ok cryptoKey =>
    rw [hkey] at h
    have hbuffer : encrypted =
        initializationVector random ++ crypto.encrypt cryptoKey (initializationVector random) data := by
      injection h with h
      injection h
    have hlength : (initializationVector random).length = 12 := by simp [initializationVector]
    have htake : encrypted.take 12 = initializationVector random := by
      rw [hbuffer, List.take_left' hlength]
    have hdrop : encrypted.drop 12 = crypto.encrypt cryptoKey (initializationVector random) data := by
      rw [hbuffer, List.drop_left' hlength]
    show (do
      let decrypted ← crypto.decrypt cryptoKey (encrypted.take 12) (encrypted.drop 12)
      return Value.buffer decrypted) = Except.ok (Value.buffer data)
    rw [htake, hdrop, crypto.decrypt_encrypt]
    rfl

theorem refines_of_none_pending (hechoes : self.Echoes) (hfaithful : self.Faithful crypto)
    (h : WorkerRun crypto self browser hist s) (hnone : s.service.pendingRequests = []) : Refines crypto s where
  none_pending := hnone
  once := (sound (requests_run hechoes h)).settled_nodup
  own id out hsettled := settled_returned hechoes hfaithful h hsettled
  round_trip id id' data key encrypted hencrypt hsettled hdecrypt := by
    obtain ⟨call, hcall, random, hagrees⟩ := settled_returned hechoes hfaithful h hsettled
    obtain rfl := call_unique hechoes h hcall hencrypt
    have haccounted := ((sound (requests_run hechoes h)).accounted id').mp
      (List.mem_map_of_mem (f := Prod.fst) (List.mem_map_of_mem hdecrypt))
    have hsettled' : id' ∈ s.settled.map Prod.fst := by
      rcases haccounted with hpending | hsettled'
      · have hempty : s.requests.pending = [] := hnone
        rw [hempty] at hpending
        exact absurd hpending List.not_mem_nil
      · exact hsettled'
    obtain ⟨⟨_, out⟩, hmem, rfl⟩ := List.mem_map.mp hsettled'
    obtain ⟨call', hcall', random', hagrees'⟩ := settled_returned hechoes hfaithful h hmem
    obtain rfl := call_unique hechoes h hcall' hdecrypt
    unfold Agrees at hagrees'
    rw [fallback_round_trip hagrees] at hagrees'
    cases out with
    | error message => cases hagrees'
    | ok value =>
      obtain rfl := Option.some.inj hagrees'
      exact hmem

/-! ## The worker module as it is -/

theorem receive_cryptoWorker (id : JsString) (request : CryptoWorkerRequest Num) (random : Random) :
    (cryptoWorker crypto).receive (.request id request) random = none := by
  show handleHash crypto (.request id request) random = none
  unfold handleHash
  rw [if_neg]
  cases request <;> simp [Message.type]

theorem cryptoWorker_silent (request : CryptoWorkerRequest Num) (answer : Option CryptoWorkerResponse)
    (h : (protocol crypto (cryptoWorker crypto)).answers request answer) : answer = none := by
  obtain ⟨id, random, rfl⟩ := h
  rw [receive_cryptoWorker]
  rfl

theorem cryptoWorker_echoes : (cryptoWorker crypto).Echoes := by
  intro id request random id' response hpost
  rw [receive_cryptoWorker] at hpost
  cases hpost

theorem cryptoWorker_faithful : (cryptoWorker crypto).Faithful crypto := by
  intro call response hanswer
  cases cryptoWorker_silent _ _ hanswer

def Dispatched (t : Transition (Pool Num) (Event Num)) : Prop :=
  match t.label with
  | .call .. => t.pre.service.workers ≠ []
  | _ => False

theorem action_posts {t : Transition (Pool Num) (Event Num)} :
    (∃ a, action crypto self t = some a ∧ a.Posts) ↔ Dispatched t := by
  obtain ⟨s, e, s'⟩ := t
  cases e with
  | call id call random =>
    by_cases hnone : s.service.workers = [] <;> simp [action, Dispatched, Action.Posts, hnone]
  | process i random => simp [action, Dispatched, Action.Posts]
  | deliver i => simp [action, Dispatched, Action.Posts]
  | terminate => simp [action, Dispatched, Action.Posts]

theorem posts_iff_dispatched :
    (∀ t ∈ hist.filterMap (Transition.project Pool.requests (action crypto self)), ¬ t.label.Posts) ↔
      ∀ t ∈ hist, ¬ Dispatched t := by
  simp only [List.mem_filterMap, Transition.project, Option.map_eq_some_iff, ← @action_posts _ crypto self]
  constructor
  · rintro hnever t ht ⟨a, ha, hposts⟩
    exact hnever _ ⟨t, ht, a, ha, rfl⟩ hposts
  · rintro hnever _ ⟨t, ht, a, ha, rfl⟩ hposts
    exact hnever t ht ⟨a, ha, hposts⟩

/-- Whether or not the workers have processed their messages, the pool refines the fallback exactly when
nothing was asked of it while it had a worker. -/
theorem pool_refines_iff (h : WorkerRun crypto (cryptoWorker crypto) browser hist s) :
    Refines crypto s ↔ ∀ t ∈ hist, ¬ Dispatched t := by
  have hpending := (pending_of_silent cryptoWorker_silent (requests_run cryptoWorker_echoes h)).2
  rw [posts_iff_dispatched] at hpending
  constructor
  · intro hrefines
    exact hpending.mp hrefines.none_pending
  · intro hnever
    exact refines_of_none_pending cryptoWorker_echoes cryptoWorker_faithful h (hpending.mpr hnever)

def plainCrypto : Crypto ℕ where
  CryptoKey := Unit
  importKey _ := .ok ()
  encrypt _ _ data := data
  decrypt _ _ data := .ok data
  decrypt_encrypt _ _ _ := rfl
  sha256 _ := .ok []
  splitSecretVSS _ _ _ _ := .ok ([], [])
  decryptWithPrivateKey envelope _ := .ok envelope
  encryptWithPublicKey _ plaintext _ := .ok plaintext

def oneWorker : Browser := { hasWindow := true, hasWorker := true, hardwareConcurrency := 1, refused := false }

def encryption : Event ℕ := .call (js "a") (.encryptAsync [1] (js "00")) fun _ => 0

def decryption : Event ℕ := .call (js "b") (.decryptAsync [1] (js "00")) fun _ => 0

def encryptionAgain : Event ℕ := .call (js "c") (.encryptAsync [2] (js "00")) fun _ => 0

/-- The pool is terminated before it is asked. -/
theorem pool_refines_without_workers : ∃ hist s, WorkerRun plainCrypto (cryptoWorker plainCrypto) oneWorker hist s ∧
    hist.map (fun t => t.label) = [encryptionAgain, decryption, encryption, .terminate] ∧ Refines plainCrypto s := by
  have hstart : WorkerRun plainCrypto (cryptoWorker plainCrypto) oneWorker [] (.start oneWorker) := .start rfl
  have hterminated := hstart.next (i := Event.terminate) ⟨trivial, rfl⟩
  have hencrypted := hterminated.next (i := encryption) ⟨List.not_mem_nil, rfl⟩
  have hdecrypted := hencrypted.next (i := decryption) ⟨(by decide : js "b" ∉ [js "a"]), rfl⟩
  have hrun := hdecrypted.next (i := encryptionAgain) ⟨(by decide : js "c" ∉ [js "b", js "a"]), rfl⟩
  refine ⟨_, _, hrun, rfl, (pool_refines_iff hrun).mpr ?_⟩
  simp only [List.forall_mem_cons]
  exact ⟨fun h => h rfl, fun h => h rfl, fun h => h rfl, id, fun t ht => absurd ht List.not_mem_nil⟩

theorem encryption_unanswered :
    ∃ hist s, WorkerRun plainCrypto (cryptoWorker plainCrypto) oneWorker hist s ∧ s.Final ∧
      ¬ Refines plainCrypto s := by
  have hasked : WorkerRun plainCrypto (cryptoWorker plainCrypto) oneWorker _ _ :=
    .next (i := encryption) (.start rfl) ⟨List.not_mem_nil, rfl⟩
  have hprocessed : WorkerRun plainCrypto (cryptoWorker plainCrypto) oneWorker
      (⟨_, .process 0 fun _ => 0, _⟩ :: _) _ := .next hasked ⟨trivial, rfl⟩
  refine ⟨_, _, hprocessed, ⟨rfl, rfl⟩, ?_⟩
  intro hrefines
  have hpending : [js "a"] = [] := hrefines.none_pending
  cases hpending

end ChainGuard.OffChain.CryptoWorker
