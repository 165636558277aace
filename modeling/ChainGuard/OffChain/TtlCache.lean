import Mathlib.Algebra.Order.Field.Rat
import ChainGuard.Library.History
import ChainGuard.OffChain.Js

/-! The cache of read calls: entries and pending promises under the same keys, and the calls that settle in
any order. Times are rationals. -/
namespace ChainGuard.OffChain.TtlCache
open History
set_option autoImplicit false

variable {T : Type}

/-- A cached value; `call` says which call of a `fetchFn` it came from, which the code does not keep. -/
structure CacheEntry (T : Type) where
  data : T
  timestamp : ℚ
  call : ℕ
  deriving DecidableEq

/-- How far the promise of a call has come: its `.then` runs when the call resolves, its `.finally` after that
or after a rejection. -/
inductive Phase
  | running
  | settled
  | released
  deriving DecidableEq

/-- A call of a `fetchFn`. -/
structure Call where
  key : JsString
  phase : Phase := .running
  deriving DecidableEq

structure Cache (T : Type) where
  ttlMs : ℚ
  cache : JsString → Option (CacheEntry T) := fun _ => none
  pending : JsString → Option ℕ := fun _ => none
  calls : ℕ → Option Call := fun _ => none
  next : ℕ := 0

/-- Numbers up to a thousand are seconds. -/
def TTLCache (ttlMsOrSeconds : ℚ) : Cache T where
  ttlMs := if ttlMsOrSeconds ≤ 1000 then ttlMsOrSeconds * 1000 else ttlMsOrSeconds

/-- What a `fetch` returns: cached data, the promise of a call under way, or that of a new one. -/
inductive Outcome (T : Type)
  | hit (entry : CacheEntry T)
  | joined (call : ℕ)
  | started (call : ℕ)

inductive Event (T : Type)
  /-- `throws`: the `fetchFn` throws before it returns a promise. -/
  | fetch (key : JsString) (now : ℚ) (throws : Bool)
  | clear (key : Option JsString)
  /-- The call resolves, and its `.then` runs. -/
  | resolve (call : ℕ) (data : T) (now : ℚ)
  | reject (call : ℕ)
  /-- The `.finally` of the call runs. -/
  | release (call : ℕ)

def Cache.outcome (s : Cache T) (key : JsString) (now : ℚ) : Outcome T :=
  match (s.cache key).filter fun entry => now - entry.timestamp < s.ttlMs with
  | some entry => .hit entry
  | none =>
    match s.pending key with
    | some call => .joined call
    | none => .started s.next

def Cache.fetch (s : Cache T) (key : JsString) (now : ℚ) (throws : Bool) : Cache T :=
  match s.outcome key now with
  | .started call =>
    if throws then s
    else { s with
      pending := Function.update s.pending key (some call)
      calls := Function.update s.calls call (some { key })
      next := call + 1 }
  | _ => s

def Cache.hasValidKey (s : Cache T) (key : JsString) (now : ℚ) : Bool :=
  match s.cache key with
  | none => false
  | some entry => now - entry.timestamp < s.ttlMs

/-- The empty key is falsy, and clears everything. -/
def clearsKey (cleared : Option JsString) (key : JsString) : Bool :=
  match cleared with
  | none => true
  | some k => k = [] ∨ k = key

def Cache.clear (s : Cache T) (cleared : Option JsString) : Cache T :=
  { s with
    cache := fun key => if clearsKey cleared key then none else s.cache key
    pending := fun key => if clearsKey cleared key then none else s.pending key }

def Cache.setPhase (s : Cache T) (id : ℕ) (call : Call) (phase : Phase) : Cache T :=
  { s with calls := Function.update s.calls id (some { call with phase }) }

def Cache.callIn (s : Cache T) (id : ℕ) (phase : Phase) : Option Call := (s.calls id).filter (·.phase = phase)

def exec (s : Cache T) : Event T → Cache T
  | .fetch key now throws => s.fetch key now throws
  | .clear cleared => s.clear cleared
  | .resolve id data now =>
    match s.callIn id .running with
    | none => s
    | some call =>
      { s.setPhase id call .settled with
        cache := Function.update s.cache call.key (some { data, timestamp := now, call := id }) }
  | .reject id =>
    match s.callIn id .running with
    | none => s
    | some call => s.setPhase id call .settled
  | .release id =>
    match s.callIn id .settled with
    | none => s
    | some call =>
      { s.setPhase id call .released with pending := Function.update s.pending call.key none }

/-! ## What is asked of a run -/

abbrev Step (T : Type) := Transition (Cache T) (Event T)

def clears (key : JsString) : List (Step T) → ℕ
  | [] => 0
  | t :: earlier =>
    match t.label with
    | .clear cleared => if clearsKey cleared key then clears key earlier + 1 else clears key earlier
    | _ => clears key earlier

def startedCall (t : Step T) : Option (ℕ × JsString) :=
  match t.label with
  | .fetch key now false =>
    match t.pre.outcome key now with
    | .started call => some (call, key)
    | _ => none
  | _ => none

def epoch (id : ℕ) : List (Step T) → ℕ
  | [] => 0
  | t :: earlier =>
    match startedCall t with
    | some (call, key) => if call = id then clears key earlier else epoch id earlier
    | none => epoch id earlier

def arrival (id : ℕ) : List (Step T) → Option (T × ℚ)
  | [] => none
  | t :: earlier =>
    match t.label with
    | .resolve call data now =>
      if call = id ∧ (t.pre.callIn id .running).isSome then some (data, now) else arrival id earlier
    | _ => arrival id earlier

def Rejected (id : ℕ) (hist : List (Step T)) : Prop :=
  ∃ t ∈ hist, t.label = .reject id ∧ (t.pre.callIn id .running).isSome

/-- The fetch returns data of the call: from the cache, or once the call has it. -/
def Returns (t : Step T) (key : JsString) (now : ℚ) (id : ℕ) : Prop :=
  (∃ throws, t.label = .fetch key now throws) ∧
    ((∃ entry, t.pre.outcome key now = .hit entry ∧ entry.call = id) ∨ t.pre.outcome key now = .joined id)

def InFlight (hist : List (Step T)) (s : Cache T) (key : JsString) (id : ℕ) : Prop :=
  s.calls id = some ⟨key, .running⟩ ∧ epoch id hist = clears key hist

structure Serves (hist : List (Step T)) (s : Cache T) : Prop where
  /-- No fetch after a clear returns data of a call from before it. -/
  fresh : ∀ t earlier, t :: earlier <:+ hist → ∀ key now id, Returns t key now id → epoch id earlier = clears key earlier
  /-- Cached data is what its call resolved with. -/
  genuine : ∀ early mid, Visits hist s early mid → ∀ key entry, mid.cache key = some entry →
    arrival entry.call early = some (entry.data, entry.timestamp)
  single : ∀ early mid, Visits hist s early mid → ∀ key i j, InFlight early mid key i → InFlight early mid key j → i = j
  rejected : ∀ early mid, Visits hist s early mid → ∀ key entry, mid.cache key = some entry → ¬ Rejected entry.call early
  /-- Nothing that is returned has been there for longer than the time to live. -/
  lived : ∀ t earlier, t :: earlier <:+ hist → ∀ key now id, Returns t key now id →
    ∀ arrived, arrival id earlier = some arrived → now - arrived.2 ≤ t.pre.ttlMs

/-- The step is no late one of a call that a clear has overtaken: it does not store its data, and releases no
newer call of its key; and a fetch does not join a call whose data has expired before its release. -/
def Undisturbed (t : Step T) (earlier : List (Step T)) : Prop :=
  match t.label with
  | .resolve id _ _ => ∀ call ∈ t.pre.callIn id .running, epoch id earlier = clears call.key earlier
  | .release id => ∀ call ∈ t.pre.callIn id .settled, epoch id earlier = clears call.key earlier ∨
      ∀ other ∈ t.pre.pending call.key, other = id
  | .fetch key now _ =>
    match t.pre.outcome key now with
    | .joined id => ∀ arrived ∈ arrival id earlier, now - arrived.2 ≤ t.pre.ttlMs
    | _ => True
  | _ => True

instance (t : Step T) (earlier : List (Step T)) : Decidable (Undisturbed t earlier) := by
  unfold Undisturbed
  split <;> try infer_instance
  split <;> infer_instance

def Calm : List (Step T) → Prop
  | [] => True
  | t :: earlier => Undisturbed t earlier ∧ Calm earlier

instance Calm.decidable : (hist : List (Step T)) → Decidable (Calm hist)
  | [] => inferInstanceAs (Decidable True)
  | t :: earlier =>
    have := Calm.decidable earlier
    inferInstanceAs (Decidable (Undisturbed t earlier ∧ Calm earlier))

/-! ## What the history says -/

variable {s s' : Cache T} {t : Step T} {hist : List (Step T)} {key : JsString} {now : ℚ} {id : ℕ} {call : Call}
  {cleared : Option JsString} {data : T} {throws : Bool}

theorem outcome_started_iff : s.outcome key now = .started id ↔ s.hasValidKey key now = false ∧ s.pending key = none ∧
    s.next = id := by
  rw [Cache.outcome, Cache.hasValidKey]
  cases s.cache key with
  | none => cases s.pending key <;> simp
  | some entry =>
    by_cases hvalid : now - entry.timestamp < s.ttlMs
    · simp [Option.filter_some, hvalid]
    · cases s.pending key <;> simp [Option.filter_some, hvalid]

theorem outcome_joined (h : s.outcome key now = .joined id) : s.pending key = some id := by
  rw [Cache.outcome] at h
  split at h
  · cases h
  · split at h
    · cases h
      assumption
    · cases h

theorem outcome_hit {entry : CacheEntry T} (h : s.outcome key now = .hit entry) :
    s.cache key = some entry ∧ now - entry.timestamp < s.ttlMs := by
  rw [Cache.outcome] at h
  split at h
  · next entry' hfound =>
    cases h
    obtain ⟨hcached, hvalid⟩ := Option.filter_eq_some_iff.mp hfound
    exact ⟨hcached, of_decide_eq_true hvalid⟩
  · split at h <;> cases h

theorem callIn_some {phase : Phase} (h : s.callIn id phase = some call) : s.calls id = some call ∧ call.phase = phase := by
  obtain ⟨hcall, hphase⟩ := Option.filter_eq_some_iff.mp h
  exact ⟨hcall, of_decide_eq_true hphase⟩

/-! ## What is kept while the run is undisturbed -/

/-- The entries and the pending calls are those that no clear has overtaken. -/
structure Sound (hist : List (Step T)) (s : Cache T) : Prop where
  free : ∀ id, s.next ≤ id → s.calls id = none
  past : ∀ id call, s.calls id = some call → epoch id hist ≤ clears call.key hist
  unsettled : ∀ id, (∀ call, s.calls id = some call → call.phase = .running) →
    arrival id hist = none ∧ ¬ Rejected id hist
  cached : ∀ key entry, s.cache key = some entry → epoch entry.call hist = clears key hist ∧
    arrival entry.call hist = some (entry.data, entry.timestamp) ∧ ¬ Rejected entry.call hist ∧
      ∃ call, s.calls entry.call = some call ∧ call.phase ≠ .running
  pending : ∀ key id, s.pending key = some id → epoch id hist = clears key hist ∧
    ∃ call, s.calls id = some call ∧ call.key = key ∧ call.phase ≠ .released
  current : ∀ id call, s.calls id = some call → call.phase ≠ .released → epoch id hist = clears call.key hist →
    s.pending call.key = some id

/-- A step that changes nothing, and says nothing of the history. -/
theorem Sound.idle {e : Event T} (h : Sound hist s) (hstarted : startedCall ⟨s, e, s⟩ = none)
    (hclears : ∀ key, clears key (⟨s, e, s⟩ :: hist) = clears key hist)
    (harrival : ∀ id, arrival id (⟨s, e, s⟩ :: hist) = arrival id hist)
    (hrejected : ∀ id, Rejected id (⟨s, e, s⟩ :: hist) ↔ Rejected id hist) : Sound (⟨s, e, s⟩ :: hist) s := by
  have hepoch : ∀ id, epoch id (⟨s, e, s⟩ :: hist) = epoch id hist := fun id => by rw [epoch, hstarted]
  constructor
  · exact h.free
  · simpa only [hepoch, hclears] using h.past
  · simpa only [harrival, hrejected] using h.unsettled
  · simpa only [hepoch, hclears, harrival, hrejected] using h.cached
  · simpa only [hepoch, hclears] using h.pending
  · simpa only [hepoch, hclears] using h.current

theorem rejected_cons : Rejected id (t :: hist) ↔
    (t.label = .reject id ∧ (t.pre.callIn id .running).isSome) ∨ Rejected id hist := by
  simp only [Rejected, List.mem_cons, exists_eq_or_imp]

theorem rejected_of_label (h : ∀ id, t.label ≠ .reject id) : Rejected id (t :: hist) ↔ Rejected id hist := by
  rw [rejected_cons, or_iff_right fun hrejects => h id hrejects.1]

theorem fetch_idle (hstarts : ¬ (throws = false ∧ s.outcome key now = .started s.next)) :
    startedCall (⟨s, .fetch key now throws, s⟩ : Step T) = none ∧ s.fetch key now throws = s := by
  rw [startedCall, Cache.fetch]
  cases houtcome : s.outcome key now with
  | hit entry => cases throws <;> simp [houtcome]
  | joined id => cases throws <;> simp [houtcome]
  | started id =>
    obtain ⟨_, _, rfl⟩ := outcome_started_iff.mp houtcome
    cases throws with
    | false => exact absurd ⟨rfl, houtcome⟩ hstarts
    | true => simp

structure Started (s s' : Cache T) (key : JsString) : Prop where
  free : s.calls s.next = none
  unpending : s.pending key = none
  calls : s'.calls = Function.update s.calls s.next (some { key })
  pending : s'.pending = Function.update s.pending key (some s.next)
  cache : s'.cache = s.cache
  next : s'.next = s.next + 1

section Started
variable {other : ℕ} {c : Call}

theorem Started.ne (hnew : Started s s' key) (hc : s.calls other = some c) : other ≠ s.next := by
  rintro rfl
  cases hnew.free.symm.trans hc

theorem Started.of_some (hnew : Started s s' key) (hc : s.calls other = some c) : s'.calls other = some c := by
  rw [hnew.calls, Function.update_of_ne (hnew.ne hc)]
  exact hc

theorem Started.to_some (hnew : Started s s' key) (hc : s'.calls other = some c) :
    (other = s.next ∧ c = { key }) ∨ s.calls other = some c := by
  rw [hnew.calls] at hc
  by_cases hsame : other = s.next
  · subst hsame
    rw [Function.update_self] at hc
    exact .inl ⟨rfl, (Option.some.inj hc).symm⟩
  · rw [Function.update_of_ne hsame] at hc
    exact .inr hc

end Started

theorem Sound.started (h : Sound hist s) (hnew : Started s s' key)
    (hepoch : ∀ id, epoch id (t :: hist) = if s.next = id then clears key hist else epoch id hist)
    (hclears : ∀ key, clears key (t :: hist) = clears key hist)
    (harrival : ∀ id, arrival id (t :: hist) = arrival id hist)
    (hrejected : ∀ id, Rejected id (t :: hist) ↔ Rejected id hist) : Sound (t :: hist) s' := by
  have hold : ∀ {id call}, s.calls id = some call → epoch id (t :: hist) = epoch id hist := by
    intro id call hcall
    rw [hepoch, if_neg (hnew.ne hcall).symm]
  constructor
  · intro id hid
    rw [hnew.next] at hid
    have hne : id ≠ s.next := (Nat.lt_of_succ_le hid).ne'
    rw [hnew.calls, Function.update_of_ne hne]
    exact h.free id ((Nat.le_succ _).trans hid)
  · intro id call hcall
    rw [hclears]
    rcases hnew.to_some hcall with ⟨rfl, rfl⟩ | hcall
    · rw [hepoch, if_pos rfl]
    · rw [hold hcall]
      exact h.past id call hcall
  · intro id hrunning
    rw [harrival, hrejected]
    exact h.unsettled id fun call hcall => hrunning call (hnew.of_some hcall)
  · intro key' entry hentry
    rw [hnew.cache] at hentry
    obtain ⟨hcurrent, harrived, hnot, call, hcall, hphase⟩ := h.cached key' entry hentry
    rw [hold hcall, hclears, harrival, hrejected]
    exact ⟨hcurrent, harrived, hnot, call, hnew.of_some hcall, hphase⟩
  · intro key' id hpending
    rw [hclears]
    rw [hnew.pending] at hpending
    by_cases hkey : key' = key
    · subst hkey
      rw [Function.update_self] at hpending
      cases hpending
      rw [hepoch, if_pos rfl]
      exact ⟨rfl, { key := key' }, by rw [hnew.calls, Function.update_self], rfl, nofun⟩
    · rw [Function.update_of_ne hkey] at hpending
      obtain ⟨hcurrent, call, hcall, hsame, hphase⟩ := h.pending key' id hpending
      rw [hold hcall]
      exact ⟨hcurrent, call, hnew.of_some hcall, hsame, hphase⟩
  · intro id call hcall hphase hcurrent
    rw [hclears] at hcurrent
    rw [hnew.pending]
    rcases hnew.to_some hcall with ⟨rfl, rfl⟩ | hcall
    · exact Function.update_self _ _ _
    · rw [hold hcall] at hcurrent
      have hpending := h.current id call hcall hphase hcurrent
      rw [Function.update_of_ne, hpending]
      rintro rfl
      cases hnew.unpending.symm.trans hpending

theorem Sound.fetch (h : Sound hist s) (key : JsString) (now : ℚ) (throws : Bool) :
    Sound (⟨s, .fetch key now throws, s.fetch key now throws⟩ :: hist) (s.fetch key now throws) := by
  by_cases hstarts : throws = false ∧ s.outcome key now = .started s.next
  · obtain ⟨rfl, houtcome⟩ := hstarts
    obtain ⟨_, hnone, _⟩ := outcome_started_iff.mp houtcome
    have hpost : s.fetch key now false = { s with
        pending := Function.update s.pending key (some s.next)
        calls := Function.update s.calls s.next (some { key }), next := s.next + 1 } := by
      simp only [Cache.fetch, houtcome, Bool.false_eq_true, if_false]
    have hnew : Started s (s.fetch key now false) key := by
      rw [hpost]
      exact ⟨h.free s.next (Nat.le_refl _), hnone, rfl, rfl, rfl, rfl⟩
    apply h.started hnew
    · intro id
      simp only [epoch, startedCall, houtcome]
    · exact fun _ => rfl
    · exact fun _ => rfl
    · exact fun id => rejected_of_label nofun
  · obtain ⟨hnone, hpost⟩ := fetch_idle hstarts
    rw [hpost]
    exact h.idle hnone (fun _ => rfl) (fun _ => rfl) fun id => rejected_of_label nofun

theorem Sound.clear (h : Sound hist s) (cleared : Option JsString) :
    Sound (⟨s, .clear cleared, s.clear cleared⟩ :: hist) (s.clear cleared) := by
  have hclears : ∀ key, clears key (⟨s, .clear cleared, s.clear cleared⟩ :: hist) =
      if clearsKey cleared key then clears key hist + 1 else clears key hist := fun _ => rfl
  have hrejected : ∀ id, Rejected id (⟨s, .clear cleared, s.clear cleared⟩ :: hist) ↔ Rejected id hist :=
    fun id => rejected_of_label nofun
  constructor
  · exact h.free
  · intro id call hcall
    have hpast := h.past id call hcall
    rw [hclears]
    split_ifs
    · exact hpast.trans (Nat.le_succ _)
    · exact hpast
  · intro id hrunning
    rw [hrejected]
    exact h.unsettled id hrunning
  · intro key entry hentry
    rw [hclears, hrejected]
    simp only [Cache.clear] at hentry
    split_ifs at hentry ⊢
    exact h.cached key entry hentry
  · intro key id hpending
    rw [hclears]
    simp only [Cache.clear] at hpending
    split_ifs at hpending ⊢
    exact h.pending key id hpending
  · intro id call hcall hphase hcurrent
    rw [hclears] at hcurrent
    have hpast := h.past id call hcall
    simp only [Cache.clear]
    split_ifs at hcurrent ⊢
    -- the call is from before the clear
    · exact absurd (hcurrent : epoch id hist = _) (Nat.lt_succ_of_le hpast).ne
    · exact h.current id call hcall hphase hcurrent

theorem setPhase_calls {phase : Phase} (other : ℕ) : (s.setPhase id call phase).calls other =
    if other = id then some { call with phase } else s.calls other := by
  rw [Cache.setPhase]
  by_cases hsame : other = id
  · subst hsame
    exact (Function.update_self _ _ _).trans (if_pos rfl).symm
  · exact (Function.update_of_ne hsame _ _).trans (if_neg hsame).symm

/-- One call is in another phase; no other has changed, and none is new. -/
structure Moved (s s' : Cache T) (id : ℕ) (call : Call) (phase : Phase) : Prop where
  known : s.calls id = some call
  calls : ∀ other, s'.calls other = if other = id then some { call with phase } else s.calls other
  next : s'.next = s.next

section Moved
variable {s' : Cache T} {phase : Phase} {other : ℕ} {c : Call}

theorem Moved.of_some (hmoved : Moved s s' id call phase) (hc : s.calls other = some c) :
    ∃ c', s'.calls other = some c' ∧ c'.key = c.key ∧ (c'.phase = c.phase ∨ c'.phase = phase) := by
  by_cases hsame : other = id
  · subst hsame
    cases hmoved.known.symm.trans hc
    exact ⟨{ call with phase }, by rw [hmoved.calls, if_pos rfl], rfl, .inr rfl⟩
  · exact ⟨c, by rw [hmoved.calls, if_neg hsame, hc], rfl, .inl rfl⟩

theorem Moved.to_some (hmoved : Moved s s' id call phase) (hc : s'.calls other = some c) :
    (other = id ∧ c = { call with phase }) ∨ (other ≠ id ∧ s.calls other = some c) := by
  rw [hmoved.calls] at hc
  split_ifs at hc with hsame
  · exact .inl ⟨hsame, (Option.some.inj hc).symm⟩
  · exact .inr ⟨hsame, hc⟩

theorem Moved.free (hmoved : Moved s s' id call phase) (h : Sound hist s) (hother : s'.next ≤ other) :
    s'.calls other = none := by
  have hunknown := h.free other (hmoved.next ▸ hother)
  rw [hmoved.calls, if_neg, hunknown]
  rintro rfl
  cases hmoved.known.symm.trans hunknown

theorem Moved.past (hmoved : Moved s s' id call phase) (h : Sound hist s) (hc : s'.calls other = some c) :
    epoch other hist ≤ clears c.key hist := by
  rcases hmoved.to_some hc with ⟨rfl, rfl⟩ | ⟨_, hc⟩
  · exact h.past other call hmoved.known
  · exact h.past other c hc

theorem Moved.running (hmoved : Moved s s' id call phase) (hphase : phase ≠ .running)
    (hrunning : ∀ c, s'.calls other = some c → c.phase = .running) :
    other ≠ id ∧ ∀ c, s.calls other = some c → c.phase = .running := by
  have hne : other ≠ id := by
    rintro rfl
    exact hphase (hrunning { call with phase } (by rw [hmoved.calls, if_pos rfl]))
  exact ⟨hne, fun c hc => hrunning c (by rw [hmoved.calls, if_neg hne, hc])⟩

theorem Moved.entered (hmoved : Moved s s' id call phase) (hphase : phase ≠ .running)
    (h : ∃ c, s.calls other = some c ∧ c.phase ≠ .running) : ∃ c, s'.calls other = some c ∧ c.phase ≠ .running := by
  obtain ⟨c, hc, hsettled⟩ := h
  obtain ⟨c', hc', _, hkept | hmovedTo⟩ := hmoved.of_some hc
  · exact ⟨c', hc', hkept ▸ hsettled⟩
  · exact ⟨c', hc', hmovedTo ▸ hphase⟩

theorem Moved.held (hmoved : Moved s s' id call phase) (hphase : phase ≠ .released) {key : JsString}
    (h : ∃ c, s.calls other = some c ∧ c.key = key ∧ c.phase ≠ .released) :
    ∃ c, s'.calls other = some c ∧ c.key = key ∧ c.phase ≠ .released := by
  obtain ⟨c, hc, rfl, hunreleased⟩ := h
  obtain ⟨c', hc', hkey, hkept | hmovedTo⟩ := hmoved.of_some hc
  · exact ⟨c', hc', hkey, hkept ▸ hunreleased⟩
  · exact ⟨c', hc', hkey, hmovedTo ▸ hphase⟩

theorem Moved.current (hmoved : Moved s s' id call phase) (h : Sound hist s) (hcall : call.phase ≠ .released)
    (hc : s'.calls other = some c) (hphase : c.phase ≠ .released) (hcurrent : epoch other hist = clears c.key hist) :
    s.pending c.key = some other := by
  rcases hmoved.to_some hc with ⟨rfl, rfl⟩ | ⟨_, hc⟩
  · exact h.current other call hmoved.known hcall hcurrent
  · exact h.current other c hc hphase hcurrent

end Moved

theorem Sound.resolve (h : Sound hist s) (hcall : s.callIn id .running = some call)
    (hfresh : epoch id hist = clears call.key hist) {s' : Cache T}
    (hs' : s' = { s.setPhase id call .settled with
      cache := Function.update s.cache call.key (some { data, timestamp := now, call := id }) }) :
    Sound (⟨s, .resolve id data now, s'⟩ :: hist) s' := by
  obtain ⟨hknown, hrunning⟩ := callIn_some hcall
  have hmoved : Moved s s' id call .settled :=
    ⟨hknown, fun other => by rw [hs']; exact setPhase_calls other, by rw [hs', Cache.setPhase]⟩
  have hcache : s'.cache = Function.update s.cache call.key (some { data, timestamp := now, call := id }) := by rw [hs']
  have hpending : s'.pending = s.pending := by rw [hs', Cache.setPhase]
  have harrival : ∀ other, arrival other (⟨s, .resolve id data now, s'⟩ :: hist) =
      if id = other then some (data, now) else arrival other hist := by
    intro other
    simp only [arrival]
    by_cases hsame : id = other
    · subst hsame
      rw [hcall, if_pos ⟨rfl, rfl⟩, if_pos rfl]
    · rw [if_neg fun hboth => hsame hboth.1, if_neg hsame]
  have hrejected : ∀ other, Rejected other (⟨s, .resolve id data now, s'⟩ :: hist) ↔ Rejected other hist :=
    fun other => rejected_of_label nofun
  constructor
  · exact fun other hother => hmoved.free h hother
  · intro other c hc
    have hpast := hmoved.past h hc
    exact hpast
  · intro other hphase
    obtain ⟨hne, hother⟩ := hmoved.running nofun hphase
    rw [harrival, if_neg hne.symm, hrejected]
    exact h.unsettled other hother
  · intro key entry hentry
    rw [hcache] at hentry
    rw [harrival, hrejected]
    by_cases hkey : key = call.key
    · subst hkey
      rw [Function.update_self] at hentry
      cases hentry
      refine ⟨hfresh, if_pos rfl, ?_, { call with phase := .settled }, by rw [hmoved.calls, if_pos rfl], nofun⟩
      exact (h.unsettled id fun c hc => by cases hknown.symm.trans hc; exact hrunning).2
    · rw [Function.update_of_ne hkey] at hentry
      obtain ⟨hcurrent, harrived, hnot, c, hc, hphase⟩ := h.cached key entry hentry
      have hne : entry.call ≠ id := by
        rintro rfl
        cases hknown.symm.trans hc
        exact hphase hrunning
      rw [if_neg hne.symm]
      exact ⟨hcurrent, harrived, hnot, hmoved.entered nofun ⟨c, hc, hphase⟩⟩
  · intro key other hother
    obtain ⟨hcurrent, hheld⟩ := h.pending key other (hpending ▸ hother)
    exact ⟨hcurrent, hmoved.held nofun hheld⟩
  · intro other c hc hphase hcurrent
    rw [hpending]
    exact hmoved.current h (by rw [hrunning]; decide) hc hphase hcurrent

theorem Sound.reject (h : Sound hist s) (hcall : s.callIn id .running = some call) :
    Sound (⟨s, .reject id, s.setPhase id call .settled⟩ :: hist) (s.setPhase id call .settled) := by
  obtain ⟨hknown, hrunning⟩ := callIn_some hcall
  have hmoved : Moved s (s.setPhase id call .settled) id call .settled := ⟨hknown, setPhase_calls, rfl⟩
  have hother : ∀ other, other ≠ id → (Rejected other (⟨s, .reject id, s.setPhase id call .settled⟩ :: hist) ↔
      Rejected other hist) := by
    intro other hne
    refine rejected_cons.trans (or_iff_right ?_)
    rintro ⟨hlabel, _⟩
    cases hlabel
    exact hne rfl
  constructor
  · exact fun other hid => hmoved.free h hid
  · intro other c hc
    have hpast := hmoved.past h hc
    exact hpast
  · intro other hphase
    obtain ⟨hne, hwas⟩ := hmoved.running nofun hphase
    rw [hother other hne]
    exact h.unsettled other hwas
  · intro key entry hentry
    obtain ⟨hcurrent, harrived, hnot, c, hc, hphase⟩ := h.cached key entry hentry
    have hne : entry.call ≠ id := by
      rintro rfl
      cases hknown.symm.trans hc
      exact hphase hrunning
    rw [hother _ hne]
    exact ⟨hcurrent, harrived, hnot, hmoved.entered nofun ⟨c, hc, hphase⟩⟩
  · intro key other hpending
    obtain ⟨hcurrent, hheld⟩ := h.pending key other hpending
    exact ⟨hcurrent, hmoved.held nofun hheld⟩
  · exact fun other c hc hphase hcurrent => hmoved.current h (by rw [hrunning]; decide) hc hphase hcurrent

theorem Sound.release (h : Sound hist s) (hcall : s.callIn id .settled = some call)
    (hown : epoch id hist = clears call.key hist ∨ ∀ other ∈ s.pending call.key, other = id) {s' : Cache T}
    (hs' : s' = { s.setPhase id call .released with pending := Function.update s.pending call.key none }) :
    Sound (⟨s, .release id, s'⟩ :: hist) s' := by
  obtain ⟨hknown, hsettled⟩ := callIn_some hcall
  have hmoved : Moved s s' id call .released :=
    ⟨hknown, fun other => by rw [hs']; exact setPhase_calls other, by rw [hs', Cache.setPhase]⟩
  have hcache : s'.cache = s.cache := by rw [hs', Cache.setPhase]
  have hpending : s'.pending = Function.update s.pending call.key none := by rw [hs']
  have honly : ∀ other ∈ s.pending call.key, other = id := by
    rcases hown with hcurrent | hown
    · intro other hother
      rw [h.current id call hknown (by rw [hsettled]; decide) hcurrent] at hother
      exact (Option.some.inj hother).symm
    · exact hown
  have hrejected : ∀ other, Rejected other (⟨s, .release id, s'⟩ :: hist) ↔ Rejected other hist :=
    fun other => rejected_of_label nofun
  constructor
  · exact fun other hother => hmoved.free h hother
  · intro other c hc
    have hpast := hmoved.past h hc
    exact hpast
  · intro other hphase
    rw [hrejected]
    exact h.unsettled other (hmoved.running nofun hphase).2
  · intro key entry hentry
    rw [hrejected]
    obtain ⟨hcurrent, harrived, hnot, hentered⟩ := h.cached key entry (hcache ▸ hentry)
    exact ⟨hcurrent, harrived, hnot, hmoved.entered nofun hentered⟩
  · intro key other hother
    rw [hpending] at hother
    by_cases hkey : key = call.key
    · subst hkey
      rw [Function.update_self] at hother
      cases hother
    · rw [Function.update_of_ne hkey] at hother
      obtain ⟨hcurrent, c, hc, hsame, hphase⟩ := h.pending key other hother
      refine ⟨hcurrent, c, ?_, hsame, hphase⟩
      rw [hmoved.calls, if_neg, hc]
      rintro rfl
      cases hknown.symm.trans hc
      exact hkey hsame.symm
  · intro other c hc hphase hcurrent
    rw [hpending]
    rcases hmoved.to_some hc with ⟨_, rfl⟩ | ⟨hne, hc⟩
    · exact absurd rfl hphase
    · have hkept := h.current other c hc hphase hcurrent
      by_cases hkey : c.key = call.key
      · exact absurd (honly other (hkey ▸ hkept)) hne
      · rw [Function.update_of_ne hkey]
        exact hkept

theorem Sound.next {e : Event T} (h : Sound hist s) (hcalm : Undisturbed ⟨s, e, exec s e⟩ hist) :
    Sound (⟨s, e, exec s e⟩ :: hist) (exec s e) := by
  cases e with
  | fetch key now throws => exact h.fetch key now throws
  | clear cleared => exact h.clear cleared
  | resolve id data now =>
    cases hcall : s.callIn id .running with
    | none =>
      have hexec : exec s (.resolve id data now) = s := by simp only [exec, hcall]
      rw [hexec]
      refine h.idle rfl (fun _ => rfl) (fun other => ?_) fun other => rejected_of_label nofun
      simp only [arrival]
      refine if_neg ?_
      rintro ⟨rfl, hsome⟩
      rw [hcall] at hsome
      cases hsome
    | some call =>
      have hexec : exec s (.resolve id data now) = { s.setPhase id call .settled with
          cache := Function.update s.cache call.key (some { data, timestamp := now, call := id }) } := by
        simp only [exec, hcall]
      exact h.resolve hcall (hcalm call hcall) hexec
  | reject id =>
    cases hcall : s.callIn id .running with
    | none =>
      have hexec : exec s (.reject id) = s := by simp only [exec, hcall]
      rw [hexec]
      refine h.idle rfl (fun _ => rfl) (fun _ => rfl) fun other => rejected_cons.trans (or_iff_right ?_)
      rintro ⟨hlabel, hsome⟩
      cases hlabel
      rw [hcall] at hsome
      cases hsome
    | some call =>
      have hexec : exec s (.reject id) = s.setPhase id call .settled := by simp only [exec, hcall]
      rw [hexec]
      exact h.reject hcall
  | release id =>
    cases hcall : s.callIn id .settled with
    | none =>
      have hexec : exec s (.release id) = s := by simp only [exec, hcall]
      rw [hexec]
      exact h.idle rfl (fun _ => rfl) (fun _ => rfl) fun other => rejected_of_label nofun
    | some call =>
      have hexec : exec s (.release id) =
          { s.setPhase id call .released with pending := Function.update s.pending call.key none } := by
        simp only [exec, hcall]
      exact h.release hcall (hcalm call hcall) hexec

/-! ## Runs -/

abbrev CacheRun (ttlMsOrSeconds : ℚ) : List (Step T) → Cache T → Prop :=
  Run (fun s => s = TTLCache ttlMsOrSeconds) fun s e s' => exec s e = s'

theorem calm_suffix {early hist : List (Step T)} (hsuffix : early <:+ hist) (h : Calm hist) : Calm early := by
  induction hist with
  | nil =>
    rw [List.suffix_nil.mp hsuffix]
    trivial
  | cons t rest ih =>
    rcases List.suffix_cons_iff.mp hsuffix with rfl | hsuffix
    · exact h
    · exact ih hsuffix h.2

theorem sound {ttl : ℚ} (h : CacheRun ttl hist s) (hcalm : Calm hist) : Sound hist s := by
  induction h with
  | start hinit =>
    subst hinit
    exact ⟨fun _ _ => rfl, nofun, fun _ _ => ⟨rfl, fun ⟨_, hmem, _⟩ => by cases hmem⟩, nofun, nofun, nofun⟩
  | next _ hstep ih =>
    subst hstep
    exact (ih hcalm.2).next hcalm.1

/-- A cache serves nothing older than an invalidation in every run whose steps are undisturbed. -/
theorem serves_of_calm {ttl : ℚ} (h : CacheRun ttl hist s) (hcalm : Calm hist) : Serves hist s := by
  have hvisited : ∀ early mid, Visits hist s early mid → Sound early mid :=
    fun early mid hvisit => sound (hvisit.run h) (calm_suffix hvisit.suffix hcalm)
  have hbefore : ∀ t earlier, t :: earlier <:+ hist → Sound earlier t.pre ∧ Undisturbed t earlier := by
    intro t earlier hsuffix
    have hcalm' := calm_suffix hsuffix hcalm
    exact ⟨sound (h.suffix_step hsuffix).1 hcalm'.2, hcalm'.1⟩
  constructor
  · rintro t earlier hsuffix key now id ⟨_, ⟨entry, hhit, rfl⟩ | hjoined⟩
    · exact ((hbefore t earlier hsuffix).1.cached key entry (outcome_hit hhit).1).1
    · exact ((hbefore t earlier hsuffix).1.pending key id (outcome_joined hjoined)).1
  · intro early mid hvisit key entry hentry
    exact ((hvisited early mid hvisit).cached key entry hentry).2.1
  · rintro early mid hvisit key i j ⟨hi, hicurrent⟩ ⟨hj, hjcurrent⟩
    have hpendingI := (hvisited early mid hvisit).current i _ hi nofun hicurrent
    have hpendingJ := (hvisited early mid hvisit).current j _ hj nofun hjcurrent
    exact Option.some.inj (hpendingI.symm.trans hpendingJ)
  · intro early mid hvisit key entry hentry
    exact ((hvisited early mid hvisit).cached key entry hentry).2.2.1
  · rintro t earlier hsuffix key now id ⟨⟨throws, hlabel⟩, ⟨entry, hhit, rfl⟩ | hjoined⟩ arrived harrived
    · obtain ⟨hcached, hvalid⟩ := outcome_hit hhit
      rw [((hbefore t earlier hsuffix).1.cached key entry hcached).2.1] at harrived
      cases harrived
      exact hvalid.le
    · have hundisturbed := (hbefore t earlier hsuffix).2
      rw [Undisturbed, hlabel] at hundisturbed
      simp only [hjoined] at hundisturbed
      exact hundisturbed arrived harrived

/-! ## Disturbed steps -/

theorem stale_of_resolve (hcall : s.callIn id .running = some call) (hstale : epoch id hist ≠ clears call.key hist)
    (httl : 0 < s.ttlMs) (data : T) (now : ℚ) :
    let s₁ := exec s (.resolve id data now)
    ¬ Serves (⟨s₁, .fetch call.key now false, exec s₁ (.fetch call.key now false)⟩ :: ⟨s, .resolve id data now, s₁⟩ :: hist)
      (exec s₁ (.fetch call.key now false)) := by
  intro s₁ hserves
  have hs₁ : s₁ = { s.setPhase id call .settled with
      cache := Function.update s.cache call.key (some { data, timestamp := now, call := id }) } := by
    simp only [s₁, exec, hcall]
  have hhit : s₁.outcome call.key now = .hit { data, timestamp := now, call := id } := by
    have hvalid : now - now < s.ttlMs := by rwa [sub_self]
    rw [hs₁, Cache.outcome]
    simp only [Function.update_self, Option.filter_some, Cache.setPhase, hvalid, decide_true, if_true]
  have hfresh := hserves.fresh _ _ (List.suffix_refl _) call.key now id ⟨⟨false, rfl⟩, .inl ⟨_, hhit, rfl⟩⟩
  exact hstale hfresh

/-- Newest first: the key is cleared while its call is under way. -/
def overtaken : List (Event ℕ) := [.clear (some (js "k")), .fetch (js "k") 1 false]

/-- The call resolves then, and the next fetch returns its data. -/
theorem overtaken_serves_stale :
    CacheRun 10 (executed exec (TTLCache 10) (.fetch (js "k") 3 false :: .resolve 0 7 3 :: overtaken)).1
        (executed exec (TTLCache 10) (.fetch (js "k") 3 false :: .resolve 0 7 3 :: overtaken)).2 ∧
      ¬ Serves (executed exec (TTLCache 10) (.fetch (js "k") 3 false :: .resolve 0 7 3 :: overtaken)).1
        (executed exec (TTLCache 10) (.fetch (js "k") 3 false :: .resolve 0 7 3 :: overtaken)).2 := by
  have hcall : (executed exec (TTLCache 10) overtaken).2.callIn 0 .running = some { key := js "k" } := by decide +kernel
  have hstale : epoch 0 (executed exec (TTLCache 10) overtaken).1 ≠
      clears (js "k") (executed exec (TTLCache 10) overtaken).1 := by decide +kernel
  exact ⟨executed_run (by rfl) (fun _ _ => by rfl) _, stale_of_resolve hcall hstale (by decide +kernel) 7 3⟩

/-- Newest first: a call resolves and is released, its key is cleared, and the next call is joined and then hit. -/
def refreshed : List (Event ℕ) :=
  [.fetch (js "k") 6 false, .release 1, .resolve 1 8 5, .fetch (js "k") 4 false, .fetch (js "k") 4 false,
    .clear (some (js "k")), .release 0, .resolve 0 7 2, .fetch (js "k") 1 false]

theorem serves_refreshed :
    Serves (executed exec (TTLCache 10) refreshed).1 (executed exec (TTLCache 10) refreshed).2 ∧
      ((executed exec (TTLCache 10) refreshed).2.cache (js "k")).map (·.data) = some 8 :=
  ⟨serves_of_calm (executed_run (by rfl) (fun _ _ => by rfl) _) (by decide +kernel), by decide +kernel⟩

end ChainGuard.OffChain.TtlCache
