import Mathlib.Order.Basic
import ChainGuard.Library.Guarded

/-! Runs of a labelled transition system that keep their whole history, newest
transition first, with the invariant rules for runs and the past-time operators
`Once` and `Since` on histories. Nothing here depends on what the states are. -/
namespace History
set_option autoImplicit false

universe u v w

/-- One executed step together with the states around it. -/
structure Transition (σ : Type u) (ι : Type v) where
  pre : σ
  label : ι
  post : σ

/-- `Run init step hist s`: the transitions `hist`, newest first, lead from an initial state to `s`. -/
inductive Run {σ : Type u} {ι : Type v} (init : σ → Prop) (step : σ → ι → σ → Prop) :
    List (Transition σ ι) → σ → Prop
  | start {s : σ} : init s → Run init step [] s
  | next {hist : List (Transition σ ι)} {s s' : σ} {i : ι} :
      Run init step hist s → step s i s' → Run init step (⟨s, i, s'⟩ :: hist) s'

/-- A run that goes on from a state. -/
abbrev RunFrom {σ : Type u} {ι : Type v} (step : σ → ι → σ → Prop) (s : σ) :
    List (Transition σ ι) → σ → Prop := Run (Eq s) step

section Runs
variable {σ : Type u} {ι : Type v} {init : σ → Prop} {step : σ → ι → σ → Prop}

/-- The history rule: a relation between history and state that holds at the start and is
preserved by every step that follows a run holds along all runs. -/
theorem Run.relates {R : List (Transition σ ι) → σ → Prop} (h0 : ∀ s, init s → R [] s)
    (hs : ∀ hist s i s', Run init step hist s → R hist s → step s i s' → R (⟨s, i, s'⟩ :: hist) s')
    {hist : List (Transition σ ι)} {s : σ} (h : Run init step hist s) : R hist s := by
  induction h with
  | start hi => exact h0 _ hi
  | next hr hstep ih => exact hs _ _ _ _ hr ih hstep

theorem Run.invariant {I : σ → Prop} (h0 : ∀ s, init s → I s)
    (hs : ∀ s i s', I s → step s i s' → I s')
    {hist : List (Transition σ ι)} {s : σ} (h : Run init step hist s) : I s :=
  h.relates (R := fun _ s => I s) h0 (fun _ s i s' _ hI hstep => hs s i s' hI hstep)

/-- The history rule for runs all of whose transitions meet a condition. -/
theorem Run.relates_of {R : List (Transition σ ι) → σ → Prop} {C : Transition σ ι → Prop}
    (h0 : ∀ s, init s → R [] s)
    (hs : ∀ hist s i s', Run init step hist s → R hist s → C ⟨s, i, s'⟩ → step s i s' →
      R (⟨s, i, s'⟩ :: hist) s')
    {hist : List (Transition σ ι)} {s : σ} (h : Run init step hist s) (hC : ∀ t ∈ hist, C t) :
    R hist s := by
  induction h with
  | start hi => exact h0 _ hi
  | next hr hstep ih =>
    have hrest := ih (fun t ht => hC t (List.mem_cons_of_mem _ ht))
    exact hs _ _ _ _ hr hrest (hC _ (List.mem_cons_self ..)) hstep

/-- The steps of a run may be taken to start in states of the invariant. -/
theorem Run.guarded {I : σ → Prop} {C : Transition σ ι → Prop} (h0 : ∀ s, init s → I s)
    (hs : ∀ s i s', I s → C ⟨s, i, s'⟩ → step s i s' → I s') {hist : List (Transition σ ι)} {s : σ}
    (h : Run init step hist s) (hC : ∀ t ∈ hist, C t) :
    Run init (fun s i s' => I s ∧ C ⟨s, i, s'⟩ ∧ step s i s') hist s ∧ I s := by
  induction h with
  | start hi => exact ⟨.start hi, h0 _ hi⟩
  | next _ hstep ih =>
    obtain ⟨hrun, hinvariant⟩ := ih fun t ht => hC t (List.mem_cons_of_mem _ ht)
    have hlast := hC _ (List.mem_cons_self ..)
    exact ⟨.next hrun ⟨hinvariant, hlast, hstep⟩, hs _ _ _ hinvariant hlast hstep⟩

theorem Run.extend {hist later : List (Transition σ ι)} {s s' : σ} (h : Run init step hist s)
    (h' : RunFrom step s later s') : Run init step (later ++ hist) s' := by
  induction h' with
  | start hs =>
    subst hs
    exact h
  | next _ hstep ih => exact .next ih hstep

theorem Run.suffix_step {hist early : List (Transition σ ι)} {s : σ} {t : Transition σ ι}
    (h : Run init step hist s) (hsuf : (t :: early) <:+ hist) :
    Run init step early t.pre ∧ step t.pre t.label t.post := by
  induction h with
  | start _ => cases List.suffix_nil.mp hsuf
  | @next hist s s' i hr hstep ih =>
    rcases List.suffix_cons_iff.mp hsuf with heq | hsuf
    · obtain ⟨rfl, rfl⟩ := List.cons.inj heq
      exact ⟨hr, hstep⟩
    · exact ih hsuf

theorem forall_suffix_cons {P : Transition σ ι → List (Transition σ ι) → Prop} {u : Transition σ ι}
    {hist : List (Transition σ ι)} : (∀ t earlier, t :: earlier <:+ u :: hist → P t earlier) ↔
      P u hist ∧ ∀ t earlier, t :: earlier <:+ hist → P t earlier := by
  constructor
  · intro hall
    exact ⟨hall u hist (List.suffix_refl _),
      fun t earlier hsuffix => hall t earlier (hsuffix.trans (List.suffix_cons _ _))⟩
  · rintro ⟨hfirst, hrest⟩ t earlier hsuffix
    rcases List.suffix_cons_iff.mp hsuffix with heq | hsuffix
    · obtain ⟨rfl, rfl⟩ := List.cons.inj heq
      exact hfirst
    · exact hrest t earlier hsuffix

/-- What holds of every transition and the history before it is decided transition by transition. -/
instance decidableForallSuffix {P : Transition σ ι → List (Transition σ ι) → Prop}
    [∀ t earlier, Decidable (P t earlier)] :
    (hist : List (Transition σ ι)) → Decidable (∀ t earlier, t :: earlier <:+ hist → P t earlier)
  | [] => isTrue fun _ _ hsuffix => absurd (List.suffix_nil.mp hsuffix) (List.cons_ne_nil _ _)
  | _ :: hist =>
    have := decidableForallSuffix (P := P) hist
    decidable_of_iff _ forall_suffix_cons.symm

/-- The states a run went through, its final state included. -/
inductive Visits : List (Transition σ ι) → σ → List (Transition σ ι) → σ → Prop
  | here {hist : List (Transition σ ι)} {s : σ} : Visits hist s hist s
  | before {t : Transition σ ι} {hist early : List (Transition σ ι)} {s s' : σ} :
      Visits hist t.pre early s' → Visits (t :: hist) s early s'

/-- A visited state ends the part of the run that led to it. -/
theorem Visits.run {hist early : List (Transition σ ι)} {s s' : σ} (h : Run init step hist s)
    (hv : Visits hist s early s') : Run init step early s' := by
  induction hv with
  | here => exact h
  | before _ ih =>
    cases h with
    | next hr _ => exact ih hr

theorem Visits.suffix {hist early : List (Transition σ ι)} {s s' : σ}
    (hv : Visits hist s early s') : early <:+ hist := by
  induction hv with
  | here => exact List.suffix_refl _
  | before _ ih => exact ih.trans (List.suffix_cons _ _)

/-- A transition of a run was taken at the end of an earlier run, and the run went through the
state it ended in. -/
theorem Run.visits_of_mem {hist : List (Transition σ ι)} {s : σ} (h : Run init step hist s)
    {t : Transition σ ι} (ht : t ∈ hist) :
    ∃ earlier, Visits hist s (t :: earlier) t.post ∧ Run init step earlier t.pre ∧
      step t.pre t.label t.post := by
  induction h with
  | start _ => cases ht
  | @next hist s s' i hr hstep ih =>
    rcases List.mem_cons.mp ht with rfl | ht
    · exact ⟨hist, .here, hr, hstep⟩
    · obtain ⟨earlier, hvisit, hrun, hst⟩ := ih ht
      exact ⟨earlier, .before hvisit, hrun, hst⟩

theorem Run.of_mem {hist : List (Transition σ ι)} {s : σ} (h : Run init step hist s)
    {t : Transition σ ι} (ht : t ∈ hist) :
    ∃ earlier, (t :: earlier) <:+ hist ∧ Run init step earlier t.pre ∧
      step t.pre t.label t.post := by
  obtain ⟨earlier, hvisit, hrun, hst⟩ := h.visits_of_mem ht
  exact ⟨earlier, hvisit.suffix, hrun, hst⟩

/-- The state a transition of a run ended in is one the run went through. -/
theorem Run.visits_post {hist : List (Transition σ ι)} {s : σ} (h : Run init step hist s)
    {t : Transition σ ι} (ht : t ∈ hist) : ∃ early, Visits hist s early t.post := by
  obtain ⟨earlier, hvisit, _, _⟩ := h.visits_of_mem ht
  exact ⟨t :: earlier, hvisit⟩

/-- Every earlier part of a run ended in a state the run went through. -/
theorem Visits.of_suffix {hist early : List (Transition σ ι)} (s : σ) (hsuf : early <:+ hist) :
    ∃ mid, Visits hist s early mid := by
  induction hist generalizing s with
  | nil =>
    rw [List.suffix_nil.mp hsuf]
    exact ⟨s, .here⟩
  | cons t rest ih =>
    rcases List.suffix_cons_iff.mp hsuf with rfl | hsuf
    · exact ⟨s, .here⟩
    · obtain ⟨mid, hvisit⟩ := ih t.pre hsuf
      exact ⟨mid, .before hvisit⟩

/-- The condition rule: where each step of a run keeps a relation exactly when it meets a condition on
itself and what led to it, the relation holds at every point of a run exactly when all its transitions
meet the condition. -/
theorem Run.visited_iff_history {R : List (Transition σ ι) → σ → Prop}
    {C : Transition σ ι → List (Transition σ ι) → Prop} (h0 : ∀ s, init s → R [] s)
    (hs : ∀ hist s i s', Run init step hist s → R hist s → step s i s' →
      (R (⟨s, i, s'⟩ :: hist) s' ↔ C ⟨s, i, s'⟩ hist))
    {hist : List (Transition σ ι)} {s : σ} (h : Run init step hist s) :
    (∀ early mid, Visits hist s early mid → R early mid) ↔
      ∀ t earlier, t :: earlier <:+ hist → C t earlier := by
  induction h with
  | start hi =>
    constructor
    · intro _ t earlier hsuffix
      cases List.suffix_nil.mp hsuffix
    · rintro _ early mid (_ | _)
      exact h0 _ hi
  | @next hist s s' i hr hstep ih =>
    rw [forall_suffix_cons, ← ih]
    constructor
    · intro hR
      have hbefore : ∀ early mid, Visits hist s early mid → R early mid :=
        fun early mid hvisit => hR early mid (.before hvisit)
      exact ⟨(hs _ _ _ _ hr (hbefore _ _ .here) hstep).mp (hR _ _ .here), hbefore⟩
    · rintro ⟨hc, hbefore⟩ early mid (_ | hvisit)
      · exact (hs _ _ _ _ hr (hbefore _ _ .here) hstep).mpr hc
      · exact hbefore early mid hvisit

/-- The same for a condition on the transitions alone. -/
theorem Run.visited_iff {R : List (Transition σ ι) → σ → Prop} {C : Transition σ ι → Prop}
    (h0 : ∀ s, init s → R [] s)
    (hs : ∀ hist s i s', Run init step hist s → R hist s → step s i s' →
      (R (⟨s, i, s'⟩ :: hist) s' ↔ C ⟨s, i, s'⟩))
    {hist : List (Transition σ ι)} {s : σ} (h : Run init step hist s) :
    (∀ early mid, Visits hist s early mid → R early mid) ↔ ∀ t ∈ hist, C t := by
  rw [h.visited_iff_history (C := fun t _ => C t) h0 hs]
  constructor
  · intro hC t ht
    obtain ⟨later, earlier, rfl⟩ := List.append_of_mem ht
    exact hC t earlier (List.suffix_append _ _)
  · exact fun hC t earlier hsuffix => hC t (hsuffix.subset (List.mem_cons_self ..))

/-- The transition of an abstract system that a transition stands for, if it stands for one. -/
def Transition.project {σ' : Type u} {ι' : Type v} (abs : σ → σ') (act : Transition σ ι → Option ι')
    (t : Transition σ ι) : Option (Transition σ' ι') :=
  (act t).map fun i => ⟨abs t.pre, i, abs t.post⟩

/-- The simulation rule: when every step either leaves the abstract state alone or makes an
abstract step, a run projects to an abstract run. -/
theorem Run.project {σ' : Type u} {ι' : Type v} {init' : σ' → Prop} {step' : σ' → ι' → σ' → Prop}
    (abs : σ → σ') {act : Transition σ ι → Option ι'} (h0 : ∀ s, init s → init' (abs s))
    (hidle : ∀ hist s i s', Run init step hist s → step s i s' → act ⟨s, i, s'⟩ = none → abs s' = abs s)
    (hact : ∀ hist s i s' j, Run init step hist s → step s i s' → act ⟨s, i, s'⟩ = some j →
      step' (abs s) j (abs s'))
    {hist : List (Transition σ ι)} {s : σ} (h : Run init step hist s) :
    Run init' step' (hist.filterMap (Transition.project abs act)) (abs s) := by
  induction h with
  | start hi => exact .start (h0 _ hi)
  | @next hist s s' i hr hstep ih =>
    cases ha : act ⟨s, i, s'⟩ with
    | none =>
      rw [List.filterMap_cons_none (by simp [Transition.project, ha]), hidle _ _ _ _ hr hstep ha]
      exact ih
    | some j =>
      rw [List.filterMap_cons_some (b := ⟨abs s, j, abs s'⟩) (by simp [Transition.project, ha])]
      exact .next ih (hact _ _ _ _ _ hr hstep ha)

/-- The run that a list of labels, newest first, determines, and where it leads. -/
def executed (next : σ → ι → σ) (s : σ) : List ι → List (Transition σ ι) × σ
  | [] => ([], s)
  | i :: earlier =>
    let before := (executed next s earlier).2
    (⟨before, i, next before i⟩ :: (executed next s earlier).1, next before i)

theorem executed_run {next : σ → ι → σ} {s : σ} (h0 : init s) (hs : ∀ s i, step s i (next s i)) (labels : List ι) :
    Run init step (executed next s labels).1 (executed next s labels).2 := by
  induction labels with
  | nil => exact .start h0
  | cons i labels ih => exact .next ih (hs _ i)

end Runs

/-! ## Past-time operators -/

variable {α : Type w} {β : Type v}

/-- An event of the kind `event` is in the history. -/
def Once (event : α → Prop) (hist : List α) : Prop := ∃ t ∈ hist, event t

theorem once_cons {event : α → Prop} {t : α} {rest : List α} :
    Once event (t :: rest) ↔ event t ∨ Once event rest := by
  simp [Once]

/-- `Since hold event hist`: some `event` is in the history and everything after it satisfies `hold`. -/
def Since (hold event : α → Prop) : List α → Prop
  | [] => False
  | t :: rest => event t ∨ (hold t ∧ Since hold event rest)

@[simp] theorem since_nil (hold event : α → Prop) : ¬ Since hold event [] := id

@[simp] theorem since_cons (hold event : α → Prop) (t : α) (rest : List α) :
    Since hold event (t :: rest) ↔ event t ∨ (hold t ∧ Since hold event rest) := Iff.rfl

instance Since.decidable (hold event : α → Prop) [DecidablePred hold] [DecidablePred event] :
    (hist : List α) → Decidable (Since hold event hist)
  | [] => inferInstanceAs (Decidable False)
  | t :: rest =>
    have := Since.decidable hold event rest
    inferInstanceAs (Decidable (event t ∨ (hold t ∧ Since hold event rest)))

theorem since_iff_split (hold event : α → Prop) (hist : List α) :
    Since hold event hist ↔
      ∃ after t before, hist = after ++ t :: before ∧ event t ∧ ∀ t' ∈ after, hold t' := by
  induction hist with
  | nil => simp
  | cons t rest ih =>
    rw [since_cons, ih]
    constructor
    · rintro (h | ⟨hh, after, t', before, rfl, he, ha⟩)
      · exact ⟨[], t, rest, rfl, h, by simp⟩
      · refine ⟨t :: after, t', before, rfl, he, ?_⟩
        intro x hx
        rcases List.mem_cons.mp hx with rfl | hx
        · exact hh
        · exact ha x hx
    · rintro ⟨after, t', before, heq, he, ha⟩
      cases after with
      | nil =>
        obtain ⟨rfl, rfl⟩ := List.cons.inj heq
        exact Or.inl he
      | cons x after =>
        obtain ⟨rfl, rfl⟩ := List.cons.inj heq
        exact Or.inr ⟨ha t (List.mem_cons_self ..), after, t', before, rfl, he,
          fun y hy => ha y (List.mem_cons_of_mem _ hy)⟩

theorem Since.mono {hold hold' event event' : α → Prop} {hist : List α}
    (h : Since hold event hist) (hh : ∀ t, hold t → hold' t) (he : ∀ t, event t → event' t) :
    Since hold' event' hist := by
  induction hist with
  | nil => exact h
  | cons t rest ih =>
    rcases h with h | ⟨h1, h2⟩
    · exact Or.inl (he t h)
    · exact Or.inr ⟨hh t h1, ih h2⟩

/-- What a part of the state holds was written by the last transition that writes it. -/
theorem Run.since_written {σ : Type u} {ι : Type v} {init : σ → Prop} {step : σ → ι → σ → Prop}
    {γ : Type w} (slot : σ → γ) (P : γ → Prop) (writes : Transition σ ι → Prop)
    (h0 : ∀ s, init s → ¬ P (slot s))
    (hs : ∀ s i s', step s i s' → writes ⟨s, i, s'⟩ ∨ slot s' = slot s)
    {hist : List (Transition σ ι)} {s : σ} (h : Run init step hist s) (hP : P (slot s)) :
    Since (fun t => ¬ writes t)
      (fun t => writes t ∧ step t.pre t.label t.post ∧ slot t.post = slot s) hist := by
  induction h with
  | start hi => exact (h0 _ hi hP).elim
  | @next hist s s' i hr hstep ih =>
    by_cases hw : writes ⟨s, i, s'⟩
    · exact Or.inl ⟨hw, hstep, rfl⟩
    · have hkept := (hs s i s' hstep).resolve_left hw
      rw [hkept] at hP ⊢
      exact Or.inr ⟨hw, ih hP⟩

theorem Since.once {hold event : α → Prop} {hist : List α} (h : Since hold event hist) :
    Once event hist := by
  obtain ⟨after, t, before, rfl, he, _⟩ := (since_iff_split _ _ _).mp h
  exact ⟨t, by simp, he⟩

/-- An event that is not older than a transition which neither holds nor is one lies after it. -/
theorem Since.after {hold event : α → Prop} {recent earlier : List α} {t : α}
    (h : Since hold event (recent ++ t :: earlier)) (hh : ¬ hold t) (he : ¬ event t) :
    ∃ t' ∈ recent, event t' := by
  induction recent with
  | nil =>
    rcases h with h | ⟨h, _⟩
    · exact (he h).elim
    · exact (hh h).elim
  | cons t' rest ih =>
    rcases h with h | ⟨_, h⟩
    · exact ⟨t', List.mem_cons_self .., h⟩
    · obtain ⟨t'', hmem, hevent⟩ := ih h
      exact ⟨t'', List.mem_cons_of_mem _ hmem, hevent⟩

/-- `Since` only sees the transitions that the projection keeps. -/
theorem since_filterMap (f : α → Option β) (hold event : β → Prop) (hist : List α) :
    Since hold event (hist.filterMap f) ↔
      Since (fun t => ∀ b, f t = some b → hold b) (fun t => ∃ b, f t = some b ∧ event b) hist := by
  induction hist with
  | nil => simp
  | cons t rest ih =>
    cases hf : f t with
    | none => simp [hf, ih]
    | some b => simp [hf, ih]

end History

/-! Concrete runs of a program that steps or fails: a list of calls that all succeed is a run, and
what is decided at its end holds of that run. -/
namespace History
open Guarded
set_option autoImplicit false

variable {ε σ ι : Type} (exec : σ → ι → Except ε σ)

/-- The transitions of a list of calls, newest first, unless one of them fails. -/
def runCalls (s : σ) : List ι → Except ε (List (Transition σ ι) × σ)
  | [] => pure ([], s)
  | i :: rest => do
    let s' ← exec s i
    let (later, final) ← runCalls s' rest
    pure (later ++ [⟨s, i, s'⟩], final)

/-- The calls all succeed and end as `p` says. -/
def endsIn (start : σ) (calls : List ι) (p : List (Transition σ ι) → σ → Bool) : Bool :=
  match runCalls exec start calls with
  | .ok (hist, final) => p hist final
  | .error _ => false

/-- One more call succeeds and is judged by the states around it. -/
def stepsTo (i : ι) (p : σ → σ → Bool) (s : σ) : Bool :=
  match exec s i with
  | .ok s' => p s s'
  | .error _ => false

def failsWith [DecidableEq ε] (i : ι) (e : ε) (s : σ) : Bool :=
  match exec s i with
  | .ok _ => false
  | .error e' => decide (e' = e)

variable {exec} {init : σ → Prop}

theorem stepsTo_iff {i : ι} {p : σ → σ → Bool} {s : σ} :
    stepsTo exec i p s = true ↔ ∃ s', exec s i = .ok s' ∧ p s s' = true := by
  unfold stepsTo
  cases exec s i with
  | error e => simp
  | ok s' => simp

theorem failsWith_iff [DecidableEq ε] {i : ι} {e : ε} {s : σ} :
    failsWith exec i e s = true ↔ exec s i = .error e := by
  unfold failsWith
  cases exec s i with
  | error e' => simp
  | ok s' => simp

theorem runCalls_run {hist : List (Transition σ ι)} {s : σ}
    (h : Run init (fun s i s' => exec s i = .ok s') hist s) {calls : List ι}
    {later : List (Transition σ ι)} {final : σ} (hcalls : runCalls exec s calls = .ok (later, final)) :
    Run init (fun s i s' => exec s i = .ok s') (later ++ hist) final := by
  induction calls generalizing s hist later final with
  | nil =>
    simp only [runCalls, pure_ok, Prod.mk.injEq] at hcalls
    obtain ⟨rfl, rfl⟩ := hcalls
    exact h
  | cons i rest ih =>
    simp only [runCalls, bind_ok, pure_ok, Prod.mk.injEq] at hcalls
    obtain ⟨s', hstep, ⟨later', final'⟩, hrest, rfl, rfl⟩ := hcalls
    rw [List.append_assoc]
    exact ih (.next h hstep) hrest

theorem exists_run_of_endsIn {start : σ} (hstart : init start) {calls : List ι}
    {p : List (Transition σ ι) → σ → Bool} (h : endsIn exec start calls p = true) :
    ∃ hist final, Run init (fun s i s' => exec s i = .ok s') hist final ∧ p hist final = true := by
  unfold endsIn at h
  split at h
  · next hist final heq =>
    refine ⟨hist, final, ?_, h⟩
    have hrun := runCalls_run (.start hstart) heq
    rwa [List.append_nil] at hrun
  · cases h

/-- The calls lead on from any state. -/
theorem exists_runFrom_of_endsIn {s : σ} {calls : List ι} {p : List (Transition σ ι) → σ → Bool}
    (h : endsIn exec s calls p = true) :
    ∃ later s', RunFrom (fun s i s' => exec s i = .ok s') s later s' ∧ p later s' = true :=
  exists_run_of_endsIn rfl h

theorem exists_step_of_endsIn {start : σ} (hstart : init start) {calls : List ι} {i : ι}
    {p : σ → σ → Bool} (h : endsIn exec start calls (fun _ s => stepsTo exec i p s) = true) :
    ∃ hist s s', Run init (fun s i s' => exec s i = .ok s') hist s ∧ exec s i = .ok s' ∧
      p s s' = true := by
  obtain ⟨hist, s, hrun, hend⟩ := exists_run_of_endsIn hstart h
  obtain ⟨s', hexec, hp⟩ := stepsTo_iff.mp hend
  exact ⟨hist, s, s', hrun, hexec, hp⟩

end History
