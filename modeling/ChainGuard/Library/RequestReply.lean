import ChainGuard.Library.History
import Mathlib.Data.List.Nodup
import Mathlib.Data.List.Lemmas

/-! Requests that are either served at once or posted to somebody who may post a reply, and the table of
those that wait for one. Posted requests are processed, and replies delivered, in any order. Nothing here
depends on what is requested. -/
namespace RequestReply
open History
set_option autoImplicit false

universe u v w x

/-- What may come back for a request from those it is posted to, how a reply settles it, and what serving
it at once may return. -/
structure Protocol (Req : Type v) (Reply : Type w) (Out : Type x) where
  /-- `none` when nothing is posted back. -/
  answers : Req → Option Reply → Prop
  settle : Reply → Out
  serves : Req → Out → Prop

structure State (Id : Type u) (Req : Type v) (Reply : Type w) (Out : Type x) where
  calls : List (Id × Req)
  pending : List Id
  posted : List (Id × Req)
  replies : List (Id × Reply)
  settled : List (Id × Out)

inductive Action (Id : Type u) (Req : Type v) (Reply : Type w) (Out : Type x)
  | serve (id : Id) (req : Req) (out : Out)
  | post (id : Id) (req : Req)
  /-- The request at this position is processed. -/
  | process (i : ℕ) (reply : Option Reply)
  /-- The reply at this position is delivered. -/
  | deliver (i : ℕ)
  /-- What is posted and not processed is lost. -/
  | discard

variable {Id : Type u} {Req : Type v} {Reply : Type w} {Out : Type x}

def State.receive [DecidableEq Id] (settle : Reply → Out) (id : Id) (reply : Reply) (s : State Id Req Reply Out) :
    State Id Req Reply Out :=
  if id ∈ s.pending then
    { s with pending := s.pending.filter (· ≠ id), settled := (id, settle reply) :: s.settled }
  else s

def State.initial : State Id Req Reply Out := ⟨[], [], [], [], []⟩

inductive Step [DecidableEq Id] (P : Protocol Req Reply Out) :
    State Id Req Reply Out → Action Id Req Reply Out → State Id Req Reply Out → Prop
  | serve {s : State Id Req Reply Out} {id : Id} {req : Req} {out : Out}
      (hnew : id ∉ s.calls.map Prod.fst) (hserves : P.serves req out) :
      Step P s (.serve id req out) { s with calls := (id, req) :: s.calls, settled := (id, out) :: s.settled }
  | post {s : State Id Req Reply Out} {id : Id} {req : Req} (hnew : id ∉ s.calls.map Prod.fst) :
      Step P s (.post id req)
        { s with calls := (id, req) :: s.calls, pending := id :: s.pending, posted := s.posted ++ [(id, req)] }
  | process {s : State Id Req Reply Out} {i : ℕ} {id : Id} {req : Req} {reply : Option Reply}
      (hposted : s.posted[i]? = some (id, req)) (hanswers : P.answers req reply) :
      Step P s (.process i reply)
        { s with posted := s.posted.eraseIdx i, replies := s.replies ++ (reply.map (id, ·)).toList }
  | deliver {s : State Id Req Reply Out} {i : ℕ} {id : Id} {reply : Reply}
      (hreply : s.replies[i]? = some (id, reply)) :
      Step P s (.deliver i) (({ s with replies := s.replies.eraseIdx i } : State Id Req Reply Out).receive
        P.settle id reply)
  | discard {s : State Id Req Reply Out} : Step P s .discard { s with posted := [] }

abbrev PoolRun [DecidableEq Id] (P : Protocol Req Reply Out) :
    List (Transition (State Id Req Reply Out) (Action Id Req Reply Out)) → State Id Req Reply Out → Prop :=
  Run (· = .initial) (Step P)

/-- What a request may settle with. -/
inductive Protocol.Returns (P : Protocol Req Reply Out) (req : Req) : Out → Prop
  | served {out : Out} (h : P.serves req out) : P.Returns req out
  | answered {reply : Reply} (h : P.answers req (some reply)) : P.Returns req (P.settle reply)

/-- What holds in every state: each request is pending or has settled, once, with something that was
returned for it. -/
structure Sound (P : Protocol Req Reply Out) (s : State Id Req Reply Out) : Prop where
  calls_nodup : (s.calls.map Prod.fst).Nodup
  pending_nodup : s.pending.Nodup
  settled_nodup : (s.settled.map Prod.fst).Nodup
  settled_not_pending : ∀ id ∈ s.settled.map Prod.fst, id ∉ s.pending
  accounted : ∀ id, id ∈ s.calls.map Prod.fst ↔ id ∈ s.pending ∨ id ∈ s.settled.map Prod.fst
  posted : ∀ m ∈ s.posted, m ∈ s.calls
  replies : ∀ m ∈ s.replies, ∃ req, (m.1, req) ∈ s.calls ∧ P.answers req (some m.2)
  settled : ∀ m ∈ s.settled, ∃ req, (m.1, req) ∈ s.calls ∧ P.Returns req m.2

variable {P : Protocol Req Reply Out} {s s' : State Id Req Reply Out}
  {hist : List (Transition (State Id Req Reply Out) (Action Id Req Reply Out))}

theorem sound_initial : Sound P (.initial : State Id Req Reply Out) where
  calls_nodup := List.nodup_nil
  pending_nodup := List.nodup_nil
  settled_nodup := List.nodup_nil
  settled_not_pending _ h := absurd h List.not_mem_nil
  accounted _ := ⟨.inl, fun h => h.elim id id⟩
  posted _ h := absurd h List.not_mem_nil
  replies _ h := absurd h List.not_mem_nil
  settled _ h := absurd h List.not_mem_nil

namespace Sound

theorem serve {id : Id} {req : Req} {out : Out} (h : Sound P s) (hnew : id ∉ s.calls.map Prod.fst)
    (hserves : P.serves req out) :
    Sound P { s with calls := (id, req) :: s.calls, settled := (id, out) :: s.settled } where
  calls_nodup := List.nodup_cons.mpr ⟨hnew, h.calls_nodup⟩
  pending_nodup := h.pending_nodup
  settled_nodup := List.nodup_cons.mpr ⟨fun hmem => hnew ((h.accounted id).mpr (.inr hmem)), h.settled_nodup⟩
  settled_not_pending id' hmem hpending := by
    rcases List.mem_cons.mp hmem with rfl | hmem
    · exact hnew ((h.accounted _).mpr (.inl hpending))
    · exact h.settled_not_pending id' hmem hpending
  accounted id' := by
    simp only [List.map_cons, List.mem_cons, h.accounted id']
    tauto
  posted m hm := List.mem_cons_of_mem _ (h.posted m hm)
  replies m hm := by
    obtain ⟨req', hcall, hanswer⟩ := h.replies m hm
    exact ⟨req', List.mem_cons_of_mem _ hcall, hanswer⟩
  settled m hm := by
    rcases List.mem_cons.mp hm with rfl | hm
    · exact ⟨req, List.mem_cons_self .., .served hserves⟩
    · obtain ⟨req', hcall, hreturns⟩ := h.settled m hm
      exact ⟨req', List.mem_cons_of_mem _ hcall, hreturns⟩

theorem post {id : Id} {req : Req} (h : Sound P s) (hnew : id ∉ s.calls.map Prod.fst) :
    Sound P { s with calls := (id, req) :: s.calls, pending := id :: s.pending,
                     posted := s.posted ++ [(id, req)] } where
  calls_nodup := List.nodup_cons.mpr ⟨hnew, h.calls_nodup⟩
  pending_nodup := List.nodup_cons.mpr ⟨fun hmem => hnew ((h.accounted id).mpr (.inl hmem)), h.pending_nodup⟩
  settled_nodup := h.settled_nodup
  settled_not_pending id' hmem hpending := by
    rcases List.mem_cons.mp hpending with rfl | hpending
    · exact hnew ((h.accounted _).mpr (.inr hmem))
    · exact h.settled_not_pending id' hmem hpending
  accounted id' := by
    simp only [List.map_cons, List.mem_cons, h.accounted id']
    tauto
  posted m hm := by
    rcases List.mem_append.mp hm with hm | hm
    · exact List.mem_cons_of_mem _ (h.posted m hm)
    · rw [List.mem_singleton.mp hm]
      exact List.mem_cons_self ..
  replies m hm := by
    obtain ⟨req', hcall, hanswer⟩ := h.replies m hm
    exact ⟨req', List.mem_cons_of_mem _ hcall, hanswer⟩
  settled m hm := by
    obtain ⟨req', hcall, hreturns⟩ := h.settled m hm
    exact ⟨req', List.mem_cons_of_mem _ hcall, hreturns⟩

theorem process {i : ℕ} {id : Id} {req : Req} {reply : Option Reply} (h : Sound P s)
    (hposted : s.posted[i]? = some (id, req)) (hanswers : P.answers req reply) :
    Sound P { s with posted := s.posted.eraseIdx i, replies := s.replies ++ (reply.map (id, ·)).toList } where
  calls_nodup := h.calls_nodup
  pending_nodup := h.pending_nodup
  settled_nodup := h.settled_nodup
  settled_not_pending := h.settled_not_pending
  accounted := h.accounted
  posted m hm := h.posted m (List.mem_of_mem_eraseIdx hm)
  replies m hm := by
    rcases List.mem_append.mp hm with hm | hm
    · exact h.replies m hm
    · cases reply with
      | none => exact absurd hm List.not_mem_nil
      | some reply =>
        rw [List.mem_singleton.mp hm]
        exact ⟨req, h.posted _ (List.mem_of_getElem? hposted), hanswers⟩
  settled := h.settled

variable [DecidableEq Id]

theorem deliver {i : ℕ} {id : Id} {reply : Reply} (h : Sound P s)
    (hreply : s.replies[i]? = some (id, reply)) :
    Sound P (({ s with replies := s.replies.eraseIdx i } : State Id Req Reply Out).receive P.settle id reply) := by
  obtain ⟨req, hcall, hanswer⟩ := h.replies _ (List.mem_of_getElem? hreply)
  have hreplies : ∀ m ∈ s.replies.eraseIdx i, ∃ req, (m.1, req) ∈ s.calls ∧ P.answers req (some m.2) :=
    fun m hm => h.replies m (List.mem_of_mem_eraseIdx hm)
  unfold State.receive
  split
  case isFalse => exact { h with replies := hreplies }
  case isTrue hpending =>
    have hmem : ∀ id', id' ∈ s.pending.filter (· ≠ id) ↔ id' ≠ id ∧ id' ∈ s.pending :=
      fun id' => by rw [List.mem_filter, decide_eq_true_eq, and_comm]
    exact {
      calls_nodup := h.calls_nodup
      pending_nodup := h.pending_nodup.filter _
      settled_nodup := List.nodup_cons.mpr
        ⟨fun hsettled => h.settled_not_pending id hsettled hpending, h.settled_nodup⟩
      settled_not_pending := by
        intro id' hsettled hpending'
        obtain ⟨hne, hpending'⟩ := (hmem id').mp hpending'
        rcases List.mem_cons.mp hsettled with heq | hsettled
        · exact hne heq
        · exact h.settled_not_pending id' hsettled hpending'
      accounted := by
        intro id'
        rw [hmem, List.map_cons, List.mem_cons, h.accounted id']
        by_cases heq : id' = id
        · subst heq
          simp [hpending]
        · simp [heq]
      posted := h.posted
      replies := hreplies
      settled := by
        intro m hm
        rcases List.mem_cons.mp hm with rfl | hm
        · exact ⟨req, hcall, .answered hanswer⟩
        · exact h.settled m hm }

theorem step {a : Action Id Req Reply Out} (h : Sound P s) (hstep : Step P s a s') : Sound P s' := by
  cases hstep with
  | serve hnew hserves => exact h.serve hnew hserves
  | post hnew => exact h.post hnew
  | process hposted hanswers => exact h.process hposted hanswers
  | deliver hreply => exact h.deliver hreply
  | discard => exact { h with posted := fun m hm => absurd hm List.not_mem_nil }

end Sound

variable [DecidableEq Id]

theorem sound (h : PoolRun P hist s) : Sound P s :=
  h.invariant (fun _ hs => hs ▸ sound_initial) (fun _ _ _ hsound hstep => hsound.step hstep)

/-! ## Protocols that never reply -/

def Action.Posts : Action Id Req Reply Out → Prop
  | .post .. => True
  | _ => False

/-- Where nothing is posted back, a request that was posted is pending for ever. -/
theorem pending_of_silent (hsilent : ∀ req reply, P.answers req reply → reply = none)
    (h : PoolRun P hist s) : s.replies = [] ∧ (s.pending = [] ↔ ∀ t ∈ hist, ¬ t.label.Posts) := by
  refine h.relates (R := fun hist s => s.replies = [] ∧ (s.pending = [] ↔ ∀ t ∈ hist, ¬ t.label.Posts)) ?_ ?_
  · rintro s rfl
    exact ⟨rfl, fun _ t ht => absurd ht List.not_mem_nil, fun _ => rfl⟩
  · rintro hist s a s' _ ⟨hreplies, hpending⟩ hstep
    cases hstep with
    | serve => exact ⟨hreplies, by simpa [Action.Posts] using hpending⟩
    | post => exact ⟨hreplies, by simp [Action.Posts]⟩
    | process _ hanswers =>
      rw [hsilent _ _ hanswers]
      exact ⟨by simpa using hreplies, by simpa [Action.Posts] using hpending⟩
    | deliver hreply =>
      rw [hreplies] at hreply
      exact absurd hreply (by simp)
    | discard => exact ⟨hreplies, by simpa [Action.Posts] using hpending⟩

end RequestReply
