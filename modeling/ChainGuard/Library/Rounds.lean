import ChainGuard.Library.History
import ChainGuard.Library.Tally
import Mathlib.Data.List.Perm.Subperm

/-! Rounds that collect one submission from each of their members. A round is started with a
deadline, takes submissions until then, and is completed once it counts as many as required; the
next round starts from nothing. Who has submitted is flagged for each round, and the counter
of the current one is the number of its submitters. -/
namespace Rounds
open History
set_option autoImplicit false

structure Round (α : Type) where
  completed : ℕ
  active : Bool
  deadline : ℕ
  count : ℕ
  submitted : ℕ → α → Bool

inductive Act (α : Type)
  | start (deadline : ℕ)
  | submit (now : ℕ) (member : α)
  | complete (required : ℕ)

variable {α : Type} [DecidableEq α]

def Round.submit (r : Round α) (member : α) : Round α :=
  { r with
    count := r.count + 1
    submitted := Function.update r.submitted (r.completed + 1)
      (Function.update (r.submitted (r.completed + 1)) member true) }

inductive Step : Round α → Act α → Round α → Prop
  | start (r : Round α) (deadline : ℕ) : r.active = false →
      Step r (.start deadline) { r with active := true, deadline, count := 0 }
  | submit (r : Round α) (now : ℕ) (member : α) : r.active = true → now ≤ r.deadline →
      r.submitted (r.completed + 1) member = false → Step r (.submit now member) (r.submit member)
  | complete (r : Round α) (required : ℕ) : r.active = true → required ≤ r.count →
      Step r (.complete required) { r with active := false, completed := r.completed + 1 }

/-- No round was started yet. -/
structure Round.Fresh (r : Round α) : Prop where
  inactive : r.active = false
  submitted : ∀ n a, r.submitted n a = false

abbrev RoundRun (hist : List (Transition (Round α) (Act α))) (r : Round α) : Prop :=
  Run Round.Fresh Step hist r

/-! ## The submitters of the current round -/

/-- Those who submitted since the last completion, first one first. -/
def submitters : List (Transition (Round α) (Act α)) → List α
  | [] => []
  | t :: earlier =>
    match t.label with
    | .start _ => submitters earlier
    | .submit _ member => submitters earlier ++ [member]
    | .complete _ => []

/-- Flags and counter agree with the submitters. -/
structure Collected (hist : List (Transition (Round α) (Act α))) (r : Round α) : Prop where
  counts : Tally.Counts (r.submitted (r.completed + 1)) (submitters hist)
  later : ∀ n, r.completed + 1 < n → ∀ a, r.submitted n a = false
  counted : r.active = true → r.count = (submitters hist).length
  closed : r.active = false → submitters hist = []

theorem collected {hist : List (Transition (Round α) (Act α))} {r : Round α} (h : RoundRun hist r) :
    Collected hist r := by
  refine h.relates (R := Collected) ?_ ?_
  · intro r hfresh
    refine ⟨Tally.Counts.empty (hfresh.submitted _), fun n _ => hfresh.submitted n, ?_, fun _ => rfl⟩
    intro hactive
    rw [hfresh.inactive] at hactive
    cases hactive
  · intro hist r act r' _ ih hstep
    cases hstep with
    | start deadline hinactive =>
      refine ⟨ih.counts, ih.later, fun _ => ?_, fun hclosed => by cases hclosed⟩
      show 0 = (submitters hist).length
      rw [ih.closed hinactive]
      rfl
    | submit now member hactive _ hnew =>
      refine ⟨?_, ?_, fun _ => ?_, fun hclosed => ?_⟩
      · show Tally.Counts ((r.submit member).submitted (r.completed + 1)) (submitters hist ++ [member])
        simp only [Round.submit, Function.update_self]
        exact ih.counts.push hnew
      · intro n hn a
        simp only [Round.submit]
        rw [Function.update_of_ne (by change r.completed + 1 < n at hn; omega)]
        exact ih.later n hn a
      · show r.count + 1 = (submitters hist ++ [member]).length
        rw [ih.counted hactive, List.length_append, List.length_singleton]
      · exact absurd (hactive.symm.trans hclosed) (by simp)
    | complete required _ _ =>
      have hnext := ih.later (r.completed + 1 + 1) (Nat.lt_succ_self _)
      refine ⟨Tally.Counts.empty hnext, ?_, fun hactive => (by cases hactive), fun _ => rfl⟩
      intro n hn a
      have hafter : r.completed + 1 < n := Nat.lt_of_succ_lt hn
      exact ih.later n hafter a

/-! ## Completion -/

theorem Step.completes {r r' : Round α} {required : ℕ} (h : Step r (.complete required) r') :
    r.active = true ∧ required ≤ r.count ∧ r'.completed = r.completed + 1 ∧
      r'.submitted = r.submitted := by
  cases h with
  | complete _ hactive henough => exact ⟨hactive, henough, rfl, rfl⟩

/-- A round that completes while everybody who submitted is on the list has a submission from everybody on the list. -/
theorem Collected.all_submitted {hist : List (Transition (Round α) (Act α))} {r r' : Round α} {members : List α}
    (h : Collected hist r) (hstep : Step r (.complete members.length) r')
    (hstay : ∀ a, r.submitted (r.completed + 1) a = true → a ∈ members) :
    ∀ a ∈ members, r.submitted (r.completed + 1) a = true := by
  obtain ⟨hactive, henough, -, -⟩ := hstep.completes
  rw [h.counted hactive] at henough
  have hsub : submitters hist ⊆ members := fun a ha => hstay a ((h.counts.mem_iff a).mp ha)
  have hperm := (h.counts.nodup.subperm hsub).perm_of_length_le henough
  intro a ha
  exact (h.counts.mem_iff a).mp (hperm.mem_iff.mpr ha)

/-- Who is flagged after a step submitted in it, or was flagged before. -/
theorem Collected.submitted_next {hist : List (Transition (Round α) (Act α))} {r r' : Round α} {act : Act α} {a : α}
    (h : Collected hist r) (hstep : Step r act r') (ha : r'.submitted (r'.completed + 1) a = true) :
    (∃ now, act = .submit now a) ∨ r.submitted (r.completed + 1) a = true := by
  cases hstep with
  | start deadline _ => exact .inr ha
  | submit now member _ _ _ =>
    by_cases hmember : a = member
    · exact .inl ⟨now, by rw [hmember]⟩
    · change (r.submit member).submitted (r.completed + 1) a = true at ha
      simp only [Round.submit, Function.update_self, Function.update_of_ne hmember] at ha
      exact .inr ha
  | complete required _ _ =>
    have hlater := h.later (r.completed + 1 + 1) (Nat.lt_succ_self _) a
    exact absurd (hlater.symm.trans ha) Bool.false_ne_true

omit [DecidableEq α] in
theorem submit_of_mem_submitters {hist : List (Transition (Round α) (Act α))} {a : α} (ha : a ∈ submitters hist) :
    ∃ t ∈ hist, ∃ now, t.label = .submit now a := by
  induction hist with
  | nil => cases ha
  | cons t earlier ih =>
    have hearlier : a ∈ submitters earlier → ∃ t' ∈ t :: earlier, ∃ now, t'.label = .submit now a := by
      intro ha
      obtain ⟨t', ht', hlabel⟩ := ih ha
      exact ⟨t', List.mem_cons_of_mem _ ht', hlabel⟩
    rw [submitters] at ha
    split at ha
    · exact hearlier ha
    · next now member hlabel =>
      rcases List.mem_append.mp ha with ha | ha
      · exact hearlier ha
      · exact ⟨t, List.mem_cons_self .., now, by rw [hlabel, List.mem_singleton.mp ha]⟩
    · cases ha

theorem Step.not_overdue {r r' : Round α} {act : Act α} {now required : ℕ} (hactive : r.active = true)
    (hoverdue : r.deadline < now) (hshort : r.count < required)
    (hnow : ∀ t a, act = .submit t a → now ≤ t) (hrequired : ∀ n, act = .complete n → required ≤ n) :
    ¬ Step r act r' := by
  intro hstep
  cases hstep with
  | start deadline hinactive => exact absurd (hactive.symm.trans hinactive) (by simp)
  | submit t a _ hdeadline _ =>
    have := hnow t a rfl
    omega
  | complete n _ henough =>
    have := hrequired n rfl
    omega

end Rounds
