import ChainGuard.Library.History
import ChainGuard.Library.Tally

/-! The life cycle of one timelocked proposal slot: it is proposed, collects approvals, is
queued, and takes effect once its delay has passed, unless it was vetoed. A slot is proposed
again after an earlier proposal ended. The approval flags outlive a proposal, the list of
approvers does not. The rules below say what a run of a slot guarantees at the moment it
takes effect. -/
namespace Timelock
open History
set_option autoImplicit false

structure Slot (α : Type) where
  approvedBy : List α
  approved : α → Bool
  executed : Bool
  vetoed : Bool
  createdAt : ℕ
  expiresAt : ℕ
  queuedAt : ℕ

inductive Act (α : Type)
  | propose (now : ℕ)
  | approve (now : ℕ) (approver : α)
  | queue (now required : ℕ)
  | veto
  | execute (now required : ℕ)

variable {α : Type} [DecidableEq α]

def Slot.Open (p : Slot α) (now : ℕ) : Prop := p.createdAt ≠ 0 ∧ p.executed = false ∧ now < p.expiresAt

def Slot.Live (p : Slot α) (now : ℕ) : Prop := p.Open now ∧ p.vetoed = false

/-- What a proposal must meet to take effect. -/
structure Slot.Ready (p : Slot α) (delay now required : ℕ) : Prop where
  not_vetoed : p.vetoed = false
  queued : p.queuedAt ≠ 0
  elapsed : p.queuedAt + delay ≤ now
  enough : required ≤ p.approvedBy.length

/-- Queueing and executing pass over a slot that is not open, vetoing over one that is not pending. -/
inductive Step (window delay : ℕ) : Slot α → Act α → Slot α → Prop
  | propose (p : Slot α) (now : ℕ) : ¬ p.Live now → Step window delay p (.propose now)
      { p with approvedBy := [], executed := false, vetoed := false, createdAt := now,
               expiresAt := now + window, queuedAt := 0 }
  | approve (p : Slot α) (now : ℕ) (a : α) : p.Live now → p.approved a = false →
      Step window delay p (.approve now a)
        { p with approvedBy := p.approvedBy ++ [a], approved := Function.update p.approved a true }
  | queue (p : Slot α) (now required : ℕ) : p.Open now → p.vetoed = false → p.queuedAt = 0 →
      required ≤ p.approvedBy.length →
      Step window delay p (.queue now required) { p with queuedAt := now }
  | queuePassed (p : Slot α) (now required : ℕ) : ¬ p.Open now →
      Step window delay p (.queue now required) p
  | veto (p : Slot α) : p.createdAt ≠ 0 → p.executed = false →
      Step window delay p .veto { p with vetoed := true }
  | vetoPassed (p : Slot α) : ¬ (p.createdAt ≠ 0 ∧ p.executed = false) →
      Step window delay p .veto p
  | execute (p : Slot α) (now required : ℕ) : p.Open now → p.Ready delay now required →
      Step window delay p (.execute now required) { p with executed := true }
  | executePassed (p : Slot α) (now required : ℕ) : ¬ p.Open now →
      Step window delay p (.execute now required) p

/-- A slot nobody has used. -/
structure Slot.Fresh (p : Slot α) : Prop where
  approvedBy : p.approvedBy = []
  approved : ∀ a, p.approved a = false
  createdAt : p.createdAt = 0
  queuedAt : p.queuedAt = 0

/-! ## Events of a slot's history -/

def Proposes (t : Transition (Slot α) (Act α)) : Prop := ∃ now, t.label = .propose now

def Approves (a : α) (t : Transition (Slot α) (Act α)) : Prop := ∃ now, t.label = .approve now a

def Vetoes (t : Transition (Slot α) (Act α)) : Prop := t.label = .veto

/-- Queued at time `q`, unexpired then and with the approvals required then. -/
def QueuedAt (q : ℕ) (t : Transition (Slot α) (Act α)) : Prop :=
  ∃ required, t.label = .queue q required ∧ t.pre.Open q ∧ required ≤ t.pre.approvedBy.length

def TakesEffect (t : Transition (Slot α) (Act α)) : Prop :=
  ∃ now required, t.label = .execute now required ∧ t.pre.Open now

theorem Step.executes {window delay now required : ℕ} {p p' : Slot α}
    (h : Step window delay p (.execute now required) p') (hopen : p.Open now) : p'.executed = true := by
  cases h with
  | execute => rfl
  | executePassed _ _ hno => exact absurd hopen hno

theorem Step.not_vetoed {window delay now required : ℕ} {p p' : Slot α}
    (h : Step window delay p (.execute now required) p') (hopen : p.Open now) : p.vetoed = false := by
  cases h with
  | execute _ _ _ hready => exact hready.not_vetoed
  | executePassed _ _ hno => exact absurd hopen hno

theorem Step.pending_before {window delay : ℕ} {p p' : Slot α} {act : Act α}
    (h : Step window delay p act p') (hact : ∀ now, act ≠ .propose now) (hc : p'.createdAt ≠ 0)
    (he : p'.executed = false) : p.createdAt ≠ 0 ∧ p.executed = false := by
  cases h with
  | propose now _ => exact absurd rfl (hact now)
  | execute => cases he
  | approve | queue | queuePassed | veto | vetoPassed | executePassed => exact ⟨hc, he⟩

/-- Neither executed nor vetoed. -/
def Slot.Undecided (p : Slot α) : Prop := p.executed = false ∧ p.vetoed = false

/-- Who is listed on an undecided slot approved just now, or was listed before on the slot, undecided then too. -/
theorem Step.approver_of_undecided {window delay : ℕ} {p p' : Slot α} {act : Act α} {a : α}
    (h : Step window delay p act p') (hundecided : p'.Undecided) (ha : a ∈ p'.approvedBy) :
    (∃ now, act = .approve now a) ∨ (p.Undecided ∧ a ∈ p.approvedBy ∧
      ∀ now required, act = .execute now required → ¬ p.Open now) := by
  cases h with
  | propose now _ => cases ha
  | approve now b hlive _ =>
    rcases List.mem_append.mp ha with ha | ha
    · exact .inr ⟨⟨hlive.1.2.1, hlive.2⟩, ha, by simp⟩
    · exact .inl ⟨now, by rw [List.mem_singleton.mp ha]⟩
  | veto _ _ => cases hundecided.2
  | execute now required _ _ => cases hundecided.1
  | executePassed now required hno =>
    refine .inr ⟨hundecided, ha, ?_⟩
    rintro now' required' heq
    cases heq
    exact hno
  | queue | queuePassed | vetoPassed => exact .inr ⟨hundecided, ha, by simp⟩

/-! ## Rules for runs -/

variable {window delay : ℕ} {hist : List (Transition (Slot α) (Act α))} {p : Slot α}

abbrev SlotRun (window delay : ℕ) (hist : List (Transition (Slot α) (Act α))) (p : Slot α) : Prop :=
  Run Slot.Fresh (Step window delay) hist p

theorem mem_approvedBy_iff (h : SlotRun window delay hist p) (a : α) :
    a ∈ p.approvedBy ↔ Since (fun t => ¬ Proposes t) (Approves a) hist := by
  induction h with
  | start hf => simp [hf.approvedBy]
  | next hr hstep ih =>
    cases hstep <;> simp_all [Proposes, Approves]
    tauto

/-- The list has no repetition and every listed approver is flagged. -/
theorem approvedBy_flagged (h : SlotRun window delay hist p) :
    p.approvedBy.Nodup ∧ ∀ a ∈ p.approvedBy, p.approved a = true := by
  refine h.invariant (I := fun p => p.approvedBy.Nodup ∧ ∀ a ∈ p.approvedBy, p.approved a = true)
    (fun p hf => by simp [hf.approvedBy]) ?_
  intro p act p' hI hstep
  cases hstep with
  | propose now _ => simp
  | approve now a _ ha =>
    refine ⟨?_, ?_⟩
    · have hnot : a ∉ p.approvedBy := fun hm => by simp [hI.2 a hm] at ha
      rw [List.nodup_append]
      refine ⟨hI.1, List.nodup_singleton a, ?_⟩
      intro x hx y hy hxy
      rw [List.mem_singleton] at hy
      exact hnot (hy ▸ hxy ▸ hx)
    · intro b hb
      change Function.update p.approved a true b = true
      by_cases hba : b = a
      · simp [hba]
      · rw [Function.update_of_ne hba]
        exact hI.2 b (by simpa [hba] using hb)
  | queue | queuePassed | veto | vetoPassed | execute | executePassed => exact hI

theorem pending_since (h : SlotRun window delay hist p) (hc : p.createdAt ≠ 0)
    (he : p.executed = false) (hv : p.vetoed = false) :
    Since (fun t => ¬ Proposes t ∧ ¬ Vetoes t ∧ ¬ TakesEffect t) Proposes hist := by
  induction h with
  | start hf => exact absurd hf.createdAt hc
  | next hr hstep ih =>
    cases hstep with
    | propose now _ => exact Or.inl ⟨now, rfl⟩
    | approve now a _ _ =>
      exact Or.inr ⟨by simp [Proposes, Vetoes, TakesEffect], ih hc he hv⟩
    | queue now required _ _ _ _ =>
      exact Or.inr ⟨by simp [Proposes, Vetoes, TakesEffect], ih hc he hv⟩
    | queuePassed now required _ =>
      exact Or.inr ⟨by simp [Proposes, Vetoes, TakesEffect], ih hc he hv⟩
    | veto _ _ => cases hv
    | vetoPassed hno => exact absurd ⟨hc, he⟩ hno
    | execute now required _ _ => cases he
    | executePassed now required hno =>
      refine Or.inr ⟨⟨by simp [Proposes], by simp [Vetoes], ?_⟩, ih hc he hv⟩
      rintro ⟨now', required', heq, hopen⟩
      cases heq
      exact hno hopen

theorem queued_since (h : SlotRun window delay hist p) (hq : p.queuedAt ≠ 0) :
    Since (fun t => ¬ Proposes t) (QueuedAt p.queuedAt) hist := by
  induction h with
  | start hf => exact absurd hf.queuedAt hq
  | next hr hstep ih =>
    cases hstep with
    | propose now _ => exact absurd rfl hq
    | approve now a _ _ => exact Or.inr ⟨by simp [Proposes], ih hq⟩
    | queue now required hopen _ _ hreq => exact Or.inl ⟨required, rfl, hopen, hreq⟩
    | queuePassed now required _ => exact Or.inr ⟨by simp [Proposes], ih hq⟩
    | veto _ _ => exact Or.inr ⟨by simp [Proposes], ih hq⟩
    | vetoPassed _ => exact Or.inr ⟨by simp [Proposes], ih hq⟩
    | execute now required _ _ => exact Or.inr ⟨by simp [Proposes], ih hq⟩
    | executePassed now required _ => exact Or.inr ⟨by simp [Proposes], ih hq⟩

/-- The timelock: what takes effect was queued at least `delay` earlier, with the approvals
required then and now and unexpired then and now, and since it was proposed it was neither
vetoed nor took effect before. -/
theorem takes_effect_after_delay {p' : Slot α} {now required : ℕ} (h : SlotRun window delay hist p)
    (hstep : Step window delay p (.execute now required) p') (hopen : p.Open now) :
    (∃ q, q + delay ≤ now ∧ Since (fun t => ¬ Proposes t) (QueuedAt q) hist) ∧
      required ≤ p.approvedBy.length ∧
      Since (fun t => ¬ Proposes t ∧ ¬ Vetoes t ∧ ¬ TakesEffect t) Proposes hist := by
  cases hstep with
  | execute _ _ _ hready =>
    exact ⟨⟨p.queuedAt, hready.elapsed, queued_since h hready.queued⟩, hready.enough,
      pending_since h hopen.1 hopen.2.1 hready.not_vetoed⟩
  | executePassed _ _ hno => exact absurd hopen hno

/-- The flags stay the ones of the listed approvers while no proposal starts over flags that an
earlier proposal left behind. -/
theorem flags_count (h : SlotRun window delay hist p)
    (hclean : ∀ t ∈ hist, Proposes t → ∀ a, t.pre.approved a = false) :
    Tally.Counts p.approved p.approvedBy := by
  refine h.relates_of (R := fun _ p => Tally.Counts p.approved p.approvedBy)
    (C := fun t => Proposes t → ∀ a, t.pre.approved a = false) ?_ ?_ hclean
  · intro p hf
    rw [hf.approvedBy]
    exact Tally.Counts.empty hf.approved
  · intro hist p act p' _ hI hC hstep
    cases hstep with
    | propose now _ => exact Tally.Counts.empty (hC ⟨now, rfl⟩)
    | approve now a _ ha => exact hI.push ha
    | queue | queuePassed | veto | vetoPassed | execute | executePassed => exact hI

end Timelock
