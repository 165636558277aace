import Mathlib.Data.List.Nodup
import ChainGuard.Library.History

/-! Tickets that are spent once. A system keeps a flag for every ticket and a step may spend one
that is not spent yet; along a run the flags are those it began with and the tickets it
spent, and no ticket is spent twice. -/
namespace Spending
open History
set_option autoImplicit false

universe u v w

variable {σ : Type u} {ι : Type v} {α : Type w} [DecidableEq α]

/-- What a transition does to the flags, by the ticket it spends. -/
inductive Effect (used : σ → α → Bool) (spent : Transition σ ι → Option α) (t : Transition σ ι) : Prop
  | kept : spent t = none → used t.post = used t.pre → Effect used spent t
  | spends (n : α) : spent t = some n → used t.pre n = false →
      used t.post = Function.update (used t.pre) n true → Effect used spent t

/-- The tickets spent in a history, newest first. -/
def spentIn (spent : Transition σ ι → Option α) (hist : List (Transition σ ι)) : List α :=
  hist.filterMap spent

variable {used : σ → α → Bool} {spent : Transition σ ι → Option α} {t : Transition σ ι}
  {init : σ → Prop} {step : σ → ι → σ → Prop} {hist : List (Transition σ ι)} {s : σ}
  {used₀ : α → Bool}

omit [DecidableEq α] in
theorem mem_spentIn_cons (n : α) :
    n ∈ spentIn spent (t :: hist) ↔ spent t = some n ∨ n ∈ spentIn spent hist := by
  rw [spentIn, List.filterMap_cons]
  cases hspent : spent t with
  | none => simp [spentIn]
  | some m => simp [spentIn, eq_comm]

theorem Effect.used_iff (h : Effect used spent t) (n : α) :
    used t.post n = true ↔ spent t = some n ∨ used t.pre n = true := by
  cases h with
  | kept hnone hkept => rw [hnone, hkept, or_iff_right (Option.some_ne_none n).symm]
  | spends m hsome _ hupdate =>
    rw [hsome, hupdate, Function.update_apply, Option.some.injEq]
    by_cases hn : n = m
    · simp [hn]
    · simp [hn, Ne.symm hn]

/-- A ticket is spent exactly when it was at the start or a transition spent it. -/
theorem used_iff (h0 : ∀ s, init s → used s = used₀)
    (hs : ∀ s i s', step s i s' → Effect used spent ⟨s, i, s'⟩) (h : Run init step hist s) (n : α) :
    used s n = true ↔ used₀ n = true ∨ n ∈ spentIn spent hist := by
  induction h with
  | start hi => rw [h0 _ hi, spentIn, List.filterMap_nil, or_iff_left List.not_mem_nil]
  | @next hist s s' i _ hstep ih =>
    rw [(hs s i s' hstep).used_iff, mem_spentIn_cons, ih, or_left_comm]

/-- No ticket is spent twice, nor one that was spent at the start. -/
theorem spent_once (h0 : ∀ s, init s → used s = used₀)
    (hs : ∀ s i s', step s i s' → Effect used spent ⟨s, i, s'⟩) (h : Run init step hist s) :
    (spentIn spent hist).Nodup := by
  induction h with
  | start _ => exact List.nodup_nil
  | @next hist s s' i hrun hstep ih =>
    cases hs s i s' hstep with
    | kept hnone _ =>
      rw [spentIn, List.filterMap_cons_none hnone]
      exact ih
    | spends n hsome hfresh _ =>
      rw [spentIn, List.filterMap_cons_some hsome]
      refine List.nodup_cons.mpr ⟨fun hmem => ?_, ih⟩
      have hused : used s n = true := (used_iff h0 hs hrun n).mpr (Or.inr hmem)
      rw [hfresh] at hused
      cases hused

theorem ne_earlier (h0 : ∀ s, init s → used s = used₀)
    (hs : ∀ s i s', step s i s' → Effect used spent ⟨s, i, s'⟩) (h : Run init step hist s)
    {earlier : List (Transition σ ι)} (hsuffix : t :: earlier <:+ hist) {u : Transition σ ι}
    (hu : u ∈ earlier) {m n : α} (hm : spent u = some m) (hn : spent t = some n) : m ≠ n := by
  obtain ⟨hrun, hstep⟩ := h.suffix_step hsuffix
  have honce := spent_once h0 hs (hrun.next hstep)
  rw [spentIn, List.filterMap_cons_some hn] at honce
  rintro rfl
  exact (List.nodup_cons.mp honce).1 (List.mem_filterMap.mpr ⟨u, hu, hm⟩)

/-! ## Statements that are spent through a ticket -/

section Statements
variable {β : Type*}

/-- No transition makes a statement that an earlier one made already, up to `R`. -/
def StatementsOnce (states : Transition σ ι → Option β) (R : β → β → Prop)
    (hist : List (Transition σ ι)) : Prop :=
  ∀ t earlier, t :: earlier <:+ hist → ∀ u ∈ earlier, ∀ a b, states u = some a → states t = some b → ¬ R a b

/-- Statements that are the same up to `R` carry the same ticket. -/
def OneTicket (states : Transition σ ι → Option β) (R : β → β → Prop) (ticket : β → α)
    (hist : List (Transition σ ι)) : Prop :=
  ∀ t earlier, t :: earlier <:+ hist → ∀ u ∈ earlier, ∀ a b, states u = some a → states t = some b → R a b →
    ticket a = ticket b

/-- Where a statement spends its ticket, the statements of a run are made once exactly when equivalent
ones carry one ticket. -/
theorem statementsOnce_iff {states : Transition σ ι → Option β} {R : β → β → Prop} {ticket : β → α}
    (hticket : ∀ s i s' b, step s i s' → states ⟨s, i, s'⟩ = some b → spent ⟨s, i, s'⟩ = some (ticket b))
    (h0 : ∀ s, init s → used s = used₀) (hs : ∀ s i s', step s i s' → Effect used spent ⟨s, i, s'⟩)
    (h : Run init step hist s) :
    StatementsOnce states R hist ↔ OneTicket states R ticket hist := by
  constructor
  · intro honce t earlier hsuffix u hu a b ha hb hR
    exact absurd hR (honce t earlier hsuffix u hu a b ha hb)
  · intro hone t earlier hsuffix u hu a b ha hb hR
    obtain ⟨hrun, hstep⟩ := h.suffix_step hsuffix
    obtain ⟨_, _, _, hstep'⟩ := hrun.of_mem hu
    have hsame := hone t earlier hsuffix u hu a b ha hb hR
    exact ne_earlier h0 hs h hsuffix hu (hticket _ _ _ _ hstep' ha) (hticket _ _ _ _ hstep hb) hsame

end Statements

/-! ## Messages that are delivered again and again -/

omit [DecidableEq α] in
theorem not_nodup_of_spent {t u : Transition σ ι} (ht : t ∈ hist) (hu : u ∈ hist) (hne : t ≠ u) {n : α}
    (htn : spent t = some n) (hun : spent u = some n) : ¬ (spentIn spent hist).Nodup := by
  induction hist with
  | nil => cases ht
  | cons v rest ih =>
    intro hnodup
    rw [spentIn, List.filterMap_cons] at hnodup
    rcases List.mem_cons.mp ht with rfl | htrest
    · have hmem : n ∈ spentIn spent rest :=
        List.mem_filterMap.mpr ⟨u, (List.mem_cons.mp hu).resolve_left (Ne.symm hne), hun⟩
      rw [htn] at hnodup
      exact (List.nodup_cons.mp hnodup).1 hmem
    · rcases List.mem_cons.mp hu with rfl | hurest
      · rw [hun] at hnodup
        exact (List.nodup_cons.mp hnodup).1 (List.mem_filterMap.mpr ⟨t, htrest, htn⟩)
      · refine ih htrest hurest ?_
        cases hv : spent v with
        | none =>
          rw [hv] at hnodup
          exact hnodup
        | some m =>
          rw [hv] at hnodup
          exact (List.nodup_cons.mp hnodup).2

section Deliveries
variable {M : Type*}

/-- A message is delivered with a ticket for its content: it is received, or its ticket is spent already. -/
structure Delivers (used : σ → α → Bool) (spent : Transition σ ι → Option α)
    (delivered : Transition σ ι → Option (M × α)) (t : Transition σ ι) : Prop where
  spends : ∀ m n, delivered t = some (m, n) → spent t = some n ∨ used t.pre n = true
  delivered_of_spent : ∀ n, spent t = some n → ∃ m, delivered t = some (m, n)

def receivedOf (spent : Transition σ ι → Option α) (delivered : Transition σ ι → Option (M × α))
    (t : Transition σ ι) : Option (M × α) := if (spent t).isSome then delivered t else none

def AllReceived (spent : Transition σ ι → Option α) (delivered : Transition σ ι → Option (M × α))
    (hist : List (Transition σ ι)) : Prop :=
  ∀ t ∈ hist, ∀ u ∈ hist, ∀ a b, delivered t = some a → delivered u = some b → a.1 ≠ b.1 →
    (∃ t' ∈ hist, receivedOf spent delivered t' = some a) ∧ ∃ u' ∈ hist, receivedOf spent delivered u' = some b

/-- Different messages that are delivered have different contents. -/
def DistinctTickets (delivered : Transition σ ι → Option (M × α)) (hist : List (Transition σ ι)) : Prop :=
  ∀ t ∈ hist, ∀ u ∈ hist, ∀ a b, delivered t = some a → delivered u = some b → a.1 ≠ b.1 → a.2 ≠ b.2

def TicketOf (delivered : Transition σ ι → Option (M × α)) (hist : List (Transition σ ι)) : Prop :=
  ∀ t ∈ hist, ∀ u ∈ hist, ∀ a b, delivered t = some a → delivered u = some b → a.1 = b.1 → a.2 = b.2

variable {delivered : Transition σ ι → Option (M × α)}

omit [DecidableEq α] in
theorem receivedOf_eq_some {a : M × α} (hd : Delivers used spent delivered t)
    (h : receivedOf spent delivered t = some a) : spent t = some a.2 ∧ delivered t = some a := by
  rw [receivedOf, Option.ite_none_right_eq_some] at h
  obtain ⟨hsome, hdelivered⟩ := h
  obtain ⟨n, hn⟩ := Option.isSome_iff_exists.mp hsome
  obtain ⟨m, hm⟩ := hd.delivered_of_spent n hn
  rw [hdelivered, Option.some.injEq] at hm
  exact ⟨by rw [hn, hm], hdelivered⟩

/-- A delivered message's ticket is spent, by whatever message carried it first. -/
theorem received_of_delivered (h0 : ∀ s, init s → used s = fun _ => false)
    (hs : ∀ s i s', step s i s' → Effect used spent ⟨s, i, s'⟩)
    (hd : ∀ s i s', step s i s' → Delivers used spent delivered ⟨s, i, s'⟩) (h : Run init step hist s)
    (ht : t ∈ hist) {a : M × α} (ha : delivered t = some a) :
    ∃ u ∈ hist, ∃ b, receivedOf spent delivered u = some b ∧ b.2 = a.2 := by
  have hreceived : ∀ u ∈ hist, ∀ n, spent u = some n → ∃ b, receivedOf spent delivered u = some b ∧ b.2 = n := by
    intro u hu n hn
    obtain ⟨_, _, _, hstep⟩ := h.of_mem hu
    obtain ⟨m, hm⟩ := (hd _ _ _ hstep).delivered_of_spent n hn
    exact ⟨(m, n), by rw [receivedOf, hn, Option.isSome_some, if_pos rfl, hm], rfl⟩
  obtain ⟨earlier, hsuffix, hrun, hstep⟩ := h.of_mem ht
  rcases (hd _ _ _ hstep).spends a.1 a.2 ha with hspent | hused
  · exact ⟨t, ht, hreceived t ht _ hspent⟩
  · rw [used_iff h0 hs hrun, or_iff_right (by simp)] at hused
    obtain ⟨u, hu, hspent⟩ := List.mem_filterMap.mp hused
    have hmem : u ∈ hist := hsuffix.subset (List.mem_cons_of_mem _ hu)
    exact ⟨u, hmem, hreceived u hmem _ hspent⟩

theorem receives_once (h0 : ∀ s, init s → used s = used₀)
    (hs : ∀ s i s', step s i s' → Effect used spent ⟨s, i, s'⟩)
    (hd : ∀ s i s', step s i s' → Delivers used spent delivered ⟨s, i, s'⟩) (h : Run init step hist s)
    (hticket : TicketOf delivered hist) :
    StatementsOnce (receivedOf spent delivered) (fun a b => a.1 = b.1) hist := by
  have hspends : ∀ s i s' b, step s i s' → receivedOf spent delivered ⟨s, i, s'⟩ = some b →
      spent ⟨s, i, s'⟩ = some b.2 := fun _ _ _ _ hstep hb => (receivedOf_eq_some (hd _ _ _ hstep) hb).1
  refine (statementsOnce_iff hspends h0 hs h).mpr ?_
  intro t earlier hsuffix u hu a b ha hb hsame
  have ht : t ∈ hist := hsuffix.subset (List.mem_cons_self ..)
  have hu : u ∈ hist := hsuffix.subset (List.mem_cons_of_mem _ hu)
  obtain ⟨_, _, _, hstep⟩ := h.of_mem ht
  obtain ⟨_, _, _, hstep'⟩ := h.of_mem hu
  exact hticket u hu t ht a b (receivedOf_eq_some (hd _ _ _ hstep') ha).2 (receivedOf_eq_some (hd _ _ _ hstep) hb).2 hsame

/-- Different messages are all received exactly when they have different contents. -/
theorem allReceived_iff (h0 : ∀ s, init s → used s = fun _ => false)
    (hs : ∀ s i s', step s i s' → Effect used spent ⟨s, i, s'⟩)
    (hd : ∀ s i s', step s i s' → Delivers used spent delivered ⟨s, i, s'⟩) (h : Run init step hist s) :
    AllReceived spent delivered hist ↔ DistinctTickets delivered hist := by
  have hdelivers : ∀ t ∈ hist, Delivers used spent delivered t := by
    intro t ht
    obtain ⟨_, _, _, hstep⟩ := h.of_mem ht
    exact hd _ _ _ hstep
  constructor
  · intro hall t ht u hu a b ha hb hne hsame
    obtain ⟨⟨t', ht', hreceived⟩, u', hu', hreceived'⟩ := hall t ht u hu a b ha hb hne
    obtain ⟨hspent, hdelivered⟩ := receivedOf_eq_some (hdelivers t' ht') hreceived
    obtain ⟨hspent', hdelivered'⟩ := receivedOf_eq_some (hdelivers u' hu') hreceived'
    -- two receptions of one content are one transition
    have hnodup := spent_once h0 hs h
    rw [hsame] at hspent
    have hsingle : t' = u' := by
      by_contra hdiffer
      exact absurd hnodup (not_nodup_of_spent ht' hu' hdiffer hspent hspent')
    rw [hsingle, hdelivered', Option.some.injEq] at hdelivered
    exact hne (congrArg Prod.fst hdelivered).symm
  · intro hdistinct t ht u hu a b ha hb _
    have hown : ∀ v ∈ hist, ∀ c, delivered v = some c → ∃ v' ∈ hist, receivedOf spent delivered v' = some c := by
      intro v hv c hc
      obtain ⟨v', hv', d, hreceived, hsame⟩ := received_of_delivered h0 hs hd h hv hc
      have hd' := (receivedOf_eq_some (hdelivers v' hv') hreceived).2
      by_cases hid : d.1 = c.1
      · have heq : d = c := Prod.ext hid hsame
        exact ⟨v', hv', heq ▸ hreceived⟩
      · exact absurd hsame (hdistinct v' hv' v hv d c hd' hc hid)
    exact ⟨hown t ht a ha, hown u hu b hb⟩

end Deliveries

end Spending
