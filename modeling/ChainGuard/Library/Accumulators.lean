import ChainGuard.Library.History
import Mathlib.Data.Multiset.Filter

/-! An accumulator with a counter beside it. A step may add a value to the one and count it in the other;
in every state of a run the accumulator stands for the values added so far, in whatever order they came,
just when each addition meets the condition under which it keeps what the accumulator stands for. -/
namespace Accumulators
open History
set_option autoImplicit false

universe u v w x y

variable {σ : Type u} {ι : Type v} {α : Type w} {β : Type x} {ε : Type y}

/-- What a transition does to the accumulator and the counter, by the value it adds. -/
inductive Effect (add : α → β → Except ε α) (acc : σ → α) (count : σ → ℕ) (added : Transition σ ι → Option β)
    (t : Transition σ ι) : Prop
  | kept : added t = none → acc t.post = acc t.pre → count t.post = count t.pre → Effect add acc count added t
  | adds (b : β) : added t = some b → add (acc t.pre) b = .ok (acc t.post) →
      count t.post = count t.pre + 1 → Effect add acc count added t

def addedIn (added : Transition σ ι → Option β) (hist : List (Transition σ ι)) : Multiset β :=
  (hist.filterMap added : List β)

def Stands (R : Multiset β → α → Prop) (acc : σ → α) (count : σ → ℕ) (values : Multiset β) (s : σ) : Prop :=
  count s = Multiset.card values ∧ R values (acc s)

variable {add : α → β → Except ε α} {acc : σ → α} {count : σ → ℕ} {added : Transition σ ι → Option β}
  {R : Multiset β → α → Prop} {C : α → β → Prop} {init : σ → Prop} {step : σ → ι → σ → Prop}
  {hist : List (Transition σ ι)} {s s' : σ} {t : Transition σ ι} {i : ι}

theorem addedIn_none (h : added t = none) : addedIn added (t :: hist) = addedIn added hist := by
  rw [addedIn, List.filterMap_cons_none h, addedIn]

theorem addedIn_some {b : β} (h : added t = some b) : addedIn added (t :: hist) = b ::ₘ addedIn added hist := by
  rw [addedIn, List.filterMap_cons_some h, addedIn, Multiset.cons_coe]

/-- One step. -/
theorem Effect.stands_iff (hadd : ∀ values a b a', R values a → add a b = .ok a' → (R (b ::ₘ values) a' ↔ C a b))
    (h : Effect add acc count added t) (hpre : Stands R acc count (addedIn added hist) t.pre) :
    Stands R acc count (addedIn added (t :: hist)) t.post ↔ ∀ b, added t = some b → C (acc t.pre) b := by
  obtain ⟨hcount, hR⟩ := hpre
  cases h with
  | kept hnone hacc hcounted =>
    rw [addedIn_none hnone, Stands, hacc, hcounted]
    simp [hnone, hcount, hR]
  | adds b hsome hok hcounted =>
    rw [addedIn_some hsome, Stands, hcounted, hcount, Multiset.card_cons, hadd _ _ _ _ hR hok]
    simp [hsome]

/-- Whole runs. -/
theorem stands_throughout_iff (h0 : ∀ s, init s → count s = 0 ∧ R 0 (acc s))
    (hs : ∀ s i s', step s i s' → Effect add acc count added ⟨s, i, s'⟩)
    (hadd : ∀ values a b a', R values a → add a b = .ok a' → (R (b ::ₘ values) a' ↔ C a b))
    (h : Run init step hist s) :
    (∀ early mid, Visits hist s early mid → Stands R acc count (addedIn added early) mid) ↔
      ∀ t ∈ hist, ∀ b, added t = some b → C (acc t.pre) b := by
  refine h.visited_iff (R := fun hist s => Stands R acc count (addedIn added hist) s)
    (C := fun t => ∀ b, added t = some b → C (acc t.pre) b) (fun s hi => h0 s hi) ?_
  intro hist s i s' _ hpre hstep
  exact (hs s i s' hstep).stands_iff hadd hpre

end Accumulators
