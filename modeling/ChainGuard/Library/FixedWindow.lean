import Mathlib.Algebra.Order.Group.Nat
import Mathlib.Data.List.Pairwise
import ChainGuard.Library.History

/-! Limits on fixed windows. A counter admits at most so many in a window, and the first after the end of a
window opens the next one; so any interval as long as a window overlaps at most two of them. -/
namespace FixedWindow
open History
set_option autoImplicit false

universe u v

structure Window where
  start : ℕ
  count : ℕ

inductive Admits (length max : ℕ) (w : Window) (now : ℕ) : Window → Prop
  | opens : w.start + length ≤ now → Admits length max w now ⟨now, 1⟩
  | joins : now < w.start + length → w.count < max → Admits length max w now ⟨w.start, w.count + 1⟩

/-- The times at which something was admitted, newest first, and the window they lead to. -/
inductive Admitted (length max : ℕ) : List ℕ → Window → Prop
  | start (w : Window) : Admitted length max [] w
  | next {times : List ℕ} {w w' : Window} {now : ℕ} : Admitted length max times w → (∀ time ∈ times, time ≤ now) → Admits length max w now w' →
      Admitted length max (now :: times) w'

/-- The time is in the interval of that length from `start` on. -/
def within (length start time : ℕ) : Bool := start ≤ time && time ≤ start + length

/-- What was admitted in the window, and what was before it. -/
structure Parted (length max : ℕ) (w : Window) (current earlier : List ℕ) : Prop where
  length_le_count : current.length ≤ w.count
  length_le : current.length ≤ max
  current_lt : ∀ time ∈ current, time < w.start + length
  earlier_lt : ∀ time ∈ earlier, time < w.start
  opened : earlier ≠ [] → w.start ∈ current
  /-- No more than one window's worth is less than a window before its start. -/
  recent : earlier.countP (fun time => w.start ≤ time + length) ≤ max

variable {length max now : ℕ} {w w' : Window} {times current earlier : List ℕ}

theorem Parted.opens (h : Parted length max w current earlier) (hmax : 1 ≤ max) (hlength : 0 < length)
    (hend : w.start + length ≤ now) : Parted length max ⟨now, 1⟩ [now] (current ++ earlier) where
  length_le_count := le_rfl
  length_le := hmax
  current_lt := by
    intro time htime
    rw [List.mem_singleton.mp htime]
    exact Nat.lt_add_of_pos_right hlength
  earlier_lt := by
    intro time htime
    rcases List.mem_append.mp htime with hcurrent | hearlier
    · exact (h.current_lt time hcurrent).trans_le hend
    · exact ((h.earlier_lt time hearlier).trans_le (Nat.le_add_right _ _)).trans_le hend
  opened := fun _ => List.mem_singleton_self now
  recent := by
    have hnone : earlier.countP (fun time => now ≤ time + length) = 0 := by
      refine List.countP_eq_zero.mpr fun time htime hrecent => ?_
      have hlt := h.earlier_lt time htime
      have hle : now ≤ time + length := of_decide_eq_true hrecent
      omega
    rw [List.countP_append, hnone]
    exact List.countP_le_length.trans h.length_le

theorem Parted.joins (h : Parted length max w current earlier) (hnow : now < w.start + length)
    (hcount : w.count < max) : Parted length max ⟨w.start, w.count + 1⟩ (now :: current) earlier where
  length_le_count := Nat.succ_le_succ h.length_le_count
  length_le := by
    have hle := h.length_le_count
    rw [List.length_cons]
    omega
  current_lt := by
    intro time htime
    rcases List.mem_cons.mp htime with rfl | htime
    · exact hnow
    · exact h.current_lt time htime
  earlier_lt := h.earlier_lt
  opened := fun hne => List.mem_cons_of_mem now (h.opened hne)
  recent := h.recent

/-- The times fall into those of the window and those before it. -/
theorem Admitted.parted (h : Admitted length max times w) (hmax : 1 ≤ max) (hlength : 0 < length) :
    ∃ current earlier, times = current ++ earlier ∧ Parted length max w current earlier := by
  induction h with
  | start w =>
    refine ⟨[], [], rfl, Nat.zero_le _, Nat.zero_le _, nofun, nofun, fun hne => absurd rfl hne, ?_⟩
    rw [List.countP_nil]
    exact Nat.zero_le _
  | next _ _ hadmits ih =>
    obtain ⟨current, earlier, rfl, hparted⟩ := ih
    cases hadmits with
    | opens hend => exact ⟨[_], current ++ earlier, rfl, hparted.opens hmax hlength hend⟩
    | joins hnow hcount => exact ⟨_ :: current, earlier, rfl, hparted.joins hnow hcount⟩

/-- An interval that reaches the newest time holds no more than two windows' worth. -/
theorem Parted.countP_le (h : Parted length max w current earlier) {start : ℕ}
    (hnewest : ∀ time ∈ current, time ≤ start + length) :
    (current ++ earlier).countP (within length start) ≤ 2 * max := by
  have hcurrent : current.countP (within length start) ≤ max := List.countP_le_length.trans h.length_le
  have hearlier : earlier.countP (within length start) ≤ max := by
    refine le_trans (List.countP_mono_left fun time htime hwithin => ?_) h.recent
    have hopened := hnewest w.start (h.opened (List.ne_nil_of_mem htime))
    simp only [within, Bool.and_eq_true, decide_eq_true_eq] at hwithin
    exact decide_eq_true (by omega)
  rw [List.countP_append]
  omega

/-- In every interval as long as a window no more are admitted than in two windows. -/
theorem Admitted.countP_le (h : Admitted length max times w) (hmax : 1 ≤ max) (hlength : 0 < length) (start : ℕ) :
    times.countP (within length start) ≤ 2 * max := by
  induction h with
  | start w =>
    rw [List.countP_nil]
    exact Nat.zero_le _
  | @next times w w' now hadmitted hnow hadmits ih =>
    by_cases hreaches : now ≤ start + length
    · obtain ⟨current, earlier, heq, hparted⟩ := (hadmitted.next hnow hadmits).parted hmax hlength
      rw [heq]
      refine hparted.countP_le fun time htime => ?_
      have hmem : time ∈ now :: times := heq ▸ List.mem_append_left earlier htime
      rcases List.mem_cons.mp hmem with rfl | htime
      · exact hreaches
      · exact (hnow time htime).trans hreaches
    · rw [List.countP_cons_of_neg]
      · exact ih
      · simp only [within, Bool.and_eq_true, decide_eq_true_eq, not_and]
        exact fun _ => hreaches

/-! ## Runs -/

section Runs
variable {σ : Type u} {ι : Type v} {window : σ → Window} {admitted : Transition σ ι → Option ℕ}

/-- What a transition does to a window, by the time of what it admits there. -/
inductive Effect (length max : ℕ) (window : σ → Window) (admitted : Transition σ ι → Option ℕ)
    (t : Transition σ ι) : Prop
  | kept : admitted t = none → window t.post = window t.pre → Effect length max window admitted t
  | admits (now : ℕ) : admitted t = some now → Admits length max (window t.pre) now (window t.post) →
      Effect length max window admitted t

/-- Along a run in which time does not go back, the window is that of the times admitted. -/
theorem admitted_of_run {init : σ → Prop} {step : σ → ι → σ → Prop} {hist : List (Transition σ ι)} {s : σ}
    (h : Run init step hist s) (heffect : ∀ t ∈ hist, Effect length max window admitted t)
    (hsorted : (hist.filterMap admitted).Pairwise (· ≥ ·)) :
    Admitted length max (hist.filterMap admitted) (window s) := by
  induction h with
  | start _ => exact .start _
  | @next hist s s' i _ _ ih =>
    have hrest := fun t ht => heffect t (List.mem_cons_of_mem _ ht)
    cases heffect _ (List.mem_cons_self ..) with
    | kept hnone hkept =>
      rw [List.filterMap_cons_none hnone] at hsorted ⊢
      have hkept : window s' = window s := hkept
      rw [hkept]
      exact ih hrest hsorted
    | admits now hsome hadmits =>
      rw [List.filterMap_cons_some hsome] at hsorted ⊢
      obtain ⟨hnewest, hsorted⟩ := List.pairwise_cons.mp hsorted
      exact .next (ih hrest hsorted) hnewest hadmits

end Runs
end FixedWindow
