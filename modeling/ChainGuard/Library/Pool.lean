import Mathlib.Algebra.BigOperators.Finprod
import ChainGuard.Library.History

/-! Accounts in a book over one pool of money that pays for all of them. A charge larger than its
account empties the account and takes the rest from the pool alone: from then on the book says more
than the pool holds, by the sum of all such shortfalls. -/
namespace Pool
open History
set_option autoImplicit false

universe u v w

variable {σ : Type u} {ι : Type v} {α : Type w} [DecidableEq α]

/-- What moves money: a payment into an account or out of it, or a charge at its expense. -/
inductive Move (α : Type w)
  | credit (a : α) (n : ℕ)
  | debit (a : α) (n : ℕ)
  | charge (a : α) (n : ℕ)

/-- What the book says the pool owes. -/
noncomputable def total (book : α → ℕ) : ℕ := ∑ᶠ a, book a

omit [DecidableEq α] in
theorem total_zero : total (fun _ : α => 0) = 0 := finsum_zero

theorem support_update {book : α → ℕ} (hfin : (Function.support book).Finite) (a : α) (n : ℕ) :
    (Function.support (Function.update book a n)).Finite := by
  refine (hfin.insert a).subset ?_
  intro b hb
  by_cases hba : b = a
  · exact Or.inl hba
  · have hsame : Function.update book a n b = book b := Function.update_of_ne hba n book
    rw [Function.mem_support, hsame] at hb
    exact Or.inr hb

/-- Rewriting one account changes the total by that account. -/
theorem total_update {book : α → ℕ} (hfin : (Function.support book).Finite) (a : α) (n : ℕ) :
    total (Function.update book a n) + book a = total book + n := by
  have hbook : total book = ∑ b ∈ insert a hfin.toFinset, book b := by
    refine finsum_eq_sum_of_support_subset book ?_
    intro b hb
    exact Finset.mem_coe.mpr (Finset.mem_insert_of_mem (hfin.mem_toFinset.mpr hb))
  have hupdated : total (Function.update book a n) =
      ∑ b ∈ insert a hfin.toFinset, Function.update book a n b := by
    refine finsum_eq_sum_of_support_subset _ ?_
    intro b hb
    by_cases hba : b = a
    · exact Finset.mem_coe.mpr (hba ▸ Finset.mem_insert_self _ _)
    · have hsame : Function.update book a n b = book b := Function.update_of_ne hba n book
      rw [Function.mem_support, hsame] at hb
      exact Finset.mem_coe.mpr (Finset.mem_insert_of_mem (hfin.mem_toFinset.mpr hb))
  have ha : a ∈ insert a hfin.toFinset := Finset.mem_insert_self _ _
  rw [hbook, hupdated, Finset.sum_update_of_mem ha, ← Finset.sum_sdiff (Finset.singleton_subset_iff.mpr ha),
    Finset.sum_singleton]
  omega

section Runs
variable (book : σ → α → ℕ) (pool : σ → ℕ) (move : Transition σ ι → Option (Move α))

inductive Effect (t : Transition σ ι) : Prop
  | kept : move t = none → book t.post = book t.pre → pool t.post = pool t.pre → Effect t
  | credited (a : α) (n : ℕ) : move t = some (.credit a n) →
      book t.post = Function.update (book t.pre) a (book t.pre a + n) →
      pool t.post = pool t.pre + n → Effect t
  | debited (a : α) (n : ℕ) : move t = some (.debit a n) → n ≤ book t.pre a →
      book t.post = Function.update (book t.pre) a (book t.pre a - n) →
      pool t.post + n = pool t.pre → Effect t
  | charged (a : α) (n : ℕ) : move t = some (.charge a n) →
      book t.post = Function.update (book t.pre) a (book t.pre a - n) →
      pool t.post + n = pool t.pre → Effect t

/-- What a charge takes beyond its account. -/
def shortfall (t : Transition σ ι) : ℕ :=
  match move t with
  | some (.charge a n) => n - book t.pre a
  | _ => 0

def Covered (t : Transition σ ι) : Prop :=
  ∀ a n, move t = some (.charge a n) → n ≤ book t.pre a

def Deducted (t : Transition σ ι) : Prop :=
  ∀ a n, move t = some (.charge a n) → book t.post a + n = book t.pre a

structure Exceeds (hist : List (Transition σ ι)) (s : σ) : Prop where
  finite : (Function.support (book s)).Finite
  gap : total (book s) = pool s + (hist.map (shortfall book move)).sum

variable {book pool move} {init : σ → Prop} {step : σ → ι → σ → Prop}
  {hist : List (Transition σ ι)} {s : σ} {t : Transition σ ι}

omit [DecidableEq α] in
theorem covered_iff_shortfall : Covered book move t ↔ shortfall book move t = 0 := by
  unfold Covered shortfall
  constructor
  · intro h
    split
    · next a n hcharge => exact Nat.sub_eq_zero_of_le (h a n hcharge)
    · rfl
  · intro h a n hcharge
    rw [hcharge] at h
    exact Nat.le_of_sub_eq_zero h

omit [DecidableEq α] in
theorem deducted_iff_of_no_charge (h : ∀ a n, move t ≠ some (.charge a n)) :
    Deducted book move t ↔ Covered book move t :=
  ⟨fun _ a n hcharge => absurd hcharge (h a n), fun _ a n hcharge => absurd hcharge (h a n)⟩

/-- A charge is deducted in full exactly when its account covers it. -/
theorem Effect.deducted_iff (h : Effect book pool move t) : Deducted book move t ↔ Covered book move t := by
  cases h with
  | charged a n hmove hbook _ =>
    have hpost : book t.post a = book t.pre a - n := by rw [hbook, Function.update_self]
    constructor
    · intro h b m hcharge
      have hfull := h b m hcharge
      omega
    · intro h b m hcharge
      have hcovers := h b m hcharge
      rw [hmove] at hcharge
      cases hcharge
      omega
  | kept hmove _ _ => exact deducted_iff_of_no_charge fun _ _ => by simp [hmove]
  | credited _ _ hmove _ _ => exact deducted_iff_of_no_charge fun _ _ => by simp [hmove]
  | debited _ _ hmove _ _ _ => exact deducted_iff_of_no_charge fun _ _ => by simp [hmove]

theorem Exceeds.next (h : Exceeds book pool move hist t.pre) (heffect : Effect book pool move t) :
    Exceeds book pool move (t :: hist) t.post := by
  have hgap := h.gap
  have hsum : ((t :: hist).map (shortfall book move)).sum =
      shortfall book move t + (hist.map (shortfall book move)).sum := by
    rw [List.map_cons, List.sum_cons]
  cases heffect with
  | kept hmove hbook hpool =>
    have hnone : shortfall book move t = 0 := by rw [shortfall, hmove]
    refine ⟨hbook ▸ h.finite, ?_⟩
    rw [hsum, hnone, hbook, hpool]
    omega
  | credited a n hmove hbook hpool =>
    have hnone : shortfall book move t = 0 := by rw [shortfall, hmove]
    have htotal := total_update h.finite a (book t.pre a + n)
    refine ⟨hbook ▸ support_update h.finite a _, ?_⟩
    rw [hsum, hnone, hbook, hpool]
    omega
  | debited a n hmove hle hbook hpool =>
    have hnone : shortfall book move t = 0 := by rw [shortfall, hmove]
    have htotal := total_update h.finite a (book t.pre a - n)
    refine ⟨hbook ▸ support_update h.finite a _, ?_⟩
    rw [hsum, hnone, hbook]
    omega
  | charged a n hmove hbook hpool =>
    have hshort : shortfall book move t = n - book t.pre a := by rw [shortfall, hmove]
    have htotal := total_update h.finite a (book t.pre a - n)
    refine ⟨hbook ▸ support_update h.finite a _, ?_⟩
    rw [hsum, hshort, hbook]
    omega

theorem exceeds (h0 : ∀ s, init s → book s = (fun _ => 0) ∧ pool s = 0)
    (hs : ∀ hist s i s', Run init step hist s → step s i s' → Effect book pool move ⟨s, i, s'⟩)
    (h : Run init step hist s) : Exceeds book pool move hist s := by
  refine h.relates (R := Exceeds book pool move) ?_ ?_
  · intro s hi
    obtain ⟨hbook, hpool⟩ := h0 s hi
    refine ⟨?_, ?_⟩
    · rw [hbook]
      show (Function.support (0 : α → ℕ)).Finite
      rw [Function.support_zero]
      exact Set.finite_empty
    · rw [hbook, hpool, total_zero]
      rfl
  · intro hist s i s' hrun ih hstep
    exact ih.next (hs hist s i s' hrun hstep)

omit [DecidableEq α] in
theorem Exceeds.within_iff (h : Exceeds book pool move hist s) :
    total (book s) ≤ pool s ↔ ∀ t ∈ hist, Covered book move t := by
  have hnone : (hist.map (shortfall book move)).sum = 0 ↔ ∀ t ∈ hist, Covered book move t := by
    rw [List.sum_eq_zero_iff, List.forall_mem_map]
    exact forall₂_congr fun t _ => covered_iff_shortfall.symm
  rw [← hnone, h.gap]
  omega

end Runs
end Pool
