import Mathlib.Data.List.Basic

/-! Guarded programs in `Except`: a check either aborts with its fault or lets the rest run.
The rules peel a successful program apart into its checks and its result. Below them the
pointwise updates of nested mappings. -/
namespace Guarded
set_option autoImplicit false

variable {ε α β : Type}

/-- Abort with `e` when `c` holds. -/
def revertIf (c : Prop) [Decidable c] (e : ε) : Except ε Unit := if c then .error e else .ok ()

@[simp] theorem revertIf_bind (c : Prop) [Decidable c] (e : ε) (f : Unit → Except ε β) (r : β) :
    (revertIf c e >>= f) = .ok r ↔ ¬ c ∧ f () = .ok r := by
  unfold revertIf
  split
  · next h => simp [h, bind, Except.bind]
  · next h => simp [h, bind, Except.bind]

@[simp] theorem revertIf_ok (c : Prop) [Decidable c] (e : ε) (u : Unit) :
    revertIf c e = .ok u ↔ ¬ c := by
  unfold revertIf
  split
  · next h => simp [h]
  · next h => simp [h]

theorem bind_ok (x : Except ε α) (f : α → Except ε β) (r : β) :
    (x >>= f) = .ok r ↔ ∃ a, x = .ok a ∧ f a = .ok r := by
  cases x with
  | error e => simp [bind, Except.bind]
  | ok a => simp [bind, Except.bind]

theorem ok_bind (a : α) (f : α → Except ε β) : (Except.ok a >>= f) = f a := rfl

@[simp] theorem pure_ok (a r : α) : (pure a : Except ε α) = .ok r ↔ a = r := by
  simp [pure, Except.pure]

end Guarded

/-! ## Nested mappings -/

namespace Mapping
set_option autoImplicit false

variable {α β γ δ : Type*} [DecidableEq α] [DecidableEq β] [DecidableEq γ]

/-- `m[a][b] = v`. -/
def set₂ (m : α → β → δ) (a : α) (b : β) (v : δ) : α → β → δ :=
  fun x y => if x = a ∧ y = b then v else m x y

/-- `m[a][b][c] = v`. -/
def set₃ (m : α → β → γ → δ) (a : α) (b : β) (c : γ) (v : δ) : α → β → γ → δ :=
  fun x y z => if x = a ∧ y = b ∧ z = c then v else m x y z

theorem set₂_apply (m : α → β → δ) (a x : α) (b y : β) (v : δ) :
    set₂ m a b v x y = if x = a ∧ y = b then v else m x y := rfl

@[simp] theorem set₂_same (m : α → β → δ) (a : α) (b : β) (v : δ) : set₂ m a b v a b = v := by
  simp [set₂]

theorem set₂_row (m : α → β → δ) (a : α) (b : β) (v : δ) :
    set₂ m a b v a = Function.update (m a) b v := by
  funext y
  simp [set₂, Function.update_apply]

theorem set₂_other (m : α → β → δ) (a x : α) (b : β) (v : δ) (h : x ≠ a) :
    set₂ m a b v x = m x := by
  funext y
  simp [set₂, h]

theorem set₂_elsewhere (m : α → β → δ) (a x : α) (b y : β) (v : δ) (h : ¬ (x = a ∧ y = b)) :
    set₂ m a b v x y = m x y := if_neg h

/-- A flag is up once it is raised, or was up before. -/
theorem set₂_true_iff (m : α → β → Bool) (a x : α) (b y : β) :
    set₂ m a b true x y = true ↔ (a, b) = (x, y) ∨ m x y = true := by
  have hentry : (a, b) = (x, y) ↔ x = a ∧ y = b := by
    rw [Prod.mk.injEq, eq_comm, @eq_comm _ b]
  rw [hentry, set₂_apply]
  split_ifs with h <;> simp [h]

/-- A flag is up after another is lowered if it was up before. -/
theorem set₂_false_iff (m : α → β → Bool) (a x : α) (b y : β) :
    set₂ m a b false x y = true ↔ (a, b) ≠ (x, y) ∧ m x y = true := by
  have hentry : (a, b) = (x, y) ↔ x = a ∧ y = b := by
    rw [Prod.mk.injEq, eq_comm, @eq_comm _ b]
  rw [ne_eq, hentry, set₂_apply]
  split_ifs with h <;> simp [h]

theorem set₃_row (m : α → β → γ → δ) (a : α) (b : β) (c : γ) (v : δ) :
    set₃ m a b c v a b = Function.update (m a b) c v := by
  funext z
  simp [set₃, Function.update_apply]

theorem set₃_slice (m : α → β → γ → δ) (a : α) (b : β) (c : γ) (v : δ) :
    set₃ m a b c v a = Function.update (m a) b (Function.update (m a b) c v) := by
  funext y z
  by_cases hy : y = b
  · subst hy
    simp [set₃, Function.update_apply]
  · simp [set₃, hy]

theorem set₃_other (m : α → β → γ → δ) (a x : α) (b y : β) (c : γ) (v : δ) (h : ¬ (x = a ∧ y = b)) :
    set₃ m a b c v x y = m x y := by
  funext z
  have h' : ¬ (x = a ∧ y = b ∧ z = c) := fun e => h ⟨e.1, e.2.1⟩
  simp [set₃, h']

end Mapping
