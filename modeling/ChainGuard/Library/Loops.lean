import Mathlib.Data.List.Range

/-! Counting loops over a state, with and without failure, and the rule that carries an invariant
through them; and a call for each member of a list. -/
namespace Loops
set_option autoImplicit false

universe u v

variable {σ : Type u} {ε : Type v} {P : ℕ → σ → Prop} {n : ℕ} {s : σ}

/-- `for (let i = 0; i < n; i++)`, where the body cannot throw. -/
def upTo (n : ℕ) (body : ℕ → σ → σ) (s : σ) : σ := (List.range n).foldl (fun s i => body i s) s

def tryUpTo (n : ℕ) (body : ℕ → σ → Except ε σ) (s : σ) : Except ε σ :=
  (List.range n).foldlM (fun s i => body i s) s

theorem upTo_succ (n : ℕ) (body : ℕ → σ → σ) (s : σ) : upTo (n + 1) body s = body n (upTo n body s) := by
  rw [upTo, List.range_succ, List.foldl_append]
  rfl

theorem tryUpTo_succ (n : ℕ) (body : ℕ → σ → Except ε σ) (s : σ) :
    tryUpTo (n + 1) body s = tryUpTo n body s >>= body n := by
  rw [tryUpTo, List.range_succ, List.foldlM_append]
  simp only [List.foldlM_cons, List.foldlM_nil, bind_pure]
  rfl

/-- A loop whose body takes no index may take its first round first. -/
theorem tryUpTo_const_succ (n : ℕ) (body : σ → Except ε σ) (s : σ) :
    tryUpTo (n + 1) (fun _ => body) s = body s >>= tryUpTo n fun _ => body := by
  induction n with
  | zero =>
    rw [tryUpTo_succ]
    exact (bind_pure (body s)).symm
  | succ n ih =>
    rw [tryUpTo_succ, ih, bind_assoc]
    exact bind_congr fun s' => (tryUpTo_succ n (fun _ => body) s').symm

theorem tryUpTo_ok (n : ℕ) (body : ℕ → σ → σ) (s : σ) :
    tryUpTo n (fun i s => .ok (body i s)) s = (.ok (upTo n body s) : Except ε σ) := by
  induction n with
  | zero => rfl
  | succ n ih =>
    rw [tryUpTo_succ, upTo_succ, ih]
    rfl

/-- What holds before the first round and is carried from each to the next holds after the last. -/
theorem upTo_spec {f : ℕ → σ → σ} (h0 : P 0 s) (hbody : ∀ i < n, ∀ s, P i s → P (i + 1) (f i s)) :
    P n (upTo n f s) := by
  induction n with
  | zero => exact h0
  | succ n ih =>
    rw [upTo_succ]
    exact hbody n (Nat.lt_succ_self n) _ (ih fun i hi => hbody i (Nat.lt_succ_of_lt hi))

theorem tryUpTo_spec {f : ℕ → σ → Except ε σ} (h0 : P 0 s)
    (hbody : ∀ i < n, ∀ s, P i s → ∃ s', f i s = .ok s' ∧ P (i + 1) s') :
    ∃ s', tryUpTo n f s = .ok s' ∧ P n s' := by
  induction n with
  | zero => exact ⟨s, rfl, h0⟩
  | succ n ih =>
    obtain ⟨s', hrun, hP⟩ := ih fun i hi => hbody i (Nat.lt_succ_of_lt hi)
    obtain ⟨s'', hlast, hP'⟩ := hbody n (Nat.lt_succ_self n) s' hP
    exact ⟨s'', by rw [tryUpTo_succ, hrun]; exact hlast, hP'⟩

/-- What every round that returns carries on holds of a result. -/
theorem tryUpTo_of_ok {f : ℕ → σ → Except ε σ} (h0 : P 0 s)
    (hbody : ∀ i < n, ∀ s s', P i s → f i s = .ok s' → P (i + 1) s') {s' : σ} (hrun : tryUpTo n f s = .ok s') : P n s' := by
  induction n generalizing s' with
  | zero =>
    obtain rfl := Except.ok.inj hrun
    exact h0
  | succ n ih =>
    rw [tryUpTo_succ] at hrun
    cases hprev : tryUpTo n f s with
    | error e =>
      rw [hprev] at hrun
      cases hrun
    | ok t =>
      rw [hprev] at hrun
      exact hbody n (Nat.lt_succ_self n) t s' (ih (fun i hi => hbody i (Nat.lt_succ_of_lt hi)) hprev) hrun

/-! ## Calls over a list -/

/-- A loop that collects the members that pass a check. -/
theorem foldlM_filter {α β : Type} {ε : Type v} {p : α → Except ε Bool} {q : α → Bool} {g : α → β} {l : List α}
    (h : ∀ a ∈ l, p a = .ok (q a)) (acc : List β) :
    l.foldlM (fun acc a => do return if ← p a then acc ++ [g a] else acc) acc =
      (.ok (acc ++ (l.filter q).map g) : Except ε (List β)) := by
  induction l generalizing acc with
  | nil => exact congrArg Except.ok (List.append_nil acc).symm
  | cons a l ih =>
    rw [List.foldlM_cons, h a List.mem_cons_self]
    refine (ih (fun a' ha' => h a' (List.mem_cons_of_mem a ha')) _).trans (congrArg Except.ok ?_)
    by_cases hq : q a = true
    · rw [if_pos hq, List.filter_cons_of_pos hq, List.map_cons, List.append_assoc, List.singleton_append]
    · rw [if_neg hq, List.filter_cons_of_neg hq]

/-- What every call of a list returns, if none fails. -/
theorem exists_mapM {α β ε : Type u} {f : α → Except ε β} {P : α → β → Prop} {l : List α}
    (h : ∀ a ∈ l, ∃ b, f a = .ok b ∧ P a b) : ∃ bs, l.mapM f = .ok bs ∧ List.Forall₂ P l bs := by
  induction l with
  | nil => exact ⟨[], rfl, .nil⟩
  | cons a l ih =>
    obtain ⟨b, hb, hP⟩ := h a List.mem_cons_self
    obtain ⟨bs, hbs, hall⟩ := ih fun a' ha' => h a' (List.mem_cons_of_mem a ha')
    refine ⟨b :: bs, ?_, .cons hP hall⟩
    rw [List.mapM_cons, hb]
    simp only [bind, Except.bind, hbs]
    rfl

/-- One call that fails makes the list fail. -/
theorem mapM_error {α β ε : Type u} {f : α → Except ε β} {e : ε} {l : List α} {a : α} (ha : a ∈ l)
    (h : f a = .error e) : ∃ e, l.mapM f = .error e := by
  induction l with
  | nil => cases ha
  | cons b l ih =>
    rw [List.mapM_cons]
    cases hb : f b with
    | error e' => exact ⟨e', rfl⟩
    | ok r =>
      have hmem : a ∈ l := (List.mem_cons.mp ha).resolve_left fun hab => by
        rw [← hab, h] at hb
        cases hb
      obtain ⟨e', he'⟩ := ih hmem
      refine ⟨e', ?_⟩
      simp only [bind, Except.bind, he']

theorem mapM_ok {α β ε : Type u} {f : α → Except ε β} {g : α → β} {l : List α} (h : ∀ a ∈ l, f a = .ok (g a)) :
    l.mapM f = .ok (l.map g) := by
  induction l with
  | nil => rfl
  | cons a l ih =>
    rw [List.mapM_cons, h a List.mem_cons_self, ih fun a' ha' => h a' (List.mem_cons_of_mem a ha')]
    rfl

theorem forM_ok {α ε : Type} {f : α → Except ε Unit} {l : List α} (h : ∀ a ∈ l, f a = .ok ()) :
    l.forM f = .ok () := by
  induction l with
  | nil => rfl
  | cons a l ih =>
    show (f a >>= fun _ => l.forM f) = .ok ()
    rw [h a List.mem_cons_self]
    exact ih fun a' ha' => h a' (List.mem_cons_of_mem a ha')

end Loops
