import Mathlib.Data.List.Basic

/-! A table in memory that is saved as a whole after each mutation. The saves are queued, so that what is
saved lags behind the table by the mutations whose saves still wait. Nothing here depends on what the table
holds. -/
namespace WriteBehind
set_option autoImplicit false

universe u v w

/-- A mutation: by which call, of which key, and the value it leaves there. -/
structure Mutation (κ : Type u) (β : Type v) (ι : Type w) where
  call : ι
  key : κ
  value : Option β

variable {κ : Type u} {β : Type v} {ι : Type w} [DecidableEq κ]

/-- The table after mutations, newest first. -/
def applied (base : κ → Option β) : List (Mutation κ β ι) → κ → Option β
  | [] => base
  | m :: earlier => Function.update (applied base earlier) m.key m.value

/-- The saves that wait for the mutations `waiting`, newest first, after `saved`: a queue, oldest first. -/
def saves (base : κ → Option β) : List (Mutation κ β ι) → List (Mutation κ β ι) → List (ι × (κ → Option β))
  | [], _ => []
  | m :: waiting, saved =>
    saves base waiting saved ++ [(m.call, applied base (m :: waiting ++ saved))]

variable {base : κ → Option β} {waiting saved journal : List (Mutation κ β ι)} {m : Mutation κ β ι} {key : κ}

@[simp] theorem applied_cons :
    applied base (m :: journal) = Function.update (applied base journal) m.key m.value := rfl

/-- The newest mutation of a key decides what the table holds there. -/
theorem applied_eq_find (base : κ → Option β) (journal : List (Mutation κ β ι)) (key : κ) :
    applied base journal key =
      (journal.find? fun m => m.key = key).elim (base key) (·.value) := by
  induction journal with
  | nil => rfl
  | cons m earlier ih =>
    by_cases hkey : m.key = key
    · rw [List.find?_cons_of_pos (by simpa using hkey), applied_cons, ← hkey, Function.update_self]
      rfl
    · rw [List.find?_cons_of_neg (by simpa using hkey), applied_cons, Function.update_of_ne (Ne.symm hkey), ih]

/-- Mutations that are left out make no difference to a key whose newest mutation is not left out. -/
theorem applied_filter {keep : Mutation κ β ι → Bool}
    (h : ∀ m, (journal.find? fun m => m.key = key) = some m → keep m = true) :
    applied base (journal.filter keep) key = applied base journal key := by
  rw [applied_eq_find, applied_eq_find]
  congr 1
  induction journal with
  | nil => rfl
  | cons m earlier ih =>
    by_cases hkey : m.key = key
    · have hkept : keep m = true := h m (List.find?_cons_of_pos (by simpa using hkey))
      rw [List.filter_cons_of_pos hkept, List.find?_cons_of_pos (by simpa using hkey),
        List.find?_cons_of_pos (by simpa using hkey)]
    · have hrest := ih fun m' hm' => h m' ((List.find?_cons_of_neg (by simpa using hkey)).trans hm')
      rw [List.find?_cons_of_neg (by simpa using hkey), ← hrest]
      cases hkeep : keep m with
      | true => rw [List.filter_cons_of_pos hkeep, List.find?_cons_of_neg (by simpa using hkey)]
      | false => rw [List.filter_cons_of_neg (by simp [hkeep])]

/-- The save that is first in the queue takes in the oldest waiting mutation, and no other. -/
theorem saves_concat (base : κ → Option β) (waiting saved : List (Mutation κ β ι)) (m : Mutation κ β ι) :
    saves base (waiting ++ [m]) saved =
      (m.call, applied base (m :: saved)) :: saves base waiting (m :: saved) := by
  induction waiting with
  | nil => rfl
  | cons m' waiting ih =>
    simp only [List.cons_append, saves, ih, List.append_assoc, List.nil_append]

/-- Which mutation the first save of the queue is for. -/
theorem saves_eq_cons {call : ι} {table : κ → Option β} {rest : List (ι × (κ → Option β))}
    (h : saves base waiting saved = (call, table) :: rest) :
    ∃ m newer, waiting = newer ++ [m] ∧ m.call = call ∧ table = applied base (m :: saved) ∧
      rest = saves base newer (m :: saved) := by
  rcases List.eq_nil_or_concat' waiting with rfl | ⟨newer, m, rfl⟩
  · cases h
  · rw [saves_concat, List.cons.injEq, Prod.mk.injEq] at h
    obtain ⟨⟨hcall, htable⟩, hrest⟩ := h
    exact ⟨m, newer, rfl, hcall, htable.symm, hrest.symm⟩

theorem mem_saves {call : ι} {table : κ → Option β} (h : (call, table) ∈ saves base waiting saved) :
    ∃ m ∈ waiting, m.call = call := by
  induction waiting with
  | nil => cases h
  | cons m waiting ih =>
    rcases List.mem_append.mp h with hold | hnew
    · obtain ⟨m', hm', hcall⟩ := ih hold
      exact ⟨m', List.mem_cons_of_mem _ hm', hcall⟩
    · obtain ⟨rfl, _⟩ := Prod.mk.inj (List.mem_singleton.mp hnew)
      exact ⟨m, List.mem_cons_self .., rfl⟩

end WriteBehind
