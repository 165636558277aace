import Mathlib.Data.List.GetD
import Mathlib.Data.List.Sort

/-! Tasks that settle in any order. What each of them pushes is found in a list up to that order, what each
returns stands in its own place, and sorting by a key that tells the pushed apart forgets the order. -/
namespace Settlement
set_option autoImplicit false

universe u v

variable {α : Type u} {β : Type v} {n : ℕ} {order : List ℕ}

def settle (order : List ℕ) (task : ℕ → α → α) (s : α) : α := order.foldl (fun s i => task i s) s

/-! ## Pushed values -/

theorem settle_push {t : ℕ → α → α} {p : α → List β} {f : ℕ → Option β}
    (htask : ∀ i s, p (t i s) = p s ++ (f i).toList) (order : List ℕ) (s : α) :
    p (settle order t s) = p s ++ order.filterMap f := by
  induction order generalizing s with
  | nil => simp [settle]
  | cons i order ih =>
    have hstep : settle (i :: order) t s = settle order t (t i s) := rfl
    rw [hstep, ih, htask]
    cases hf : f i with
    | none => rw [List.filterMap_cons_none hf, Option.toList_none, List.append_nil]
    | some a => rw [List.filterMap_cons_some hf, Option.toList_some, List.append_assoc, List.singleton_append]

/-- Members in the order of a key that tells them apart. -/
theorem mergeSort_eq {k : α → ℕ} {l l' : List α} (hperm : l.Perm l') (hsorted : l'.Pairwise fun a b => k a < k b) :
    l.mergeSort (fun a b => decide (k a ≤ k b)) = l' := by
  have hmerged : (l.mergeSort fun a b => decide (k a ≤ k b)).Perm l' := (List.mergeSort_perm _ _).trans hperm
  refine @List.Perm.eq_of_pairwise α (fun a b => k a ≤ k b) _ _ ?_ ?_ (hsorted.imp Nat.le_of_lt) hmerged
  · intro a b ha hb hab hba
    have hnodup : (l'.map k).Nodup := List.pairwise_map.mpr (hsorted.imp Nat.ne_of_lt)
    exact List.inj_on_of_nodup_map hnodup (hmerged.mem_iff.mp ha) hb (Nat.le_antisymm hab hba)
  · refine (List.pairwise_mergeSort (fun a b c hab hbc => ?_) (fun a b => ?_) l).imp fun h => of_decide_eq_true h
    · exact decide_eq_true (Nat.le_trans (of_decide_eq_true hab) (of_decide_eq_true hbc))
    · simpa using Nat.le_total (k a) (k b)

/-! ## Returned values -/

theorem settle_slots_get {task : ℕ → List (Option β) → List (Option β)} {f : ℕ → Option β} {slots : List (Option β)}
    (htask : ∀ i ∈ order, ∀ slots, task i slots = slots.set i (f i)) {i : ℕ} (hi : i < slots.length) :
    (settle order task slots)[i]? = if i ∈ order then some (f i) else slots[i]? := by
  induction order generalizing slots with
  | nil => rfl
  | cons j order ih =>
    have hstep : settle (j :: order) task slots = settle order task (slots.set j (f j)) := by
      rw [← htask j List.mem_cons_self]
      rfl
    rw [hstep, ih (fun i hi => htask i (List.mem_cons_of_mem j hi)) (by rwa [List.length_set])]
    by_cases hmem : i ∈ order
    · simp [hmem]
    · by_cases hij : i = j
      · subst hij
        simp [hmem, hi]
      · simp [hmem, hij, Ne.symm hij]

theorem settle_slots_length {task : ℕ → List (Option β) → List (Option β)} {f : ℕ → Option β}
    {slots : List (Option β)} (htask : ∀ i ∈ order, ∀ slots, task i slots = slots.set i (f i)) :
    (settle order task slots).length = slots.length := by
  induction order generalizing slots with
  | nil => rfl
  | cons j order ih =>
    have hrest : (settle order task (task j slots)).length = (task j slots).length :=
      ih fun i hi => htask i (List.mem_cons_of_mem j hi)
    rw [htask j List.mem_cons_self, List.length_set] at hrest
    rw [← hrest, ← htask j List.mem_cons_self]
    rfl

theorem settle_slots {task : ℕ → List (Option β) → List (Option β)} {f : ℕ → Option β}
    (horder : order.Perm (List.range n)) (htask : ∀ i < n, ∀ slots, task i slots = slots.set i (f i)) :
    settle order task (List.replicate n none) = (List.range n).map f := by
  have htask : ∀ i ∈ order, ∀ slots, task i slots = slots.set i (f i) := fun i hi =>
    htask i (List.mem_range.mp (horder.mem_iff.mp hi))
  have hlength : (settle order task (List.replicate n none)).length = n :=
    (settle_slots_length htask).trans List.length_replicate
  refine List.ext_getElem? fun i => ?_
  by_cases hi : i < n
  · have hmem : i ∈ order := horder.mem_iff.mpr (List.mem_range.mpr hi)
    rw [settle_slots_get htask (by rwa [List.length_replicate]), if_pos hmem]
    simp [hi]
  · rw [List.getElem?_eq_none (by omega), List.getElem?_eq_none (by simpa using hi)]

end Settlement
