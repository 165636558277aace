import Mathlib.Data.List.Nodup

/-! A list of members kept next to a membership flag per candidate, and the removal of a
member by swapping the last one into its place. -/
namespace Tally
set_option autoImplicit false

variable {α : Type*} [DecidableEq α]

/-- The list has no duplicates and holds exactly the flagged candidates. -/
structure Counts (flag : α → Bool) (members : List α) : Prop where
  nodup : members.Nodup
  mem_iff : ∀ a, a ∈ members ↔ flag a = true

omit [DecidableEq α] in
theorem Counts.empty {flag : α → Bool} (h : ∀ a, flag a = false) : Counts flag [] :=
  ⟨List.nodup_nil, fun a => by simp [h a]⟩

/-- Flagging an unflagged candidate goes with appending it. -/
theorem Counts.push {flag : α → Bool} {members : List α} (h : Counts flag members) {a : α}
    (ha : flag a = false) : Counts (Function.update flag a true) (members ++ [a]) := by
  have hnot : a ∉ members := by
    rw [h.mem_iff, ha]
    simp
  refine ⟨?_, ?_⟩
  · rw [List.nodup_append]
    refine ⟨h.nodup, List.nodup_singleton a, ?_⟩
    intro x hx y hy hxy
    rw [List.mem_singleton] at hy
    exact hnot (hy ▸ hxy ▸ hx)
  · intro b
    by_cases hb : b = a
    · subst hb
      simp
    · simp [h.mem_iff b, hb]

/-! ## Swap with the last and pop -/

/-- The first `a` of the list is overwritten by the last entry, which is then popped. -/
def swapRemove (l : List α) (a : α) : List α :=
  match l.idxOf? a, l.getLast? with
  | some i, some last => (l.set i last).dropLast
  | _, _ => l

theorem swapRemove_not_mem {l : List α} {a : α} (h : a ∉ l) : swapRemove l a = l := by
  have hi : l.idxOf? a = none := List.idxOf?_eq_none_iff.mpr h
  simp [swapRemove, hi]

theorem idxOf?_first {pre post : List α} {a : α} (h : a ∉ pre) :
    (pre ++ a :: post).idxOf? a = some pre.length := by
  induction pre with
  | nil => simp [List.idxOf?_cons]
  | cons x pre ih =>
    have hx : x ≠ a := fun e => h (e ▸ List.mem_cons_self ..)
    have hrest : a ∉ pre := fun m => h (List.mem_cons_of_mem x m)
    rw [List.cons_append, List.idxOf?_cons, ih hrest]
    simp [hx]

/-- Up to order, swapping and popping erases the member. -/
theorem swapRemove_perm (l : List α) (a : α) : (swapRemove l a).Perm (l.erase a) := by
  by_cases ha : a ∈ l
  · obtain ⟨pre, post, hpre, hl, he⟩ := List.exists_erase_eq ha
    rw [he, hl]
    rcases List.eq_nil_or_concat post with rfl | ⟨mid, last, rfl⟩
    · have hs : swapRemove (pre ++ [a]) a = pre := by
        simp [swapRemove, idxOf?_first hpre]
      rw [hs, List.append_nil]
    · have hs : swapRemove (pre ++ a :: mid.concat last) a = pre ++ last :: mid := by
        have hlast : (pre ++ a :: (mid ++ [last])).getLast? = some last := by
          rw [← List.cons_append, ← List.append_assoc, List.getLast?_concat]
        simp only [List.concat_eq_append, swapRemove, idxOf?_first hpre, hlast]
        rw [List.set_append_right _ _ (Nat.le_refl _), Nat.sub_self, List.set_cons_zero,
          ← List.cons_append, ← List.append_assoc, List.dropLast_concat]
      rw [hs, List.concat_eq_append]
      exact List.Perm.append_left pre (List.perm_append_singleton last mid).symm
  · rw [swapRemove_not_mem ha, List.erase_of_not_mem ha]

theorem swapRemove_length {l : List α} {a : α} (h : a ∈ l) :
    (swapRemove l a).length + 1 = l.length := by
  rw [(swapRemove_perm l a).length_eq, List.length_erase_of_mem h]
  have := List.length_pos_of_mem h
  omega

theorem Counts.remove {flag : α → Bool} {members : List α} (h : Counts flag members) (a : α) :
    Counts (Function.update flag a false) (swapRemove members a) := by
  refine ⟨(swapRemove_perm members a).nodup_iff.mpr (h.nodup.erase a), fun b => ?_⟩
  rw [(swapRemove_perm members a).mem_iff, h.nodup.mem_erase_iff, h.mem_iff b]
  by_cases hb : b = a
  · subst hb
    simp
  · simp [hb]

/-! ## Counting -/

theorem countP_change {β : Type*} {l : List β} (hnd : l.Nodup) {i : β} (hi : i ∈ l) {p q : β → Bool}
    (h : ∀ j, j ≠ i → p j = q j) : l.countP p + (q i).toNat = l.countP q + (p i).toNat := by
  induction l with
  | nil => cases hi
  | cons x rest ih =>
    rw [List.countP_cons, List.countP_cons]
    rw [List.nodup_cons] at hnd
    by_cases hx : x = i
    · subst hx
      have hrest : rest.countP p = rest.countP q := by
        refine List.countP_congr fun j hj => ?_
        rw [h j fun e => hnd.1 (e ▸ hj)]
      rw [hrest]
      cases p x <;> cases q x <;> simp
    · have hmem : i ∈ rest := (List.mem_cons.mp hi).resolve_left fun e => hx e.symm
      have hrest := ih hnd.2 hmem
      rw [h x hx]
      omega

theorem countP_range_eq {p : ℕ → Bool} {m n : ℕ} (hmn : m ≤ n) (h : ∀ j, m ≤ j → p j = false) :
    (List.range n).countP p = (List.range m).countP p := by
  induction n with
  | zero => rw [Nat.le_zero.mp hmn]
  | succ n ih =>
    rcases Nat.eq_or_lt_of_le hmn with rfl | hlt
    · rfl
    · have hle := Nat.le_of_lt_succ hlt
      rw [List.range_succ, List.countP_append, ih hle]
      simp [h n hle]

theorem countP_range_change {p q : ℕ → Bool} {m n i : ℕ} (hmn : m ≤ n) (hi : i < n)
    (hout : ∀ j, m ≤ j → q j = false) (h : ∀ j, j ≠ i → p j = q j) :
    (List.range n).countP p + (q i).toNat = (List.range m).countP q + (p i).toNat := by
  rw [← countP_range_eq hmn hout]
  exact countP_change List.nodup_range (List.mem_range.mpr hi) h

end Tally
