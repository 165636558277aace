import Mathlib.Data.List.Basic

/-! A queue of chunks whose elements are taken from the front: what is left of it, with the empty chunks that it
still has. And a list cut into pieces of one length, of which the last is shorter. -/
namespace ChunkQueue
set_option autoImplicit false

universe u

variable {α : Type u}

/-- What is left when `n` elements have been taken, and with them the chunks they were the last of. -/
def drained : ℕ → List (List α) → List (List α)
  | 0, cs => cs
  | _ + 1, [] => []
  | n + 1, c :: cs => if c.length ≤ n + 1 then drained (n + 1 - c.length) cs else c.drop (n + 1) :: cs

@[simp] theorem drained_zero (cs : List (List α)) : drained 0 cs = cs := by rw [drained]

@[simp] theorem drained_nil (n : ℕ) : drained n ([] : List (List α)) = [] := by cases n <;> rw [drained]

theorem drained_cons_le {n : ℕ} (hn : 0 < n) {c : List α} (hc : c.length ≤ n) (cs : List (List α)) :
    drained n (c :: cs) = drained (n - c.length) cs := by
  obtain ⟨m, rfl⟩ := Nat.exists_eq_succ_of_ne_zero (Nat.ne_of_gt hn)
  rw [drained, if_pos hc]

theorem drained_cons_lt {n : ℕ} (hn : 0 < n) {c : List α} (hc : n < c.length) (cs : List (List α)) :
    drained n (c :: cs) = c.drop n :: cs := by
  obtain ⟨m, rfl⟩ := Nat.exists_eq_succ_of_ne_zero (Nat.ne_of_gt hn)
  rw [drained, if_neg (Nat.not_le.mpr hc)]

theorem drained_flatten (n : ℕ) (cs : List (List α)) : (drained n cs).flatten = cs.flatten.drop n := by
  induction cs generalizing n with
  | nil => simp
  | cons c cs ih =>
    rcases Nat.eq_zero_or_pos n with rfl | hn
    · rw [drained_zero, List.drop_zero]
    rcases Nat.lt_or_ge n c.length with hc | hc
    · rw [drained_cons_lt hn hc, List.flatten_cons, List.flatten_cons, List.drop_append_of_le_length (Nat.le_of_lt hc)]
    · rw [drained_cons_le hn hc, ih, List.flatten_cons, List.drop_append, List.drop_of_length_le hc, List.nil_append]

theorem drained_append {n : ℕ} {cs : List (List α)} (hn : n ≤ cs.flatten.length) (ds : List (List α)) :
    drained n (cs ++ ds) = drained n cs ++ ds := by
  induction cs generalizing n with
  | nil =>
    rw [List.flatten_nil, List.length_nil, Nat.le_zero] at hn
    rw [hn, drained_zero, drained_zero]
  | cons c cs ih =>
    rcases Nat.eq_zero_or_pos n with rfl | hpos
    · rw [drained_zero, drained_zero]
    rw [List.flatten_cons, List.length_append] at hn
    rcases Nat.lt_or_ge n c.length with hc | hc
    · rw [List.cons_append, drained_cons_lt hpos hc, drained_cons_lt hpos hc, List.cons_append]
    · rw [List.cons_append, drained_cons_le hpos hc, drained_cons_le hpos hc, ih (by omega)]

theorem drained_drained (m n : ℕ) (cs : List (List α)) : drained m (drained n cs) = drained (n + m) cs := by
  induction cs generalizing n with
  | nil => rw [drained_nil, drained_nil, drained_nil]
  | cons c cs ih =>
    rcases Nat.eq_zero_or_pos n with rfl | hn
    · rw [drained_zero, Nat.zero_add]
    rcases Nat.lt_or_ge n c.length with hc | hc
    · rw [drained_cons_lt hn hc]
      rcases Nat.eq_zero_or_pos m with rfl | hm
      · rw [drained_zero, Nat.add_zero, drained_cons_lt hn hc]
      rcases Nat.lt_or_ge (n + m) c.length with hsum | hsum
      · rw [drained_cons_lt hm (by rw [List.length_drop]; omega), drained_cons_lt (by omega) hsum, List.drop_drop]
      · rw [drained_cons_le hm (by rw [List.length_drop]; omega), drained_cons_le (by omega) hsum, List.length_drop]
        congr 1
        omega
    · rw [drained_cons_le hn hc, ih, drained_cons_le (by omega) (by omega)]
      congr 1
      omega

/-- Taking everything leaves nothing unless the last chunk is empty. -/
theorem drained_all_iff (cs : List (List α)) : drained cs.flatten.length cs = [] ↔ cs.getLast? ≠ some [] := by
  induction cs with
  | nil => exact iff_of_true (drained_nil _) (by simp)
  | cons c cs ih =>
    rw [List.flatten_cons, List.length_append]
    rcases Nat.eq_zero_or_pos (c.length + cs.flatten.length) with hzero | hpos
    · -- every chunk is empty, and so is the last
      rw [hzero, drained_zero]
      refine iff_of_false (List.cons_ne_nil _ _) (not_not.mpr ?_)
      have hall : ∀ d ∈ c :: cs, d = [] := by
        intro d hd
        rcases List.mem_cons.mp hd with rfl | hd
        · exact List.length_eq_zero_iff.mp (by omega)
        · exact List.flatten_eq_nil_iff.mp (List.length_eq_zero_iff.mp (by omega)) d hd
      rw [List.getLast?_eq_some_getLast (List.cons_ne_nil c cs), hall _ (List.getLast_mem _)]
    · rw [drained_cons_le hpos (by omega), Nat.add_sub_cancel_left, ih]
      cases cs with
      | nil =>
        have hne : c ≠ [] := List.ne_nil_of_length_pos (by simpa using hpos)
        simp [hne]
      | cons d cs => rw [List.getLast?_cons_cons]

/-! ## Pieces -/

/-- `p` in pieces of `n` elements, with a last one of fewer, which may be empty. -/
def pieces (n : ℕ) (p : List α) : List (List α) :=
  (List.range (p.length / n + 1)).map fun i => (p.drop (i * n)).take n

variable {n : ℕ} {p : List α}

theorem pieces_length (n : ℕ) (p : List α) : (pieces n p).length = p.length / n + 1 := by
  rw [pieces, List.length_map, List.length_range]

theorem pieces_of_lt (h : p.length < n) : pieces n p = [p] := by
  rw [pieces, Nat.div_eq_of_lt h]
  simp [List.take_of_length_le (Nat.le_of_lt h)]

theorem pieces_of_le (hn : 0 < n) (h : n ≤ p.length) : pieces n p = p.take n :: pieces n (p.drop n) := by
  have hquotient : p.length / n = (p.drop n).length / n + 1 := by rw [List.length_drop, ← Nat.div_eq_sub_div hn h]
  rw [pieces, hquotient, List.range_succ_eq_map, List.map_cons, List.map_map, Nat.zero_mul, List.drop_zero, pieces]
  congr 1
  refine List.map_congr_left fun i _ => ?_
  rw [Function.comp_apply, List.drop_drop, Nat.succ_mul, Nat.add_comm]

theorem pieces_length_full {i : ℕ} (hi : i < p.length / n) : ((p.drop (i * n)).take n).length = n := by
  have hle : (i + 1) * n ≤ p.length := Nat.le_trans (Nat.mul_le_mul_right n hi) (Nat.div_mul_le_self ..)
  rw [Nat.succ_mul] at hle
  rw [List.length_take, List.length_drop]
  omega

theorem pieces_length_last (hn : 0 < n) : ((p.drop (p.length / n * n)).take n).length < n := by
  have hmod := Nat.mod_lt p.length hn
  have hdiv := Nat.div_add_mod' p.length n
  rw [List.length_take, List.length_drop]
  omega

end ChunkQueue
