import ChainGuard.Library.Loops
import Mathlib.Data.List.GetD
import Mathlib.Data.List.Sort

/-! Arrays whose accesses are checked: filling one, and sorting it in place by insertion. Where the indices are right
no access fails. -/
namespace CheckedArrays
set_option autoImplicit false

universe u v

variable {α : Type u} [LinearOrder α] {ε : Type v}

/-! ## Arrays -/

/-- `xs[i]` -/
def read (e : ε) (xs : List α) (i : ℕ) : Except ε α :=
  match xs[i]? with
  | some x => .ok x
  | none => .error e

/-- `xs[i] = x` -/
def write (e : ε) (xs : List α) (i : ℕ) (x : α) : Except ε (List α) :=
  if i < xs.length then .ok (xs.set i x) else .error e

omit [LinearOrder α] in
theorem read_eq (e : ε) {xs : List α} {i : ℕ} (h : i < xs.length) (d : α) : read e xs i = .ok (xs.getD i d) := by
  rw [read, List.getElem?_eq_getElem h, List.getD_eq_getElem _ _ h]

omit [LinearOrder α] in
theorem read_append (e : ε) (front back : List α) (x : α) : read e (front ++ x :: back) front.length = .ok x := by
  rw [read, List.getElem?_append_right le_rfl, Nat.sub_self]
  rfl

omit [LinearOrder α] in
theorem write_append (e : ε) (front back : List α) (x y : α) :
    write e (front ++ x :: back) front.length y = .ok (front ++ y :: back) := by
  have hlt : front.length < (front ++ x :: back).length := by
    rw [List.length_append, List.length_cons]
    omega
  rw [write, if_pos hlt, List.set_append_right _ _ le_rfl, Nat.sub_self]
  rfl

/-- `for (i = 0; i < n; i++) xs[i] = f(i)`, on a fresh array of that length. -/
def fill (e : ε) (zero : α) (n : ℕ) (f : ℕ → Except ε α) : Except ε (List α) :=
  Loops.tryUpTo n (fun i xs => do write e xs i (← f i)) (List.replicate n zero)

omit [LinearOrder α] in
theorem fill_eq (e : ε) (zero : α) {n : ℕ} {f : ℕ → Except ε α} {g : ℕ → α} (h : ∀ i < n, f i = .ok (g i)) :
    fill e zero n f = .ok ((List.range n).map g) := by
  have hfilled : ∃ xs, fill e zero n f = .ok xs ∧ xs = (List.range n).map g ++ List.replicate (n - n) zero := by
    refine Loops.tryUpTo_spec (P := fun i xs => xs = (List.range i).map g ++ List.replicate (n - i) zero) rfl ?_
    rintro i hi _ rfl
    have hrest : List.replicate (n - i) zero = zero :: List.replicate (n - (i + 1)) zero := by
      rw [show n - i = n - (i + 1) + 1 by omega, List.replicate_succ]
    have hwrite := write_append e ((List.range i).map g) (List.replicate (n - (i + 1)) zero) zero (g i)
    rw [List.length_map, List.length_range] at hwrite
    refine ⟨_, ?_, rfl⟩
    rw [h i hi, hrest, List.range_succ, List.map_append, List.append_assoc]
    exact hwrite
  obtain ⟨xs, hrun, hxs⟩ := hfilled
  rw [hrun, hxs, Nat.sub_self, List.replicate_zero, List.append_nil]

/-! ## Sorting -/

/-- `while (j > 0 && xs[j - 1] > key) { xs[j] = xs[j - 1]; j--; } xs[j] = key;` -/
def sift (e : ε) (key : α) : ℕ → List α → Except ε (List α)
  | 0, xs => write e xs 0 key
  | j + 1, xs => do
    let last ← read e xs j
    if key < last then sift e key j (← write e xs (j + 1) last) else write e xs (j + 1) key

/-- `for (i = 1; i < xs.length; i++)` -/
def sort (e : ε) (xs : List α) : Except ε (List α) :=
  Loops.tryUpTo (xs.length - 1) (fun i xs => do sift e (← read e xs (i + 1)) (i + 1) xs) xs

/-- The key goes to its place in the sorted front; the cell after the front is free. -/
theorem sift_ok (e : ε) (key hole : α) (back : List α) {front : List α} (hsorted : front.Pairwise (· ≤ ·)) :
    ∃ sorted : List α, sift e key front.length (front ++ hole :: back) = .ok (sorted ++ back) ∧
      sorted.Pairwise (· ≤ ·) ∧ sorted.Perm (front ++ [key]) := by
  induction front using List.reverseRecOn generalizing hole back with
  | nil => exact ⟨[key], write_append e [] back hole key, List.pairwise_singleton _ _, List.Perm.refl _⟩
  | append_singleton front last ih =>
    obtain ⟨hfront, _, hle⟩ := List.pairwise_append.mp hsorted
    have hread := read_append e front (hole :: back) last
    have hlength : (front ++ [last]).length = front.length + 1 := List.length_append
    have hsplit : front ++ [last] ++ hole :: back = front ++ last :: hole :: back := List.append_cons .. |>.symm
    rw [hlength, hsplit, sift, hread]
    by_cases hlt : key < last
    · -- the last of the front moves up, and the key goes below it
      have hmove := write_append e (front ++ [last]) back hole last
      rw [hlength, hsplit, ← List.append_cons] at hmove
      obtain ⟨sorted, hsift, hpairwise, hperm⟩ := ih last (last :: back) hfront
      refine ⟨sorted ++ [last], ?_, ?_, ?_⟩
      · simp only [bind, Except.bind, if_pos hlt, hmove, hsift, List.append_assoc, List.singleton_append]
      · refine List.pairwise_append.mpr ⟨hpairwise, List.pairwise_singleton _ _, fun x hx y hy => ?_⟩
        rw [List.mem_singleton.mp hy]
        rcases List.mem_append.mp (hperm.mem_iff.mp hx) with hx | hx
        · exact hle x hx last (List.mem_singleton_self _)
        · rw [List.mem_singleton.mp hx]
          exact hlt.le
      · calc (sorted ++ [last]).Perm (front ++ [key] ++ [last]) := hperm.append_right _
          _ = front ++ ([key] ++ [last]) := List.append_assoc ..
          List.Perm _ (front ++ ([last] ++ [key])) := (List.perm_append_comm).append_left _
          _ = front ++ [last] ++ [key] := (List.append_assoc ..).symm
    · -- the front is below the key
      have hplace := write_append e (front ++ [last]) back hole key
      rw [hlength, hsplit] at hplace
      refine ⟨front ++ [last] ++ [key], ?_, ?_, List.Perm.refl _⟩
      · simp only [bind, Except.bind, if_neg hlt, hplace, List.append_assoc, List.singleton_append]
        rfl
      · refine List.pairwise_append.mpr ⟨hsorted, List.pairwise_singleton _ _, fun x hx y hy => ?_⟩
        rw [List.mem_singleton.mp hy]
        rcases List.mem_append.mp hx with hx | hx
        · exact (hle x hx last (List.mem_singleton_self _)).trans (not_lt.mp hlt)
        · rw [List.mem_singleton.mp hx]
          exact not_lt.mp hlt

/-- After so many rounds the front is sorted, and nothing else has been touched. -/
structure Sorted (xs : List α) (i : ℕ) (ys : List α) : Prop where
  front : (ys.take (i + 1)).Pairwise (· ≤ ·)
  perm : (ys.take (i + 1)).Perm (xs.take (i + 1))
  back : ys.drop (i + 1) = xs.drop (i + 1)

theorem Sorted.round {e : ε} {xs ys : List α} {i : ℕ} (h : Sorted xs i ys) (hi : i + 1 < xs.length) :
    ∃ zs, (do sift e (← read e ys (i + 1)) (i + 1) ys) = .ok zs ∧ Sorted xs (i + 1) zs := by
  obtain ⟨hfront, hperm, hback⟩ := h
  have hlength : (ys.take (i + 1)).length = i + 1 := by
    rw [hperm.length_eq, List.length_take]
    omega
  have hdrop : xs.drop (i + 1) = xs[i + 1] :: xs.drop (i + 2) := List.drop_eq_getElem_cons hi
  have hys : ys = ys.take (i + 1) ++ xs[i + 1] :: xs.drop (i + 2) := by
    conv_lhs => rw [← List.take_append_drop (i + 1) ys, hback, hdrop]
  generalize ys.take (i + 1) = front at hfront hperm hlength hys
  subst hys
  have hread := read_append e front (xs.drop (i + 2)) xs[i + 1]
  obtain ⟨sorted, hsift, hpairwise, hsorted⟩ := sift_ok e xs[i + 1] xs[i + 1] (xs.drop (i + 2)) hfront
  rw [hlength] at hread hsift
  have hlast : sorted.length = i + 2 := by
    rw [hsorted.length_eq, List.length_append, hlength]
    rfl
  refine ⟨sorted ++ xs.drop (i + 2), ?_, ?_, ?_, ?_⟩
  · simp only [bind, Except.bind, hread, hsift]
  · rw [List.take_left' hlast]
    exact hpairwise
  · rw [List.take_left' hlast, List.take_succ_eq_append_getElem hi]
    exact hsorted.trans (hperm.append_right _)
  · rw [List.drop_left' hlast]

/-- No access fails, and the result is the sorted list. -/
theorem sort_eq (e : ε) (xs : List α) : sort e xs = .ok (xs.insertionSort (· ≤ ·)) := by
  cases xs with
  | nil => rfl
  | cons x xs =>
    have hstart : Sorted (x :: xs) 0 (x :: xs) :=
      ⟨List.pairwise_singleton _ _, List.Perm.refl _, rfl⟩
    obtain ⟨ys, hrun, hfront, hperm, hback⟩ := Loops.tryUpTo_spec (P := Sorted (x :: xs)) hstart
      (n := (x :: xs).length - 1) (f := fun i xs => do sift e (← read e xs (i + 1)) (i + 1) xs)
      fun i hi ys hys => hys.round (by rw [List.length_cons] at hi ⊢; omega)
    have hall : (x :: xs).length - 1 + 1 = (x :: xs).length := rfl
    rw [hall] at hfront hperm hback
    rw [List.take_length] at hperm
    have hys : ys.take (x :: xs).length = ys := by
      have hnil := hback.trans List.drop_length
      conv_rhs => rw [← List.take_append_drop (x :: xs).length ys, hnil, List.append_nil]
    rw [hys] at hfront hperm
    have hsame := (hperm.trans (List.perm_insertionSort (· ≤ ·) (x :: xs)).symm).eq_of_pairwise' hfront
      (List.pairwise_insertionSort (· ≤ ·) (x :: xs))
    exact hrun.trans (congrArg _ hsame)

end CheckedArrays
