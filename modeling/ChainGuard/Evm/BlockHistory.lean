import ChainGuard.Library.CheckedArrays
import ChainGuard.Evm.Release
import Mathlib.Algebra.Order.BigOperators.Group.List

/-! The ring buffer of block timestamps and `getMedianBlockInterval` with every check of the compiler: no access and
no subtraction of it reverts, and over timestamps in order it is the median of the recent intervals. -/
namespace ChainGuard.Evm
open Guarded CheckedArrays
set_option autoImplicit false

/-! ## The function, access by access -/

/-- `a - b` -/
def checkedSub (a b : ℕ) : Result ℕ := do
  revertIf (a < b) .Panic
  pure (a - b)

/-- `a + b` -/
def checkedAdd (a b : ℕ) : Result ℕ := do
  revertIf (2 ^ 256 ≤ a + b) .Panic
  pure (a + b)

/-- `_blockTimestamps[i]` -/
def blockTimestampAt (r : Release) (i : ℕ) : Result ℕ := do
  revertIf (BLOCK_HISTORY_SIZE ≤ i) .Panic
  pure (r.blockTimestamps i)

/-- `getMedianBlockInterval`, as it runs. -/
def medianBlockInterval (r : Release) : Result ℕ :=
  if r.blockHistoryCount < 2 then pure DEFAULT_BLOCK_INTERVAL
  else do
    let beforeCount ← checkedSub (r.blockHistoryHead + BLOCK_HISTORY_SIZE) r.blockHistoryCount
    let start := beforeCount % BLOCK_HISTORY_SIZE
    let timestamps ← fill .Panic 0 r.blockHistoryCount fun i => blockTimestampAt r ((start + i) % BLOCK_HISTORY_SIZE)
    let timestamps ← sort .Panic timestamps
    let intervalCount ← checkedSub r.blockHistoryCount 1
    let intervals ← fill .Panic 0 intervalCount fun i => do
      let later ← read .Panic timestamps (i + 1)
      let earlier ← read .Panic timestamps i
      checkedSub later earlier
    let intervals ← sort .Panic intervals
    let medianInterval ←
      if intervalCount % 2 = 0 then do
        let a ← read .Panic intervals (← checkedSub (intervalCount / 2) 1)
        let b ← read .Panic intervals (intervalCount / 2)
        let sum ← checkedAdd a b
        pure (sum / 2)
      else read .Panic intervals (intervalCount / 2)
    pure (if medianInterval = 0 then 1 else medianInterval)

/-! ## Nothing reverts -/

/-- What the recordings keep: the indices are in the buffer, and the timestamps are words. -/
structure RingBuffer (r : Release) : Prop where
  head : r.blockHistoryHead < BLOCK_HISTORY_SIZE
  count : r.blockHistoryCount ≤ BLOCK_HISTORY_SIZE
  words : ∀ i, r.blockTimestamps i < 2 ^ 256

theorem checkedSub_ok {a b : ℕ} (h : b ≤ a) : checkedSub a b = .ok (a - b) :=
  (revertIf_bind ..).mpr ⟨not_lt.mpr h, rfl⟩

theorem checkedAdd_ok {a b : ℕ} (h : a + b < 2 ^ 256) : checkedAdd a b = .ok (a + b) :=
  (revertIf_bind ..).mpr ⟨not_le.mpr h, rfl⟩

theorem blockTimestampAt_ok (r : Release) (i : ℕ) :
    blockTimestampAt r (i % BLOCK_HISTORY_SIZE) = .ok (r.blockTimestamps (i % BLOCK_HISTORY_SIZE)) :=
  (revertIf_bind ..).mpr ⟨not_le.mpr (Nat.mod_lt _ (by decide)), rfl⟩

/-- The differences of neighbours. -/
def intervalsOf (timestamps : List ℕ) : List ℕ :=
  List.zipWith (fun later earlier => later - earlier) timestamps.tail timestamps

theorem zipWith_tail (timestamps : List ℕ) :
    List.zipWith (fun later earlier => later - earlier) timestamps.tail timestamps = intervalsOf timestamps := rfl

theorem intervalsOf_length (timestamps : List ℕ) : (intervalsOf timestamps).length = timestamps.length - 1 := by
  rw [intervalsOf, List.length_zipWith, List.length_tail]
  omega

theorem intervalsOf_eq (timestamps : List ℕ) : intervalsOf timestamps =
    (List.range (timestamps.length - 1)).map fun i => timestamps.getD (i + 1) 0 - timestamps.getD i 0 := by
  refine List.ext_getElem ?_ fun i hi hi' => ?_
  · rw [intervalsOf_length, List.length_map, List.length_range]
  · rw [intervalsOf_length] at hi
    rw [List.getElem_map, List.getElem_range, List.getD_eq_getElem _ _ (by omega), List.getD_eq_getElem _ _ (by omega)]
    simp only [intervalsOf, List.getElem_zipWith, List.getElem_tail]

theorem getD_le_getD {timestamps : List ℕ} (hsorted : timestamps.Pairwise (· ≤ ·)) {i : ℕ}
    (hi : i + 1 < timestamps.length) : timestamps.getD i 0 ≤ timestamps.getD (i + 1) 0 := by
  rw [List.getD_eq_getElem _ _ hi, List.getD_eq_getElem _ _ (by omega)]
  exact List.pairwise_iff_getElem.mp hsorted i (i + 1) (by omega) hi (Nat.lt_succ_self i)

theorem intervalsOf_sum {first : ℕ} {rest : List ℕ} (hsorted : (first :: rest).Pairwise (· ≤ ·)) :
    (intervalsOf (first :: rest)).sum + first = (first :: rest).getLast (List.cons_ne_nil _ _) := by
  induction rest generalizing first with
  | nil => exact Nat.zero_add first
  | cons next rest ih =>
    obtain ⟨hfirst, hrest⟩ := List.pairwise_cons.mp hsorted
    have hle : first ≤ next := hfirst next List.mem_cons_self
    have hcons : intervalsOf (first :: next :: rest) = (next - first) :: intervalsOf (next :: rest) := rfl
    have hrec := ih hrest
    rw [hcons, List.sum_cons, List.getLast_cons (List.cons_ne_nil _ _), ← hrec]
    omega

theorem getD_add_getD_le_sum (xs : List ℕ) {i j : ℕ} (hij : i < j) : xs.getD i 0 + xs.getD j 0 ≤ xs.sum := by
  induction xs generalizing i j with
  | nil => simp
  | cons x xs ih =>
    obtain ⟨j, rfl⟩ : ∃ j', j = j' + 1 := ⟨j - 1, by omega⟩
    rw [List.sum_cons, List.getD_cons_succ]
    cases i with
    | zero =>
      have hentry : xs.getD j 0 ≤ xs.sum := by
        by_cases hj : j < xs.length
        · rw [List.getD_eq_getElem _ _ hj]
          exact List.single_le_sum (fun _ _ => Nat.zero_le _) _ (List.getElem_mem hj)
        · rw [List.getD_eq_default _ _ (not_lt.mp hj)]
          exact Nat.zero_le _
      exact Nat.add_le_add_left hentry x
    | succ i =>
      rw [List.getD_cons_succ]
      exact (ih (by omega)).trans (Nat.le_add_left _ _)

theorem blockTimestampHistory_lt {r : Release} (h : RingBuffer r) : ∀ t ∈ blockTimestampHistory r, t < 2 ^ 256 := by
  intro t ht
  obtain ⟨i, _, rfl⟩ := List.mem_map.mp ht
  exact h.words _

theorem intervals_add_lt {timestamps : List ℕ} (hsorted : timestamps.Pairwise (· ≤ ·))
    (hwords : ∀ t ∈ timestamps, t < 2 ^ 256) {i j : ℕ} (hij : i < j) :
    ((intervalsOf timestamps).insertionSort (· ≤ ·)).getD i 0 +
      ((intervalsOf timestamps).insertionSort (· ≤ ·)).getD j 0 < 2 ^ 256 := by
  have hsum := getD_add_getD_le_sum ((intervalsOf timestamps).insertionSort (· ≤ ·)) hij
  rw [(List.perm_insertionSort (· ≤ ·) (intervalsOf timestamps)).sum_eq] at hsum
  refine hsum.trans_lt ?_
  cases timestamps with
  | nil => decide
  | cons first rest =>
    have hlast := hwords _ (List.getLast_mem (List.cons_ne_nil first rest))
    have htotal := intervalsOf_sum hsorted
    omega

theorem intervals_filled {timestamps : List ℕ} (hsorted : timestamps.Pairwise (· ≤ ·)) :
    (fill VaultError.Panic 0 (timestamps.length - 1) fun i => do
      let later ← CheckedArrays.read .Panic timestamps (i + 1)
      let earlier ← CheckedArrays.read .Panic timestamps i
      checkedSub later earlier) = .ok (intervalsOf timestamps) := by
  rw [intervalsOf_eq]
  refine fill_eq VaultError.Panic 0 fun i hi => ?_
  have hlater := read_eq VaultError.Panic (show i + 1 < timestamps.length by omega) 0
  have hearlier := read_eq VaultError.Panic (show i < timestamps.length by omega) 0
  have hsub := checkedSub_ok (getD_le_getD hsorted (show i + 1 < timestamps.length by omega))
  simp only [hlater, hearlier, ok_bind, hsub]

/-- Every access is in its array, no difference is negative, and no sum overflows. -/
theorem medianBlockInterval_eq {r : Release} (h : RingBuffer r) :
    medianBlockInterval r = .ok (getMedianBlockInterval r) := by
  unfold medianBlockInterval getMedianBlockInterval
  by_cases hcount : r.blockHistoryCount < 2
  · rw [if_pos hcount, if_pos hcount]
    rfl
  rw [if_neg hcount, if_neg hcount]
  have hbefore : checkedSub (r.blockHistoryHead + BLOCK_HISTORY_SIZE) r.blockHistoryCount = .ok _ :=
    checkedSub_ok (h.count.trans (Nat.le_add_left _ _))
  have hcopied : (fill VaultError.Panic 0 r.blockHistoryCount fun i => blockTimestampAt r
      (((r.blockHistoryHead + BLOCK_HISTORY_SIZE - r.blockHistoryCount) % BLOCK_HISTORY_SIZE + i) %
        BLOCK_HISTORY_SIZE)) = .ok (blockTimestampHistory r) :=
    fill_eq VaultError.Panic 0 fun i _ => blockTimestampAt_ok r _
  have hintervalCount : checkedSub r.blockHistoryCount 1 = .ok _ := checkedSub_ok (by omega)
  have hlength : ((blockTimestampHistory r).insertionSort (· ≤ ·)).length = r.blockHistoryCount := by
    rw [List.length_insertionSort, blockTimestampHistory, List.length_map, List.length_range]
  have hsorted := List.pairwise_insertionSort (· ≤ ·) (blockTimestampHistory r)
  have hwords : ∀ t ∈ (blockTimestampHistory r).insertionSort (· ≤ ·), t < 2 ^ 256 := fun t ht =>
    blockTimestampHistory_lt h t ((List.mem_insertionSort _).mp ht)
  have hfilled := intervals_filled hsorted
  have hadd := fun i j hij => @intervals_add_lt _ hsorted hwords i j hij
  have hintervals := intervalsOf_length ((blockTimestampHistory r).insertionSort (· ≤ ·))
  rw [hlength] at hfilled hintervals
  rw [← List.length_insertionSort (· ≤ ·)] at hintervals
  simp only [hbefore, ok_bind, hcopied, sort_eq, hintervalCount, hfilled, zipWith_tail]
  have hmiddle : (r.blockHistoryCount - 1) / 2 <
      ((intervalsOf ((blockTimestampHistory r).insertionSort (· ≤ ·))).insertionSort (· ≤ ·)).length := by
    rw [hintervals]
    omega
  have hupper := read_eq VaultError.Panic hmiddle 0
  by_cases heven : (r.blockHistoryCount - 1) % 2 = 0
  · have hhalf : checkedSub ((r.blockHistoryCount - 1) / 2) 1 = .ok _ := checkedSub_ok (by omega)
    have hlower := read_eq VaultError.Panic ((Nat.sub_le _ 1).trans_lt hmiddle) 0
    have hsum := checkedAdd_ok (hadd ((r.blockHistoryCount - 1) / 2 - 1) ((r.blockHistoryCount - 1) / 2) (by omega))
    simp only [if_pos heven, hhalf, ok_bind, hlower, hupper, hsum, pure_bind]
    rfl
  · simp only [if_neg heven, hupper, ok_bind]
    rfl

/-! ## What the buffer holds -/

/-- The recordings of a sequence of transactions, on a fresh buffer. -/
def recorded (envs : List Env) : Release := envs.foldl (fun r env => recordBlockTimestamp env r) {}

/-- The buffer after these timestamps: each of the last ones is in the cell of its number. -/
structure Holds (r : Release) (timestamps : List ℕ) : Prop where
  head : r.blockHistoryHead = timestamps.length % BLOCK_HISTORY_SIZE
  count : r.blockHistoryCount = min timestamps.length BLOCK_HISTORY_SIZE
  cells : ∀ i, timestamps.length - BLOCK_HISTORY_SIZE ≤ i → i < timestamps.length →
    r.blockTimestamps (i % BLOCK_HISTORY_SIZE) = timestamps.getD i 0

theorem Holds.record {r : Release} {timestamps : List ℕ} (h : Holds r timestamps) (env : Env) :
    Holds (recordBlockTimestamp env r) (timestamps ++ [env.timestamp]) := by
  obtain ⟨hhead, hcount, hcells⟩ := h
  refine ⟨?_, ?_, fun i hlow hhigh => ?_⟩
  · rw [recordBlockTimestamp, hhead, List.length_append, Nat.mod_add_mod]
    rfl
  · rw [recordBlockTimestamp, hcount, List.length_append, List.length_singleton]
    by_cases hfull : min timestamps.length BLOCK_HISTORY_SIZE < BLOCK_HISTORY_SIZE
    · rw [if_pos hfull]
      show min timestamps.length BLOCK_HISTORY_SIZE + 1 = _
      omega
    · rw [if_neg hfull]
      show min timestamps.length BLOCK_HISTORY_SIZE = _
      omega
  · rw [List.length_append, List.length_singleton] at hlow hhigh
    simp only [recordBlockTimestamp, hhead]
    by_cases hlast : i = timestamps.length
    · rw [hlast, Function.update_self, List.getD_append_right _ _ _ _ le_rfl, Nat.sub_self]
      rfl
    · have hother : i % BLOCK_HISTORY_SIZE ≠ timestamps.length % BLOCK_HISTORY_SIZE := by
        simp only [BLOCK_HISTORY_SIZE] at hlow ⊢
        omega
      rw [Function.update_of_ne hother, List.getD_append _ _ _ _ (by omega)]
      exact hcells i (by omega) (by omega)

theorem recorded_holds (envs : List Env) : Holds (recorded envs) (envs.map Env.timestamp) := by
  induction envs using List.reverseRecOn with
  | nil => exact ⟨rfl, rfl, fun i _ hi => absurd hi (Nat.not_lt_zero i)⟩
  | append_singleton envs env ih =>
    rw [recorded, List.foldl_append, List.map_append]
    exact ih.record env

theorem Holds.history {r : Release} {timestamps : List ℕ} (h : Holds r timestamps) :
    blockTimestampHistory r = timestamps.drop (timestamps.length - BLOCK_HISTORY_SIZE) := by
  obtain ⟨hhead, hcount, hcells⟩ := h
  refine List.ext_getElem ?_ fun i hi hi' => ?_
  · rw [blockTimestampHistory, List.length_map, List.length_range, List.length_drop, hcount]
    simp only [BLOCK_HISTORY_SIZE]
    omega
  · rw [List.length_drop] at hi'
    have hcell := hcells (timestamps.length - BLOCK_HISTORY_SIZE + i) (by omega) (by omega)
    have hindex : ((r.blockHistoryHead + BLOCK_HISTORY_SIZE - r.blockHistoryCount) % BLOCK_HISTORY_SIZE + i) %
        BLOCK_HISTORY_SIZE = (timestamps.length - BLOCK_HISTORY_SIZE + i) % BLOCK_HISTORY_SIZE := by
      rw [hhead, hcount]
      simp only [BLOCK_HISTORY_SIZE]
      omega
    rw [List.getElem_drop, ← List.getD_eq_getElem timestamps 0, ← hcell, ← hindex]
    simp only [blockTimestampHistory, List.getElem_map, List.getElem_range]

theorem Holds.ringBuffer {r : Release} {timestamps : List ℕ} (h : Holds r timestamps)
    (hwords : ∀ i, r.blockTimestamps i < 2 ^ 256) : RingBuffer r where
  head := by
    rw [h.head]
    exact Nat.mod_lt _ (by decide)
  count := by
    rw [h.count]
    exact Nat.min_le_right _ _
  words := hwords

theorem recorded_words {envs : List Env} (h : ∀ env ∈ envs, env.timestamp < 2 ^ 256) (i : ℕ) :
    (recorded envs).blockTimestamps i < 2 ^ 256 := by
  induction envs using List.reverseRecOn with
  | nil => exact Nat.two_pow_pos 256
  | append_singleton envs env ih =>
    have hrest := ih fun env' henv => h env' (List.mem_append_left _ henv)
    rw [recorded, List.foldl_append]
    show Function.update (recorded envs).blockTimestamps (recorded envs).blockHistoryHead env.timestamp i < _
    rw [Function.update_apply]
    split
    · exact h env (List.mem_append_right _ (List.mem_singleton_self _))
    · exact hrest

/-! ## The median -/

/-- The middle of the sorted numbers, or the mean of the two middle ones, rounded down. -/
def median (xs : List ℕ) : ℕ :=
  let sorted := xs.insertionSort (· ≤ ·)
  if xs.length % 2 = 0 then (sorted.getD (xs.length / 2 - 1) 0 + sorted.getD (xs.length / 2) 0) / 2
  else sorted.getD (xs.length / 2) 0

theorem getMedianBlockInterval_pos (r : Release) : getMedianBlockInterval r ≠ 0 := by
  have hone : ∀ n : ℕ, (if n = 0 then 1 else n) ≠ 0 := fun n => by
    by_cases hzero : n = 0
    · rw [if_pos hzero]
      exact Nat.one_ne_zero
    · rwa [if_neg hzero]
  unfold getMedianBlockInterval
  by_cases hcount : r.blockHistoryCount < 2
  · rw [if_pos hcount]
    decide
  · rw [if_neg hcount]
    exact hone _

theorem Holds.median {r : Release} {timestamps : List ℕ} (h : Holds r timestamps)
    (hsorted : timestamps.Pairwise (· ≤ ·)) : getMedianBlockInterval r =
      if timestamps.length < 2 then DEFAULT_BLOCK_INTERVAL
      else max 1 (median (intervalsOf (timestamps.drop (timestamps.length - BLOCK_HISTORY_SIZE)))) := by
  have hrecent : (timestamps.drop (timestamps.length - BLOCK_HISTORY_SIZE)).Pairwise (· ≤ ·) :=
    hsorted.sublist (List.drop_sublist _ _)
  have hcount : r.blockHistoryCount < 2 ↔ timestamps.length < 2 := by
    rw [h.count]
    simp only [BLOCK_HISTORY_SIZE]
    omega
  have hintervals : (intervalsOf (timestamps.drop (timestamps.length - BLOCK_HISTORY_SIZE))).length =
      r.blockHistoryCount - 1 := by
    rw [intervalsOf_length, List.length_drop, h.count]
    simp only [BLOCK_HISTORY_SIZE]
    omega
  have hmax : ∀ n : ℕ, (if n = 0 then 1 else n) = max 1 n := fun n => by
    by_cases hzero : n = 0
    · rw [if_pos hzero, hzero]
      rfl
    · rw [if_neg hzero, Nat.max_eq_right (Nat.one_le_iff_ne_zero.mpr hzero)]
  unfold getMedianBlockInterval ChainGuard.Evm.median
  simp only [hcount, h.history, hrecent.insertionSort_eq, zipWith_tail, hintervals, hmax]

/-- After any sequence of recordings the function returns, and never zero; where the timestamps come in order, it
returns the median of the intervals between the last 256 of them, or one. -/
theorem medianBlockInterval_recorded (envs : List Env) (hwords : ∀ env ∈ envs, env.timestamp < 2 ^ 256) :
    ∃ n, medianBlockInterval (recorded envs) = .ok n ∧ n ≠ 0 ∧ getMedianBlockInterval (recorded envs) = n ∧
      ((envs.map Env.timestamp).Pairwise (· ≤ ·) → n = if envs.length < 2 then 12 else
        max 1 (median (intervalsOf ((envs.map Env.timestamp).drop (envs.length - 256))))) := by
  have hholds := recorded_holds envs
  refine ⟨_, medianBlockInterval_eq (hholds.ringBuffer (recorded_words hwords)), getMedianBlockInterval_pos _, rfl,
    fun hsorted => ?_⟩
  rw [hholds.median hsorted, List.length_map]
  rfl

/-- Three recordings of one sender, at 1, 4 and 10. -/
theorem medianBlockInterval_recorded_three :
    ∃ n, medianBlockInterval (recorded [⟨8, 1, 0, by decide, by decide⟩, ⟨8, 4, 0, by decide, by decide⟩,
        ⟨8, 10, 0, by decide, by decide⟩]) = .ok n ∧ n ≠ 0 ∧ n = 4 := by
  obtain ⟨n, hrun, hpos, _, hmedian⟩ := medianBlockInterval_recorded [⟨8, 1, 0, by decide, by decide⟩,
    ⟨8, 4, 0, by decide, by decide⟩, ⟨8, 10, 0, by decide, by decide⟩] (by decide)
  exact ⟨n, hrun, hpos, hmedian (by decide)⟩

end ChainGuard.Evm
