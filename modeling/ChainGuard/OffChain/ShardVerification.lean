import ChainGuard.Library.Guarded
import ChainGuard.OffChain.ShardStorage

/-! What `verifyShards` finds: the shards whose bytes are no beginning of those that the payload it goes by is encoded
to. A shard that is cut short passes. -/
namespace ChainGuard.OffChain.ErasureCoding
open Loops GFMatrix
set_option autoImplicit false

variable {M P : ℕ} {shards pieces : List Shard} {data : Bytes}

/-! ## Shards by their index -/

structure Complete (M P : ℕ) (shards : List Shard) : Prop where
  indices : (shards.map Shard.index).Perm (List.range (M + P))
  flags : ∀ s ∈ shards, s.isData = decide (s.index < M)

def dataAt (shards : List Shard) (i : ℕ) : Bytes := ((shards.find? fun s => s.index = i).map Shard.data).getD []

theorem dataAt_of_mem (hnodup : (shards.map Shard.index).Nodup) {s : Shard} (hs : s ∈ shards) :
    dataAt shards s.index = s.data := by
  cases hfind : shards.find? fun t => t.index = s.index with
  | none => exact absurd (decide_eq_true rfl) (List.find?_eq_none.mp hfind s hs)
  | some t =>
    have hindex := List.find?_some hfind
    rw [dataAt, hfind, List.inj_on_of_nodup_map hnodup (List.mem_of_find?_eq_some hfind) hs (of_decide_eq_true hindex)]
    rfl

theorem Indexed.dataAt_getElem (h : Indexed pieces) {i : ℕ} (hi : i < pieces.length) : dataAt pieces i = pieces[i].data := by
  have hnodup : (pieces.map Shard.index).Nodup := List.pairwise_map.mpr (h.pairwise.imp Nat.ne_of_lt)
  have hindex : pieces[i].index = i := h i _ (List.getElem?_eq_getElem hi)
  rw [← dataAt_of_mem hnodup (List.getElem_mem hi), hindex]

theorem Complete.nodup (h : Complete M P shards) : (shards.map Shard.index).Nodup :=
  h.indices.nodup_iff.mpr List.nodup_range

theorem Complete.sorted (h : Complete M P shards) : (sortByIndex shards).map Shard.index = List.range (M + P) := by
  have hsorted : (sortByIndex shards).Pairwise fun a b => a.index ≤ b.index := by
    refine (List.pairwise_mergeSort (fun a b c hab hbc => ?_) (fun a b => ?_) shards).imp fun h => of_decide_eq_true h
    · exact decide_eq_true (Nat.le_trans (of_decide_eq_true hab) (of_decide_eq_true hbc))
    · simpa using Nat.le_total a.index b.index
  refine List.Perm.eq_of_pairwise (fun a b _ _ => Nat.le_antisymm) (List.pairwise_map.mpr hsorted)
    (List.pairwise_lt_range.imp Nat.le_of_lt) ?_
  exact ((sortByIndex_perm shards).map _).trans h.indices

theorem Complete.pairwise (h : Complete M P shards) : (sortByIndex shards).Pairwise fun a b => a.index < b.index := by
  have hrange : ((sortByIndex shards).map Shard.index).Pairwise fun i j => i < j := by
    rw [h.sorted]
    exact List.pairwise_lt_range
  exact List.pairwise_map.mp hrange

theorem Complete.length (h : Complete M P shards) : (sortByIndex shards).length = M + P := by
  rw [← List.length_map Shard.index, h.sorted, List.length_range]

theorem Complete.index (h : Complete M P shards) {i : ℕ} (hi : i < (sortByIndex shards).length) :
    (sortByIndex shards)[i].index = i := by
  rw [← List.getElem_map Shard.index (h := by rwa [List.length_map]), List.getElem_of_eq h.sorted, List.getElem_range]

theorem Complete.dataAt_index (h : Complete M P shards) {s : Shard} (hs : s ∈ sortByIndex shards) :
    dataAt shards s.index = s.data :=
  dataAt_of_mem h.nodup ((sortByIndex_perm shards).mem_iff.mp hs)

theorem Complete.filter_isData (h : Complete M P shards) :
    (sortByIndex shards).filter (fun s => s.isData) = (sortByIndex shards).take M ∧
      (sortByIndex shards).filter (fun s => !s.isData) = (sortByIndex shards).drop M := by
  have hflag : ∀ i, ∀ hi : i < (sortByIndex shards).length, (sortByIndex shards)[i].isData = decide (i < M) := by
    intro i hi
    rw [h.flags _ ((sortByIndex_perm shards).mem_iff.mp (List.getElem_mem hi)), h.index hi]
  have htake : ∀ s ∈ (sortByIndex shards).take M, s.isData = true := by
    intro s hs
    obtain ⟨i, hi, rfl⟩ := List.mem_take_iff_getElem.mp hs
    rw [hflag]
    exact decide_eq_true (by omega)
  have hdrop : ∀ s ∈ (sortByIndex shards).drop M, s.isData = false := by
    intro s hs
    obtain ⟨i, hi, rfl⟩ := List.mem_drop_iff_getElem.mp hs
    rw [hflag]
    exact decide_eq_false (by omega)
  constructor
  · conv_lhs => rw [← List.take_append_drop M (sortByIndex shards)]
    rw [List.filter_append, List.filter_eq_self.mpr htake, List.filter_eq_nil_iff.mpr fun s hs => by simp [hdrop s hs],
      List.append_nil]
  · conv_lhs => rw [← List.take_append_drop M (sortByIndex shards)]
    rw [List.filter_append, List.filter_eq_nil_iff.mpr fun s hs => by simp [htake s hs],
      List.filter_eq_self.mpr fun s hs => by simp [hdrop s hs], List.nil_append]

/-! ## The comparison -/

theorem isCorrupted_eq {s : Shard} (h : s.index < pieces.length) :
    isCorrupted pieces s = .ok (decide (¬ s.data <+: pieces[s.index].data)) := by
  rw [isCorrupted, List.getElem?_eq_getElem h]
  refine congrArg Except.ok ?_
  rw [Bool.eq_iff_iff, List.any_eq_true, decide_eq_true_iff, List.prefix_iff_getElem?]
  constructor
  · rintro ⟨i, hi, hne⟩ hbegins
    have hi := List.mem_range.mp hi
    rw [List.getElem?_eq_getElem hi, hbegins i hi] at hne
    exact absurd hne (by simp)
  · intro hbegins
    simp only [not_forall] at hbegins
    obtain ⟨i, hi, hne⟩ := hbegins
    refine ⟨i, List.mem_range.mpr hi, bne_iff_ne.mpr fun heq => hne ?_⟩
    rw [← heq, List.getElem?_eq_getElem hi]

def reported (M P : ℕ) (shards pieces : List Shard) : List ℕ :=
  (List.range (M + P)).filter fun i => ¬ dataAt shards i <+: dataAt pieces i

theorem Complete.compare (h : Complete M P shards) (hindexed : Indexed pieces) (hlength : pieces.length = M + P) :
    ((sortByIndex shards).foldlM (fun corrupted shard => do
      return if ← isCorrupted pieces shard then corrupted ++ [shard.index] else corrupted) [] : Result (List ℕ)) =
      .ok (reported M P shards pieces) := by
  have hbound : ∀ s ∈ sortByIndex shards, s.index < pieces.length := by
    intro s hs
    have hmem : s.index ∈ (sortByIndex shards).map Shard.index := List.mem_map_of_mem hs
    rw [h.sorted] at hmem
    rw [hlength]
    exact List.mem_range.mp hmem
  rw [foldlM_filter (q := fun s => decide (¬ dataAt shards s.index <+: dataAt pieces s.index)) fun s hs => by
    rw [isCorrupted_eq (hbound s hs), hindexed.dataAt_getElem (hbound s hs), h.dataAt_index hs]]
  rw [List.nil_append, reported, ← h.sorted, List.filter_map]
  rfl

/-! ## Lengths -/

/-- The first bytes, with zeros where there are not so many. -/
def fit (n : ℕ) (bytes : Bytes) : Bytes := bytes.take n ++ List.replicate (n - bytes.length) 0

theorem fit_length (n : ℕ) (bytes : Bytes) : (fit n bytes).length = n := by
  rw [fit, List.length_append, List.length_take, List.length_replicate]
  omega

theorem fit_self (bytes : Bytes) : fit bytes.length bytes = bytes := by
  rw [fit, List.take_length, Nat.sub_self, List.replicate_zero, List.append_nil]

theorem fit_getD {n pos : ℕ} (bytes : Bytes) (hpos : pos < n) : (fit n bytes).getD pos 0 = bytes.getD pos 0 := by
  by_cases hlength : pos < bytes.length
  · rw [fit, List.getD_append _ _ _ _ (by rw [List.length_take]; omega),
      List.getD_eq_getElem _ _ (by rw [List.length_take]; omega), List.getElem_take, List.getD_eq_getElem _ _ hlength]
  · have htake : bytes.take n = bytes := List.take_of_length_le (by omega)
    rw [fit, htake, List.getD_append_right _ _ _ _ (by omega), List.getD_eq_default bytes _ (by omega)]
    exact List.getD_replicate _ (by omega)

theorem fit_add (a b : ℕ) (bytes : Bytes) : fit (a + b) bytes = fit a bytes ++ fit b (bytes.drop a) := by
  rw [fit, fit, fit, List.length_drop, List.take_add]
  by_cases hlength : a ≤ bytes.length
  · have hnone : a - bytes.length = 0 := by omega
    have hrest : a + b - bytes.length = b - (bytes.length - a) := by omega
    rw [hnone, hrest, List.replicate_zero, List.append_nil, List.append_assoc]
  · have hdrop : bytes.drop a = [] := List.drop_eq_nil_of_le (by omega)
    have hrest : a + b - bytes.length = (a - bytes.length) + (b - (bytes.length - a)) := by omega
    rw [hdrop, hrest, List.replicate_add, List.take_nil, List.append_nil, List.nil_append, List.append_assoc]

theorem fit_take {n k : ℕ} (h : n ≤ k) (bytes : Bytes) : fit n (bytes.take k) = fit n bytes := by
  rw [fit, fit, List.take_take, Nat.min_eq_left h, List.length_take]
  congr 2
  omega

theorem flatten_slices (bytes : Bytes) (n k : ℕ) :
    ((List.range n).map fun i => fit k (slice bytes (i * k) ((i + 1) * k))).flatten = fit (n * k) bytes := by
  induction n with
  | zero => rw [Nat.zero_mul, fit, List.take_zero, Nat.zero_sub]; rfl
  | succ n ih =>
    have hlength : (n + 1) * k - n * k = k := by rw [Nat.succ_mul]; omega
    rw [List.range_succ, List.map_append, List.flatten_append, ih, Nat.succ_mul, fit_add, List.map_singleton,
      List.flatten_singleton, slice, hlength, fit_take le_rfl]

/-! ## The input of the encoding -/

theorem placePieces_ok {pieces : List Bytes} {n size : ℕ} (hlength : pieces.length = n)
    (hpieces : ∀ piece ∈ pieces, piece.length ≤ size) :
    placePieces pieces n size = .ok (pieces.map (fit size)).flatten := by
  have hflat : ∀ i ≤ n, ((pieces.take i).map (fit size)).flatten.length = i * size := by
    intro i hi
    rw [List.length_flatten, List.map_map, List.map_congr_left (f := List.length ∘ fit size) (g := fun _ => size) fun piece _ =>
      fit_length size piece, List.map_const', List.sum_replicate, List.length_take, hlength, Nat.min_eq_left hi, smul_eq_mul]
  obtain ⟨result, hrun, hresult⟩ : ∃ result, placePieces pieces n size = .ok result ∧
      result = ((pieces.take pieces.length).map (fit size)).flatten ++ List.replicate ((n - pieces.length) * size) 0 := by
    refine tryUpTo_spec (P := fun i result => result = ((pieces.take i).map (fit size)).flatten ++
      List.replicate ((n - i) * size) 0) ?_ ?_
    · rw [List.take_zero, Nat.sub_zero]
      rfl
    · rintro i hi _ rfl
      have hpiece := hpieces _ (List.getElem_mem hi)
      have hrest : (n - i) * size = size + (n - (i + 1)) * size := by
        have hcount : n - i = n - (i + 1) + 1 := by omega
        rw [hcount, Nat.succ_mul, Nat.add_comm]
      have hbefore := hflat i (by omega)
      have hroom : ¬ (((pieces.take i).map (fit size)).flatten ++ List.replicate ((n - i) * size) (0 : UInt8)).length <
          i * size + pieces[i].length := by
        rw [List.length_append, hbefore, List.length_replicate, hrest]
        omega
      refine ⟨_, by rw [setAt, List.getD_eq_getElem _ _ hi, if_neg hroom], ?_⟩
      rw [List.take_left' hbefore, ← List.drop_drop, List.drop_left' hbefore, List.drop_replicate,
        List.take_add_one, List.getElem?_eq_getElem hi, Option.toList_some, List.map_append, List.flatten_append,
        List.map_singleton, List.flatten_singleton, fit, List.take_of_length_le hpiece, hrest, List.append_assoc,
        List.append_assoc, List.append_assoc, List.replicate_append_replicate]
      congr 3
      omega
  rw [hrun, hresult, List.take_length, hlength, Nat.sub_self, Nat.zero_mul, List.replicate_zero, List.append_nil]

theorem placePieces_length {pieces : List Bytes} {n size : ℕ} {result : Bytes}
    (h : placePieces pieces n size = .ok result) : result.length = n * size := by
  refine tryUpTo_of_ok (P := fun _ result => result.length = n * size) (List.length_replicate) ?_ h
  intro i _ target target' htarget hset
  rw [setAt] at hset
  split_ifs at hset with hroom
  rw [← Except.ok.inj hset, List.length_append, List.length_append, List.length_take, List.length_drop]
  omega

theorem shardSize_mul (hM : 1 ≤ M) {size : ℕ} (hdata : data.length = M * size) : shardSize data M = size := by
  have hlast : (M - 1) / M = 0 := Nat.div_eq_of_lt (by omega)
  rw [shardSize, hdata, Nat.add_sub_assoc hM, Nat.mul_add_div hM, hlast, Nat.add_zero]

theorem padded_self (hM : 1 ≤ M) {size : ℕ} (hdata : data.length = M * size) : padded data M = data := by
  rw [padded, shardSize_mul hM hdata, hdata, Nat.mul_comm, Nat.sub_self, List.replicate_zero, List.append_nil]

theorem Complete.stored (h : Complete M P shards) (hfew : P < M) (size : ℕ) :
    reEncodedInput (sortByIndex shards) M P size = placePieces ((List.range M).map (dataAt shards)) M size := by
  have hparity : ¬ M ≤ ((sortByIndex shards).drop M).length := by
    rw [List.length_drop, h.length]
    omega
  have hcanonical : canonicalData (sortByIndex shards) M P size = none := by
    rw [canonicalData, h.filter_isData.2]
    exact if_neg hparity
  have hlength : ((sortByIndex shards).take M).length = M := by
    rw [List.length_take, h.length]
    omega
  have hsorted : sortByIndex ((sortByIndex shards).take M) = (sortByIndex shards).take M :=
    Settlement.mergeSort_eq (List.Perm.refl _) (h.pairwise.sublist (List.take_sublist _ _))
  have hdata : ((sortByIndex shards).take M).map Shard.data = (List.range M).map (dataAt shards) := by
    refine List.ext_getElem (by rw [List.length_map, hlength, List.length_map, List.length_range]) fun i hi _ => ?_
    rw [List.length_map, hlength] at hi
    have hi' : i < (sortByIndex shards).length := by
      rw [h.length]
      omega
    rw [List.getElem_map, List.getElem_take, List.getElem_map, List.getElem_range,
      ← h.dataAt_index (List.getElem_mem hi'), h.index hi']
  rw [reEncodedInput, hcanonical]
  dsimp only
  rw [h.filter_isData.1, hsorted, hlength, if_neg (not_not.mpr rfl), hdata]

def paritySubset (M : ℕ) (shards : List Shard) : List Shard := ((sortByIndex shards).drop M).take M

theorem Complete.mem_paritySubset (h : Complete M P shards) {s : Shard} (hs : s ∈ paritySubset M shards) :
    ∃ k < M, s.index = M + k ∧ M + k < M + P ∧ s.data = dataAt shards (M + k) := by
  obtain ⟨k, hk, rfl⟩ := List.getElem_of_mem hs
  rw [paritySubset, List.length_take, List.length_drop, h.length] at hk
  have hk' : M + k < (sortByIndex shards).length := by
    rw [h.length]
    omega
  have hindex := h.index hk'
  have hbytes := h.dataAt_index (List.getElem_mem hk')
  rw [hindex] at hbytes
  simp only [paritySubset, List.getElem_take, List.getElem_drop]
  exact ⟨k, by omega, hindex, by omega, hbytes.symm⟩

theorem Complete.decode_parity (h : Complete M P shards) (hM : 1 ≤ M) (hMP : M + P ≤ 255) (henough : M ≤ P)
    (hdata : data.length = M * (dataAt shards M).length)
    (hparity : ∀ k < M, Codeword data M (M + k) (fit (dataAt shards M).length (dataAt shards (M + k)))) (size : ℕ) :
    decode (paritySubset M shards) M P (some size) = .ok (data.take size) := by
  have hsize := shardSize_mul hM hdata
  have hlength : M ≤ (paritySubset M shards).length := by
    rw [paritySubset, List.length_take, List.length_drop, h.length]
    omega
  have hpairwise : (paritySubset M shards).Pairwise fun a b => a.index < b.index :=
    h.pairwise.sublist ((List.take_sublist _ _).trans (List.drop_sublist _ _))
  have hsorted : sortByIndex (paritySubset M shards) = paritySubset M shards :=
    Settlement.mergeSort_eq (List.Perm.refl _) hpairwise
  have hindex : ∀ s ∈ paritySubset M shards, s.index < M + P := by
    intro s hs
    obtain ⟨k, _, hindex, hk, _⟩ := h.mem_paritySubset hs
    rwa [hindex]
  have hreads : ∀ s ∈ paritySubset M shards, Reads data M s := by
    intro s hs pos hpos
    obtain ⟨k, hk, hindex, _, hbytes⟩ := h.mem_paritySubset hs
    rw [hindex, ← (hparity k hk).get pos hpos, hbytes, fit_getD _ (hsize ▸ hpos)]
  have hfirst : ∀ s ∈ ((sortByIndex (paritySubset M shards)).take M).head?, s.data.length = shardSize data M := by
    intro s hs
    rw [hsorted, paritySubset, List.take_take, Nat.min_self, Option.mem_def, List.head?_eq_getElem?,
      List.getElem?_take, if_pos (by omega), List.getElem?_drop, Nat.add_zero] at hs
    obtain ⟨hi, rfl⟩ := List.getElem?_eq_some_iff.mp hs
    rw [← h.dataAt_index (List.getElem_mem hi), h.index hi, hsize]
  rw [decode_reads hM hMP hindex (List.pairwise_map.mpr (hpairwise.imp Nat.ne_of_lt)) hlength hreads hfirst,
    Option.elim_some, padded_self hM hdata]

theorem Complete.canonical (h : Complete M P shards) (hM : 1 ≤ M) (hMP : M + P ≤ 255) (henough : M ≤ P)
    (hdata : data.length = M * (dataAt shards M).length)
    (hparity : ∀ k < M, Codeword data M (M + k) (fit (dataAt shards M).length (dataAt shards (M + k)))) (size : ℕ) :
    reEncodedInput (sortByIndex shards) M P size = .ok (fit (M * size) data) := by
  have hlength : M ≤ ((sortByIndex shards).drop M).length := by
    rw [List.length_drop, h.length]
    omega
  have hpieces : canonicalData (sortByIndex shards) M P size = some ((List.range M).map fun i =>
      slice (data.take (M * size)) (i * size) ((i + 1) * size)) := by
    have hdecode := h.decode_parity hM hMP henough hdata hparity (M * size)
    rw [paritySubset] at hdecode
    rw [canonicalData, h.filter_isData.2]
    dsimp only
    rw [if_pos hlength, hdecode]
  rw [reEncodedInput, hpieces]
  dsimp only
  rw [placePieces_ok (by rw [List.length_map, List.length_range]), List.map_map]
  · exact congrArg Except.ok ((flatten_slices _ M size).trans (fit_take le_rfl data))
  · intro piece hpiece
    obtain ⟨i, _, rfl⟩ := List.mem_map.mp hpiece
    rw [slice, List.length_take, Nat.succ_mul]
    omega

/-! ## Payloads by their parity shards -/

def parityRows (M : ℕ) : List ℕ := (List.range M).map fun k => M + k

theorem parityRows_length (M : ℕ) : (parityRows M).length = M := by rw [parityRows, List.length_map, List.length_range]

theorem parityRows_getD {k : ℕ} (hk : k < M) : (parityRows M).getD k 0 = M + k := by
  rw [List.getD_eq_getElem _ _ (by rwa [parityRows_length])]
  simp only [parityRows, List.getElem_map, List.getElem_range]

theorem parityRows_nodup (M : ℕ) : (parityRows M).Nodup := List.nodup_range.map fun _ _ h => Nat.add_left_cancel h

theorem parityRows_lt (henough : M ≤ P) : ∀ i ∈ parityRows M, i < M + P := by
  intro i hi
  obtain ⟨k, hk, rfl⟩ := List.mem_map.mp hi
  have hk := List.mem_range.mp hk
  omega

theorem parity_square (M : ℕ) : square M (fun r => encoding M ((parityRows M).getD r 0)) =
    square M fun r => encoding M (M + r) := by
  refine Matrix.ext fun r c => ?_
  show encoding M ((parityRows M).getD r 0) c = encoding M (M + r) c
  rw [parityRows_getD r.isLt]

theorem rawAt_of_parity (hMP : M + P ≤ 255) (henough : M ≤ P) {data' : Bytes} {pos : ℕ}
    (h : ∀ k < M, ∑ d : Fin M, encoding M (M + k) d * rawAt data M d pos =
      ∑ d : Fin M, encoding M (M + k) d * rawAt data' M d pos) {d : ℕ} (hd : d < M) :
    rawAt data M d pos = rawAt data' M d pos := by
  have hkernel := encoding_kernel (P := P) (by omega) (parityRows_length M) (parityRows_nodup M) (parityRows_lt henough)
    (fun d : Fin M => rawAt data M d pos - rawAt data' M d pos)
  rw [parity_square] at hkernel
  refine sub_eq_zero.mp (congrFun (hkernel (funext fun k => ?_)) ⟨d, hd⟩)
  show ∑ d : Fin M, encoding M (M + k) d * (rawAt data M d pos - rawAt data' M d pos) = 0
  rw [Finset.sum_congr rfl fun d _ => mul_sub _ _ _, Finset.sum_sub_distrib, h k k.isLt, sub_self]

/-- Bytes at their places, piece after piece. -/
def layOut (n size : ℕ) (f : ℕ → ℕ → GFByte) : Bytes :=
  (List.range (n * size)).map fun i => (f (i / size) (i % size)).byte

theorem layOut_length (n size : ℕ) (f : ℕ → ℕ → GFByte) : (layOut n size f).length = n * size := by
  rw [layOut, List.length_map, List.length_range]

theorem rawAt_layOut (hM : 1 ≤ M) {size : ℕ} (f : ℕ → ℕ → GFByte) {d pos : ℕ} (hd : d < M) (hpos : pos < size) :
    rawAt (layOut M size f) M d pos = f d pos := by
  have hlength := layOut_length M size f
  have hplace : d * size + pos < M * size := index_lt hd hpos
  have hquotient : (d * size + pos) / size = d := by
    rw [Nat.mul_comm, Nat.mul_add_div (by omega), Nat.div_eq_of_lt hpos, Nat.add_zero]
  have hremainder : (d * size + pos) % size = pos := by
    rw [Nat.mul_comm, Nat.mul_add_mod, Nat.mod_eq_of_lt hpos]
  rw [rawAt, padAndSplit_getD hd, padded_self hM hlength, shardSize_mul hM hlength,
    List.getD_eq_getElem _ _ (by rw [List.length_take, List.length_drop, hlength]; omega), List.getElem_take,
    List.getElem_drop]
  simp only [layOut, List.getElem_map, List.getElem_range, hquotient, hremainder]

theorem exists_payload (hM : 1 ≤ M) (hMP : M + P ≤ 255) (henough : M ≤ P) (size : ℕ) (target : ℕ → Bytes) :
    ∃ data : Bytes, data.length = M * size ∧ ∀ k < M, Codeword data M (M + k) (fit size (target k)) := by
  obtain ⟨m, hm, hget⟩ := buildEncodingMatrix_holds (M := M) (P := P) (by omega)
  obtain ⟨_, w, _, _, hmul⟩ := selected_invert hget (by omega) (parityRows_length M) (parityRows_nodup M)
    (parityRows_lt henough)
  rw [parity_square] at hmul
  have hlength := layOut_length M size fun d pos => ∑ k : Fin M, w d k * ⟨(fit size (target k)).getD pos 0⟩
  refine ⟨_, hlength, fun k hk => ⟨by rw [fit_length, shardSize_mul hM hlength], fun pos hpos => ?_⟩⟩
  rw [shardSize_mul hM hlength] at hpos
  have hproduct := congrFun (congrArg (fun A => Matrix.mulVec A fun k : Fin M =>
    (⟨(fit size (target k)).getD pos 0⟩ : GFByte)) (mul_eq_one_comm.mp hmul)) ⟨k, hk⟩
  rw [Matrix.one_mulVec, ← Matrix.mulVec_mulVec] at hproduct
  rw [Finset.sum_congr rfl fun d _ => by rw [rawAt_layOut hM _ d.isLt hpos]]
  exact congrArg GFByte.byte hproduct.symm

/-! ## What is reported -/

/-- What an encoding that returns is. -/
structure Encoded (data : Bytes) (M P : ℕ) (pieces : List Shard) : Prop where
  one_le : 1 ≤ M
  parity : 1 ≤ P
  total : M + P ≤ 255
  length : pieces.length = M + P
  indexed : Indexed pieces
  codeword : ∀ i < M + P, Codeword data M i (dataAt pieces i)

theorem encoded (h : encode data M P = .ok pieces) : Encoded data M P pieces := by
  have hconfig : 1 ≤ M ∧ 1 ≤ P ∧ M + P ≤ 255 := by
    by_contra hconfig
    obtain ⟨e, herror⟩ : ∃ e, encode data M P = .error e := encode_error hconfig
    rw [herror] at h
    cases h
  obtain ⟨hM, hP, hMP⟩ := hconfig
  obtain ⟨payloads, hlength, hpayloads, hencode⟩ := encode_ok data hM hP hMP
  obtain rfl := Except.ok.inj (hencode.symm.trans h)
  have hlength' : (payloads.mapIdx (shardOf M)).length = M + P := by rw [List.length_mapIdx, hlength]
  refine ⟨hM, hP, hMP, hlength', shardOf_indexed payloads M, fun i hi => ?_⟩
  have hcodeword := hpayloads i hi
  rw [List.getD_eq_getElem _ _ (by rwa [hlength])] at hcodeword
  rwa [(shardOf_indexed payloads M).dataAt_getElem (by rwa [hlength']), List.getElem_mapIdx]

theorem Codeword.unique {i : ℕ} {a b : Bytes} (ha : Codeword data M i a) (hb : Codeword data M i b) : a = b := by
  refine List.ext_getElem (ha.length.trans hb.length.symm) fun pos hpos hpos' => ?_
  have hsize : pos < shardSize data M := ha.length ▸ hpos
  rw [← List.getD_eq_getElem _ 0 hpos, ← List.getD_eq_getElem _ 0 hpos', ha.get pos hsize, hb.get pos hsize]

theorem Encoded.size (h : Encoded data M P pieces) {size : ℕ} (hdata : data.length = M * size) {i : ℕ}
    (hi : i < M + P) : (dataAt pieces i).length = size :=
  (h.codeword i hi).length.trans (shardSize_mul h.one_le hdata)

theorem Complete.verify_eq (h : Complete M P shards) (hpos : 0 < M + P) :
    verifyShards shards M P =
      (do
        let reEncoded ← encode (← reEncodedInput (sortByIndex shards) M P (dataAt shards 0).length) M P
        (sortByIndex shards).foldlM (fun corrupted shard => do
          return if ← isCorrupted reEncoded shard then corrupted ++ [shard.index] else corrupted) []) := by
  have hlength := h.length
  have hfirst : ∀ first rest, sortByIndex shards = first :: rest → first.data = dataAt shards 0 := by
    intro first rest hcons
    have hpos : 0 < (sortByIndex shards).length := by omega
    have hindex := h.index hpos
    simp only [hcons, List.getElem_cons_zero] at hindex
    rw [← hindex, h.dataAt_index (by rw [hcons]; exact List.mem_cons_self)]
  unfold verifyShards
  cases hcons : sortByIndex shards with
  | nil =>
    rw [hcons, List.length_nil] at hlength
    omega
  | cons first rest =>
    dsimp only
    rw [hfirst first rest hcons]

theorem Complete.verify_ok (h : Complete M P shards) {input : Bytes}
    (hinput : reEncodedInput (sortByIndex shards) M P (dataAt shards 0).length = .ok input)
    (hencode : encode input M P = .ok pieces) : verifyShards shards M P = .ok (reported M P shards pieces) := by
  have hencoded := encoded hencode
  rw [h.verify_eq (by have := hencoded.one_le; omega), hinput]
  simp only [Guarded.ok_bind, hencode]
  exact h.compare hencoded.indexed hencoded.length

theorem reported_nil : reported M P shards pieces = [] ↔ ∀ i < M + P, dataAt shards i <+: dataAt pieces i := by
  simp only [reported, List.filter_eq_nil_iff, List.mem_range, decide_eq_true_eq, not_not]

/-- The payload that shards are taken for: the one with the first parity shards, at the length of the first of them, or
else the stored data; in the end it is as long as the first shard says. -/
def TakenFor (shards : List Shard) (M P : ℕ) (taken : Bytes) : Prop :=
  if M ≤ P then
    ∃ data pieces, encode data M P = .ok pieces ∧ data.length = M * (dataAt shards M).length ∧
      (∀ k < M, dataAt pieces (M + k) = fit (dataAt shards M).length (dataAt shards (M + k))) ∧
      taken = fit (M * (dataAt shards 0).length) data
  else taken = ((List.range M).map fun i => fit (dataAt shards 0).length (dataAt shards i)).flatten

theorem Complete.verify_canonical (h : Complete M P shards) (henough : M ≤ P) {pieces' : List Shard}
    (hencode : encode data M P = .ok pieces) (hdata : data.length = M * (dataAt shards M).length)
    (hparity : ∀ k < M, dataAt pieces (M + k) = fit (dataAt shards M).length (dataAt shards (M + k)))
    (htaken : encode (fit (M * (dataAt shards 0).length) data) M P = .ok pieces') :
    verifyShards shards M P = .ok (reported M P shards pieces') := by
  have hencoded := encoded hencode
  refine h.verify_ok (h.canonical hencoded.one_le hencoded.total henough hdata (fun k hk => ?_) _) htaken
  rw [← hparity k hk]
  exact hencoded.codeword _ (by omega)

theorem flatten_fit_length (n size : ℕ) (f : ℕ → Bytes) :
    ((List.range n).map fun i => fit size (f i)).flatten.length = n * size := by
  induction n with
  | zero => rw [Nat.zero_mul]; rfl
  | succ n ih =>
    rw [List.range_succ, List.map_append, List.flatten_append, List.length_append, ih, List.map_singleton,
      List.flatten_singleton, fit_length, Nat.succ_mul]

theorem TakenFor.length {taken : Bytes} (h : TakenFor shards M P taken) :
    taken.length = M * (dataAt shards 0).length := by
  rw [TakenFor] at h
  split_ifs at h
  · obtain ⟨_, _, _, _, _, rfl⟩ := h
    exact fit_length _ _
  · rw [h]
    exact flatten_fit_length _ _ _

theorem exists_takenFor (hM : 1 ≤ M) (hP : 1 ≤ P) (hMP : M + P ≤ 255) (shards : List Shard) :
    ∃ taken, TakenFor shards M P taken := by
  by_cases henough : M ≤ P
  · obtain ⟨data, hdata, hparity⟩ := exists_payload hM hMP henough (dataAt shards M).length fun k => dataAt shards (M + k)
    obtain ⟨payloads, _, _, hencode⟩ := encode_ok data hM hP hMP
    refine ⟨fit (M * (dataAt shards 0).length) data, ?_⟩
    rw [TakenFor, if_pos henough]
    refine ⟨data, _, hencode, hdata, fun k hk => ?_, rfl⟩
    exact ((encoded hencode).codeword _ (by omega)).unique (hparity k hk)
  · exact ⟨_, by rw [TakenFor, if_neg henough]⟩

theorem Complete.verify_nil (h : Complete M P shards) {taken : Bytes} (htaken : TakenFor shards M P taken)
    (hencode : encode taken M P = .ok pieces) :
    verifyShards shards M P = .ok [] ↔ ∀ i < M + P, dataAt shards i <+: dataAt pieces i := by
  have hencoded := encoded hencode
  have hlength := htaken.length
  have hreported : verifyShards shards M P = .ok (reported M P shards pieces) →
      (verifyShards shards M P = .ok [] ↔ ∀ i < M + P, dataAt shards i <+: dataAt pieces i) := by
    intro hverify
    rw [hverify, Except.ok.injEq, reported_nil]
  rw [TakenFor] at htaken
  split_ifs at htaken with henough
  · obtain ⟨data, parity, hdata, hsize, hparity, rfl⟩ := htaken
    exact hreported (h.verify_canonical henough hdata hsize hparity hencode)
  · have hstored := h.stored (Nat.lt_of_not_le henough) (dataAt shards 0).length
    by_cases hshort : ∀ i < M, (dataAt shards i).length ≤ (dataAt shards 0).length
    · refine hreported (h.verify_ok ?_ hencode)
      rw [hstored, placePieces_ok (by rw [List.length_map, List.length_range]), List.map_map, htaken]
      · rfl
      · intro piece hpiece
        obtain ⟨i, hi, rfl⟩ := List.mem_map.mp hpiece
        exact hshort i (List.mem_range.mp hi)
    · -- a data shard that is longer than the first one does not fit, or is reported
      simp only [not_forall] at hshort
      obtain ⟨i, hi, hlong⟩ := hshort
      refine iff_of_false (fun hverify => ?_) fun hall => ?_
      · rw [h.verify_eq (by omega), hstored] at hverify
        obtain ⟨input, hinput, hverify⟩ := (Guarded.bind_ok ..).mp hverify
        obtain ⟨pieces', hencode', hverify⟩ := (Guarded.bind_ok ..).mp hverify
        have hencoded' := encoded hencode'
        rw [h.compare hencoded'.indexed hencoded'.length, Except.ok.injEq, reported_nil] at hverify
        have hbegins := (hverify i (by omega)).length_le
        rw [hencoded'.size (placePieces_length hinput) (by omega)] at hbegins
        exact hlong hbegins
      · have hbegins := (hall i (by omega)).length_le
        rw [hencoded.size hlength (by omega)] at hbegins
        exact hlong hbegins

/-! ## Every inconsistency -/

/-- These are the shards of a payload that fills its pieces. -/
def Encodes (data : Bytes) (M P : ℕ) (pieces : List Shard) : Prop :=
  encode data M P = .ok pieces ∧ data.length = M * (dataAt pieces 0).length

/-- Nothing is found in the shards of a payload and in no others; and where the parity shards are enough and are those
of a payload, the data shards that are not its own are found. -/
structure FindsEvery (M P : ℕ) (shards : List Shard) : Prop where
  none_iff : verifyShards shards M P = .ok [] ↔
    ∃ data pieces, Encodes data M P pieces ∧ ∀ i < M + P, dataAt shards i = dataAt pieces i
  altered : M ≤ P → ∀ data pieces, Encodes data M P pieces →
    (∀ i, M ≤ i → i < M + P → dataAt shards i = dataAt pieces i) →
      verifyShards shards M P = .ok ((List.range (M + P)).filter fun i => dataAt shards i ≠ dataAt pieces i)

/-- Some shard is no beginning of its piece of the payload that the shards are taken for. -/
def ShowsCut (M P : ℕ) (shards : List Shard) : Prop :=
  ∀ taken pieces, TakenFor shards M P taken → encode taken M P = .ok pieces →
    ∃ i < M + P, ¬ dataAt shards i <+: dataAt pieces i

/-- The shards are all as long as the first; or one of them shows that they were cut, and, where the parity shards are
enough and are those of a payload, they are beginnings of those of that payload at the length of the first shard, and
the data shards that are not its own are not. -/
def Discernible (M P : ℕ) (shards : List Shard) : Prop :=
  (∀ i < M + P, (dataAt shards i).length = (dataAt shards 0).length) ∨
    ShowsCut M P shards ∧
    (M ≤ P → ∀ data pieces, Encodes data M P pieces →
      (∀ i, M ≤ i → i < M + P → dataAt shards i = dataAt pieces i) →
        ∀ pieces', encode (fit (M * (dataAt shards 0).length) data) M P = .ok pieces' →
          (∀ i, M ≤ i → i < M + P → dataAt shards i <+: dataAt pieces' i) ∧
          ∀ i < M, dataAt shards i ≠ dataAt pieces i → ¬ dataAt shards i <+: dataAt pieces' i)

theorem prefix_iff_getD {a b : Bytes} :
    a <+: b ↔ a.length ≤ b.length ∧ ∀ pos < a.length, a.getD pos 0 = b.getD pos 0 := by
  rw [List.prefix_iff_getElem?]
  constructor
  · intro h
    have hbegins : a <+: b := List.prefix_iff_getElem?.mpr h
    refine ⟨hbegins.length_le, fun pos hpos => ?_⟩
    rw [List.getD_eq_getElem?_getD, List.getD_eq_getElem?_getD, h pos hpos, List.getElem?_eq_getElem hpos]
  · rintro ⟨hlength, h⟩ pos hpos
    have hbyte := h pos hpos
    rw [List.getD_eq_getElem _ _ hpos, List.getD_eq_getElem _ _ (hpos.trans_le hlength)] at hbyte
    rw [List.getElem?_eq_getElem (hpos.trans_le hlength), hbyte]

theorem Encoded.dataAt_lt (h : Encoded data M P pieces) {i : ℕ} (hi : i < M) :
    dataAt pieces i = (padAndSplit data M).getD i [] :=
  (h.codeword i (by omega)).unique (chunk_codeword hi)

theorem Encoded.prefix_of_parity {data' : Bytes} {pieces' : List Shard} (h : Encoded data M P pieces)
    (h' : Encoded data' M P pieces') (henough : M ≤ P)
    (hparity : ∀ i, M ≤ i → i < M + P → dataAt pieces i <+: dataAt pieces' i) {i : ℕ} (hi : i < M) :
    dataAt pieces i <+: dataAt pieces' i := by
  have hlength : shardSize data M ≤ shardSize data' M := by
    have hfirst := (hparity M le_rfl (by omega)).length_le
    rwa [(h.codeword M (by omega)).length, (h'.codeword M (by omega)).length] at hfirst
  refine prefix_iff_getD.mpr ⟨?_, fun pos hpos => ?_⟩
  · rwa [(h.codeword i (by omega)).length, (h'.codeword i (by omega)).length]
  · rw [(h.codeword i (by omega)).length] at hpos
    have hsame : rawAt data M i pos = rawAt data' M i pos := by
      refine rawAt_of_parity h.total henough (fun k hk => GFByte.ext ?_) hi
      have hcodeword := h.codeword (M + k) (by omega)
      have hbyte := (prefix_iff_getD.mp (hparity (M + k) (by omega) (by omega))).2 pos (by rwa [hcodeword.length])
      rwa [hcodeword.get pos hpos, (h'.codeword (M + k) (by omega)).get pos (hpos.trans_le hlength)] at hbyte
    rw [h.dataAt_lt hi, h'.dataAt_lt hi]
    exact congrArg GFByte.byte hsame

theorem Encodes.size (h : Encodes data M P pieces) {i : ℕ} (hi : i < M + P) :
    (dataAt pieces i).length = (dataAt pieces 0).length :=
  (encoded h.1).size h.2 hi

theorem Encodes.takenFor (h : Encodes data M P pieces) (hsame : ∀ i < M + P, dataAt shards i = dataAt pieces i) :
    TakenFor shards M P data := by
  have hencoded := encoded h.1
  have hM := hencoded.one_le
  have hP := hencoded.parity
  have hfit : ∀ i < M + P, fit (dataAt shards 0).length (dataAt shards i) = dataAt pieces i := by
    intro i hi
    rw [hsame 0 (by omega), hsame i hi, ← h.size hi, fit_self]
  have hwhole : fit (M * (dataAt shards 0).length) data = data := by
    rw [hsame 0 (by omega), ← h.2, fit_self]
  rw [TakenFor]
  split_ifs with henough
  · have hlength : (dataAt shards M).length = (dataAt shards 0).length := by
      rw [hsame M (by omega), hsame 0 (by omega), h.size (by omega)]
    refine ⟨data, pieces, h.1, ?_, fun k hk => ?_, hwhole.symm⟩
    · rw [hlength, hsame 0 (by omega), h.2]
    · rw [hlength, hfit _ (by omega)]
  · have hpieces : (List.range M).map (fun i => fit (dataAt shards 0).length (dataAt shards i)) = padAndSplit data M := by
      refine List.ext_getElem (by rw [List.length_map, List.length_range, padAndSplit_length]) fun i hi hi' => ?_
      rw [List.length_map, List.length_range] at hi
      rw [List.getElem_map, List.getElem_range, hfit i (by omega), hencoded.dataAt_lt hi, List.getD_eq_getElem _ _ hi']
    rw [hpieces, flatten_padAndSplit hM, padded_self hM h.2]

/-- Numbers of shards that cannot be encoded make the call throw. -/
theorem Complete.valid (h : Complete M P shards) {found : List ℕ} (hverify : verifyShards shards M P = .ok found) :
    1 ≤ M ∧ 1 ≤ P ∧ M + P ≤ 255 := by
  rcases Nat.eq_zero_or_pos (M + P) with hzero | hpos
  · have hnone : shards = [] := by
      have hlength := h.indices.length_eq
      rw [List.length_map, List.length_range, hzero] at hlength
      exact List.length_eq_zero_iff.mp hlength
    have hthrows : verifyShards [] M P = .error .typeError := by simp [verifyShards, sortByIndex]
    rw [hnone, hthrows] at hverify
    cases hverify
  · rw [h.verify_eq hpos] at hverify
    obtain ⟨_, _, hverify⟩ := (Guarded.bind_ok ..).mp hverify
    obtain ⟨_, hencode, _⟩ := (Guarded.bind_ok ..).mp hverify
    have hencoded := encoded hencode
    exact ⟨hencoded.one_le, hencoded.parity, hencoded.total⟩

theorem Complete.nil_of_encodes (h : Complete M P shards) (hencodes : Encodes data M P pieces)
    (hsame : ∀ i < M + P, dataAt shards i = dataAt pieces i) : verifyShards shards M P = .ok [] := by
  refine (h.verify_nil (hencodes.takenFor hsame) hencodes.1).mpr fun i hi => ?_
  rw [hsame i hi]

theorem Complete.encodes_of_nil (h : Complete M P shards)
    (hlength : ∀ i < M + P, (dataAt shards i).length = (dataAt shards 0).length)
    (hverify : verifyShards shards M P = .ok []) :
    ∃ data pieces, Encodes data M P pieces ∧ ∀ i < M + P, dataAt shards i = dataAt pieces i := by
  obtain ⟨hM, hP, hMP⟩ := h.valid hverify
  obtain ⟨taken, htaken⟩ := exists_takenFor hM hP hMP shards
  obtain ⟨payloads, _, _, hencode⟩ := encode_ok taken hM hP hMP
  have hsize : ∀ i < M + P, (dataAt _ i).length = (dataAt shards 0).length := fun i hi =>
    (encoded hencode).size htaken.length hi
  have hbegins := (h.verify_nil htaken hencode).mp hverify
  refine ⟨taken, _, ⟨hencode, ?_⟩, fun i hi => (hbegins i hi).eq_of_length ?_⟩
  · rw [hsize 0 (by omega), htaken.length]
  · rw [hlength i hi, hsize i hi]

theorem Complete.verify_parity (h : Complete M P shards) (henough : M ≤ P) (hencodes : Encodes data M P pieces)
    (hparity : ∀ i, M ≤ i → i < M + P → dataAt shards i = dataAt pieces i) {pieces' : List Shard}
    (htaken : encode (fit (M * (dataAt shards 0).length) data) M P = .ok pieces') :
    verifyShards shards M P = .ok (reported M P shards pieces') := by
  have hM := (encoded hencodes.1).one_le
  have hlength : (dataAt shards M).length = (dataAt pieces 0).length := by
    rw [hparity M le_rfl (by omega), hencodes.size (by omega)]
  refine h.verify_canonical henough hencodes.1 (by rw [hlength, hencodes.2]) (fun k hk => ?_) htaken
  rw [hparity (M + k) (by omega) (by omega), hlength, ← hencodes.size (show M + k < M + P by omega), fit_self]

theorem reported_eq_iff {pieces' : List Shard} :
    reported M P shards pieces' = (List.range (M + P)).filter (fun i => dataAt shards i ≠ dataAt pieces i) ↔
      ∀ i < M + P, dataAt shards i <+: dataAt pieces' i ↔ dataAt shards i = dataAt pieces i := by
  constructor
  · intro heq i hi
    have hmem : i ∈ reported M P shards pieces' ↔
        i ∈ (List.range (M + P)).filter fun i => dataAt shards i ≠ dataAt pieces i := by rw [heq]
    simpa [reported, List.mem_filter, hi, not_iff_not] using hmem
  · intro h
    refine List.filter_congr fun i hi => ?_
    rw [decide_eq_decide, h i (List.mem_range.mp hi)]

theorem Complete.finds_of_length (h : Complete M P shards)
    (hlength : ∀ i < M + P, (dataAt shards i).length = (dataAt shards 0).length) : FindsEvery M P shards := by
  refine ⟨⟨h.encodes_of_nil hlength, fun ⟨_, _, hencodes, hsame⟩ => h.nil_of_encodes hencodes hsame⟩,
    fun henough data pieces hencodes hparity => ?_⟩
  have hM := (encoded hencodes.1).one_le
  have hsize : (dataAt pieces 0).length = (dataAt shards 0).length := by
    rw [← hlength M (by omega), hparity M le_rfl (by omega), hencodes.size (show M < M + P by omega)]
  have hwhole : fit (M * (dataAt shards 0).length) data = data := by rw [← hsize, ← hencodes.2, fit_self]
  rw [h.verify_parity henough hencodes hparity (hwhole.symm ▸ hencodes.1), Except.ok.injEq, reported_eq_iff]
  intro i hi
  refine ⟨fun hbegins => hbegins.eq_of_length ?_, fun heq => by rw [heq]⟩
  rw [hlength i hi, hencodes.size hi, hsize]

theorem Complete.nil_iff_showsCut (h : Complete M P shards)
    (hlength : ¬ ∀ i < M + P, (dataAt shards i).length = (dataAt shards 0).length) :
    (verifyShards shards M P = .ok [] ↔
      ∃ data pieces, Encodes data M P pieces ∧ ∀ i < M + P, dataAt shards i = dataAt pieces i) ↔
        ShowsCut M P shards := by
  have hnone : ¬ ∃ data pieces, Encodes data M P pieces ∧ ∀ i < M + P, dataAt shards i = dataAt pieces i := by
    rintro ⟨data, pieces, hencodes, hsame⟩
    refine hlength fun i hi => ?_
    rw [hsame i hi, hsame 0 (by omega), hencodes.size hi]
  rw [iff_false_right hnone]
  constructor
  · intro hsome taken pieces htaken hencode
    by_contra hall
    simp only [not_exists, not_and, not_not] at hall
    exact hsome ((h.verify_nil htaken hencode).mpr hall)
  · intro hcut hverify
    obtain ⟨hM, hP, hMP⟩ := h.valid hverify
    obtain ⟨taken, htaken⟩ := exists_takenFor hM hP hMP shards
    obtain ⟨payloads, _, _, hencode⟩ := encode_ok taken hM hP hMP
    obtain ⟨i, hi, hne⟩ := hcut taken _ htaken hencode
    exact hne ((h.verify_nil htaken hencode).mp hverify i hi)

theorem Complete.altered_iff (h : Complete M P shards) (henough : M ≤ P) (hencodes : Encodes data M P pieces)
    (hparity : ∀ i, M ≤ i → i < M + P → dataAt shards i = dataAt pieces i) {pieces' : List Shard}
    (htaken : encode (fit (M * (dataAt shards 0).length) data) M P = .ok pieces') :
    verifyShards shards M P = .ok ((List.range (M + P)).filter fun i => dataAt shards i ≠ dataAt pieces i) ↔
      (∀ i, M ≤ i → i < M + P → dataAt shards i <+: dataAt pieces' i) ∧
        ∀ i < M, dataAt shards i ≠ dataAt pieces i → ¬ dataAt shards i <+: dataAt pieces' i := by
  rw [h.verify_parity henough hencodes hparity htaken, Except.ok.injEq, reported_eq_iff]
  constructor
  · intro hfound
    exact ⟨fun i hi hi' => (hfound i hi').mpr (hparity i hi hi'),
      fun i hi hne hbegins => hne ((hfound i (by omega)).mp hbegins)⟩
  · rintro ⟨hbeginning, hdifferent⟩ i hi
    by_cases hdata : i < M
    · by_cases heq : dataAt shards i = dataAt pieces i
      · refine iff_of_true ?_ heq
        rw [heq]
        refine (encoded hencodes.1).prefix_of_parity (encoded htaken) henough (fun j hj hj' => ?_) hdata
        rw [← hparity j hj hj']
        exact hbeginning j hj hj'
      · exact iff_of_false (hdifferent i hdata heq) heq
    · have hi' := Nat.le_of_not_lt hdata
      exact iff_of_true (hbeginning i hi' hi) (hparity i hi' hi)

/-- Every inconsistency is found where the shards have one length, and otherwise where what is left of them shows it. -/
theorem verifyShards_exact_iff (h : Complete M P shards) : FindsEvery M P shards ↔ Discernible M P shards := by
  by_cases hlength : ∀ i < M + P, (dataAt shards i).length = (dataAt shards 0).length
  · exact iff_of_true (h.finds_of_length hlength) (Or.inl hlength)
  · rw [Discernible, or_iff_right hlength]
    constructor
    · rintro ⟨hnone, haltered⟩
      refine ⟨(h.nil_iff_showsCut hlength).mp hnone, fun henough data pieces hencodes hparity pieces' hencode' => ?_⟩
      exact (h.altered_iff henough hencodes hparity hencode').mp (haltered henough data pieces hencodes hparity)
    · rintro ⟨hcut, haltered⟩
      refine ⟨(h.nil_iff_showsCut hlength).mpr hcut, fun henough data pieces hencodes hparity => ?_⟩
      have hencoded := encoded hencodes.1
      obtain ⟨payloads, _, _, hencode'⟩ :=
        encode_ok (fit (M * (dataAt shards 0).length) data) hencoded.one_le hencoded.parity hencoded.total
      exact (h.altered_iff henough hencodes hparity hencode').mpr
        (haltered henough data pieces hencodes hparity _ hencode')

/-- The shards of the payload 7, 4, out of order and with the first of them altered. -/
def alteredFirst : List Shard :=
  [⟨3, false, [244], none, none⟩, ⟨0, true, [1], none, none⟩, ⟨2, false, [122], none, none⟩, ⟨1, true, [4], none, none⟩]

theorem verifyShards_exact_two : FindsEvery 2 2 alteredFirst ∧ verifyShards alteredFirst 2 2 = .ok [0] := by
  have hfinds : FindsEvery 2 2 alteredFirst :=
    (verifyShards_exact_iff ⟨by decide, by decide⟩).mpr (Or.inl (by decide))
  obtain ⟨pieces, hencode, hsize, hfound⟩ : ∃ pieces, encode [7, 4] 2 2 = .ok pieces ∧ (dataAt pieces 0).length = 1 ∧
      ((List.range 4).filter fun i => dataAt alteredFirst i ≠ dataAt pieces i) = [0] :=
    ⟨_, rfl, by decide +kernel, by decide +kernel⟩
  have haltered := hfinds.altered (le_refl 2) _ pieces ⟨hencode, by rw [hsize]; rfl⟩ fun i hlow hhigh => by
    by_contra hne
    have hmem : i ∈ [0] := hfound ▸ List.mem_filter.mpr ⟨List.mem_range.mpr hhigh, decide_eq_true hne⟩
    rw [List.mem_singleton] at hmem
    omega
  exact ⟨hfinds, haltered.trans (congrArg Except.ok hfound)⟩

/-- A parity shard of which nothing is left. -/
def cutShort : List Shard :=
  [⟨0, true, [7], none, none⟩, ⟨1, true, [9], none, none⟩, ⟨2, false, [], none, none⟩]

/-- Nothing is found in them, but they are no payload's shards. -/
theorem verifyShards_cutShort :
    Complete 2 1 cutShort ∧ verifyShards cutShort 2 1 = .ok [] ∧ ¬ FindsEvery 2 1 cutShort := by
  have hcomplete : Complete 2 1 cutShort := ⟨by decide, by decide⟩
  have htaken : TakenFor cutShort 2 1 [7, 9] := by
    rw [TakenFor, if_neg (by decide)]
    decide
  obtain ⟨payloads, _, _, hencode⟩ := encode_ok (M := 2) (P := 1) [7, 9] (by decide) (by decide) (by decide)
  have hverify : verifyShards cutShort 2 1 = .ok [] := by
    refine (hcomplete.verify_nil htaken hencode).mpr fun i hi => ?_
    by_cases hdata : i < 2
    · have hpieces : ∀ i < 2, dataAt cutShort i <+: (padAndSplit [7, 9] 2).getD i [] := by decide
      rw [(encoded hencode).dataAt_lt hdata]
      exact hpieces i hdata
    · obtain rfl : i = 2 := by omega
      exact List.nil_prefix
  refine ⟨hcomplete, hverify, fun hfinds => ?_⟩
  obtain ⟨data, pieces, hencodes, hsame⟩ := hfinds.none_iff.mp hverify
  have hsize := hencodes.size (show 2 < 2 + 1 by decide)
  rw [← hsame 2 (by decide), ← hsame 0 (by decide)] at hsize
  exact absurd hsize (by decide)

end ChainGuard.OffChain.ErasureCoding
