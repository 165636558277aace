import ChainGuard.Library.CauchyRows
import ChainGuard.OffChain.GFMatrices

/-! A payload is recovered from any of its shards that are as many as it was split into: the rows of the
encoding matrix that belong to them are inverted, whichever they are. -/
namespace ChainGuard.OffChain.ErasureCoding
open Loops GFMatrix
set_option autoImplicit false

variable {M P : ℕ} {data : Bytes}

/-! ## Encoding matrix -/

/-- The byte that stands for a column or a row. -/
def point (i : ℕ) : GFByte := ⟨UInt8.ofNat i⟩

theorem point_inj {i j : ℕ} (hi : i < 256) (hj : j < 256) (h : point i = point j) : i = j := by
  have hbyte : (UInt8.ofNat i).toNat = (UInt8.ofNat j).toNat := congrArg (fun a => a.byte.toNat) h
  rwa [GFByte.toNat_ofNat_lt hi, GFByte.toNat_ofNat_lt hj] at hbyte

/-- The identity over a Cauchy matrix. -/
def encoding (M : ℕ) : ℕ → ℕ → GFByte := fun r c =>
  if r < M then (if r = c then 1 else 0) else (point c - point r)⁻¹

theorem buildCauchyMatrix_holds (h : M + P ≤ 256) :
    ∃ m, buildCauchyMatrix P M = .ok m ∧ m.Holds P M fun r c => (point c - point (r + M))⁻¹ := by
  obtain ⟨m, hrun, hm⟩ := (holds_new P M).tryFill (g := fun r c => (point c - point (r + M))⁻¹) (o := 0) (k := P)
    (b := fun r c m => do
      let v ← gfDiv 1 (gfAdd (UInt8.ofNat c) (UInt8.ofNat (M + r)))
      return m.set r c v) le_rfl fun r hr c hc m => by
        have hne : point c + point (M + r) ≠ 0 := fun hzero => by
          have hsame := point_inj (by omega) (by omega) (sub_eq_zero.mp hzero)
          omega
        have hdiv : gfDiv 1 (gfAdd (UInt8.ofNat c) (UInt8.ofNat (M + r))) =
            .ok ((point c + point (M + r))⁻¹ * 1).byte := GFByte.gfDiv_byte 1 hne
        rw [hdiv, mul_one, Nat.add_comm M r]
        rfl
  refine ⟨m, ?_, hm.congr fun r hr c _ => if_pos ⟨Nat.zero_le r, hr⟩⟩
  rw [buildCauchyMatrix, if_neg (by simp only [GF_SIZE]; omega)]
  exact hrun

theorem buildEncodingMatrix_holds (h : M + P ≤ 256) :
    ∃ m, buildEncodingMatrix M P = .ok m ∧ m.Holds (M + P) M (encoding M) := by
  obtain ⟨cauchy, hcauchy, hget⟩ := buildCauchyMatrix_holds h
  have hidentity := upTo_spec (n := M) (s := GFMatrix.new (M + P) M) (f := fun r enc => enc.set r r 1)
    (P := fun k (m : GFMatrix) => m.Holds (M + P) M fun r c => if r = c ∧ r < k then 1 else 0)
    ((holds_new _ _).unwritten fun r c => by omega)
    fun r hr enc henc => henc.write (by omega) hr rfl fun r' c _ => by omega
  have hfill := hidentity.fill (v := fun r c => cauchy.get r c) (g := fun r c => (point c - point r)⁻¹) (o := M) (k := P)
    (by omega) fun r hr c hc => hget.get r hr c hc
  refine ⟨_, by rw [buildEncodingMatrix, hcauchy]; rfl, hfill.congr fun r hr c _ => ?_⟩
  by_cases hdata : r < M
  · simp [encoding, hdata, Nat.not_le.mpr hdata]
  · rw [if_pos (by omega), encoding, if_neg hdata]

theorem row_eq_encoding (a : Fin (M + P)) (c : Fin M) :
    CauchyRows.row (fun c : Fin M => point c) (fun k : Fin P => point (M + k)) (finSumFinEquiv.symm a) c =
      encoding M a c := by
  obtain ⟨s, rfl⟩ := finSumFinEquiv.surjective a
  rw [Equiv.symm_apply_apply]
  cases s with
  | inl r =>
    rw [finSumFinEquiv_apply_left, encoding, if_pos (show (Fin.castAdd P r : ℕ) < M from r.isLt)]
    simp only [CauchyRows.row, Pi.single_apply, Fin.ext_iff, Fin.val_castAdd, eq_comm]
  | inr k =>
    have hk : ¬(Fin.natAdd M k : ℕ) < M := not_lt.mpr (Nat.le_add_right M k)
    rw [finSumFinEquiv_apply_right, encoding, if_neg hk]
    rfl

/-- As many different rows as there are columns annihilate no vector but zero. -/
theorem encoding_kernel {rowIndices : List ℕ} (h : M + P ≤ 256) (hlength : rowIndices.length = M)
    (hnodup : rowIndices.Nodup) (hrows : ∀ i ∈ rowIndices, i < M + P) (v : Fin M → GFByte)
    (hv : (square M fun r => encoding M (rowIndices.getD r 0)).mulVec v = 0) : v = 0 := by
  have hbound : ∀ i : Fin M, rowIndices.getD i 0 < M + P := fun i => by
    have hi : (i : ℕ) < rowIndices.length := by rw [hlength]; exact i.isLt
    rw [List.getD_eq_getElem _ _ hi]
    exact hrows _ (List.getElem_mem hi)
  have hdistinct : ∀ i j : Fin M, rowIndices.getD i 0 = rowIndices.getD j 0 → i = j := fun i j hij => by
    have hi : (i : ℕ) < rowIndices.length := by rw [hlength]; exact i.isLt
    have hj : (j : ℕ) < rowIndices.length := by rw [hlength]; exact j.isLt
    rw [List.getD_eq_getElem _ _ hi, List.getD_eq_getElem _ _ hj] at hij
    exact Fin.ext (hnodup.getElem_inj_iff.mp hij)
  refine CauchyRows.eq_zero_of_rows (e := fun i : Fin M => finSumFinEquiv.symm ⟨rowIndices.getD i 0, hbound i⟩)
    (x := fun c : Fin M => point c) (y := fun k : Fin P => point (M + k)) ?_ ?_ ?_ ?_ le_rfl fun i => ?_
  · exact fun c c' hcc => Fin.ext (point_inj (by omega) (by omega) hcc)
  · intro k k' hkk
    have hsame := point_inj (by omega) (by omega) hkk
    exact Fin.ext (by omega)
  · intro c k hck
    have hsame := point_inj (by omega) (by omega) hck
    omega
  · intro i j hij
    exact hdistinct i j (Fin.ext_iff.mp (finSumFinEquiv.symm.injective hij))
  · have hrow := congrFun hv i
    rw [Finset.sum_congr rfl fun c _ => by rw [row_eq_encoding]]
    exact hrow

/-- The products of rows and columns are the identity's entries. -/
def Inverse (n : ℕ) (a b : GFMatrix) : Prop :=
  ∀ r < n, ∀ c < n, gfSum n (fun k => gfMul (a.get r k) (b.get k c)) = if r = c then 1 else 0

theorem inverse_of_mul {a b : GFMatrix} {f g : ℕ → ℕ → GFByte} (ha : a.Holds M M f) (hb : b.Holds M M g)
    (h : square M f * square M g = 1) : Inverse M a b := by
  intro r hr c hc
  have hentry : ∑ k : Fin M, f r k * g k c = if r = c then 1 else 0 := by
    have happly := congrFun (congrFun h ⟨r, hr⟩) ⟨c, hc⟩
    simp only [Matrix.one_apply, Fin.mk.injEq] at happly
    exact happly
  rw [GFByte.gfSum_byte (t := fun k => f r k * g k c) fun k hk => by rw [ha.get r hr k hk, hb.get k hk c hc]; rfl, hentry]
  split <;> rfl

theorem selected_invert {rowIndices : List ℕ} {m : GFMatrix} (hm : m.Holds (M + P) M (encoding M)) (h : M + P ≤ 256)
    (hlength : rowIndices.length = M) (hnodup : rowIndices.Nodup) (hrows : ∀ i ∈ rowIndices, i < M + P) :
    ∃ inv w, (m.subsetRows rowIndices).invert = .ok inv ∧ inv.Holds M M w ∧
      square M w * square M (fun r => encoding M (rowIndices.getD r 0)) = 1 := by
  have hsub := subsetRows_holds hm hrows
  rw [hlength] at hsub
  exact invert_holds hsub (encoding_kernel h hlength hnodup hrows)

/-! ## Shards -/

theorem shardSize_mul_ge (hM : 1 ≤ M) : data.length ≤ shardSize data M * M := by
  have hmod := Nat.div_add_mod (data.length + M - 1) M
  have hlt := Nat.mod_lt (data.length + M - 1) (show 0 < M from hM)
  rw [Nat.mul_comm] at hmod
  unfold shardSize
  omega

def padded (data : Bytes) (dataShards : ℕ) : Bytes :=
  data ++ List.replicate (shardSize data dataShards * dataShards - data.length) 0

theorem padded_length (hM : 1 ≤ M) : (padded data M).length = M * shardSize data M := by
  have hge : data.length ≤ shardSize data M * M := shardSize_mul_ge hM
  rw [padded, List.length_append, List.length_replicate, Nat.mul_comm M]
  omega

theorem padAndSplit_eq (data : Bytes) (M : ℕ) :
    padAndSplit data M = (List.range M).map fun i => ((padded data M).drop (i * shardSize data M)).take (shardSize data M) :=
  rfl

theorem padAndSplit_length (data : Bytes) (M : ℕ) : (padAndSplit data M).length = M := by
  rw [padAndSplit_eq, List.length_map, List.length_range]

theorem padAndSplit_getD {d : ℕ} (hd : d < M) :
    (padAndSplit data M).getD d [] = ((padded data M).drop (d * shardSize data M)).take (shardSize data M) := by
  rw [List.getD_eq_getElem _ _ (by rw [padAndSplit_length]; exact hd)]
  simp only [padAndSplit_eq, List.getElem_map, List.getElem_range]

theorem chunk_length {d : ℕ} (hd : d < M) : ((padAndSplit data M).getD d []).length = shardSize data M := by
  have hsucc := Nat.mul_le_mul_right (shardSize data M) (Nat.succ_le_of_lt hd)
  rw [Nat.succ_mul] at hsucc
  rw [padAndSplit_getD hd, List.length_take, List.length_drop, padded_length (Nat.one_le_of_lt hd)]
  omega

theorem flatten_chunks {α : Type} (l : List α) (k n : ℕ) :
    ((List.range n).map fun i => (l.drop (i * k)).take k).flatten = l.take (n * k) := by
  induction n with
  | zero => simp
  | succ n ih =>
    rw [List.range_succ, List.map_append, List.flatten_append, ih, Nat.succ_mul, List.take_add]
    simp

theorem flatten_padAndSplit (hM : 1 ≤ M) : (padAndSplit data M).flatten = padded data M := by
  rw [padAndSplit_eq, flatten_chunks, ← padded_length hM, List.take_length]

/-- A byte of the payload in its place. -/
def rawAt (data : Bytes) (M d pos : ℕ) : GFByte := ⟨((padAndSplit data M).getD d []).getD pos 0⟩

/-- What the `i`-th row of the encoding matrix makes of the payload. -/
structure Codeword (data : Bytes) (M i : ℕ) (bytes : Bytes) : Prop where
  length : bytes.length = shardSize data M
  get : ∀ pos < shardSize data M, bytes.getD pos 0 = (∑ d : Fin M, encoding M i d * rawAt data M d pos).byte

theorem chunk_codeword {d : ℕ} (hd : d < M) : Codeword data M d ((padAndSplit data M).getD d []) := by
  refine ⟨chunk_length hd, fun pos _ => ?_⟩
  have hsum : ∑ e : Fin M, encoding M d e * rawAt data M e pos = rawAt data M d pos := by
    rw [Finset.sum_eq_single_of_mem (⟨d, hd⟩ : Fin M) (Finset.mem_univ _)]
    · simp [encoding, hd]
    · intro e _ hne
      have hne' : d ≠ e := fun h => hne (Fin.ext h.symm)
      simp [encoding, hd, hne']
  rw [hsum]
  rfl

def shardOf (dataShards index : ℕ) (shardData : Bytes) : Shard :=
  { index, isData := decide (index < dataShards), data := shardData, cid := none, node := none }

theorem encode_ok (data : Bytes) (hM : 1 ≤ M) (hP : 1 ≤ P) (hMP : M + P ≤ 255) :
    ∃ payloads : List Bytes, payloads.length = M + P ∧ (∀ i < M + P, Codeword data M i (payloads.getD i [])) ∧
      encode data M P = .ok (payloads.mapIdx (shardOf M)) := by
  obtain ⟨m, hm, hget⟩ := buildEncodingMatrix_holds (M := M) (P := P) (by omega)
  have hsize : ((padAndSplit data M).headD []).length = shardSize data M := by
    have hfirst : ((padAndSplit data M).getD 0 []).length = shardSize data M := chunk_length hM
    rw [← hfirst, List.headD_eq_head?_getD, List.getD_eq_getElem?_getD, List.head?_eq_getElem?]
  refine ⟨padAndSplit data M ++ (List.range P).map fun p => (List.range (shardSize data M)).map fun bytePos =>
    gfSum M fun d => gfMul (m.get (M + p) d) (((padAndSplit data M).getD d []).getD bytePos 0), ?_, ?_, ?_⟩
  · rw [List.length_append, padAndSplit_length, List.length_map, List.length_range]
  · intro i hi
    by_cases hdata : i < M
    · rw [List.getD_append _ _ _ _ (by rw [padAndSplit_length]; exact hdata)]
      exact chunk_codeword hdata
    · rw [List.getD_append_right _ _ _ _ (by rw [padAndSplit_length]; omega), padAndSplit_length,
        List.getD_eq_getElem _ _ (by rw [List.length_map, List.length_range]; omega)]
      simp only [List.getElem_map, List.getElem_range]
      refine ⟨by rw [List.length_map, List.length_range], fun pos hpos => ?_⟩
      rw [List.getD_eq_getElem _ _ (by rw [List.length_map, List.length_range]; exact hpos)]
      simp only [List.getElem_map, List.getElem_range]
      refine GFByte.gfSum_byte (t := fun d => encoding M i d * rawAt data M d pos) fun d hd => ?_
      rw [show M + (i - M) = i by omega, hget.get i hi d hd]
      rfl
  · have hlow : ¬M < 1 := by omega
    have hlow' : ¬P < 1 := by omega
    have hhigh : ¬GF_SIZE - 1 < M + P := by simp only [GF_SIZE]; omega
    simp only [encode, if_neg hlow, if_neg hlow', if_neg hhigh, hm, hsize]
    rfl

def Genuine (data : Bytes) (M P : ℕ) (s : Shard) : Prop := s.index < M + P ∧ Codeword data M s.index s.data

theorem encode_genuine {payloads : List Bytes} (hlength : payloads.length = M + P)
    (hpayloads : ∀ i < M + P, Codeword data M i (payloads.getD i [])) :
    ∀ s ∈ payloads.mapIdx (shardOf M), Genuine data M P s := by
  intro s hs
  obtain ⟨i, hi, rfl⟩ := List.mem_mapIdx.mp hs
  refine ⟨by rw [← hlength]; exact hi, ?_⟩
  have hcodeword := hpayloads i (by rw [← hlength]; exact hi)
  rwa [List.getD_eq_getElem _ _ hi] at hcodeword

/-! ## Decoding -/

theorem sortByIndex_perm (shards : List Shard) : (sortByIndex shards).Perm shards := List.mergeSort_perm _ _

/-- A shard that is read as its index' codeword; bytes that are not there are read as zero. -/
def Reads (data : Bytes) (M : ℕ) (s : Shard) : Prop :=
  ∀ pos < shardSize data M, s.data.getD pos 0 = (∑ d : Fin M, encoding M s.index d * rawAt data M d pos).byte

/-- The inverse applied to the codewords gives the pieces back. -/
theorem reconstructed_eq {selected : List Shard} {inv : GFMatrix} {w : ℕ → ℕ → GFByte}
    (hselected : ∀ s ∈ selected, Reads data M s) (hlength : selected.length = M) (hinv : inv.Holds M M w)
    (hmul : square M w * square M (fun r => encoding M ((selected.map Shard.index).getD r 0)) = 1) :
    ((List.range M).map fun d => (List.range (shardSize data M)).map fun bytePos =>
      gfSum M fun s => gfMul (inv.get d s) (((selected.map Shard.data).getD s []).getD bytePos 0)) =
    padAndSplit data M := by
  have hbyte : ∀ s < M, ∀ pos < shardSize data M, ((selected.map Shard.data).getD s []).getD pos 0 =
      (∑ e : Fin M, encoding M ((selected.map Shard.index).getD s 0) e * rawAt data M e pos).byte := by
    intro s hs pos hpos
    have hs' : s < selected.length := by rw [hlength]; exact hs
    have hreads := hselected _ (List.getElem_mem hs')
    rw [List.getD_eq_getElem (selected.map Shard.data) [] (by rw [List.length_map]; exact hs'),
      List.getD_eq_getElem (selected.map Shard.index) 0 (by rw [List.length_map]; exact hs'), List.getElem_map,
      List.getElem_map]
    exact hreads pos hpos
  refine List.ext_getElem (by rw [List.length_map, List.length_range, padAndSplit_length]) fun d hd hd' => ?_
  have hdM : d < M := by rwa [List.length_map, List.length_range] at hd
  have hchunk : (padAndSplit data M)[d].length = shardSize data M := by
    rw [← List.getD_eq_getElem _ [] hd']
    exact chunk_length hdM
  rw [List.getElem_map, List.getElem_range]
  refine List.ext_getElem (by rw [List.length_map, List.length_range, hchunk]) fun pos hpos hpos' => ?_
  have hpos : pos < shardSize data M := by rwa [List.length_map, List.length_range] at hpos
  rw [List.getElem_map, List.getElem_range, GFByte.gfSum_byte (t := fun s => w d s *
    ∑ e : Fin M, encoding M ((selected.map Shard.index).getD s 0) e * rawAt data M e pos) fun s hs => by
      rw [hinv.get d hdM s hs, hbyte s hs pos hpos]
      rfl]
  -- the sums change places, and the inverse meets the rows of the encoding
  have hentry : ∀ e : Fin M, ∑ s : Fin M, w d s * encoding M ((selected.map Shard.index).getD s 0) e =
      if (⟨d, hdM⟩ : Fin M) = e then 1 else 0 := fun e => by
    rw [← Matrix.one_apply, ← hmul]
    rfl
  have hsum : ∑ s : Fin M, w d s * ∑ e : Fin M, encoding M ((selected.map Shard.index).getD s 0) e *
      rawAt data M e pos = rawAt data M d pos := by
    calc _ = ∑ s : Fin M, ∑ e : Fin M, w d s * encoding M ((selected.map Shard.index).getD s 0) e *
          rawAt data M e pos := Finset.sum_congr rfl fun s _ => by
            rw [Finset.mul_sum]
            exact Finset.sum_congr rfl fun e _ => (mul_assoc _ _ _).symm
      _ = ∑ e : Fin M, (∑ s : Fin M, w d s * encoding M ((selected.map Shard.index).getD s 0) e) *
          rawAt data M e pos := by
            rw [Finset.sum_comm]
            exact Finset.sum_congr rfl fun e _ => (Finset.sum_mul _ _ _).symm
      _ = rawAt data M d pos := by
            rw [Finset.sum_congr rfl fun e _ => by rw [hentry e, ite_mul, one_mul, zero_mul], Finset.sum_ite_eq,
              if_pos (Finset.mem_univ _)]
  rw [hsum, rawAt, ← List.getD_eq_getElem _ 0 hpos', ← List.getD_eq_getElem _ [] hd']

theorem decode_reads {shards : List Shard} {size : Option ℕ} (hM : 1 ≤ M) (hMP : M + P ≤ 255)
    (hindex : ∀ s ∈ shards, s.index < M + P) (hnodup : (shards.map Shard.index).Nodup) (henough : M ≤ shards.length)
    (hreads : ∀ s ∈ shards, Reads data M s)
    (hsize : ∀ s ∈ ((sortByIndex shards).take M).head?, s.data.length = shardSize data M) :
    decode shards M P size = .ok (size.elim (padded data M) fun size => (padded data M).take size) := by
  obtain ⟨m, hm, hget⟩ := buildEncodingMatrix_holds (M := M) (P := P) (by omega)
  have hperm := sortByIndex_perm shards
  generalize hsel : (sortByIndex shards).take M = selected at hsize
  have hselected : ∀ s ∈ selected, s ∈ shards := fun s hs => by
    rw [← hsel] at hs
    exact hperm.mem_iff.mp (List.mem_of_mem_take hs)
  have hlength : selected.length = M := by
    rw [← hsel, List.length_take, hperm.length_eq, Nat.min_eq_left henough]
  have hdistinct : (selected.map Shard.index).Nodup := by
    rw [← hsel]
    exact ((List.take_sublist _ _).map _).nodup ((hperm.map Shard.index).nodup_iff.mpr hnodup)
  obtain ⟨inv, w, hinvert, hinv, hmul⟩ := selected_invert hget (by omega)
    (by rw [List.length_map, hlength]) hdistinct fun i hi => by
      obtain ⟨s, hs, rfl⟩ := List.mem_map.mp hi
      exact hindex s (hselected s hs)
  have hreconstructed := reconstructed_eq (fun s hs => hreads s (hselected s hs)) hlength hinv hmul
  have hhave : ¬shards.length < M := not_lt.mpr henough
  cases hcases : selected with
  | nil =>
    rw [hcases] at hlength
    exact absurd hlength (by rw [List.length_nil]; omega)
  | cons first rest =>
    have hfirst : first.data.length = shardSize data M := hsize first (by rw [hcases]; rfl)
    rw [hcases] at hinvert hreconstructed
    simp only [decode, if_neg hhave, hsel, hcases, hm, hfirst]
    show ((m.subsetRows ((first :: rest).map Shard.index)).invert >>= _) = _
    rw [hinvert]
    refine congrArg Except.ok ?_
    rw [hreconstructed, flatten_padAndSplit hM]
    cases size <;> rfl

theorem decode_genuine {shards : List Shard} (hM : 1 ≤ M) (hMP : M + P ≤ 255)
    (hshards : ∀ s ∈ shards, Genuine data M P s) (hnodup : (shards.map Shard.index).Nodup)
    (henough : M ≤ shards.length) : decode shards M P (some data.length) = .ok data := by
  rw [decode_reads hM hMP (fun s hs => (hshards s hs).1) hnodup henough fun s hs => (hshards s hs).2.get]
  · rw [Option.elim_some, padded, List.take_left]
  · intro s hs
    exact (hshards s ((sortByIndex_perm shards).mem_iff.mp (List.mem_of_mem_take (List.mem_of_mem_head? hs)))).2.length

/-- Whichever shards are left, as long as there are enough of them, and whatever their order, the payload is
decoded; the rows they belong to always have an inverse on both sides. -/
theorem shards_recover (data : Bytes) {M P : ℕ} (hM : 1 ≤ M) (hP : 1 ≤ P) (hMP : M + P ≤ 255) :
    ∃ shards, encode data M P = .ok shards ∧
      (∀ available : List Shard, (∀ s ∈ available, s ∈ shards) → (available.map Shard.index).Nodup →
        M ≤ available.length → decode available M P (some data.length) = .ok data) ∧
      ∃ encMatrix, buildEncodingMatrix M P = .ok encMatrix ∧
        ∀ rowIndices : List ℕ, rowIndices.Nodup → rowIndices.length = M → (∀ i ∈ rowIndices, i < M + P) →
          ∃ inv, (encMatrix.subsetRows rowIndices).invert = .ok inv ∧
            Inverse M inv (encMatrix.subsetRows rowIndices) ∧ Inverse M (encMatrix.subsetRows rowIndices) inv := by
  obtain ⟨payloads, hlength, hpayloads, hencode⟩ := encode_ok data hM hP hMP
  obtain ⟨m, hm, hget⟩ := buildEncodingMatrix_holds (M := M) (P := P) (by omega)
  refine ⟨_, hencode, fun available hmem hnodup henough => ?_, m, hm, fun rowIndices hnodup hrowsLength hrows => ?_⟩
  · exact decode_genuine hM hMP (fun s hs => encode_genuine hlength hpayloads s (hmem s hs)) hnodup henough
  · obtain ⟨inv, w, hinvert, hinv, hmul⟩ := selected_invert hget (by omega) hrowsLength hnodup hrows
    have hsub := subsetRows_holds hget hrows
    rw [hrowsLength] at hsub
    exact ⟨inv, hinvert, inverse_of_mul hinv hsub hmul, inverse_of_mul hsub hinv (mul_eq_one_comm.mp hmul)⟩

/-- Three bytes in two pieces and one more. -/
theorem shards_recover_three :
    ∃ shards, encode [1, 2, 3] 2 1 = .ok shards ∧
      (∀ available : List Shard, (∀ s ∈ available, s ∈ shards) → (available.map Shard.index).Nodup →
        2 ≤ available.length → decode available 2 1 (some 3) = .ok [1, 2, 3]) ∧
      ∃ encMatrix, buildEncodingMatrix 2 1 = .ok encMatrix ∧
        ∀ rowIndices : List ℕ, rowIndices.Nodup → rowIndices.length = 2 → (∀ i ∈ rowIndices, i < 2 + 1) →
          ∃ inv, (encMatrix.subsetRows rowIndices).invert = .ok inv ∧
            Inverse 2 inv (encMatrix.subsetRows rowIndices) ∧ Inverse 2 (encMatrix.subsetRows rowIndices) inv :=
  shards_recover [1, 2, 3] (by decide) (by decide) (by decide)

end ChainGuard.OffChain.ErasureCoding
