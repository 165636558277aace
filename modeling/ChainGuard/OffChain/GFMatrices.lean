import ChainGuard.Library.GaussJordan
import ChainGuard.OffChain.ByteField
import Mathlib.Data.List.GetD

/-! What the loops over matrices leave at every position. The elimination is Gauss-Jordan's over the field of
bytes, so a square matrix that annihilates no vector but zero is inverted. -/
namespace ChainGuard.OffChain.ErasureCoding
open Loops
set_option autoImplicit false

namespace GFMatrix

variable {m : GFMatrix} {R C n col r c : ℕ} {f g : ℕ → ℕ → GFByte}

/-- The matrix has these dimensions and entries. -/
structure Holds (m : GFMatrix) (R C : ℕ) (f : ℕ → ℕ → GFByte) : Prop where
  rows : m.rows = R
  cols : m.cols = C
  get : ∀ r < R, ∀ c < C, m.get r c = (f r c).byte

theorem index_inj {r' c' : ℕ} (hc : c < C) (hc' : c' < C) (h : r * C + c = r' * C + c') : r = r' ∧ c = c' := by
  have hr : r = r' := by
    rcases Nat.lt_trichotomy r r' with hlt | heq | hlt
    · have hmul := Nat.mul_le_mul_right C (Nat.succ_le_of_lt hlt)
      rw [Nat.succ_mul] at hmul
      omega
    · exact heq
    · have hmul := Nat.mul_le_mul_right C (Nat.succ_le_of_lt hlt)
      rw [Nat.succ_mul] at hmul
      omega
  subst hr
  exact ⟨rfl, by omega⟩

theorem index_lt (hr : r < R) (hc : c < C) : r * C + c < R * C := by
  have hmul := Nat.mul_le_mul_right C (Nat.succ_le_of_lt hr)
  rw [Nat.succ_mul] at hmul
  omega

theorem holds_new (R C : ℕ) : (new R C).Holds R C 0 := by
  refine ⟨rfl, rfl, fun r hr c hc => ?_⟩
  show (List.replicate (R * C) 0).getD (r * C + c) 0 = 0
  rw [List.getD_eq_getElem?_getD, List.getElem?_replicate_of_lt (index_lt hr hc)]
  rfl

theorem Holds.congr (h : m.Holds R C f) (hfg : ∀ r < R, ∀ c < C, f r c = g r c) : m.Holds R C g :=
  ⟨h.rows, h.cols, fun r hr c hc => by rw [h.get r hr c hc, hfg r hr c hc]⟩

theorem Holds.write {p q : ℕ → ℕ → Prop} [DecidableRel p] [DecidableRel q] {v : UInt8}
    (h : m.Holds R C fun r c => if p r c then g r c else f r c) (hr : r < R) (hc : c < C)
    (hv : v = (g r c).byte) (hpq : ∀ r' c', c' < C → (q r' c' ↔ p r' c' ∨ r' = r ∧ c' = c)) :
    (m.set r c v).Holds R C fun r c => if q r c then g r c else f r c := by
  refine ⟨h.rows, h.cols, fun r' hr' c' hc' => ?_⟩
  have hlength : m.data.length = R * C := by rw [m.size, h.rows, h.cols]
  have hget := h.get r' hr' c' hc'
  rw [GFMatrix.get, h.cols] at hget
  show (m.data.set (r * m.cols + c) v).getD (r' * m.cols + c') 0 = _
  rw [h.cols, getD_set, hget]
  by_cases hhere : r' = r ∧ c' = c
  · obtain ⟨rfl, rfl⟩ := hhere
    rw [if_pos ⟨rfl, by rw [hlength]; exact index_lt hr hc⟩, if_pos ((hpq _ _ hc).mpr (Or.inr ⟨rfl, rfl⟩)), hv]
  · have hne : ¬(r * C + c = r' * C + c' ∧ r' * C + c' < m.data.length) := fun h => by
      obtain ⟨hrr, hcc⟩ := index_inj hc hc' h.1
      exact hhere ⟨hrr.symm, hcc.symm⟩
    have hsame : q r' c' ↔ p r' c' := by
      rw [hpq r' c' hc']
      exact ⟨fun h => h.resolve_right hhere, Or.inl⟩
    rw [if_neg hne]
    simp only [hsame]

theorem Holds.unwritten {p : ℕ → ℕ → Prop} [DecidableRel p] (h : m.Holds R C f) (hp : ∀ r c, ¬p r c) :
    m.Holds R C fun r c => if p r c then g r c else f r c :=
  h.congr fun r _ c _ => (if_neg (hp r c)).symm

/-! ## Filling -/

theorem Holds.tryFill {b : ℕ → ℕ → GFMatrix → Result GFMatrix} {o k : ℕ} (hk : k + o ≤ R) (h : m.Holds R C f)
    (hbody : ∀ r < k, ∀ c < C, ∀ m, b r c m = .ok (m.set (r + o) c (g (r + o) c).byte)) :
    ∃ m', tryUpTo k (fun r m => tryUpTo C (b r) m) m = .ok m' ∧
      m'.Holds R C fun r c => if o ≤ r ∧ r < k + o then g r c else f r c := by
  refine tryUpTo_spec (P := fun i (m : GFMatrix) => m.Holds R C fun r c => if o ≤ r ∧ r < i + o then g r c else f r c)
    (h.unwritten fun r c => by omega) fun i hi m hm => ?_
  obtain ⟨m', hrun, hm'⟩ := tryUpTo_spec (n := C) (f := b i) (s := m)
    (P := fun j (m : GFMatrix) => m.Holds R C fun r c =>
      if o ≤ r ∧ r < i + o ∨ r = i + o ∧ c < j then g r c else f r c)
    (hm.congr fun r _ c _ => by simp) fun j hj m hm =>
      ⟨_, hbody i hi j hj m, hm.write (by omega) hj rfl fun r c _ => by omega⟩
  refine ⟨m', hrun, hm'.congr fun r _ c hc => ?_⟩
  have hsame : (o ≤ r ∧ r < i + o ∨ r = i + o ∧ c < C) ↔ o ≤ r ∧ r < i + 1 + o := by omega
  simp only [hsame]

theorem Holds.fill {v : ℕ → ℕ → UInt8} {o k : ℕ} (hk : k + o ≤ R) (h : m.Holds R C f)
    (hv : ∀ r < k, ∀ c < C, v r c = (g (r + o) c).byte) :
    (upTo k (fun r m => upTo C (fun c m => m.set (r + o) c (v r c)) m) m).Holds R C fun r c =>
      if o ≤ r ∧ r < k + o then g r c else f r c := by
  obtain ⟨m', hrun, hm'⟩ := h.tryFill (b := fun r c m => .ok (m.set (r + o) c (v r c))) (g := g) hk
    fun r hr c hc m => by rw [hv r hr c hc]
  simp only [tryUpTo_ok] at hrun
  rwa [Except.ok.inj hrun]

theorem subsetRows_holds {rowIndices : List ℕ} (h : m.Holds R C f) (hrows : ∀ i ∈ rowIndices, i < R) :
    (subsetRows m rowIndices).Holds rowIndices.length C fun r => f (rowIndices.getD r 0) := by
  have hfill := (holds_new rowIndices.length C).fill (v := fun r c => m.get (rowIndices.getD r 0) c)
    (g := fun r => f (rowIndices.getD r 0)) (o := 0) (k := rowIndices.length) le_rfl fun r hr c hc => by
      refine h.get _ (hrows _ ?_) c hc
      rw [List.getD_eq_getElem _ _ hr]
      exact List.getElem_mem hr
  rw [subsetRows, h.cols]
  exact hfill.congr fun r hr c _ => if_pos ⟨Nat.zero_le r, hr⟩

theorem rightHalf_holds (h : m.Holds n (n * 2) f) : (rightHalf m n).Holds n n fun r c => f r (c + n) := by
  have hfill := (holds_new n n).fill (v := fun r c => m.get r (c + n)) (g := fun r c => f r (c + n)) (o := 0) (k := n)
    le_rfl fun r hr c hc => h.get r hr (c + n) (by omega)
  exact hfill.congr fun r hr c _ => if_pos ⟨Nat.zero_le r, hr⟩

/-- The matrix on the left, the identity on the right. -/
theorem augment_holds (h : m.Holds n n f) :
    (augment m n).Holds n (n * 2) fun r c => if c < n then f r c else if r + n = c then 1 else 0 := by
  have hrow : ∀ i ≤ n, (upTo i (fun r aug => upTo n (fun c aug =>
      (aug.set r c (m.get r c)).set r (c + n) (if r = c then 1 else 0)) aug) (new n (n * 2))).Holds n (n * 2)
      fun r c => if r < i then (if c < n then f r c else if r + n = c then 1 else 0) else 0 := by
    intro i hi
    refine upTo_spec (P := fun i (m : GFMatrix) => m.Holds n (n * 2) fun r c =>
      if r < i then (if c < n then f r c else if r + n = c then 1 else 0) else 0)
      ((holds_new n (n * 2)).congr fun r _ c _ => by simp) fun r hr aug haug => ?_
    have hr : r < n := hr.trans_le hi
    have hcols := upTo_spec (n := n) (s := aug)
      (f := fun c aug => (aug.set r c (m.get r c)).set r (c + n) (if r = c then 1 else 0))
      (P := fun j (m : GFMatrix) => m.Holds n (n * 2) fun r' c =>
        if r' < r ∨ r' = r ∧ (c < j ∨ n ≤ c ∧ c < j + n) then (if c < n then f r' c else if r' + n = c then 1 else 0)
        else 0)
      (haug.congr fun r' _ c _ => by
        have hsame : (r' < r ∨ r' = r ∧ (c < 0 ∨ n ≤ c ∧ c < 0 + n)) ↔ r' < r := by omega
        simp only [hsame])
      fun j hj aug haug => by
        refine (haug.write (q := fun r' c => r' < r ∨ r' = r ∧ (c < j + 1 ∨ n ≤ c ∧ c < j + n)) hr (by omega) ?_
          fun r' c _ => by omega).write hr (by omega) ?_ fun r' c _ => by omega
        · rw [if_pos hj]
          exact h.get r hr j hj
        · have hright : ¬j + n < n := by omega
          have hdiagonal : r + n = j + n ↔ r = j := by omega
          rw [if_neg hright]
          simp only [hdiagonal]
          split <;> rfl
    refine hcols.congr fun r' _ c hc => ?_
    have hsame : (r' < r ∨ r' = r ∧ (c < n ∨ n ≤ c ∧ c < n + n)) ↔ r' < r + 1 := by omega
    simp only [hsame]
  exact (hrow n le_rfl).congr fun r hr c _ => if_pos hr

/-! ## Row operations -/

theorem swapRows_holds {p : ℕ} (h : m.Holds n (n * 2) f) (hcol : col < n) (hp : p < n) :
    (swapRows m n col p).Holds n (n * 2) fun r => f (Equiv.swap col p r) := by
  have hswapped := upTo_spec (n := n * 2) (s := m)
    (f := fun c aug => (aug.set col c (aug.get p c)).set p c (aug.get col c))
    (P := fun j (m : GFMatrix) => m.Holds n (n * 2) fun r c =>
      if (r = col ∨ r = p) ∧ c < j then f (Equiv.swap col p r) c else f r c)
    (h.unwritten fun r c => by omega) fun j hj aug haug => by
      have hfirst : aug.get col j = (f col j).byte := by rw [haug.get col hcol j hj, if_neg (by omega)]
      have hsecond : aug.get p j = (f p j).byte := by rw [haug.get p hp j hj, if_neg (by omega)]
      refine (haug.write (q := fun r c => (r = col ∨ r = p) ∧ c < j ∨ r = col ∧ c = j) hcol hj ?_
        fun r c _ => Iff.rfl).write hp hj ?_ fun r c _ => by omega
      · rw [hsecond, Equiv.swap_apply_left]
      · rw [hfirst, Equiv.swap_apply_right]
  refine hswapped.congr fun r _ c hc => ?_
  by_cases hr : r = col ∨ r = p
  · rw [if_pos ⟨hr, hc⟩]
  · rw [if_neg fun h => hr h.1, Equiv.swap_apply_of_ne_of_ne (fun h => hr (Or.inl h)) fun h => hr (Or.inr h)]

theorem scaleRow_holds (h : m.Holds n (n * 2) f) (hcol : col < n) (hpivot : f col col ≠ 0) :
    ∃ m', scaleRow m n col = .ok m' ∧
      m'.Holds n (n * 2) fun r c => if r = col then (f col col)⁻¹ * f r c else f r c := by
  have hscale : m.get col col = (f col col).byte := h.get col hcol col (by omega)
  obtain ⟨m', hrun, hm'⟩ := tryUpTo_spec (n := n * 2) (s := m)
    (f := fun c aug => do
      let q ← gfDiv (aug.get col c) (m.get col col)
      return aug.set col c q)
    (P := fun j (m : GFMatrix) => m.Holds n (n * 2) fun r c =>
      if r = col ∧ c < j then (f col col)⁻¹ * f r c else f r c)
    (h.unwritten fun r c => by omega) fun j hj aug haug => by
      have hget : aug.get col j = (f col j).byte := by
        rw [haug.get col hcol j hj, if_neg (by omega)]
      refine ⟨aug.set col j ((f col col)⁻¹ * f col j).byte, ?_, haug.write hcol hj rfl fun r c _ => by omega⟩
      rw [hget, hscale, GFByte.gfDiv_byte _ hpivot]
      rfl
  refine ⟨m', hrun, hm'.congr fun r _ c hc => ?_⟩
  simp only [hc, and_true]

theorem eliminateRow_holds (h : m.Holds n (n * 2) f) (hcol : col < n) (hr : r < n) :
    (eliminateRow m n col r).Holds n (n * 2) fun r' c =>
      if r' = r ∧ r ≠ col then f r' c + f r' col * f col c else f r' c := by
  unfold eliminateRow
  split
  · exact h.unwritten fun r' c h => by omega
  rename_i hne
  have hfactor : m.get r col = (f r col).byte := h.get r hr col (by omega)
  dsimp only
  split
  · rename_i hzero
    have hzero : f r col = 0 := GFByte.ext (hfactor.symm.trans hzero)
    refine h.congr fun r' _ c _ => ?_
    by_cases hr' : r' = r
    · subst hr'
      simp [hne, hzero]
    · simp [hr']
  · refine Holds.congr (upTo_spec (n := n * 2) (P := fun j (m : GFMatrix) => m.Holds n (n * 2) fun r' c =>
      if r' = r ∧ c < j then f r' c + f r' col * f col c else f r' c) (h.unwritten fun r' c => by omega)
      fun j hj aug haug => haug.write hr hj ?_ fun r' c _ => by omega) fun r' _ c hc => by simp [hne, hc]
    have hown : aug.get r j = (f r j).byte := by rw [haug.get r hr j hj, if_neg (by omega)]
    have hpivotRow : aug.get col j = (f col j).byte := by rw [haug.get col hcol j hj, if_neg (by omega)]
    rw [hown, hpivotRow, hfactor, GFByte.gfMul_byte, GFByte.gfAdd_byte]

theorem eliminateRows_holds (h : m.Holds n (n * 2) f) (hcol : col < n) :
    (upTo n (fun r aug => eliminateRow aug n col r) m).Holds n (n * 2) fun r c =>
      if r ≠ col then f r c + f r col * f col c else f r c := by
  have hrows : ∀ i ≤ n, (upTo i (fun r aug => eliminateRow aug n col r) m).Holds n (n * 2) fun r c =>
      if r < i ∧ r ≠ col then f r c + f r col * f col c else f r c := by
    intro i hi
    refine upTo_spec (P := fun i (m : GFMatrix) => m.Holds n (n * 2) fun r c =>
      if r < i ∧ r ≠ col then f r c + f r col * f col c else f r c) (h.unwritten fun r c => by omega)
      fun r hr aug haug => (eliminateRow_holds haug hcol (hr.trans_le hi)).congr fun r' _ c _ => ?_
    have hpivotRow : ¬(col < r ∧ col ≠ col) := fun h => h.2 rfl
    by_cases hlast : r' = r ∧ r ≠ col
    · obtain ⟨rfl, hne⟩ := hlast
      have hold : ¬(r' < r' ∧ r' ≠ col) := fun h => lt_irrefl r' h.1
      rw [if_pos ⟨rfl, hne⟩, if_neg hold, if_neg hold, if_neg hpivotRow, if_pos ⟨Nat.lt_succ_self r', hne⟩]
    · have hsame : r' < r + 1 ∧ r' ≠ col ↔ r' < r ∧ r' ≠ col := by
        constructor
        · rintro ⟨hlt, hne⟩
          refine ⟨?_, hne⟩
          have hne' : r' ≠ r := fun heq => hlast ⟨heq, heq ▸ hne⟩
          omega
        · rintro ⟨hlt, hne⟩
          exact ⟨Nat.lt_succ_of_lt hlt, hne⟩
      rw [if_neg hlast]
      simp only [hsame]
  exact (hrows n le_rfl).congr fun r hr c _ => by simp only [hr, true_and]

/-- The row of the pivot divided by it and its multiples added to the other rows. -/
def clearedAt (f : ℕ → ℕ → GFByte) (col : ℕ) : ℕ → ℕ → GFByte := fun r c =>
  if r = col then (f col col)⁻¹ * f r c else f r c + f r col * ((f col col)⁻¹ * f col c)

theorem clearedAt_holds (h : m.Holds n (n * 2) f) (hcol : col < n) (hpivot : f col col ≠ 0) :
    ∃ m', scaleRow m n col = .ok m' ∧
      (upTo n (fun r aug => eliminateRow aug n col r) m').Holds n (n * 2) (clearedAt f col) := by
  obtain ⟨m', hscale, hm'⟩ := scaleRow_holds h hcol hpivot
  refine ⟨m', hscale, (eliminateRows_holds hm' hcol).congr fun r _ c _ => ?_⟩
  by_cases hr : r = col
  · simp [clearedAt, hr]
  · simp [clearedAt, hr]

/-! ## Inversion -/

def rowsOf (n : ℕ) (f : ℕ → ℕ → GFByte) : Fin n → (Fin n → GFByte) × (Fin n → GFByte) :=
  fun r => (fun c => f r c, fun c => f r (c + n))

theorem findPivot_some {p : ℕ} (h : m.Holds n (n * 2) f) (hp : col ≤ p ∧ p < n) (hpivot : f p col ≠ 0) :
    ∃ p, findPivot m n col = some p ∧ (col ≤ p ∧ p < n) ∧ f p col ≠ 0 := by
  have hentry : ∀ r < n, (m.get r col != 0) = true ↔ f r col ≠ 0 := by
    intro r hr
    rw [h.get r hr col (by omega), bne_iff_ne, ne_eq, ne_eq, GFByte.ext_iff]
    rfl
  cases hfind : findPivot m n col with
  | none =>
    refine absurd ((hentry p hp.2).mpr hpivot) (List.find?_eq_none.mp hfind p ?_)
    rw [List.mem_range'_1]
    omega
  | some q =>
    have hmem := List.mem_of_find?_eq_some hfind
    rw [List.mem_range'_1] at hmem
    exact ⟨q, rfl, by omega, (hentry q (by omega)).mp (by simpa using List.find?_some hfind)⟩

theorem rowsOf_swap (f : ℕ → ℕ → GFByte) (p q : Fin n) :
    rowsOf n (fun r => f (Equiv.swap (p : ℕ) q r)) = rowsOf n f ∘ Equiv.swap p q := by
  funext r
  have hval : Equiv.swap (p : ℕ) q r = (Equiv.swap p q r : Fin n) := Fin.val_injective.swap_apply p q r
  simp only [rowsOf, hval, Function.comp_apply]

theorem rowsOf_clear (f : ℕ → ℕ → GFByte) (c : Fin n) :
    rowsOf n (clearedAt f c) = GaussJordan.clear GaussJordan.column c (rowsOf n f) := by
  funext r
  by_cases hr : r = c
  · subst hr
    rw [GaussJordan.clear, if_pos rfl]
    simp only [rowsOf, clearedAt, if_true]
    rfl
  · have hval : (r : ℕ) ≠ c := fun h => hr (Fin.ext h)
    rw [GaussJordan.clear, if_neg hr]
    simp only [rowsOf, clearedAt, if_neg hval]
    rfl

theorem clearColumn_holds {c : Fin n} {p : ℕ} (h : m.Holds n (n * 2) f) (hp : (c : ℕ) ≤ p ∧ p < n)
    (hpivot : f p c ≠ 0) :
    ∃ m' f', clearColumn n c m = .ok m' ∧ m'.Holds n (n * 2) f' ∧ ∃ p : Fin n, c ≤ p ∧ f p c ≠ 0 ∧
      rowsOf n f' = GaussJordan.clear GaussJordan.column c (rowsOf n f ∘ Equiv.swap c p) := by
  obtain ⟨p, hfind, ⟨hcp, hp⟩, hpivot⟩ := findPivot_some h hp hpivot
  have hswapped : (if p ≠ c then swapRows m n c p else m).Holds n (n * 2) fun r => f (Equiv.swap (c : ℕ) p r) := by
    split
    · exact swapRows_holds h c.isLt hp
    · rename_i hsame
      rw [not_not.mp hsame, Equiv.swap_self]
      exact h
  have hmoved : f (Equiv.swap (c : ℕ) p c) c ≠ 0 := by rwa [Equiv.swap_apply_left]
  obtain ⟨m', hscale, hm'⟩ := clearedAt_holds hswapped c.isLt hmoved
  refine ⟨_, _, ?_, hm', ⟨p, hp⟩, hcp, hpivot, ?_⟩
  · rw [clearColumn, hfind]
    dsimp only
    rw [hscale]
    rfl
  · exact (rowsOf_clear _ c).trans (congrArg _ (rowsOf_swap f c ⟨p, hp⟩))

/-- What the columns before `k` have become of the matrix beside the identity. -/
def Reduced (A : Matrix (Fin n) (Fin n) GFByte) (k : ℕ) (m : GFMatrix) : Prop :=
  ∃ f, m.Holds n (n * 2) f ∧ GaussJordan.Cleared GaussJordan.column k (rowsOf n f) ∧
    GaussJordan.Independent GaussJordan.column (rowsOf n f) ∧ ∀ r, rowsOf n f r ∈ GaussJordan.combinations A

theorem Reduced.clearColumn {A : Matrix (Fin n) (Fin n) GFByte} {c : Fin n} (h : Reduced A c m) :
    ∃ m', GFMatrix.clearColumn n c m = .ok m' ∧ Reduced A (c + 1) m' := by
  obtain ⟨f, hm, hcleared, hindependent, hmem⟩ := h
  obtain ⟨p, hcp, hpivot⟩ := GaussJordan.exists_pivot hcleared hindependent
  obtain ⟨m', f', hrun, hm', p, hcp, hpivot, hrows⟩ := clearColumn_holds hm ⟨hcp, p.isLt⟩ hpivot
  have hpivot' : GaussJordan.column c ((rowsOf n f ∘ Equiv.swap c p) c) ≠ 0 := by
    rw [Function.comp_apply, Equiv.swap_apply_left]
    exact hpivot
  refine ⟨m', hrun, f', hm', ?_, ?_, ?_⟩
  · rw [hrows]
    exact (hcleared.swap le_rfl hcp).clear hpivot'
  · rw [hrows]
    exact (hindependent.swap c p).clear hpivot'
  · rw [hrows]
    exact GaussJordan.clear_mem (GaussJordan.swap_mem hmem c p) c

def square (n : ℕ) (f : ℕ → ℕ → GFByte) : Matrix (Fin n) (Fin n) GFByte := Matrix.of fun r c => f r c

theorem augment_reduced (h : m.Holds n n f) (hkernel : ∀ v, (square n f).mulVec v = 0 → v = 0) :
    Reduced (square n f) 0 (augment m n) := by
  have hrows : rowsOf n (fun r c => if c < n then f r c else if r + n = c then 1 else 0) =
      GaussJordan.augmented (square n f) := by
    funext r
    refine Prod.ext (funext fun c => ?_) (funext fun c => ?_)
    · exact if_pos c.isLt
    · have hright : ¬(c : ℕ) + n < n := by omega
      simp [rowsOf, GaussJordan.augmented, Pi.single_apply, Fin.val_inj, eq_comm]
  refine ⟨_, augment_holds h, GaussJordan.cleared_zero, ?_, ?_⟩
  · rw [hrows]
    exact GaussJordan.augmented_independent hkernel
  · rw [hrows]
    exact GaussJordan.augmented_mem _

theorem invert_holds (h : m.Holds n n f) (hkernel : ∀ v, (square n f).mulVec v = 0 → v = 0) :
    ∃ m' w, invert m = .ok m' ∧ m'.Holds n n w ∧ square n w * square n f = 1 := by
  obtain ⟨aug, hrun, w, haug, hcleared, _, hmem⟩ := tryUpTo_spec (n := n) (s := augment m n)
    (f := clearColumn n) (P := Reduced (square n f)) (augment_reduced h hkernel)
    fun i hi aug haug => Reduced.clearColumn (c := ⟨i, hi⟩) haug
  refine ⟨rightHalf aug n, fun r c => w r (c + n), ?_, rightHalf_holds haug, GaussJordan.right_mul hmem hcleared⟩
  have hsquare : ¬m.rows ≠ m.cols := by rw [h.rows, h.cols]; exact fun hne => hne rfl
  rw [invert, if_neg hsquare, h.rows]
  dsimp only
  rw [hrun]
  rfl

end GFMatrix

end ChainGuard.OffChain.ErasureCoding
