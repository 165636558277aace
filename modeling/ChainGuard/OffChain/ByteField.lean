import ChainGuard.Library.CyclicField
import ChainGuard.OffChain.ErasureCoding
import Mathlib.Algebra.BigOperators.Fin
import Mathlib.Data.List.Iterate

/-! The bytes with the arithmetic of the tables are a field: every byte but zero is a power of two under
the reduction, and the tables hold the powers and their exponents. -/
namespace ChainGuard.OffChain.ErasureCoding
open Loops
set_option autoImplicit false

/-! ## Powers -/

/-- The number that the loop over the tables has come to after so many rounds. -/
def power (i : ℕ) : ℕ := nextPower^[i] 1

theorem power_succ (i : ℕ) : power (i + 1) = nextPower (power i) := Function.iterate_succ_apply' nextPower i 1

theorem nextPower_lt {x : ℕ} (h : x < 256) : nextPower x < 256 := by
  have hall : ∀ x : Fin 256, nextPower x < 256 := by decide +kernel
  exact hall ⟨x, h⟩

theorem power_lt (i : ℕ) : power i < 256 := by
  induction i with
  | zero => decide
  | succ i ih =>
    rw [power_succ]
    exact nextPower_lt ih

theorem iterate_injective {f : ℕ → ℕ} {a n i j : ℕ} (h : (List.iterate f a n).Nodup) (hi : i < n) (hj : j < n)
    (hij : f^[i] a = f^[j] a) : i = j := by
  have hi' : i < (List.iterate f a n).length := by simpa using hi
  have hj' : j < (List.iterate f a n).length := by simpa using hj
  have hsame : (List.iterate f a n)[i] = (List.iterate f a n)[j] := by
    rw [List.getElem_iterate, List.getElem_iterate, hij]
  exact h.getElem_inj_iff.mp hsame

theorem exists_iterate {f : ℕ → ℕ} {a n b : ℕ} (h : b ∈ List.iterate f a n) : ∃ i < n, f^[i] a = b := by
  obtain ⟨i, hi, hb⟩ := List.getElem_of_mem h
  rw [List.getElem_iterate] at hb
  exact ⟨i, by simpa using hi, hb⟩

theorem power_injective {i j : ℕ} (hi : i < 255) (hj : j < 255) (h : power i = power j) : i = j := by
  have hnodup : (List.iterate nextPower 1 255).Nodup := by decide +kernel
  exact iterate_injective hnodup hi hj h

theorem power_period : power 255 = 1 := by decide +kernel

theorem power_reached {b : ℕ} (hb : b < 256) (h : b ≠ 0) : ∃ i < 255, power i = b := by
  have hall : ∀ b : Fin 256, (b : ℕ) ≠ 0 → (b : ℕ) ∈ List.iterate nextPower 1 255 := by decide +kernel
  exact exists_iterate (hall ⟨b, hb⟩ h)

theorem power_add_period (i : ℕ) : power (i + 255) = power i := by
  rw [power, Function.iterate_add_apply, show nextPower^[255] 1 = 1 from power_period, power]

theorem nextPower_xor {x y : ℕ} (hx : x < 256) (hy : y < 256) :
    nextPower (x ^^^ y) = nextPower x ^^^ nextPower y := by
  have hlinear : ∀ x : Fin 256, nextPower x = (x : ℕ) <<< 1 ^^^ if (x : ℕ).testBit 7 then GF_PRIMITIVE else 0 := by
    decide +kernel
  have hxy : x ^^^ y < 256 := Nat.xor_lt_two_pow (n := 8) hx hy
  have hx' := hlinear ⟨x, hx⟩
  have hy' := hlinear ⟨y, hy⟩
  have hxy' := hlinear ⟨x ^^^ y, hxy⟩
  dsimp only at hx' hy' hxy'
  rw [hx', hy', hxy', Nat.shiftLeft_xor_distrib, Nat.testBit_xor]
  generalize x <<< 1 = a
  generalize y <<< 1 = b
  generalize GF_PRIMITIVE = g
  cases x.testBit 7 with
  | false =>
    cases y.testBit 7 with
    | false => simp
    | true =>
      show a ^^^ b ^^^ g = a ^^^ 0 ^^^ (b ^^^ g)
      rw [Nat.xor_zero, Nat.xor_assoc]
  | true =>
    cases y.testBit 7 with
    | false =>
      show a ^^^ b ^^^ g = a ^^^ g ^^^ (b ^^^ 0)
      rw [Nat.xor_zero]
      ac_rfl
    | true =>
      show a ^^^ b ^^^ 0 = a ^^^ g ^^^ (b ^^^ g)
      have hpair : a ^^^ g ^^^ (b ^^^ g) = a ^^^ b ^^^ (g ^^^ g) := by ac_rfl
      rw [hpair, Nat.xor_self]

/-! ## Tables -/

/-- What the tables hold after `k` rounds. -/
structure Filled (k : ℕ) (s : Tables × ℕ) : Prop where
  current : s.2 = power k
  expLength : s.1.gfExp.length = 512
  logLength : s.1.gfLog.length = 256
  exp : ∀ i < k, s.1.gfExp.getD i 0 = UInt8.ofNat (power i)
  log : ∀ i < k, s.1.gfLog.getD (power i) 0 = UInt8.ofNat i

theorem getD_set {α : Type} (l : List α) (i j : ℕ) (a d : α) :
    (l.set i a).getD j d = if i = j ∧ j < l.length then a else l.getD j d := by
  simp only [List.getD_eq_getElem?_getD, List.getElem?_set]
  split_ifs with hij hlt hboth hboth
  · rfl
  · exact absurd ⟨hij, hij ▸ hlt⟩ hboth
  · omega
  · subst hij
    rw [List.getElem?_eq_none (not_lt.mp hlt)]
  · omega
  · rfl

theorem fillTables_filled : Filled 255 fillTables := by
  refine upTo_spec (P := Filled) ⟨rfl, List.length_replicate, List.length_replicate, ?_, ?_⟩ ?_
  · exact fun i hi => absurd hi (Nat.not_lt_zero i)
  · exact fun i hi => absurd hi (Nat.not_lt_zero i)
  rintro k hk ⟨t, x⟩ ⟨rfl, hexpLength, hlogLength, hexp, hlog⟩
  have hk : k < 255 := hk
  refine ⟨(power_succ k).symm, ?_, ?_, ?_, ?_⟩
  · rw [List.length_set, hexpLength]
  · rw [List.length_set, hlogLength]
  · intro i hi
    rw [getD_set]
    by_cases hik : k = i
    · subst hik
      rw [if_pos ⟨rfl, by rw [hexpLength]; omega⟩]
    · rw [if_neg fun h => hik h.1]
      exact hexp i (by omega)
  · intro i hi
    rw [getD_set]
    by_cases hik : k = i
    · subst hik
      rw [if_pos ⟨rfl, by rw [hlogLength]; exact power_lt k⟩]
    · rw [if_neg fun h => hik (power_injective hk (by omega) h.1)]
      exact hlog i (by omega)

theorem gfExp_eq {i : ℕ} (hi : i < 510) : gfExp i = UInt8.ofNat (power i) := by
  obtain ⟨_, hlength, _, hexp, _⟩ := fillTables_filled
  have hmirrored : ∀ k ≤ GF_SIZE - 1, (upTo k (fun i gfExp => gfExp.set (i + GF_SIZE - 1) (gfExp.getD i 0))
      fillTables.1.gfExp).length = 512 ∧ ∀ i < 255 + k, (upTo k (fun i gfExp =>
        gfExp.set (i + GF_SIZE - 1) (gfExp.getD i 0)) fillTables.1.gfExp).getD i 0 = UInt8.ofNat (power i) := by
    intro k hk
    refine upTo_spec (P := fun k (e : List UInt8) => e.length = 512 ∧ ∀ i < 255 + k, e.getD i 0 =
      UInt8.ofNat (power i)) ⟨hlength, fun i hi => hexp i hi⟩ ?_
    rintro j hj e ⟨hlength, hexp⟩
    have hj : j < 255 := hj.trans_le hk
    refine ⟨by rw [List.length_set, hlength], fun i hi => ?_⟩
    rw [getD_set]
    by_cases hij : j + GF_SIZE - 1 = i
    · have hshift : i = j + 255 := by rw [← hij]; rfl
      rw [if_pos ⟨hij, by rw [hlength]; omega⟩, hexp j (by omega), hshift, power_add_period]
    · have hne : i ≠ j + 255 := fun h => hij (by rw [h]; rfl)
      rw [if_neg fun h => hij h.1]
      exact hexp i (by omega)
  have htable : buildTables.gfExp = upTo (GF_SIZE - 1) (fun i gfExp => gfExp.set (i + GF_SIZE - 1) (gfExp.getD i 0))
      fillTables.1.gfExp := by simp only [buildTables]
  rw [gfExp, htable]
  exact (hmirrored (GF_SIZE - 1) le_rfl).2 i (by simpa [GF_SIZE] using hi)

theorem gfLog_power {i : ℕ} (hi : i < 255) : gfLog (UInt8.ofNat (power i)) = i := by
  have hlog := fillTables_filled.log i hi
  have hindex : (UInt8.ofNat (power i)).toNat = power i := by
    rw [UInt8.toNat_ofNat']
    exact Nat.mod_eq_of_lt (power_lt i)
  have htable : buildTables.gfLog = fillTables.1.gfLog := by simp only [buildTables]
  rw [gfLog, hindex, htable, hlog, UInt8.toNat_ofNat']
  exact Nat.mod_eq_of_lt (by omega)

/-! ## The field -/

/-- A byte as an element of the field. -/
@[ext] structure GFByte where
  byte : UInt8
  deriving DecidableEq

namespace GFByte

instance : Zero GFByte := ⟨⟨0⟩⟩
instance : One GFByte := ⟨⟨1⟩⟩
instance : Add GFByte := ⟨fun a b => ⟨gfAdd a.byte b.byte⟩⟩
instance : Neg GFByte := ⟨fun a => a⟩
instance : Mul GFByte := ⟨fun a b => ⟨gfMul a.byte b.byte⟩⟩
instance : Inv GFByte := ⟨fun a => if a = 0 then 0 else ⟨gfExp (GF_SIZE - 1 - gfLog a.byte)⟩⟩

def next (a : GFByte) : GFByte := ⟨UInt8.ofNat (nextPower a.byte.toNat)⟩

theorem toNat_ofNat_lt {x : ℕ} (h : x < 256) : (UInt8.ofNat x).toNat = x := by
  rw [UInt8.toNat_ofNat']
  exact Nat.mod_eq_of_lt h

theorem iterate_next (i : ℕ) : next^[i] 1 = ⟨UInt8.ofNat (power i)⟩ := by
  induction i with
  | zero => rfl
  | succ i ih => rw [Function.iterate_succ_apply', ih, next, toNat_ofNat_lt (power_lt i), power_succ]

theorem power_ne_zero {i : ℕ} (hi : i < 255) : UInt8.ofNat (power i) ≠ 0 := by
  have hall : ∀ i : Fin 255, UInt8.ofNat (power i) ≠ 0 := by decide +kernel
  exact hall ⟨i, hi⟩

theorem reached (a : GFByte) (ha : a ≠ 0) : ∃ i < 255, next^[i] 1 = a := by
  have hne : a.byte.toNat ≠ 0 := fun h => ha (GFByte.ext (UInt8.toNat_inj.mp h))
  obtain ⟨i, hi, hpower⟩ := power_reached a.byte.toNat_lt hne
  refine ⟨i, hi, ?_⟩
  rw [iterate_next, hpower]
  exact GFByte.ext UInt8.ofNat_toNat

theorem gfMul_power {i j : ℕ} (hi : i < 255) (hj : j < 255) :
    gfMul (UInt8.ofNat (power i)) (UInt8.ofNat (power j)) = UInt8.ofNat (power (i + j)) := by
  have hne : ¬(UInt8.ofNat (power i) = 0 ∨ UInt8.ofNat (power j) = 0) :=
    not_or.mpr ⟨power_ne_zero hi, power_ne_zero hj⟩
  rw [gfMul, if_neg hne, gfLog_power hi, gfLog_power hj]
  exact gfExp_eq (by omega)

theorem generated : CyclicField.Generated next 255 where
  add_assoc a b c := GFByte.ext (UInt8.xor_assoc a.byte b.byte c.byte)
  zero_add a := GFByte.ext UInt8.zero_xor
  neg_add_cancel a := GFByte.ext UInt8.xor_self
  one_ne_zero h := absurd (congrArg byte h) (by decide)
  step_zero := rfl
  step_add a b := by
    have ha : a.byte.toNat < 256 := a.byte.toNat_lt
    have hb : b.byte.toNat < 256 := b.byte.toNat_lt
    refine GFByte.ext (UInt8.toNat_inj.mp ?_)
    show (UInt8.ofNat (nextPower (a.byte ^^^ b.byte).toNat)).toNat =
      (UInt8.ofNat (nextPower a.byte.toNat) ^^^ UInt8.ofNat (nextPower b.byte.toNat)).toNat
    rw [UInt8.toNat_xor, UInt8.toNat_xor, nextPower_xor ha hb, toNat_ofNat_lt (nextPower_lt ha),
      toNat_ofNat_lt (nextPower_lt hb)]
    exact toNat_ofNat_lt (Nat.xor_lt_two_pow (n := 8) (nextPower_lt ha) (nextPower_lt hb))
  period := by rw [iterate_next, power_period]; rfl
  reached := reached
  zero_mul b := by
    show (⟨gfMul 0 b.byte⟩ : GFByte) = 0
    rw [gfMul, if_pos (Or.inl rfl)]
    rfl
  mul_step i hi b := by
    by_cases hb : b = 0
    · subst hb
      rw [Function.iterate_fixed (show next 0 = 0 from rfl)]
      show (⟨gfMul _ 0⟩ : GFByte) = 0
      rw [gfMul, if_pos (Or.inr rfl)]
      rfl
    · obtain ⟨j, hj, rfl⟩ := reached b hb
      rw [← Function.iterate_add_apply, iterate_next, iterate_next, iterate_next]
      exact GFByte.ext (gfMul_power hi hj)
  inv_zero := if_pos rfl
  inv_step i hi := by
    rw [iterate_next, iterate_next]
    refine (if_neg fun h => power_ne_zero hi (congrArg byte h)).trans (GFByte.ext ?_)
    rw [gfLog_power hi, gfExp_eq (by simp only [GF_SIZE]; omega)]
    rfl

instance : Field GFByte := generated.field

/-! ## The operations of the source -/

@[simp] theorem byte_zero : (0 : GFByte).byte = 0 := rfl

@[simp] theorem byte_one : (1 : GFByte).byte = 1 := rfl

theorem gfAdd_byte (a b : GFByte) : gfAdd a.byte b.byte = (a + b).byte := rfl

theorem gfMul_byte (a b : GFByte) : gfMul a.byte b.byte = (a * b).byte := rfl

theorem gfDiv_byte (a : GFByte) {b : GFByte} (hb : b ≠ 0) : gfDiv a.byte b.byte = .ok (b⁻¹ * a).byte := by
  have hne : b.byte ≠ 0 := fun h => hb (GFByte.ext h)
  rw [gfDiv, if_neg hne]
  by_cases ha : a = 0
  · subst ha
    rw [if_pos byte_zero, mul_zero]
    rfl
  · have hne' : a.byte ≠ 0 := fun h => ha (GFByte.ext h)
    rw [if_neg hne', mul_comm]
    obtain ⟨i, hi, rfl⟩ := reached a ha
    obtain ⟨j, hj, rfl⟩ := reached b hb
    rw [generated.inv_step j hj, generated.mul_step i hi, ← Function.iterate_add_apply, iterate_next, iterate_next,
      iterate_next, gfLog_power hi, gfLog_power hj, gfExp_eq (by simp only [GF_SIZE]; omega)]
    have hsteps : i + (GF_SIZE - 1) - j = i + (255 - j) := by
      simp only [GF_SIZE]
      omega
    rw [hsteps]

theorem gfSum_byte {n : ℕ} {term : ℕ → UInt8} {t : ℕ → GFByte} (h : ∀ d < n, term d = (t d).byte) :
    gfSum n term = (∑ d : Fin n, t d).byte := by
  induction n with
  | zero => rfl
  | succ n ih =>
    have hstep : gfSum (n + 1) term = gfAdd (gfSum n term) (term n) := upTo_succ n _ _
    rw [hstep, ih fun d hd => h d (Nat.lt_succ_of_lt hd), h n (Nat.lt_succ_self n), Fin.sum_univ_castSucc]
    rfl

end GFByte

end ChainGuard.OffChain.ErasureCoding
