import ChainGuard.Evm.Ed25519

/-! The words of `Ed25519` as elements of the field, and its points as those of the group. -/
namespace ChainGuard.Evm.Ed25519
open Guarded Edwards25519
set_option autoImplicit false

theorem P_eq : P = p := rfl

/-! ## Field arithmetic -/

@[simp] theorem fadd_val (a b : Fp) : fadd a.val b.val = (a + b).val := (ZMod.val_add a b).symm

@[simp] theorem mulmod_val (a b : Fp) : mulmod a.val b.val P = (a * b).val := (ZMod.val_mul a b).symm

@[simp] theorem fmul_val (a b : Fp) : fmul a.val b.val = (a * b).val := mulmod_val a b

@[simp] theorem fsub_val (a b : Fp) : fsub a.val b.val = .ok (a - b).val := by
  have hb : b.val ≤ P := (ZMod.val_lt b).le
  have hcast : ((a.val + (P - b.val) : ℕ) : Fp) = a - b := by
    have hP : (P : Fp) = 0 := ZMod.natCast_self p
    rw [Nat.cast_add, Nat.cast_sub hb, ZMod.natCast_zmod_val, ZMod.natCast_zmod_val, hP]
    ring
  have hval := congrArg ZMod.val hcast
  rw [ZMod.val_natCast] at hval
  rw [fsub, revertIf_bind, pure_ok]
  exact ⟨not_lt.mpr hb, hval⟩

theorem zero_val : 0 = (0 : Fp).val := rfl
theorem one_val : 1 = (1 : Fp).val := rfl
theorem two_val : 2 = (2 : Fp).val := rfl
theorem D_val : D = d.val := rfl
theorem D2_val : D2 = (2 * d).val := by decide +kernel
theorem SQRT_M1_val : SQRT_M1 = sqrtM1.val := rfl

theorem fexp_val (a : Fp) {e : ℕ} (he : e < 2 ^ 256) : fexp a.val e = .ok (a ^ e).val := by
  let Denotes : ℕ → Fp → Prop := fun n x => n = x.val
  have hcombine : ∀ m n x y, Denotes m x → Denotes n y →
      ∃ r, (pure (mulmod m n P) : Result ℕ) = .ok r ∧ Denotes r (x * y) := by
    rintro _ _ x y rfl rfl
    exact ⟨_, rfl, mulmod_val x y⟩
  have hsquare : ∀ n y, Denotes n y →
      ∃ r, (pure (mulmod n n P) : Result ℕ) = .ok r ∧ Denotes r (y * y) := by
    rintro _ y rfl
    exact ⟨_, rfl, mulmod_val y y⟩
  obtain ⟨r, hloop, hr⟩ := BinaryPower.loop_spec hcombine hsquare 256 he one_val
    (rfl : Denotes a.val a)
  rw [fexp, hloop, hr, one_mul]

@[simp] theorem finv_val (a : Fp) : finv a.val = .ok a⁻¹.val := by
  rw [finv, fexp_val a (by decide), P_eq, BinaryPower.inv_eq_pow (by decide) a]

theorem fsqrt_val (a : Fp) : ∃ r : Fp, fsqrt a.val = .ok r.val ∧ (IsSquare a → r * r = a) := by
  have hexp := fexp_val a (show (P + 3) / 8 < 2 ^ 256 by decide)
  have hroots : IsSquare a → a ^ ((P + 3) / 8) * a ^ ((P + 3) / 8) = a ∨
      a ^ ((P + 3) / 8) * sqrtM1 * (a ^ ((P + 3) / 8) * sqrtM1) = a := by
    intro hsquare
    have hroot := sqrt_of_square hsquare
    rwa [pow_two, pow_two] at hroot
  generalize a ^ ((P + 3) / 8) = r at hexp hroots
  by_cases hr : r * r = a
  · refine ⟨r, ?_, fun _ => hr⟩
    simp [fsqrt, hexp, hr]
  · refine ⟨r * sqrtM1, ?_, fun hsquare => (hroots hsquare).resolve_left hr⟩
    have hval : (r * r).val ≠ a.val := fun h => hr (ZMod.val_injective p h)
    simp [fsqrt, hexp, hval, SQRT_M1_val]

/-! ## Points -/

/-- Reduced extended coordinates of a point of the group. -/
def Represents (pt : Point) (A : Edwards25519.Point) : Prop :=
  ∃ X Y Z T : Fp, pt = ⟨X.val, Y.val, Z.val, T.val⟩ ∧ Edwards.Extended A X Y Z T

theorem identity_represents : Represents ⟨0, 1, 1, 0⟩ 0 :=
  ⟨0, 1, 1, 0, rfl, by simpa using Edwards.Extended.affine (0 : Edwards25519.Point)⟩

theorem affine_represents (A : Edwards25519.Point) :
    Represents ⟨A.x.val, A.y.val, 1, mulmod A.x.val A.y.val P⟩ A :=
  ⟨A.x, A.y, 1, A.x * A.y, by rw [mulmod_val, one_val], Edwards.Extended.affine A⟩

theorem addPoint_represents {p1 p2 : Point} {A B : Edwards25519.Point} (h₁ : Represents p1 A)
    (h₂ : Represents p2 B) : ∃ r, addPoint p1 p2 = .ok r ∧ Represents r (A + B) := by
  obtain ⟨X₁, Y₁, Z₁, T₁, rfl, hA⟩ := h₁
  obtain ⟨X₂, Y₂, Z₂, T₂, rfl, hB⟩ := h₂
  have hd : T₁ * T₂ * (2 * d) = T₁ * T₂ * (2 * parameters.d) := by rw [parameters_d]
  have hsum := Edwards.Extended.add rfl hA hB rfl rfl hd rfl
  refine ⟨_, ?_, _, _, _, _, rfl, hsum⟩
  simp only [addPoint, D2_val, two_val, fadd_val, fmul_val, fsub_val, ok_bind]
  rfl

theorem doublePoint_represents {pt : Point} {A : Edwards25519.Point} (h : Represents pt A) :
    ∃ r, doublePoint pt = .ok r ∧ Represents r (A + A) := by
  obtain ⟨X, Y, Z, T, rfl, hA⟩ := h
  have hdouble := Edwards.Extended.double rfl hA rfl rfl rfl
  refine ⟨_, ?_, _, _, _, _, rfl, hdouble⟩
  simp only [doublePoint, zero_val, two_val, fadd_val, fmul_val, fsub_val, ok_bind, zero_sub]
  rfl

theorem scalarMult_represents {pt : Point} {A : Edwards25519.Point} (h : Represents pt A) {k : ℕ}
    (hk : k < 2 ^ 256) : ∃ r, scalarMult pt k = .ok r ∧ Represents r (k • A) := by
  let Denotes : Point → Multiplicative Edwards25519.Point → Prop :=
    fun r X => Represents r (Multiplicative.toAdd X)
  have hcombine : ∀ a b X Y, Denotes a X → Denotes b Y →
      ∃ r, addPoint a b = .ok r ∧ Denotes r (X * Y) :=
    fun _ _ _ _ ha hb => addPoint_represents ha hb
  have hsquare : ∀ b Y, Denotes b Y → ∃ r, doublePoint b = .ok r ∧ Denotes r (Y * Y) :=
    fun _ _ hb => doublePoint_represents hb
  have hone : Denotes ⟨0, 1, 1, 0⟩ 1 := identity_represents
  have hbase : Denotes pt (Multiplicative.ofAdd A) := h
  obtain ⟨r, hloop, hr⟩ := BinaryPower.loop_spec hcombine hsquare 256 hk hone hbase
  refine ⟨r, hloop, ?_⟩
  simpa only [one_mul, toAdd_pow, toAdd_ofAdd, Denotes] using hr

theorem pointsEqual_iff {p1 p2 : Point} {A B : Edwards25519.Point} (h₁ : Represents p1 A)
    (h₂ : Represents p2 B) : pointsEqual p1 p2 = true ↔ A = B := by
  obtain ⟨X₁, Y₁, Z₁, T₁, rfl, hA⟩ := h₁
  obtain ⟨X₂, Y₂, Z₂, T₂, rfl, hB⟩ := h₂
  rw [← hA.eq_iff hB]
  simp only [pointsEqual, fmul_val, Bool.and_eq_true, beq_iff_eq, (ZMod.val_injective p).eq_iff]

/-! What `Ed25519.verify` accepts. -/

/-! ## Little-endian numbers -/

theorem natLE_cons (x : UInt8) (b : Bytes) : natLE (x :: b) = x.toNat + 256 * natLE b := rfl

theorem natLE_append (a b : Bytes) : natLE (a ++ b) = natLE a + 256 ^ a.length * natLE b := by
  induction a with
  | nil => simp [natLE]
  | cons x a ih =>
    rw [List.cons_append, natLE_cons, ih, natLE_cons, List.length_cons, pow_succ]
    ring

theorem natLE_lt (b : Bytes) : natLE b < 256 ^ b.length := by
  induction b with
  | nil => simp [natLE]
  | cons x b ih =>
    have hx : x.toNat < 256 := x.toNat_lt
    rw [natLE_cons, List.length_cons, pow_succ]
    omega

theorem natLE_div_top {b : Bytes} (hlength : b.length = 32) :
    natLE b / 2 ^ 255 = (b.getD 31 0).toNat >>> 7 := by
  obtain ⟨low, last, rfl⟩ : ∃ low last, b = low ++ [last] := by
    have hne : b ≠ [] := by
      rintro rfl
      simp at hlength
    exact ⟨_, _, (List.dropLast_append_getLast hne).symm⟩
  have hlow : low.length = 31 := by simpa using hlength
  have hbound := natLE_lt low
  rw [hlow] at hbound
  have hlast : (low ++ [last]).getD 31 0 = last := by
    rw [List.getD_eq_getElem?_getD, List.getElem?_append_right hlow.le, hlow]
    rfl
  have hvalue : natLE (low ++ [last]) = natLE low + 256 ^ 31 * last.toNat := by
    rw [natLE_append, hlow]
    simp [natLE]
  rw [hvalue, hlast, Nat.shiftRight_eq_div_pow]
  omega

theorem decodeLittleEndian_eq {data : Bytes} {offset : ℕ} (h : offset + 32 ≤ data.length) :
    decodeLittleEndian data offset = .ok (natLE ((data.drop offset).take 32)) := by
  rw [decodeLittleEndian, revertIf_bind, pure_ok]
  exact ⟨not_lt.mpr h, rfl⟩

theorem slice_eq {data : Bytes} {start length : ℕ} (h : start + length ≤ data.length) :
    slice data start length = .ok ((data.drop start).take length) := by
  rw [slice, revertIf_bind, pure_ok]
  exact ⟨not_lt.mpr h, rfl⟩

/-! ## Encoded points -/

/-- The encoding of RFC 8032: the ordinate below `p`, and the parity of the abscissa in the top bit
(so that of a zero is clear). -/
structure Decodes (b : Bytes) (A : Edwards25519.Point) : Prop where
  length : b.length = 32
  canonical : natLE b % 2 ^ 255 < p
  y_eq : A.y = (natLE b % 2 ^ 255 : ℕ)
  sign_eq : A.x.val % 2 = natLE b / 2 ^ 255

theorem Decodes.x_sq {b : Bytes} {A : Edwards25519.Point} (h : Decodes b A) :
    A.x * A.x = xSquared (natLE b % 2 ^ 255 : ℕ) := by
  rw [← h.y_eq]
  exact on_curve_iff.mp A.on_curve

theorem Decodes.unique {b : Bytes} {A A' : Edwards25519.Point} (h : Decodes b A) (h' : Decodes b A') :
    A = A' := by
  apply Edwards.Point.ext
  · exact eq_of_sq_of_parity (h.x_sq.trans h'.x_sq.symm) (h.sign_eq.trans h'.sign_eq.symm)
  · exact h.y_eq.trans h'.y_eq.symm

theorem decompress_short {b : Bytes} (h : b.length ≠ 32) : decompress b = .ok none := by
  unfold decompress
  rw [if_pos h]
  rfl

theorem decompress_noncanonical {b : Bytes} (hlength : b.length = 32) (h : p ≤ natLE b % 2 ^ 255) :
    decompress b = .ok none := by
  have hy : natLE b &&& MASK_255 = natLE b % 2 ^ 255 := Nat.and_two_pow_sub_one_eq_mod _ 255
  have hdecode : decodeLittleEndian b 0 = .ok (natLE b) := by
    rw [decodeLittleEndian_eq hlength.ge, List.drop_zero, List.take_of_length_le hlength.le]
  unfold decompress
  simp only [hlength, ne_eq, not_true_eq_false, if_false, hdecode, ok_bind, hy, P_eq, if_pos h]
  rfl

theorem decompress_canonical {b : Bytes} (hlength : b.length = 32) (h : natLE b % 2 ^ 255 < p) :
    ∃ r y : Fp, y = (natLE b % 2 ^ 255 : ℕ) ∧ (IsSquare (xSquared y) → r * r = xSquared y) ∧
      decompress b =
        if r * r ≠ xSquared y then .ok none
        else
          let x := if r.val % 2 ≠ natLE b / 2 ^ 255 then -r else r
          if x = 0 ∧ natLE b / 2 ^ 255 = 1 then .ok none
          else .ok (some ⟨x.val, y.val, 1, mulmod x.val y.val P⟩) := by
  obtain ⟨r, hsqrt, hroot⟩ := fsqrt_val (xSquared (natLE b % 2 ^ 255 : ℕ))
  refine ⟨r, (natLE b % 2 ^ 255 : ℕ), rfl, hroot, ?_⟩
  have hval : ((natLE b % 2 ^ 255 : ℕ) : Fp).val = natLE b % 2 ^ 255 := ZMod.val_natCast_of_lt h
  have hy : natLE b &&& MASK_255 = ((natLE b % 2 ^ 255 : ℕ) : Fp).val := by
    rw [hval]
    exact Nat.and_two_pow_sub_one_eq_mod _ 255
  have hdecode : decodeLittleEndian b 0 = .ok (natLE b) := by
    rw [decodeLittleEndian_eq hlength.ge, List.drop_zero, List.take_of_length_le hlength.le]
  have hle : ¬ P ≤ ((natLE b % 2 ^ 255 : ℕ) : Fp).val := by
    rw [hval]
    exact not_le.mpr h
  generalize ((natLE b % 2 ^ 255 : ℕ) : Fp) = y at *
  unfold decompress
  simp only [hlength, ne_eq, not_true_eq_false, if_false, hdecode, ok_bind, hy, hle,
    ← natLE_div_top hlength, one_val, D_val, mulmod_val, fsub_val, fadd_val, finv_val, fmul_val]
  rw [← xSquared, hsqrt, ok_bind, mulmod_val]
  by_cases hsq : r * r = xSquared y
  · rw [hsq, if_neg (not_not.mpr rfl), if_neg (not_not.mpr rfl)]
    by_cases hsign : r.val % 2 = natLE b / 2 ^ 255
    · simp only [if_neg (not_not.mpr hsign), pure_bind, ZMod.val_eq_zero, mulmod_val]
      rfl
    · simp only [if_pos hsign, zero_val, fsub_val, ok_bind, zero_sub, (ZMod.val_injective p).eq_iff,
        mulmod_val]
      rfl
  · have hvals : (r * r).val ≠ (xSquared y).val := fun h => hsq (ZMod.val_injective p h)
    rw [if_pos hsq, if_pos hvals]
    rfl

theorem decompress_spec (b : Bytes) :
    (decompress b = .ok none ∧ ∀ A, ¬ Decodes b A) ∨
      ∃ pt A, decompress b = .ok (some pt) ∧ Represents pt A ∧ Decodes b A := by
  by_cases hlength : b.length = 32
  case neg => exact .inl ⟨decompress_short hlength, fun A h => hlength h.length⟩
  by_cases hcanonical : natLE b % 2 ^ 255 < p
  case neg =>
    have hp : p ≤ natLE b % 2 ^ 255 := not_lt.mp hcanonical
    exact .inl ⟨decompress_noncanonical hlength hp, fun A h => hcanonical h.canonical⟩
  obtain ⟨r, y, hy, hroot, heq⟩ := decompress_canonical hlength hcanonical
  rw [heq]
  by_cases hsq : r * r = xSquared y
  case neg =>
    left
    rw [if_pos hsq]
    refine ⟨rfl, fun A h => hsq (hroot ⟨A.x, ?_⟩)⟩
    rw [hy, h.x_sq]
  rw [if_neg (not_not.mpr hsq)]
  obtain ⟨x, hx⟩ : ∃ x, x = if r.val % 2 ≠ natLE b / 2 ^ 255 then -r else r := ⟨_, rfl⟩
  have hxx : x * x = xSquared y := by
    rw [hx, ← hsq]
    split
    · exact neg_mul_neg r r
    · rfl
  simp only [← hx]
  by_cases hnegative : x = 0 ∧ natLE b / 2 ^ 255 = 1
  · left
    rw [if_pos hnegative]
    refine ⟨rfl, fun A h => ?_⟩
    have hzero : A.x = 0 := by
      have hsquare := h.x_sq
      rw [← hy, ← hxx, hnegative.1, mul_zero] at hsquare
      exact mul_self_eq_zero.mp hsquare
    have hsign := h.sign_eq
    rw [hzero, hnegative.2] at hsign
    exact absurd hsign (by decide)
  · right
    rw [if_neg hnegative]
    have hsign : x.val % 2 = natLE b / 2 ^ 255 := by
      have hbit := natLE_lt b
      rw [hlength] at hbit
      by_cases hparity : r.val % 2 = natLE b / 2 ^ 255
      · rw [hx, if_neg (not_not.mpr hparity), hparity]
      · rw [if_pos hparity] at hx
        have hne : r ≠ 0 := by
          rintro rfl
          rw [neg_zero] at hx
          rw [ZMod.val_zero] at hparity
          exact hnegative ⟨hx, by omega⟩
        have hflip := neg_val_parity hne
        rw [hx]
        omega
    exact ⟨_, ⟨x, y, on_curve_iff.mpr hxx⟩, rfl, affine_represents ⟨x, y, on_curve_iff.mpr hxx⟩, hlength,
      hcanonical, hy, hsign⟩

/-! ## The challenge -/

theorem digestModL_eq {digest : Bytes} (h : digest.length = 64) :
    digestModL digest = .ok (natLE digest % L) := by
  have hlow : (digest.take 32).length = 32 := by rw [List.length_take, h]; rfl
  have hsplit : natLE digest = natLE (digest.take 32) + 2 ^ 256 * natLE (digest.drop 32) := by
    conv_lhs => rw [← List.take_append_drop 32 digest, natLE_append, hlow]
    rfl
  have hR : R_256 ≡ 2 ^ 256 [MOD L] := by decide
  have hhigh : (digest.drop 32).take 32 = digest.drop 32 :=
    List.take_of_length_le (by rw [List.length_drop, h])
  have hlo : decodeLittleEndian digest 0 = .ok (natLE (digest.take 32)) :=
    decodeLittleEndian_eq (by omega)
  have hhi : decodeLittleEndian digest 32 = .ok (natLE (digest.drop 32)) := by
    rw [decodeLittleEndian_eq h.ge, hhigh]
  have hreduced : natLE (digest.take 32) % L + natLE (digest.drop 32) * R_256 % L ≡ natLE digest [MOD L] := by
    rw [hsplit, mul_comm (2 ^ 256)]
    exact (Nat.mod_modEq _ _).add ((Nat.mod_modEq _ _).trans (hR.mul_left _))
  rw [digestModL, hlo, hhi]
  exact congrArg Except.ok hreduced

/-! ## Verification -/

def base : Edwards25519.Point where
  x := BX
  y := BY
  on_curve := by decide +kernel

theorem base_represents : Represents ⟨BX, BY, 1, mulmod BX BY P⟩ base := affine_represents base

theorem L_eq : L = 2 ^ 252 + 27742317777372353535851937790883648493 := by decide

/-- `y` is `4 / 5` and `x` is even. -/
theorem base_coordinates : 5 * base.y = 4 ∧ base.x.val % 2 = 0 := by
  decide +kernel

theorem order_smul_base : L • base = 0 := by
  obtain ⟨r, hmult, hr⟩ := scalarMult_represents base_represents (show L < 2 ^ 256 by decide)
  have hequal : (scalarMult ⟨BX, BY, 1, mulmod BX BY P⟩ L).toOption.all (pointsEqual ⟨0, 1, 1, 0⟩) = true := by
    decide +kernel
  rw [hmult] at hequal
  exact ((pointsEqual_iff identity_represents hr).mp hequal).symm

/-- The check of RFC 8032 without the cofactor. -/
def Valid (signature publicKey message : Bytes) : Prop :=
  signature.length = 64 ∧ publicKey.length = 32 ∧ natLE (signature.drop 32) < L ∧
    ∃ R A, Decodes (signature.take 32) R ∧ Decodes publicKey A ∧
      natLE (signature.drop 32) • base =
        R + (natLE (sha512 (signature.take 32 ++ publicKey ++ message)) % L) • A

theorem verify_decoded {signature publicKey : Bytes} (message : Bytes) {r a : Point} {R A : Edwards25519.Point}
    (hsignature : signature.length = 64) (hkey : publicKey.length = 32)
    (hs : natLE (signature.drop 32) < L) (hr : decompress (signature.take 32) = .ok (some r))
    (ha : decompress publicKey = .ok (some a)) (hR : Represents r R) (hA : Represents a A) :
    ∃ result, verify signature publicKey message = .ok result ∧
      (result = true ↔ natLE (signature.drop 32) • base =
        R + (natLE (sha512 (signature.take 32 ++ publicKey ++ message)) % L) • A) := by
  have hk : natLE (sha512 (signature.take 32 ++ publicKey ++ message)) % L < 2 ^ 256 :=
    (Nat.mod_lt _ (by decide)).trans (by decide)
  obtain ⟨lhs, hlhs, hleft⟩ := scalarMult_represents base_represents (hs.trans (by decide))
  obtain ⟨ka, hka, hmultiple⟩ := scalarMult_represents hA hk
  obtain ⟨rhs, hrhs, hright⟩ := addPoint_represents hR hmultiple
  have hslice : slice signature 0 32 = .ok (signature.take 32) := slice_eq (by omega)
  have hscalar : decodeLittleEndian signature 32 = .ok (natLE (signature.drop 32)) := by
    rw [decodeLittleEndian_eq hsignature.ge, List.take_of_length_le (by simp [hsignature])]
  have hlengths : ¬ (signature.length ≠ 64 ∨ publicKey.length ≠ 32) := by simp [hsignature, hkey]
  refine ⟨pointsEqual lhs rhs, ?_, pointsEqual_iff hleft hright⟩
  simp only [verify, if_neg hlengths, hslice, hr, hscalar, ha, ok_bind, if_neg (not_le.mpr hs),
    digestModL_eq (sha512_length _), hlhs, hka, hrhs]
  rfl

theorem verify_spec (signature publicKey message : Bytes) :
    ∃ result, verify signature publicKey message = .ok result ∧
      (result = true ↔ Valid signature publicKey message) := by
  by_cases hlengths : signature.length ≠ 64 ∨ publicKey.length ≠ 32
  · refine ⟨false, ?_, by simp, fun h => ?_⟩
    · rw [verify, if_pos hlengths]
      rfl
    · exact absurd hlengths (by simp [h.1, h.2.1])
  obtain ⟨hsignature, hkey⟩ : signature.length = 64 ∧ publicKey.length = 32 := by
    simpa [not_or] using hlengths
  have hslice : slice signature 0 32 = .ok (signature.take 32) := slice_eq (by omega)
  have hscalar : decodeLittleEndian signature 32 = .ok (natLE (signature.drop 32)) := by
    rw [decodeLittleEndian_eq hsignature.ge, List.take_of_length_le (by simp [hsignature])]
  rcases decompress_spec (signature.take 32) with ⟨hnone, hinvalid⟩ | ⟨r, R, hr, hR, hdecR⟩
  · refine ⟨false, ?_, by simp, fun ⟨_, _, _, R, _, h, _⟩ => absurd h (hinvalid R)⟩
    simp only [verify, if_neg hlengths, hslice, hnone, ok_bind]
    rfl
  by_cases hs : natLE (signature.drop 32) < L
  case neg =>
    refine ⟨false, ?_, by simp, fun h => absurd h.2.2.1 hs⟩
    simp only [verify, if_neg hlengths, hslice, hr, hscalar, ok_bind, if_pos (not_lt.mp hs)]
    rfl
  rcases decompress_spec publicKey with ⟨hnone, hinvalid⟩ | ⟨a, A, ha, hA, hdecA⟩
  · refine ⟨false, ?_, by simp, fun ⟨_, _, _, _, A, _, h, _⟩ => absurd h (hinvalid A)⟩
    simp only [verify, if_neg hlengths, hslice, hr, hscalar, hnone, ok_bind, if_neg (not_le.mpr hs)]
    rfl
  obtain ⟨result, hverify, hresult⟩ := verify_decoded message hsignature hkey hs hr ha hR hA
  refine ⟨result, hverify, hresult.trans ⟨?_, ?_⟩⟩
  · exact fun h => ⟨hsignature, hkey, hs, R, A, hdecR, hdecA, h⟩
  · rintro ⟨_, _, _, R', A', hR', hA', h⟩
    rwa [hdecR.unique hR', hdecA.unique hA']

/-- `verify` always returns, and accepts exactly the valid signatures; the loop of `scalarMult` computes
multiples in the group. -/
theorem ed25519_conforms :
    (∀ signature publicKey message, ∃ result, verify signature publicKey message = .ok result ∧
      (result = true ↔ Valid signature publicKey message)) ∧
    ∀ pt A k, Represents pt A → k < 2 ^ 256 → ∃ r, scalarMult pt k = .ok r ∧ Represents r (k • A) :=
  ⟨verify_spec, fun _ _ _ h hk => scalarMult_represents h hk⟩

theorem ed25519_conforms_base : ∃ r, scalarMult ⟨BX, BY, 1, mulmod BX BY P⟩ 5 = .ok r ∧
    Represents r (5 • base) :=
  ed25519_conforms.2 _ base 5 base_represents (by decide)

end ChainGuard.Evm.Ed25519
