import ChainGuard.OffChain.ShareStrings
import ChainGuard.OffChain.VssField

/-! What `verifyShare` accepts and what `reconstructSecret` makes of it: an accepted value is the polynomial's, and the
secret comes back unless a weight turns out negative, because the remainders of the source keep the sign. -/
namespace ChainGuard.OffChain.Secrets
set_option autoImplicit false

/-! ## Verification -/

/-- What a string without a sign is read as is no negative number. -/
theorem stringToBigInt_nonneg {s : JsString} {n : ℤ} (hdash : dash ∉ s) (h : stringToBigInt s = some n) : 0 ≤ n := by
  have hnat : ∀ o : Option ℕ, o.map Int.ofNat = some n → 0 ≤ n := by
    intro o ho
    obtain ⟨m, _, rfl⟩ := Option.map_eq_some_iff.mp ho
    exact Int.natCast_nonneg m
  have htrim : dash ∉ trim s := by
    intro hmem
    rw [trim, List.mem_reverse] at hmem
    have hback := (List.dropWhile_sublist _).subset hmem
    rw [List.mem_reverse] at hback
    exact hdash ((List.dropWhile_sublist _).subset hback)
  rw [stringToBigInt] at h
  split at h
  · rw [← Option.some.inj h]
  · split_ifs at h with _ _ _ hsign
    · exact hnat _ h
    · exact hnat _ h
    · exact hnat _ h
    · exact absurd (List.mem_of_head? hsign) htrim
    · exact hnat _ h
    · exact hnat _ h

theorem bigInt_nonneg {s : JsString} {n : ℤ} (hdash : dash ∉ s) (h : bigInt s = .ok n) : 0 ≤ n := by
  rw [bigInt] at h
  split at h
  · next heq => exact stringToBigInt_nonneg hdash (heq.trans (congrArg some (Except.ok.inj h)))
  · cases h

theorem dash_not_mem_split {s part : JsString} (h : part ∈ s.splitOn dash) : dash ∉ part := by
  induction s generalizing part with
  | nil =>
    rw [List.splitOn_nil, List.mem_singleton] at h
    rw [h]
    exact List.not_mem_nil
  | cons c s ih =>
    rw [List.splitOn_cons_eq_if_modifyHead] at h
    split at h
    · rcases List.mem_cons.mp h with rfl | h
      · exact List.not_mem_nil
      · exact ih h
    · next hne =>
      cases hsplit : s.splitOn dash with
      | nil => exact absurd hsplit (List.splitOn_ne_nil _ _)
      | cons first rest =>
        rw [hsplit, List.modifyHead_cons] at h
        rcases List.mem_cons.mp h with rfl | h
        · rw [List.mem_cons, not_or]
          refine ⟨fun heq => hne (beq_iff_eq.mpr heq.symm), ih ?_⟩
          rw [hsplit]
          exact List.mem_cons_self
        · exact ih (by rw [hsplit]; exact List.mem_cons_of_mem _ h)

theorem parseShare_nat {s : JsString} {x y : ℤ} (h : parseShare s = .ok (some (x, y))) :
    ∃ m n : ℕ, x = m ∧ y = n := by
  rw [parseShare] at h
  split at h
  · next point hex hsplit =>
    have hpoint : dash ∉ point := dash_not_mem_split (s := s) (by rw [hsplit]; exact List.mem_cons_self)
    have hhex : dash ∉ hex := dash_not_mem_split (s := s) (by rw [hsplit]; simp)
    have hvalue : dash ∉ js "0x" ++ hex.drop 5 := by
      rw [List.mem_append, not_or]
      exact ⟨by decide, fun hmem => hhex (List.mem_of_mem_drop hmem)⟩
    simp only [Guarded.bind_ok] at h
    obtain ⟨x', hx, h⟩ := h
    split at h
    · cases h
    · obtain ⟨y', hy, h⟩ := (Guarded.bind_ok ..).mp h
      obtain ⟨rfl, rfl⟩ := Prod.mk.inj (Option.some.inj (Except.ok.inj h))
      exact ⟨x'.toNat, y'.toNat, (Int.toNat_of_nonneg (bigInt_nonneg hpoint hx)).symm,
        (Int.toNat_of_nonneg (bigInt_nonneg hvalue hy)).symm⟩
  · cases h

theorem verifyShare_iff {commitments : List JsString} {as : List ℕ} (hcommits : Commits commitments as) {s : JsString}
    {x y : ℕ} (hparse : parseShare s = .ok (some ((x : ℤ), (y : ℤ)))) :
    verifyShare s commitments = true ↔ (y : ZMod VSS_Q) = (residues as).eval (x : ZMod VSS_Q) := by
  have hpower : modPow VSS_G y VSS_P = .ok ((4 ^ y % VSS_P : ℕ) : ℤ) := modPow_nat 4 y one_lt_VSS_P
  have hcommitted : committedPower commitments x = .ok ((4 ^ value as x % VSS_P : ℕ) : ℤ) :=
    residual.committedPower hcommits x
  have hrun : tryVerifyShare s commitments =
      .ok (((4 ^ y % VSS_P : ℕ) : ℤ) == ((4 ^ value as x % VSS_P : ℕ) : ℤ)) := by
    rw [tryVerifyShare, hparse]
    simp only [bind, Except.bind, hpower, hcommitted, pure, Except.pure]
  rw [verifyShare, hrun, ← value_cast, ← generator_pow_inj]
  exact beq_iff_eq.trans Int.natCast_inj

/-- What is accepted has coordinates, and its value is the polynomial's. -/
theorem verifyShare_sound {commitments : List JsString} {as : List ℕ} (hcommits : Commits commitments as) {s : JsString}
    (h : verifyShare s commitments = true) : ∃ x y : ℕ, parseShare s = .ok (some ((x : ℤ), (y : ℤ))) ∧
      (y : ZMod VSS_Q) = (residues as).eval (x : ZMod VSS_Q) := by
  have haccepts := h
  rw [verifyShare] at haccepts
  split at haccepts
  · next valid hrun =>
    rw [tryVerifyShare] at hrun
    obtain ⟨coordinates, hparse, hrun⟩ := (Guarded.bind_ok ..).mp hrun
    cases coordinates with
    | none =>
      rw [haccepts] at hrun
      cases hrun
    | some coordinates =>
      obtain ⟨x, y, hx, hy⟩ := parseShare_nat hparse
      have hcoordinates : coordinates = ((x : ℤ), (y : ℤ)) := Prod.ext hx hy
      rw [hcoordinates] at hparse
      exact ⟨x, y, hparse, (verifyShare_iff hcommits hparse).mp h⟩
  · cases haccepts

/-! ## Weights -/

/-- The inverse of a residue as a power, before any remainder is taken. -/
@[irreducible] def inversePower (d : ℤ) : ℤ := d ^ (VSS_Q - 2)

/-- What a point contributes to the weight of another. -/
def factor (xj xi : ℕ) : ℤ := xj * inversePower ((xj : ℤ) - xi + VSS_Q)

/-- The weight of the `i`-th point. -/
def weightOf (xs : List ℕ) (i : ℕ) : ℤ :=
  ∏ j ∈ Finset.range xs.length, if i = j then 1 else factor (xs.getD j 0) (xs.getD i 0)

theorem tmod_pow_tmod (a m : ℤ) (n : ℕ) : ((a.tmod m) ^ n).tmod m = (a ^ n).tmod m := by
  induction n with
  | zero => rw [pow_zero, pow_zero]
  | succ n ih => rw [pow_succ, pow_succ, Int.mul_tmod, ih, Int.tmod_tmod, ← Int.mul_tmod]

theorem mul_tmod_tmod (a b m : ℤ) : (a * b.tmod m).tmod m = (a * b).tmod m := by
  rw [Int.mul_tmod, Int.tmod_tmod, ← Int.mul_tmod]

theorem tmod_eq_zero {a : ℤ} : a.tmod VSS_Q = 0 ↔ (a : ZMod VSS_Q) = 0 := by
  rw [ZMod.intCast_zmod_eq_zero_iff_dvd]
  exact Int.dvd_iff_tmod_eq_zero.symm

theorem modInverse_ok {d : ℤ} (hd : (d : ZMod VSS_Q) ≠ 0) : ∃ inverse,
    modInverse (d.tmod VSS_Q) VSS_Q = .ok inverse ∧ inverse = (inversePower d).tmod VSS_Q := by
  have hne : (d.tmod VSS_Q).tmod VSS_Q ≠ 0 := by
    rw [Int.tmod_tmod, Ne, tmod_eq_zero]
    exact hd
  have hexponent : (VSS_Q : ℤ) - 2 = ((VSS_Q - 2 : ℕ) : ℤ) := by
    rw [Nat.cast_sub one_lt_VSS_Q]
    rfl
  have hpower := modPow_eq (d.tmod VSS_Q) (VSS_Q - 2) one_lt_VSS_Q
  rw [← hexponent, tmod_pow_tmod] at hpower
  refine ⟨_, (if_neg hne).trans hpower, ?_⟩
  rw [inversePower]

theorem inversePower_cast (d : ℤ) : ((inversePower d : ℤ) : ZMod VSS_Q) = (d : ZMod VSS_Q)⁻¹ := by
  rw [inversePower, Int.cast_pow, BinaryPower.inv_eq_pow (by decide) (d : ZMod VSS_Q)]

theorem inversePower_neg_iff {d : ℤ} (hd : d ≠ 0) : inversePower d ≠ 0 ∧ (inversePower d < 0 ↔ d < 0) := by
  have hodd : Odd (VSS_Q - 2) := by decide
  rw [inversePower]
  exact ⟨pow_ne_zero _ hd, hodd.pow_neg_iff⟩

theorem factor_term {xj xi : ℕ} (hne : (xj : ZMod VSS_Q) ≠ xi) : ∃ inverse,
    modInverse (modSub xj xi VSS_Q) VSS_Q = .ok inverse ∧ modMul xj inverse VSS_Q = (factor xj xi).tmod VSS_Q := by
  have hd : (((xj : ℤ) - xi + VSS_Q : ℤ) : ZMod VSS_Q) ≠ 0 := by
    push_cast
    rw [ZMod.natCast_self, add_zero]
    exact sub_ne_zero.mpr hne
  obtain ⟨inverse, hinverse, hvalue⟩ := modInverse_ok hd
  refine ⟨inverse, hinverse, ?_⟩
  rw [modMul, hvalue, factor]
  exact mul_tmod_tmod _ _ _

theorem factor_cast (xj xi : ℕ) :
    ((factor xj xi : ℤ) : ZMod VSS_Q) = xj * ((xj : ZMod VSS_Q) - xi)⁻¹ := by
  have hd : (((xj : ℤ) - xi + VSS_Q : ℤ) : ZMod VSS_Q) = (xj : ZMod VSS_Q) - xi := by
    push_cast
    rw [ZMod.natCast_self, add_zero]
  rw [factor, Int.cast_mul, inversePower_cast, hd, Int.cast_natCast]

theorem factor_neg_iff {xj xi : ℕ} (hne : (xj : ZMod VSS_Q) ≠ xi) (hzero : (xj : ZMod VSS_Q) ≠ 0) :
    factor xj xi ≠ 0 ∧ (factor xj xi < 0 ↔ xj + VSS_Q < xi) := by
  have hxj : (0 : ℤ) < xj := by
    have hpos : xj ≠ 0 := fun h => hzero (by rw [h, Nat.cast_zero])
    omega
  have hd : (xj : ℤ) - xi + VSS_Q ≠ 0 := by
    intro h
    refine hne (sub_eq_zero.mp ?_)
    have hcast := congrArg (Int.cast : ℤ → ZMod VSS_Q) h
    push_cast at hcast
    rwa [ZMod.natCast_self, add_zero] at hcast
  obtain ⟨hpower, hsign⟩ := inversePower_neg_iff hd
  refine ⟨mul_ne_zero hxj.ne' hpower, ?_⟩
  rw [factor, mul_neg_iff, hsign]
  omega

/-- The points are different modulo `VSS_Q`. -/
def Distinct (xs : List ℕ) : Prop := (xs.map fun x : ℕ => (x : ZMod VSS_Q)).Nodup

def points (xs : List ℕ) (i : ℕ) : ZMod VSS_Q := (xs.getD i 0 : ℕ)

theorem Distinct.injOn {xs : List ℕ} (h : Distinct xs) : Set.InjOn (points xs) (Finset.range xs.length) :=
  Feldman.injOn_of_nodup h 0

theorem Distinct.ne {xs : List ℕ} (h : Distinct xs) {i j : ℕ} (hi : i < xs.length) (hj : j < xs.length) (hne : i ≠ j) :
    ((xs.getD j 0 : ℕ) : ZMod VSS_Q) ≠ (xs.getD i 0 : ℕ) := fun heq =>
  hne (h.injOn (Finset.mem_range.mpr hi) (Finset.mem_range.mpr hj) heq.symm)

theorem weightOf_cast (xs : List ℕ) (i : ℕ) :
    ((weightOf xs i : ℤ) : ZMod VSS_Q) = Feldman.weight (points xs) xs.length i := by
  rw [weightOf, Int.cast_prod, Feldman.weight, ← Finset.prod_erase (Finset.range xs.length) (a := i)]
  · refine Finset.prod_congr rfl fun j hj => ?_
    obtain ⟨hne, hj⟩ := Finset.mem_erase.mp hj
    rw [if_neg hne.symm, factor_cast]
    rfl
  · rw [if_pos rfl, Int.cast_one]

theorem lagrange_eq {xs : List ℕ} (h : Distinct xs) {i : ℕ} (hi : i < xs.length) :
    lagrange (xs.map Int.ofNat) i = .ok ((weightOf xs i).tmod VSS_Q) := by
  have hget : ∀ j < xs.length, (xs.map Int.ofNat).getD j 0 = ((xs.getD j 0 : ℕ) : ℤ) := fun j hj => by
    rw [List.getD_eq_getElem _ _ (by rwa [List.length_map]), List.getElem_map, List.getD_eq_getElem _ _ hj]
    rfl
  obtain ⟨l, hrun, hl⟩ : ∃ l, lagrange (xs.map Int.ofNat) i = .ok l ∧
      l = (∏ j ∈ Finset.range (xs.map Int.ofNat).length,
        if i = j then 1 else factor (xs.getD j 0) (xs.getD i 0)).tmod VSS_Q := by
    refine Loops.tryUpTo_spec (P := fun n l => l = (∏ j ∈ Finset.range n,
      if i = j then 1 else factor (xs.getD j 0) (xs.getD i 0)).tmod VSS_Q) ?_ ?_
    · rw [Finset.range_zero, Finset.prod_empty]
      exact (Int.tmod_eq_of_lt Int.one_nonneg (by exact_mod_cast one_lt_VSS_Q)).symm
    · intro j hj l hl
      rw [List.length_map] at hj
      by_cases hij : i = j
      · exact ⟨l, if_pos hij, by rw [hl, Finset.prod_range_succ, if_pos hij, mul_one]⟩
      · obtain ⟨inverse, hinverse, hterm⟩ := factor_term (h.ne hi hj hij)
        refine ⟨modMul l (modMul (xs.getD j 0) inverse VSS_Q) VSS_Q, ?_, ?_⟩
        · rw [if_neg hij, hget j hj, hget i hi]
          dsimp only
          rw [hinverse]
          rfl
        · rw [Finset.prod_range_succ, if_neg hij, hterm, hl, modMul, ← Int.mul_tmod]
  rw [hrun, hl, List.length_map, weightOf]

theorem prod_pos_iff_even {ι : Type} [DecidableEq ι] {s : Finset ι} {f : ι → ℤ} (hne : ∀ j ∈ s, f j ≠ 0) :
    0 < ∏ j ∈ s, f j ↔ Even (s.filter fun j => f j < 0).card := by
  induction s using Finset.induction_on with
  | empty => simp
  | insert a s ha ih =>
    have hprod : ∏ j ∈ s, f j ≠ 0 := Finset.prod_ne_zero_iff.mpr fun j hj => hne j (Finset.mem_insert_of_mem hj)
    have ih := ih fun j hj => hne j (Finset.mem_insert_of_mem hj)
    rw [Finset.prod_insert ha, Finset.filter_insert]
    by_cases hneg : f a < 0
    · rw [if_pos hneg, Finset.card_insert_of_notMem (fun hmem => ha (Finset.mem_filter.mp hmem).1), Nat.even_add_one,
        ← ih, mul_pos_iff, not_lt]
      constructor
      · rintro (⟨hpos, _⟩ | ⟨_, hlt⟩)
        · exact absurd hpos hneg.not_gt
        · exact hlt.le
      · exact fun hle => Or.inr ⟨hneg, lt_of_le_of_ne hle hprod⟩
    · have hpos : 0 < f a := lt_of_le_of_ne (not_lt.mp hneg) (Ne.symm (hne a (Finset.mem_insert_self a s)))
      rw [if_neg hneg, ← ih, mul_pos_iff_of_pos_left hpos]

/-- The number of points that the `i`-th one is ahead of by more than the modulus. -/
def farBehind (xs : List ℕ) (i : ℕ) : ℕ :=
  ((Finset.range xs.length).filter fun j => xs.getD j 0 + VSS_Q < xs.getD i 0).card

/-- No weight is negative: every point is far ahead of an even number of others, or another one is zero. -/
def NoNegativeWeight (xs : List ℕ) : Prop :=
  ∀ i < xs.length, Even (farBehind xs i) ∨ ∃ j < xs.length, j ≠ i ∧ VSS_Q ∣ xs.getD j 0

theorem weightOf_zero_iff {xs : List ℕ} (h : Distinct xs) {i : ℕ} (hi : i < xs.length) :
    ((weightOf xs i : ℤ) : ZMod VSS_Q) = 0 ↔ ∃ j < xs.length, j ≠ i ∧ VSS_Q ∣ xs.getD j 0 := by
  rw [weightOf_cast _ _, Feldman.weight_eq_zero_iff h.injOn hi]
  simp only [points, ZMod.natCast_eq_zero_iff]

theorem weightOf_nonneg_iff {xs : List ℕ} (h : Distinct xs) {i : ℕ} (hi : i < xs.length) :
    0 ≤ (weightOf xs i).tmod VSS_Q ↔ Even (farBehind xs i) ∨ ∃ j < xs.length, j ≠ i ∧ VSS_Q ∣ xs.getD j 0 := by
  by_cases hzero : ∃ j < xs.length, j ≠ i ∧ VSS_Q ∣ xs.getD j 0
  · refine iff_of_true (le_of_eq ?_) (Or.inr hzero)
    exact (tmod_eq_zero.mpr ((weightOf_zero_iff h hi).mpr hzero)).symm
  · have hne : (weightOf xs i).tmod VSS_Q ≠ 0 := fun heq => hzero ((weightOf_zero_iff h hi).mp (tmod_eq_zero.mp heq))
    have hfactor : ∀ j ∈ Finset.range xs.length, i ≠ j → factor (xs.getD j 0) (xs.getD i 0) ≠ 0 ∧
        (factor (xs.getD j 0) (xs.getD i 0) < 0 ↔ xs.getD j 0 + VSS_Q < xs.getD i 0) := by
      intro j hj hij
      have hj := Finset.mem_range.mp hj
      refine factor_neg_iff (h.ne hi hj hij) fun hcast => hzero ⟨j, hj, hij.symm, ?_⟩
      exact (ZMod.natCast_eq_zero_iff _ _).mp hcast
    have hsign : 0 < weightOf xs i ↔ Even (farBehind xs i) := by
      rw [weightOf, prod_pos_iff_even, farBehind]
      · refine Eq.to_iff (congrArg (fun s : Finset ℕ => Even s.card) (Finset.filter_congr fun j hj => ?_))
        by_cases hij : i = j
        · rw [if_pos hij, hij]
          omega
        · rw [if_neg hij]
          exact (hfactor j hj hij).2
      · intro j hj
        by_cases hij : i = j
        · rw [if_pos hij]
          exact one_ne_zero
        · rw [if_neg hij]
          exact (hfactor j hj hij).1
    rw [or_iff_left hzero, ← hsign]
    constructor
    · intro hnonneg
      by_contra hneg
      have hopposite : 0 ≤ (-weightOf xs i).tmod VSS_Q := Int.tmod_nonneg _ (neg_nonneg.mpr (not_lt.mp hneg))
      rw [Int.neg_tmod] at hopposite
      exact hne (le_antisymm (neg_nonneg.mp hopposite) hnonneg)
    · exact fun hpos => Int.tmod_nonneg _ hpos.le

/-! ## Interpolation -/

def coordinates (pts : List (ℕ × ℕ)) : List (ℤ × ℤ) := pts.map fun p => ((p.1 : ℤ), (p.2 : ℤ))

theorem coordinates_fst (pts : List (ℕ × ℕ)) : (coordinates pts).map Prod.fst = (pts.map Prod.fst).map Int.ofNat := by
  rw [coordinates, List.map_map, List.map_map]
  rfl

theorem coordinates_snd {pts : List (ℕ × ℕ)} {i : ℕ} (hi : i < pts.length) :
    ((coordinates pts).getD i (0, 0)).2 = ((pts.getD i (0, 0)).2 : ℤ) := by
  rw [coordinates, List.getD_eq_getElem _ _ (by rwa [List.length_map]), List.getElem_map, List.getD_eq_getElem _ _ hi]

theorem lagrange_coordinates {pts : List (ℕ × ℕ)} (h : Distinct (pts.map Prod.fst)) {i : ℕ} (hi : i < pts.length) :
    lagrange ((coordinates pts).map Prod.fst) i = .ok ((weightOf (pts.map Prod.fst) i).tmod VSS_Q) := by
  rw [coordinates_fst]
  exact lagrange_eq h (by rwa [List.length_map])

theorem interpolate_ok {pts : List (ℕ × ℕ)} (h : Distinct (pts.map Prod.fst))
    (hweights : NoNegativeWeight (pts.map Prod.fst)) : ∃ secret : ℕ,
      interpolateAtZero (coordinates pts) = .ok (secret : ℤ) ∧ secret < VSS_Q ∧ (secret : ZMod VSS_Q) =
        ∑ i ∈ Finset.range pts.length,
          Feldman.weight (points (pts.map Prod.fst)) pts.length i * ((pts.getD i (0, 0)).2 : ℕ) := by
  have hlength : (pts.map Prod.fst).length = pts.length := List.length_map _
  have hlength' : (coordinates pts).length = pts.length := List.length_map _
  obtain ⟨_, hrun, secret, rfl, hlt, hsecret⟩ : ∃ result, interpolateAtZero (coordinates pts) = .ok result ∧
      ∃ secret : ℕ, result = secret ∧ secret < VSS_Q ∧ (secret : ZMod VSS_Q) =
        ∑ i ∈ Finset.range (coordinates pts).length,
          Feldman.weight (points (pts.map Prod.fst)) pts.length i * ((pts.getD i (0, 0)).2 : ℕ) := by
    refine Loops.tryUpTo_spec (P := fun n (result : ℤ) => ∃ secret : ℕ, result = secret ∧ secret < VSS_Q ∧
      (secret : ZMod VSS_Q) = ∑ i ∈ Finset.range n,
        Feldman.weight (points (pts.map Prod.fst)) pts.length i * ((pts.getD i (0, 0)).2 : ℕ))
      ⟨0, rfl, prime_VSS_Q.pos, by simp⟩ ?_
    rintro i hi _ ⟨secret, rfl, hlt, hsecret⟩
    rw [hlength'] at hi
    have hi' : i < (pts.map Prod.fst).length := by rwa [hlength]
    obtain ⟨l, hl⟩ := Int.eq_ofNat_of_zero_le ((weightOf_nonneg_iff h hi').mpr (hweights i hi'))
    have hcast : (l : ZMod VSS_Q) = Feldman.weight (points (pts.map Prod.fst)) pts.length i := by
      have hweight := weightOf_cast (pts.map Prod.fst) i
      rw [hlength] at hweight
      rw [← hweight, ← cast_tmod, hl, Int.cast_natCast]
    refine ⟨_, ?_, (secret + (pts.getD i (0, 0)).2 * l % VSS_Q) % VSS_Q, rfl, Nat.mod_lt _ prime_VSS_Q.pos, ?_⟩
    · rw [lagrange_coordinates h hi, hl, Guarded.ok_bind, coordinates_snd hi, modMul_nat, modAdd_nat]
      rfl
    · rw [ZMod.natCast_mod, Nat.cast_add, ZMod.natCast_mod, Nat.cast_mul, hsecret, hcast, Finset.sum_range_succ,
        mul_comm (Feldman.weight _ _ i)]
  rw [hlength'] at hsecret
  exact ⟨secret, hrun, hlt, hsecret⟩

theorem interpolate_negative {pts : List (ℕ × ℕ)} (h : Distinct (pts.map Prod.fst)) {i : ℕ} (hi : i < pts.length)
    (hneg : (weightOf (pts.map Prod.fst) i).tmod VSS_Q < 0)
    (hvalues : ∀ j < pts.length, (pts.getD j (0, 0)).2 = if j = i then 1 else 0) :
    interpolateAtZero (coordinates pts) = .ok ((weightOf (pts.map Prod.fst) i).tmod VSS_Q) := by
  have hlength : (coordinates pts).length = pts.length := List.length_map _
  obtain ⟨_, hrun, rfl⟩ : ∃ result, interpolateAtZero (coordinates pts) = .ok result ∧
      result = if i < (coordinates pts).length then (weightOf (pts.map Prod.fst) i).tmod VSS_Q else 0 := by
    refine Loops.tryUpTo_spec (P := fun n result =>
      result = if i < n then (weightOf (pts.map Prod.fst) i).tmod VSS_Q else 0) rfl ?_
    rintro j hj _ rfl
    rw [hlength] at hj
    refine ⟨_, by rw [lagrange_coordinates h hj, Guarded.ok_bind, coordinates_snd hj, hvalues j hj]; rfl, ?_⟩
    rcases lt_trichotomy j i with hlt | rfl | hlt
    · rw [if_neg hlt.ne, if_neg (by omega), if_neg (by omega), Nat.cast_zero, modMul, zero_mul, modAdd, Int.zero_tmod]
      rfl
    · rw [if_pos rfl, if_neg (lt_irrefl j), if_pos (Nat.lt_succ_self j), Nat.cast_one, modMul, one_mul, modAdd, zero_add,
        Int.tmod_tmod, Int.tmod_tmod]
    · rw [if_neg hlt.ne', if_pos hlt, if_pos (by omega), Nat.cast_zero, modMul, zero_mul, modAdd, Int.zero_tmod,
        add_zero, Int.tmod_tmod]
  rw [hrun, hlength, if_pos hi]

/-! ## Reconstruction -/

theorem parseShare_reconstruction {s : JsString} {p : ℤ × ℤ} (h : parseShare s = .ok (some p)) :
    ((s.splitOn dash).getD 1 []).take 3 = js "vss" ∧
      ∀ originalLen, ∃ len, parseForReconstruction s originalLen = .ok (p, len) := by
  rw [parseShare] at h
  split at h
  · next point hex hsplit =>
    obtain ⟨x, hx, h⟩ := (Guarded.bind_ok ..).mp h
    by_cases hvss : hex.take 3 = js "vss"
    · rw [if_neg (not_not.mpr hvss)] at h
      obtain ⟨y, hy, h⟩ := (Guarded.bind_ok ..).mp h
      obtain rfl := Option.some.inj (Except.ok.inj h)
      refine ⟨by rw [hsplit]; exact hvss, fun originalLen => ⟨parseIntHex ((hex.drop 3).take 2), ?_⟩⟩
      rw [parseForReconstruction, hsplit]
      dsimp only
      rw [hx, Guarded.ok_bind, if_pos hvss, hy]
      rfl
    · rw [if_pos hvss] at h
      cases h
  · cases h

/-- These shares can be verified, and have these coordinates. -/
def Parsed (shares : List JsString) (pts : List (ℕ × ℕ)) : Prop :=
  List.Forall₂ (fun s p => parseShare s = .ok (some ((p.1 : ℤ), (p.2 : ℤ)))) shares pts

theorem parseShares_parsed {shares : List JsString} {pts : List (ℕ × ℕ)} (h : Parsed shares pts)
    (originalLen : Option ℤ) : ∃ len, parseShares shares originalLen = .ok (coordinates pts, len) := by
  induction h generalizing originalLen with
  | nil => exact ⟨originalLen, rfl⟩
  | cons hs _ ih =>
    obtain ⟨len, hparse⟩ := (parseShare_reconstruction hs).2 originalLen
    obtain ⟨len', hrest⟩ := ih len
    refine ⟨len', ?_⟩
    rw [parseShares, hparse, Guarded.ok_bind]
    dsimp only
    rw [hrest]
    rfl

theorem reconstruct_parsed {shares : List JsString} {pts : List (ℕ × ℕ)} (hne : shares ≠ []) (h : Parsed shares pts)
    {len : Option ℤ} (hlen : parseShares shares (some 64) = .ok (coordinates pts, len)) :
    reconstructSecret shares =
      (do let secret ← interpolateAtZero (coordinates pts); return padStart (toString16 secret) len) := by
  cases h with
  | nil => exact absurd rfl hne
  | cons hs _ =>
    have hvss := (parseShare_reconstruction hs).1
    rw [reconstructSecret]
    dsimp only
    rw [if_neg (not_not.mpr hvss), hlen, Guarded.ok_bind]

/-- What is reconstructed is this secret, after some number of zeros. -/
def Recovers (shares : List JsString) (secret : ℕ) : Prop :=
  ∃ width, reconstructSecret shares = .ok (padStart (toString16 secret) width)

theorem interpolate_polynomial {pts : List (ℕ × ℕ)} (h : Distinct (pts.map Prod.fst))
    (hweights : NoNegativeWeight (pts.map Prod.fst)) {f : Polynomial (ZMod VSS_Q)} (hdegree : f.degree < pts.length)
    (hvalues : ∀ p ∈ pts, (p.2 : ZMod VSS_Q) = f.eval (p.1 : ZMod VSS_Q)) {secret : ℕ} (hlt : secret < VSS_Q)
    (hzero : f.eval 0 = secret) : interpolateAtZero (coordinates pts) = .ok (secret : ℤ) := by
  have hlength : (pts.map Prod.fst).length = pts.length := List.length_map _
  obtain ⟨result, hrun, hresult, hsum⟩ := interpolate_ok h hweights
  have hinterpolate := Feldman.sum_weight (hlength ▸ h.injOn) hdegree
  have hterms : ∑ i ∈ Finset.range pts.length,
      Feldman.weight (points (pts.map Prod.fst)) pts.length i * ((pts.getD i (0, 0)).2 : ZMod VSS_Q) =
        ∑ i ∈ Finset.range pts.length,
          Feldman.weight (points (pts.map Prod.fst)) pts.length i * f.eval (points (pts.map Prod.fst) i) := by
    refine Finset.sum_congr rfl fun i hi => ?_
    have hi := Finset.mem_range.mp hi
    have hpoint : points (pts.map Prod.fst) i = ((pts[i].1 : ℕ) : ZMod VSS_Q) := by
      rw [points, List.getD_eq_getElem _ _ (by rwa [hlength]), List.getElem_map]
    rw [hpoint, List.getD_eq_getElem _ _ hi, hvalues _ (List.getElem_mem hi)]
  rw [hterms, hinterpolate, hzero, ZMod.natCast_eq_natCast_iff', Nat.mod_eq_of_lt hresult, Nat.mod_eq_of_lt hlt] at hsum
  rw [hrun, hsum]

end ChainGuard.OffChain.Secrets
