import ChainGuard.Library.BinaryPower
import ChainGuard.Library.Loops
import ChainGuard.OffChain.Js
import Mathlib.NumberTheory.LucasLehmer
import ChainGuard.Library.Feldman

/-! `proactiveSecretSharing`: the sharing over the field of `2^127 - 1` elements, and its refresh. -/
namespace ChainGuard.OffChain.FieldSharing
open Loops
set_option autoImplicit false

abbrev Result (α : Type) := Except Thrown α

def throwIf (condition : Prop) [Decidable condition] (message : String) : Result Unit :=
  if condition then .error (.error message) else .ok ()

def PSS_FIELD_PRIME : ℕ := 2 ^ 127 - 1

structure Share where
  x : ℤ
  y : ℤ
  deriving DecidableEq

def mod (value : ℤ) : ℤ := (value.tmod PSS_FIELD_PRIME + PSS_FIELD_PRIME).tmod PSS_FIELD_PRIME

/-- From 16 random bytes. -/
def randomFieldElement (bytes : ℕ → UInt8) : ℤ :=
  (upTo 16 (fun i value => value * 256 + ((bytes i).toNat : ℤ)) 0).tmod PSS_FIELD_PRIME

def makeRandomPolynomial (random : ℕ → ℕ → UInt8) (intercept degree : ℤ) : Result (List ℤ) := do
  throwIf (degree < 0) "Polynomial degree must be a non-negative integer"
  return mod intercept :: (List.range degree.toNat).map fun i => randomFieldElement (random i)

/-- From the last coefficient down. -/
def evaluatePolynomial (coeffs : List ℤ) (x : ℤ) : ℤ := coeffs.foldr (fun c result => mod (result * mod x + c)) 0

/-- A `push` onto an array of `2 ^ 32 - 1` members throws. -/
def splitSecret (random : ℕ → ℕ → UInt8) (secret : ℤ) (threshold numShares : ℕ) : Result (List Share) := do
  throwIf (threshold < 1 ∨ numShares < threshold) "Threshold must satisfy 1 <= threshold <= numShares"
  let poly ← makeRandomPolynomial random (mod secret) (threshold - 1)
  if 2 ^ 32 ≤ numShares then throw (.outOfRange "Invalid array length")
  return (List.range numShares).map fun j => ⟨(j + 1 : ℕ), evaluatePolynomial poly (j + 1 : ℕ)⟩

/-! ## The refresh -/

/-- The entries of a map from points. -/
abbrev Contributions := ℤ → Option ℤ

def generateZeroShares (random : ℕ → ℕ → UInt8) (threshold : ℕ) (points : List ℤ) : Result Contributions := do
  let zeroPoly ← makeRandomPolynomial random 0 (threshold - 1)
  return points.foldl
    (fun contributions point => Function.update contributions point (some (evaluatePolynomial zeroPoly point)))
    fun _ => none

def addContribution (share : Share) (contribution : ℤ) : Share := ⟨share.x, mod (share.y + contribution)⟩

/-- A point that is no key gives `undefined`, which no bigint can be added to. -/
def addContributions (allContributions : List Contributions) (share : Share) : Result Share :=
  allContributions.foldlM (fun updated contributions =>
    match contributions share.x with
    | some contribution => .ok (addContribution updated contribution)
    | none => .error .typeError) share

/-! ## Interpolation -/

def powMod (base : ℤ) (exponent : ℕ) : Result ℤ :=
  BinaryPower.loop (fun result b => .ok (mod (result * b))) (fun b => .ok (mod (b * b))) (exponent.log2 + 1) 1
    (mod base) exponent

/-- The numerator and the denominator of the `i`-th weight. -/
def fraction (used : List Share) (i : ℕ) : ℤ × ℤ :=
  upTo used.length (fun j (numerator, denominator) =>
    if i = j then (numerator, denominator)
    else
      let xj := (used.getD j ⟨0, 0⟩).x
      (mod (numerator * xj), mod (denominator * (xj - (used.getD i ⟨0, 0⟩).x)))) (1, 1)

def combineShares (shares : List Share) (threshold : ℕ) : Result ℤ := do
  throwIf (shares.length < threshold) s!"Need at least {threshold} shares to reconstruct"
  let used := shares.take threshold
  tryUpTo used.length (fun i secret => do
    let (numerator, denominator) := fraction used i
    let inverse ← powMod denominator (PSS_FIELD_PRIME - 2)
    return mod (secret + (used.getD i ⟨0, 0⟩).y * mod (numerator * inverse))) 0

structure ProactiveRefreshResult where
  refreshedShares : List Share
  recoveredSecret : ℤ
  epoch : ℕ

/-- The waiting that a caller may ask for between the guardians changes nothing and is left out. -/
def proactiveRefresh (random : ℕ → ℕ → ℕ → UInt8) (shares : List Share) (threshold epoch : ℕ) :
    Result ProactiveRefreshResult := do
  let points := shares.map Share.x
  let allContributions ← (List.range shares.length).mapM fun i => generateZeroShares (random i) threshold points
  let refreshedShares ← shares.mapM (addContributions allContributions)
  let recoveredSecret ← combineShares refreshedShares threshold
  return { refreshedShares, recoveredSecret, epoch }

/-! Shares over the field of `2^127 - 1` elements: any threshold of them gives the polynomial's value at zero, and
refreshes keep it. -/
open Polynomial

/-! ## The field -/

theorem prime_PSS_FIELD_PRIME : PSS_FIELD_PRIME.Prime := lucas_lehmer_sufficiency 127 (by norm_num) (by norm_num)

instance : Fact PSS_FIELD_PRIME.Prime := ⟨prime_PSS_FIELD_PRIME⟩

theorem mod_eq_emod (v : ℤ) : mod v = v % PSS_FIELD_PRIME := by
  have hlow : -(PSS_FIELD_PRIME : ℤ) < v.tmod PSS_FIELD_PRIME := Int.lt_tmod_of_pos v (by decide)
  rw [mod, Int.tmod_eq_emod_of_nonneg (by omega), Int.add_emod_right, Int.tmod_def, Int.sub_mul_emod_self_left]

theorem mod_eq (v : ℤ) : mod v = ((v : ZMod PSS_FIELD_PRIME).val : ℤ) := by
  rw [mod_eq_emod, ZMod.val_intCast]

theorem cast_mod (v : ℤ) : ((mod v : ℤ) : ZMod PSS_FIELD_PRIME) = v := by
  rw [mod_eq, Int.cast_natCast, ZMod.natCast_zmod_val]

theorem powMod_ok (base : ℤ) (exponent : ℕ) :
    ∃ r, powMod base exponent = .ok r ∧ (r : ZMod PSS_FIELD_PRIME) = (base : ZMod PSS_FIELD_PRIME) ^ exponent := by
  have hcombine : ∀ (a b : ℤ) (x y : ZMod PSS_FIELD_PRIME), (a : ZMod PSS_FIELD_PRIME) = x →
      (b : ZMod PSS_FIELD_PRIME) = y →
        ∃ a', (.ok (mod (a * b)) : Result ℤ) = .ok a' ∧ (a' : ZMod PSS_FIELD_PRIME) = x * y :=
    fun a b x y ha hb => ⟨_, rfl, by rw [cast_mod, Int.cast_mul, ha, hb]⟩
  have hsquare : ∀ (b : ℤ) (y : ZMod PSS_FIELD_PRIME), (b : ZMod PSS_FIELD_PRIME) = y →
      ∃ b', (.ok (mod (b * b)) : Result ℤ) = .ok b' ∧ (b' : ZMod PSS_FIELD_PRIME) = y * y :=
    fun b y hb => ⟨_, rfl, by rw [cast_mod, Int.cast_mul, hb]⟩
  obtain ⟨r, hloop, hr⟩ := BinaryPower.loop_spec hcombine hsquare (exponent.log2 + 1) Nat.lt_log2_self Int.cast_one
    (cast_mod base)
  exact ⟨r, hloop, by rw [hr, one_mul]⟩

/-! ## Polynomials -/

noncomputable def polynomialOf (coeffs : List ℤ) : (ZMod PSS_FIELD_PRIME)[X] :=
  coeffs.foldr (fun c f => f * X + C (c : ZMod PSS_FIELD_PRIME)) 0

theorem evaluatePolynomial_cast (coeffs : List ℤ) (x : ℤ) :
    (evaluatePolynomial coeffs x : ZMod PSS_FIELD_PRIME) = (polynomialOf coeffs).eval (x : ZMod PSS_FIELD_PRIME) := by
  induction coeffs with
  | nil => exact Int.cast_zero.trans eval_zero.symm
  | cons c coeffs ih =>
    show ((mod (evaluatePolynomial coeffs x * mod x + c) : ℤ) : ZMod PSS_FIELD_PRIME) =
      (polynomialOf coeffs * X + C (c : ZMod PSS_FIELD_PRIME)).eval (x : ZMod PSS_FIELD_PRIME)
    rw [cast_mod, Int.cast_add, Int.cast_mul, cast_mod, ih, eval_add, eval_mul, eval_X, eval_C]

theorem polynomialOf_zero (c : ℤ) (coeffs : List ℤ) : (polynomialOf (c :: coeffs)).eval 0 = c := by
  show (polynomialOf coeffs * X + C (c : ZMod PSS_FIELD_PRIME)).eval 0 = (c : ZMod PSS_FIELD_PRIME)
  rw [eval_add, eval_mul, eval_X, eval_C, mul_zero, zero_add]

theorem polynomialOf_degree (coeffs : List ℤ) : (polynomialOf coeffs).degree < coeffs.length := by
  induction coeffs with
  | nil => exact degree_zero.trans_lt (WithBot.bot_lt_coe 0)
  | cons c coeffs ih =>
    rw [degree_lt_iff_coeff_zero] at ih ⊢
    intro m hm
    rw [List.length_cons] at hm
    obtain ⟨m, rfl⟩ : ∃ m', m = m' + 1 := ⟨m - 1, by omega⟩
    show (polynomialOf coeffs * X + C (c : ZMod PSS_FIELD_PRIME)).coeff (m + 1) = 0
    rw [coeff_add, coeff_mul_X, coeff_C_succ, ih m (by omega), zero_add]

theorem makeRandomPolynomial_ok (random : ℕ → ℕ → UInt8) (intercept : ℤ) {threshold : ℕ} (h : 1 ≤ threshold) :
    ∃ coeffs, makeRandomPolynomial random intercept (threshold - 1) = .ok coeffs ∧
      (polynomialOf coeffs).degree < threshold ∧ (polynomialOf coeffs).eval 0 = intercept := by
  have hdegree : ¬ ((threshold : ℤ) - 1 < 0) := by omega
  refine ⟨_, by rw [makeRandomPolynomial, throwIf, if_neg hdegree]; rfl, ?_, ?_⟩
  · refine (polynomialOf_degree _).trans_eq (congrArg _ ?_)
    rw [List.length_cons, List.length_map, List.length_range]
    omega
  · rw [polynomialOf_zero, cast_mod]

/-! ## Interpolation -/

def LiesOn (f : (ZMod PSS_FIELD_PRIME)[X]) (share : Share) : Prop :=
  (share.y : ZMod PSS_FIELD_PRIME) = f.eval (share.x : ZMod PSS_FIELD_PRIME)

/-- The points are different modulo the prime. -/
def Distinct (shares : List Share) : Prop := ((shares.map Share.x).map fun x : ℤ => (x : ZMod PSS_FIELD_PRIME)).Nodup

/-- Shares of a polynomial that a threshold of them determines. -/
structure SharesOf (f : (ZMod PSS_FIELD_PRIME)[X]) (threshold : ℕ) (shares : List Share) : Prop where
  distinct : Distinct shares
  degree : f.degree < threshold
  values : ∀ s ∈ shares, LiesOn f s

theorem SharesOf.subperm {f : (ZMod PSS_FIELD_PRIME)[X]} {threshold : ℕ} {shares kept : List Share}
    (h : SharesOf f threshold shares) (hkept : kept.Subperm shares) : SharesOf f threshold kept where
  distinct := by
    obtain ⟨l, hperm, hsublist⟩ := hkept
    exact ((hperm.map _).map _).nodup_iff.mp (h.distinct.sublist ((hsublist.map _).map _))
  degree := h.degree
  values s hs := h.values s (hkept.subset hs)

def points (used : List Share) (i : ℕ) : ZMod PSS_FIELD_PRIME := ((used.getD i ⟨0, 0⟩).x : ZMod PSS_FIELD_PRIME)

theorem Distinct.injOn {used : List Share} (h : Distinct used) : Set.InjOn (points used) (Finset.range used.length) := by
  rw [Distinct, List.map_map] at h
  exact Feldman.injOn_of_nodup h ⟨0, 0⟩

theorem fraction_cast (used : List Share) {i : ℕ} :
    ((fraction used i).1 : ZMod PSS_FIELD_PRIME) = ∏ j ∈ (Finset.range used.length).erase i, points used j ∧
      ((fraction used i).2 : ZMod PSS_FIELD_PRIME) =
        ∏ j ∈ (Finset.range used.length).erase i, (points used j - points used i) := by
  have hloop := Loops.upTo_spec (n := used.length) (s := ((1 : ℤ), (1 : ℤ)))
    (P := fun n (s : ℤ × ℤ) =>
      (s.1 : ZMod PSS_FIELD_PRIME) = ∏ j ∈ (Finset.range n).erase i, points used j ∧
      (s.2 : ZMod PSS_FIELD_PRIME) = ∏ j ∈ (Finset.range n).erase i, (points used j - points used i))
    (f := fun j (numerator, denominator) =>
      if i = j then (numerator, denominator)
      else
        let xj := (used.getD j ⟨0, 0⟩).x
        (mod (numerator * xj), mod (denominator * (xj - (used.getD i ⟨0, 0⟩).x)))) ?_ ?_
  · exact hloop
  · simp
  · rintro j _ ⟨numerator, denominator⟩ ⟨hnumerator, hdenominator⟩
    dsimp only at hnumerator hdenominator ⊢
    by_cases hij : i = j
    · subst hij
      rw [if_pos rfl, Finset.range_add_one, Finset.erase_insert Finset.notMem_range_self]
      rw [Finset.erase_eq_of_notMem Finset.notMem_range_self] at hnumerator hdenominator
      exact ⟨hnumerator, hdenominator⟩
    · have hj : j ∉ (Finset.range j).erase i := fun hmem => Finset.notMem_range_self (Finset.mem_of_mem_erase hmem)
      rw [if_neg hij, Finset.range_add_one, Finset.erase_insert_of_ne (Ne.symm hij), Finset.prod_insert hj,
        Finset.prod_insert hj, cast_mod, cast_mod, Int.cast_mul, Int.cast_mul, Int.cast_sub, hnumerator, hdenominator]
      exact ⟨mul_comm _ _, mul_comm _ _⟩

theorem combineShares_ok {f : (ZMod PSS_FIELD_PRIME)[X]} {threshold : ℕ} {shares : List Share}
    (h : SharesOf f threshold shares) (hlength : threshold ≤ shares.length) :
    combineShares shares threshold = .ok ((f.eval 0).val : ℤ) := by
  have htaken := h.subperm (List.take_sublist threshold shares).subperm
  have hused : (shares.take threshold).length = threshold := by rw [List.length_take, min_eq_left hlength]
  set used := shares.take threshold with hdef
  obtain ⟨secret, hrun, hsecret⟩ : ∃ secret, Loops.tryUpTo used.length (fun i secret => do
      let (numerator, denominator) := fraction used i
      let inverse ← powMod denominator (PSS_FIELD_PRIME - 2)
      return mod (secret + (used.getD i ⟨0, 0⟩).y * mod (numerator * inverse))) 0 = (.ok secret : Result ℤ) ∧
      secret = ((∑ i ∈ Finset.range used.length, Feldman.weight (points used) used.length i * f.eval (points used i)).val
        : ℤ) := by
    refine Loops.tryUpTo_spec (P := fun n (secret : ℤ) => secret =
      ((∑ i ∈ Finset.range n, Feldman.weight (points used) used.length i * f.eval (points used i)).val : ℤ)) ?_ ?_
    · rw [Finset.range_zero, Finset.sum_empty, ZMod.val_zero, Nat.cast_zero]
    · rintro i hi _ rfl
      obtain ⟨inverse, hinverse, hpower⟩ := powMod_ok (fraction used i).2 (PSS_FIELD_PRIME - 2)
      obtain ⟨hnumerator, hdenominator⟩ := fraction_cast used (i := i)
      refine ⟨_, by dsimp only; rw [hinverse]; rfl, ?_⟩
      have hvalue : ((used.getD i ⟨0, 0⟩).y : ZMod PSS_FIELD_PRIME) = f.eval (points used i) := by
        rw [points, List.getD_eq_getElem _ _ hi]
        exact htaken.values _ (List.getElem_mem hi)
      have hweight : ((fraction used i).1 : ZMod PSS_FIELD_PRIME) * inverse =
          Feldman.weight (points used) used.length i := by
        rw [hpower, ← BinaryPower.inv_eq_pow (by decide), hnumerator, hdenominator, Feldman.weight,
          Finset.prod_mul_distrib, Finset.prod_inv_distrib]
      rw [mod_eq, Int.cast_add, Int.cast_mul, cast_mod, Int.cast_mul, hweight, hvalue, Int.cast_natCast,
        ZMod.natCast_zmod_val, Finset.sum_range_succ, mul_comm (f.eval _)]
  have hdegree : f.degree < used.length := by
    rw [hused]
    exact h.degree
  rw [combineShares, throwIf, if_neg (by omega), ← hdef]
  exact hrun.trans (congrArg _ (hsecret.trans (by rw [Feldman.sum_weight htaken.distinct.injOn hdegree])))

/-! ## The refresh -/

/-- The contributions are the values at the points of a polynomial that is zero at zero. -/
structure Contributes (threshold : ℕ) (points : List ℤ) (contributions : Contributions)
    (g : (ZMod PSS_FIELD_PRIME)[X]) : Prop where
  degree : g.degree < threshold
  zero : g.eval 0 = 0
  values : ∀ x ∈ points, ∃ contribution, contributions x = some contribution ∧
    (contribution : ZMod PSS_FIELD_PRIME) = g.eval (x : ZMod PSS_FIELD_PRIME)

theorem foldl_update (value : ℤ → ℤ) (points : List ℤ) (start : Contributions) (x : ℤ) :
    points.foldl (fun contributions point => Function.update contributions point (some (value point))) start x =
      if x ∈ points then some (value x) else start x := by
  induction points generalizing start with
  | nil => rfl
  | cons point points ih =>
    rw [List.foldl_cons, ih]
    by_cases hrest : x ∈ points
    · rw [if_pos hrest, if_pos (List.mem_cons_of_mem _ hrest)]
    · by_cases hpoint : x = point
      · rw [if_neg hrest, if_pos (List.mem_cons.mpr (Or.inl hpoint)), hpoint, Function.update_self]
      · rw [if_neg hrest, if_neg (List.not_mem_cons_of_ne_of_not_mem hpoint hrest), Function.update_of_ne hpoint]

theorem generateZeroShares_ok (random : ℕ → ℕ → UInt8) {threshold : ℕ} (h : 1 ≤ threshold) (points : List ℤ) :
    ∃ contributions, generateZeroShares random threshold points = .ok contributions ∧
      ∃ g, Contributes threshold points contributions g := by
  obtain ⟨coeffs, hpoly, hdegree, hzero⟩ := makeRandomPolynomial_ok random 0 h
  refine ⟨_, by rw [generateZeroShares, hpoly]; rfl, polynomialOf coeffs, hdegree, hzero.trans Int.cast_zero,
    fun x hx => ⟨evaluatePolynomial coeffs x, ?_, evaluatePolynomial_cast coeffs x⟩⟩
  rw [foldl_update, if_pos hx]

theorem addContributions_ok {threshold : ℕ} {points : List ℤ} {all : List Contributions}
    (hall : ∀ contributions ∈ all, ∃ g, Contributes threshold points contributions g) :
    ∃ g : (ZMod PSS_FIELD_PRIME)[X], g.degree < threshold ∧ g.eval 0 = 0 ∧
      ∀ f, ∀ share : Share, share.x ∈ points → LiesOn f share →
        ∃ updated, addContributions all share = .ok updated ∧ updated.x = share.x ∧ LiesOn (f + g) updated := by
  induction all with
  | nil =>
    refine ⟨0, degree_zero.trans_lt (WithBot.bot_lt_coe threshold), eval_zero, fun f share _ hvalue => ?_⟩
    exact ⟨share, rfl, rfl, by rwa [add_zero]⟩
  | cons contributions all ih =>
    obtain ⟨g, hg⟩ := hall contributions List.mem_cons_self
    obtain ⟨rest, hdegree, hzero, hrest⟩ := ih fun c hc => hall c (List.mem_cons_of_mem _ hc)
    refine ⟨g + rest, (degree_add_le g rest).trans_lt (max_lt hg.degree hdegree), ?_, fun f share hpoint hvalue => ?_⟩
    · rw [eval_add, hg.zero, hzero, add_zero]
    · obtain ⟨contribution, hentry, hcontribution⟩ := hg.values share.x hpoint
      have hadded : LiesOn (f + g) (addContribution share contribution) := by
        show ((mod (share.y + contribution) : ℤ) : ZMod PSS_FIELD_PRIME) = (f + g).eval (share.x : ZMod PSS_FIELD_PRIME)
        rw [cast_mod, Int.cast_add, hvalue, hcontribution, eval_add]
      obtain ⟨updated, hrun, hx, hupdated⟩ := hrest (f + g) (addContribution share contribution) hpoint hadded
      refine ⟨updated, ?_, hx, by rwa [← add_assoc]⟩
      rw [addContributions, List.foldlM_cons, hentry]
      exact hrun

theorem proactiveRefresh_ok (random : ℕ → ℕ → ℕ → UInt8) {f : (ZMod PSS_FIELD_PRIME)[X]} {threshold : ℕ}
    (hthreshold : 1 ≤ threshold) {shares : List Share} (h : SharesOf f threshold shares)
    (hlength : threshold ≤ shares.length) (epoch : ℕ) :
    ∃ result, proactiveRefresh random shares threshold epoch = .ok result ∧
      result.recoveredSecret = ((f.eval 0).val : ℤ) ∧
      ∃ g, g.eval 0 = f.eval 0 ∧ SharesOf g threshold result.refreshedShares := by
  obtain ⟨all, hgenerate, hforall⟩ := Loops.exists_mapM (l := List.range shares.length) fun i _ =>
    generateZeroShares_ok (random i) hthreshold (shares.map Share.x)
  have hall : ∀ contributions ∈ all, ∃ g, Contributes threshold (shares.map Share.x) contributions g := by
    intro contributions hmem
    obtain ⟨i, hi, rfl⟩ := List.getElem_of_mem hmem
    exact hforall.get (by rwa [hforall.length_eq]) hi
  obtain ⟨g, hdegree, hzero, hadd⟩ := addContributions_ok hall
  obtain ⟨refreshed, hrefresh, hupdated⟩ := Loops.exists_mapM fun share hshare =>
    hadd f share (List.mem_map_of_mem hshare) (h.values share hshare)
  have hpoints : shares.map Share.x = refreshed.map Share.x := by
    rw [← List.forall₂_eq_eq_eq, List.forall₂_map_left_iff, List.forall₂_map_right_iff]
    exact hupdated.imp fun _ _ hshare => hshare.1.symm
  have hshares : SharesOf (f + g) threshold refreshed := by
    refine ⟨?_, (degree_add_le f g).trans_lt (max_lt h.degree hdegree), fun updated hmem => ?_⟩
    · rw [Distinct, ← hpoints]
      exact h.distinct
    · obtain ⟨i, hi, rfl⟩ := List.getElem_of_mem hmem
      exact (hupdated.get (by rwa [hupdated.length_eq]) hi).2
  have hvalue : (f + g).eval 0 = f.eval 0 := by rw [eval_add, hzero, add_zero]
  have hcombine := combineShares_ok hshares (hupdated.length_eq ▸ hlength)
  rw [hvalue] at hcombine
  refine ⟨⟨refreshed, _, epoch⟩, ?_, rfl, f + g, hvalue, hshares⟩
  simp only [proactiveRefresh, hgenerate, hrefresh, hcombine, bind, Except.bind, pure, Except.pure]

/-! ## Rounds -/

/-- One refresh after another: each is of shares of the last, in any order, of which a threshold is kept. -/
inductive Rounds (threshold : ℕ) (start : List Share) : List Share → Prop
  | start : Rounds threshold start start
  | refresh {shares kept : List Share} {random : ℕ → ℕ → ℕ → UInt8} {epoch : ℕ} {result : ProactiveRefreshResult} :
    Rounds threshold start shares → kept.Subperm shares → threshold ≤ kept.length →
      proactiveRefresh random kept threshold epoch = .ok result → Rounds threshold start result.refreshedShares

theorem Rounds.sharesOf {threshold : ℕ} (hthreshold : 1 ≤ threshold) {start shares : List Share}
    {f : (ZMod PSS_FIELD_PRIME)[X]} (h : SharesOf f threshold start) (hrounds : Rounds threshold start shares) :
    ∃ g, g.eval 0 = f.eval 0 ∧ SharesOf g threshold shares := by
  induction hrounds with
  | start => exact ⟨f, rfl, h⟩
  | refresh _ hkept hlength hrefresh ih =>
    obtain ⟨g, hzero, hshares⟩ := ih
    obtain ⟨_, hrun, _, g', hzero', hrefreshed⟩ :=
      proactiveRefresh_ok _ hthreshold (hshares.subperm hkept) hlength _
    obtain rfl := Except.ok.inj (hrun.symm.trans hrefresh)
    exact ⟨g', hzero'.trans hzero, hrefreshed⟩

theorem splitSecret_ok (random : ℕ → ℕ → UInt8) (secret : ℤ) {threshold numShares : ℕ} (hthreshold : 1 ≤ threshold)
    (hshares : threshold ≤ numShares) (harray : numShares < 2 ^ 32) :
    ∃ shares, splitSecret random secret threshold numShares = .ok shares ∧
      ∃ f : (ZMod PSS_FIELD_PRIME)[X], f.eval 0 = (secret : ZMod PSS_FIELD_PRIME) ∧ SharesOf f threshold shares := by
  obtain ⟨poly, hpoly, hdegree, hzero⟩ := makeRandomPolynomial_ok random (mod secret) hthreshold
  refine ⟨(List.range numShares).map fun j => ⟨(j + 1 : ℕ), evaluatePolynomial poly (j + 1 : ℕ)⟩, ?_,
    polynomialOf poly, by rw [hzero, cast_mod], ?_, hdegree, ?_⟩
  · have hrefused : ¬ (threshold < 1 ∨ numShares < threshold) := by omega
    rw [splitSecret, throwIf, if_neg hrefused]
    simp only [bind, Except.bind, hpoly, if_neg (not_le.mpr harray), pure, Except.pure]
  · rw [Distinct, List.map_map, List.map_map]
    refine List.nodup_range.map_on fun i hi j hj heq => ?_
    have hsmall : ∀ m, m ∈ List.range numShares → m + 1 < PSS_FIELD_PRIME := fun m hm => by
      have hm := List.mem_range.mp hm
      have hprime : 2 ^ 32 < PSS_FIELD_PRIME := by decide
      omega
    have hcast : ((i + 1 : ℕ) : ZMod PSS_FIELD_PRIME) = ((j + 1 : ℕ) : ZMod PSS_FIELD_PRIME) := by
      simpa only [Function.comp_apply, Int.cast_natCast] using heq
    rw [ZMod.natCast_eq_natCast_iff', Nat.mod_eq_of_lt (hsmall i hi), Nat.mod_eq_of_lt (hsmall j hj)] at hcast
    exact Nat.succ_injective hcast
  · intro share hshare
    obtain ⟨j, _, rfl⟩ := List.mem_map.mp hshare
    exact evaluatePolynomial_cast poly _

/-- Shares of a polynomial, a threshold of them or more and in any order, give its value at zero; refreshes go through and
keep it, whichever of the shares are kept; and for a split secret the value is the secret's residue. -/
theorem combineShares_rounds {f : (ZMod PSS_FIELD_PRIME)[X]} {threshold : ℕ} {start : List Share}
    (h : SharesOf f threshold start) :
    (∀ shares, Rounds threshold start shares →
      (∀ chosen : List Share, chosen.Subperm shares → threshold ≤ chosen.length →
        combineShares chosen threshold = .ok ((f.eval 0).val : ℤ)) ∧
      (1 ≤ threshold → ∀ kept : List Share, kept.Subperm shares → threshold ≤ kept.length → ∀ random epoch,
        ∃ result, proactiveRefresh random kept threshold epoch = .ok result ∧
          result.recoveredSecret = ((f.eval 0).val : ℤ))) ∧
    ∀ random secret numShares, 1 ≤ threshold → threshold ≤ numShares → numShares < 2 ^ 32 →
      ∃ shares, splitSecret random secret threshold numShares = .ok shares ∧
        ∀ chosen : List Share, chosen.Subperm shares → threshold ≤ chosen.length →
          combineShares chosen threshold = .ok (secret % PSS_FIELD_PRIME) := by
  refine ⟨fun shares hrounds => ⟨fun chosen hchosen hlength => ?_, fun hthreshold kept hkept hlength random epoch => ?_⟩,
    fun random secret numShares hthreshold hshares harray => ?_⟩
  · rcases Nat.eq_zero_or_pos threshold with rfl | hthreshold
    · have hempty : SharesOf f 0 [] := ⟨List.nodup_nil, h.degree, List.forall_mem_nil _⟩
      have hcombine := combineShares_ok hempty (Nat.zero_le _)
      have hnone : combineShares chosen 0 = combineShares [] 0 := rfl
      rw [hnone, hcombine]
    · obtain ⟨g, hzero, hg⟩ := hrounds.sharesOf hthreshold h
      rw [← hzero]
      exact combineShares_ok (hg.subperm hchosen) hlength
  · obtain ⟨g, hzero, hg⟩ := hrounds.sharesOf hthreshold h
    obtain ⟨result, hrun, hrecovered, _⟩ := proactiveRefresh_ok random hthreshold (hg.subperm hkept) hlength epoch
    exact ⟨result, hrun, by rw [hrecovered, hzero]⟩
  · obtain ⟨shares, hsplit, g, hzero, hg⟩ := splitSecret_ok random secret hthreshold hshares harray
    refine ⟨shares, hsplit, fun chosen hchosen hlength => ?_⟩
    rw [combineShares_ok (hg.subperm hchosen) hlength, hzero, ZMod.val_intCast]

/-- Two of the shares at one and two of the line through seven with slope three. -/
theorem combineShares_rounds_line :
    (∀ shares, Rounds 2 [⟨1, 10⟩, ⟨2, 13⟩] shares →
      (∀ chosen : List Share, chosen.Subperm shares → 2 ≤ chosen.length →
        combineShares chosen 2 = .ok (((polynomialOf [7, 3]).eval 0).val : ℤ)) ∧
      (1 ≤ 2 → ∀ kept : List Share, kept.Subperm shares → 2 ≤ kept.length → ∀ random epoch,
        ∃ result, proactiveRefresh random kept 2 epoch = .ok result ∧
          result.recoveredSecret = (((polynomialOf [7, 3]).eval 0).val : ℤ))) ∧
    ∀ random secret numShares, 1 ≤ 2 → 2 ≤ numShares → numShares < 2 ^ 32 →
      ∃ shares, splitSecret random secret 2 numShares = .ok shares ∧
        ∀ chosen : List Share, chosen.Subperm shares → 2 ≤ chosen.length →
          combineShares chosen 2 = .ok (secret % PSS_FIELD_PRIME) := by
  refine combineShares_rounds ⟨by unfold Distinct; decide, polynomialOf_degree [7, 3], ?_⟩
  simp only [List.forall_mem_cons]
  refine ⟨?_, ?_, List.forall_mem_nil _⟩
  · exact evaluatePolynomial_cast [7, 3] 1
  · exact evaluatePolynomial_cast [7, 3] 2

end ChainGuard.OffChain.FieldSharing
