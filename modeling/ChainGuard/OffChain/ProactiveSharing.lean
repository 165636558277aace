import ChainGuard.OffChain.VssRecovery

/-! `proactiveSecretSharing`: the refresh of shares with polynomials that are zero at zero, over the field and the group
of the shares. -/
namespace ChainGuard.OffChain.ProactiveSharing
open Secrets (Result Thrown VSS_Q VSS_P VSS_G bigInt throwIf dash padStart toString16 parseIntDecimal verifyShare
  reconstructSecret randomCoefficient)
open Loops
set_option autoImplicit false

/-! ## Modular arithmetic -/

def modAdd (a b m : ℤ) : ℤ := ((a + b).tmod m + m).tmod m

def modMul (a b m : ℤ) : ℤ := ((a * b).tmod m + m).tmod m

def modPow (base exp m : ℤ) : Result ℤ :=
  BinaryPower.loop (fun res b => .ok ((res * b).tmod m)) (fun b => .ok ((b * b).tmod m)) (exp.toNat.log2 + 1) 1
    ((base.tmod m + m).tmod m) exp.toNat

/-! ## Zero polynomials -/

structure ZeroPolynomialVSS where
  guardianIndex : ℕ
  coefficients : List ℤ
  zeroCommitments : List JsString
  /-- The values at the points from 1 on, which are the keys of the map. -/
  subshares : List ℤ

/-- `subshares.get(j)!` -/
def ZeroPolynomialVSS.subshare (p : ZeroPolynomialVSS) (j : ℕ) : ℤ := p.subshares.getD (j - 1) 0

/-- The value at `x`, with the power that the next coefficient would go with. -/
def evaluate (coefficients : List ℤ) (x : ℤ) : ℤ × ℤ :=
  coefficients.foldl (fun (val, jPower) c => (modAdd val (modMul c jPower VSS_Q) VSS_Q, modMul jPower x VSS_Q)) (0, 1)

def zeroCommitment (coefficient : ℤ) : Result JsString := do
  return padStart (toString16 (← modPow VSS_G coefficient VSS_P)) (some 66)

def generateZeroPolynomialVSS (random : ℕ → ℕ → UInt8) (threshold numGuardians guardianIndex : ℕ) :
    Result ZeroPolynomialVSS := do
  throwIf (threshold < 1 ∨ numGuardians < threshold) (js "Threshold must satisfy 1 <= threshold <= numGuardians")
  let coefficients := 0 :: (← (List.range (threshold - 1)).mapM fun m => randomCoefficient (random m))
  let zeroCommitments ← coefficients.mapM zeroCommitment
  let subshares := (List.range numGuardians).map fun j => (evaluate coefficients ((j + 1 : ℕ) : ℤ)).1
  return { guardianIndex, coefficients, zeroCommitments, subshares }

/-- The product of the commitments, each to the power of its power of `x`. -/
def committedPower (zeroCommitments : List JsString) (x : ℤ) : Result ℤ :=
  tryUpTo zeroCommitments.length (fun m rhs => do
    let zm ← bigInt (js "0x" ++ zeroCommitments.getD m [])
    let xPower ← modPow x m VSS_Q
    let term ← modPow zm xPower VSS_P
    return modMul rhs term VSS_P) 1

/-- The body of `verifyZeroShareContribution`. -/
def tryVerifyContribution (contribution : ℤ) (x : ℕ) (zeroCommitments : List JsString) : Result Bool := do
  let lhs ← modPow VSS_G contribution VSS_P
  let rhs ← committedPower zeroCommitments x
  return lhs == rhs

def verifyZeroShareContribution (contribution : ℤ) (x : ℕ) (zeroCommitments : List JsString) : Bool :=
  match tryVerifyContribution contribution x zeroCommitments with
  | .ok valid => valid
  | .error _ => false

/-! ## Updates -/

def numberString : Option ℤ → JsString
  | some n => bigintString n
  | none => js "NaN"

def updateShareVSS (currentShareStr : JsString) (zeroContributions : List ℤ) : Result JsString :=
  match currentShareStr.splitOn dash with
  | [point, hex] => do
    let x := parseIntDecimal point
    throwIf (hex.take 3 ≠ js "vss") (js "Cannot update legacy non-VSS share with VSS zero-shares")
    let lenHex := (hex.drop 3).take 2
    let y ← bigInt (js "0x" ++ hex.drop 5)
    let y := zeroContributions.foldl (fun y contrib => modAdd y contrib VSS_Q) y
    return numberString x ++ dash :: (js "vss" ++ (lenHex ++ padStart (toString16 y) (some 64)))
  | _ => .error (.error (js "Invalid share string format: " ++ currentShareStr))

/-- The `m`-th commitment, times those of all guardians. -/
def updateCommitment (currentCommitments : List JsString) (zeroCommitmentsMatrix : List (List JsString)) (m : ℕ) :
    Result JsString := do
  let cm ← bigInt (js "0x" ++ currentCommitments.getD m (js "undefined"))
  let cm ← zeroCommitmentsMatrix.foldlM (fun cm guardianCommitments => do
    throwIf (guardianCommitments.length ≠ currentCommitments.length) (js "Mismatched zero-commitment vector length")
    let zm ← bigInt (js "0x" ++ guardianCommitments.getD m (js "undefined"))
    return modMul cm zm VSS_P) cm
  return padStart (toString16 cm) (some 66)

def updateCommitmentsVSS (currentCommitments : List JsString) (zeroCommitmentsMatrix : List (List JsString)) :
    Result (List JsString) := do
  let updated ← (List.range currentCommitments.length).mapM (updateCommitment currentCommitments zeroCommitmentsMatrix)
  let initialC0 ← bigInt (js "0x" ++ currentCommitments.getD 0 (js "undefined"))
  let finalC0 ← bigInt (js "0x" ++ updated.getD 0 (js "undefined"))
  throwIf (initialC0 ≠ finalC0) (js "Master secret commitment changed during zero-sharing refresh")
  return updated

/-! ## The refresh -/

structure ProactiveRefreshVSSResult where
  refreshedShares : List JsString
  refreshedCommitments : List JsString
  recoveredSecret : JsString
  epoch : ℕ

def verifyContributions (n : ℕ) (i : ℕ) (poly : ZeroPolynomialVSS) : Result Unit :=
  tryUpTo n (fun j _ =>
    throwIf (verifyZeroShareContribution (poly.subshare (j + 1)) (j + 1) poly.zeroCommitments = false)
      (js "Zero-share contribution from guardian " ++ decimal (i + 1) ++ js " to guardian " ++ decimal (j + 1) ++
        js " failed verification")) ()

/-- The waiting that a caller may ask for between the guardians changes nothing and is left out. -/
def proactiveRefreshVSS (random : ℕ → ℕ → ℕ → UInt8) (shares commitments : List JsString) (threshold epoch : ℕ) :
    Result ProactiveRefreshVSSResult := do
  let n := shares.length
  throwIf (threshold < 1 ∨ n < threshold) (js "Threshold must satisfy 1 <= threshold <= numShares")
  let zeroPolys ← (List.range n).mapM fun i => generateZeroPolynomialVSS (random i) threshold n (i + 1)
  zeroPolys.zipIdx.forM fun (poly, i) => verifyContributions n i poly
  let refreshedShares ← (List.range n).mapM fun j =>
    updateShareVSS (shares.getD j []) (zeroPolys.map fun p => p.subshare (j + 1))
  let zeroCommitmentsMatrix := zeroPolys.map ZeroPolynomialVSS.zeroCommitments
  let refreshedCommitments ← updateCommitmentsVSS commitments zeroCommitmentsMatrix
  refreshedShares.forM fun share =>
    throwIf (verifyShare share refreshedCommitments = false)
      (js "Refreshed share failed verification against updated commitments")
  let recoveredSecret ← reconstructSecret (refreshedShares.take threshold)
  let originalSecret ← reconstructSecret (shares.take threshold)
  throwIf (recoveredSecret ≠ originalSecret) (js "Master secret altered after proactive secret resharing")
  return { refreshedShares, refreshedCommitments, recoveredSecret, epoch }

/-- One refresh after another, with the shares and the commitments of each epoch. -/
def refreshRounds (random : ℕ → ℕ → ℕ → ℕ → UInt8) (threshold : ℕ) :
    ℕ → List JsString × List JsString → Result (List JsString × List JsString)
  | 0, state => .ok state
  | round + 1, state => do
    let state ← refreshRounds random threshold round state
    let result ← proactiveRefreshVSS (random round) state.1 state.2 threshold (round + 1)
    return (result.refreshedShares, result.refreshedCommitments)

/-! A refresh leaves shares of a polynomial with the same first coefficient, however often it is repeated. -/
open Secrets

/-! ## Arithmetic -/

theorem modAdd_nat (a b m : ℕ) : modAdd a b m = (((a + b) % m : ℕ) : ℤ) := by
  rw [modAdd, ← Nat.cast_add, natCast_tmod, ← Nat.cast_add, natCast_tmod, Nat.add_mod_right, Nat.mod_mod]

theorem modMul_nat (a b m : ℕ) : modMul a b m = ((a * b % m : ℕ) : ℤ) := by
  rw [modMul, ← Nat.cast_mul, natCast_tmod, ← Nat.cast_add, natCast_tmod, Nat.add_mod_right, Nat.mod_mod]

/-- On naturals the loop starts as the other one does. -/
theorem modPow_nat (base exp m : ℕ) (hm : 1 < m) : modPow base exp m = .ok ((base ^ exp % m : ℕ) : ℤ) := by
  have hstart : ((base : ℤ).tmod m + m).tmod m = (base : ℤ).tmod m := by
    rw [natCast_tmod, ← Nat.cast_add, natCast_tmod, Nat.add_mod_right, Nat.mod_mod]
  have hsame : modPow base exp m = Secrets.modPow base exp m := by rw [modPow, hstart, Secrets.modPow]
  rw [hsame]
  exact Secrets.modPow_nat base exp hm

theorem residual : Residual modAdd modMul modPow := ⟨modAdd_nat, modMul_nat, modPow_nat⟩

/-! ## Zero polynomials -/

/-- The polynomial of a guardian, by its coefficients. -/
structure IsZeroPolynomial (k n : ℕ) (p : ZeroPolynomialVSS) (zs : List ℕ) : Prop where
  length : zs.length = k
  zero : zs.headD 0 = 0
  commitments : p.zeroCommitments = zs.map commitmentString
  subshare : ∀ j < n, p.subshare (j + 1) = ((value zs (j + 1) % VSS_Q : ℕ) : ℤ)

theorem mapM_zeroCommitment (zs : List ℕ) : (zs.map Int.ofNat).mapM zeroCommitment = .ok (zs.map commitmentString) := by
  have hall : ∀ c ∈ zs.map Int.ofNat, zeroCommitment c = .ok (commitmentString c.toNat) := by
    intro c hc
    obtain ⟨z, _, rfl⟩ := List.mem_map.mp hc
    have hpower : modPow VSS_G z VSS_P = .ok ((4 ^ z % VSS_P : ℕ) : ℤ) := modPow_nat 4 z _ one_lt_VSS_P
    show zeroCommitment (z : ℕ) = _
    rw [zeroCommitment, hpower]
    rfl
  rw [Loops.mapM_ok hall, List.map_map]
  rfl

theorem generate_ok (random : ℕ → ℕ → UInt8) {k n : ℕ} (hk : 1 ≤ k) (hkn : k ≤ n) (guardianIndex : ℕ) :
    ∃ p, generateZeroPolynomialVSS random k n guardianIndex = .ok p ∧ ∃ zs, IsZeroPolynomial k n p zs := by
  obtain ⟨cs, hcs, hforall⟩ := Loops.exists_mapM (l := List.range (k - 1)) fun i _ => randomCoefficient_ok (random i)
  obtain ⟨rest, rfl, hlength, _⟩ := map_ofNat_of_forall₂ hforall
  rw [List.length_range] at hlength
  have hthreshold : ¬ (k < 1 ∨ n < k) := by omega
  have hcoefficients : (0 : ℤ) :: rest.map Int.ofNat = (0 :: rest).map Int.ofNat := rfl
  refine ⟨⟨guardianIndex, (0 :: rest).map Int.ofNat, (0 :: rest).map commitmentString,
    (List.range n).map fun j => (evaluate ((0 :: rest).map Int.ofNat) ((j + 1 : ℕ) : ℤ)).1⟩, ?_, 0 :: rest,
    by rw [List.length_cons]; omega, rfl, rfl, fun j hj => ?_⟩
  · unfold generateZeroPolynomialVSS
    simp only [throwIf, if_neg hthreshold, Guarded.ok_bind, hcs, hcoefficients, mapM_zeroCommitment]
    rfl
  · have hlt : j < ((List.range n).map fun j => (evaluate ((0 :: rest).map Int.ofNat) ((j + 1 : ℕ) : ℤ)).1).length := by
      rwa [List.length_map, List.length_range]
    rw [ZeroPolynomialVSS.subshare]
    dsimp only
    rw [Nat.add_sub_cancel, List.getD_eq_getElem _ _ hlt, List.getElem_map, List.getElem_range]
    exact congrArg Prod.fst (residual.evaluate _ _)

theorem verifyContribution_ok {k n : ℕ} {p : ZeroPolynomialVSS} {zs : List ℕ} (h : IsZeroPolynomial k n p zs) {j : ℕ}
    (hj : j < n) : verifyZeroShareContribution (p.subshare (j + 1)) (j + 1) p.zeroCommitments = true := by
  have hpower : modPow VSS_G ((value zs (j + 1) % VSS_Q : ℕ) : ℤ) VSS_P =
      .ok ((4 ^ (value zs (j + 1) % VSS_Q) % VSS_P : ℕ) : ℤ) := modPow_nat 4 _ _ one_lt_VSS_P
  have hcommitted : committedPower (zs.map commitmentString) ((j + 1 : ℕ) : ℤ) =
      .ok ((4 ^ value zs (j + 1) % VSS_P : ℕ) : ℤ) := residual.committedPower (commits_strings zs) (j + 1)
  have hsame : 4 ^ (value zs (j + 1) % VSS_Q) % VSS_P = 4 ^ value zs (j + 1) % VSS_P :=
    generator_pow_inj.mpr (ZMod.natCast_mod _ _)
  rw [verifyZeroShareContribution, tryVerifyContribution, h.subshare j hj, h.commitments, hpower, Guarded.ok_bind,
    hcommitted, hsame]
  exact beq_self_eq_true _

theorem verifyContributions_ok {k n : ℕ} {p : ZeroPolynomialVSS} {zs : List ℕ} (h : IsZeroPolynomial k n p zs) (i : ℕ) :
    verifyContributions n i p = .ok () := by
  obtain ⟨_, hrun, _⟩ : ∃ result, verifyContributions n i p = .ok result ∧ True := by
    refine Loops.tryUpTo_spec (P := fun _ _ => True) trivial fun j hj _ _ => ⟨(), if_neg ?_, trivial⟩
    rw [verifyContribution_ok h hj]
    decide
  exact hrun

/-! ## The refreshed polynomial -/

/-- The coefficients after the contributions: sums of the old ones and those of the guardians. -/
def refreshed (as : List ℕ) (zss : List (List ℕ)) : List ℕ :=
  (List.range as.length).map fun m => (as.getD m 0 + (zss.map fun zs => zs.getD m 0).sum) % VSS_Q

theorem refreshed_length (as : List ℕ) (zss : List (List ℕ)) : (refreshed as zss).length = as.length := by
  rw [refreshed, List.length_map, List.length_range]

theorem refreshed_getD {as : List ℕ} (zss : List (List ℕ)) {m : ℕ} (hm : m < as.length) :
    (refreshed as zss).getD m 0 = (as.getD m 0 + (zss.map fun zs => zs.getD m 0).sum) % VSS_Q := by
  rw [List.getD_eq_getElem _ _ (by rwa [refreshed_length])]
  simp only [refreshed, List.getElem_map, List.getElem_range]

theorem refreshed_head {as : List ℕ} (has : as ≠ []) (hreduced : as.headD 0 < VSS_Q) {zss : List (List ℕ)}
    (hzero : ∀ zs ∈ zss, zs.headD 0 = 0) : (refreshed as zss).headD 0 = as.headD 0 := by
  have hhead : ∀ l : List ℕ, l.headD 0 = l.getD 0 0 := fun l => by cases l <;> rfl
  have hsum : (zss.map fun zs => zs.getD 0 0).sum = 0 := by
    refine List.sum_eq_zero fun z hz => ?_
    obtain ⟨zs, hzs, rfl⟩ := List.mem_map.mp hz
    exact (hhead zs).symm.trans (hzero zs hzs)
  rw [hhead, refreshed_getD zss (List.length_pos_of_ne_nil has), hsum, Nat.add_zero, ← hhead, Nat.mod_eq_of_lt hreduced]

theorem refreshed_value (as : List ℕ) {zss : List (List ℕ)} (hlength : ∀ zs ∈ zss, zs.length = as.length) (x : ℕ) :
    value (refreshed as zss) x % VSS_Q =
      (value as x % VSS_Q + (zss.map fun zs => value zs x % VSS_Q).sum) % VSS_Q := by
  have hcontributions : (zss.map fun zs => value zs x).sum =
      ∑ m ∈ Finset.range as.length, (zss.map fun zs => zs.getD m 0).sum * x ^ m := by
    induction zss with
    | nil => simp
    | cons zs zss ih =>
      rw [List.map_cons, List.sum_cons, ih fun zs h => hlength zs (List.mem_cons_of_mem _ h), value,
        hlength zs List.mem_cons_self, ← Finset.sum_add_distrib]
      refine Finset.sum_congr rfl fun m _ => ?_
      rw [List.map_cons, List.sum_cons, Nat.add_mul]
  have hmod : ∀ l : List ℕ, (l.map (· % VSS_Q)).sum ≡ l.sum [MOD VSS_Q] := by
    intro l
    induction l with
    | nil => rfl
    | cons v l ih => exact (Nat.mod_modEq v VSS_Q).add ih
  have hreduced : (zss.map fun zs => value zs x % VSS_Q).sum ≡ (zss.map fun zs => value zs x).sum [MOD VSS_Q] := by
    have hlist := hmod (zss.map fun zs => value zs x)
    rwa [List.map_map] at hlist
  have hvalue : value (refreshed as zss) x ≡ value as x + (zss.map fun zs => value zs x).sum [MOD VSS_Q] := by
    rw [hcontributions, value, value, refreshed_length, ← Finset.sum_add_distrib, ← ZMod.natCast_eq_natCast_iff,
      Nat.cast_sum, Nat.cast_sum]
    refine Finset.sum_congr rfl fun m hm => ?_
    rw [refreshed_getD zss (Finset.mem_range.mp hm), ← Nat.add_mul, Nat.cast_mul, ZMod.natCast_mod, ← Nat.cast_mul]
  exact hvalue.trans (((Nat.mod_modEq (value as x) VSS_Q).add hreduced).symm)

/-! ## Updates -/

theorem foldl_modAdd (cs : List ℕ) {y : ℕ} (hy : y < VSS_Q) :
    (cs.map Int.ofNat).foldl (fun y contrib => modAdd y contrib VSS_Q) (y : ℤ) = (((y + cs.sum) % VSS_Q : ℕ) : ℤ) := by
  induction cs generalizing y with
  | nil =>
    rw [List.sum_nil, Nat.add_zero, Nat.mod_eq_of_lt hy]
    rfl
  | cons c cs ih =>
    have hstep : modAdd y (Int.ofNat c) VSS_Q = (((y + c) % VSS_Q : ℕ) : ℤ) := modAdd_nat y c VSS_Q
    rw [List.map_cons, List.foldl_cons, hstep, ih (Nat.mod_lt _ prime_VSS_Q.pos), List.sum_cons, Nat.mod_add_mod,
      Nat.add_assoc]

theorem updateShare_ok {len : ℕ} (hlen : len < 256) (x : ℕ) {y : ℕ} (hy : y < VSS_Q) (cs : List ℕ) :
    updateShareVSS (share len x y) (cs.map Int.ofNat) = .ok (share len x ((y + cs.sum) % VSS_Q)) := by
  have hvss : ¬ ((js "vss" ++ (padStart (toString16 len) (some 2) ++ padStart (toString16 y) (some 64))).take 3 ≠
      js "vss") := not_not.mpr (List.take_left' rfl)
  rw [updateShareVSS, share_split]
  simp only [throwIf, if_neg hvss, Guarded.ok_bind, share_value hlen, bigInt_padded, share_len hlen,
    parseIntDecimal_decimal, foldl_modAdd cs hy]
  rfl

theorem commitments_getD {as : List ℕ} {m : ℕ} (hm : m < as.length) (d : JsString) :
    (as.map commitmentString).getD m d = commitmentString (as.getD m 0) := by
  rw [List.getD_eq_getElem _ _ (by rwa [List.length_map]), List.getElem_map, List.getD_eq_getElem _ _ hm]

theorem bigInt_commitment (a : ℕ) : bigInt (js "0x" ++ commitmentString a) = .ok ((4 ^ a % VSS_P : ℕ) : ℤ) :=
  bigInt_padded _ _

theorem foldlM_commitments {k m : ℕ} (hm : m < k) {zss : List (List ℕ)} (hlength : ∀ zs ∈ zss, zs.length = k) (e : ℕ)
    {message : JsString} : (zss.map fun zs => zs.map commitmentString).foldlM (fun cm guardianCommitments => do
      throwIf (guardianCommitments.length ≠ k) message
      let zm ← bigInt (js "0x" ++ guardianCommitments.getD m (js "undefined"))
      return modMul cm zm VSS_P) ((4 ^ e % VSS_P : ℕ) : ℤ) =
      (.ok ((4 ^ (e + (zss.map fun zs => zs.getD m 0).sum) % VSS_P : ℕ) : ℤ) : Result ℤ) := by
  induction zss generalizing e with
  | nil => rfl
  | cons zs zss ih =>
    have hzs := hlength zs List.mem_cons_self
    have hsame : ¬ (zs.map commitmentString).length ≠ k := not_not.mpr (by rw [List.length_map, hzs])
    have hproduct : 4 ^ e % VSS_P * (4 ^ zs.getD m 0 % VSS_P) % VSS_P = 4 ^ (e + zs.getD m 0) % VSS_P := by
      rw [← Nat.mul_mod, ← pow_add]
    rw [List.map_cons, List.foldlM_cons, commitments_getD (hzs ▸ hm), bigInt_commitment, throwIf, if_neg hsame,
      Guarded.ok_bind, Guarded.ok_bind, modMul_nat, hproduct]
    refine (ih (fun zs h => hlength zs (List.mem_cons_of_mem _ h)) _).trans ?_
    rw [List.map_cons, List.sum_cons, Nat.add_assoc]

theorem updateCommitment_ok {as : List ℕ} {zss : List (List ℕ)} (hlength : ∀ zs ∈ zss, zs.length = as.length) {m : ℕ}
    (hm : m < as.length) : updateCommitment (as.map commitmentString) (zss.map fun zs => zs.map commitmentString) m =
      .ok (commitmentString ((refreshed as zss).getD m 0)) := by
  have hexponent : 4 ^ (as.getD m 0 + (zss.map fun zs => zs.getD m 0).sum) % VSS_P =
      4 ^ (refreshed as zss).getD m 0 % VSS_P := by
    rw [refreshed_getD zss hm]
    exact generator_pow_inj.mpr (ZMod.natCast_mod _ _).symm
  rw [updateCommitment, commitments_getD hm, bigInt_commitment, Guarded.ok_bind, List.length_map,
    foldlM_commitments hm hlength, Guarded.ok_bind, hexponent]
  rfl

theorem updateCommitments_ok {as : List ℕ} (has : as ≠ []) (hreduced : as.headD 0 < VSS_Q) {zss : List (List ℕ)}
    (hlength : ∀ zs ∈ zss, zs.length = as.length) (hzero : ∀ zs ∈ zss, zs.headD 0 = 0) :
    updateCommitmentsVSS (as.map commitmentString) (zss.map fun zs => zs.map commitmentString) =
      .ok ((refreshed as zss).map commitmentString) := by
  have hupdated : (List.range as.length).mapM
      (updateCommitment (as.map commitmentString) (zss.map fun zs => zs.map commitmentString)) =
        .ok ((refreshed as zss).map commitmentString) := by
    rw [Loops.mapM_ok fun m hm => updateCommitment_ok hlength (List.mem_range.mp hm)]
    refine congrArg _ (List.ext_getElem (by simp [refreshed_length]) fun m hm hm' => ?_)
    rw [List.length_map] at hm'
    rw [List.getElem_map, List.getElem_map, List.getElem_range, List.getD_eq_getElem _ _ hm']
  have hpos := List.length_pos_of_ne_nil has
  have hhead : ∀ l : List ℕ, l.getD 0 0 = l.headD 0 := fun l => by cases l <;> rfl
  have hfirst : (refreshed as zss).getD 0 0 = as.getD 0 0 := by
    rw [hhead, hhead, refreshed_head has hreduced hzero]
  rw [updateCommitmentsVSS, List.length_map, hupdated, Guarded.ok_bind, commitments_getD hpos,
    commitments_getD (by rwa [refreshed_length]), hfirst, bigInt_commitment, Guarded.ok_bind, Guarded.ok_bind, throwIf,
    if_neg (not_not.mpr rfl)]
  rfl

/-! ## Rounds -/

theorem share_injective {len : ℕ} (hlen : len < 256) {x y x' y' : ℕ} (h : share len x y = share len x' y') : x = x' := by
  have hparse := (parseShare_share hlen y x).symm.trans (h ▸ parseShare_share hlen y' x')
  exact Int.natCast_inj.mp (Prod.mk.inj (Option.some.inj (Except.ok.inj hparse))).1

theorem sharesOf_nodup {len : ℕ} (hlen : len < 256) (as : List ℕ) (n : ℕ) : (sharesOf len as n).Nodup :=
  List.nodup_range.map fun _ _ h => Nat.succ_injective (share_injective hlen h)

theorem reconstruct_take {len : ℕ} (hlen : len < 256) {as : List ℕ} (has : as ≠ []) (hreduced : as.headD 0 < VSS_Q)
    {n : ℕ} (hkn : as.length ≤ n) (hn : n < VSS_Q) :
    reconstructSecret ((sharesOf len as n).take as.length) = .ok (padStart (toString16 (as.headD 0 : ℕ)) (some len)) := by
  refine sharesOf_recover hlen has hreduced hn ((sharesOf_nodup hlen as n).sublist (List.take_sublist _ _))
    (fun s hs => List.mem_of_mem_take hs) ?_
  rw [List.length_take, sharesOf_length]
  omega

theorem generate_all (random : ℕ → ℕ → ℕ → UInt8) {k n : ℕ} (hk : 1 ≤ k) (hkn : k ≤ n) : ∃ ps zss,
    (List.range n).mapM (fun i => generateZeroPolynomialVSS (random i) k n (i + 1)) = .ok ps ∧
      List.Forall₂ (IsZeroPolynomial k n) ps zss ∧
      (ps.zipIdx.forM fun (poly, i) => verifyContributions n i poly) = .ok () := by
  obtain ⟨ps, hps, hforall⟩ := Loops.exists_mapM (l := List.range n) fun i _ => generate_ok (random i) hk hkn (i + 1)
  have hexists : ∀ p ∈ ps, ∃ zs, IsZeroPolynomial k n p zs := by
    intro p hp
    obtain ⟨i, hi, rfl⟩ := List.getElem_of_mem hp
    exact hforall.get (by rwa [hforall.length_eq]) hi
  obtain ⟨zss, hzss⟩ : ∃ zss, List.Forall₂ (IsZeroPolynomial k n) ps zss := by
    clear hps hforall
    induction ps with
    | nil => exact ⟨[], .nil⟩
    | cons p ps ih =>
      obtain ⟨zs, hzs⟩ := hexists p List.mem_cons_self
      obtain ⟨zss, hzss⟩ := ih fun p hp => hexists p (List.mem_cons_of_mem _ hp)
      exact ⟨zs :: zss, .cons hzs hzss⟩
  refine ⟨ps, zss, hps, hzss, Loops.forM_ok ?_⟩
  rintro ⟨p, i⟩ hp
  obtain ⟨zs, hzs⟩ := hexists p (List.fst_mem_of_mem_zipIdx hp)
  exact verifyContributions_ok hzs i

theorem zeroPolynomials_spec {k n : ℕ} {ps : List ZeroPolynomialVSS} {zss : List (List ℕ)}
    (h : List.Forall₂ (IsZeroPolynomial k n) ps zss) :
    (∀ zs ∈ zss, zs.length = k) ∧ (∀ zs ∈ zss, zs.headD 0 = 0) ∧
      ps.map ZeroPolynomialVSS.zeroCommitments = zss.map (fun zs => zs.map commitmentString) ∧
      ∀ j < n, (ps.map fun p => p.subshare (j + 1)) =
        (zss.map fun zs => value zs (j + 1) % VSS_Q).map Int.ofNat := by
  induction h with
  | nil => exact ⟨by simp, by simp, rfl, fun _ _ => rfl⟩
  | cons hp _ ih =>
    obtain ⟨hlength, hzero, hcommitments, hsubshares⟩ := ih
    refine ⟨List.forall_mem_cons.mpr ⟨hp.length, hlength⟩, List.forall_mem_cons.mpr ⟨hp.zero, hzero⟩, ?_,
      fun j hj => ?_⟩
    · rw [List.map_cons, List.map_cons, hp.commitments, hcommitments]
    · rw [List.map_cons, List.map_cons, List.map_cons, hp.subshare j hj, hsubshares j hj]
      rfl

theorem proactiveRefreshVSS_ok (random : ℕ → ℕ → ℕ → UInt8) {len : ℕ} (hlen : len < 256) {as : List ℕ} (has : as ≠ [])
    (hreduced : as.headD 0 < VSS_Q) {n : ℕ} (hkn : as.length ≤ n) (hn : n < VSS_Q) (epoch : ℕ) :
    ∃ as' : List ℕ, as'.length = as.length ∧ as'.headD 0 = as.headD 0 ∧
      proactiveRefreshVSS random (sharesOf len as n) (as.map commitmentString) as.length epoch =
        .ok ⟨sharesOf len as' n, as'.map commitmentString, padStart (toString16 (as.headD 0 : ℕ)) (some len), epoch⟩ := by
  have hk : 1 ≤ as.length := List.length_pos_of_ne_nil has
  obtain ⟨ps, zss, hps, hzss, hverified⟩ := generate_all random hk hkn
  obtain ⟨hlength, hzero, hcommitments, hsubshares⟩ := zeroPolynomials_spec hzss
  have hhead := refreshed_head has hreduced hzero
  have hlength' := refreshed_length as zss
  have hne : refreshed as zss ≠ [] := List.ne_nil_of_length_pos (hlength' ▸ hk)
  have hthreshold : ¬ (as.length < 1 ∨ n < as.length) := by omega
  have hshares : (List.range n).mapM (fun j =>
      updateShareVSS ((sharesOf len as n).getD j []) (ps.map fun p => p.subshare (j + 1))) =
        .ok (sharesOf len (refreshed as zss) n) := by
    refine Loops.mapM_ok fun j hj => ?_
    have hj := List.mem_range.mp hj
    have hshare : (sharesOf len as n).getD j [] = share len (j + 1) (value as (j + 1) % VSS_Q) := by
      rw [List.getD_eq_getElem _ _ (by rwa [sharesOf_length])]
      simp only [sharesOf, List.getElem_map, List.getElem_range]
    rw [hshare, hsubshares j hj, updateShare_ok hlen _ (Nat.mod_lt _ prime_VSS_Q.pos), refreshed_value as hlength]
  have hupdated := updateCommitments_ok has hreduced hlength hzero
  have haccepted : ((sharesOf len (refreshed as zss) n).forM fun share =>
      throwIf (verifyShare share ((refreshed as zss).map commitmentString) = false)
        (js "Refreshed share failed verification against updated commitments")) = .ok () := by
    refine Loops.forM_ok fun s hs => if_neg ?_
    rw [sharesOf_verified hlen _ n s hs]
    decide
  have hrecovered := reconstruct_take hlen hne (hhead ▸ hreduced) (hlength' ▸ hkn) hn
  rw [hhead, hlength'] at hrecovered
  have horiginal := reconstruct_take hlen has hreduced hkn hn
  refine ⟨refreshed as zss, hlength', hhead, ?_⟩
  unfold proactiveRefreshVSS
  simp only [sharesOf_length, throwIf, if_neg hthreshold, Guarded.ok_bind, hps, hverified, hshares, hcommitments,
    hupdated]
  simp only [throwIf] at haccepted
  rw [haccepted, Guarded.ok_bind, hrecovered, Guarded.ok_bind, horiginal, Guarded.ok_bind, if_neg (not_not.mpr rfl)]
  rfl

theorem refreshRounds_ok (random : ℕ → ℕ → ℕ → ℕ → UInt8) {len : ℕ} (hlen : len < 256) {as : List ℕ} (has : as ≠ [])
    (hreduced : as.headD 0 < VSS_Q) {n : ℕ} (hkn : as.length ≤ n) (hn : n < VSS_Q) (rounds : ℕ) :
    ∃ as' : List ℕ, as'.length = as.length ∧ as'.headD 0 = as.headD 0 ∧
      refreshRounds random as.length rounds (sharesOf len as n, as.map commitmentString) =
        .ok (sharesOf len as' n, as'.map commitmentString) := by
  induction rounds with
  | zero => exact ⟨as, rfl, rfl, rfl⟩
  | succ rounds ih =>
    obtain ⟨bs, hlength, hhead, hrun⟩ := ih
    have hbs : bs ≠ [] := List.ne_nil_of_length_pos (hlength ▸ List.length_pos_of_ne_nil has)
    obtain ⟨cs, hlength', hhead', hround⟩ := proactiveRefreshVSS_ok (random rounds) hlen hbs (hhead ▸ hreduced)
      (hlength ▸ hkn) hn (rounds + 1)
    refine ⟨cs, hlength'.trans hlength, hhead'.trans hhead, ?_⟩
    rw [hlength] at hround
    rw [refreshRounds, hrun, Guarded.ok_bind, hround]
    rfl

/-- From what a split returns, every number of refreshes succeeds and keeps the first commitment; every share of the
last epoch is accepted, and any `k` of them give the secret's digits back, which are its string where that was of
digits in lower case. -/
theorem refreshRounds_preserve (random : ℕ → ℕ → UInt8) (zeroRandom : ℕ → ℕ → ℕ → ℕ → UInt8) {s : JsString} {n k : ℕ}
    {shares commitments : List JsString} (h : splitSecretVSS random s n k = .ok (shares, commitments))
    (hmax : (cleanHex s).length ≤ 254) (hn : n < VSS_Q) (rounds : ℕ) :
    ∃ secret : ℕ, bigInt (js "0x" ++ cleanHex s) = .ok (secret : ℤ) ∧ ∃ shares' commitments',
      refreshRounds zeroRandom k rounds (shares, commitments) = .ok (shares', commitments') ∧
      commitments'.head? = commitments.head? ∧ shares'.length = n ∧
      (∀ share ∈ shares', verifyShare share commitments' = true) ∧
      (∀ chosen : List JsString, chosen.Nodup → (∀ share ∈ chosen, share ∈ shares') → k ≤ chosen.length →
        reconstructSecret chosen = .ok (padStart (toString16 secret) (some (cleanHex s).length))) ∧
      (LowerHex s → padStart (toString16 secret) (some (cleanHex s).length) = s) := by
  obtain ⟨secret, hsplits⟩ := splits_of_ok h
  obtain ⟨as, hlength, hhead, _, hsplit⟩ := splitSecretVSS_eq random hsplits
  obtain ⟨rfl, rfl⟩ := Prod.mk.inj (Except.ok.inj (h.symm.trans hsplit))
  have hlen : (cleanHex s).length < 256 := by omega
  have has : as ≠ [] := List.ne_nil_of_length_pos (hlength ▸ hsplits.threshold)
  have hreduced : as.headD 0 < VSS_Q := hhead ▸ hsplits.small
  obtain ⟨as', hlength', hhead', hrounds⟩ := refreshRounds_ok zeroRandom hlen has hreduced
    (hlength ▸ hsplits.shares) hn rounds
  have has' : as' ≠ [] := List.ne_nil_of_length_pos (hlength' ▸ hlength ▸ hsplits.threshold)
  have hfirst : (as'.map commitmentString).head? = (as.map commitmentString).head? := by
    rw [List.head?_map, List.head?_map, List.head?_eq_some_head has', List.head?_eq_some_head has]
    have hheadD : ∀ {l : List ℕ} (hl : l ≠ []), l.head hl = l.headD 0 := fun {l} hl => by
      cases l with
      | nil => exact absurd rfl hl
      | cons a l => rfl
    rw [hheadD, hheadD, hhead']
  refine ⟨secret, hsplits.read, sharesOf (cleanHex s).length as' n, as'.map commitmentString, hlength ▸ hrounds, hfirst,
    sharesOf_length _ _ _, sharesOf_verified hlen as' n, fun chosen hnodup hmem hchosen => ?_, fun hhex => ?_⟩
  · rw [sharesOf_recover hlen has' (hhead' ▸ hreduced) hn hnodup hmem (by omega), hhead', hhead]
  · have hclean := cleanHex_lowerHex hhex
    have hread := hsplits.read
    rw [hclean] at hread ⊢
    refine lowerHex_written hhex (fun hnil => ?_) hread
    have hfails : (bigInt (js "0x" ++ [])).toBool = false := by decide
    rw [← hnil, hread] at hfails
    cases hfails

/-- The secret `00ff`, two of three, after two refreshes. -/
theorem refreshRounds_preserve_two : ∃ shares commitments,
    splitSecretVSS (fun i j => UInt8.ofNat (i + j)) (js "00ff") 3 2 = .ok (shares, commitments) ∧
    ∃ secret : ℕ, bigInt (js "0x" ++ cleanHex (js "00ff")) = .ok (secret : ℤ) ∧ ∃ shares' commitments',
      refreshRounds (fun r i m j => UInt8.ofNat (r + i + m + j)) 2 2 (shares, commitments) =
        .ok (shares', commitments') ∧
      commitments'.head? = commitments.head? ∧ shares'.length = 3 ∧
      (∀ share ∈ shares', verifyShare share commitments' = true) ∧
      (∀ chosen : List JsString, chosen.Nodup → (∀ share ∈ chosen, share ∈ shares') → 2 ≤ chosen.length →
        reconstructSecret chosen = .ok (padStart (toString16 secret) (some (cleanHex (js "00ff")).length))) ∧
      (LowerHex (js "00ff") → padStart (toString16 secret) (some (cleanHex (js "00ff")).length) = js "00ff") := by
  have hsplits : Splits (js "00ff") 3 2 255 := ⟨by decide, by decide, by decide, by decide, by decide⟩
  obtain ⟨as, _, _, _, hsplit⟩ := splitSecretVSS_eq (fun i j => UInt8.ofNat (i + j)) hsplits
  exact ⟨_, _, hsplit, refreshRounds_preserve _ _ hsplit (by decide) (by decide) 2⟩

/-- A prefix is dropped and does not come back; and with more than 254 digits the refresh rejects its own shares. -/
theorem refreshRounds_fails :
    (∃ shares commitments shares' commitments',
      splitSecretVSS (fun _ _ => 0) (js "0xff") 1 1 = .ok (shares, commitments) ∧
      refreshRounds (fun _ _ _ _ => 0) 1 1 (shares, commitments) = .ok (shares', commitments') ∧
      reconstructSecret shares' = .ok (js "ff")) ∧
    ∃ shares commitments message,
      splitSecretVSS (fun _ _ => 0) (List.replicate 258 0x30) 1 1 = .ok (shares, commitments) ∧
      refreshRounds (fun _ _ _ _ => 0) 1 1 (shares, commitments) = .error (.error message) := by
  refine ⟨⟨sharesOf 2 [255] 1, [255].map commitmentString, sharesOf 2 [255] 1, [255].map commitmentString, ?_, ?_, ?_⟩,
    ⟨sharesOf 258 [0] 1, [0].map commitmentString,
      js "Refreshed share failed verification against updated commitments", ?_, ?_⟩⟩ <;>
  decide +kernel

end ChainGuard.OffChain.ProactiveSharing
