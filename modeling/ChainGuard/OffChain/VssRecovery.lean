import ChainGuard.OffChain.VssShares

/-! Which accepted shares give the secret back: those whose points are reduced do, and more exactly those among which
no weight is negative. -/
namespace ChainGuard.OffChain.Secrets
open Polynomial
set_option autoImplicit false

/-! ## Strings of commitments -/

/-- The commitment to a coefficient, as it is published. -/
def commitmentString (a : ℕ) : JsString := padStart (toString16 ((4 ^ a % VSS_P : ℕ) : ℤ)) (some 66)

theorem commits_strings (as : List ℕ) : Commits (as.map commitmentString) as := by
  rw [Commits, List.forall₂_map_left_iff]
  exact List.forall₂_same.mpr fun a _ => bigInt_padded _ _

theorem verifyShare_share {commitments : List JsString} {as : List ℕ} (hcommits : Commits commitments as) {len : ℕ}
    (hlen : len < 256) {x y : ℕ} (h : (y : ZMod VSS_Q) = (residues as).eval (x : ZMod VSS_Q)) :
    verifyShare (share len x y) commitments = true :=
  (verifyShare_iff hcommits (parseShare_share hlen y x)).mpr h

theorem parsed_shares {len : ℕ} (hlen : len < 256) (pts : List (ℕ × ℕ)) :
    Parsed (pts.map fun p => share len p.1 p.2) pts := by
  rw [Parsed, List.forall₂_map_left_iff]
  exact List.forall₂_same.mpr fun p _ => parseShare_share hlen p.2 p.1

/-! ## Negative results -/

/-- The digits of a negative number begin with its sign. -/
theorem dash_mem_padded {n : ℤ} (h : n < 0) (width : Option ℤ) : dash ∈ padStart (toString16 n) width := by
  obtain ⟨m, rfl⟩ := Int.eq_negSucc_of_lt_zero h
  exact List.mem_append_right _ List.mem_cons_self

theorem padded_ne {n : ℤ} (h : n < 0) (secret : ℕ) (width width' : Option ℤ) :
    padStart (toString16 n) width ≠ padStart (toString16 secret) width' := by
  intro heq
  obtain ⟨digits, hhex, _⟩ := padded_hex secret width'
  exact hhex.dash_not_mem (heq ▸ dash_mem_padded h width)

/-! ## Accepted shares -/

/-- As many accepted shares as there are coefficients, at these points. -/
structure AcceptedAt (commitments : List JsString) (shares : List JsString) (xs : List ℕ) : Prop where
  threshold : commitments.length = xs.length
  accepted : ∀ s ∈ shares, verifyShare s commitments = true
  points : List.Forall₂ (fun s (x : ℕ) => ∃ y : ℤ, parseShare s = .ok (some ((x : ℤ), y))) shares xs

theorem AcceptedAt.parsed {commitments shares : List JsString} {as xs : List ℕ} (hcommits : Commits commitments as)
    (h : AcceptedAt commitments shares xs) : ∃ pts : List (ℕ × ℕ), Parsed shares pts ∧ pts.map Prod.fst = xs ∧
      ∀ p ∈ pts, (p.2 : ZMod VSS_Q) = (residues as).eval (p.1 : ZMod VSS_Q) := by
  have haccepted := h.accepted
  have hpoints := h.points
  clear h
  induction hpoints with
  | nil => exact ⟨[], .nil, rfl, fun p hp => absurd hp List.not_mem_nil⟩
  | @cons s x shares xs hs _ ih =>
    obtain ⟨pts, hparsed, hfst, hvalues⟩ := ih fun s hs => haccepted s (List.mem_cons_of_mem _ hs)
    obtain ⟨x', y, hparse, hvalue⟩ := verifyShare_sound hcommits (haccepted s List.mem_cons_self)
    obtain ⟨z, hz⟩ := hs
    obtain rfl : x' = x := by
      have hsame := hparse.symm.trans hz
      exact Int.natCast_inj.mp (Prod.mk.inj (Option.some.inj (Except.ok.inj hsame))).1
    refine ⟨(x', y) :: pts, .cons hparse hparsed, congrArg (x' :: ·) hfst, fun p hp => ?_⟩
    rcases List.mem_cons.mp hp with rfl | hp
    · exact hvalue
    · exact hvalues p hp

theorem AcceptedAt.recovers {commitments shares : List JsString} {as xs : List ℕ} (hcommits : Commits commitments as)
    (hreduced : as.headD 0 < VSS_Q) (hxs : xs ≠ []) (hdistinct : Distinct xs) (hweights : NoNegativeWeight xs)
    (h : AcceptedAt commitments shares xs) : Recovers shares (as.headD 0) := by
  obtain ⟨pts, hparsed, rfl, hvalues⟩ := h.parsed hcommits
  have hlength : as.length = pts.length := by
    rw [← hcommits.length_eq, h.threshold, List.length_map]
  have hpts : pts ≠ [] := fun hnil => hxs (by rw [hnil]; rfl)
  have has : as ≠ [] := List.ne_nil_of_length_pos (hlength ▸ List.length_pos_of_ne_nil hpts)
  have hshares : shares ≠ [] :=
    List.ne_nil_of_length_pos (hparsed.length_eq ▸ List.length_pos_of_ne_nil hpts)
  have hdegree : (residues as).degree < pts.length := hlength ▸ Feldman.polynomial_degree _ _
  have hinterpolate := interpolate_polynomial hdistinct hweights hdegree hvalues hreduced (residues_zero has)
  obtain ⟨len, hlen⟩ := parseShares_parsed hparsed (some 64)
  exact ⟨len, by rw [reconstruct_parsed hshares hparsed hlen, hinterpolate]; rfl⟩

/-- The coefficients of a polynomial, as numbers. -/
def coefficients (f : ℕ → ZMod VSS_Q) (k : ℕ) : List ℕ := (List.range k).map fun j => (f j).val

theorem residues_coefficients {f : (ZMod VSS_Q)[X]} {k : ℕ} (hk : 0 < k) (hf : f.degree < k) :
    residues (coefficients f.coeff k) = f := by
  have hlength : (coefficients f.coeff k).length = k := by rw [coefficients, List.length_map, List.length_range]
  conv_rhs => rw [← Feldman.polynomial_coeff hk hf]
  rw [residues, hlength, Feldman.polynomial, Feldman.polynomial]
  refine Finset.sum_congr rfl fun j hj => ?_
  have hj := Finset.mem_range.mp hj
  rw [List.getD_eq_getElem _ _ (by rwa [hlength])]
  simp only [coefficients, List.getElem_map, List.getElem_range, ZMod.natCast_zmod_val]

/-- The points with the value one at the `i`-th of them, and zero at the others. -/
def unitAt (xs : List ℕ) (i : ℕ) : List (ℕ × ℕ) :=
  (List.range xs.length).map fun j => (xs.getD j 0, if j = i then 1 else 0)

theorem unitAt_length (xs : List ℕ) (i : ℕ) : (unitAt xs i).length = xs.length := by
  rw [unitAt, List.length_map, List.length_range]

theorem unitAt_fst (xs : List ℕ) (i : ℕ) : (unitAt xs i).map Prod.fst = xs := by
  refine List.ext_getElem (by rw [List.length_map, unitAt_length]) fun j hj hj' => ?_
  simp only [unitAt, List.getElem_map, List.getElem_range]
  exact List.getD_eq_getElem _ _ hj'

theorem unitAt_snd {xs : List ℕ} {i j : ℕ} (hj : j < xs.length) :
    ((unitAt xs i).getD j (0, 0)).2 = if j = i then 1 else 0 := by
  rw [List.getD_eq_getElem _ _ (by rwa [unitAt_length])]
  simp only [unitAt, List.getElem_map, List.getElem_range]

theorem exists_negative {xs : List ℕ} (hxs : xs ≠ []) (hdistinct : Distinct xs) (hweights : ¬ NoNegativeWeight xs) :
    ∃ as commitments shares, (∀ a ∈ as, a < VSS_Q) ∧ Commits commitments as ∧ AcceptedAt commitments shares xs ∧
      ¬ Recovers shares (as.headD 0) := by
  obtain ⟨i, hi, hnegative⟩ : ∃ i < xs.length, ¬ (0 ≤ (weightOf xs i).tmod VSS_Q) := by
    by_contra hnone
    refine hweights fun i hi => (weightOf_nonneg_iff hdistinct hi).mp ?_
    by_contra hneg
    exact hnone ⟨i, hi, hneg⟩
  have hk := List.length_pos_of_ne_nil hxs
  obtain ⟨f, hdegree, hvalues⟩ := Feldman.exists_values hdistinct.injOn
    (fun j => ((if j = i then 1 else 0 : ℕ) : ZMod VSS_Q))
  have hresidues := residues_coefficients hk hdegree
  have hparsed := parsed_shares (show 64 < 256 by decide) (unitAt xs i)
  have hcommits := commits_strings (coefficients f.coeff xs.length)
  refine ⟨_, _, (unitAt xs i).map fun p => share 64 p.1 p.2, ?_, hcommits, ⟨?_, ?_, ?_⟩, ?_⟩
  · intro a ha
    obtain ⟨j, _, rfl⟩ := List.mem_map.mp ha
    exact ZMod.val_lt _
  · rw [List.length_map, coefficients, List.length_map, List.length_range]
  · intro s hs
    obtain ⟨p, hp, rfl⟩ := List.mem_map.mp hs
    obtain ⟨j, hj, rfl⟩ := List.mem_map.mp hp
    refine verifyShare_share hcommits (by decide) ?_
    rw [hresidues]
    exact (hvalues j (Finset.mem_range.mpr (List.mem_range.mp hj))).symm
  · conv_rhs => rw [← unitAt_fst xs i]
    rw [List.forall₂_map_right_iff]
    exact hparsed.imp fun s p hp => ⟨p.2, hp⟩
  · rintro ⟨width, hrecovers⟩
    obtain ⟨len, hlen⟩ := parseShares_parsed hparsed (some 64)
    have hne : (unitAt xs i).map (fun p => share 64 p.1 p.2) ≠ [] := by
      refine List.ne_nil_of_length_pos ?_
      rw [List.length_map, unitAt_length]
      exact hk
    have hinterpolate := @interpolate_negative (unitAt xs i) (by rwa [unitAt_fst]) i (by rwa [unitAt_length])
      (by rw [unitAt_fst]; exact not_le.mp hnegative) fun j hj => unitAt_snd (by rwa [unitAt_length] at hj)
    rw [reconstruct_parsed hne hparsed hlen, hinterpolate, unitAt_fst] at hrecovers
    exact padded_ne (not_le.mp hnegative) _ _ _ (Except.ok.inj hrecovers)

/-- What `verifyShare` accepts is a point of the committed polynomial; and at distinct points, all accepted shares give
its first coefficient back exactly where no weight is negative. -/
theorem accepted_shares_iff {xs : List ℕ} (hxs : xs ≠ []) (hdistinct : Distinct xs) :
    (∀ as commitments, Commits commitments as → ∀ s, verifyShare s commitments = true →
      ∃ x y : ℕ, parseShare s = .ok (some ((x : ℤ), (y : ℤ))) ∧
        (y : ZMod VSS_Q) = ∑ j ∈ Finset.range as.length, (as.getD j 0 : ZMod VSS_Q) * (x : ZMod VSS_Q) ^ j) ∧
    ((∀ as commitments shares, (∀ a ∈ as, a < VSS_Q) → Commits commitments as → AcceptedAt commitments shares xs →
      Recovers shares (as.headD 0)) ↔ NoNegativeWeight xs) := by
  refine ⟨fun as commitments hcommits s hs => ?_, fun h => ?_, fun hweights => ?_⟩
  · obtain ⟨x, y, hparse, hvalue⟩ := verifyShare_sound hcommits hs
    rw [residues, Feldman.polynomial_eval] at hvalue
    exact ⟨x, y, hparse, hvalue⟩
  · by_contra hweights
    obtain ⟨as, commitments, shares, hreduced, hcommits, haccepted, hfails⟩ := exists_negative hxs hdistinct hweights
    exact hfails (h as commitments shares hreduced hcommits haccepted)
  · intro as commitments shares hreduced hcommits haccepted
    have hfirst : as.headD 0 < VSS_Q := by
      cases as with
      | nil => exact prime_VSS_Q.pos
      | cons a as => exact hreduced a List.mem_cons_self
    exact haccepted.recovers hcommits hfirst hxs hdistinct hweights

/-- Two reduced points, and shares of `7 + 5x` at them. -/
theorem accepted_shares_iff_two :
    Recovers [share 64 1 12, share 64 2 17] 7 := by
  have hweights : NoNegativeWeight [1, 2] := by
    intro i hi
    refine Or.inl ?_
    have hnone : farBehind [1, 2] i = 0 := by
      revert i
      decide
    rw [hnone]
    exact Even.zero
  have hdistinct : Distinct [1, 2] := by
    rw [Distinct]
    decide
  have hcommits := commits_strings [7, 5]
  have hvalue : ∀ x y : ℕ, value [7, 5] x = y → (y : ZMod VSS_Q) = (residues [7, 5]).eval (x : ZMod VSS_Q) := by
    rintro x _ rfl
    exact value_cast _ x
  refine (accepted_shares_iff (by decide) hdistinct).2.mpr hweights [7, 5] _ _ (by decide) hcommits
    ⟨rfl, ?_, .cons ⟨12, parseShare_share (by decide) 12 1⟩ (.cons ⟨17, parseShare_share (by decide) 17 2⟩ .nil)⟩
  simp only [List.forall_mem_cons]
  exact ⟨verifyShare_share hcommits (by decide) (hvalue 1 12 rfl),
    verifyShare_share hcommits (by decide) (hvalue 2 17 rfl), fun s hs => absurd hs List.not_mem_nil⟩

/-- Shares of `2 + (q - 3) / 2 * x` at 1 and at `2q + 2`: both are accepted, and what is reconstructed is `2 - q`. -/
theorem accepted_shares_negative :
    (∀ s ∈ [share 64 1 ((VSS_Q + 1) / 2), share 64 (2 * VSS_Q + 2) (VSS_Q - 1)],
      verifyShare s ([2, (VSS_Q - 3) / 2].map commitmentString) = true) ∧
      Distinct [1, 2 * VSS_Q + 2] ∧
      reconstructSecret [share 64 1 ((VSS_Q + 1) / 2), share 64 (2 * VSS_Q + 2) (VSS_Q - 1)] =
        .ok (padStart (toString16 (2 - VSS_Q)) (some 64)) ∧
      ¬ Recovers [share 64 1 ((VSS_Q + 1) / 2), share 64 (2 * VSS_Q + 2) (VSS_Q - 1)] 2 := by
  have hcommits := commits_strings [2, (VSS_Q - 3) / 2]
  have hvalue : ∀ x y : ℕ, value [2, (VSS_Q - 3) / 2] x ≡ y [MOD VSS_Q] →
      (y : ZMod VSS_Q) = (residues [2, (VSS_Q - 3) / 2]).eval (x : ZMod VSS_Q) := by
    intro x y h
    rw [← value_cast]
    exact ((ZMod.natCast_eq_natCast_iff ..).mpr h).symm
  have hparsed := parsed_shares (show 64 < 256 by decide) [(1, (VSS_Q + 1) / 2), (2 * VSS_Q + 2, VSS_Q - 1)]
  have hlen : parseShares [share 64 1 ((VSS_Q + 1) / 2), share 64 (2 * VSS_Q + 2) (VSS_Q - 1)] (some 64) =
      .ok (coordinates [(1, (VSS_Q + 1) / 2), (2 * VSS_Q + 2, VSS_Q - 1)], some 64) := by
    simp only [parseShares, parseForReconstruction_share (show 64 < 256 by decide), Guarded.ok_bind]
    rfl
  have hinterpolate : interpolateAtZero (coordinates [(1, (VSS_Q + 1) / 2), (2 * VSS_Q + 2, VSS_Q - 1)]) =
      .ok (2 - VSS_Q) := by
    decide +kernel
  have hreconstruct := reconstruct_parsed (List.cons_ne_nil _ _) hparsed hlen
  rw [hinterpolate] at hreconstruct
  refine ⟨?_, ?_, hreconstruct, ?_⟩
  · simp only [List.forall_mem_cons]
    exact ⟨verifyShare_share hcommits (by decide) (hvalue _ _ (by decide +kernel)),
      verifyShare_share hcommits (by decide) (hvalue _ _ (by decide +kernel)), fun s hs => absurd hs List.not_mem_nil⟩
  · rw [Distinct]
    decide
  · rintro ⟨width, hrecovers⟩
    exact padded_ne (show 2 - (VSS_Q : ℤ) < 0 by decide) _ _ _ (Except.ok.inj (hreconstruct.symm.trans hrecovers))

/-! What `splitSecretVSS` returns are the shares of a polynomial whose first coefficient is the secret; every one of them
is accepted, and as many as there are coefficients give the secret's string back. -/

/-! ## Shares of a polynomial -/

/-- The shares at the points `1` to `n`. -/
def sharesOf (len : ℕ) (as : List ℕ) (n : ℕ) : List JsString :=
  (List.range n).map fun i => share len (i + 1) (value as (i + 1) % VSS_Q)

theorem sharesOf_length (len : ℕ) (as : List ℕ) (n : ℕ) : (sharesOf len as n).length = n := by
  rw [sharesOf, List.length_map, List.length_range]

theorem value_mod_cast (as : List ℕ) (x : ℕ) :
    ((value as x % VSS_Q : ℕ) : ZMod VSS_Q) = (residues as).eval (x : ZMod VSS_Q) := by
  rw [ZMod.natCast_mod, value_cast]

theorem sharesOf_verified {len : ℕ} (hlen : len < 256) (as : List ℕ) (n : ℕ) :
    ∀ s ∈ sharesOf len as n, verifyShare s (as.map commitmentString) = true := by
  intro s hs
  obtain ⟨i, _, rfl⟩ := List.mem_map.mp hs
  exact verifyShare_share (commits_strings as) hlen (value_mod_cast as (i + 1))

theorem noNegativeWeight_of_lt {xs : List ℕ} (h : ∀ x ∈ xs, x < VSS_Q) : NoNegativeWeight xs := by
  intro i hi
  have hnone : farBehind xs i = 0 := by
    rw [farBehind, Finset.card_eq_zero, Finset.filter_eq_empty_iff]
    intro j _
    rw [List.getD_eq_getElem _ _ hi]
    have hlt := h _ (List.getElem_mem hi)
    omega
  rw [hnone]
  exact Or.inl Even.zero

theorem distinct_of_lt {xs : List ℕ} (h : ∀ x ∈ xs, x < VSS_Q) (hnodup : xs.Nodup) : Distinct xs := by
  refine List.Nodup.map_on (fun x hx y hy heq => ?_) hnodup
  rw [ZMod.natCast_eq_natCast_iff'] at heq
  rwa [Nat.mod_eq_of_lt (h x hx), Nat.mod_eq_of_lt (h y hy)] at heq

theorem parseShares_shares {len : ℕ} (hlen : len < 256) {pts : List (ℕ × ℕ)} (hne : pts ≠ []) (originalLen : Option ℤ) :
    parseShares (pts.map fun p => share len p.1 p.2) originalLen = .ok (coordinates pts, some (len : ℤ)) := by
  induction pts generalizing originalLen with
  | nil => exact absurd rfl hne
  | cons p pts ih =>
    rw [List.map_cons, parseShares, parseForReconstruction_share hlen, Guarded.ok_bind]
    dsimp only
    by_cases hnil : pts = []
    · rw [hnil]
      rfl
    · rw [ih hnil, Guarded.ok_bind]
      rfl

/-- Different shares of one polynomial, as many as it has coefficients, in any order. -/
theorem sharesOf_recover {len : ℕ} (hlen : len < 256) {as : List ℕ} (has : as ≠ []) (hreduced : as.headD 0 < VSS_Q)
    {n : ℕ} (hn : n < VSS_Q) {chosen : List JsString} (hnodup : chosen.Nodup) (hmem : ∀ s ∈ chosen, s ∈ sharesOf len as n)
    (hk : as.length ≤ chosen.length) :
    reconstructSecret chosen = .ok (padStart (toString16 (as.headD 0 : ℕ)) (some len)) := by
  obtain ⟨is, rfl⟩ : chosen ∈ Set.range
      (List.map fun i : Fin n => share len (i + 1) (value as (i + 1) % VSS_Q)) := by
    rw [Set.range_list_map]
    intro s hs
    obtain ⟨i, hi, rfl⟩ := List.mem_map.mp (hmem s hs)
    exact ⟨⟨i, List.mem_range.mp hi⟩, rfl⟩
  have hinjective := List.Nodup.of_map _ hnodup
  let pts := is.map fun i : Fin n => ((i : ℕ) + 1, value as (i + 1) % VSS_Q)
  have hshares : is.map (fun i : Fin n => share len (i + 1) (value as (i + 1) % VSS_Q)) =
      pts.map fun p => share len p.1 p.2 := by
    rw [List.map_map]
    rfl
  have hfst : pts.map Prod.fst = is.map fun i : Fin n => (i : ℕ) + 1 := by
    rw [List.map_map]
    rfl
  have hlength : pts.length = is.length := List.length_map _
  rw [List.length_map] at hk
  have hne : pts ≠ [] := List.ne_nil_of_length_pos (hlength ▸ (List.length_pos_of_ne_nil has).trans_le hk)
  have hlt : ∀ x ∈ pts.map Prod.fst, x < VSS_Q := by
    rw [hfst]
    intro x hx
    obtain ⟨i, _, rfl⟩ := List.mem_map.mp hx
    have hi := i.isLt
    omega
  have hdistinct : Distinct (pts.map Prod.fst) := by
    refine distinct_of_lt hlt ?_
    rw [hfst]
    exact hinjective.map fun i j h => Fin.ext (Nat.succ_injective h)
  have hvalues : ∀ p ∈ pts, (p.2 : ZMod VSS_Q) = (residues as).eval (p.1 : ZMod VSS_Q) := by
    intro p hp
    obtain ⟨i, _, rfl⟩ := List.mem_map.mp hp
    exact value_mod_cast as _
  have hdegree : (residues as).degree < pts.length :=
    (Feldman.polynomial_degree _ _).trans_le (by exact_mod_cast hlength ▸ hk)
  have hinterpolate := interpolate_polynomial hdistinct (noNegativeWeight_of_lt hlt) hdegree hvalues hreduced
    (residues_zero has)
  rw [hshares, reconstruct_parsed (by rwa [Ne, List.map_eq_nil_iff]) (parsed_shares hlen pts)
    (parseShares_shares hlen hne _), hinterpolate]
  rfl

/-! ## Splitting -/

theorem Hex.append {s t : JsString} {ds es : List ℕ} (hs : Hex s ds) (ht : Hex t es) : Hex (s ++ t) (ds ++ es) where
  string := by rw [hs.string, ht.string, List.map_append]
  digit := fun d hd => (List.mem_append.mp hd).elim (hs.digit d) (ht.digit d)
  ne_nil := List.append_ne_nil_of_left_ne_nil hs.ne_nil _

theorem flatMap_hex {f : ℕ → JsString} (hf : ∀ j, ∃ digits, Hex (f j) digits) {l : List ℕ} (hne : l ≠ []) :
    ∃ digits, Hex (l.flatMap f) digits := by
  induction l with
  | nil => exact absurd rfl hne
  | cons j l ih =>
    obtain ⟨digits, hdigits⟩ := hf j
    rw [List.flatMap_cons]
    by_cases hnil : l = []
    · rw [hnil, List.flatMap_nil, List.append_nil]
      exact ⟨digits, hdigits⟩
    · obtain ⟨rest, hrest⟩ := ih hnil
      exact ⟨_, hdigits.append hrest⟩

theorem randomCoefficient_ok (bytes : ℕ → UInt8) : ∃ c : ℤ, randomCoefficient bytes = .ok c ∧
    ∃ a : ℕ, a < VSS_Q ∧ c = a := by
  obtain ⟨digits, hdigits⟩ := flatMap_hex (f := fun j => padStart (toString16 (bytes j).toNat) (some 2))
    (fun j => (padded_hex _ _).imp fun _ h => h.1) (l := List.range 32) (by decide)
  refine ⟨((hexValueOf digits : ℕ) : ℤ).tmod VSS_Q, ?_, hexValueOf digits % VSS_Q, Nat.mod_lt _ prime_VSS_Q.pos, rfl⟩
  rw [randomCoefficient, bigInt_hex hdigits]
  rfl

theorem map_ofNat_of_forall₂ {α : Type} {P : ℕ → Prop} {l : List α} {cs : List ℤ}
    (h : List.Forall₂ (fun (_ : α) (c : ℤ) => ∃ a : ℕ, P a ∧ c = a) l cs) :
    ∃ as : List ℕ, cs = as.map Int.ofNat ∧ as.length = l.length ∧ ∀ a ∈ as, P a := by
  induction h with
  | nil => exact ⟨[], rfl, rfl, fun a ha => absurd ha List.not_mem_nil⟩
  | cons hc _ ih =>
    obtain ⟨a, ha, rfl⟩ := hc
    obtain ⟨as, rfl, hlength, has⟩ := ih
    exact ⟨a :: as, rfl, congrArg (· + 1) hlength, List.forall_mem_cons.mpr ⟨ha, has⟩⟩

theorem mapM_commitment (as : List ℕ) : (as.map Int.ofNat).mapM commitment = .ok (as.map commitmentString) := by
  have hall : ∀ c ∈ as.map Int.ofNat, commitment c = .ok (commitmentString c.toNat) := by
    intro c hc
    obtain ⟨a, _, rfl⟩ := List.mem_map.mp hc
    exact commitment_eq a
  rw [Loops.mapM_ok hall, List.map_map]
  rfl

theorem throwIf_bind {α : Type} {condition : Prop} [Decidable condition] {message : JsString} {f : Unit → Result α}
    {r : α} : (throwIf condition message >>= f) = .ok r ↔ ¬ condition ∧ f () = .ok r := by
  by_cases h : condition
  · rw [throwIf, if_pos h]
    exact iff_of_false (fun herror => by cases herror) fun hok => hok.1 h
  · rw [throwIf, if_neg h, Guarded.ok_bind]
    exact (and_iff_right h).symm

/-- The secret is read, and is below the modulus. -/
structure Splits (s : JsString) (n k secret : ℕ) : Prop where
  threshold : 1 ≤ k
  shares : k ≤ n
  even : (cleanHex s).length % 2 = 0
  read : bigInt (js "0x" ++ cleanHex s) = .ok (secret : ℤ)
  small : secret < VSS_Q

theorem splitSecretVSS_eq (random : ℕ → ℕ → UInt8) {s : JsString} {n k secret : ℕ} (h : Splits s n k secret) :
    ∃ as : List ℕ, as.length = k ∧ as.headD 0 = secret ∧ (∀ a ∈ as, a < VSS_Q) ∧
      splitSecretVSS random s n k = .ok (sharesOf (cleanHex s).length as n, as.map commitmentString) := by
  obtain ⟨hk, hkn, heven, hsecret, hlt⟩ := h
  obtain ⟨cs, hcs, hforall⟩ := Loops.exists_mapM (l := List.range (k - 1)) fun i _ => randomCoefficient_ok (random i)
  obtain ⟨rest, rfl, hlength, hrest⟩ := map_ofNat_of_forall₂ hforall
  rw [List.length_range] at hlength
  refine ⟨secret :: rest, ?_, rfl, List.forall_mem_cons.mpr ⟨hlt, hrest⟩, ?_⟩
  · rw [List.length_cons]
    omega
  have hcoefficients : (secret : ℤ) :: rest.map Int.ofNat = (secret :: rest).map Int.ofNat := rfl
  have hlarge : ¬ ((VSS_Q : ℤ) ≤ secret) := by omega
  have hevaluate : ∀ x : ℕ, (evaluate ((secret :: rest).map Int.ofNat) x).1 =
      ((value (secret :: rest) x % VSS_Q : ℕ) : ℤ) := fun x => congrArg Prod.fst (residual.evaluate _ x)
  unfold splitSecretVSS
  simp only [throwIf, if_neg (not_lt.mpr hkn), if_neg (not_lt.mpr hk), if_neg (not_not.mpr heven), if_neg hlarge,
    hsecret, Guarded.ok_bind, hcs, hcoefficients, mapM_commitment, hevaluate]
  rfl

/-- Digits with the prefix in front are read as no negative number. -/
theorem bigInt_prefix_nonneg {s : JsString} {n : ℤ} (h : bigInt (js "0x" ++ s) = .ok n) : 0 ≤ n := by
  have hstart : (js "0x" ++ s).dropWhile isWhiteSpace = js "0x" ++ s := List.dropWhile_cons_of_neg (by decide)
  have htrim : ∃ t, trim (js "0x" ++ s) = js "0x" ++ t := by
    rw [trim, hstart, List.reverse_append, List.dropWhile_append]
    split
    · exact ⟨[], by decide⟩
    · exact ⟨_, List.reverse_append.trans (congrArg (· ++ _) (List.reverse_reverse _))⟩
  obtain ⟨t, ht⟩ := htrim
  have htake : (js "0x" ++ t).take 2 = js "0x" := List.take_left' rfl
  rw [bigInt, stringToBigInt, ht, if_neg (List.append_ne_nil_of_left_ne_nil (by decide) _), if_pos (Or.inl htake)] at h
  cases hvalue : digitsValue 16 ((js "0x" ++ t).drop 2) with
  | none =>
    rw [hvalue] at h
    cases h
  | some m =>
    rw [hvalue] at h
    rw [← Except.ok.inj h]
    exact Int.natCast_nonneg m

theorem splits_of_ok {random : ℕ → ℕ → UInt8} {s : JsString} {n k : ℕ} {result : List JsString × List JsString}
    (h : splitSecretVSS random s n k = .ok result) : ∃ secret, Splits s n k secret := by
  unfold splitSecretVSS at h
  obtain ⟨hkn, h⟩ := throwIf_bind.mp h
  obtain ⟨hk, h⟩ := throwIf_bind.mp h
  obtain ⟨heven, h⟩ := throwIf_bind.mp h
  obtain ⟨secretBig, hsecret, h⟩ := (Guarded.bind_ok ..).mp h
  obtain ⟨hsmall, _⟩ := throwIf_bind.mp h
  obtain ⟨secret, rfl⟩ := Int.eq_ofNat_of_zero_le (bigInt_prefix_nonneg hsecret)
  exact ⟨secret, not_lt.mp hk, not_lt.mp hkn, not_not.mp heven, hsecret, by omega⟩

theorem cleanHex_lowerHex {s : JsString} (h : LowerHex s) : cleanHex s = s := by
  refine if_neg fun heq => ?_
  have hmem : (0x78 : UInt16) ∈ s := List.mem_of_mem_take (by rw [heq]; decide)
  exact absurd (h _ hmem) (by decide)

theorem lowerHex_written {s : JsString} (hhex : LowerHex s) (hne : s ≠ []) {secret : ℕ}
    (hsecret : bigInt (js "0x" ++ s) = .ok (secret : ℤ)) : padStart (toString16 secret) (some s.length) = s := by
  obtain ⟨digits, hdigits⟩ := hhex.digits hne
  have hvalue : hexValueOf digits = secret := by
    rw [bigInt_hex hdigits] at hsecret
    exact Int.natCast_inj.mp (Except.ok.inj hsecret)
  rw [← hvalue, hdigits.written]

/-- Every share of a secret is accepted, and any `k` of them or more, in any order, give its string back. -/
theorem splitSecretVSS_recover (random : ℕ → ℕ → UInt8) {s : JsString} (hhex : LowerHex s) (heven : s.length % 2 = 0)
    (hmin : 2 ≤ s.length) (hmax : s.length ≤ 254) {secret : ℕ} (hsecret : bigInt (js "0x" ++ s) = .ok (secret : ℤ))
    (hlt : secret < VSS_Q) {n k : ℕ} (hk : 1 ≤ k) (hkn : k ≤ n) (hn : n < VSS_Q) :
    ∃ shares commitments, splitSecretVSS random s n k = .ok (shares, commitments) ∧ shares.length = n ∧
      (∀ share ∈ shares, verifyShare share commitments = true) ∧
      ∀ chosen : List JsString, chosen.Nodup → (∀ share ∈ chosen, share ∈ shares) → k ≤ chosen.length →
        reconstructSecret chosen = .ok s := by
  have hclean := cleanHex_lowerHex hhex
  have hsplits : Splits s n k secret := ⟨hk, hkn, by rwa [hclean], by rwa [hclean], hlt⟩
  obtain ⟨as, hlength, hhead, _, hsplit⟩ := splitSecretVSS_eq random hsplits
  rw [hclean] at hsplit
  have hne : s ≠ [] := List.ne_nil_of_length_pos (by omega)
  have has : as ≠ [] := List.ne_nil_of_length_pos (by omega)
  have hlen : s.length < 256 := by omega
  refine ⟨_, _, hsplit, sharesOf_length _ _ _, sharesOf_verified hlen as n, fun chosen hnodup hmem hchosen => ?_⟩
  rw [sharesOf_recover hlen has (hhead ▸ hlt) hn hnodup hmem (hlength ▸ hchosen), hhead,
    lowerHex_written hhex hne hsecret]

/-- The secret `00ff`, two of three. -/
theorem splitSecretVSS_recover_three : ∃ shares commitments,
    splitSecretVSS (fun i j => UInt8.ofNat (i + j)) (js "00ff") 3 2 = .ok (shares, commitments) ∧ shares.length = 3 ∧
      (∀ share ∈ shares, verifyShare share commitments = true) ∧
      ∀ chosen : List JsString, chosen.Nodup → (∀ share ∈ chosen, share ∈ shares) → 2 ≤ chosen.length →
        reconstructSecret chosen = .ok (js "00ff") :=
  splitSecretVSS_recover _ (by decide) (by decide) (by decide) (by decide)
    (show bigInt (js "0x" ++ js "00ff") = .ok ((255 : ℕ) : ℤ) by decide) (by decide) (by decide) (by decide) (by decide)

end ChainGuard.OffChain.Secrets
