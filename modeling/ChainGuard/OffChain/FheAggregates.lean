import ChainGuard.Library.Loops
import ChainGuard.Library.PrimeCertificates
import ChainGuard.OffChain.Fhe

/-! What the two aggregations decrypt to: the value at zero of the polynomial that the shares lie on, and
the sum of the messages. -/
namespace ChainGuard.OffChain.Fhe
open LinearEncryption Polynomial
set_option autoImplicit false

theorem prime_FHE_PRIME : FHE_PRIME.toNat.Prime := by
  refine Lucas.prime_of_table [2, 3, 5, 7, 11, 29, 31, 53, 971, 1373, 1627, 2621, 2657, 4423, 5323, 7723, 13441,
    20113, 24809, 41201, 96557] ?_
    ⟨FHE_PRIME.toNat, 3, [2, 3, 7, 13441, 205115282021455665897114700593932402728804164701536103180137503955397371]⟩
    [⟨205115282021455665897114700593932402728804164701536103180137503955397371, 10, [2, 3, 5, 29, 29, 31, 7723,
        132896956044521568488119, 255515944373312847190720520512484175977]⟩,
      ⟨255515944373312847190720520512484175977, 3, [2, 2, 2, 7, 7, 11, 1627, 2657, 4423, 41201, 96557, 7240687,
        107590001]⟩,
      ⟨107590001, 3, [2, 2, 2, 2, 5, 5, 5, 5, 7, 29, 53]⟩,
      ⟨7240687, 3, [2, 3, 1206781]⟩,
      ⟨1206781, 10, [2, 2, 3, 5, 20113]⟩,
      ⟨132896956044521568488119, 6, [2, 3, 22149492674086928081353]⟩,
      ⟨22149492674086928081353, 5, [2, 2, 2, 3, 5323, 173378833005251801]⟩,
      ⟨173378833005251801, 6, [2, 2, 2, 5, 5, 2621, 24809, 13331831]⟩,
      ⟨13331831, 13, [2, 5, 971, 1373]⟩] (by decide +kernel)
  simp only [List.forall_mem_cons]
  norm_num

instance : Fact FHE_PRIME.toNat.Prime := ⟨prime_FHE_PRIME⟩

variable {n m : ℕ} {sk : FHEPrivateKey}

/-! ## Powers and inverses -/

/-- A number in range stands for a residue. -/
def Represents (a : ℤ) (x : Residue) : Prop := 0 ≤ a ∧ a < FHE_PRIME ∧ (a : Residue) = x

theorem represents_modQ (a : ℤ) : Represents (modQ a) a := ⟨modQ_nonneg a, modQ_lt a, cast_modQ a⟩

theorem Represents.eq_val {a : ℤ} {x : Residue} (h : Represents a x) : a = (x.val : ℤ) := by
  obtain ⟨hlow, hhigh, hcast⟩ := h
  have hval : (x.val : ℤ) < FHE_PRIME :=
    calc (x.val : ℤ) < FHE_PRIME.toNat := Int.ofNat_lt.mpr (ZMod.val_lt x)
      _ = FHE_PRIME := FHE_PRIME_toNat
  refine eq_of_cast_eq ⟨hlow, hhigh⟩ ⟨Int.natCast_nonneg _, hval⟩ ?_
  rw [hcast, Int.cast_natCast, ZMod.natCast_zmod_val]

theorem modPowQ_value (base : ℤ) (exp : ℕ) :
    ∃ r, modPowQ base exp = .ok r ∧ Represents r ((base : Residue) ^ exp) := by
  have hstep : ∀ (a b : ℤ) (x y : Residue), Represents a x → Represents b y →
      ∃ r, (Except.ok (modQ (a * b)) : Result ℤ) = .ok r ∧ Represents r (x * y) := by
    intro a b x y ha hb
    refine ⟨_, rfl, modQ_nonneg _, modQ_lt _, ?_⟩
    rw [cast_modQ, Int.cast_mul, ha.2.2, hb.2.2]
  have hone : Represents 1 1 := ⟨by decide, by decide, Int.cast_one⟩
  obtain ⟨r, hloop, hr⟩ := BinaryPower.loop_spec hstep (fun b y hb => hstep b b y y hb hb) (exp.log2 + 1)
    Nat.lt_log2_self hone (represents_modQ base)
  refine ⟨r, hloop, ?_⟩
  rwa [one_mul] at hr

theorem cast_eq_zero_iff {a : ℤ} : (a : Residue) = 0 ↔ modQ a = 0 := by
  constructor
  · intro h
    refine eq_of_cast_eq ⟨modQ_nonneg a, modQ_lt a⟩ ⟨le_refl 0, by decide⟩ ?_
    rw [cast_modQ, h, Int.cast_zero]
  · intro h
    rw [← cast_modQ, h, Int.cast_zero]

theorem modInverseQ_value {a : ℤ} (h : (a : Residue) ≠ 0) :
    ∃ r, modInverseQ a = .ok r ∧ (r : Residue) = (a : Residue)⁻¹ := by
  obtain ⟨r, hpow, hr⟩ := modPowQ_value (modQ a) (FHE_PRIME.toNat - 2)
  have hexponent : ((FHE_PRIME.toNat - 2 : ℕ) : ℤ) = FHE_PRIME - 2 := by decide
  rw [hexponent] at hpow
  refine ⟨r, ?_, ?_⟩
  · unfold modInverseQ
    dsimp only
    rw [if_neg (fun hzero => h (cast_eq_zero_iff.mpr hzero)), hpow]
  · rw [hr.2.2, cast_modQ]
    exact (BinaryPower.inv_eq_pow (by decide) _).symm

theorem modInverseQ_zero {a : ℤ} (h : (a : Residue) = 0) :
    modInverseQ a = .error (.error "Division by zero in modular inverse") :=
  if_pos (cast_eq_zero_iff.mp h)

/-! ## Lagrange coefficients -/

/-- The point at an index, modulo the prime. -/
def pointAt (points : List ℤ) (i : ℕ) : Residue := (points.getD i 0 : ℤ)

theorem numeratorDenominator_value (points : List ℤ) {i : ℕ} :
    ((numeratorDenominator points i).1 : Residue) =
        ∏ j ∈ (Finset.range points.length).erase i, pointAt points j ∧
      ((numeratorDenominator points i).2 : Residue) =
        ∏ j ∈ (Finset.range points.length).erase i, (pointAt points j - pointAt points i) := by
  unfold numeratorDenominator
  generalize points.length = k
  induction k with
  | zero => simp
  | succ k ih =>
    rw [List.range_succ, List.foldl_append, List.foldl_cons, List.foldl_nil]
    generalize (List.range k).foldl _ (1, 1) = acc at ih
    obtain ⟨hnum, hden⟩ := ih
    by_cases hik : i = k
    · subst hik
      rw [if_pos rfl, hnum, hden]
      have hsame : (Finset.range (i + 1)).erase i = (Finset.range i).erase i := by
        rw [Finset.range_add_one, Finset.erase_insert_eq_erase]
      rw [hsame]
      exact ⟨rfl, rfl⟩
    · have hinsert : (Finset.range (k + 1)).erase i = insert k ((Finset.range k).erase i) := by
        rw [Finset.range_add_one, Finset.erase_insert_of_ne (Ne.symm hik)]
      have hnot : k ∉ (Finset.range k).erase i := by simp
      rw [if_neg hik, hinsert, Finset.prod_insert hnot, Finset.prod_insert hnot]
      simp only [cast_modQ, Int.cast_mul, Int.cast_sub, hnum, hden]
      exact ⟨mul_comm _ _, mul_comm _ _⟩

theorem pointAt_modQ (indices : List ℤ) : pointAt (indices.map modQ) = pointAt indices := by
  funext i
  by_cases hi : i < indices.length
  · rw [pointAt, pointAt, List.getD_eq_getElem _ _ (by simpa using hi), List.getElem_map, cast_modQ,
      List.getD_eq_getElem _ _ hi]
  · rw [pointAt, pointAt, List.getD_eq_default _ _ (by simpa using hi), List.getD_eq_default _ _ (by simpa using hi)]

/-- The points that the coefficients are computed for are distinct modulo the prime. -/
def Distinct (indices : List ℤ) : Prop := (indices.map fun x : ℤ => (x : Residue)).Nodup

instance (indices : List ℤ) : Decidable (Distinct indices) := inferInstanceAs (Decidable (List.Nodup _))

theorem distinct_iff {indices : List ℤ} :
    Distinct indices ↔ Set.InjOn (pointAt indices) (Finset.range indices.length) := by
  rw [Distinct, List.nodup_iff_injective_getElem]
  constructor
  · intro hinj i hi j hj hij
    have hi' : i < indices.length := by simpa using hi
    have hj' : j < indices.length := by simpa using hj
    rw [pointAt, pointAt, List.getD_eq_getElem _ _ hi', List.getD_eq_getElem _ _ hj'] at hij
    exact Fin.mk.inj (@hinj ⟨i, by simpa using hi'⟩ ⟨j, by simpa using hj'⟩ (by simpa using hij))
  · rintro hinj ⟨i, hi⟩ ⟨j, hj⟩ hij
    have hi' : i < indices.length := by simpa using hi
    have hj' : j < indices.length := by simpa using hj
    refine Fin.ext (hinj (by simpa using hi') (by simpa using hj') ?_)
    rw [pointAt, pointAt, List.getD_eq_getElem _ _ hi', List.getD_eq_getElem _ _ hj']
    simpa using hij

/-- The weight of the point at an index for the value at zero. -/
def lagrangeWeight (indices : List ℤ) (i : ℕ) : Residue :=
  (∏ j ∈ (Finset.range indices.length).erase i, pointAt indices j) *
    (∏ j ∈ (Finset.range indices.length).erase i, (pointAt indices j - pointAt indices i))⁻¹

theorem lagrangeCoefficients_value {indices : List ℤ} (h : Distinct indices) :
    ∃ lambdas, computeLagrangeCoefficients indices = .ok lambdas ∧
      List.Forall₂ (fun i (lambda : ℤ) => (lambda : Residue) = lagrangeWeight indices i)
        (List.range indices.length) lambdas := by
  unfold computeLagrangeCoefficients
  dsimp only
  rw [List.length_map]
  refine Loops.exists_mapM fun i hi => ?_
  obtain ⟨hnum, hden⟩ := numeratorDenominator_value (indices.map modQ) (i := i)
  rw [List.length_map, pointAt_modQ] at hnum hden
  have hne : ((numeratorDenominator (indices.map modQ) i).2 : Residue) ≠ 0 := by
    rw [hden, Finset.prod_ne_zero_iff]
    intro j hj hzero
    obtain ⟨hij, hj⟩ := Finset.mem_erase.mp hj
    exact hij (distinct_iff.mp h hj (Finset.mem_range.mpr (List.mem_range.mp hi)) (sub_eq_zero.mp hzero))
  obtain ⟨inverse, hok, hinverse⟩ := modInverseQ_value hne
  refine ⟨_, by rw [hok]; rfl, ?_⟩
  rw [cast_modQ, Int.cast_mul, hnum, hinverse, hden, lagrangeWeight]

theorem lagrangeCoefficients_error {indices : List ℤ} (h : ¬ Distinct indices) :
    ∃ e, computeLagrangeCoefficients indices = .error e := by
  rw [distinct_iff, Set.InjOn] at h
  push Not at h
  obtain ⟨i, hi, j, hj, hij, hne⟩ := h
  obtain ⟨_, hden⟩ := numeratorDenominator_value (indices.map modQ) (i := i)
  rw [List.length_map, pointAt_modQ] at hden
  have hzero : ((numeratorDenominator (indices.map modQ) i).2 : Residue) = 0 := by
    rw [hden]
    exact Finset.prod_eq_zero (Finset.mem_erase.mpr ⟨Ne.symm hne, hj⟩) (sub_eq_zero.mpr hij.symm)
  unfold computeLagrangeCoefficients
  dsimp only
  refine Loops.mapM_error (a := i) (by simpa using hi) (e := .error "Division by zero in modular inverse") ?_
  rw [modInverseQ_zero hzero]
  rfl

/-! ## Sums of ciphertexts -/

theorem scalarMul_value {ct : FHECiphertext} (scalar : ℤ) :
    (fheScalarMul scalar ct).a.length = ct.a.length ∧
      (fheScalarMul scalar ct).value n = (scalar : Residue) • ct.value n := by
  refine ⟨by simp [fheScalarMul], Prod.ext ?_ ?_⟩
  · funext j
    simp only [fheScalarMul, FHECiphertext.value, Prod.smul_fst, Pi.smul_apply, smul_eq_mul]
    by_cases hj : (j : ℕ) < ct.a.length
    · rw [List.getD_eq_getElem _ _ (by simpa using hj), List.getElem_map, cast_modQ, Int.cast_mul, cast_modQ,
        List.getD_eq_getElem _ _ hj, mul_comm]
    · rw [List.getD_eq_default _ _ (by simpa using hj), List.getD_eq_default _ _ (by simpa using hj), Int.cast_zero,
        mul_zero]
  · simp only [fheScalarMul, FHECiphertext.value, Prod.smul_snd, smul_eq_mul, cast_modQ, Int.cast_mul]
    exact mul_comm _ _

theorem foldlM_value {acc : FHECiphertext} {terms : List FHECiphertext} (hacc : acc.a.length = n)
    (hterms : ∀ ct ∈ terms, ct.a.length = n) : ∃ sum, terms.foldlM fheAdd acc = .ok sum ∧ sum.a.length = n ∧
      sum.value n = acc.value n + (terms.map (FHECiphertext.value · n)).sum := by
  induction terms generalizing acc with
  | nil => exact ⟨acc, rfl, hacc, by simp⟩
  | cons ct terms ih =>
    obtain ⟨next, hnext, hlength, _, _, hvalue⟩ := fheAdd_sum hacc (hterms ct List.mem_cons_self)
    obtain ⟨sum, hsum, hsumLength, hsumValue⟩ := ih hlength fun c hc => hterms c (List.mem_cons_of_mem ct hc)
    refine ⟨sum, ?_, hsumLength, ?_⟩
    · rw [List.foldlM_cons, hnext]
      exact hsum
    · rw [hsumValue, hvalue, List.map_cons, List.sum_cons, add_assoc]

/-! ## Aggregates of encrypted shares -/

/-- A ciphertext of a message; a key without rows encrypts nothing, for it has no first row to measure. -/
def Encrypts (pk : FHEPublicKey) (message : Residue) (ct : FHECiphertext) : Prop :=
  pk.a ≠ [] ∧ ∃ (plaintext : ℤ) (random : Random), (plaintext : Residue) = message ∧
    ct = fheEncrypt plaintext pk random

variable {keyRandom : Random} {message : Residue} {ct : FHECiphertext}

theorem Encrypts.decrypt_value (h : Encrypts (fheKeyGen keyRandom n m).publicKey message ct) :
    ct.a.length = n ∧ decrypt ((fheKeyGen keyRandom n m).privateKey.vector n) (ct.value n) = message := by
  obtain ⟨hrows, plaintext, random, rfl, rfl⟩ := h
  have hm : 0 < m := by
    rw [Nat.pos_iff_ne_zero]
    rintro rfl
    exact hrows rfl
  have hsized := keyGen_sized keyRandom n hm
  obtain ⟨r, hvalue⟩ := encrypt_value hsized plaintext random
  refine ⟨encrypt_length hsized plaintext random, ?_⟩
  rw [hvalue, keyGen_values, decrypt_encrypt]

theorem fheDecrypt_value (hct : ct.a.length = n) :
    fheDecrypt ct (fheKeyGen keyRandom n m).privateKey =
      .ok ((decrypt ((fheKeyGen keyRandom n m).privateKey.vector n) (ct.value n)).val : ℤ) := by
  obtain ⟨message, hok, hlow, hhigh, hvalue⟩ :=
    @decrypt_value n ct (fheKeyGen keyRandom n m).privateKey hct (by simp [fheKeyGen])
  rw [hok, Represents.eq_val ⟨hlow, hhigh, hvalue⟩]

theorem foldlM_decrypt {acc : FHECiphertext} {terms : List FHECiphertext}
    (hterms : ∀ ct ∈ acc :: terms, ct.a.length = n) :
    (terms.foldlM fheAdd acc >>= (fheDecrypt · (fheKeyGen keyRandom n m).privateKey)) =
      .ok ((((acc :: terms).map fun ct =>
        decrypt ((fheKeyGen keyRandom n m).privateKey.vector n) (ct.value n)).sum).val : ℤ) := by
  obtain ⟨sum, hsum, hlength, hvalue⟩ := foldlM_value (hterms acc List.mem_cons_self)
    fun ct hct => hterms ct (List.mem_cons_of_mem acc hct)
  rw [hsum]
  show fheDecrypt sum _ = _
  rw [fheDecrypt_value hlength, hvalue, map_add, map_list_sum, List.map_map, List.map_cons, List.sum_cons]
  rfl

theorem encrypts_all {messages : List Residue} {cts : List FHECiphertext}
    (h : List.Forall₂ (Encrypts (fheKeyGen keyRandom n m).publicKey) messages cts) :
    (∀ ct ∈ cts, ct.a.length = n) ∧
      (cts.map fun ct => decrypt ((fheKeyGen keyRandom n m).privateKey.vector n) (ct.value n)) = messages := by
  induction h with
  | nil => exact ⟨fun ct hct => (List.not_mem_nil hct).elim, rfl⟩
  | cons hct _ ih =>
    obtain ⟨hlength, hmessage⟩ := hct.decrypt_value
    refine ⟨?_, ?_⟩
    · intro c hc
      obtain rfl | hc := List.mem_cons.mp hc
      · exact hlength
      · exact ih.1 c hc
    · rw [List.map_cons, hmessage, ih.2]

theorem additiveAggregate_decrypt {messages : List Residue} {cts cts' : List FHECiphertext} (hne : cts ≠ [])
    (h : List.Forall₂ (Encrypts (fheKeyGen keyRandom n m).publicKey) messages cts) (hperm : cts'.Perm cts) :
    (fheAdditiveAggregate cts' >>= (fheDecrypt · (fheKeyGen keyRandom n m).privateKey)) =
      .ok (messages.sum.val : ℤ) := by
  obtain ⟨hlength, hmessages⟩ := encrypts_all h
  cases cts' with
  | nil => exact absurd (List.nil_perm.mp hperm) hne
  | cons acc terms =>
    have hsum := @foldlM_decrypt n m keyRandom acc terms fun ct hct => hlength ct (hperm.mem_iff.mp hct)
    rw [(hperm.map _).sum_eq, hmessages] at hsum
    exact hsum

theorem sum_map_range (g : ℕ → Residue) (k : ℕ) : ((List.range k).map g).sum = ∑ i ∈ Finset.range k, g i := rfl

theorem thresholdAggregate_decrypt {t : ℕ} {f : Residue[X]} {shares : List FHEThresholdShare} (hf : f.natDegree < t)
    (henough : t ≤ shares.length) (hdistinct : Distinct ((shares.take t).map FHEThresholdShare.index))
    (hshares : ∀ share ∈ shares.take t,
      Encrypts (fheKeyGen keyRandom n m).publicKey (f.eval (share.index : Residue)) share.ciphertext) :
    (fheThresholdAggregate shares t >>= (fheDecrypt · (fheKeyGen keyRandom n m).privateKey)) =
      .ok ((f.eval 0).val : ℤ) := by
  obtain ⟨lambdas, hlambdas, hweights⟩ := lagrangeCoefficients_value hdistinct
  generalize hactive : shares.take t = active at hdistinct hshares hlambdas hweights
  have hcount : active.length = t := by rw [← hactive, List.length_take, min_eq_left henough]
  have hlength : lambdas.length = t := by
    rw [← hweights.length_eq, List.length_range, List.length_map, hcount]
  have hterms : ∀ ct ∈ List.zipWith (fun lambda share => fheScalarMul lambda share.ciphertext) lambdas active,
      ct.a.length = n := by
    intro ct hct
    obtain ⟨i, hi, rfl⟩ := List.getElem_of_mem hct
    rw [List.getElem_zipWith, (scalarMul_value (n := n) _).1]
    exact (hshares _ (List.getElem_mem _)).decrypt_value.1
  have hvalues : (List.zipWith (fun lambda share => fheScalarMul lambda share.ciphertext) lambdas active).map
      (fun ct => decrypt ((fheKeyGen keyRandom n m).privateKey.vector n) (ct.value n)) =
        (List.range t).map fun i => lagrangeWeight (active.map FHEThresholdShare.index) i *
          f.eval (pointAt (active.map FHEThresholdShare.index) i) := by
    refine List.ext_getElem (by simp [hlength, hcount]) fun i hi hi' => ?_
    have hit : i < t := by simpa using hi'
    have hweight : (lambdas[i] : Residue) = lagrangeWeight (active.map FHEThresholdShare.index) i := by
      have hat := hweights.get (i := i) (by simpa [hcount] using hit) (by omega)
      simpa using hat
    have hpoint : pointAt (active.map FHEThresholdShare.index) i = (active[i].index : Residue) := by
      rw [pointAt, List.getD_eq_getElem _ _ (by simpa [hcount] using hit), List.getElem_map]
    rw [List.getElem_map, List.getElem_map, List.getElem_zipWith, List.getElem_range, (scalarMul_value _).2,
      decrypt_smul, hweight, hpoint, (hshares _ (List.getElem_mem _)).decrypt_value.2]
  have hzero : ((List.range t).map fun i => lagrangeWeight (active.map FHEThresholdShare.index) i *
      f.eval (pointAt (active.map FHEThresholdShare.index) i)).sum = f.eval 0 := by
    have hdegree : f.degree < (Finset.range t).card := by
      rw [Finset.card_range]
      exact Polynomial.degree_le_natDegree.trans_lt (Nat.cast_lt.mpr hf)
    have hinj := distinct_iff.mp hdistinct
    rw [List.length_map, hcount] at hinj
    rw [sum_map_range, ← sum_lagrange (Finset.range t) hinj hdegree]
    simp only [lagrangeWeight, List.length_map, hcount]
  unfold fheThresholdAggregate
  dsimp only
  rw [if_neg (not_lt.mpr henough), hactive, hlambdas]
  cases hzip : List.zipWith (fun lambda share => fheScalarMul lambda share.ciphertext) lambdas active with
  | nil =>
    have hnone := congrArg List.length hzip
    rw [List.length_zipWith, hlength, hcount, min_self, List.length_nil] at hnone
    omega
  | cons acc terms =>
    rw [hzip] at hterms hvalues
    have hsum := @foldlM_decrypt n m keyRandom acc terms hterms
    rw [hvalues, hzero] at hsum
    simpa only [bind, Except.bind, hzip] using hsum

theorem thresholdAggregate_error {t : ℕ} {shares : List FHEThresholdShare}
    (h : ¬ Distinct ((shares.take t).map FHEThresholdShare.index)) : ∃ e, fheThresholdAggregate shares t = .error e := by
  obtain ⟨e, he⟩ := lagrangeCoefficients_error h
  unfold fheThresholdAggregate
  dsimp only
  split
  · exact ⟨_, rfl⟩
  · rw [he]
    exact ⟨e, rfl⟩

/-- Under every key pair, shares on a polynomial of low degree aggregate to its value at zero whatever the
distinct points, ciphertexts to the sum of their messages in any order, and coinciding points throw. -/
theorem fhe_aggregates_decrypt (keyRandom : Random) (n m : ℕ) :
    (∀ (t : ℕ) (f : Residue[X]) (shares : List FHEThresholdShare), f.natDegree < t → t ≤ shares.length →
      (∀ share ∈ shares,
        Encrypts (fheKeyGen keyRandom n m).publicKey (f.eval (share.index : Residue)) share.ciphertext) →
      Distinct ((shares.take t).map FHEThresholdShare.index) →
        (fheThresholdAggregate shares t >>= (fheDecrypt · (fheKeyGen keyRandom n m).privateKey)) =
          .ok ((f.eval 0).val : ℤ)) ∧
    (∀ messages cts cts', cts ≠ [] → List.Forall₂ (Encrypts (fheKeyGen keyRandom n m).publicKey) messages cts →
      cts'.Perm cts →
        (fheAdditiveAggregate cts' >>= (fheDecrypt · (fheKeyGen keyRandom n m).privateKey)) =
          .ok (messages.sum.val : ℤ)) ∧
    ∀ (t : ℕ) (shares : List FHEThresholdShare), ¬ Distinct ((shares.take t).map FHEThresholdShare.index) →
      ∃ e, fheThresholdAggregate shares t = .error e :=
  ⟨fun _ _ _ hf henough hshares hdistinct => thresholdAggregate_decrypt hf henough hdistinct
      fun share hmem => hshares share (List.mem_of_mem_take hmem),
    fun _ _ _ hne h hperm => additiveAggregate_decrypt hne h hperm, fun _ _ h => thresholdAggregate_error h⟩

def countingDraws : Random := fun i => bytesBE 32 (2 ^ 250 + i)

def sampleKeys : FHEKeypair := fheKeyGen countingDraws 2 3

/-- Shares on the line `2x + 3`. -/
def lineShares : List FHEThresholdShare :=
  [⟨1, fheEncrypt 5 sampleKeys.publicKey (countingDraws.from 8)⟩,
    ⟨2, fheEncrypt 7 sampleKeys.publicKey (countingDraws.from 11)⟩]

theorem fhe_aggregates_decrypt_line :
    (fheThresholdAggregate lineShares 2 >>= (fheDecrypt · sampleKeys.privateKey)) = .ok 3 ∧
    (fheAdditiveAggregate (lineShares.map FHEThresholdShare.ciphertext).reverse >>=
      (fheDecrypt · sampleKeys.privateKey)) = .ok 12 ∧
    ∃ e, fheThresholdAggregate (lineShares.map fun share => { share with index := 1 }) 2 = .error e := by
  have hrows : sampleKeys.publicKey.a ≠ [] := List.cons_ne_nil _ _
  have hfive : Encrypts sampleKeys.publicKey 5 (fheEncrypt 5 sampleKeys.publicKey (countingDraws.from 8)) :=
    ⟨hrows, 5, _, by norm_num, rfl⟩
  have hseven : Encrypts sampleKeys.publicKey 7 (fheEncrypt 7 sampleKeys.publicKey (countingDraws.from 11)) :=
    ⟨hrows, 7, _, by norm_num, rfl⟩
  obtain ⟨hthreshold, hadditive, hthrows⟩ := fhe_aggregates_decrypt countingDraws 2 3
  refine ⟨?_, ?_, hthrows 2 _ (by decide +kernel)⟩
  · have hzero : (((C 2 * X + C 3 : Residue[X]).eval 0).val : ℤ) = 3 := by
      simp only [eval_add, eval_mul, eval_C, eval_X, mul_zero, zero_add]
      decide +kernel
    rw [← hzero]
    refine hthreshold 2 (C 2 * X + C 3) lineShares (natDegree_linear_le.trans_lt (by decide)) (le_refl 2) ?_
      (by decide +kernel)
    intro share hshare
    obtain rfl | hshare := List.mem_cons.mp hshare
    · have hvalue : (C 2 * X + C 3 : Residue[X]).eval ((1 : ℤ) : Residue) = 5 := by
        simp only [eval_add, eval_mul, eval_C, eval_X]
        norm_num
      rw [hvalue]
      exact hfive
    · obtain rfl := List.mem_singleton.mp hshare
      have hvalue : (C 2 * X + C 3 : Residue[X]).eval ((2 : ℤ) : Residue) = 7 := by
        simp only [eval_add, eval_mul, eval_C, eval_X]
        norm_num
      rw [hvalue]
      exact hseven
  · have hsum : ((([5, 7] : List Residue).sum).val : ℤ) = 12 := by decide +kernel
    rw [← hsum]
    exact hadditive [5, 7] (lineShares.map FHEThresholdShare.ciphertext) _ (List.cons_ne_nil _ _)
      (.cons hfive (.cons hseven .nil)) (List.reverse_perm _)

end ChainGuard.OffChain.Fhe
