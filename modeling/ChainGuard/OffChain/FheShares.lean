import ChainGuard.OffChain.FheAggregates

/-! What the guardians hold: of each share a ciphertext that decrypts to it, whichever way the secret was
shared. -/
namespace ChainGuard.OffChain.Fhe
open LinearEncryption
set_option autoImplicit false

variable {n : ℕ} {sk : FHEPrivateKey} {random : Random}

theorem getBytes_serialize {ct : FHECiphertext} (h : ct.Reduced) : getBytes (serializeFheCiphertext ct) = ct.bytes := by
  have hdrop : ∀ hex, (js "0x" ++ hex).drop 2 = hex := fun hex => rfl
  rw [serialize_eq h, getBytes, hexlify, hdrop, bufferFromHex_hexString]

theorem decryptAggregate_spec {ct : FHECiphertext} (h : ct.Reduced) (hct : ct.a.length = n) (hpos : 1 ≤ n)
    (hsk : sk.s.length = n) : ∃ message : ℤ, 0 ≤ message ∧ message < FHE_PRIME ∧
      (message : Residue) = decrypt (sk.vector n) (ct.value n) ∧
      decryptAggregateCiphertext (hexlify ct.bytes) sk = .ok (hexString (word message.toNat)) := by
  obtain ⟨message, hok, hlow, hhigh, hvalue⟩ := decrypt_value hct hsk
  refine ⟨message, hlow, hhigh, hvalue, ?_⟩
  simp only [decryptAggregateCiphertext, deserialize_hexlify h (hct ▸ hpos), fheDecryptToHex, hok, bind, Except.bind,
    pure, Except.pure, bigIntToHex32_word ⟨hlow, hhigh⟩]

def Hides (sk : FHEPrivateKey) (n : ℕ) (hex : JsString) (message : Residue) : Prop :=
  ∃ ct : FHECiphertext, ct.Reduced ∧ ct.a.length = n ∧ hex = serializeFheCiphertext ct ∧
    decrypt (sk.vector n) (ct.value n) = message

def clientKeys (random : Random) : FHEKeypair := fheKeyGen random FHE_LWE_DIMENSION 4

theorem encrypt_hides (keyRandom random : Random) (plaintext : ℤ) :
    Hides (clientKeys keyRandom).privateKey FHE_LWE_DIMENSION
      (serializeFheCiphertext (fheEncrypt plaintext (clientKeys keyRandom).publicKey random)) plaintext := by
  have hsized : (clientKeys keyRandom).publicKey.Sized 4 FHE_LWE_DIMENSION := keyGen_sized _ _ (by decide)
  obtain ⟨hlength, hreduced⟩ := encrypt_reduced hsized (by decide) plaintext random
  obtain ⟨r, hvalue⟩ := encrypt_value hsized plaintext random
  refine ⟨_, hreduced, hlength, rfl, ?_⟩
  rw [hvalue, clientKeys, keyGen_values, decrypt_encrypt]

/-! ## Secrets -/

theorem secretToBigInt_hexString {secret : Bytes} (hlength : secret.length = 32)
    (hbelow : (natBE secret : ℤ) < FHE_PRIME) : secretToBigInt (hexString secret) = .ok (natBE secret) := by
  have hne : secret ≠ [] := by
    rintro rfl
    cases hlength
  have hplain : (hexString secret).take 2 ≠ js "0x" := by
    obtain ⟨x, rest, rfl⟩ := List.exists_cons_of_ne_nil hne
    obtain ⟨_, hlow⟩ := hexDigits_toNat x
    have hx : ∀ m : Fin 16, hexDigit m ≠ 0x78 := by decide
    intro h
    rw [hexString_cons] at h
    exact hx ⟨_, hlow⟩ (List.cons.inj (List.cons.inj h).2).1
  unfold secretToBigInt
  dsimp only
  rw [if_neg hplain, bigIntHex_hexString hne]
  exact congrArg Except.ok (modQ_of_lt (Int.natCast_nonneg _) hbelow)

/-! ## Shares -/

inductive Scheme
  | threshold
  | additive
  deriving DecidableEq

/-- The ciphertexts that the guardians are dealt. -/
def deal (scheme : Scheme) (secretHex : JsString) (n threshold : ℕ) (publicKey : FHEPublicKey) (random : Random) :
    Result (List JsString) :=
  match scheme with
  | .threshold => do
    let (_, sharesFHE) ← createThresholdSharesFHE secretHex n threshold publicKey random
    return sharesFHE.map Prod.snd
  | .additive => do
    let (_, sharesFHE) ← createAdditiveSharesFHE secretHex n publicKey random
    return sharesFHE

theorem cast_evaluate (coeffs : List ℤ) (x : ℤ) :
    (evaluate coeffs x : Residue) = horner (x : Residue) (coeffs.map fun c : ℤ => (c : Residue)) := by
  induction coeffs with
  | nil => exact Int.cast_zero
  | cons c coeffs ih =>
    show (modQ (evaluate coeffs x * x + c) : Residue) = horner _ _ * _ + _
    rw [cast_modQ, Int.cast_add, Int.cast_mul, ih]

/-- The residue that the guardian at a position holds a ciphertext of. -/
def shareAt (scheme : Scheme) (secretVal : ℤ) (n threshold : ℕ) (random : Random) (i : ℕ) : Residue :=
  match scheme with
  | .threshold =>
    horner ((i + 1 : ℕ) : Residue) ((coefficients secretVal threshold random).map fun c : ℤ => (c : Residue))
  | .additive =>
    if i + 1 < n then natBE (random i)
    else secretVal - ((List.range (n - 1)).map fun j => (natBE (random j) : Residue)).sum

theorem deal_threshold {secret : Bytes} (hlength : secret.length = 32) (hbelow : (natBE secret : ℤ) < FHE_PRIME)
    {threshold : ℕ} (h1 : 1 ≤ threshold) (hn : threshold ≤ n) (keyRandom random : Random) :
    ∃ shares, deal .threshold (hexString secret) n threshold (clientKeys keyRandom).publicKey random = .ok shares ∧
      ∀ i < n, Hides (clientKeys keyRandom).privateKey FHE_LWE_DIMENSION (shares.getD i [])
        (shareAt .threshold (natBE secret) n threshold random i) := by
  have hbounds : ¬ (threshold < 1 ∨ n < threshold) := by omega
  simp only [deal, createThresholdSharesFHE, if_neg hbounds, secretToBigInt_hexString hlength hbelow, bind,
    Except.bind, pure, Except.pure]
  refine ⟨_, rfl, fun i hi => ?_⟩
  rw [List.getD_eq_getElem _ _ (by simpa using hi)]
  simp only [List.getElem_map, List.getElem_mapIdx, List.getElem_range]
  have hhides := encrypt_hides keyRandom (random.from (threshold - 1 + i * (clientKeys keyRandom).publicKey.a.length))
    (evaluate (coefficients (natBE secret) threshold random) (i + 1 : ℕ))
  rw [cast_evaluate] at hhides
  simpa [shareAt] using hhides

theorem foldl_modQ (xs : List ℤ) (init : ℤ) :
    ((xs.foldl (fun sum share => modQ (sum + share)) init : ℤ) : Residue) = init + (xs.map fun x : ℤ => (x : Residue)).sum := by
  induction xs generalizing init with
  | nil => simp
  | cons x xs ih =>
    rw [List.foldl_cons, ih, cast_modQ, Int.cast_add, List.map_cons, List.sum_cons, add_assoc]

theorem getD_mapIdx {α β : Type} (f : ℕ → α → β) (xs : List α) (d : β) (d' : α) {i : ℕ} (hi : i < xs.length) :
    (xs.mapIdx f).getD i d = f i (xs.getD i d') := by
  rw [List.getD_eq_getElem _ _ (by simpa using hi), List.getElem_mapIdx, List.getD_eq_getElem _ _ hi]

theorem additive_share (secretVal : ℤ) (random : Random) (threshold : ℕ) (hn : 1 ≤ n) {i : ℕ} (hi : i < n)
    {drawn : List ℤ} (hdrawn : drawn = (List.range (n - 1)).map fun i => modQ (natBE (random i))) :
    ((drawn ++ [modQ (secretVal - drawn.foldl (fun sum share => modQ (sum + share)) 0)]).getD i 0 : Residue) =
      shareAt .additive secretVal n threshold random i := by
  have hlength : drawn.length = n - 1 := by rw [hdrawn, List.length_map, List.length_range]
  unfold shareAt
  dsimp only
  by_cases hlast : i + 1 < n
  · rw [if_pos hlast, List.getD_append _ _ _ _ (by omega), hdrawn, getD_map_range _ _ (by omega), cast_modQ,
      Int.cast_natCast]
  · have hsum : (drawn.map fun x : ℤ => (x : Residue)) =
        (List.range (n - 1)).map fun j => (natBE (random j) : Residue) := by
      rw [hdrawn, List.map_map]
      exact List.map_congr_left fun j _ => by rw [Function.comp_apply, cast_modQ, Int.cast_natCast]
    rw [if_neg hlast, List.getD_append_right _ _ _ _ (by omega), show i - drawn.length = 0 by omega,
      List.getD_cons_zero, cast_modQ, Int.cast_sub, foldl_modQ, hsum, Int.cast_zero, zero_add]

theorem deal_additive {secret : Bytes} (hlength : secret.length = 32) (hbelow : (natBE secret : ℤ) < FHE_PRIME)
    (hn : 1 ≤ n) (threshold : ℕ) (keyRandom random : Random) :
    ∃ shares, deal .additive (hexString secret) n threshold (clientKeys keyRandom).publicKey random = .ok shares ∧
      ∀ i < n, Hides (clientKeys keyRandom).privateKey FHE_LWE_DIMENSION (shares.getD i [])
        (shareAt .additive (natBE secret) n threshold random i) := by
  have hbounds : ¬ n < 1 := by omega
  simp only [deal, createAdditiveSharesFHE, if_neg hbounds, secretToBigInt_hexString hlength hbelow, bind,
    Except.bind, pure, Except.pure]
  refine ⟨_, rfl, fun i hi => ?_⟩
  rw [getD_mapIdx _ _ _ 0 (by simpa using by omega), ← additive_share _ random threshold hn hi rfl]
  exact encrypt_hides keyRandom _ _

theorem deal_spec {secret : Bytes} (hlength : secret.length = 32) (hbelow : (natBE secret : ℤ) < FHE_PRIME)
    {threshold : ℕ} (h1 : 1 ≤ threshold) (hn : threshold ≤ n) (scheme : Scheme) (keyRandom random : Random) :
    ∃ shares, deal scheme (hexString secret) n threshold (clientKeys keyRandom).publicKey random = .ok shares ∧
      ∀ i < n, Hides (clientKeys keyRandom).privateKey FHE_LWE_DIMENSION (shares.getD i [])
        (shareAt scheme (natBE secret) n threshold random i) := by
  cases scheme with
  | threshold => exact deal_threshold hlength hbelow h1 hn keyRandom random
  | additive => exact deal_additive hlength hbelow (h1.trans hn) threshold keyRandom random

/-! ## What shares add up to -/

def SumsToSecret (scheme : Scheme) (secretVal : ℤ) (n threshold : ℕ) (random : Random) (order : List ℕ) : Prop :=
  (order.map (shareAt scheme secretVal n threshold random)).sum = secretVal

theorem sumsToSecret_additive (secretVal : ℤ) (threshold : ℕ) (random : Random) (hn : 1 ≤ n) {order : List ℕ}
    (horder : order.Nodup) (hlt : ∀ i ∈ order, i < n) (hall : order.length = n) :
    SumsToSecret .additive secretVal n threshold random order := by
  have hperm : order.Perm (List.range n) := by
    refine List.Subperm.perm_of_length_le ?_ (by rw [List.length_range, hall])
    exact horder.subperm fun i hi => List.mem_range.mpr (hlt i hi)
  unfold SumsToSecret
  rw [(hperm.map _).sum_eq]
  obtain ⟨k, rfl⟩ : ∃ k, n = k + 1 := ⟨n - 1, by omega⟩
  have hdrawn : (List.range k).map (shareAt .additive secretVal (k + 1) threshold random) =
      (List.range k).map fun j => (natBE (random j) : Residue) :=
    List.map_congr_left fun j hj => if_pos (Nat.succ_lt_succ (List.mem_range.mp hj))
  rw [List.range_succ, List.map_append, List.sum_append, hdrawn]
  simp [shareAt]

/-- Whether the values of the dealer's polynomial at the indices of these guardians add up to the secret:
the `k`-th coefficient counts as often as the `k`-th powers of the indices add up to. -/
def WeighsToSecret (secretVal : ℤ) (threshold : ℕ) (random : Random) (order : List ℕ) : Prop :=
  weightedSum (order.map fun i => ((i + 1 : ℕ) : Residue)) 0
    ((coefficients secretVal threshold random).map fun c : ℤ => (c : Residue)) = secretVal

theorem sumsToSecret_threshold_iff {secretVal : ℤ} {threshold : ℕ} {order : List ℕ} :
    SumsToSecret .threshold secretVal n threshold random order ↔ WeighsToSecret secretVal threshold random order := by
  rw [SumsToSecret, WeighsToSecret, ← sum_horner, List.map_map]
  rfl

end ChainGuard.OffChain.Fhe
