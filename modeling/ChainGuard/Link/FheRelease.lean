import ChainGuard.Evm.FheApprovals
import ChainGuard.OffChain.FheShares

/-! From the dealer's shares over the approvals to the secret that the beneficiary decrypts: the contract
adds up the ciphertexts as the client's engine does, so that the accumulator hides the sum of the shares
that were submitted. -/
namespace ChainGuard.Link
open Guarded History OffChain OffChain.Fhe
set_option autoImplicit false

/-! ## One addition for both sides -/

theorem bytes_eq_ciphertext (ct : FHECiphertext) : ct.bytes = Evm.FHEEngine.ciphertext ct.words := by
  have hlength : ct.words.length - 1 = ct.a.length := by simp [FHECiphertext.words]
  rw [FHECiphertext.bytes, Evm.FHEEngine.ciphertext, hlength]

theorem words_lt {ct : FHECiphertext} (h : ct.Reduced) : ∀ w ∈ ct.words, w < 2 ^ 256 := by
  intro w hw
  rcases List.mem_append.mp hw with hw | hw
  · obtain ⟨x, hx, rfl⟩ := List.mem_map.mp hw
    exact word_of_residue (h.a x hx)
  · rw [List.mem_singleton.mp hw]
    exact word_of_residue h.b

theorem toNat_modQ_add {x y : ℤ} (hx : 0 ≤ x) (hy : 0 ≤ y) :
    (modQ (x + y)).toNat = (x.toNat + y.toNat) % Evm.FHEEngine.FHE_PRIME := by
  obtain ⟨x, rfl⟩ := Int.eq_ofNat_of_zero_le hx
  obtain ⟨y, rfl⟩ := Int.eq_ofNat_of_zero_le hy
  rw [modQ_eq_emod]
  rfl

theorem fheAdd_bytes {ct ct' sum : FHECiphertext} (h : ct.Reduced) (h' : ct'.Reduced) (hpos : 1 ≤ ct.a.length)
    (hsmall : ct.a.length < 2 ^ 249) (hsum : Fhe.fheAdd ct ct' = .ok sum) :
    Evm.FHEEngine.fheAdd ct.bytes ct'.bytes = .ok sum.bytes := by
  unfold Fhe.fheAdd at hsum
  split at hsum
  case isTrue => cases hsum
  case isFalse hdimension =>
    have hdimension : ct.a.length = ct'.a.length := not_not.mp hdimension
    obtain rfl := Except.ok.inj hsum
    have hlength : ct.words.length = ct.a.length + 1 := by simp [FHECiphertext.words]
    have hlength' : ct'.words.length = ct'.a.length + 1 := by simp [FHECiphertext.words]
    rw [bytes_eq_ciphertext, bytes_eq_ciphertext, bytes_eq_ciphertext,
      Evm.FHEEngine.fheAdd_ciphertext (by rw [hlength, hlength', hdimension]) (by omega) (by omega)
        (words_lt h) (words_lt h')]
    congr 2
    unfold FHECiphertext.words Evm.FHEEngine.addWords
    rw [List.zipWith_append (by simp [hdimension]), List.zipWith_map, List.map_zipWith]
    congr 1
    · refine List.ext_getElem (by simp) fun i hi hi' => ?_
      rw [List.getElem_zipWith, List.getElem_zipWith]
      exact (toNat_modQ_add (h.a _ (List.getElem_mem _)).1 (h'.a _ (List.getElem_mem _)).1).symm
    · exact congrArg (fun w => [w]) (toNat_modQ_add h.b.1 h'.b.1).symm

variable {n : ℕ}

theorem foldlM_fheAdd {ct : FHECiphertext} (h : ct.Reduced) (hct : ct.a.length = n) (hpos : 1 ≤ n)
    (hsmall : n < 2 ^ 249) {cts : List FHECiphertext} (hcts : ∀ c ∈ cts, c.Reduced ∧ c.a.length = n) :
    ∃ sum : FHECiphertext, (cts.map FHECiphertext.bytes).foldlM Evm.FHEEngine.fheAdd ct.bytes = .ok sum.bytes ∧
      sum.Reduced ∧ sum.a.length = n ∧ sum.value n = ct.value n + (cts.map fun c => c.value n).sum := by
  induction cts generalizing ct with
  | nil => exact ⟨ct, rfl, h, hct, by rw [List.map_nil, List.sum_nil, add_zero]⟩
  | cons c cts ih =>
    obtain ⟨hc, hclength⟩ := hcts c (List.mem_cons_self ..)
    obtain ⟨both, hboth, hlength, hreduced, hvalue⟩ := fheAdd_value hct hclength (by
      have hprime : (2 : ℤ) ^ 249 < FHE_PRIME := by decide
      omega)
    have hchain := fheAdd_bytes h hc (hct ▸ hpos) (hct ▸ hsmall) hboth
    obtain ⟨sum, hsum, hsumReduced, hsumLength, hsumValue⟩ :=
      ih hreduced hlength fun c' hc' => hcts c' (List.mem_cons_of_mem _ hc')
    refine ⟨sum, ?_, hsumReduced, hsumLength, ?_⟩
    · rw [List.map_cons, List.foldlM_cons, hchain]
      exact hsum
    · rw [hsumValue, hvalue, List.map_cons, List.sum_cons, add_assoc]

/-! ## The accumulator hides the sum of the submitted shares -/

variable {sk : FHEPrivateKey}

theorem hidden_ciphertexts {payloads : List JsString} {messages : List Residue}
    (h : List.Forall₂ (Hides sk n) payloads messages) :
    ∃ cts : List FHECiphertext, (∀ c ∈ cts, c.Reduced ∧ c.a.length = n) ∧
      payloads = cts.map serializeFheCiphertext ∧
      messages = cts.map fun c => LinearEncryption.decrypt (sk.vector n) (c.value n) := by
  induction h with
  | nil => exact ⟨[], fun c hc => absurd hc List.not_mem_nil, rfl, rfl⟩
  | cons hfirst _ ih =>
    obtain ⟨ct, hreduced, hlength, rfl, rfl⟩ := hfirst
    obtain ⟨cts, hcts, rfl, rfl⟩ := ih
    refine ⟨ct :: cts, ?_, rfl, rfl⟩
    intro c hc
    rcases List.mem_cons.mp hc with rfl | hc
    · exact ⟨hreduced, hlength⟩
    · exact hcts c hc

theorem map_getBytes {cts : List FHECiphertext} (h : ∀ c ∈ cts, c.Reduced) :
    (cts.map serializeFheCiphertext).map getBytes = cts.map FHECiphertext.bytes := by
  induction cts with
  | nil => rfl
  | cons c cts ih =>
    rw [List.map_cons, List.map_cons, List.map_cons, getBytes_serialize (h c (List.mem_cons_self ..)),
      ih fun c' hc' => h c' (List.mem_cons_of_mem _ hc')]

theorem aggregate_spec (hpos : 1 ≤ n) (hsmall : n < 2 ^ 249) (hsk : sk.s.length = n) {payloads : List JsString}
    {messages : List Residue} (hhides : List.Forall₂ (Hides sk n) payloads messages) (hne : payloads ≠ [])
    {acc : Bytes} (hacc : (payloads.map getBytes).foldlM Evm.FHEEngine.fheAdd [] = .ok acc) :
    ∃ message : ℤ, 0 ≤ message ∧ message < FHE_PRIME ∧ (message : Residue) = messages.sum ∧
      decryptAggregateCiphertext (hexlify acc) sk = .ok (hexString (word message.toNat)) := by
  obtain ⟨cts, hcts, rfl, rfl⟩ := hidden_ciphertexts hhides
  have hnonempty : cts ≠ [] := by
    rintro rfl
    exact hne rfl
  obtain ⟨ct, cts, rfl⟩ := List.exists_cons_of_ne_nil hnonempty
  obtain ⟨hreduced, hlength⟩ := hcts ct (List.mem_cons_self ..)
  have hrest : ∀ c ∈ cts, c.Reduced ∧ c.a.length = n := fun c hc => hcts c (List.mem_cons_of_mem _ hc)
  obtain ⟨sum, hsum, hsumReduced, hsumLength, hsumValue⟩ := foldlM_fheAdd hreduced hlength hpos hsmall hrest
  rw [map_getBytes fun c hc => (hcts c hc).1, List.map_cons, List.foldlM_cons] at hacc
  obtain rfl : sum.bytes = acc := Except.ok.inj (hsum.symm.trans hacc)
  obtain ⟨message, hlow, hhigh, hvalue, hdecrypted⟩ := decryptAggregate_spec hsumReduced hsumLength hpos hsk
  refine ⟨message, hlow, hhigh, ?_, hdecrypted⟩
  rw [hvalue, hsumValue, map_add, map_list_sum, List.map_map, List.map_cons, List.sum_cons]
  rfl

/-! ## Release at the threshold -/

variable {L : Type} {chain : Evm.Chain} {nft : Evm.ERC721 L} {s : Evm.State L}
  {hist : List (Transition (Evm.State L) Evm.Invocation)}

/-- The submissions of guardians who pass on the ciphertexts that they were dealt. -/
def submissionsOf (guardians : ℕ → Evm.Address) (shares : List JsString) (order : List ℕ) :
    List (Evm.Address × Bytes) :=
  order.map fun i => (guardians i, getBytes (shares.getD i []))

/-- Whether the shares were additive, or the dealer's polynomial weighs these guardians so. -/
def Releases (scheme : Scheme) (secretVal : ℤ) (threshold : ℕ) (random : Random) (order : List ℕ) : Prop :=
  scheme = .additive ∨ WeighsToSecret secretVal threshold random order

/-- Once the guardians in `order` have submitted what they were dealt, whatever else the contract did in
between, the accumulator decrypts to the secret exactly when their shares add up to it. -/
theorem fhe_release_iff (h : Evm.VaultRun chain nft hist s) {r t n : ℕ} (h1 : 1 ≤ t) (htn : t ≤ n)
    {secret : Bytes} (hlength : secret.length = 32) (hbelow : (natBE secret : ℤ) < FHE_PRIME)
    {keyRandom random : Random} {scheme : Scheme} (hscheme : scheme = .additive → t = n)
    {shares : List JsString}
    (hdeal : deal scheme (hexString secret) n t (clientKeys keyRandom).publicKey random = .ok shares)
    {guardians : ℕ → Evm.Address} {order : List ℕ} (horder : order.Nodup) (hdealt : ∀ i ∈ order, i < n)
    (hcount : order.length = t) (hsubmitted : Evm.submissions r hist = submissionsOf guardians shares order) :
    decryptAggregateCiphertext (hexlify (s.requests.fheRequestAccumulator r)) (clientKeys keyRandom).privateKey =
        .ok (hexString secret) ↔
      Releases scheme (natBE secret) t random order := by
  obtain ⟨shares', hdeal', hhides⟩ := deal_spec hlength hbelow h1 htn scheme keyRandom random
  obtain rfl : shares' = shares := Except.ok.inj (hdeal'.symm.trans hdeal)
  have hpayloads : (Evm.submissions r hist).map Prod.snd = (order.map fun i => shares'.getD i []).map getBytes := by
    rw [hsubmitted, submissionsOf, List.map_map, List.map_map]
    rfl
  have hacc := Evm.accumulator_eq h r
  rw [hpayloads] at hacc
  have hheld : List.Forall₂ (Hides (clientKeys keyRandom).privateKey FHE_LWE_DIMENSION)
      (order.map fun i => shares'.getD i []) (order.map (shareAt scheme (natBE secret) n t random)) := by
    rw [List.forall₂_map_left_iff, List.forall₂_map_right_iff, List.forall₂_same]
    exact fun i hi => hhides i (hdealt i hi)
  have hne : (order.map fun i => shares'.getD i []) ≠ [] := by
    intro hnil
    rw [List.map_eq_nil_iff.mp hnil, List.length_nil] at hcount
    omega
  obtain ⟨message, hlow, hhigh, hvalue, hdecrypted⟩ :=
    aggregate_spec (by decide) (by decide) (by simp [clientKeys, fheKeyGen]) hheld hne hacc
  have hsums : decryptAggregateCiphertext (hexlify (s.requests.fheRequestAccumulator r))
      (clientKeys keyRandom).privateKey = .ok (hexString secret) ↔
        SumsToSecret scheme (natBE secret) n t random order := by
    rw [hdecrypted, SumsToSecret, ← hvalue]
    constructor
    · intro hok
      have hbytes : word message.toNat = secret := hexString_injective (Except.ok.inj hok)
      rw [← hbytes, natBE_word, Nat.mod_eq_of_lt (word_of_residue ⟨hlow, hhigh⟩), Int.toNat_of_nonneg hlow]
    · intro hsame
      have hmessage := eq_of_cast_eq ⟨hlow, hhigh⟩ ⟨Int.natCast_nonneg _, hbelow⟩ hsame
      have hword : word (natBE secret) = secret := by
        conv_rhs => rw [← bytesBE_natBE secret, hlength]
        rfl
      rw [hmessage, Int.toNat_natCast, hword]
  rw [hsums]
  cases scheme with
  | threshold =>
    rw [sumsToSecret_threshold_iff]
    exact ⟨.inr, fun hreleases => hreleases.resolve_left (by decide)⟩
  | additive =>
    have hall : order.length = n := hcount.trans (hscheme rfl)
    exact ⟨fun _ => .inl rfl, fun _ => sumsToSecret_additive _ _ _ (h1.trans htn) horder hdealt hall⟩

/-! ## Two guardians -/

/-- Draws without bytes, which count as zeros. -/
def noDraws : Random := fun _ => []

/-- The calls by which guardians 1 and 2 submit these payloads for request 1. -/
def twoApprovals (first second : Bytes) : List Evm.Invocation :=
  Evm.openedRequest ++ [(Evm.callBy 1 106, .approval (.approveAccessFHE 1 first)),
    (Evm.callBy 2 107, .approval (.approveAccessFHE 1 second))]

/-- The payload of a ciphertext without a mask. -/
def unmasked (x : ℕ) : Bytes := [2, 0, 0, x].flatMap word

def guardianAt (i : ℕ) : Evm.Address := BitVec.ofNat 160 (i + 1)

theorem fhe_release_additive : ∃ hist s, Evm.VaultRun Evm.localChain Evm.ERC721.standard hist s ∧
    decryptAggregateCiphertext (hexlify (s.requests.fheRequestAccumulator 1)) (clientKeys noDraws).privateKey =
      .ok (hexString (word 1)) := by
  obtain ⟨hist, s, hrun, hend⟩ := Evm.exists_run Evm.localChain Evm.ERC721.standard 7
    (twoApprovals (unmasked 0) (unmasked 1))
    (fun hist _ => decide (Evm.submissions 1 hist = [(1, unmasked 0), (2, unmasked 1)])) (by decide +kernel)
  have hdeal : deal .additive (hexString (word 1)) 2 2 (clientKeys noDraws).publicKey noDraws =
      .ok [hexlify (unmasked 0), hexlify (unmasked 1)] := by decide +kernel
  have hsubmitted : Evm.submissions 1 hist =
      submissionsOf guardianAt [hexlify (unmasked 0), hexlify (unmasked 1)] [0, 1] :=
    (of_decide_eq_true hend).trans (by decide +kernel)
  exact ⟨hist, s, hrun, (fhe_release_iff hrun (by decide) (le_refl 2) (by decide) (by decide) (fun _ => rfl) hdeal
    (by decide) (by decide) rfl hsubmitted).mpr (.inl rfl)⟩

theorem fhe_release_threshold_fails : ∃ shares hist s,
    deal .threshold (hexString (word 1)) 2 2 (clientKeys noDraws).publicKey noDraws = .ok shares ∧
      Evm.VaultRun Evm.localChain Evm.ERC721.standard hist s ∧
      (s.governance.vaults (Evm.requestVault s 1)).approvalThreshold = 2 ∧
      Evm.submissions 1 hist = submissionsOf guardianAt shares [0, 1] ∧
      decryptAggregateCiphertext (hexlify (s.requests.fheRequestAccumulator 1)) (clientKeys noDraws).privateKey ≠
        .ok (hexString (word 1)) := by
  obtain ⟨hist, s, hrun, hend⟩ := Evm.exists_run Evm.localChain Evm.ERC721.standard 7
    (twoApprovals (unmasked 1) (unmasked 1))
    (fun hist s => decide ((s.governance.vaults (Evm.requestVault s 1)).approvalThreshold = 2 ∧
      Evm.submissions 1 hist = submissionsOf guardianAt [hexlify (unmasked 1), hexlify (unmasked 1)] [0, 1] ∧
      decryptAggregateCiphertext (hexlify (s.requests.fheRequestAccumulator 1)) (clientKeys noDraws).privateKey ≠
        .ok (hexString (word 1)))) (by decide +kernel)
  exact ⟨_, hist, s, by decide +kernel, hrun, of_decide_eq_true hend⟩

end ChainGuard.Link
