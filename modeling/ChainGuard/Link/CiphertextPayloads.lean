import ChainGuard.Evm.FheApprovals
import ChainGuard.OffChain.Fhe
import ChainGuard.OffChain.ShareStrings

/-! The payloads that `deserializeFheCiphertext` accepts. It reads as many words as the header says and looks at nothing
behind them; it takes a last word that is cut short, and reduces no word. -/
namespace ChainGuard.Link
open Guarded OffChain
open OffChain.Fhe (FHECiphertext serializeFheCiphertext deserializeFheCiphertext bigIntHex bigIntToHex32 readWords
  FHE_PRIME modQ)
open OffChain.Secrets (LowerHex hexValueOf)
set_option autoImplicit false

variable {hex hexInput : JsString} {ct : FHECiphertext}

/-! ## Words of digits -/

def payloadDigits (hexInput : JsString) : JsString :=
  if hexInput.take 2 = js "0x" then hexInput.drop 2 else hexInput

/-- The digits of a word, fewer than 64 at the end. -/
def wordDigits (hex : JsString) (i : ℕ) : JsString := (hex.drop (64 * i)).take 64

def wordAt (hex : JsString) (i : ℕ) : ℕ := (hexNat (wordDigits hex i)).getD 0

theorem hexNat_digits {digits : List ℕ} (h : ∀ d ∈ digits, d < 16) :
    hexNat (digits.map hexDigit) = some (hexValueOf digits) := by
  suffices hfold : ∀ n, (digits.map hexDigit).foldl (fun acc c => acc.bind fun n => (hexValue c).map (16 * n + ·))
      (some n) = some (digits.foldl (fun acc d => acc * 16 + d) n) from hfold 0
  induction digits with
  | nil => exact fun n => rfl
  | cons d digits ih =>
    intro n
    rw [List.map_cons, List.foldl_cons, List.foldl_cons, hexValue_hexDigit (h d List.mem_cons_self), Nat.mul_comm n]
    exact ih (fun d hd => h d (List.mem_cons_of_mem _ hd)) _

theorem bigIntHex_lower {s : JsString} (h : LowerHex s) (hne : s ≠ []) :
    bigIntHex s = .ok (((hexNat s).getD 0 : ℕ) : ℤ) := by
  obtain ⟨digits, rfl, hlt, _⟩ := h.digits hne
  have hlast : ∀ c ∈ (digits.map hexDigit).reverse, isWhiteSpace c = false := by
    intro c hc
    obtain ⟨d, hd, rfl⟩ := List.mem_map.mp (List.mem_reverse.mp hc)
    exact Secrets.hexDigit_not_space (hlt d hd)
  have hkept : ((digits.map hexDigit).reverse.dropWhile isWhiteSpace).reverse = digits.map hexDigit := by
    cases hreverse : (digits.map hexDigit).reverse with
    | nil => exact absurd (List.reverse_eq_nil_iff.mp hreverse) hne
    | cons c rest =>
      rw [hreverse] at hlast
      rw [List.dropWhile_cons_of_neg (by rw [hlast c List.mem_cons_self]; decide), ← hreverse, List.reverse_reverse]
  rw [bigIntHex, hkept, hexNat_digits hlt]
  exact if_neg hne

theorem wordDigits_length {i : ℕ} (hlong : 64 * (i + 1) ≤ hex.length) : (wordDigits hex i).length = 64 := by
  rw [wordDigits, List.length_take, List.length_drop]
  omega

theorem wordDigits_lower (h : LowerHex hex) (i : ℕ) : LowerHex (wordDigits hex i) := fun c hc =>
  h c (List.mem_of_mem_drop (List.mem_of_mem_take hc))

theorem wordDigits_ne_nil {i : ℕ} : wordDigits hex i ≠ [] ↔ 64 * i < hex.length := by
  rw [← List.length_pos_iff, wordDigits, List.length_take, List.length_drop]
  omega

theorem bigIntHex_wordDigits (h : LowerHex hex) {i : ℕ} (hlong : 64 * i < hex.length) :
    bigIntHex (wordDigits hex i) = .ok (wordAt hex i : ℤ) :=
  bigIntHex_lower (wordDigits_lower h i) (wordDigits_ne_nil.mpr hlong)

theorem wordDigits_eq (h : LowerHex hex) {i : ℕ} (hlong : 64 * (i + 1) ≤ hex.length) :
    wordDigits hex i = hexString (word (wordAt hex i)) ∧ wordAt hex i < 2 ^ 256 := by
  have hlength := wordDigits_length hlong
  obtain ⟨digits, hdigits, hlt, _⟩ :=
    (wordDigits_lower h i).digits (List.ne_nil_of_length_pos (by rw [hlength]; decide))
  have hvalue : wordAt hex i = hexValueOf digits := by rw [wordAt, hdigits, hexNat_digits hlt, Option.getD_some]
  rw [hdigits, List.length_map] at hlength
  have hbound := Nat.ofDigits_lt_base_pow_length (b := 16) (by decide) (l := digits.reverse)
    fun d hd => hlt d (List.mem_reverse.mp hd)
  rw [← Secrets.hexValueOf_eq, List.length_reverse, hlength] at hbound
  rw [hvalue, hdigits]
  exact ⟨Fhe.digits_word hlength hlt, hbound.trans_eq (by norm_num)⟩

theorem take_words (hex : JsString) (n : ℕ) : hex.take (64 * n) = (List.range n).flatMap (wordDigits hex) := by
  induction n with
  | zero => rfl
  | succ n ih =>
    rw [List.range_succ, List.flatMap_append, ← ih, Nat.mul_succ, List.take_add, List.flatMap_singleton]
    rfl

/-! ## What is accepted -/

theorem readWords_eq (h : LowerHex hex) (n k : ℕ) (hlong : 64 * (k + n) < hex.length) :
    readWords n (hex.drop (64 * k)) =
      .ok ((List.range' k n).map fun i => (wordAt hex i : ℤ), hex.drop (64 * (k + n))) := by
  induction n generalizing k with
  | zero => rfl
  | succ n ih =>
    have hdrop : (hex.drop (64 * k)).drop 64 = hex.drop (64 * (k + 1)) := by rw [List.drop_drop]; rfl
    have hfirst : bigIntHex ((hex.drop (64 * k)).take 64) = .ok (wordAt hex k : ℤ) :=
      bigIntHex_wordDigits h (by omega)
    rw [readWords, hfirst, hdrop, ih (k + 1) (by omega), List.range'_succ, List.map_cons,
      show k + 1 + n = k + (n + 1) by omega]
    rfl

theorem readWords_rest {n : ℕ} {a : List ℤ} {rest : JsString} (h : readWords n hex = .ok (a, rest)) :
    rest = hex.drop (64 * n) := by
  induction n generalizing hex a rest with
  | zero =>
    obtain ⟨_, rfl⟩ := Prod.mk.inj (Except.ok.inj h)
    rfl
  | succ n ih =>
    obtain ⟨first, _, h⟩ := (bind_ok ..).mp h
    obtain ⟨⟨more, after⟩, hmore, h⟩ := (bind_ok ..).mp h
    obtain ⟨_, rfl⟩ := Prod.mk.inj ((pure_ok _ _).mp h)
    rw [ih hmore, List.drop_drop, Nat.mul_succ, Nat.add_comm]

theorem bigIntHex_nil (n : ℤ) : bigIntHex [] ≠ .ok n := by
  intro h
  cases h

/-- The words after the header, as many as it says, and one more. -/
def readCiphertext (hex : JsString) : FHECiphertext :=
  ⟨(List.range' 1 (wordAt hex 0)).map fun i => (wordAt hex i : ℤ), wordAt hex (wordAt hex 0 + 1)⟩

theorem readCiphertext_length (hex : JsString) : (readCiphertext hex).a.length = wordAt hex 0 := by
  rw [readCiphertext, List.length_map, List.length_range']

theorem deserialize_ok (h : LowerHex (payloadDigits hexInput)) : deserializeFheCiphertext hexInput = .ok ct ↔
    192 ≤ (payloadDigits hexInput).length ∧
      64 * (wordAt (payloadDigits hexInput) 0 + 1) < (payloadDigits hexInput).length ∧
      readCiphertext (payloadDigits hexInput) = ct := by
  have hbody : deserializeFheCiphertext hexInput = (do
      if (payloadDigits hexInput).length < 64 * 3 then
        .error (.error ("Invalid FHE ciphertext payload length: " ++ toString (payloadDigits hexInput).length))
      let n ← bigIntHex ((payloadDigits hexInput).take 64)
      let words ← readWords n.toNat ((payloadDigits hexInput).drop 64)
      let b ← bigIntHex (words.2.take 64)
      return { a := words.1, b }) := rfl
  rw [hbody]
  generalize payloadDigits hexInput = hex at h
  by_cases hshort : hex.length < 64 * 3
  · rw [if_pos hshort]
    exact iff_of_false (fun herror => by cases herror) fun hlong => by omega
  have hheader : bigIntHex (hex.take 64) = .ok (wordAt hex 0 : ℤ) := @bigIntHex_wordDigits hex h 0 (by omega)
  rw [if_neg hshort]
  dsimp only
  rw [hheader, ok_bind, Int.toNat_natCast]
  by_cases hlong : 64 * (1 + wordAt hex 0) < hex.length
  · have hlast : bigIntHex ((hex.drop (64 * (1 + wordAt hex 0))).take 64) = .ok (wordAt hex (1 + wordAt hex 0) : ℤ) :=
      bigIntHex_wordDigits h hlong
    have hwords := readWords_eq h (wordAt hex 0) 1 hlong
    rw [Nat.mul_one] at hwords
    rw [hwords, ok_bind]
    dsimp only
    rw [hlast, ok_bind, pure_ok, readCiphertext, Nat.add_comm 1]
    exact ⟨fun heq => ⟨by omega, by omega, heq⟩, fun hread => hread.2.2⟩
  · refine iff_of_false (fun hok => ?_) fun hread => hlong (by omega)
    obtain ⟨⟨a, rest⟩, hwords, hok⟩ := (bind_ok ..).mp hok
    obtain ⟨b, hb, _⟩ := (bind_ok ..).mp hok
    have hrest : rest = [] := by
      rw [readWords_rest hwords, List.drop_drop]
      exact List.drop_eq_nil_of_le (by omega)
    rw [hrest] at hb
    exact bigIntHex_nil b hb

/-! ## What is written back -/

theorem flatMap_inj {f g : ℕ → JsString} {l : List ℕ} (hf : ∀ i ∈ l, (f i).length = 64) (hg : ∀ i ∈ l, (g i).length = 64)
    (h : l.flatMap f = l.flatMap g) : ∀ i ∈ l, f i = g i := by
  induction l with
  | nil => exact fun i hi => absurd hi List.not_mem_nil
  | cons j l ih =>
    rw [List.flatMap_cons, List.flatMap_cons] at h
    obtain ⟨hfirst, hrest⟩ := List.append_inj h ((hf j List.mem_cons_self).trans (hg j List.mem_cons_self).symm)
    exact List.forall_mem_cons.mpr ⟨hfirst, ih (fun i hi => hf i (List.mem_cons_of_mem _ hi))
      (fun i hi => hg i (List.mem_cons_of_mem _ hi)) hrest⟩

theorem serialize_read (hex : JsString) : serializeFheCiphertext (readCiphertext hex) =
    js "0x" ++ (List.range (wordAt hex 0 + 2)).flatMap fun i => bigIntToHex32 (wordAt hex i) := by
  have hrange : List.range (wordAt hex 0 + 2) = 0 :: (List.range' 1 (wordAt hex 0) ++ [wordAt hex 0 + 1]) := by
    rw [List.range_eq_range', List.range'_succ, List.range'_1_concat, Nat.add_comm 1]
  rw [serializeFheCiphertext, readCiphertext_length, hrange, List.flatMap_cons, List.flatMap_append,
    List.flatMap_singleton, readCiphertext, List.flatMap_map, List.append_assoc, List.append_assoc]

theorem modQ_eq_iff (w : ℕ) : (modQ w).toNat = w ↔ w < FHE_PRIME.toNat := by
  have hprime : (FHE_PRIME.toNat : ℤ) = FHE_PRIME := rfl
  constructor
  · intro h
    have hlt := Fhe.modQ_lt (w : ℤ)
    have hnonneg := Fhe.modQ_nonneg (w : ℤ)
    omega
  · intro h
    rw [Fhe.modQ_of_lt (Int.natCast_nonneg w) (by omega), Int.toNat_natCast]

theorem words_of_length (h : LowerHex hex) {n : ℕ} (hlength : hex.length = 64 * n) :
    hex = (List.range n).flatMap fun i => hexString (word (wordAt hex i)) := by
  have hwords := take_words hex n
  rw [← hlength, List.take_length] at hwords
  refine hwords.trans (List.flatMap_congr fun i hi => ?_)
  have hlt := List.mem_range.mp hi
  exact (wordDigits_eq h (by omega)).1

theorem rewritten_iff (h : LowerHex hex) (hlength : hex.length = 64 * (wordAt hex 0 + 2)) :
    serializeFheCiphertext (readCiphertext hex) = js "0x" ++ hex ↔
      ∀ i < wordAt hex 0 + 2, wordAt hex i < FHE_PRIME.toNat := by
  have hwidth : ∀ w, (hexString (word w)).length = 64 := fun w => by rw [hexString_length, word_length]
  have hprime : FHE_PRIME < 2 ^ 256 := by decide
  rw [serialize_read, List.append_cancel_left_eq]
  constructor
  · intro hsame i hi
    have hword := flatMap_inj (fun i _ => by rw [Fhe.bigIntToHex32_eq, hwidth]) (fun i _ => hwidth _)
      (hsame.trans (words_of_length h hlength)) i (List.mem_range.mpr hi)
    rw [Fhe.bigIntToHex32_eq] at hword
    refine (modQ_eq_iff _).mp (word_inj ?_ (wordDigits_eq h (by omega)).2 (hexString_injective hword))
    have hlt := Fhe.modQ_lt (wordAt hex i : ℤ)
    omega
  · intro hreduced
    refine Eq.trans (List.flatMap_congr fun i hi => ?_) (words_of_length h hlength).symm
    rw [Fhe.bigIntToHex32_eq, (modQ_eq_iff _).mpr (hreduced i (List.mem_range.mp hi))]

/-! ## What the contract adds -/

def zeroCiphertext (n : ℕ) : Bytes := Evm.FHEEngine.ciphertext (List.replicate (n + 1) 0)

/-- The words behind the header. -/
def bodyWords (hex : JsString) : List ℕ := (List.range' 1 (wordAt hex 0 + 1)).map (wordAt hex)

theorem bodyWords_length (hex : JsString) : (bodyWords hex).length = wordAt hex 0 + 1 := by
  rw [bodyWords, List.length_map, List.length_range']

theorem bytes_of_length (h : LowerHex hex) (hlength : hex.length = 64 * (wordAt hex 0 + 2)) :
    bufferFromHex hex = Evm.FHEEngine.ciphertext (bodyWords hex) := by
  have hbytes : hex = hexString (Evm.FHEEngine.ciphertext (bodyWords hex)) := by
    rw [Evm.FHEEngine.ciphertext, bodyWords_length, Fhe.hexString_words, Nat.add_sub_cancel, bodyWords,
      ← List.map_cons, List.flatMap_map]
    conv_lhs => rw [words_of_length h hlength, List.range_eq_range', List.range'_succ]
  conv_lhs => rw [hbytes, bufferFromHex_hexString]

theorem addWords_zero {body : List ℕ} (h : ∀ w ∈ body, w < Evm.FHEEngine.FHE_PRIME) :
    Evm.FHEEngine.addWords body (List.replicate body.length 0) = body := by
  refine List.ext_getElem (by simp [Evm.FHEEngine.addWords]) fun i hi hi' => ?_
  simp only [Evm.FHEEngine.addWords, List.getElem_zipWith, List.getElem_replicate, Nat.add_zero]
  exact Nat.mod_eq_of_lt (h _ (List.getElem_mem hi'))

theorem added_zero (h : LowerHex hex) (hlength : hex.length = 64 * (wordAt hex 0 + 2)) (hlong : 192 ≤ hex.length)
    (hsmall : hex.length < 2 ^ 53) (hreduced : ∀ i < wordAt hex 0 + 1, wordAt hex (i + 1) < FHE_PRIME.toNat) :
    Evm.FHEEngine.fheAdd (bufferFromHex hex) (zeroCiphertext (wordAt hex 0)) = .ok (bufferFromHex hex) := by
  have hprime : Evm.FHEEngine.FHE_PRIME < 2 ^ 256 := by decide
  have hbody : ∀ w ∈ bodyWords hex, w < Evm.FHEEngine.FHE_PRIME := by
    intro w hw
    obtain ⟨i, hi, rfl⟩ := List.mem_map.mp hw
    rw [List.mem_range'_1] at hi
    have hlt := hreduced (i - 1) (by omega)
    rwa [Nat.sub_add_cancel hi.1] at hlt
  have hcount := bodyWords_length hex
  rw [bytes_of_length h hlength, zeroCiphertext, ← hcount, Evm.FHEEngine.fheAdd_ciphertext
    (List.length_replicate).symm (by omega) (by omega) (fun w hw => (hbody w hw).trans hprime), addWords_zero hbody]
  intro w hw
  rw [List.eq_of_mem_replicate hw]
  decide

/-! ## Exact payloads -/

/-- The digits are the words of the ciphertext and no more; they are written back as they are, and the contract adds
them to zeros as they are. -/
structure ExactPayload (hex : JsString) (ct : FHECiphertext) : Prop where
  length : hex.length = 64 * (ct.a.length + 2)
  rewritten : serializeFheCiphertext ct = js "0x" ++ hex
  added : Evm.FHEEngine.fheAdd (bufferFromHex hex) (zeroCiphertext ct.a.length) = .ok (bufferFromHex hex)

/-- The digits end before the last word that the header announces, so that they are refused; or they end with it, and
every word is reduced. -/
def AsAnnounced (hex : JsString) : Prop :=
  hex.length < 192 ∨ hex.length ≤ 64 * (wordAt hex 0 + 1) ∨
    hex.length = 64 * (wordAt hex 0 + 2) ∧ ∀ i < wordAt hex 0 + 1, wordAt hex (i + 1) < FHE_PRIME.toNat

theorem exactPayload_iff (h : LowerHex hex) (hlong : 192 ≤ hex.length) (hsmall : hex.length < 2 ^ 53) :
    ExactPayload hex (readCiphertext hex) ↔ hex.length = 64 * (wordAt hex 0 + 2) ∧
      ∀ i < wordAt hex 0 + 1, wordAt hex (i + 1) < FHE_PRIME.toNat := by
  constructor
  · rintro ⟨hlength, hrewritten, _⟩
    rw [readCiphertext_length] at hlength
    exact ⟨hlength, fun i hi => (rewritten_iff h hlength).mp hrewritten (i + 1) (by omega)⟩
  · rintro ⟨hlength, hreduced⟩
    refine ⟨by rw [readCiphertext_length, hlength], (rewritten_iff h hlength).mpr fun i hi => ?_, ?_⟩
    · cases i with
      | zero =>
        have hprime : 2 ^ 53 < FHE_PRIME := by decide
        omega
      | succ i => exact hreduced i (by omega)
    · rw [readCiphertext_length]
      exact added_zero h hlength hlong hsmall hreduced

/-- A ciphertext is read back from its payload. What is accepted is an exact payload, unless the digits reach into the
last word that the header announces and do not end with it, or a word is not reduced. -/
theorem payloads_exact_iff {ct : FHECiphertext} (hcomponents : 1 ≤ ct.a.length) (harray : ct.a.length < 2 ^ 32)
    (ha : ∀ x ∈ ct.a, 0 ≤ x ∧ x < FHE_PRIME) (hb : 0 ≤ ct.b ∧ ct.b < FHE_PRIME) {hexInput : JsString}
    (hlower : LowerHex (payloadDigits hexInput)) (hstring : hexInput.length < 2 ^ 53) :
    deserializeFheCiphertext (serializeFheCiphertext ct) = .ok ct ∧
      ((∀ ct', deserializeFheCiphertext hexInput = .ok ct' → ExactPayload (payloadDigits hexInput) ct') ↔
        AsAnnounced (payloadDigits hexInput)) := by
  have hreduced : ct.Reduced := by
    have hprime : 2 ^ 32 < FHE_PRIME := by decide
    exact ⟨ha, hb, by omega⟩
  have hsmall : (payloadDigits hexInput).length < 2 ^ 53 := by
    rw [payloadDigits]
    split
    · rw [List.length_drop]
      omega
    · exact hstring
  refine ⟨by rw [Fhe.serialize_eq hreduced, Fhe.deserialize_hexlify hreduced hcomponents], ?_⟩
  simp only [deserialize_ok hlower]
  generalize payloadDigits hexInput = hex at hlower hsmall
  by_cases haccepted : 192 ≤ hex.length ∧ 64 * (wordAt hex 0 + 1) < hex.length
  · have hexact := exactPayload_iff hlower haccepted.1 hsmall
    constructor
    · intro hall
      exact Or.inr (Or.inr (hexact.mp (hall _ ⟨haccepted.1, haccepted.2, rfl⟩)))
    · rintro (hshort | hshort | hends) ct' ⟨_, _, rfl⟩
      · omega
      · omega
      · exact hexact.mpr hends
  · refine iff_of_true (fun ct' hread => absurd ⟨hread.1, hread.2.1⟩ haccepted) ?_
    rw [AsAnnounced]
    omega

/-- A ciphertext of one component, in a payload without the prefix. -/
theorem payloads_exact_one :
    deserializeFheCiphertext (serializeFheCiphertext ⟨[2], 3⟩) = .ok ⟨[2], 3⟩ ∧
      ∀ ct, deserializeFheCiphertext (hexString ([1, 2, 3].flatMap word)) = .ok ct →
        ExactPayload (payloadDigits (hexString ([1, 2, 3].flatMap word))) ct := by
  have hlower : LowerHex (payloadDigits (hexString ([1, 2, 3].flatMap word))) := by decide +kernel
  have hannounced : AsAnnounced (payloadDigits (hexString ([1, 2, 3].flatMap word))) :=
    Or.inr (Or.inr ⟨by decide +kernel, by decide +kernel⟩)
  obtain ⟨hread, hexact⟩ := @payloads_exact_iff ⟨[2], 3⟩ (by decide) (by decide) (by decide) (by decide) _
    hlower (by decide +kernel)
  exact ⟨hread, hexact.mpr hannounced⟩

/-- Of the last word of a ciphertext of two components one digit is left, and it is accepted. -/
def truncatedPayload : JsString := js "0x" ++ hexString ([2, 5, 7].flatMap word) ++ js "1"

theorem truncated_accepted : LowerHex (payloadDigits truncatedPayload) ∧
    deserializeFheCiphertext truncatedPayload = .ok ⟨[5, 7], 1⟩ ∧
    ¬ ExactPayload (payloadDigits truncatedPayload) ⟨[5, 7], 1⟩ := by
  refine ⟨by decide +kernel, by decide +kernel, fun hexact => ?_⟩
  have hlength := hexact.length
  revert hlength
  decide +kernel

end ChainGuard.Link
