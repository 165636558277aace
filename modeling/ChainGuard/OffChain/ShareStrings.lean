import ChainGuard.OffChain.Secrets
import Mathlib.Data.List.TakeWhile

/-! The strings of the shares and of the commitments: what is written is read back. -/
namespace ChainGuard.OffChain.Secrets
set_option autoImplicit false

/-! ## Hexadecimal digits -/

/-- The number of digits, the high one first. -/
def hexValueOf (digits : List ℕ) : ℕ := digits.foldl (fun acc d => acc * 16 + d) 0

/-- A string of digits below 16, which may start with zeros. -/
structure Hex (s : JsString) (digits : List ℕ) : Prop where
  string : s = digits.map hexDigit
  digit : ∀ d ∈ digits, d < 16
  ne_nil : digits ≠ []

theorem hexValueOf_zeros (k : ℕ) (digits : List ℕ) : hexValueOf (List.replicate k 0 ++ digits) = hexValueOf digits := by
  induction k with
  | zero => rfl
  | succ k ih => exact ih

theorem hexValueOf_eq (digits : List ℕ) : hexValueOf digits = Nat.ofDigits 16 digits.reverse := by
  induction digits using List.reverseRecOn with
  | nil => rfl
  | append_singleton digits d ih =>
    rw [hexValueOf, List.foldl_append, List.reverse_append, List.reverse_singleton, List.singleton_append,
      Nat.ofDigits_cons, ← ih]
    exact (Nat.add_comm ..).trans (congrArg _ (Nat.mul_comm ..))

theorem hexDigits_value (n : ℕ) : hexValueOf (Vdf.hexDigits n) = n := by
  by_cases hn : n = 0
  · rw [hn]
    rfl
  · exact Vdf.hexDigits_value hn

theorem hexDigits_hex (n : ℕ) : Hex (toString16 n) (Vdf.hexDigits n) := by
  refine ⟨rfl, fun d hd => ?_, ?_⟩
  · by_cases hn : n = 0
    · rw [hn, Vdf.hexDigits, if_pos rfl, List.mem_singleton] at hd
      omega
    · exact Vdf.hexDigits_lt hn hd
  · rw [Vdf.hexDigits]
    split
    · exact List.cons_ne_nil _ _
    · next hn =>
      rw [Ne, List.reverse_eq_nil_iff, Nat.digits_eq_nil_iff_eq_zero]
      exact hn

theorem Hex.padStart {s : JsString} {digits : List ℕ} (h : Hex s digits) (width : Option ℤ) :
    Hex (padStart s width) (List.replicate ((width.getD 0).toNat - s.length) 0 ++ digits) := by
  obtain ⟨rfl, hdigit, hne⟩ := h
  refine ⟨?_, fun d hd => ?_, List.append_ne_nil_of_right_ne_nil _ hne⟩
  · rw [Secrets.padStart, List.map_append, List.map_replicate]
  · rcases List.mem_append.mp hd with hd | hd
    · rw [List.eq_of_mem_replicate hd]
      decide
    · exact hdigit d hd

theorem padded_hex (n : ℕ) (width : Option ℤ) :
    ∃ digits, Hex (padStart (toString16 n) width) digits ∧ hexValueOf digits = n :=
  ⟨_, (hexDigits_hex n).padStart width, by rw [hexValueOf_zeros, hexDigits_value]⟩

theorem hexDigit_ne_dash {d : ℕ} (h : d < 16) : hexDigit d ≠ dash := by
  have hall : ∀ d : Fin 16, hexDigit d ≠ dash := by decide
  exact hall ⟨d, h⟩

theorem hexDigit_not_space {d : ℕ} (h : d < 16) : isWhiteSpace (hexDigit d) = false := by
  have hall : ∀ d : Fin 16, isWhiteSpace (hexDigit d) = false := by decide
  exact hall ⟨d, h⟩

theorem Hex.dash_not_mem {s : JsString} {digits : List ℕ} (h : Hex s digits) : dash ∉ s := by
  rw [h.string]
  intro hmem
  obtain ⟨d, hd, heq⟩ := List.mem_map.mp hmem
  exact hexDigit_ne_dash (h.digit d hd) heq

theorem trim_eq {s : JsString} (h : ∀ c ∈ s, isWhiteSpace c = false) : trim s = s := by
  have hkept : ∀ t : JsString, (∀ c ∈ t, isWhiteSpace c = false) → t.dropWhile isWhiteSpace = t := by
    intro t ht
    cases t with
    | nil => rfl
    | cons c rest =>
      refine List.dropWhile_cons_of_neg ?_
      rw [ht c (List.mem_cons_self ..)]
      exact Bool.false_ne_true
  rw [trim, hkept s h, hkept s.reverse fun c hc => h c (List.mem_reverse.mp hc), List.reverse_reverse]

theorem digitsValue_hex {digits : List ℕ} (hdigit : ∀ d ∈ digits, d < 16) (hne : digits ≠ []) :
    digitsValue 16 (digits.map hexDigit) = some (hexValueOf digits) := by
  rw [digitsValue, if_neg (by rwa [List.map_eq_nil_iff]), List.foldl_map, hexValueOf]
  generalize 0 = start
  induction digits generalizing start with
  | nil => rfl
  | cons d digits ih =>
    have hd := hdigit d (List.mem_cons_self ..)
    have hstep : ((some start : Option ℕ).bind fun n => (hexValue (hexDigit d)).bind fun d =>
        if d < 16 then some (16 * n + d) else none) = some (start * 16 + d) := by
      rw [hexValue_hexDigit hd]
      exact (if_pos hd).trans (by rw [Nat.mul_comm])
    rw [List.foldl_cons, List.foldl_cons]
    by_cases hnil : digits = []
    · rw [hnil]
      exact hstep
    · exact (congrArg (fun acc => List.foldl _ acc digits) hstep).trans
        (ih (fun d hd => hdigit d (List.mem_cons_of_mem _ hd)) hnil _)

theorem bigInt_hex {s : JsString} {digits : List ℕ} (h : Hex s digits) :
    bigInt (js "0x" ++ s) = .ok (hexValueOf digits) := by
  obtain ⟨rfl, hdigit, hne⟩ := h
  have hspace : ∀ c ∈ js "0x" ++ digits.map hexDigit, isWhiteSpace c = false := by
    intro c hc
    rcases List.mem_append.mp hc with hc | hc
    · have hbegins : (js "0x").all (fun c => !isWhiteSpace c) = true := by decide
      simpa using List.all_eq_true.mp hbegins c hc
    · obtain ⟨d, hd, rfl⟩ := List.mem_map.mp hc
      exact hexDigit_not_space (hdigit d hd)
  have hnonempty : js "0x" ++ digits.map hexDigit ≠ [] := List.append_ne_nil_of_left_ne_nil (by decide) _
  have htake : (js "0x" ++ digits.map hexDigit).take 2 = js "0x" := List.take_left' rfl
  have hdrop : (js "0x" ++ digits.map hexDigit).drop 2 = digits.map hexDigit := List.drop_left' rfl
  rw [bigInt, stringToBigInt, trim_eq hspace, if_neg hnonempty, if_pos (Or.inl htake), hdrop, digitsValue_hex hdigit hne]
  rfl

theorem bigInt_padded (n : ℕ) (width : Option ℤ) : bigInt (js "0x" ++ padStart (toString16 n) width) = .ok n := by
  obtain ⟨digits, hhex, hvalue⟩ := padded_hex n width
  rw [bigInt_hex hhex, hvalue]

/-! ## Decimal digits -/

theorem decimal_digit {n : ℕ} {c : UInt16} (h : c ∈ decimal n) : 48 ≤ c ∧ c ≤ 57 := by
  have hvalue := decimalValue_decimal n
  unfold decimalValue at hvalue
  split at hvalue
  · next hdigits => exact hdigits.2 c h
  · cases hvalue

theorem decimal_ne_nil (n : ℕ) : decimal n ≠ [] := by
  have hvalue := decimalValue_decimal n
  unfold decimalValue at hvalue
  split at hvalue
  · next hdigits => exact hdigits.1
  · cases hvalue

theorem decimal_dash_not_mem (n : ℕ) : dash ∉ decimal n := fun h => absurd (decimal_digit h).1 (by decide)

theorem hexValue_decimal {c : UInt16} (h : 48 ≤ c ∧ c ≤ 57) :
    hexValue c = some (c.toNat - 48) ∧ c.toNat - 48 < 10 := by
  have hlow := UInt16.le_iff_toNat_le.mp h.1
  have hhigh := UInt16.le_iff_toNat_le.mp h.2
  have hlow' : (48 : UInt16).toNat = 48 := rfl
  have hhigh' : (57 : UInt16).toNat = 57 := rfl
  exact ⟨if_pos h, by omega⟩

theorem digitsValue_decimal (n : ℕ) : digitsValue 10 (decimal n) = some n := by
  have hvalue := decimalValue_decimal n
  rw [decimalValue, if_pos ⟨decimal_ne_nil n, fun c hc => decimal_digit hc⟩, Option.some.injEq] at hvalue
  have hdigit : ∀ c ∈ decimal n, 48 ≤ c ∧ c ≤ 57 := fun c hc => decimal_digit hc
  rw [digitsValue, if_neg (decimal_ne_nil n)]
  refine Eq.trans ?_ (congrArg some hvalue)
  generalize decimal n = digits at hdigit
  generalize 0 = start
  induction digits generalizing start with
  | nil => rfl
  | cons c digits ih =>
    obtain ⟨hc, hlt⟩ := hexValue_decimal (hdigit c (List.mem_cons_self ..))
    have hstep : ((some start : Option ℕ).bind fun n => (hexValue c).bind fun d =>
        if d < 10 then some (10 * n + d) else none) = some (start * 10 + (c.toNat - 48)) := by
      rw [hc]
      exact (if_pos hlt).trans (by rw [Nat.mul_comm])
    rw [List.foldl_cons, List.foldl_cons]
    exact (congrArg (fun acc => List.foldl _ acc digits) hstep).trans
      (ih (fun c hc => hdigit c (List.mem_cons_of_mem _ hc)) _)

theorem digit_not_space {c : UInt16} (h : 48 ≤ c ∧ c ≤ 57) : isWhiteSpace c = false := by
  have hall : ∀ d : Fin 10, isWhiteSpace (UInt16.ofNat (48 + d)) = false := by decide
  have hlow := UInt16.le_iff_toNat_le.mp h.1
  have hhigh := UInt16.le_iff_toNat_le.mp h.2
  have hlow' : (48 : UInt16).toNat = 48 := rfl
  have hhigh' : (57 : UInt16).toNat = 57 := rfl
  have hc : c = UInt16.ofNat (48 + (c.toNat - 48)) := by
    rw [show 48 + (c.toNat - 48) = c.toNat by omega, UInt16.ofNat_toNat]
  rw [hc]
  exact hall ⟨c.toNat - 48, by omega⟩

theorem decimal_head {n : ℕ} {c : UInt16} (h : ¬ (48 ≤ c ∧ c ≤ 57)) : (decimal n).head? ≠ some c := fun hhead =>
  h (decimal_digit (List.mem_of_head? hhead))

theorem bigInt_decimal (n : ℕ) : bigInt (decimal n) = .ok n := by
  have hradix : ∀ r : JsString, (∃ c ∈ r, ¬ (48 ≤ c ∧ c ≤ 57)) → (decimal n).take 2 ≠ r := by
    rintro r ⟨c, hc, hother⟩ rfl
    exact hother (decimal_digit (List.mem_of_mem_take hc))
  rw [bigInt, stringToBigInt, trim_eq fun c hc => digit_not_space (decimal_digit hc), if_neg (decimal_ne_nil n),
    if_neg (not_or.mpr ⟨hradix _ (by decide), hradix _ (by decide)⟩),
    if_neg (not_or.mpr ⟨hradix _ (by decide), hradix _ (by decide)⟩),
    if_neg (not_or.mpr ⟨hradix _ (by decide), hradix _ (by decide)⟩),
    if_neg (decimal_head (by decide)), if_neg (decimal_head (by decide)), digitsValue_decimal]
  rfl

theorem parseIntDecimal_decimal (n : ℕ) : parseIntDecimal (decimal n) = some (n : ℤ) := by
  have hskip : (decimal n).dropWhile isWhiteSpace = decimal n := by
    cases hdecimal : decimal n with
    | nil => rfl
    | cons c rest =>
      refine List.dropWhile_cons_of_neg ?_
      rw [digit_not_space (decimal_digit (n := n) (by rw [hdecimal]; exact List.mem_cons_self ..))]
      exact Bool.false_ne_true
  have hminus := decimal_head (n := n) (c := dash) (by decide)
  have hplus := decimal_head (n := n) (c := 0x2b) (by decide)
  have hdigits : (decimal n).takeWhile (fun c => decide (48 ≤ c ∧ c ≤ 57)) = decimal n :=
    List.takeWhile_eq_self_iff.mpr fun c hc => decide_eq_true (decimal_digit hc)
  rw [parseIntDecimal, hskip]
  simp only [hminus, hplus, or_self, if_false]
  rw [hdigits, digitsValue_decimal]
  rfl

/-! ## Shares -/

theorem lenHex_spec {len : ℕ} (h : len < 256) : (padStart (toString16 len) (some 2)).length = 2 ∧
    parseIntHex (padStart (toString16 len) (some 2)) = some (len : ℤ) := by
  have hall : ∀ len : Fin 256, (padStart (toString16 (len.val : ℤ)) (some 2)).length = 2 ∧
      parseIntHex (padStart (toString16 (len.val : ℤ)) (some 2)) = some (len.val : ℤ) := by decide +kernel
  exact hall ⟨len, h⟩

theorem shareString_split {lenHex hexVal : JsString} (hlen : dash ∉ lenHex) (hval : dash ∉ hexVal) (x : ℕ) :
    (shareString x lenHex hexVal).splitOn dash = [decimal x, js "vss" ++ (lenHex ++ hexVal)] := by
  have hvalue : dash ∉ js "vss" ++ (lenHex ++ hexVal) := by
    rw [List.mem_append, List.mem_append, not_or, not_or]
    exact ⟨by decide, hlen, hval⟩
  rw [shareString, List.splitOn_append_cons_self_of_not_mem (decimal_dash_not_mem x), List.splitOn_eq_singleton hvalue]

/-- The share of a point and a value, of a secret with so many digits. -/
def share (len x y : ℕ) : JsString :=
  shareString x (padStart (toString16 len) (some 2)) (padStart (toString16 y) (some 64))

theorem share_split (len x y : ℕ) : (share len x y).splitOn dash =
    [decimal x, js "vss" ++ (padStart (toString16 len) (some 2) ++ padStart (toString16 y) (some 64))] :=
  shareString_split ((hexDigits_hex len).padStart _).dash_not_mem ((hexDigits_hex y).padStart _).dash_not_mem x

section Fields
variable {len : ℕ} (hlen : len < 256) (y : ℕ)
include hlen

theorem share_value : (js "vss" ++ (padStart (toString16 len) (some 2) ++ padStart (toString16 y) (some 64))).drop 5 =
    padStart (toString16 y) (some 64) := by
  rw [← List.append_assoc]
  exact List.drop_left' (by rw [List.length_append, (lenHex_spec hlen).1]; rfl)

theorem share_len : ((js "vss" ++ (padStart (toString16 len) (some 2) ++ padStart (toString16 y) (some 64))).drop 3).take
    2 = padStart (toString16 len) (some 2) := by
  rw [List.drop_left' (show (js "vss").length = 3 from rfl)]
  exact List.take_left' (lenHex_spec hlen).1

theorem parseShare_share (x : ℕ) : parseShare (share len x y) = .ok (some (x, y)) := by
  rw [parseShare, share_split]
  dsimp only
  rw [bigInt_decimal, share_value hlen, bigInt_padded]
  rfl

theorem parseForReconstruction_share (x : ℕ) (originalLen : Option ℤ) :
    parseForReconstruction (share len x y) originalLen = .ok ((x, y), some (len : ℤ)) := by
  rw [parseForReconstruction, share_split]
  dsimp only
  rw [bigInt_decimal, share_value hlen, bigInt_padded, share_len hlen, (lenHex_spec hlen).2]
  rfl

end Fields

/-! ## The secret -/

/-- A string of lower-case hexadecimal digits. -/
def LowerHex (s : JsString) : Prop := ∀ c ∈ s, (48 ≤ c ∧ c ≤ 57) ∨ (97 ≤ c ∧ c ≤ 102)

instance (s : JsString) : Decidable (LowerHex s) := List.decidableBAll _ s

theorem LowerHex.digits {s : JsString} (h : LowerHex s) (hne : s ≠ []) : ∃ digits, Hex s digits := by
  have hdigit : ∀ c ∈ s, ∃ d < 16, hexDigit d = c := by
    intro c hc
    have hall : (∀ d : Fin 10, hexDigit d = UInt16.ofNat (48 + d)) ∧
        ∀ d : Fin 6, hexDigit (10 + d) = UInt16.ofNat (97 + d) := by decide
    rcases h c hc with ⟨hlow, hhigh⟩ | ⟨hlow, hhigh⟩
    · rw [UInt16.le_iff_toNat_le] at hlow hhigh
      change 48 ≤ c.toNat at hlow
      change c.toNat ≤ 57 at hhigh
      refine ⟨c.toNat - 48, by omega, (hall.1 ⟨c.toNat - 48, by omega⟩).trans ?_⟩
      rw [show 48 + (c.toNat - 48) = c.toNat by omega, UInt16.ofNat_toNat]
    · rw [UInt16.le_iff_toNat_le] at hlow hhigh
      change 97 ≤ c.toNat at hlow
      change c.toNat ≤ 102 at hhigh
      refine ⟨10 + (c.toNat - 97), by omega, (hall.2 ⟨c.toNat - 97, by omega⟩).trans ?_⟩
      rw [show 97 + (c.toNat - 97) = c.toNat by omega, UInt16.ofNat_toNat]
  clear h
  induction s with
  | nil => exact absurd rfl hne
  | cons c s ih =>
    obtain ⟨d, hd, rfl⟩ := hdigit c (List.mem_cons_self ..)
    by_cases hnil : s = []
    · exact ⟨[d], by rw [hnil]; rfl, by simpa using hd, List.cons_ne_nil _ _⟩
    · obtain ⟨digits, rfl, hlt, _⟩ := ih hnil fun c hc => hdigit c (List.mem_cons_of_mem _ hc)
      exact ⟨d :: digits, rfl, List.forall_mem_cons.mpr ⟨hd, hlt⟩, List.cons_ne_nil _ _⟩

theorem Hex.written {s : JsString} {digits : List ℕ} (h : Hex s digits) :
    Secrets.padStart (toString16 (hexValueOf digits)) (some s.length) = s := by
  obtain ⟨rfl, hdigit, hne⟩ := h
  have hlt : hexValueOf digits < 16 ^ digits.length := by
    have hbound := Nat.ofDigits_lt_base_pow_length (b := 16) (by decide) (l := digits.reverse)
      fun d hd => hdigit d (List.mem_reverse.mp hd)
    rwa [← hexValueOf_eq, List.length_reverse] at hbound
  have hlength : (Vdf.hexDigits (hexValueOf digits)).length ≤ digits.length := by
    by_cases hzero : hexValueOf digits = 0
    · rw [hzero]
      exact List.length_pos_of_ne_nil hne
    · exact (Vdf.hexDigits_length_le_iff hzero).mpr hlt
  have hpadded := (hexDigits_hex (hexValueOf digits)).padStart (some ((digits.map hexDigit).length : ℤ))
  have hstring : (toString16 (hexValueOf digits : ℤ)).length = (Vdf.hexDigits (hexValueOf digits)).length := by
    rw [(hexDigits_hex _).string, List.length_map]
  rw [hpadded.string]
  refine congrArg _ (List.reverse_injective (Nat.ofDigits_inj_of_len_eq (b := 16) (by decide) ?_ ?_ ?_ ?_))
  · rw [List.length_reverse, List.length_reverse, List.length_append, List.length_replicate, hstring, List.length_map]
    show digits.length - _ + _ = _
    omega
  · exact fun d hd => hpadded.digit d (List.mem_reverse.mp hd)
  · exact fun d hd => hdigit d (List.mem_reverse.mp hd)
  · rw [← hexValueOf_eq, ← hexValueOf_eq, hexValueOf_zeros, hexDigits_value]

end ChainGuard.OffChain.Secrets
