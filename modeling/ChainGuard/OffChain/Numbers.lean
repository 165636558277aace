import ChainGuard.Library.Doubles
import ChainGuard.OffChain.ShareStrings

/-! `Number(s)` and `String(x)` on the numbers of JavaScript, which are those of binary64: what is written of a finite
number is read back. -/
namespace ChainGuard.OffChain
open Doubles
set_option autoImplicit false

def dot : UInt16 := 0x2e

def isDigit (c : UInt16) : Bool := decide (48 ≤ c ∧ c ≤ 57)

def nan : Float := .ofModel (.pack .notANumber)

def signOf (negative : Bool) : Float.Model.UnpackedFloat.Sign := if negative then .negative else .positive

/-! ## `Number(s)` -/

/-- What follows the digits of a literal: nothing, or the power of ten. -/
def exponentPart : JsString → Option ℤ
  | [] => some 0
  | c :: rest =>
    if c = 0x65 ∨ c = 0x45 then
      if rest.head? = some 0x2b then (decimalValue rest.tail).map Int.ofNat
      else if rest.head? = some 0x2d then (decimalValue rest.tail).map fun n => -Int.ofNat n
      else (decimalValue rest).map Int.ofNat
    else none

/-- A decimal literal without a sign: the digits, and the power of ten that the last one stands for. -/
def unsignedDecimal (s : JsString) : Option (ℕ × ℤ) := do
  let whole := s.takeWhile isDigit
  let rest := s.dropWhile isDigit
  let point := rest.head? = some dot
  let fraction := if point then rest.tail.takeWhile isDigit else []
  let rest := if point then rest.tail.dropWhile isDigit else rest
  let digits ← decimalValue (whole ++ fraction)
  let exponent ← exponentPart rest
  return (digits, exponent - fraction.length)

def decimalLiteral (s : JsString) : Float :=
  let negative := decide (s.head? = some 0x2d)
  let s := if negative ∨ s.head? = some 0x2b then s.tail else s
  if s = js "Infinity" then .ofModel (.pack (.infinity (signOf negative)))
  else match unsignedDecimal s with
    | some (digits, exponent) => ofDecimal negative digits exponent
    | none => nan

def integerLiteral (radix : ℕ) (digits : JsString) : Float :=
  match Secrets.digitsValue radix digits with
  | some n => ofDecimal false n 0
  | none => nan

/-- `Number(s)` -/
def stringToNumber (s : JsString) : Float :=
  let s := trim s
  if s = [] then ofDecimal false 0 0
  else if s.take 2 = js "0x" ∨ s.take 2 = js "0X" then integerLiteral 16 (s.drop 2)
  else if s.take 2 = js "0o" ∨ s.take 2 = js "0O" then integerLiteral 8 (s.drop 2)
  else if s.take 2 = js "0b" ∨ s.take 2 = js "0B" then integerLiteral 2 (s.drop 2)
  else decimalLiteral s

/-! ## `String(x)` -/

def zeros (n : ℕ) : JsString := List.replicate n 0x30

def exponentText (e : ℤ) : JsString := 0x65 :: (if e < 0 then 0x2d else 0x2b) :: decimal e.natAbs

def decimalString (s : ℕ) (t : ℤ) : JsString :=
  let digits := decimal s
  let n := t + digits.length
  if digits.length ≤ n ∧ n ≤ 21 then digits ++ zeros t.toNat
  else if 0 < n ∧ n ≤ 21 then digits.take n.toNat ++ dot :: digits.drop n.toNat
  else if -6 < n ∧ n ≤ 0 then 0x30 :: dot :: (zeros (-n).toNat ++ digits)
  else digits.take 1 ++ ((if digits.length = 1 then [] else dot :: digits.drop 1) ++ exponentText (n - 1))

/-- `String(x)` -/
def numberToString (x : Float) : JsString :=
  match x.toModel.unpack with
  | .notANumber => js "NaN"
  | .zero _ => js "0"
  | .infinity s => (if s == .negative then js "-" else []) ++ js "Infinity"
  | .finite s m e _ =>
    let shortest := shortestDecimal x (s == .negative) m e
    (if s == .negative then js "-" else []) ++ decimalString shortest.1 shortest.2

/-! ## Digits -/

/-- The number that digits stand for. -/
def digitsNat (digits : JsString) : ℕ := digits.foldl (fun acc c => acc * 10 + (c.toNat - 48)) 0

theorem decimal_isDigit (n : ℕ) : ∀ c ∈ decimal n, isDigit c = true := by
  intro c hc
  apply decide_eq_true
  exact Secrets.decimal_digit hc

theorem zeros_isDigit (n : ℕ) : ∀ c ∈ zeros n, isDigit c = true := by
  intro c hc
  rw [List.eq_of_mem_replicate hc]
  decide

theorem decimalValue_digits {digits : JsString} (hne : digits ≠ []) (h : ∀ c ∈ digits, isDigit c = true) :
    decimalValue digits = some (digitsNat digits) := by
  rw [decimalValue, if_pos ⟨hne, fun c hc => of_decide_eq_true (h c hc)⟩]
  rfl

theorem digitsNat_decimal (n : ℕ) : digitsNat (decimal n) = n := by
  have hvalue := decimalValue_digits (Secrets.decimal_ne_nil n) (decimal_isDigit n)
  rw [decimalValue_decimal] at hvalue
  exact (Option.some.inj hvalue).symm

theorem digitsNat_zeros (digits : JsString) (j : ℕ) : digitsNat (digits ++ zeros j) = digitsNat digits * 10 ^ j := by
  induction j with
  | zero => simp [zeros]
  | succ j ih =>
    have hsplit : digits ++ zeros (j + 1) = digits ++ zeros j ++ [0x30] := by
      simp [zeros, List.replicate_succ']
    rw [hsplit, digitsNat, List.foldl_append, ← digitsNat, ih, pow_succ, ← mul_assoc]
    rfl

theorem digitsNat_leading (j : ℕ) (digits : JsString) : digitsNat (zeros j ++ digits) = digitsNat digits := by
  induction j with
  | zero => rfl
  | succ j ih => exact ih

/-! ## Literals -/

/-- The parts of a text that stands for a number: digits, perhaps digits behind a point, and perhaps an exponent. -/
structure Literal (text whole fraction rest : JsString) (e : ℤ) : Prop where
  text_eq : text = whole ++ ((if fraction = [] then [] else dot :: fraction) ++ rest)
  whole_ne : whole ≠ []
  whole_digit : ∀ c ∈ whole, isDigit c = true
  fraction_digit : ∀ c ∈ fraction, isDigit c = true
  exponent : (rest = [] ∧ e = 0) ∨ rest = exponentText e

theorem magnitude_scaled (s : ℕ) {t : ℤ} (ht : 0 ≤ t) : magnitude (s * 10 ^ t.toNat) 0 = magnitude s t := by
  rw [magnitude, magnitude, if_pos le_rfl, if_pos ht, Int.toNat_zero, pow_zero, mul_one]

theorem Literal.of_split {digits rest : JsString} {n : ℕ} {e : ℤ} (hn : 0 < n) (hne : digits ≠ [])
    (hdigit : ∀ c ∈ digits, isDigit c = true) (hrest : (rest = [] ∧ e = 0) ∨ rest = exponentText e) :
    Literal (digits.take n ++ ((if digits.drop n = [] then [] else dot :: digits.drop n) ++ rest)) (digits.take n)
      (digits.drop n) rest e where
  text_eq := rfl
  whole_ne := by
    intro h
    rw [List.take_eq_nil_iff] at h
    exact h.elim (by omega) hne
  whole_digit := fun c hc => hdigit c (List.mem_of_mem_take hc)
  fraction_digit := fun c hc => hdigit c (List.mem_of_mem_drop hc)
  exponent := hrest

theorem magnitude_split (digits : JsString) {n : ℕ} {e t : ℤ} (ht : e - (digits.length - n : ℕ) = t) :
    magnitude (digitsNat (digits.take n ++ digits.drop n)) (e - (digits.drop n).length) =
      magnitude (digitsNat digits) t := by
  rw [List.take_append_drop, List.length_drop, ht]

theorem decimalString_literal (s : ℕ) (t : ℤ) : ∃ whole fraction rest e,
    Literal (decimalString s t) whole fraction rest e ∧
      magnitude (digitsNat (whole ++ fraction)) (e - fraction.length) = magnitude s t := by
  have hdigit := decimal_isDigit s
  have hne := Secrets.decimal_ne_nil s
  have hvalue := digitsNat_decimal s
  unfold decimalString
  generalize decimal s = digits at hdigit hne hvalue
  have hpos := List.length_pos_of_ne_nil hne
  subst hvalue
  dsimp only
  by_cases hinteger : (digits.length : ℤ) ≤ t + digits.length ∧ t + digits.length ≤ 21
  · rw [if_pos hinteger]
    refine ⟨digits ++ zeros t.toNat, [], [], 0, ⟨by simp, ?_, ?_, by simp, Or.inl ⟨rfl, rfl⟩⟩, ?_⟩
    · exact List.append_ne_nil_of_left_ne_nil hne _
    · intro c hc
      exact (List.mem_append.mp hc).elim (hdigit c) (zeros_isDigit _ c)
    · rw [List.append_nil, digitsNat_zeros]
      exact magnitude_scaled _ (by omega)
  rw [if_neg hinteger]
  by_cases hpoint : 0 < t + digits.length ∧ t + digits.length ≤ 21
  · rw [if_pos hpoint]
    have hfraction : digits.drop (t + digits.length).toNat ≠ [] := by
      rw [Ne, List.drop_eq_nil_iff]
      omega
    have hliteral := Literal.of_split (n := (t + digits.length).toNat) (by omega) hne hdigit (Or.inl ⟨rfl, rfl⟩)
    rw [if_neg hfraction, List.append_nil] at hliteral
    exact ⟨_, _, _, _, hliteral, magnitude_split digits (by omega)⟩
  rw [if_neg hpoint]
  by_cases hsmall : -6 < t + digits.length ∧ t + digits.length ≤ 0
  · rw [if_pos hsmall]
    have hfraction : zeros (-(t + digits.length)).toNat ++ digits ≠ [] := List.append_ne_nil_of_right_ne_nil _ hne
    have hall : ∀ c ∈ zeros (-(t + digits.length)).toNat ++ digits, isDigit c = true := by
      intro c hc
      exact (List.mem_append.mp hc).elim (zeros_isDigit _ c) (hdigit c)
    refine ⟨[0x30], zeros (-(t + digits.length)).toNat ++ digits, [], 0,
      ⟨by rw [if_neg hfraction, List.append_nil]; rfl, by simp, by decide, hall, Or.inl ⟨rfl, rfl⟩⟩, ?_⟩
    have hlead : digitsNat ([0x30] ++ (zeros (-(t + digits.length)).toNat ++ digits)) = digitsNat digits := by
      rw [← List.append_assoc]
      exact digitsNat_leading (_ + 1) digits
    rw [hlead, List.length_append, zeros, List.length_replicate]
    congr 1
    omega
  · rw [if_neg hsmall]
    have hone : digits.length = 1 ↔ digits.drop 1 = [] := by
      rw [List.drop_eq_nil_iff]
      omega
    simp only [hone]
    exact ⟨_, _, _, _, Literal.of_split one_pos hne hdigit (Or.inr rfl), magnitude_split digits (by omega)⟩

/-- What numbers are written with. -/
def IsPlain (c : UInt16) : Prop := isDigit c = true ∨ c = dot ∨ c = 0x65 ∨ c = 0x2b ∨ c = 0x2d

instance : DecidablePred IsPlain := fun _ => inferInstanceAs (Decidable (_ ∨ _))

theorem isPlain_ascii {c : UInt16} (h : IsPlain c) : c.toNat < 128 ∧ isWhiteSpace c = false := by
  obtain h | rfl | rfl | rfl | rfl := h
  · have hdigit := of_decide_eq_true h
    refine ⟨?_, Secrets.digit_not_space hdigit⟩
    have hhigh := UInt16.le_iff_toNat_le.mp hdigit.2
    change c.toNat ≤ 57 at hhigh
    omega
  all_goals decide

theorem exponentText_plain (e : ℤ) : ∀ c ∈ exponentText e, IsPlain c := by
  intro c hc
  simp only [exponentText, List.mem_cons] at hc
  obtain rfl | rfl | hc := hc
  · exact Or.inr (Or.inr (Or.inl rfl))
  · split
    · exact Or.inr (Or.inr (Or.inr (Or.inr rfl)))
    · exact Or.inr (Or.inr (Or.inr (Or.inl rfl)))
  · exact Or.inl (decimal_isDigit _ c hc)

theorem exponentPart_text (e : ℤ) : exponentPart (exponentText e) = some e := by
  have hvalue : decimalValue (decimal e.natAbs) = some e.natAbs := decimalValue_decimal _
  by_cases he : e < 0
  · simp [exponentPart, exponentText, he, hvalue]
    rw [abs_of_neg he, neg_neg]
  · simp [exponentPart, exponentText, he, hvalue]
    exact not_lt.mp he

theorem takeWhile_digits {digits rest : JsString} (h : ∀ c ∈ digits, isDigit c = true)
    (hrest : ∀ c, rest.head? = some c → isDigit c = false) :
    (digits ++ rest).takeWhile isDigit = digits ∧ (digits ++ rest).dropWhile isDigit = rest := by
  have hstop : rest.takeWhile isDigit = [] ∧ rest.dropWhile isDigit = rest := by
    cases rest with
    | nil => exact ⟨rfl, rfl⟩
    | cons c rest => simp [hrest c rfl]
  rw [List.takeWhile_append_of_pos h, List.dropWhile_append_of_pos h, hstop.1, hstop.2, List.append_nil]
  exact ⟨rfl, rfl⟩

namespace Literal
variable {text whole fraction rest : JsString} {e : ℤ} (h : Literal text whole fraction rest e)
include h

theorem rest_head : (∀ c, rest.head? = some c → isDigit c = false) ∧ rest.head? ≠ some dot ∧
    exponentPart rest = some e := by
  obtain ⟨rfl, rfl⟩ | rfl := h.exponent
  · simp [exponentPart]
  · refine ⟨?_, ?_, exponentPart_text e⟩
    · intro c hc
      rw [← Option.some.inj hc]
      decide
    · exact fun hc => absurd (Option.some.inj hc) (by decide)

theorem plain : ∀ c ∈ text, IsPlain c := by
  have hrest : ∀ c ∈ rest, IsPlain c := by
    obtain ⟨rfl, rfl⟩ | rfl := h.exponent
    · simp
    · exact exponentText_plain e
  intro c hc
  rw [h.text_eq, List.mem_append, List.mem_append] at hc
  obtain hc | hc | hc := hc
  · exact Or.inl (h.whole_digit c hc)
  · split at hc
    · cases hc
    · obtain rfl | hc := List.mem_cons.mp hc
      · exact Or.inr (Or.inl rfl)
      · exact Or.inl (h.fraction_digit c hc)
  · exact hrest c hc

theorem head : ∃ c tail, text = c :: tail ∧ isDigit c = true := by
  obtain ⟨c, tail, hwhole⟩ := List.exists_cons_of_ne_nil h.whole_ne
  refine ⟨c, _, by rw [h.text_eq, hwhole, List.cons_append], h.whole_digit c ?_⟩
  rw [hwhole]
  exact List.mem_cons_self

theorem unsignedDecimal_eq : unsignedDecimal text = some (digitsNat (whole ++ fraction), e - fraction.length) := by
  obtain ⟨hdigit, hdot, hexponent⟩ := h.rest_head
  have hvalue : decimalValue (whole ++ fraction) = some (digitsNat (whole ++ fraction)) := by
    apply decimalValue_digits
    · exact List.append_ne_nil_of_left_ne_nil h.whole_ne _
    · intro c hc
      exact (List.mem_append.mp hc).elim (h.whole_digit c) (h.fraction_digit c)
  rw [unsignedDecimal, h.text_eq]
  by_cases hnil : fraction = []
  · subst hnil
    simp only [if_true, List.nil_append] at hvalue ⊢
    obtain ⟨htake, hdrop⟩ := takeWhile_digits h.whole_digit hdigit
    simp only [htake, hdrop, hdot, if_false, hvalue, hexponent]
    rfl
  · rw [if_neg hnil, List.cons_append]
    have hpoint : ∀ c, (dot :: (fraction ++ rest)).head? = some c → isDigit c = false := by
      intro c hc
      rw [← Option.some.inj hc]
      decide
    obtain ⟨htake, hdrop⟩ := takeWhile_digits h.whole_digit hpoint
    obtain ⟨htake', hdrop'⟩ := takeWhile_digits h.fraction_digit hdigit
    simp only [htake, hdrop, List.head?_cons, List.tail_cons, if_true, htake', hdrop', hvalue, hexponent]
    rfl

theorem stringToNumber_eq (negative : Bool) : stringToNumber ((if negative then js "-" else []) ++ text) =
    ofDecimal negative (digitsNat (whole ++ fraction)) (e - fraction.length) := by
  obtain ⟨c, tail, htext, hc⟩ := h.head
  have hc := of_decide_eq_true hc
  have hplain : ∀ c ∈ (if negative then js "-" else []) ++ text, IsPlain c := by
    intro c hc
    obtain hc | hc := List.mem_append.mp hc
    · cases negative with
      | false => cases hc
      | true =>
        have hall : ∀ c ∈ js "-", IsPlain c := by decide
        exact hall c hc
    · exact h.plain c hc
  have hradix : ∀ r : JsString, (∃ c ∈ r, ¬ IsPlain c) → ((if negative then js "-" else []) ++ text).take 2 ≠ r := by
    intro r hr heq
    obtain ⟨c, hc, hother⟩ := hr
    rw [← heq] at hc
    exact hother (hplain c (List.mem_of_mem_take hc))
  have hne : (if negative then js "-" else []) ++ text ≠ [] := by
    rw [htext]
    exact List.append_ne_nil_of_right_ne_nil _ (List.cons_ne_nil _ _)
  rw [stringToNumber, Secrets.trim_eq fun c hc => (isPlain_ascii (hplain c hc)).2]
  simp only [if_neg hne]
  rw [if_neg (not_or.mpr ⟨hradix _ (by decide), hradix _ (by decide)⟩),
    if_neg (not_or.mpr ⟨hradix _ (by decide), hradix _ (by decide)⟩),
    if_neg (not_or.mpr ⟨hradix _ (by decide), hradix _ (by decide)⟩)]
  have hinfinity : text ≠ js "Infinity" := by
    intro heq
    rw [htext] at heq
    have hhead := (List.cons.inj heq).1
    rw [hhead] at hc
    exact absurd hc (by decide)
  have hminus : text.head? ≠ some 0x2d := by
    intro heq
    rw [htext] at heq
    rw [Option.some.inj heq] at hc
    exact absurd hc (by decide)
  have hplus : text.head? ≠ some 0x2b := by
    intro heq
    rw [htext] at heq
    rw [Option.some.inj heq] at hc
    exact absurd hc (by decide)
  cases negative with
  | false => simp [decimalLiteral, hminus, hplus, hinfinity, h.unsignedDecimal_eq]
  | true =>
    have hdash : js "-" ++ text = 0x2d :: text := rfl
    simp [decimalLiteral, hdash, hinfinity, h.unsignedDecimal_eq]

theorem after_dot {a b : JsString} (hab : text = a ++ dot :: b) : ∃ d tail, b = d :: tail ∧ isDigit d = true := by
  have hnot : ∀ s : JsString, (∀ c ∈ s, isDigit c = true) → dot ∉ s := by
    intro s hs hmem
    exact absurd (hs dot hmem) (by decide)
  have hrest : dot ∉ rest := by
    obtain ⟨rfl, _⟩ | rfl := h.exponent
    · simp
    · intro hmem
      simp only [exponentText, List.mem_cons] at hmem
      obtain hmem | hmem | hmem := hmem
      · exact absurd hmem (by decide)
      · split at hmem <;> exact absurd hmem (by decide)
      · exact hnot _ (decimal_isDigit _) hmem
  have htext := h.text_eq
  by_cases hnil : fraction = []
  · rw [if_pos hnil, List.nil_append] at htext
    have hmem : dot ∈ whole ++ rest := by
      rw [← htext, hab]
      simp
    obtain hmem | hmem := List.mem_append.mp hmem
    · exact absurd hmem (hnot _ h.whole_digit)
    · exact absurd hmem hrest
  · rw [if_neg hnil, List.cons_append, hab] at htext
    have hfraction : dot ∉ fraction ++ rest := by
      rw [List.mem_append, not_or]
      exact ⟨hnot _ h.fraction_digit, hrest⟩
    obtain ⟨_, _, rfl⟩ := (List.append_cons_inj_of_notMem (hnot _ h.whole_digit) hfraction).mp htext.symm
    obtain ⟨d, tail, rfl⟩ := List.exists_cons_of_ne_nil hnil
    exact ⟨d, tail ++ rest, rfl, h.fraction_digit d List.mem_cons_self⟩

end Literal

/-! ## What is written is read back -/

def IsZero (x : Float) : Prop := ∃ s, x.toModel.unpack = .zero s

theorem ofDecimal_congr (negative : Bool) {m m' : ℕ} {e e' : ℤ} (h : magnitude m e = magnitude m' e') :
    ofDecimal negative m e = ofDecimal negative m' e' := by
  rw [ofDecimal, ofDecimal, h]

theorem numberToString_cases {x : Float} (h : x.isFinite = true) : (IsZero x ∧ numberToString x = js "0") ∨
    ∃ negative whole fraction rest e text, Literal text whole fraction rest e ∧
      numberToString x = (if negative then js "-" else []) ++ text ∧
      ofDecimal negative (digitsNat (whole ++ fraction)) (e - fraction.length) = x := by
  have hfinite : x.toModel.unpack.isFinite = true := h
  rw [numberToString]
  cases hx : x.toModel.unpack with
  | notANumber =>
    rw [hx] at hfinite
    cases hfinite
  | infinity s =>
    rw [hx] at hfinite
    cases hfinite
  | zero s => exact Or.inl ⟨⟨s, hx⟩, rfl⟩
  | finite s m e hm =>
    obtain ⟨whole, fraction, rest, e', hliteral, hvalue⟩ := decimalString_literal
      (shortestDecimal x (s == .negative) m e).1 (shortestDecimal x (s == .negative) m e).2
    refine Or.inr ⟨s == .negative, whole, fraction, rest, e', _, hliteral, rfl, ?_⟩
    rw [ofDecimal_congr _ hvalue]
    exact ofDecimal_shortest hx

theorem stringToNumber_numberToString {x : Float} (h : x.isFinite = true) :
    stringToNumber (numberToString x) = x ∨ IsZero x ∧ stringToNumber (numberToString x) = ofDecimal false 0 0 := by
  obtain ⟨hzero, htext⟩ | ⟨negative, whole, fraction, rest, e, text, hliteral, htext, hvalue⟩ := numberToString_cases h
  · refine Or.inr ⟨hzero, ?_⟩
    rw [htext]
    decide +kernel
  · apply Or.inl
    rw [htext, hliteral.stringToNumber_eq, hvalue]

theorem numberToString_injective {x y : Float} (hx : x.isFinite = true) (hy : y.isFinite = true)
    (h : numberToString x = numberToString y) : x = y ∨ IsZero x ∧ IsZero y := by
  have hzero : IsZero (ofDecimal false 0 0) := ⟨.positive, rfl⟩
  have hreadX := stringToNumber_numberToString hx
  have hreadY := stringToNumber_numberToString hy
  rw [h] at hreadX
  obtain hreadX | ⟨hzeroX, hreadX⟩ := hreadX
  · obtain hreadY | ⟨hzeroY, hreadY⟩ := hreadY
    · exact Or.inl (hreadX.symm.trans hreadY)
    · rw [← hreadX.symm.trans hreadY] at hzero
      exact Or.inr ⟨hzero, hzeroY⟩
  · obtain hreadY | ⟨hzeroY, _⟩ := hreadY
    · rw [← hreadY.symm.trans hreadX] at hzero
      exact Or.inr ⟨hzeroX, hzero⟩
    · exact Or.inr ⟨hzeroX, hzeroY⟩

theorem numberToString_plain {x : Float} (h : x.isFinite = true) : ∀ c ∈ numberToString x, IsPlain c := by
  obtain ⟨_, htext⟩ | ⟨negative, whole, fraction, rest, e, text, hliteral, htext, _⟩ := numberToString_cases h
  · rw [htext]
    decide
  · intro c hc
    rw [htext, List.mem_append] at hc
    obtain hc | hc := hc
    · cases negative with
      | false => cases hc
      | true =>
        have hall : ∀ c ∈ js "-", IsPlain c := by decide
        exact hall c hc
    · exact hliteral.plain c hc

theorem numberToString_after_dot {x : Float} (h : x.isFinite = true) {a b : JsString}
    (hab : numberToString x = a ++ dot :: b) : ∃ d tail, b = d :: tail ∧ isDigit d = true := by
  obtain ⟨_, htext⟩ | ⟨negative, whole, fraction, rest, e, text, hliteral, htext, _⟩ := numberToString_cases h
  · have hmem : dot ∈ js "0" := by
      rw [← htext, hab]
      simp
    exact absurd hmem (by decide)
  · rw [htext] at hab
    cases negative with
    | false => exact hliteral.after_dot hab
    | true =>
      cases a with
      | nil => exact absurd (List.cons.inj hab).1 (by decide)
      | cons c a => exact hliteral.after_dot (List.cons.inj hab).2

end ChainGuard.OffChain
