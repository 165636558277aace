import ChainGuard.Library.Utf8
import ChainGuard.OffChain.Js

/-! The encodings of `crypto.ts`: text in UTF-8, and bytes in base64. -/
namespace ChainGuard.OffChain
set_option autoImplicit false

/-! ## Text -/

/-- `new TextEncoder().encode(str)` -/
def stringToUint8Array (str : JsString) : Bytes :=
  ((Utf8.scalars (str.map UInt16.toNat)).flatMap Utf8.bytes).map UInt8.ofNat

/-- `new TextDecoder().decode(bytes)` -/
def uint8ArrayToString (bytes : Bytes) : JsString :=
  ((Utf8.decode (bytes.map UInt8.toNat)).flatMap Utf8.units).map UInt16.ofNat

/-- Text that the codec keeps: without lone surrogates, and without a mark of the byte order in front. -/
def KeptByUtf8 (str : JsString) : Prop :=
  Utf8.WellFormed (str.map UInt16.toNat) ∧ (str.map UInt16.toNat).head? ≠ some Utf8.byteOrderMark

theorem units_lt (str : JsString) : ∀ c ∈ str.map UInt16.toNat, c < 0x10000 := by
  intro c hc
  obtain ⟨u, _, rfl⟩ := List.mem_map.mp hc
  exact u.toNat_lt

theorem units_of_isScalar {s : ℕ} (hs : Utf8.IsScalar s) : ∀ c ∈ Utf8.units s, c < 0x10000 := by
  have hmax := hs.1
  rw [Utf8.units]
  split_ifs <;> simp only [List.mem_cons, List.not_mem_nil, or_false, forall_eq_or_imp, forall_eq] <;> omega

theorem map_toNat_ofNat {l : List ℕ} (h : ∀ b ∈ l, b < 256) : (l.map UInt8.ofNat).map UInt8.toNat = l := by
  have hall : ∀ b ∈ l, (UInt8.toNat ∘ UInt8.ofNat) b = id b := fun b hb => Nat.mod_eq_of_lt (h b hb)
  rw [List.map_map, List.map_congr_left hall, List.map_id]

/-- Units that are below 2^16 are those of a string exactly when their numbers are. -/
theorem map_ofNat_eq_iff {l : List ℕ} (h : ∀ c ∈ l, c < 0x10000) (str : JsString) :
    l.map UInt16.ofNat = str ↔ l = str.map UInt16.toNat := by
  have hall : ∀ c ∈ l, (UInt16.toNat ∘ UInt16.ofNat) c = id c := fun c hc => Nat.mod_eq_of_lt (h c hc)
  have hback : (l.map UInt16.ofNat).map UInt16.toNat = l := by
    rw [List.map_map, List.map_congr_left hall, List.map_id]
  constructor
  · intro heq
    rw [← heq, hback]
  · intro heq
    refine List.map_injective_iff.mpr (fun _ _ h => UInt16.toNat_inj.mp h) ?_
    rw [hback, heq]

theorem encoded_lt (str : JsString) : ∀ b ∈ (Utf8.scalars (str.map UInt16.toNat)).flatMap Utf8.bytes, b < 256 := by
  intro b hb
  obtain ⟨s, hs, hb⟩ := List.mem_flatMap.mp hb
  exact Utf8.bytes_lt (Utf8.isScalar_scalars (units_lt str) s hs).1 b hb

/-- What is decoded of the bytes of a text is the text exactly when the codec keeps it. -/
theorem uint8ArrayToString_iff (str : JsString) : uint8ArrayToString (stringToUint8Array str) = str ↔ KeptByUtf8 str := by
  have hunits := units_lt str
  have hdecoded : ∀ c ∈ (Utf8.decode ((Utf8.scalars (str.map UInt16.toNat)).flatMap Utf8.bytes)).flatMap Utf8.units,
      c < 0x10000 := by
    intro c hc
    obtain ⟨s, hs, hc⟩ := List.mem_flatMap.mp hc
    exact units_of_isScalar (Utf8.isScalar_decode hunits s hs) c hc
  rw [uint8ArrayToString, stringToUint8Array, map_toNat_ofNat (encoded_lt str), map_ofNat_eq_iff hdecoded,
    Utf8.decode_iff hunits]
  rfl

theorem stringToUint8Array_append {c : UInt16} (hc : c.toNat < 0x80) (a b : JsString) :
    stringToUint8Array (a ++ c :: b) = stringToUint8Array a ++ UInt8.ofNat c.toNat :: stringToUint8Array b := by
  have hscalar : ¬ Utf8.IsSurrogate c.toNat := fun h => absurd h.1 (by omega)
  have hbyte : Utf8.bytes c.toNat = [c.toNat] := if_pos hc
  simp [stringToUint8Array, Utf8.scalars_append hscalar, hbyte]

theorem stringToUint8Array_ascii {s : JsString} (h : ∀ c ∈ s, c.toNat < 0x80) :
    stringToUint8Array s = s.map fun c => UInt8.ofNat c.toNat := by
  induction s with
  | nil => rfl
  | cons c s ih =>
    have hcons := stringToUint8Array_append (h c List.mem_cons_self) [] s
    rw [ih fun d hd => h d (List.mem_cons_of_mem _ hd)] at hcons
    exact hcons

theorem scalars_of_encoded {s s' : JsString} (h : stringToUint8Array s = stringToUint8Array s') :
    Utf8.scalars (s.map UInt16.toNat) = Utf8.scalars (s'.map UInt16.toNat) := by
  have hbytes := congrArg (List.map UInt8.toNat) h
  rw [stringToUint8Array, stringToUint8Array, map_toNat_ofNat (encoded_lt s), map_toNat_ofNat (encoded_lt s')] at hbytes
  exact Utf8.bytes_injective (Utf8.isScalar_scalars (units_lt s)) (Utf8.isScalar_scalars (units_lt s')) hbytes

theorem oneByte_injective {s s' : JsString} (h : ∀ c ∈ s, c.toNat < 0x100)
    (heq : stringToUint8Array s = stringToUint8Array s') : s = s' := by
  have hunits : ∀ c ∈ s.map UInt16.toNat, c < 0x100 := by
    intro c hc
    obtain ⟨u, hu, rfl⟩ := List.mem_map.mp hc
    exact h u hu
  have hself : Utf8.scalars (s.map UInt16.toNat) = s.map UInt16.toNat := by
    apply Utf8.scalars_self
    intro c hc hsurrogate
    exact absurd hsurrogate.1 (by have := hunits c hc; omega)
  have hscalars := scalars_of_encoded heq
  rw [hself] at hscalars
  have hself' : Utf8.scalars (s'.map UInt16.toNat) = s'.map UInt16.toNat := by
    apply Utf8.scalars_eq_self
    intro c hc
    rw [← hscalars] at hc
    exact (hunits c hc).trans (by decide)
  rw [hself'] at hscalars
  exact List.map_injective_iff.mpr (fun _ _ h => UInt16.toNat_inj.mp h) hscalars

/-- Strings without lone surrogates are told apart by their bytes. -/
theorem wellFormed_injective {s s' : JsString} (h : Utf8.WellFormed (s.map UInt16.toNat))
    (h' : Utf8.WellFormed (s'.map UInt16.toNat)) (heq : stringToUint8Array s = stringToUint8Array s') : s = s' := by
  have hunits : s.map UInt16.toNat = s'.map UInt16.toNat := by
    rw [← (Utf8.units_scalars_iff (units_lt s)).mpr h, ← (Utf8.units_scalars_iff (units_lt s')).mpr h',
      scalars_of_encoded heq]
  exact List.map_injective_iff.mpr (fun _ _ h => UInt16.toNat_inj.mp h) hunits

/-! ## Base64 -/

def equalsSign : UInt16 := 0x3d

def base64Char (n : ℕ) : UInt16 :=
  UInt16.ofNat (if n < 26 then n + 65 else if n < 52 then n + 71 else if n < 62 then n - 4 else if n = 62 then 43 else 47)

/-- Groups of six bits, of which the last is filled with zeros. -/
def sextets : Bytes → List ℕ
  | a :: b :: c :: rest =>
    [a.toNat / 4, a.toNat % 4 * 16 + b.toNat / 16, b.toNat % 16 * 4 + c.toNat / 64, c.toNat % 64] ++ sextets rest
  | [a, b] => [a.toNat / 4, a.toNat % 4 * 16 + b.toNat / 16, b.toNat % 16 * 4]
  | [a] => [a.toNat / 4, a.toNat % 4 * 16]
  | [] => []

/-- `btoa` of the string that has a character for each byte. -/
def uint8ArrayToBase64 (bytes : Bytes) : JsString :=
  (sextets bytes).map base64Char ++ List.replicate ((3 - bytes.length % 3) % 3) equalsSign

def isAsciiWhiteSpace (c : UInt16) : Bool := [0x09, 0x0a, 0x0c, 0x0d, 0x20].contains c

/-- At most two signs at the end of a string whose length is a multiple of four. -/
def stripPadding (s : JsString) : JsString :=
  if s.length % 4 ≠ 0 then s
  else if s.getLast? ≠ some equalsSign then s
  else if s.dropLast.getLast? ≠ some equalsSign then s.dropLast
  else s.dropLast.dropLast

/-- `atob`, with the bytes of the characters of its result, `none` where it throws. -/
def atob (s : JsString) : Option Bytes :=
  let s := stripPadding (s.filter fun c => !isAsciiWhiteSpace c)
  if s.length % 4 = 1 then none
  else (s.mapM fun c => if c = 0x2d ∨ c = 0x5f then none else base64Value c).map base64Bytes

def base64ToUint8Array (base64 : JsString) : Option Bytes :=
  let sanitized := (base64.filter fun c => !isWhiteSpace c).map fun c => if c = 0x2d then 0x2b else c
  let sanitized := sanitized.map fun c => if c = 0x5f then 0x2f else c
  atob (sanitized ++ List.replicate ((4 - sanitized.length % 4) % 4) equalsSign)

/-! ### The round trip -/

theorem sextets_lt (bytes : Bytes) : ∀ n ∈ sextets bytes, n < 64 := by
  induction bytes using sextets.induct with
  | case1 a b c rest ih =>
    have ha := a.toNat_lt
    have hb := b.toNat_lt
    have hc := c.toNat_lt
    intro n hn
    rcases List.mem_append.mp hn with hn | hn
    · simp only [List.mem_cons, List.not_mem_nil, or_false] at hn
      omega
    · exact ih n hn
  | case2 a b =>
    have ha := a.toNat_lt
    have hb := b.toNat_lt
    intro n hn
    simp only [sextets, List.mem_cons, List.not_mem_nil, or_false] at hn
    omega
  | case3 a =>
    have ha := a.toNat_lt
    intro n hn
    simp only [sextets, List.mem_cons, List.not_mem_nil, or_false] at hn
    omega
  | case4 => exact fun n hn => absurd hn List.not_mem_nil

theorem sextets_length (bytes : Bytes) :
    (sextets bytes).length + (3 - bytes.length % 3) % 3 = (bytes.length + 2) / 3 * 4 := by
  induction bytes using sextets.induct with
  | case1 a b c rest ih =>
    rw [sextets, List.length_append]
    simp only [List.length_cons, List.length_nil]
    omega
  | case2 a b =>
    rw [sextets]
    simp only [List.length_cons, List.length_nil]
  | case3 a =>
    rw [sextets]
    simp only [List.length_cons, List.length_nil]
  | case4 => rfl

theorem base64Bytes_sextets (bytes : Bytes) : base64Bytes (sextets bytes) = bytes := by
  have hbyte : ∀ (x : UInt8) (n : ℕ), n = x.toNat → UInt8.ofNat n = x := by
    rintro x _ rfl
    exact UInt8.ofNat_toNat
  induction bytes using sextets.induct with
  | case1 a b c rest ih =>
    have ha := a.toNat_lt
    have hb := b.toNat_lt
    have hc := c.toNat_lt
    rw [sextets]
    simp only [List.cons_append, List.nil_append, base64Bytes]
    rw [ih, hbyte a _ (by omega), hbyte b _ (by omega), hbyte c _ (by omega)]
  | case2 a b =>
    have ha := a.toNat_lt
    have hb := b.toNat_lt
    rw [sextets, base64Bytes, hbyte a _ (by omega), hbyte b _ (by omega)]
  | case3 a =>
    have ha := a.toNat_lt
    rw [sextets, base64Bytes, hbyte a _ (by omega)]
  | case4 => rfl

/-- The characters of the alphabet are read as what they stand for, and none of them is dropped or replaced. -/
theorem base64Char_spec {n : ℕ} (h : n < 64) : base64Value (base64Char n) = some n ∧
    isWhiteSpace (base64Char n) = false ∧ isAsciiWhiteSpace (base64Char n) = false ∧ base64Char n ≠ 0x2d ∧
      base64Char n ≠ 0x5f ∧ base64Char n ≠ equalsSign := by
  have hall : ∀ m : Fin 64, base64Value (base64Char m) = some m.val ∧ isWhiteSpace (base64Char m) = false ∧
      isAsciiWhiteSpace (base64Char m) = false ∧ base64Char m ≠ 0x2d ∧ base64Char m ≠ 0x5f ∧
        base64Char m ≠ equalsSign := by decide
  exact hall ⟨n, h⟩

theorem stripPadding_replicate {s : JsString} (hs : equalsSign ∉ s) {k : ℕ} (hk : k < 3)
    (hlength : (s.length + k) % 4 = 0) : stripPadding (s ++ List.replicate k equalsSign) = s := by
  have hlast : s.getLast? ≠ some equalsSign := fun h => hs (List.mem_of_getLast? h)
  have hmultiple : ¬ (s ++ List.replicate k equalsSign).length % 4 ≠ 0 := by
    rw [List.length_append, List.length_replicate]
    omega
  rw [stripPadding, if_neg hmultiple]
  match k, hk with
  | 0, _ => rw [List.replicate_zero, List.append_nil, if_pos hlast]
  | 1, _ =>
    rw [List.replicate_one, List.getLast?_concat, if_neg (not_not.mpr rfl), List.dropLast_concat, if_pos hlast]
  | 2, _ =>
    have htwo : s ++ List.replicate 2 equalsSign = (s ++ [equalsSign]) ++ [equalsSign] := by
      rw [List.append_assoc]
      rfl
    rw [htwo, List.getLast?_concat, if_neg (not_not.mpr rfl), List.dropLast_concat, List.getLast?_concat,
      if_neg (not_not.mpr rfl), List.dropLast_concat]

theorem uint8ArrayToBase64_spec (bytes : Bytes) : (∀ c ∈ uint8ArrayToBase64 bytes, isWhiteSpace c = false ∧
    isAsciiWhiteSpace c = false ∧ c ≠ 0x2d ∧ c ≠ 0x5f) ∧ (uint8ArrayToBase64 bytes).length % 4 = 0 := by
  constructor
  · intro c hc
    rcases List.mem_append.mp hc with hc | hc
    · obtain ⟨n, hn, rfl⟩ := List.mem_map.mp hc
      obtain ⟨_, hspace, hascii, hminus, hunderscore, _⟩ := base64Char_spec (sextets_lt bytes n hn)
      exact ⟨hspace, hascii, hminus, hunderscore⟩
    · rw [List.eq_of_mem_replicate hc]
      decide
  · rw [uint8ArrayToBase64, List.length_append, List.length_map, List.length_replicate, sextets_length,
      Nat.mul_mod_left]

theorem atob_uint8ArrayToBase64 (bytes : Bytes) : atob (uint8ArrayToBase64 bytes) = some bytes := by
  obtain ⟨hplain, _⟩ := uint8ArrayToBase64_spec bytes
  have hascii : (uint8ArrayToBase64 bytes).filter (fun c => !isAsciiWhiteSpace c) = uint8ArrayToBase64 bytes :=
    List.filter_eq_self.mpr fun c hc => by rw [(hplain c hc).2.1]; rfl
  have hstrip : stripPadding (uint8ArrayToBase64 bytes) = (sextets bytes).map base64Char := by
    refine stripPadding_replicate (fun hmem => ?_) (Nat.mod_lt _ (by decide)) ?_
    · obtain ⟨n, hn, heq⟩ := List.mem_map.mp hmem
      exact (base64Char_spec (sextets_lt bytes n hn)).2.2.2.2.2 heq
    · rw [List.length_map, sextets_length, Nat.mul_mod_left]
  have hlength : ¬ ((sextets bytes).map base64Char).length % 4 = 1 := by
    have hsum := sextets_length bytes
    rw [List.length_map]
    omega
  have hvalues : ((sextets bytes).map base64Char).mapM
      (fun c => if c = 0x2d ∨ c = 0x5f then none else base64Value c) = some (sextets bytes) := by
    have hlt := sextets_lt bytes
    generalize sextets bytes = l at hlt
    induction l with
    | nil => rfl
    | cons n l ih =>
      obtain ⟨hvalue, _, _, hminus, hunderscore, _⟩ := base64Char_spec (hlt n List.mem_cons_self)
      rw [List.map_cons, List.mapM_cons, if_neg (not_or.mpr ⟨hminus, hunderscore⟩), hvalue,
        ih fun m hm => hlt m (List.mem_cons_of_mem _ hm)]
      rfl
  simp only [atob, hascii, hstrip, if_neg hlength, hvalues, Option.map_some, base64Bytes_sextets]

theorem base64ToUint8Array_uint8ArrayToBase64 (bytes : Bytes) :
    base64ToUint8Array (uint8ArrayToBase64 bytes) = some bytes := by
  obtain ⟨hplain, hmultiple⟩ := uint8ArrayToBase64_spec bytes
  have hfilter : (uint8ArrayToBase64 bytes).filter (fun c => !isWhiteSpace c) = uint8ArrayToBase64 bytes :=
    List.filter_eq_self.mpr fun c hc => by rw [(hplain c hc).1]; rfl
  have hminus : (uint8ArrayToBase64 bytes).map (fun c => if c = 0x2d then 0x2b else c) = uint8ArrayToBase64 bytes :=
    (List.map_congr_left fun c hc => if_neg (hplain c hc).2.2.1).trans (List.map_id _)
  have hunderscore : (uint8ArrayToBase64 bytes).map (fun c => if c = 0x5f then 0x2f else c) =
      uint8ArrayToBase64 bytes :=
    (List.map_congr_left fun c hc => if_neg (hplain c hc).2.2.2).trans (List.map_id _)
  simp only [base64ToUint8Array, hfilter, hminus, hunderscore, hmultiple]
  rw [show (4 - 0) % 4 = 0 from rfl, List.replicate_zero, List.append_nil]
  exact atob_uint8ArrayToBase64 bytes

end ChainGuard.OffChain
