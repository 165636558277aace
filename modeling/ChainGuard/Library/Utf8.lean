import Mathlib.Data.List.Basic

/-! UTF-16 and UTF-8: the scalar values of code units, with the replacement of lone surrogates, their bytes, and the
decoder, which replaces what is malformed. Units, scalar values and bytes are naturals. -/
namespace Utf8
set_option autoImplicit false

def replacement : ℕ := 0xfffd

def byteOrderMark : ℕ := 0xfeff

def IsLead (c : ℕ) : Prop := 0xd800 ≤ c ∧ c < 0xdc00

def IsTrail (c : ℕ) : Prop := 0xdc00 ≤ c ∧ c < 0xe000

def IsSurrogate (c : ℕ) : Prop := 0xd800 ≤ c ∧ c < 0xe000

instance : DecidablePred IsLead := fun _ => inferInstanceAs (Decidable (_ ∧ _))
instance : DecidablePred IsTrail := fun _ => inferInstanceAs (Decidable (_ ∧ _))
instance : DecidablePred IsSurrogate := fun _ => inferInstanceAs (Decidable (_ ∧ _))

def IsScalar (s : ℕ) : Prop := s < 0x110000 ∧ ¬ IsSurrogate s

/-! ## UTF-16 -/

def scalarOf (c : ℕ) : ℕ := if IsSurrogate c then replacement else c

def scalarOfPair (c d : ℕ) : ℕ := 0x10000 + (c - 0xd800) * 1024 + (d - 0xdc00)

/-- The scalar values of code units. -/
def scalars : List ℕ → List ℕ
  | [] => []
  | [c] => [scalarOf c]
  | c :: d :: rest =>
    if IsLead c ∧ IsTrail d then scalarOfPair c d :: scalars rest else scalarOf c :: scalars (d :: rest)

/-- The code units of a scalar value. -/
def units (s : ℕ) : List ℕ :=
  if s < 0x10000 then [s] else [0xd800 + (s - 0x10000) / 1024, 0xdc00 + (s - 0x10000) % 1024]

def WellFormed : List ℕ → Prop
  | [] => True
  | [c] => ¬ IsSurrogate c
  | c :: d :: rest => if IsLead c ∧ IsTrail d then WellFormed rest else ¬ IsSurrogate c ∧ WellFormed (d :: rest)

def decidableWellFormed : (us : List ℕ) → Decidable (WellFormed us)
  | [] => isTrue trivial
  | [c] => inferInstanceAs (Decidable (¬ IsSurrogate c))
  | c :: d :: rest =>
    have := decidableWellFormed rest
    have := decidableWellFormed (d :: rest)
    inferInstanceAs (Decidable (if IsLead c ∧ IsTrail d then WellFormed rest else ¬ IsSurrogate c ∧ WellFormed (d :: rest)))

instance : DecidablePred WellFormed := decidableWellFormed

theorem units_scalarOfPair {c d : ℕ} (hc : IsLead c) (hd : IsTrail d) : units (scalarOfPair c d) = [c, d] := by
  unfold IsLead at hc
  unfold IsTrail at hd
  have hlarge : ¬ scalarOfPair c d < 0x10000 := by
    unfold scalarOfPair
    omega
  have hhigh : 0xd800 + (scalarOfPair c d - 0x10000) / 1024 = c := by
    unfold scalarOfPair
    omega
  have hlow : 0xdc00 + (scalarOfPair c d - 0x10000) % 1024 = d := by
    unfold scalarOfPair
    omega
  rw [units, if_neg hlarge, hhigh, hlow]

theorem units_scalarOf {c : ℕ} (hc : c < 0x10000) : units (scalarOf c) = [scalarOf c] := by
  have hlt : scalarOf c < 0x10000 := by
    rw [scalarOf]
    split
    · decide
    · exact hc
  rw [units, if_pos hlt]

theorem isScalar_scalarOf {c : ℕ} (hc : c < 0x10000) : IsScalar (scalarOf c) := by
  rw [scalarOf]
  split
  · exact ⟨by decide, by decide⟩
  · next hsurrogate => exact ⟨by omega, hsurrogate⟩

theorem isScalar_scalarOfPair {c d : ℕ} (hc : IsLead c) (hd : IsTrail d) : IsScalar (scalarOfPair c d) := by
  unfold IsLead at hc
  unfold IsTrail at hd
  unfold IsScalar IsSurrogate scalarOfPair
  omega

theorem isScalar_scalars {us : List ℕ} (hus : ∀ c ∈ us, c < 0x10000) : ∀ s ∈ scalars us, IsScalar s := by
  induction us using scalars.induct with
  | case1 => exact fun s hs => absurd hs List.not_mem_nil
  | case2 c =>
    rw [scalars]
    simp only [List.mem_singleton, forall_eq]
    exact isScalar_scalarOf (hus c List.mem_cons_self)
  | case3 c d rest hpair ih =>
    rw [scalars, if_pos hpair]
    exact List.forall_mem_cons.mpr ⟨isScalar_scalarOfPair hpair.1 hpair.2,
      ih fun e he => hus e (List.mem_cons_of_mem _ (List.mem_cons_of_mem _ he))⟩
  | case4 c d rest hpair ih =>
    rw [scalars, if_neg hpair]
    exact List.forall_mem_cons.mpr ⟨isScalar_scalarOf (hus c List.mem_cons_self),
      ih fun e he => hus e (List.mem_cons_of_mem _ he)⟩

/-- Every unit gives one unit back, if not always itself. -/
theorem units_scalars_length {us : List ℕ} (hus : ∀ c ∈ us, c < 0x10000) :
    ((scalars us).flatMap units).length = us.length := by
  induction us using scalars.induct with
  | case1 => rfl
  | case2 c =>
    rw [scalars, List.flatMap_singleton, units_scalarOf (hus c List.mem_cons_self)]
    rfl
  | case3 c d rest hpair ih =>
    rw [scalars, if_pos hpair, List.flatMap_cons, units_scalarOfPair hpair.1 hpair.2, List.length_append,
      ih fun e he => hus e (List.mem_cons_of_mem _ (List.mem_cons_of_mem _ he)), List.length_cons, List.length_cons,
      List.length_cons, List.length_cons, List.length_nil]
    omega
  | case4 c d rest hpair ih =>
    rw [scalars, if_neg hpair, List.flatMap_cons, units_scalarOf (hus c List.mem_cons_self), List.length_append,
      ih fun e he => hus e (List.mem_cons_of_mem _ he)]
    exact Nat.add_comm ..

theorem scalarOf_eq_iff {c : ℕ} : scalarOf c = c ↔ ¬ IsSurrogate c := by
  rw [scalarOf]
  split
  · next hsurrogate =>
    refine iff_of_false (fun heq => ?_) (not_not.mpr hsurrogate)
    rw [← heq] at hsurrogate
    exact absurd hsurrogate (by decide)
  · next hsurrogate => exact iff_of_true rfl hsurrogate

/-- Units come back exactly where none is a lone surrogate. -/
theorem units_scalars_iff {us : List ℕ} (hus : ∀ c ∈ us, c < 0x10000) :
    (scalars us).flatMap units = us ↔ WellFormed us := by
  induction us using scalars.induct with
  | case1 => exact iff_of_true rfl trivial
  | case2 c =>
    rw [scalars, List.flatMap_singleton, units_scalarOf (hus c List.mem_cons_self), List.cons.injEq,
      and_iff_left rfl, scalarOf_eq_iff]
    rfl
  | case3 c d rest hpair ih =>
    rw [scalars, if_pos hpair, List.flatMap_cons, units_scalarOfPair hpair.1 hpair.2, WellFormed, if_pos hpair]
    have hrest := ih fun e he => hus e (List.mem_cons_of_mem _ (List.mem_cons_of_mem _ he))
    rw [← hrest]
    simp
  | case4 c d rest hpair ih =>
    rw [scalars, if_neg hpair, List.flatMap_cons, units_scalarOf (hus c List.mem_cons_self), WellFormed, if_neg hpair,
      ← ih fun e he => hus e (List.mem_cons_of_mem _ he), ← scalarOf_eq_iff]
    exact List.cons.injEq .. ▸ Iff.rfl

theorem scalars_head_iff {us : List ℕ} {s : ℕ} (hs : s < 0x10000) (hne : s ≠ replacement) (hscalar : ¬ IsSurrogate s) :
    (scalars us).head? = some s ↔ us.head? = some s := by
  have hscalarOf : ∀ c, scalarOf c = s ↔ c = s := by
    intro c
    rw [scalarOf]
    split
    · next hsurrogate => exact iff_of_false (Ne.symm hne) fun heq => hscalar (heq ▸ hsurrogate)
    · exact Iff.rfl
  induction us using scalars.induct with
  | case1 => exact Iff.rfl
  | case2 c => simp [scalars, hscalarOf]
  | case3 c d rest hpair _ =>
    rw [scalars, if_pos hpair, List.head?_cons, List.head?_cons, Option.some_inj, Option.some_inj]
    refine iff_of_false (fun heq => ?_) fun heq => hscalar ?_
    · unfold scalarOfPair at heq
      omega
    · rw [← heq]
      exact ⟨hpair.1.1, Nat.lt_trans hpair.1.2 (by decide)⟩
  | case4 c d rest hpair _ =>
    rw [scalars, if_neg hpair, List.head?_cons, List.head?_cons, Option.some_inj, Option.some_inj, hscalarOf]

theorem scalars_cons {c : ℕ} (hc : ¬ IsSurrogate c) (rest : List ℕ) : scalars (c :: rest) = c :: scalars rest := by
  have hlead : ¬ IsLead c := fun h => hc ⟨h.1, Nat.lt_trans h.2 (by decide)⟩
  cases rest with
  | nil => exact congrArg (fun s => [s]) (scalarOf_eq_iff.mpr hc)
  | cons d rest => rw [scalars, if_neg fun h => hlead h.1, scalarOf_eq_iff.mpr hc]

/-- A unit that is no surrogate stands for itself between whatever units. -/
theorem scalars_append {c : ℕ} (hc : ¬ IsSurrogate c) (us rest : List ℕ) :
    scalars (us ++ c :: rest) = scalars us ++ c :: scalars rest := by
  have htrail : ¬ IsTrail c := fun h => hc ⟨Nat.le_trans (by decide) h.1, h.2⟩
  induction us using scalars.induct with
  | case1 => exact scalars_cons hc rest
  | case2 d =>
    have hsplit : scalars (d :: c :: rest) = scalarOf d :: scalars (c :: rest) := by
      rw [scalars, if_neg fun h : IsLead d ∧ IsTrail c => htrail h.2]
    exact hsplit.trans (by rw [scalars_cons hc]; rfl)
  | case3 d e us hpair ih =>
    show scalars (d :: e :: (us ++ c :: rest)) = _
    rw [scalars, if_pos hpair, ih, scalars, if_pos hpair]
    rfl
  | case4 d e us hpair ih =>
    show scalars (d :: e :: (us ++ c :: rest)) = _
    rw [scalars, if_neg hpair, scalars, if_neg hpair, List.cons_append, ← ih]
    rfl

theorem scalars_self {us : List ℕ} (h : ∀ c ∈ us, ¬ IsSurrogate c) : scalars us = us := by
  induction us with
  | nil => rfl
  | cons c us ih =>
    rw [scalars_cons (h c List.mem_cons_self), ih fun d hd => h d (List.mem_cons_of_mem _ hd)]

/-- Low scalar values come of themselves alone: neither a pair nor a lone surrogate gives one. -/
theorem scalars_eq_self {us : List ℕ} (h : ∀ s ∈ scalars us, s < 0xd800) : scalars us = us := by
  have hself : ∀ c, scalarOf c < 0xd800 → scalarOf c = c := by
    intro c hlt
    rw [scalarOf_eq_iff]
    intro hsurrogate
    rw [scalarOf, if_pos hsurrogate] at hlt
    exact absurd hlt (by decide)
  induction us using scalars.induct with
  | case1 => rfl
  | case2 c =>
    rw [scalars] at h ⊢
    rw [hself c (h _ List.mem_cons_self)]
  | case3 c d us hpair _ =>
    rw [scalars, if_pos hpair] at h
    have hlt := h _ List.mem_cons_self
    unfold scalarOfPair at hlt
    omega
  | case4 c d us hpair ih =>
    rw [scalars, if_neg hpair] at h ⊢
    rw [hself c (h _ List.mem_cons_self), ih fun s hs => h s (List.mem_cons_of_mem _ hs)]

/-! ## UTF-8 -/

/-- The bytes of a scalar value. -/
def bytes (s : ℕ) : List ℕ :=
  if s < 0x80 then [s]
  else if s < 0x800 then [0xc0 + s / 64, 0x80 + s % 64]
  else if s < 0x10000 then [0xe0 + s / 4096, 0x80 + s / 64 % 64, 0x80 + s % 64]
  else [0xf0 + s / 262144, 0x80 + s / 4096 % 64, 0x80 + s / 64 % 64, 0x80 + s % 64]

/-- Between bytes: what has been read of a scalar value, how many bytes it still needs, and between what bounds the
next one lies. -/
structure State where
  codePoint : ℕ
  bytesNeeded : ℕ
  lowerBoundary : ℕ
  upperBoundary : ℕ

def start : State := ⟨0, 0, 0x80, 0xbf⟩

def first (b : ℕ) : List ℕ × State :=
  if b < 0x80 then ([b], start)
  else if 0xc2 ≤ b ∧ b ≤ 0xdf then ([], ⟨b % 32, 1, 0x80, 0xbf⟩)
  else if 0xe0 ≤ b ∧ b ≤ 0xef then
    ([], ⟨b % 16, 2, if b = 0xe0 then 0xa0 else 0x80, if b = 0xed then 0x9f else 0xbf⟩)
  else if 0xf0 ≤ b ∧ b ≤ 0xf4 then
    ([], ⟨b % 8, 3, if b = 0xf0 then 0x90 else 0x80, if b = 0xf4 then 0x8f else 0xbf⟩)
  else ([replacement], start)

/-- A byte that cannot follow is read again as a first one. -/
def step (q : State) (b : ℕ) : List ℕ × State :=
  if q.bytesNeeded = 0 then first b
  else if b < q.lowerBoundary ∨ q.upperBoundary < b then (replacement :: (first b).1, (first b).2)
  else if q.bytesNeeded = 1 then ([q.codePoint * 64 + b % 64], start)
  else ([], ⟨q.codePoint * 64 + b % 64, q.bytesNeeded - 1, 0x80, 0xbf⟩)

def decodeFrom (q : State) : List ℕ → List ℕ
  | [] => if q.bytesNeeded = 0 then [] else [replacement]
  | b :: rest => (step q b).1 ++ decodeFrom (step q b).2 rest

def decode (input : List ℕ) : List ℕ :=
  let output := decodeFrom start input
  if output.head? = some byteOrderMark then output.tail else output

theorem bytes_lt {s : ℕ} (hs : s < 0x110000) : ∀ b ∈ bytes s, b < 256 := by
  rw [bytes]
  split_ifs <;> simp only [List.mem_cons, List.not_mem_nil, or_false, forall_eq_or_imp, forall_eq] <;> omega

theorem decodeFrom_first {b : ℕ} (rest : List ℕ) : decodeFrom start (b :: rest) = (first b).1 ++ decodeFrom (first b).2 rest :=
  rfl

/-- A byte within the bounds, with more to come. -/
theorem decodeFrom_more {v n lower upper b : ℕ} (hb : lower ≤ b ∧ b ≤ upper) (rest : List ℕ) :
    decodeFrom ⟨v, n + 2, lower, upper⟩ (b :: rest) = decodeFrom ⟨v * 64 + b % 64, n + 1, 0x80, 0xbf⟩ rest := by
  have hin : ¬ (b < lower ∨ upper < b) := by omega
  have hne : n + 2 ≠ 1 := by omega
  rw [decodeFrom, step, if_neg (Nat.succ_ne_zero _)]
  dsimp only
  rw [if_neg hin, if_neg hne]
  rfl

/-- The last byte of a scalar value. -/
theorem decodeFrom_last {v lower upper b : ℕ} (hb : lower ≤ b ∧ b ≤ upper) (rest : List ℕ) :
    decodeFrom ⟨v, 1, lower, upper⟩ (b :: rest) = (v * 64 + b % 64) :: decodeFrom start rest := by
  have hin : ¬ (b < lower ∨ upper < b) := by omega
  rw [decodeFrom, step, if_neg (Nat.succ_ne_zero _)]
  dsimp only
  rw [if_neg hin, if_pos rfl]
  rfl

theorem decodeFrom_bytes {s : ℕ} (hs : IsScalar s) (rest : List ℕ) :
    decodeFrom start (bytes s ++ rest) = s :: decodeFrom start rest := by
  obtain ⟨hmax, hsurrogate⟩ := hs
  unfold IsSurrogate at hsurrogate
  rw [bytes]
  split_ifs with hone htwo hthree
  · rw [List.singleton_append, decodeFrom_first, first, if_pos hone]
    rfl
  · have hfirst : first (0xc0 + s / 64) = ([], ⟨s / 64, 1, 0x80, 0xbf⟩) := by
      have hvalue : (0xc0 + s / 64) % 32 = s / 64 := by omega
      rw [first, if_neg (by omega), if_pos (by omega), hvalue]
    have hvalue : s / 64 * 64 + (0x80 + s % 64) % 64 = s := by omega
    rw [List.cons_append, decodeFrom_first, hfirst, List.nil_append, List.singleton_append,
      decodeFrom_last (by omega), hvalue]
  · have hfirst : first (0xe0 + s / 4096) = ([], ⟨s / 4096, 2, if 0xe0 + s / 4096 = 0xe0 then 0xa0 else 0x80,
        if 0xe0 + s / 4096 = 0xed then 0x9f else 0xbf⟩) := by
      have hvalue : (0xe0 + s / 4096) % 16 = s / 4096 := by omega
      rw [first, if_neg (by omega), if_neg (by omega), if_pos (by omega), hvalue]
    have hvalue : (s / 4096 * 64 + (0x80 + s / 64 % 64) % 64) * 64 + (0x80 + s % 64) % 64 = s := by omega
    rw [List.cons_append, decodeFrom_first, hfirst, List.nil_append, List.cons_append,
      decodeFrom_more (by constructor <;> split_ifs <;> omega), List.singleton_append, decodeFrom_last (by omega), hvalue]
  · have hfirst : first (0xf0 + s / 262144) = ([], ⟨s / 262144, 3, if 0xf0 + s / 262144 = 0xf0 then 0x90 else 0x80,
        if 0xf0 + s / 262144 = 0xf4 then 0x8f else 0xbf⟩) := by
      have hvalue : (0xf0 + s / 262144) % 8 = s / 262144 := by omega
      rw [first, if_neg (by omega), if_neg (by omega), if_neg (by omega), if_pos (by omega), hvalue]
    have hvalue : ((s / 262144 * 64 + (0x80 + s / 4096 % 64) % 64) * 64 + (0x80 + s / 64 % 64) % 64) * 64 +
        (0x80 + s % 64) % 64 = s := by omega
    rw [List.cons_append, decodeFrom_first, hfirst, List.nil_append, List.cons_append,
      decodeFrom_more (by constructor <;> split_ifs <;> omega), List.cons_append, decodeFrom_more (by omega),
      List.singleton_append, decodeFrom_last (by omega), hvalue]

theorem decodeFrom_encoded {ss : List ℕ} (hss : ∀ s ∈ ss, IsScalar s) : decodeFrom start (ss.flatMap bytes) = ss := by
  induction ss with
  | nil => rfl
  | cons s ss ih =>
    rw [List.flatMap_cons, decodeFrom_bytes (hss s List.mem_cons_self),
      ih fun s' hs' => hss s' (List.mem_cons_of_mem _ hs')]

theorem bytes_injective {ss ss' : List ℕ} (hss : ∀ s ∈ ss, IsScalar s) (hss' : ∀ s ∈ ss', IsScalar s)
    (h : ss.flatMap bytes = ss'.flatMap bytes) : ss = ss' := by
  rw [← decodeFrom_encoded hss, h, decodeFrom_encoded hss']

theorem isScalar_decode {us : List ℕ} (hus : ∀ c ∈ us, c < 0x10000) :
    ∀ s ∈ decode ((scalars us).flatMap bytes), IsScalar s := by
  rw [decode, decodeFrom_encoded (isScalar_scalars hus)]
  split
  · exact fun s hs => isScalar_scalars hus s (List.mem_of_mem_tail hs)
  · exact isScalar_scalars hus

/-- Units come back through the bytes exactly where none is a lone surrogate and the first is no mark. -/
theorem decode_iff {us : List ℕ} (hus : ∀ c ∈ us, c < 0x10000) :
    (decode ((scalars us).flatMap bytes)).flatMap units = us ↔
      WellFormed us ∧ us.head? ≠ some byteOrderMark := by
  have hhead : (scalars us).head? = some byteOrderMark ↔ us.head? = some byteOrderMark :=
    scalars_head_iff (by decide) (by decide) (by decide)
  rw [decode, decodeFrom_encoded (isScalar_scalars hus)]
  by_cases hmark : us.head? = some byteOrderMark
  · rw [if_pos (hhead.mpr hmark)]
    refine iff_of_false (fun heq => ?_) fun h => h.2 hmark
    -- the mark is missing, and every other unit gives one back
    have hlength := units_scalars_length hus
    obtain ⟨rest, hrest⟩ : ∃ rest, scalars us = byteOrderMark :: rest :=
      ⟨_, (List.cons_head?_tail (hhead.mpr hmark)).symm⟩
    rw [hrest, List.tail_cons] at heq
    rw [hrest, List.flatMap_cons, List.length_append, heq] at hlength
    have hunits : (units byteOrderMark).length = 1 := by decide
    omega
  · rw [if_neg (mt hhead.mp hmark), units_scalars_iff hus]
    exact (and_iff_left hmark).symm

end Utf8
