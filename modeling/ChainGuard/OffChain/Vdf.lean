import ChainGuard.Library.BinaryPower
import ChainGuard.Library.Guarded
import ChainGuard.OffChain.Js

/-! The off-chain engine of the delay functions: the challenges, and the verification of Wesolowski's and
Pietrzak's proofs. Bigints are integers, and so is the delay, a number. -/
namespace ChainGuard.OffChain.Vdf
open Guarded
set_option autoImplicit false

abbrev Result (α : Type) := Except Thrown α

inductive PackedValue
  | bytes (data : Bytes)
  | uint64 (value : ℤ)

/-- What the engine takes from its libraries. -/
structure Runtime where
  /-- `keccak256` and `solidityPacked` of ethers; the latter may throw. -/
  keccak256 : Bytes → Bytes32
  solidityPacked : List PackedValue → Option Bytes
  /-- `Math.log2` -/
  log2 : ℤ → ℚ

def PackedValue.encoding : PackedValue → Option Bytes
  | .bytes data => some data
  | .uint64 value => if 0 ≤ value ∧ value < 2 ^ 64 then some (bytesBE 8 value.toNat) else none

/-- The values are packed tightly, and one that does not fit its type is refused. -/
def Runtime.PacksTightly (rt : Runtime) : Prop :=
  ∀ values, rt.solidityPacked values = (values.mapM PackedValue.encoding).map List.flatten

/-! ## Bigints and bytes -/

/-- `a % b` -/
def rem (a b : ℤ) : Result ℤ := if b = 0 then .error .rangeError else pure (a.tmod b)

def modPow (base exp mod : ℤ) : Result ℤ := do
  if mod = 1 then pure 0
  else
    let b ← rem ((← rem base mod) + mod) mod
    BinaryPower.loop (fun result b => rem (result * b) mod) (fun b => rem (b * b) mod) (exp.toNat.log2 + 1) 1 b
      exp.toNat

/-- `value.toString(16)`, each digit as a number. -/
def hexDigits (value : ℕ) : List ℕ := if value = 0 then [0] else (Nat.digits 16 value).reverse

def bytesOfPairs : List ℕ → Bytes
  | high :: low :: rest => UInt8.ofNat (16 * high + low) :: bytesOfPairs rest
  | _ => []

def toBytesBE (value : ℤ) : Result Bytes :=
  if value < 0 then .error (.error "negative bigint")
  else if value = 0 then pure [0]
  else
    let hex := hexDigits value.toNat
    pure (bytesOfPairs (if hex.length % 2 = 1 then 0 :: hex else hex))

def byteLength (value : ℕ) : ℕ := if value = 0 then 1 else ((hexDigits value).length + 1) / 2

def toBytesBEPadded (value : ℤ) (width : ℕ) : Result Bytes := do
  let raw ← toBytesBE value
  if raw.length = width then pure raw
  else if width < raw.length then pure (raw.drop (raw.length - width))
  else pure (List.replicate (width - raw.length) 0 ++ raw)

/-- `bytesToBigInt(hexToBytes(digest))` -/
def bytesToBigInt (digest : Bytes32) : ℕ := natBE (word digest.toNat)

/-! ## Challenges -/

def assertPositiveBigInt (value : ℤ) (label : String) : Result Unit :=
  revertIf (value ≤ 0) (.error (label ++ " must be a positive bigint"))

def assertValidT (T : ℤ) : Result Unit := revertIf (T < 1) (.error "T must be a positive integer")

section Engine
variable (rt : Runtime)

def packedWidth (N : ℤ) : ℕ := if byteLength N.toNat ≤ 32 then 32 else byteLength N.toNat

def packed (values : List PackedValue) : Result Bytes :=
  match rt.solidityPacked values with
  | none => .error .library
  | some data => pure data

def fiatShamirChallenge (x y T N : ℤ) (challengeBits : ℕ) : Result ℤ := do
  let width := packedWidth N
  let data ← packed rt
    [.bytes (← toBytesBEPadded (← rem x N) width), .bytes (← toBytesBEPadded (← rem y N) width), .uint64 T,
      .bytes (← toBytesBEPadded N width)]
  let mask := 2 ^ challengeBits - 1
  let l := bytesToBigInt (rt.keccak256 data) &&& mask
  let l := if l < 3 then 3 else l
  let l := if l &&& 1 = 0 then l + 1 else l
  pure (Int.ofNat l)

def pietrzakChallenge (x y mu T N : ℤ) : Result ℤ := do
  let width := packedWidth N
  let data ← packed rt
    [.bytes (← toBytesBEPadded (← rem x N) width), .bytes (← toBytesBEPadded (← rem y N) width),
      .bytes (← toBytesBEPadded (← rem mu N) width), .uint64 T, .bytes (← toBytesBEPadded N width)]
  let r := bytesToBigInt (rt.keccak256 data) &&& (2 ^ 128 - 1)
  let r := if r = 0 then 1 else r
  pure (Int.ofNat r)

/-! ## Verification -/

structure WesolowskiProof where
  y : ℤ
  pi : ℤ
  l : ℤ
  r : ℤ

structure PietrzakProof where
  y : ℤ
  mus : List ℤ

def verifyWesolowski (x T N : ℤ) (proof : WesolowskiProof) (challengeBits : ℕ) : Result Bool := do
  assertPositiveBigInt N "N"
  assertValidT T
  let xMod ← rem x N
  let expectedL ← fiatShamirChallenge rt xMod proof.y T N challengeBits
  if proof.l ≠ expectedL then pure false
  else
    let r ← modPow 2 T proof.l
    if proof.r ≠ r then pure false
    else
      let left ← rem ((← modPow proof.pi proof.l N) * (← modPow xMod r N)) N
      pure (left == (← rem proof.y N))

/-- One round of the loop of `verifyPietrzak` on `(curX, curY, curT)`, or none where it returns false. -/
def pietrzakRound (N mu : ℤ) : ℤ × ℤ × ℤ → Result (Option (ℤ × ℤ × ℤ))
  | (curX, curY, curT) =>
    if mu ≤ 0 ∨ N ≤ mu then pure none
    else do
      let half := shiftRight curT 1
      let r ← pietrzakChallenge rt curX curY mu curT N
      let newX ← rem ((← modPow curX r N) * mu) N
      let newY ← rem ((← modPow mu r N) * curY) N
      pure (some (newX, newY, half))

def pietrzakRounds (N : ℤ) : List ℤ → ℤ × ℤ × ℤ → Result (Option (ℤ × ℤ × ℤ))
  | [], state => pure (some state)
  | mu :: mus, state => do
    match ← pietrzakRound rt N mu state with
    | none => pure none
    | some state => pietrzakRounds N mus state

def verifyPietrzak (x T N : ℤ) (proof : PietrzakProof) : Result Bool := do
  assertPositiveBigInt N "N"
  if T < 2 ∨ bitAnd T (T - 1) ≠ 0 then pure false
  else if (proof.mus.length : ℚ) ≠ rt.log2 T then pure false
  else
    let curX ← rem x N
    let curY ← rem proof.y N
    match ← pietrzakRounds rt N proof.mus (curX, curY, T) with
    | none => pure false
    | some (curX, curY, curT) => pure (curT == 1 && (← rem (curX * curX) N) == curY)

end Engine

/-! ## Bigints that are naturals -/

theorem rem_natCast (a : ℕ) {b : ℕ} (hb : b ≠ 0) : rem a b = .ok ((a % b : ℕ) : ℤ) := by
  have hne : (b : ℤ) ≠ 0 := Int.natCast_ne_zero.mpr hb
  rw [rem, if_neg hne, Int.tmod_eq_emod_of_nonneg (Int.natCast_nonneg a)]
  rfl

/-- A bigint of the loop stands for a natural that it is the remainder of. -/
def Stands (mod : ℕ) (a : ℤ) (x : ℕ) : Prop := a = ((x % mod : ℕ) : ℤ)

theorem Stands.mul {mod : ℕ} (hmod : mod ≠ 0) {a b : ℤ} {x y : ℕ} (ha : Stands mod a x)
    (hb : Stands mod b y) : ∃ c, rem (a * b) mod = .ok c ∧ Stands mod c (x * y) := by
  refine ⟨((x * y % mod : ℕ) : ℤ), ?_, rfl⟩
  rw [ha, hb, ← Int.natCast_mul, rem_natCast _ hmod, ← Nat.mul_mod]

theorem modPow_natCast (base exp : ℕ) {mod : ℕ} (hne : mod ≠ 0) :
    modPow base exp mod = .ok ((base ^ exp % mod : ℕ) : ℤ) := by
  by_cases hmod : mod = 1
  · rw [hmod, Nat.mod_one]
    rfl
  have hmod : 1 < mod := by omega
  have hone : ¬ (mod : ℤ) = 1 := by omega
  have hsum : ((base % mod : ℕ) : ℤ) + mod = ((base % mod + mod : ℕ) : ℤ) := by push_cast; rfl
  have hstart : (base % mod + mod) % mod = base % mod := by simp
  have hacc : Stands mod 1 1 := by rw [Stands, Nat.mod_eq_of_lt hmod]; rfl
  have hbase : Stands mod ((base % mod : ℕ) : ℤ) base := rfl
  have hmul : ∀ a b x y, Stands mod a x → Stands mod b y →
      ∃ c, rem (a * b) mod = .ok c ∧ Stands mod c (x * y) := fun a b x y ha hb => ha.mul hne hb
  have hsquare : ∀ b y, Stands mod b y → ∃ c, rem (b * b) mod = .ok c ∧ Stands mod c (y * y) :=
    fun b y hb => hb.mul hne hb
  obtain ⟨result, hloop, hresult⟩ :=
    BinaryPower.loop_spec hmul hsquare (exp.log2 + 1) Nat.lt_log2_self hacc hbase
  rw [one_mul] at hresult
  rw [modPow, if_neg hone, rem_natCast _ hne]
  simp only [bind, Except.bind]
  rw [hsum, rem_natCast _ hne, hstart]
  dsimp only
  rw [Int.toNat_natCast, hloop, hresult]

theorem hexDigits_length_le_iff {n k : ℕ} (hn : n ≠ 0) : (hexDigits n).length ≤ k ↔ n < 16 ^ k := by
  rw [hexDigits, if_neg hn, List.length_reverse]
  exact Nat.digits_length_le_iff (by decide) n

theorem hexDigits_value {n : ℕ} (hn : n ≠ 0) : (hexDigits n).foldl (fun acc d => acc * 16 + d) 0 = n := by
  have hvalue := Nat.ofDigits_digits 16 n
  rw [Nat.ofDigits_eq_foldr] at hvalue
  rw [hexDigits, if_neg hn, List.foldl_reverse]
  conv_rhs => rw [← hvalue]
  congr 1
  funext d acc
  rw [Nat.cast_id, mul_comm, add_comm]

theorem hexDigits_lt {n d : ℕ} (hn : n ≠ 0) (hd : d ∈ hexDigits n) : d < 16 := by
  rw [hexDigits, if_neg hn, List.mem_reverse] at hd
  exact Nat.digits_lt_base (by decide) hd

theorem natBE_bytesOfPairs {digits : List ℕ} (heven : digits.length % 2 = 0) (hlt : ∀ d ∈ digits, d < 16)
    (acc : ℕ) : (bytesOfPairs digits).foldl (fun acc x => acc * 256 + x.toNat) acc =
      digits.foldl (fun acc d => acc * 16 + d) acc := by
  induction digits using bytesOfPairs.induct generalizing acc with
  | case1 high low rest ih =>
    have hhigh := hlt high (by simp)
    have hlow := hlt low (by simp)
    have hbyte : (UInt8.ofNat (16 * high + low)).toNat = 16 * high + low := by
      rw [UInt8.toNat_ofNat', Nat.mod_eq_of_lt (by omega)]
    rw [bytesOfPairs, List.foldl_cons, List.foldl_cons, List.foldl_cons, hbyte,
      ih (by rw [List.length_cons, List.length_cons] at heven; omega) (fun d hd => hlt d (by simp [hd]))]
    congr 1
    omega
  | case2 digits hshort =>
    match digits, hshort with
    | [], _ => rfl
    | [_], _ => cases heven
    | high :: low :: rest, hshort => exact absurd rfl (hshort high low rest)

theorem bytesOfPairs_length (digits : List ℕ) : (bytesOfPairs digits).length = digits.length / 2 := by
  induction digits using bytesOfPairs.induct with
  | case1 high low rest ih =>
    rw [bytesOfPairs, List.length_cons, ih, List.length_cons, List.length_cons]
    omega
  | case2 digits hshort =>
    match digits, hshort with
    | [], _ => rfl
    | [_], _ => simp [bytesOfPairs]
    | high :: low :: rest, hshort => exact absurd rfl (hshort high low rest)

theorem toBytesBE_natCast (n : ℕ) : ∃ raw, toBytesBE n = .ok raw ∧ natBE raw = n ∧
    raw.length = byteLength n := by
  unfold toBytesBE byteLength
  rw [if_neg (by omega), Int.toNat_natCast]
  by_cases hn : n = 0
  · subst hn
    exact ⟨[0], rfl, rfl, rfl⟩
  rw [if_neg (by exact_mod_cast hn), if_neg hn]
  refine ⟨_, rfl, ?_, ?_⟩
  · split
    · next hodd =>
      have hlength : (0 :: hexDigits n).length % 2 = 0 := by rw [List.length_cons]; omega
      have hdigits : ∀ d ∈ 0 :: hexDigits n, d < 16 := by
        intro d hd
        rcases List.mem_cons.mp hd with rfl | hd
        · omega
        · exact hexDigits_lt hn hd
      rw [natBE, natBE_bytesOfPairs hlength hdigits, List.foldl_cons, Nat.zero_mul, Nat.zero_add,
        hexDigits_value hn]
    · next heven =>
      rw [natBE, natBE_bytesOfPairs (by omega) (fun d => hexDigits_lt hn), hexDigits_value hn]
  · rw [bytesOfPairs_length]
    split
    · rw [List.length_cons]
    · omega

theorem byteLength_le_iff (n : ℕ) : byteLength n ≤ 32 ↔ n < 2 ^ 256 := by
  unfold byteLength
  split
  · next hzero => simp [hzero]
  · next hn =>
    have hlength := hexDigits_length_le_iff (k := 64) hn
    have hpow : (16 : ℕ) ^ 64 = 2 ^ 256 := by norm_num
    rw [hpow] at hlength
    omega

theorem toBytesBEPadded_natCast {n : ℕ} (hn : n < 2 ^ 256) : toBytesBEPadded n 32 = .ok (word n) := by
  obtain ⟨raw, hraw, hvalue, hlength⟩ := toBytesBE_natCast n
  have hle := (byteLength_le_iff n).mpr hn
  have hpadded : List.replicate (32 - raw.length) 0 ++ raw = word n := by
    have hround := bytesBE_natBE (List.replicate (32 - raw.length) 0 ++ raw)
    have hzeros : ∀ k, natBE (List.replicate k 0 ++ raw) = natBE raw := by
      intro k
      induction k with
      | zero => rfl
      | succ k ih => exact ih
    rw [hzeros, hvalue, List.length_append, List.length_replicate, Nat.sub_add_cancel (by omega)] at hround
    exact hround.symm
  rw [toBytesBEPadded, hraw]
  simp only [bind, Except.bind]
  rw [← hpadded]
  split
  · next hfull => simp [hfull, pure, Except.pure]
  · split
    · omega
    · rfl

theorem bytesToBigInt_eq (digest : Bytes32) : bytesToBigInt digest = digest.toNat := by
  rw [bytesToBigInt, natBE_word, Nat.mod_eq_of_lt digest.isLt]

theorem packedWidth_word {N : ℕ} (hN : N < 2 ^ 256) : packedWidth N = 32 := by
  rw [packedWidth, Int.toNat_natCast, if_pos ((byteLength_le_iff N).mpr hN)]

/-! ## Verification of naturals -/

variable {rt : Runtime}

theorem assertPositiveBigInt_natCast {N : ℕ} (hN : N ≠ 0) (label : String) :
    assertPositiveBigInt N label = .ok () :=
  (revertIf_ok _ _ ()).mpr (by omega)

theorem assertValidT_natCast {T : ℕ} (hT : T ≠ 0) : assertValidT T = .ok () :=
  (revertIf_ok _ _ ()).mpr (by omega)

/-- A proof with the challenge of its output is accepted when the equation holds. -/
theorem verifyWesolowski_of_challenge {x y pi N T l challengeBits : ℕ} (hne : N ≠ 0) (hT : T ≠ 0) (hl : l ≠ 0)
    (h : fiatShamirChallenge rt ((x % N : ℕ) : ℤ) y T N challengeBits = .ok (l : ℤ)) :
    verifyWesolowski rt x T N ⟨y, pi, l, ((2 ^ T % l : ℕ) : ℤ)⟩ challengeBits =
      .ok (decide (pi ^ l % N * ((x % N) ^ (2 ^ T % l) % N) % N = y % N)) := by
  have htwo : modPow 2 T l = .ok ((2 ^ T % l : ℕ) : ℤ) := modPow_natCast 2 T hl
  unfold verifyWesolowski
  rw [assertPositiveBigInt_natCast hne, assertValidT_natCast hT, rem_natCast x hne]
  simp only [bind, Except.bind, h, ne_eq, not_true_eq_false, if_false, htwo, modPow_natCast _ _ hne,
    ← Int.natCast_mul, rem_natCast _ hne, pure, Except.pure, beq_eq_decide, Int.natCast_inj]

theorem verifyWesolowski_of_ne {x y pi l r : ℤ} {N T challengeBits : ℕ} (hN : N ≠ 0) (hT : T ≠ 0) {xMod l' : ℤ}
    (hx : rem x N = .ok xMod) (h : fiatShamirChallenge rt xMod y T N challengeBits = .ok l') (hne : l ≠ l') :
    verifyWesolowski rt x T N ⟨y, pi, l, r⟩ challengeBits = .ok false := by
  unfold verifyWesolowski
  rw [assertPositiveBigInt_natCast hN, assertValidT_natCast hT, hx]
  simp only [bind, Except.bind, h, if_pos hne]
  rfl

/-! ## Concrete libraries -/

def localRuntime : Runtime where
  keccak256 := fun _ => 0
  solidityPacked := fun values => (values.mapM PackedValue.encoding).map List.flatten
  log2 := fun T => (T.toNat.log2 : ℚ)

end ChainGuard.OffChain.Vdf
