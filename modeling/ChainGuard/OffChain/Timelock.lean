import ChainGuard.OffChain.Encodings
import ChainGuard.OffChain.ShareStrings

/-! Timelock encryption: the evaluation and the proof of the delay function, and texts sealed under its output. What is
sealed is opened again exactly when the challenge of the proof is the one of the default number of bits. -/
namespace ChainGuard.OffChain.Vdf
open Guarded Loops
set_option autoImplicit false

def TIMELOCK_VERSION : JsString := js "vdf-wesolowski-aes256gcm-v1"

def DEFAULT_CHALLENGE_BITS : ℕ := 128

structure VdfParams where
  N : ℤ
  T : ℤ
  x : Option ℤ

structure TimelockCiphertext where
  version : JsString
  N : JsString
  T : ℤ
  x : JsString
  y : JsString
  pi : JsString
  l : JsString
  iv : JsString
  ciphertext : JsString
  deriving DecidableEq

/-- What the timelock takes from the platform besides. -/
structure TimelockRuntime extends Runtime where
  /-- `solidityPacked` of bytes, a `uint256` and a `uint64`. -/
  packElement : Bytes → ℤ → ℤ → Option Bytes
  sha256 : Bytes → Bytes
  /-- AES-GCM of a key, an initialization vector and a text. -/
  encrypt : Bytes → Bytes → Bytes → Bytes
  decrypt : Bytes → Bytes → Bytes → Option Bytes
  jsonParse : JsString → Option TimelockCiphertext

def TimelockRuntime.DecryptInverts (rt : TimelockRuntime) : Prop :=
  ∀ key iv plaintext, rt.decrypt key iv (rt.encrypt key iv plaintext) = some plaintext

inductive Plaintext
  | text (plaintext : JsString)
  | bytes (plaintext : Bytes)

inductive Payload
  | object (data : TimelockCiphertext)
  | string (json : JsString)

section Engine
variable (rt : TimelockRuntime)

/-! ## Evaluation and proof -/

def deriveChallengeElement (N T : ℤ) : Result ℤ := do
  assertPositiveBigInt N "N"
  assertValidT T
  match rt.packElement (← toBytesBE N) N T with
  | none => .error .library
  | some data => do
    let x ← rem (bytesToBigInt (rt.keccak256 data)) N
    return if x ≤ 1 then 2 else x

def evaluateVdf (x T N : ℤ) : Result ℤ := do
  assertPositiveBigInt N "N"
  assertPositiveBigInt x "x"
  assertValidT T
  let y ← rem x N
  tryUpTo T.toNat (fun _ y => rem (y * y) N) y

/-- A round of the long division of `2 ** T` by `l`, with the power of the quotient so far and the remainder. -/
def proofRound (xMod l N : ℤ) : ℤ × ℤ → Result (ℤ × ℤ)
  | (pi, remainder) => do
    let doubled := remainder * 2
    let remainder ← rem doubled l
    let pi ← rem (pi * pi) N
    let pi ← if l ≤ doubled then rem (pi * xMod) N else pure pi
    return (pi, remainder)

def proveWesolowski (x T N : ℤ) (challengeBits : ℕ) : Result WesolowskiProof := do
  assertPositiveBigInt N "N"
  assertPositiveBigInt x "x"
  assertValidT T
  let xMod ← rem x N
  let y ← tryUpTo T.toNat (fun _ y => rem (y * y) N) xMod
  let l ← fiatShamirChallenge rt.toRuntime xMod y T N challengeBits
  let (pi, r) ← tryUpTo T.toNat (fun _ state => proofRound xMod l N state) (1, 1)
  return ⟨y, pi, l, r⟩

/-! ## Sealing -/

def deriveKeyFromVdfOutput (y : ℤ) : Result Bytes := do
  return rt.sha256 (← toBytesBE y)

/-- `params.x ?? deriveChallengeElement(N, T)` -/
def startingElement (params : VdfParams) : Result ℤ :=
  match params.x with
  | some x => .ok x
  | none => deriveChallengeElement rt params.N params.T

def plainBytes : Plaintext → Bytes
  | .text plaintext => stringToUint8Array plaintext
  | .bytes plaintext => plaintext

/-- With the random vector that is drawn. -/
def encryptTimelock (iv : Bytes) (plaintext : Plaintext) (params : VdfParams) (challengeBits : ℕ) :
    Result TimelockCiphertext := do
  let x ← startingElement rt params
  let proof ← proveWesolowski rt x params.T params.N challengeBits
  let key ← deriveKeyFromVdfOutput rt proof.y
  let ciphertext := rt.encrypt key iv (plainBytes plaintext)
  return {
    version := TIMELOCK_VERSION
    N := Secrets.toString16 params.N
    T := params.T
    x := Secrets.toString16 x
    y := Secrets.toString16 proof.y
    pi := Secrets.toString16 proof.pi
    l := Secrets.toString16 proof.l
    iv := uint8ArrayToBase64 iv
    ciphertext := uint8ArrayToBase64 ciphertext }

/-! ## Opening -/

/-- `BigInt("0x" + hex)` -/
def bigIntHex (hex : JsString) : Result ℤ :=
  match Secrets.stringToBigInt (js "0x" ++ hex) with
  | some n => .ok n
  | none => .error .syntaxError

def fromBase64 (base64 : JsString) : Result Bytes :=
  match base64ToUint8Array base64 with
  | some bytes => .ok bytes
  | none => .error .library

def timelockData : Payload → Result TimelockCiphertext
  | .object data => .ok data
  | .string json =>
    match rt.jsonParse json with
    | some data => .ok data
    | none => .error .syntaxError

def decryptTimelock (payload : Payload) : Result JsString := do
  let data ← timelockData rt payload
  -- the message ends with the version
  revertIf (data.version ≠ TIMELOCK_VERSION) (.error "Unsupported timelock version: ")
  let N ← bigIntHex data.N
  let x ← bigIntHex data.x
  let y ← bigIntHex data.y
  let pi ← bigIntHex data.pi
  let l ← bigIntHex data.l
  let T := data.T
  let evaluated ← evaluateVdf x T N
  revertIf (evaluated ≠ y) (.error "VDF output mismatch — timelock not satisfied")
  let proof : WesolowskiProof := ⟨y, pi, l, ← modPow 2 T l⟩
  let valid ← verifyWesolowski rt.toRuntime x T N proof DEFAULT_CHALLENGE_BITS
  revertIf (valid = false) (.error "Invalid Wesolowski VDF proof")
  let key ← deriveKeyFromVdfOutput rt y
  let iv ← fromBase64 data.iv
  let ciphertext ← fromBase64 data.ciphertext
  match rt.decrypt key iv ciphertext with
  | none => .error (.error "AES-GCM decryption failed")
  | some decrypted => return uint8ArrayToString decrypted

end Engine

/-! ## What they compute -/

variable {rt : TimelockRuntime} {x N T : ℕ}

theorem squarings_ok (hN : N ≠ 0) (k : ℕ) :
    tryUpTo k (fun _ y => rem (y * y) N) ((x % N : ℕ) : ℤ) = .ok ((x ^ 2 ^ k % N : ℕ) : ℤ) := by
  induction k with
  | zero => rw [pow_zero, pow_one]; rfl
  | succ k ih =>
    have hsquare : x ^ 2 ^ k % N * (x ^ 2 ^ k % N) % N = x ^ 2 ^ (k + 1) % N := by
      rw [← Nat.mul_mod, ← pow_add, pow_succ, mul_two]
    rw [tryUpTo_succ, ih, ok_bind, ← Nat.cast_mul, rem_natCast _ hN, hsquare]

theorem evaluateVdf_ok (hN : N ≠ 0) (hx : 0 < x) (hT : 1 ≤ T) :
    evaluateVdf x T N = .ok ((x ^ 2 ^ T % N : ℕ) : ℤ) := by
  rw [evaluateVdf, assertPositiveBigInt_natCast (by omega), assertPositiveBigInt_natCast (by omega),
    assertValidT_natCast (by omega), rem_natCast x (by omega)]
  exact squarings_ok hN T

theorem proofRound_ok (hN : N ≠ 0) {l : ℕ} (hl : 0 < l) (k : ℕ) :
    proofRound ((x % N : ℕ) : ℤ) l N (((x ^ (2 ^ k / l) % N : ℕ) : ℤ), ((2 ^ k % l : ℕ) : ℤ)) =
      .ok (((x ^ (2 ^ (k + 1) / l) % N : ℕ) : ℤ), ((2 ^ (k + 1) % l : ℕ) : ℤ)) := by
  have hdoubled : ((2 ^ k % l : ℕ) : ℤ) * 2 = ((2 ^ k % l * 2 : ℕ) : ℤ) := by push_cast; rfl
  have hremainder : 2 ^ k % l * 2 % l = 2 ^ (k + 1) % l := by rw [pow_succ, Nat.mod_mul_mod]
  have hsquare : x ^ (2 ^ k / l) % N * (x ^ (2 ^ k / l) % N) % N = x ^ (2 * (2 ^ k / l)) % N := by
    rw [← Nat.mul_mod, ← pow_add, two_mul]
  have hquotient : 2 ^ (k + 1) / l = 2 * (2 ^ k / l) + if l ≤ 2 ^ k % l * 2 then 1 else 0 := by
    have hlt := Nat.mod_lt (2 ^ k) hl
    have hsplit : 2 ^ (k + 1) = 2 ^ k % l * 2 + l * (2 * (2 ^ k / l)) := by
      have hdiv := Nat.mod_add_div (2 ^ k) l
      rw [pow_succ]
      calc
        2 ^ k * 2 = (2 ^ k % l + l * (2 ^ k / l)) * 2 := by rw [hdiv]
        _ = _ := by ring
    rw [hsplit, Nat.add_mul_div_left _ _ hl, Nat.add_comm]
    refine congrArg _ ?_
    split_ifs with hbit
    · exact Nat.div_eq_of_lt_le (by omega) (by omega)
    · exact Nat.div_eq_of_lt (by omega)
  rw [proofRound, hdoubled, rem_natCast _ (by omega), ok_bind, hremainder, ← Nat.cast_mul, rem_natCast _ (by omega),
    ok_bind, hsquare, hquotient]
  by_cases hbit : l ≤ 2 ^ k % l * 2
  · have hproduct : x ^ (2 * (2 ^ k / l)) % N * (x % N) % N = x ^ (2 * (2 ^ k / l) + 1) % N := by
      rw [← Nat.mul_mod, ← pow_succ]
    rw [if_pos (by exact_mod_cast hbit), if_pos hbit, ← Nat.cast_mul, rem_natCast _ (by omega), ok_bind, hproduct]
    rfl
  · rw [if_neg (by exact_mod_cast hbit), if_neg hbit]
    rfl

theorem proofRound_one (hN : N ≠ 0) (xMod l remainder : ℤ) :
    proofRound xMod l N (1, remainder) = proofRound xMod l N (((1 % N : ℕ) : ℤ), remainder) := by
  have hsquare : rem (1 * 1) N = rem (((1 % N : ℕ) : ℤ) * ((1 % N : ℕ) : ℤ)) N := by
    have hleft : rem (1 * 1) N = .ok ((1 % N : ℕ) : ℤ) := rem_natCast 1 hN
    rw [hleft, ← Nat.cast_mul, rem_natCast _ hN, ← Nat.mul_mod]
  rw [proofRound, proofRound, hsquare]

theorem proofRounds_ok (hN : N ≠ 0) {l : ℕ} (hl : 1 < l) {k : ℕ} (hk : 1 ≤ k) :
    tryUpTo k (fun _ state => proofRound ((x % N : ℕ) : ℤ) l N state) (1, 1) =
      .ok (((x ^ (2 ^ k / l) % N : ℕ) : ℤ), ((2 ^ k % l : ℕ) : ℤ)) := by
  induction k, hk using Nat.le_induction with
  | base =>
    have hfirst := @proofRound_ok x N hN l (Nat.zero_lt_of_lt hl) 0
    rw [pow_zero, Nat.div_eq_of_lt hl, pow_zero, Nat.mod_eq_of_lt hl] at hfirst
    rw [tryUpTo_succ]
    exact (proofRound_one hN _ _ _).trans hfirst
  | succ k _ ih =>
    rw [tryUpTo_succ, ih, ok_bind]
    exact proofRound_ok hN (by omega) k

/-! ## Challenges -/

def challengeOf (digest : Bytes32) (challengeBits : ℕ) : ℕ :=
  let l := bytesToBigInt digest &&& (2 ^ challengeBits - 1)
  let l := if l < 3 then 3 else l
  if l &&& 1 = 0 then l + 1 else l

theorem challengeOf_ge (digest : Bytes32) (challengeBits : ℕ) : 3 ≤ challengeOf digest challengeBits := by
  unfold challengeOf
  dsimp only
  split_ifs <;> omega

theorem fiatShamirChallenge_digest {rt : Runtime} {x y T N l : ℤ} {challengeBits : ℕ}
    (h : fiatShamirChallenge rt x y T N challengeBits = .ok l) :
    ∃ digest, ∀ bits, fiatShamirChallenge rt x y T N bits = .ok ((challengeOf digest bits : ℕ) : ℤ) := by
  simp only [fiatShamirChallenge, bind_ok] at h
  obtain ⟨xMod, hxMod, xBytes, hx, yMod, hyMod, yBytes, hy, NBytes, hN, data, hdata, _⟩ := h
  refine ⟨rt.keccak256 data, fun bits => ?_⟩
  simp only [fiatShamirChallenge, hxMod, hx, hyMod, hy, hN, hdata, ok_bind]
  rfl

/-! ## Sealed texts -/

theorem bigIntHex_toString16 (n : ℕ) : bigIntHex (Secrets.toString16 n) = .ok (n : ℤ) := by
  have hread := Secrets.bigInt_hex (Secrets.hexDigits_hex n)
  rw [Secrets.hexDigits_value, Secrets.bigInt] at hread
  rw [bigIntHex]
  cases hvalue : Secrets.stringToBigInt (js "0x" ++ Secrets.toString16 n) with
  | none =>
    rw [hvalue] at hread
    cases hread
  | some m =>
    rw [hvalue] at hread
    exact congrArg _ (Except.ok.inj hread)

theorem deriveChallengeElement_pos {N T v : ℤ} (h : deriveChallengeElement rt N T = .ok v) : 0 < v := by
  simp only [deriveChallengeElement, bind_ok] at h
  obtain ⟨_, _, _, _, raw, _, h⟩ := h
  cases hdata : rt.packElement raw N T with
  | none =>
    rw [hdata] at h
    cases h
  | some data =>
    rw [hdata] at h
    obtain ⟨r, _, h⟩ := (bind_ok ..).mp h
    rw [← Except.ok.inj h]
    split <;> omega

/-- The parameters, with a starting element that is positive if there is one. -/
def paramsOf (N T : ℕ) (x : Option ℕ) : VdfParams := ⟨N, T, x.map Int.ofNat⟩

theorem startingElement_pos {x? : Option ℕ} (hx : ∀ v ∈ x?, 0 < v) {v : ℤ}
    (h : startingElement rt (paramsOf N T x?) = .ok v) : ∃ x : ℕ, v = x ∧ 0 < x := by
  have hpos : 0 < v := by
    cases x? with
    | none => exact deriveChallengeElement_pos h
    | some x =>
      rw [← Except.ok.inj h]
      exact Int.natCast_pos.mpr (hx x rfl)
  exact ⟨v.toNat, (Int.toNat_of_nonneg hpos.le).symm, by omega⟩

def honestProof (x T N l : ℕ) : WesolowskiProof :=
  ⟨((x ^ 2 ^ T % N : ℕ) : ℤ), ((x ^ (2 ^ T / l) % N : ℕ) : ℤ), l, ((2 ^ T % l : ℕ) : ℤ)⟩

theorem proveWesolowski_ok (hN : N ≠ 0) (hx : 0 < x) (hT : 1 ≤ T) {challengeBits l : ℕ} (hl : 1 < l)
    (h : fiatShamirChallenge rt.toRuntime ((x % N : ℕ) : ℤ) ((x ^ 2 ^ T % N : ℕ) : ℤ) T N challengeBits = .ok (l : ℤ)) :
    proveWesolowski rt x T N challengeBits = .ok (honestProof x T N l) := by
  rw [proveWesolowski, assertPositiveBigInt_natCast (by omega), assertPositiveBigInt_natCast (by omega),
    assertValidT_natCast (by omega), rem_natCast x (by omega)]
  simp only [ok_bind, Int.toNat_natCast]
  rw [squarings_ok hN, ok_bind, h, ok_bind, proofRounds_ok hN hl hT]
  rfl

theorem verify_honest (hN : N ≠ 0) (hT : 1 ≤ T) {challengeBits l : ℕ} (hl : 1 < l)
    (h : fiatShamirChallenge rt.toRuntime ((x % N : ℕ) : ℤ) ((x ^ 2 ^ T % N : ℕ) : ℤ) T N challengeBits = .ok (l : ℤ)) :
    verifyWesolowski rt.toRuntime x T N (honestProof x T N l) challengeBits = .ok true := by
  have hproof : (x ^ (2 ^ T / l) % N) ^ l % N * ((x % N) ^ (2 ^ T % l) % N) % N = x ^ 2 ^ T % N % N := by
    rw [← Nat.pow_mod, ← Nat.pow_mod, ← Nat.mul_mod, ← pow_mul, ← pow_add, Nat.mul_comm, Nat.div_add_mod, Nat.mod_mod]
  rw [honestProof, verifyWesolowski_of_challenge hN (by omega) (by omega) h, decide_eq_true hproof]

/-- The challenge of the default number of bits is the one that the proof is made with. -/
def DefaultChallenge (rt : TimelockRuntime) (params : VdfParams) (challengeBits : ℕ) : Prop :=
  ∃ x : ℕ, startingElement rt params = .ok (x : ℤ) ∧
    fiatShamirChallenge rt.toRuntime ((x % params.N.toNat : ℕ) : ℤ)
      ((x ^ 2 ^ params.T.toNat % params.N.toNat : ℕ) : ℤ) params.T params.N challengeBits =
    fiatShamirChallenge rt.toRuntime ((x % params.N.toNat : ℕ) : ℤ)
      ((x ^ 2 ^ params.T.toNat % params.N.toNat : ℕ) : ℤ) params.T params.N DEFAULT_CHALLENGE_BITS

/-- What is sealed with an honest proof. -/
def sealedWith (rt : TimelockRuntime) (iv : Bytes) (plaintext : JsString) (x T N l : ℕ) (key : Bytes) :
    TimelockCiphertext where
  version := TIMELOCK_VERSION
  N := Secrets.toString16 N
  T := T
  x := Secrets.toString16 x
  y := Secrets.toString16 ((x ^ 2 ^ T % N : ℕ) : ℤ)
  pi := Secrets.toString16 ((x ^ (2 ^ T / l) % N : ℕ) : ℤ)
  l := Secrets.toString16 l
  iv := uint8ArrayToBase64 iv
  ciphertext := uint8ArrayToBase64 (rt.encrypt key iv (stringToUint8Array plaintext))

theorem encryptTimelock_spec (hN : N ≠ 0) (hT : 1 ≤ T) {x? : Option ℕ} (hx : ∀ v ∈ x?, 0 < v) {iv : Bytes}
    {plaintext : JsString} {challengeBits : ℕ} {payload : TimelockCiphertext}
    (h : encryptTimelock rt iv (.text plaintext) (paramsOf N T x?) challengeBits = .ok payload) :
    ∃ x digest key, startingElement rt (paramsOf N T x?) = .ok ((x : ℕ) : ℤ) ∧ 0 < x ∧
      (∀ bits, fiatShamirChallenge rt.toRuntime ((x % N : ℕ) : ℤ) ((x ^ 2 ^ T % N : ℕ) : ℤ) T N bits =
        .ok ((challengeOf digest bits : ℕ) : ℤ)) ∧
      deriveKeyFromVdfOutput rt ((x ^ 2 ^ T % N : ℕ) : ℤ) = .ok key ∧
      payload = sealedWith rt iv plaintext x T N (challengeOf digest challengeBits) key := by
  obtain ⟨v, hstart, h⟩ := (bind_ok ..).mp h
  obtain ⟨x, rfl, hpos⟩ := startingElement_pos hx hstart
  obtain ⟨proof, hprove, h⟩ := (bind_ok ..).mp h
  obtain ⟨key, hkey, h⟩ := (bind_ok ..).mp h
  cases hchallenge : fiatShamirChallenge rt.toRuntime ((x % N : ℕ) : ℤ) ((x ^ 2 ^ T % N : ℕ) : ℤ) T N challengeBits with
  | error e =>
    rw [paramsOf, proveWesolowski, assertPositiveBigInt_natCast (by omega), assertPositiveBigInt_natCast (by omega),
      assertValidT_natCast (by omega), rem_natCast x (by omega)] at hprove
    simp only [ok_bind, Int.toNat_natCast] at hprove
    rw [squarings_ok hN, ok_bind, hchallenge] at hprove
    cases hprove
  | ok l =>
    obtain ⟨digest, hdigest⟩ := fiatShamirChallenge_digest hchallenge
    have hl : 1 < challengeOf digest challengeBits := lt_of_lt_of_le (by decide) (challengeOf_ge ..)
    obtain rfl := Except.ok.inj (hprove.symm.trans (proveWesolowski_ok hN hpos hT hl (hdigest challengeBits)))
    exact ⟨x, digest, key, hstart, hpos, hdigest, hkey, (Except.ok.inj h).symm⟩

theorem decryptTimelock_sealed (hinverts : rt.DecryptInverts) (hN : N ≠ 0) (hT : 1 ≤ T) (hx : 0 < x) {iv : Bytes}
    {plaintext : JsString} {l : ℕ} (hl : 1 < l) {key : Bytes}
    (hkey : deriveKeyFromVdfOutput rt ((x ^ 2 ^ T % N : ℕ) : ℤ) = .ok key) :
    decryptTimelock rt (.object (sealedWith rt iv plaintext x T N l key)) =
      (verifyWesolowski rt.toRuntime x T N (honestProof x T N l) DEFAULT_CHALLENGE_BITS >>= fun valid =>
        if valid = false then .error (.error "Invalid Wesolowski VDF proof")
        else .ok (uint8ArrayToString (stringToUint8Array plaintext))) := by
  have hversion : ¬ (TIMELOCK_VERSION ≠ TIMELOCK_VERSION) := not_not.mpr rfl
  have hsame : ¬ (((x ^ 2 ^ T % N : ℕ) : ℤ) ≠ ((x ^ 2 ^ T % N : ℕ) : ℤ)) := not_not.mpr rfl
  have hremainder : modPow 2 T l = .ok ((2 ^ T % l : ℕ) : ℤ) := modPow_natCast 2 T (Nat.ne_of_gt (Nat.zero_lt_of_lt hl))
  unfold decryptTimelock sealedWith
  simp only [timelockData, ok_bind, revertIf, if_neg hversion, bigIntHex_toString16, evaluateVdf_ok hN hx hT,
    if_neg hsame, hremainder, hkey, fromBase64, base64ToUint8Array_uint8ArrayToBase64]
  rw [hinverts]
  rw [← honestProof]
  refine congrArg _ (funext fun valid => ?_)
  cases valid <;> rfl

/-- A sealed text is opened as it was exactly when the challenge is the one of the default number of bits and the text
is kept by its encoding. -/
theorem decryptTimelock_iff (hinverts : rt.DecryptInverts) (hN : 1 < N) (hT : 1 ≤ T) {x? : Option ℕ}
    (hx : ∀ v ∈ x?, 0 < v) {iv : Bytes} {plaintext : JsString} {challengeBits : ℕ} {payload : TimelockCiphertext}
    (h : encryptTimelock rt iv (.text plaintext) (paramsOf N T x?) challengeBits = .ok payload) :
    decryptTimelock rt (.object payload) = .ok plaintext ↔
      DefaultChallenge rt (paramsOf N T x?) challengeBits ∧ KeptByUtf8 plaintext := by
  have hne : N ≠ 0 := by omega
  obtain ⟨x, digest, key, hstart, hpos, hdigest, hkey, rfl⟩ := encryptTimelock_spec hne hT hx h
  have hl : 1 < challengeOf digest challengeBits := lt_of_lt_of_le (by decide) (challengeOf_ge ..)
  have hdefault : DefaultChallenge rt (paramsOf N T x?) challengeBits ↔
      challengeOf digest challengeBits = challengeOf digest DEFAULT_CHALLENGE_BITS := by
    have hparams : (paramsOf N T x?).N.toNat = N ∧ (paramsOf N T x?).T.toNat = T := ⟨rfl, rfl⟩
    constructor
    · rintro ⟨x', hstart', heq⟩
      obtain rfl := Int.natCast_inj.mp (Except.ok.inj (hstart'.symm.trans hstart))
      rw [hparams.1, hparams.2] at heq
      exact Int.natCast_inj.mp (Except.ok.inj ((hdigest _).symm.trans (heq.trans (hdigest _))))
    · intro heq
      refine ⟨x, hstart, ?_⟩
      rw [hparams.1, hparams.2]
      exact (hdigest _).trans (heq ▸ (hdigest _).symm)
  rw [decryptTimelock_sealed hinverts hne hT hpos hl hkey, hdefault, ← uint8ArrayToString_iff]
  by_cases hsame : challengeOf digest challengeBits = challengeOf digest DEFAULT_CHALLENGE_BITS
  · rw [verify_honest hne hT hl (hsame ▸ hdigest DEFAULT_CHALLENGE_BITS), ok_bind, if_neg (by decide), and_iff_right hsame]
    exact ⟨Except.ok.inj, congrArg _⟩
  · have hrejected : verifyWesolowski rt.toRuntime x T N (honestProof x T N (challengeOf digest challengeBits))
        DEFAULT_CHALLENGE_BITS = .ok false :=
      verifyWesolowski_of_ne (by omega) (by omega) (rem_natCast x (by omega)) (hdigest DEFAULT_CHALLENGE_BITS)
        fun heq => hsame (Int.natCast_inj.mp heq)
    rw [hrejected, ok_bind, if_pos rfl]
    exact iff_of_false (fun herror => by cases herror) fun hok => hsame hok.1

/-- A cipher that appends sixteen zeros, and a hash with one value. -/
def localTimelock (digest : Bytes32) : TimelockRuntime where
  toRuntime := { localRuntime with keccak256 := fun _ => digest }
  packElement := fun raw N T => some (raw ++ word N.toNat ++ bytesBE 8 T.toNat)
  sha256 := fun _ => List.replicate 32 0
  encrypt := fun _ _ plaintext => plaintext ++ List.replicate 16 0
  decrypt := fun _ _ ciphertext => some (ciphertext.take (ciphertext.length - 16))
  jsonParse := fun _ => none

theorem localTimelock_decryptInverts (digest : Bytes32) : (localTimelock digest).DecryptInverts := by
  intro key iv plaintext
  have hlength : (plaintext ++ List.replicate 16 (0 : UInt8)).length - 16 = plaintext.length := by
    rw [List.length_append, List.length_replicate, Nat.add_sub_cancel]
  simp only [localTimelock, hlength, List.take_left]

/-- One squaring of 2 modulo 15, with 64 bits. -/
theorem decryptTimelock_iff_hi : ∃ payload,
    encryptTimelock (localTimelock 5) (List.replicate 12 0) (.text (js "hi")) (paramsOf 15 1 (some 2)) 64 =
      .ok payload ∧
    (decryptTimelock (localTimelock 5) (.object payload) = .ok (js "hi") ↔
      DefaultChallenge (localTimelock 5) (paramsOf 15 1 (some 2)) 64 ∧ KeptByUtf8 (js "hi")) := by
  obtain ⟨payload, h⟩ : ∃ payload, encryptTimelock (localTimelock 5) (List.replicate 12 0) (.text (js "hi"))
      (paramsOf 15 1 (some 2)) 64 = .ok payload := ⟨_, rfl⟩
  exact ⟨payload, h, decryptTimelock_iff (localTimelock_decryptInverts 5) (by decide) (by decide) (by decide) h⟩

/-- Where the digest has bits above the 64 that were asked for, the proof is refused. -/
theorem decryptTimelock_rejects : ∃ payload,
    encryptTimelock (localTimelock (2 ^ 64 + 5)) (List.replicate 12 0) (.text (js "hi")) (paramsOf 15 1 (some 2)) 64 =
      .ok payload ∧
    decryptTimelock (localTimelock (2 ^ 64 + 5)) (.object payload) =
      .error (.error "Invalid Wesolowski VDF proof") := by
  refine ⟨sealedWith (localTimelock (2 ^ 64 + 5)) (List.replicate 12 0) (js "hi") 2 1 15 5 (List.replicate 32 0), ?_, ?_⟩ <;>
  decide +kernel

/-! `vdf.ts`: the prover of Pietrzak's proofs, and the loops of the provers as their counters run: a counter is a number,
which stays where it is from `2 ** 53` on. -/

/-! ## Counted loops -/

abbrev Run (α : Type) := ExceptT Thrown Option α

/-- `i++`, from zero on: one more than `2 ** 53` is rounded back. -/
def increment (i : ℕ) : ℕ := if i < 2 ^ 53 then i + 1 else i

/-- `for (; i < T; i++)`, if it ends within so many rounds. -/
def forBelow {σ : Type} (T : ℤ) (body : σ → Result σ) : ℕ → ℕ → σ → Run σ
  | 0, i, s => if T ≤ i then pure s else none
  | rounds + 1, i, s =>
    if T ≤ i then pure s
    else do
      let s ← body s
      forBelow T body rounds (increment i) s

/-- `evaluateVdf`, if its loop ends within so many rounds. -/
def evaluateVdfWithin (rounds : ℕ) (x T N : ℤ) : Run ℤ := do
  assertPositiveBigInt N "N"
  assertPositiveBigInt x "x"
  assertValidT T
  let y ← rem x N
  forBelow T (fun y => rem (y * y) N) rounds 0 y

section Engine
variable (rt : TimelockRuntime) (rounds : ℕ)

/-- `proveWesolowski`, if each of its loops ends within so many rounds. -/
def proveWesolowskiWithin (x T N : ℤ) (challengeBits : ℕ) : Run WesolowskiProof := do
  assertPositiveBigInt N "N"
  assertPositiveBigInt x "x"
  assertValidT T
  let xMod ← rem x N
  let y ← forBelow T (fun y => rem (y * y) N) rounds 0 xMod
  let l ← fiatShamirChallenge rt.toRuntime xMod y T N challengeBits
  let (pi, r) ← forBelow T (proofRound xMod l N) rounds 0 (1, 1)
  return ⟨y, pi, l, r⟩

/-! ## Pietrzak -/

/-- One round of the loop of `provePietrzak`, with the midpoint that it adds. -/
def proveRound (N : ℤ) : ℤ × ℤ × ℤ → Run (ℤ × ℤ × ℤ × ℤ)
  | (curX, curY, curT) => do
    let half := shiftRight curT 1
    let mu ← evaluateVdfWithin rounds curX half N
    let r ← pietrzakChallenge rt.toRuntime curX curY mu curT N
    let powX ← modPow curX r N
    let newX ← rem (powX * mu) N
    let powMu ← modPow mu r N
    let newY ← rem (powMu * curY) N
    return (mu, newX, newY, half)

/-- `while (curT > 1)`, if it ends within the first number of rounds. -/
def proveRounds (N : ℤ) : ℕ → ℤ × ℤ × ℤ → Run (List ℤ)
  | 0, state => if 1 < state.2.2 then none else pure []
  | n + 1, state =>
    if 1 < state.2.2 then do
      let (mu, state) ← proveRound rt rounds N state
      let mus ← proveRounds N n state
      return mu :: mus
    else pure []

/-- `provePietrzak`, if each of its loops ends within so many rounds. -/
def provePietrzakWithin (x T N : ℤ) : Run PietrzakProof := do
  assertPositiveBigInt N "N"
  assertPositiveBigInt x "x"
  revertIf (T < 2 ∨ bitAnd T (T - 1) ≠ 0) (Thrown.error "Pietrzak VDF requires T to be a power of two >= 2")
  let xMod ← rem x N
  let y ← evaluateVdfWithin rounds xMod T N
  let mus ← proveRounds rt rounds N rounds (xMod, y, T)
  return ⟨y, mus⟩

end Engine

/-! ## Loops that end -/

/-- A run that ends. -/
def Run.ended {α : Type} (result : Result α) : Run α := ExceptT.mk (some result)

theorem ended_ok_bind {α β : Type} (a : α) (f : α → Run β) : (Run.ended (.ok a) >>= f) = f a := rfl

theorem lift_ok_bind {α β : Type} (a : α) (f : α → Run β) : ((liftM (Except.ok a : Result α) : Run α) >>= f) = f a := rfl

theorem ended_bind {α β : Type} {x : Result α} {f : α → Run β} {g : α → Result β}
    (h : ∀ a, x = .ok a → f a = .ended (g a)) : (Run.ended x >>= f) = .ended (x >>= g) := by
  cases x with
  | error e => rfl
  | ok a => exact h a rfl

/-- The loop ends with as many rounds as are left, as long as the counter goes up. -/
theorem forBelow_eq {σ : Type} {T : ℕ} (hT : T ≤ 2 ^ 53) (body : σ → Result σ) {rounds i : ℕ} (hi : i ≤ T)
    (hrounds : T ≤ i + rounds) (s : σ) :
    forBelow T body rounds i s = .ended (tryUpTo (T - i) (fun _ => body) s) := by
  induction rounds generalizing i s with
  | zero =>
    obtain rfl : T = i := by omega
    rw [forBelow, if_pos le_rfl, Nat.sub_self]
    rfl
  | succ rounds ih =>
    rw [forBelow]
    by_cases hend : T = i
    · rw [hend, if_pos le_rfl, Nat.sub_self]
      rfl
    · have hnext : increment i = i + 1 := if_pos (by omega)
      have hleft : T - i = (T - (i + 1)) + 1 := by omega
      rw [if_neg (by omega), hnext, hleft, tryUpTo_const_succ]
      exact ended_bind fun s' _ => ih (by omega) (by omega) s'

variable {rt : TimelockRuntime} {rounds x T N : ℕ}

theorem evaluateVdfWithin_eq (hT : T ≤ 2 ^ 53) (hrounds : T ≤ rounds) (x N : ℤ) :
    evaluateVdfWithin rounds x T N = .ended (evaluateVdf x T N) := by
  refine ended_bind fun _ _ => ended_bind fun _ _ => ended_bind fun _ _ => ended_bind fun y _ => ?_
  exact forBelow_eq hT _ (Nat.zero_le T) (by omega) y

theorem proveWesolowskiWithin_eq (hT : T ≤ 2 ^ 53) (hrounds : T ≤ rounds) (x N : ℤ) (challengeBits : ℕ) :
    proveWesolowskiWithin rt rounds x T N challengeBits = .ended (proveWesolowski rt x T N challengeBits) := by
  refine ended_bind fun _ _ => ended_bind fun _ _ => ended_bind fun _ _ => ended_bind fun xMod _ => ?_
  rw [forBelow_eq hT _ (Nat.zero_le T) (by omega)]
  refine ended_bind fun y _ => ended_bind fun l _ => ?_
  rw [forBelow_eq hT _ (Nat.zero_le T) (by omega)]
  exact ended_bind fun state _ => rfl

/-! ## Loops that do not -/

theorem forBelow_none {σ : Type} {T : ℕ} (hT : 2 ^ 53 < T) {body : σ → Result σ} {P : σ → Prop}
    (hbody : ∀ s, P s → ∃ s', body s = .ok s' ∧ P s') {i : ℕ} (hi : i ≤ 2 ^ 53) {s : σ} (hs : P s) :
    forBelow T body rounds i s = none := by
  induction rounds generalizing i s with
  | zero => exact if_neg (by omega)
  | succ rounds ih =>
    obtain ⟨s', hs', hP⟩ := hbody s hs
    have hnext : increment i ≤ 2 ^ 53 := by
      rw [increment]
      split <;> omega
    rw [forBelow, if_neg (by omega), hs']
    exact ih hnext hP

theorem proveWesolowskiWithin_none (hN : N ≠ 0) (hx : x ≠ 0) (hT : 2 ^ 53 < T) (challengeBits : ℕ) :
    proveWesolowskiWithin rt rounds x T N challengeBits = none := by
  have hsquare : ∀ y : ℤ, (∃ n : ℕ, y = n) → ∃ y', rem (y * y) N = .ok y' ∧ ∃ n : ℕ, y' = n := by
    rintro _ ⟨n, rfl⟩
    exact ⟨_, by rw [← Nat.cast_mul, rem_natCast _ hN], _, rfl⟩
  have hloop := @forBelow_none rounds ℤ T hT (fun y => rem (y * y) N) (fun y => ∃ n : ℕ, y = n) hsquare 0
    (Nat.zero_le _) ((x % N : ℕ) : ℤ) ⟨_, rfl⟩
  rw [proveWesolowskiWithin, assertPositiveBigInt_natCast hN, assertPositiveBigInt_natCast hx,
    assertValidT_natCast (by omega), rem_natCast x hN]
  show (forBelow T (fun y => rem (y * y) N) rounds 0 ((x % N : ℕ) : ℤ) >>= _) = none
  rw [hloop]
  rfl

end ChainGuard.OffChain.Vdf
