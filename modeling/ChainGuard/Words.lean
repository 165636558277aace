import Mathlib.Data.BitVec
import Mathlib.Tactic.Ring

/-! Words and byte strings as both contracts read and hash them, and the units of time. -/
namespace ChainGuard
set_option autoImplicit false

abbrev Bytes32 := BitVec 256
/-- `bytes` and `string` alike: the contracts only measure, hash and store strings. -/
abbrev Bytes := List UInt8

def days (n : ℕ) : ℕ := n * (24 * 60 * 60)
def hours (n : ℕ) : ℕ := n * (60 * 60)
def minutes (n : ℕ) : ℕ := n * 60

/-- The `len` low bytes of `n`, most significant first. -/
def bytesBE : ℕ → ℕ → Bytes
  | 0, _ => []
  | len + 1, n => bytesBE len (n / 256) ++ [UInt8.ofNat (n % 256)]

/-- The number whose big-endian digits are the given bytes. -/
def natBE (b : Bytes) : ℕ := b.foldl (fun acc x => acc * 256 + x.toNat) 0

/-- One 32-byte word. -/
def word (n : ℕ) : Bytes := bytesBE 32 n

@[simp] theorem bytesBE_length (len n : ℕ) : (bytesBE len n).length = len := by
  induction len generalizing n with
  | zero => rfl
  | succ len ih => rw [bytesBE, List.length_append, ih, List.length_singleton]

@[simp] theorem word_length (n : ℕ) : (word n).length = 32 := bytesBE_length 32 n

theorem natBE_concat (b : Bytes) (x : UInt8) : natBE (b ++ [x]) = natBE b * 256 + x.toNat := by
  rw [natBE, List.foldl_append]
  rfl

theorem natBE_append (a b : Bytes) : natBE (a ++ b) = natBE a * 256 ^ b.length + natBE b := by
  induction b using List.reverseRecOn with
  | nil => simp [natBE]
  | append_singleton b x ih =>
    rw [← List.append_assoc, natBE_concat, natBE_concat, ih, List.length_append, List.length_singleton,
      pow_succ]
    ring

theorem natBE_bytesBE (len n : ℕ) : natBE (bytesBE len n) = n % 256 ^ len := by
  induction len generalizing n with
  | zero => rw [pow_zero, Nat.mod_one]; rfl
  | succ len ih =>
    have hdigit : (UInt8.ofNat (n % 256)).toNat = n % 256 := by
      rw [UInt8.toNat_ofNat']
      exact Nat.mod_mod_of_dvd _ (dvd_refl 256)
    rw [bytesBE, natBE_concat, ih, hdigit, pow_succ', Nat.mod_mul]
    ring

theorem natBE_word (n : ℕ) : natBE (word n) = n % 2 ^ 256 := by
  rw [word, natBE_bytesBE]
  rfl

theorem bytesBE_natBE (b : Bytes) : bytesBE b.length (natBE b) = b := by
  induction b using List.reverseRecOn with
  | nil => rfl
  | append_singleton b x ih =>
    have hlt : x.toNat < 256 := x.toNat_lt
    have hdiv : natBE (b ++ [x]) / 256 = natBE b := by rw [natBE_concat]; omega
    have hmod : natBE (b ++ [x]) % 256 = x.toNat := by rw [natBE_concat]; omega
    rw [List.length_append, List.length_singleton, bytesBE, hdiv, hmod, ih, UInt8.ofNat_toNat]

theorem natBE_lt (b : Bytes) : natBE b < 256 ^ b.length := by
  have hround := natBE_bytesBE b.length (natBE b)
  rw [bytesBE_natBE] at hround
  rw [hround]
  exact Nat.mod_lt _ (Nat.pow_pos (by decide))

theorem bytesBE_inj {len m n : ℕ} (hm : m < 256 ^ len) (hn : n < 256 ^ len)
    (h : bytesBE len m = bytesBE len n) : m = n := by
  have hnumbers := congrArg natBE h
  rwa [natBE_bytesBE, natBE_bytesBE, Nat.mod_eq_of_lt hm, Nat.mod_eq_of_lt hn] at hnumbers

theorem word_inj {m n : ℕ} (hm : m < 2 ^ 256) (hn : n < 2 ^ 256) (h : word m = word n) : m = n :=
  bytesBE_inj hm hn h

/-! ## Public signals -/

/-- The public signals of an access proof, as the numbers that both verifiers read. -/
structure Signals where
  vaultRootCommitment : ℕ
  nullifierHash : ℕ
  documentId : ℕ

/-- They stand for the same elements of the field of order `m`. -/
structure Signals.Congruent (m : ℕ) (a b : Signals) : Prop where
  vaultRootCommitment : a.vaultRootCommitment ≡ b.vaultRootCommitment [MOD m]
  nullifierHash : a.nullifierHash ≡ b.nullifierHash [MOD m]
  documentId : a.documentId ≡ b.documentId [MOD m]

theorem Signals.Congruent.nullifierHash_eq {m : ℕ} {a b : Signals} (h : a.Congruent m b)
    (ha : a.nullifierHash < m) (hb : b.nullifierHash < m) : a.nullifierHash = b.nullifierHash :=
  h.nullifierHash.eq_of_lt_of_lt ha hb

def ascii (s : String) : Bytes := s.toList.map fun c => UInt8.ofNat c.toNat

end ChainGuard
