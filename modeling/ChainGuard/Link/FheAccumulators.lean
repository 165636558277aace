import ChainGuard.Evm.FheApprovals
import ChainGuard.Soroban.FheSums
import ChainGuard.Library.Accumulators
import ChainGuard.Soroban.FheApprovals
import Mathlib.Algebra.Order.BigOperators.Group.Multiset

/-! The two homomorphic additions against each other. Soroban's reads the dimension off the length and
subtracts the prime at most once; the EVM's checks the dimension and reduces in full. -/
namespace ChainGuard.Link
open Guarded
open Evm.FHEEngine (FHE_PRIME mload sumWords)
set_option autoImplicit false

variable {ct1 ct2 sum : Bytes}

/-- Both additions succeed or neither does, and then on the same bytes: of two ciphertexts, the header
word and the sums of the words modulo the prime. -/
def AddAlike (ct1 ct2 : Bytes) : Prop :=
  ((∃ sum, Soroban.fheAdd ct1 ct2 = .ok sum) ↔ ∃ sum, Evm.FHEEngine.fheAdd ct1 ct2 = .ok sum) ∧
    ∀ sum, Soroban.fheAdd ct1 ct2 = .ok sum → Evm.FHEEngine.fheAdd ct1 ct2 = .ok sum ∧
      (ct1 ≠ [] → ct2 ≠ [] → sum = ct1.take 32 ++ sumWords ct1 ct2 (ct1.length / 32 - 1))

/-- The length is that of the declared dimension, and no two words reach twice the prime. -/
structure Addable (ct1 ct2 : Bytes) : Prop where
  length : ct1.length = (mload ct1 0 + 2) * 32
  representable : ct1.length < 2 ^ 256
  sums : ∀ i < mload ct1 0 + 1, mload ct1 (i + 1) + mload ct2 (i + 1) < 2 * FHE_PRIME

theorem mload_eq_numberAt (ct : Bytes) (i : ℕ) : mload ct i = Soroban.numberAt ct i := by
  rw [mload, Soroban.numberAt, Soroban.wordAt, Nat.mul_comm]

theorem evm_fheAdd_ok (h1 : ct1 ≠ []) (h2 : ct2 ≠ []) :
    Evm.FHEEngine.fheAdd ct1 ct2 = .ok sum ↔ (96 ≤ ct1.length ∧ 96 ≤ ct2.length) ∧ ct1.length = ct2.length ∧
      ct1.length = (mload ct1 0 + 2) * 32 ∧ ct1.length < 2 ^ 256 ∧
        sum = ct1.take 32 ++ sumWords ct1 ct2 (ct1.length / 32 - 1) := by
  unfold Evm.FHEEngine.fheAdd
  rw [if_neg (by rwa [List.length_eq_zero_iff]), if_neg (by rwa [List.length_eq_zero_iff])]
  simp only [revertIf_bind, not_not, pure_ok, not_or, not_lt, not_le]
  refine and_congr_right fun hlong => and_congr_right fun _ => ?_
  rw [and_left_comm]
  refine and_congr_right fun hdim => ?_
  rw [← hdim]
  refine and_congr_right fun _ => ?_
  have hheader : word (mload ct1 0) = ct1.take 32 := by
    rw [mload, Nat.mul_zero, List.drop_zero, Soroban.word_natBE]
    rw [List.length_take]
    omega
  have hwords : ct1.length / 32 - 1 = mload ct1 0 + 1 := by omega
  rw [hheader, hwords]
  exact eq_comm

theorem words_inj {xs ys : List ℕ} (hlength : xs.length = ys.length) (hxs : ∀ x ∈ xs, x < 2 ^ 256)
    (hys : ∀ y ∈ ys, y < 2 ^ 256) (h : xs.flatMap word = ys.flatMap word) : xs = ys := by
  refine List.ext_getElem hlength fun i hi hi' => ?_
  have hread := congrArg (mload · i) h
  simp only [Evm.FHEEngine.mload_words hi, Evm.FHEEngine.mload_words hi'] at hread
  rwa [Nat.mod_eq_of_lt (hxs _ (List.getElem_mem hi)), Nat.mod_eq_of_lt (hys _ (List.getElem_mem hi'))] at hread

/-- One subtraction reduces a sum in full below twice the prime, and not from there on. -/
theorem sumOnce_eq_mod {a b : ℕ} (ha : a < 2 ^ 256) (hb : b < 2 ^ 256) :
    Soroban.sumOnce a b = (a + b) % FHE_PRIME ↔ a + b < 2 * FHE_PRIME := by
  have hprime : FHE_PRIME + 2 ^ 32 + 977 = 2 ^ 256 := by decide
  have hsame : Soroban.FHE_PRIME = FHE_PRIME := by decide
  unfold Soroban.sumOnce
  rw [hsame]
  generalize FHE_PRIME = prime at hprime
  split
  case isTrue hle =>
    rw [Nat.mod_eq_sub_mod hle]
    constructor
    · intro hmod
      by_contra htwice
      have hfull : (a + b - prime) % prime = a + b - prime - prime := by
        rw [Nat.mod_eq_sub_mod (by omega), Nat.mod_eq_of_lt (by omega)]
      omega
    · intro hbelow
      rw [Nat.mod_eq_of_lt (b := prime) (by omega), Nat.mod_eq_of_lt (by omega)]
  case isFalse hnot =>
    rw [Nat.mod_eq_of_lt (not_le.mp hnot)]
    simp only [true_iff]
    omega

theorem sums_agree {n : ℕ} : (Soroban.sumsOnce ct1 ct2 n).flatMap word = sumWords ct1 ct2 n ↔
    ∀ i < n, mload ct1 (i + 1) + mload ct2 (i + 1) < 2 * FHE_PRIME := by
  have hprime : FHE_PRIME < 2 ^ 256 := by decide
  have hwords : sumWords ct1 ct2 n = ((List.range n).map fun i =>
      (mload ct1 (i + 1) + mload ct2 (i + 1)) % FHE_PRIME).flatMap word := by
    rw [sumWords, List.flatMap_map]
  rw [hwords]
  constructor
  · intro h i hi
    have hlists := words_inj (by simp [Soroban.sumsOnce])
      (by
        intro x hx
        obtain ⟨j, _, rfl⟩ := List.mem_map.mp hx
        exact Soroban.sumOnce_lt)
      (by
        intro y hy
        obtain ⟨j, _, rfl⟩ := List.mem_map.mp hy
        exact (Nat.mod_lt _ (by decide)).trans hprime) h
    have hat := List.map_inj_left.mp hlists i (List.mem_range.mpr hi)
    rw [mload_eq_numberAt, mload_eq_numberAt] at hat ⊢
    exact (sumOnce_eq_mod Soroban.numberAt_lt Soroban.numberAt_lt).mp hat
  · intro h
    refine congrArg (·.flatMap word) (List.map_inj_left.mpr fun i hi => ?_)
    have hbelow := h i (List.mem_range.mp hi)
    rw [mload_eq_numberAt, mload_eq_numberAt] at hbelow ⊢
    exact (sumOnce_eq_mod Soroban.numberAt_lt Soroban.numberAt_lt).mpr hbelow

/-- On two ciphertexts of one length the additions are alike just when the length is that of the
dimension and the sums stay below twice the prime. -/
theorem addAlike_of_length (h1 : 96 ≤ ct1.length) (hlength : ct1.length = ct2.length) :
    AddAlike ct1 ct2 ↔ Addable ct1 ct2 := by
  have hne1 : ct1 ≠ [] := by
    rintro rfl
    simp at h1
  have hne2 : ct2 ≠ [] := by
    rintro rfl
    simp at hlength
    exact hne1 hlength
  have hlong : 96 ≤ ct1.length ∧ 96 ≤ ct2.length := ⟨h1, hlength ▸ h1⟩
  have hsoroban : ∀ sum, Soroban.fheAdd ct1 ct2 = .ok sum ↔
      sum = ct1.take 32 ++ (Soroban.sumsOnce ct1 ct2 (ct1.length / 32 - 1)).flatMap word := fun sum => by
    rw [Soroban.fheAdd_ok hne1 hne2]
    simp [hlong, hlength]
  have hevm := fun sum => @evm_fheAdd_ok ct1 ct2 sum hne1 hne2
  constructor
  · rintro ⟨hsucceed, hsame⟩
    obtain ⟨hevm', hsum⟩ := hsame _ ((hsoroban _).mpr rfl)
    obtain ⟨_, _, hdim, hrep, _⟩ := (hevm _).mp hevm'
    refine ⟨hdim, hrep, ?_⟩
    have hagree := List.append_cancel_left (hsum hne1 hne2)
    rw [show ct1.length / 32 - 1 = mload ct1 0 + 1 by omega] at hagree
    exact sums_agree.mp hagree
  · rintro ⟨hdim, hrep, hsums⟩
    have hagree := sums_agree.mpr hsums
    rw [← show ct1.length / 32 - 1 = mload ct1 0 + 1 by omega] at hagree
    rw [hagree] at hsoroban
    refine ⟨⟨fun _ => ⟨_, (hevm _).mpr ⟨hlong, hlength, hdim, hrep, rfl⟩⟩, fun _ => ⟨_, (hsoroban _).mpr rfl⟩⟩, ?_⟩
    intro sum hsum
    rw [hsoroban] at hsum
    exact ⟨(hevm _).mpr ⟨hlong, hlength, hdim, hrep, hsum⟩, fun _ _ => hsum⟩

/-- The two additions are alike where one side is empty, where both refuse for a length, and on two
ciphertexts of the declared dimension whose words stay below twice the prime in sum. -/
theorem fhe_additions_alike_iff (ct1 ct2 : Bytes) : AddAlike ct1 ct2 ↔
    ct1 = [] ∨ ct2 = [] ∨ ct1.length < 96 ∨ ct2.length < 96 ∨ ct1.length ≠ ct2.length ∨ Addable ct1 ct2 := by
  by_cases hne1 : ct1 = []
  · subst hne1
    simp [AddAlike, Soroban.fheAdd, Evm.FHEEngine.fheAdd, pure, Except.pure]
  by_cases hne2 : ct2 = []
  · subst hne2
    simp [AddAlike, Soroban.fheAdd, Evm.FHEEngine.fheAdd, hne1, pure, Except.pure]
  by_cases haccepted : (96 ≤ ct1.length ∧ 96 ≤ ct2.length) ∧ ct1.length = ct2.length
  · obtain ⟨⟨h1, h2⟩, hlength⟩ := haccepted
    rw [addAlike_of_length h1 hlength]
    simp [hne1, hne2, hlength, not_lt.mpr h2]
  · have hsoroban : ∀ sum, Soroban.fheAdd ct1 ct2 ≠ .ok sum := fun sum h => by
      obtain ⟨hlong, hlength, _⟩ := (Soroban.fheAdd_ok hne1 hne2).mp h
      exact haccepted ⟨hlong, hlength⟩
    have hevm : ∀ sum, Evm.FHEEngine.fheAdd ct1 ct2 ≠ .ok sum := fun sum h => by
      obtain ⟨hlong, hlength, _⟩ := (evm_fheAdd_ok hne1 hne2).mp h
      exact haccepted ⟨hlong, hlength⟩
    simp only [AddAlike, hsoroban, hevm, exists_const, false_imp_iff, implies_true, and_true, true_iff]
    by_contra hnone
    simp only [not_or, not_lt, not_not] at hnone
    exact haccepted ⟨⟨hnone.2.2.1, hnone.2.2.2.1⟩, hnone.2.2.2.2.1⟩

def onesCiphertext : Bytes := [1, 2 ^ 256 - 1, 2 ^ 256 - 1].flatMap word

/-- Words that are not reduced make the additions differ: Soroban's sums are off by the prime. -/
theorem fhe_additions_differ : ¬ AddAlike onesCiphertext onesCiphertext := by
  have hlength : onesCiphertext.length = 96 := Evm.FHEEngine.words_length _
  rw [addAlike_of_length hlength.ge rfl]
  intro h
  have hheader : mload onesCiphertext 0 = 1 := by decide +kernel
  have hword : mload onesCiphertext 1 = 2 ^ 256 - 1 := by decide +kernel
  have hsum := h.sums 0 (hheader ▸ by decide)
  rw [hword] at hsum
  exact absurd hsum (by decide)

/-! The accumulators of encrypted shares over whole runs of the two contracts. The first payload for a
request is stored as it comes; from the second on the sum is checked. -/
open History

variable {acc sum payload : Bytes} {dim r : ℕ}

/-! ## What an accumulator should hold -/

/-- `dim + 2` words of 32 bytes, the first of which is the dimension. -/
structure IsCiphertext (dim : ℕ) (ct : Bytes) : Prop where
  positive : 1 ≤ dim
  length : ct.length = (dim + 2) * 32
  representable : ct.length < 2 ^ 256
  header : mload ct 0 = dim

abbrev Payload := { payload : Bytes // payload ≠ [] }

/-- Nothing for no payloads, and otherwise a ciphertext whose words are the sums of theirs. -/
def HoldsSum (payloads : Multiset Payload) (acc : Bytes) : Prop :=
  if payloads = 0 then acc = []
  else ∃ dim, IsCiphertext dim acc ∧
    ∀ i < dim + 1, mload acc (i + 1) = (payloads.map fun p => mload p.val (i + 1)).sum % FHE_PRIME

def Begins (payload : Bytes) : Prop :=
  ∃ dim, IsCiphertext dim payload ∧ ∀ i < dim + 1, mload payload (i + 1) < FHE_PRIME

theorem holdsSum_zero : HoldsSum 0 acc ↔ acc = [] := by rw [HoldsSum, if_pos rfl]

theorem holdsSum_cons {payloads : Multiset Payload} {p : Payload} : HoldsSum (p ::ₘ payloads) acc ↔
    ∃ dim, IsCiphertext dim acc ∧ ∀ i < dim + 1, mload acc (i + 1) =
      (mload p.val (i + 1) + (payloads.map fun p => mload p.val (i + 1)).sum) % FHE_PRIME := by
  rw [HoldsSum, if_neg Multiset.cons_ne_zero]
  simp only [Multiset.map_cons, Multiset.sum_cons]

theorem IsCiphertext.ne_nil (h : IsCiphertext dim acc) : acc ≠ [] := by
  rintro rfl
  have hlength := h.length
  rw [List.length_nil] at hlength
  omega

theorem HoldsSum.cases {payloads : Multiset Payload} (h : HoldsSum payloads acc) :
    (payloads = 0 ∧ acc = []) ∨ (acc ≠ [] ∧ ∃ dim, IsCiphertext dim acc ∧
      ∀ i < dim + 1, mload acc (i + 1) = (payloads.map fun p => mload p.val (i + 1)).sum % FHE_PRIME) := by
  unfold HoldsSum at h
  split at h
  case isTrue hzero => exact .inl ⟨hzero, h⟩
  case isFalse hsome =>
    obtain ⟨dim, hct, hwords⟩ := h
    exact .inr ⟨hct.ne_nil, dim, hct, hwords⟩

theorem holdsSum_single {p : Payload} : HoldsSum (p ::ₘ 0) p.val ↔ Begins p.val := by
  rw [holdsSum_cons, Begins]
  refine exists_congr fun dim => and_congr_right fun _ => forall₂_congr fun i _ => ?_
  rw [Multiset.map_zero, Multiset.sum_zero, Nat.add_zero, eq_comm]
  exact Nat.mod_eq_iff_lt (by decide)

/-! ## One addition -/

theorem IsCiphertext.of_words (h : IsCiphertext dim acc) {words : List ℕ} (hlength : words.length = dim + 1)
    (hwords : ∀ w ∈ words, w < 2 ^ 256) (hsum : sum = acc.take 32 ++ words.flatMap word) :
    IsCiphertext dim sum ∧ ∀ i (hi : i < dim + 1), mload sum (i + 1) = words[i] := by
  have hheader : acc.take 32 = word dim := by
    have hread : (acc.take 32).length = 32 := by
      rw [List.length_take, h.length]
      omega
    rw [← h.header, mload, Nat.mul_zero, List.drop_zero, Soroban.word_natBE hread]
  have hlist : sum = (dim :: words).flatMap word := by
    rw [hsum, hheader, List.flatMap_cons]
  have hdim : dim < 2 ^ 256 := by
    have hlength := h.length
    have hsmall := h.representable
    omega
  have hsize : sum.length = (dim + 2) * 32 := by
    rw [hlist, Evm.FHEEngine.words_length, List.length_cons, hlength]
    ring
  refine ⟨⟨h.positive, hsize, ?_, ?_⟩, ?_⟩
  · rw [hsize, ← h.length]
    exact h.representable
  · rw [hlist, Evm.FHEEngine.mload_words (Nat.zero_lt_succ _)]
    exact Nat.mod_eq_of_lt hdim
  · intro i hi
    rw [hlist, Evm.FHEEngine.mload_words (by rw [List.length_cons, hlength]; omega), List.getElem_cons_succ]
    exact Nat.mod_eq_of_lt (hwords _ (List.getElem_mem _))

theorem IsCiphertext.admits (h : IsCiphertext dim acc) (hp : IsCiphertext dim payload) :
    (∃ sum, Evm.FHEEngine.fheAdd acc payload = .ok sum) ∧ ∃ sum, Soroban.fheAdd acc payload = .ok sum := by
  have hlength := h.length
  have hpositive := h.positive
  have hlong : 96 ≤ acc.length ∧ 96 ≤ payload.length := by
    rw [h.length, hp.length]
    omega
  have hsame : acc.length = payload.length := h.length.trans hp.length.symm
  refine ⟨⟨_, (evm_fheAdd_ok h.ne_nil hp.ne_nil).mpr ⟨hlong, hsame, ?_, h.representable, rfl⟩⟩,
    ⟨_, (Soroban.fheAdd_ok h.ne_nil hp.ne_nil).mpr ⟨hlong, hsame, rfl⟩⟩⟩
  rw [h.header]
  exact h.length

/-- The EVM's addition keeps the sum, but for a first payload that nothing checks. -/
theorem evm_holdsSum_iff {payloads : Multiset Payload} {p : Payload} (h : HoldsSum payloads acc)
    (hadd : Evm.FHEEngine.fheAdd acc p.val = .ok sum) :
    HoldsSum (p ::ₘ payloads) sum ↔ (acc = [] → Begins p.val) := by
  obtain ⟨rfl, rfl⟩ | ⟨hne, dim, hct, hwords⟩ := h.cases
  · obtain rfl : p.val = sum := Except.ok.inj hadd
    rw [holdsSum_single]
    simp
  · obtain ⟨_, _, _, _, hsum⟩ := (evm_fheAdd_ok hne p.property).mp hadd
    have hlength := hct.length
    rw [show acc.length / 32 - 1 = dim + 1 by omega, sumWords, ← List.flatMap_map _ word] at hsum
    obtain ⟨hsumct, hread⟩ := hct.of_words (by simp) (by
      intro w hw
      obtain ⟨i, _, rfl⟩ := List.mem_map.mp hw
      exact (Nat.mod_lt _ (by decide)).trans (by decide)) hsum
    rw [holdsSum_cons]
    refine iff_of_true ⟨dim, hsumct, fun i hi => ?_⟩ fun hnil => absurd hnil hne
    rw [hread i hi, List.getElem_map, List.getElem_range, hwords i hi, Nat.mod_add_mod, Nat.add_comm]

theorem soroban_holdsSum_iff {payloads : Multiset Payload} {p : Payload} (h : HoldsSum payloads acc)
    (hadd : Soroban.fheAdd acc p.val = .ok sum) :
    HoldsSum (p ::ₘ payloads) sum ↔ (acc = [] → Begins p.val) ∧
      (acc ≠ [] → ∀ i < mload acc 0 + 1, mload acc (i + 1) + mload p.val (i + 1) < 2 * FHE_PRIME) := by
  obtain ⟨rfl, rfl⟩ | ⟨hne, dim, hct, hwords⟩ := h.cases
  · obtain rfl : p.val = sum := Except.ok.inj hadd
    rw [holdsSum_single]
    simp
  · obtain ⟨_, _, hsum⟩ := (Soroban.fheAdd_ok hne p.property).mp hadd
    have hlength := hct.length
    rw [show acc.length / 32 - 1 = dim + 1 by omega] at hsum
    obtain ⟨hsumct, hread⟩ := hct.of_words (by simp [Soroban.sumsOnce]) (by
      intro w hw
      obtain ⟨i, _, rfl⟩ := List.mem_map.mp hw
      exact Soroban.sumOnce_lt) hsum
    have hword : ∀ i < dim + 1, (mload sum (i + 1) =
        (mload p.val (i + 1) + (payloads.map fun p => mload p.val (i + 1)).sum) % FHE_PRIME ↔
          mload acc (i + 1) + mload p.val (i + 1) < 2 * FHE_PRIME) := by
      intro i hi
      have hreduced : (mload p.val (i + 1) + (payloads.map fun p => mload p.val (i + 1)).sum) % FHE_PRIME =
          (mload acc (i + 1) + mload p.val (i + 1)) % FHE_PRIME := by
        rw [hwords i hi, Nat.mod_add_mod, Nat.add_comm]
      rw [hreduced, hread i hi]
      simp only [Soroban.sumsOnce, List.getElem_map, List.getElem_range]
      rw [mload_eq_numberAt, mload_eq_numberAt]
      exact sumOnce_eq_mod Soroban.numberAt_lt Soroban.numberAt_lt
    rw [holdsSum_cons]
    simp only [hne, IsEmpty.forall_iff, true_and, ne_eq, not_false_eq_true, forall_const, hct.header]
    constructor
    · rintro ⟨dim', hct', hsums⟩ i hi
      obtain rfl : dim' = dim := hct'.header.symm.trans hsumct.header
      exact (hword i hi).mp (hsums i hi)
    · intro hsums
      exact ⟨dim, hsumct, fun i hi => (hword i hi).mpr (hsums i hi)⟩

/-! ## Runs -/

def nonempty {α : Type} (submission : Option (α × Bytes)) : Option Payload :=
  submission.bind fun sub => if h : sub.2 = [] then none else some ⟨sub.2, h⟩

theorem nonempty_some {α : Type} {a : α} (h : payload ≠ []) : nonempty (some (a, payload)) = some ⟨payload, h⟩ :=
  dif_neg h

theorem nonempty_empty {α : Type} {a : α} (h : payload = []) : nonempty (some (a, payload)) = none := dif_pos h

section Evm
variable {L : Type} {chain : Evm.Chain} {nft : Evm.ERC721 L} {hist : List (Transition (Evm.State L) Evm.Invocation)}
  {s s' : Evm.State L} {i : Evm.Invocation}

def evmPayload (r : ℕ) (t : Transition (Evm.State L) Evm.Invocation) : Option Payload :=
  nonempty (Evm.fheSubmission r t)

/-- The accumulator of a request after these payloads: their number and their sum, and no well-formed
payload of its dimension is refused to a guardian who may approve. -/
structure EvmSound (chain : Evm.Chain) (r : ℕ) (payloads : Multiset Payload) (s : Evm.State L) : Prop where
  count : s.requests.fheAccumulatorCount r = Multiset.card payloads
  sum : HoldsSum payloads (s.requests.fheRequestAccumulator r)
  admits : ∀ env dim payload, IsCiphertext dim payload →
    (s.requests.fheRequestAccumulator r ≠ [] → mload (s.requests.fheRequestAccumulator r) 0 = dim) →
    (∃ out, Evm.approveAccessFHE chain env s r [] = .ok out) →
      ∃ out, Evm.approveAccessFHE chain env s r payload = .ok out

theorem evmSound_iff {payloads : Multiset Payload} : EvmSound chain r payloads s ↔
    Accumulators.Stands HoldsSum (fun s : Evm.State L => s.requests.fheRequestAccumulator r)
      (fun s => s.requests.fheAccumulatorCount r) payloads s := by
  constructor
  · exact fun h => ⟨h.count, h.sum⟩
  · rintro ⟨hcount, hsum⟩
    refine ⟨hcount, hsum, fun env dim payload hp hagreed hmay => ?_⟩
    change HoldsSum payloads (s.requests.fheRequestAccumulator r) at hsum
    obtain ⟨_, hnil⟩ | ⟨hne, dim', hct, _⟩ := hsum.cases
    · refine Evm.approveAccessFHE_admits hmay (show _ = Except.ok payload from ?_)
      rw [hnil]
      rfl
    · obtain rfl : dim' = dim := hct.header.symm.trans (hagreed hne)
      obtain ⟨sum, hadd⟩ := (hct.admits hp).1
      exact Evm.approveAccessFHE_admits hmay hadd

theorem evm_effect (h : Evm.Steps chain nft s i s') : Accumulators.Effect
    (fun acc (p : Payload) => Evm.FHEEngine.fheAdd acc p.val) (fun s => s.requests.fheRequestAccumulator r)
      (fun s => s.requests.fheAccumulatorCount r) (evmPayload r) ⟨s, i, s'⟩ := by
  obtain ⟨hnone, hacc, hcount⟩ | ⟨guardian, payload, hsome, hsubmits⟩ := h.submits r
  · refine .kept ?_ hacc hcount
    rw [evmPayload, hnone]
    rfl
  · cases hsubmits with
    | empty hempty hacc hcount =>
      refine .kept ?_ hacc hcount
      rw [evmPayload, hsome, nonempty_empty hempty]
    | added hne hadd hcount =>
      refine .adds ⟨payload, hne⟩ ?_ hadd hcount
      rw [evmPayload, hsome, nonempty_some hne]

theorem evm_sound_iff (h : Evm.VaultRun chain nft hist s) (r : ℕ) :
    (∀ early mid, Visits hist s early mid → EvmSound chain r (Accumulators.addedIn (evmPayload r) early) mid) ↔
      ∀ t ∈ hist, ∀ p, evmPayload r t = some p → t.pre.requests.fheRequestAccumulator r = [] → Begins p.val := by
  simp only [evmSound_iff]
  refine Accumulators.stands_throughout_iff (R := HoldsSum) (C := fun acc p => acc = [] → Begins p.val) ?_
    (fun s i s' hstep => evm_effect hstep) (fun _ _ _ _ => evm_holdsSum_iff) h
  rintro s ⟨deployer, rfl⟩
  exact ⟨rfl, holdsSum_zero.mpr rfl⟩

end Evm

section Soroban
variable {host : Soroban.Host} {hist : List (Transition Soroban.State Soroban.Invocation)} {s s' : Soroban.State}
  {i : Soroban.Invocation}

def sorobanPayload (r : ℕ) (t : Transition Soroban.State Soroban.Invocation) : Option Payload :=
  nonempty (Soroban.fheSubmission r t)

structure SorobanSound (r : ℕ) (payloads : Multiset Payload) (s : Soroban.State) : Prop where
  count : s.requests.fheAccumulatorCount r = Multiset.card payloads
  sum : HoldsSum payloads (s.requests.accumulator r)
  admits : ∀ env approver dim payload, IsCiphertext dim payload →
    (s.requests.accumulator r ≠ [] → mload (s.requests.accumulator r) 0 = dim) →
    (∃ out, Soroban.approveAccessFhe env s approver r [] = .ok out) →
      ∃ out, Soroban.approveAccessFhe env s approver r payload = .ok out

/-- What a payload has to meet: the first one as on the EVM, and each later one in its sums. -/
def Fits (acc payload : Bytes) : Prop :=
  (acc = [] → Begins payload) ∧
    (acc ≠ [] → ∀ i < mload acc 0 + 1, mload acc (i + 1) + mload payload (i + 1) < 2 * FHE_PRIME)

theorem sorobanSound_iff {payloads : Multiset Payload} : SorobanSound r payloads s ↔
    Accumulators.Stands HoldsSum (fun s : Soroban.State => s.requests.accumulator r)
      (fun s => s.requests.fheAccumulatorCount r) payloads s := by
  constructor
  · exact fun h => ⟨h.count, h.sum⟩
  · rintro ⟨hcount, hsum⟩
    refine ⟨hcount, hsum, fun env approver dim payload hp hagreed hmay => ?_⟩
    change HoldsSum payloads (s.requests.accumulator r) at hsum
    obtain ⟨_, hnil⟩ | ⟨hne, dim', hct, _⟩ := hsum.cases
    · refine Soroban.approveAccessFhe_admits hmay (show _ = Except.ok payload from ?_)
      rw [hnil]
      rfl
    · obtain rfl : dim' = dim := hct.header.symm.trans (hagreed hne)
      obtain ⟨sum, hadd⟩ := (hct.admits hp).2
      exact Soroban.approveAccessFhe_admits hmay hadd

theorem soroban_effect (h : Soroban.Steps host s i s') : Accumulators.Effect
    (fun acc (p : Payload) => Soroban.fheAdd acc p.val) (fun s => s.requests.accumulator r)
      (fun s => s.requests.fheAccumulatorCount r) (sorobanPayload r) ⟨s, i, s'⟩ := by
  obtain ⟨hnone, hacc, hcount⟩ | ⟨approver, payload, hsome, hsubmits⟩ := h.submits r
  · refine .kept ?_ hacc hcount
    rw [sorobanPayload, hnone]
    rfl
  · cases hsubmits with
    | empty hempty hacc hcount =>
      refine .kept ?_ hacc hcount
      rw [sorobanPayload, hsome, nonempty_empty hempty]
    | added hne hadd hcount =>
      refine .adds ⟨payload, hne⟩ ?_ hadd hcount
      rw [sorobanPayload, hsome, nonempty_some hne]

theorem soroban_sound_iff (h : Soroban.StellarRun host hist s) (r : ℕ) :
    (∀ early mid, Visits hist s early mid → SorobanSound r (Accumulators.addedIn (sorobanPayload r) early) mid) ↔
      ∀ t ∈ hist, ∀ p, sorobanPayload r t = some p → Fits (t.pre.requests.accumulator r) p.val := by
  simp only [sorobanSound_iff]
  refine Accumulators.stands_throughout_iff (R := HoldsSum) (C := fun acc p => Fits acc p.val) ?_
    (fun s i s' hstep => soroban_effect hstep) (fun _ _ _ _ => soroban_holdsSum_iff) h
  rintro s rfl
  exact ⟨rfl, holdsSum_zero.mpr rfl⟩

end Soroban

/-- The accumulators stay sound through a run just when, on the EVM, every first payload is a reduced
ciphertext, and, on Soroban, besides no later sum of two words reaches twice the prime. -/
theorem fhe_accumulators_sound_iff {L : Type} (chain : Evm.Chain) (nft : Evm.ERC721 L) (host : Soroban.Host) :
    (∀ hist s, Evm.VaultRun chain nft hist s → ∀ r,
      ((∀ early mid, Visits hist s early mid →
          EvmSound chain r (Accumulators.addedIn (evmPayload r) early) mid) ↔
        ∀ t ∈ hist, ∀ p, evmPayload r t = some p →
          t.pre.requests.fheRequestAccumulator r = [] → Begins p.val)) ∧
    ∀ hist s, Soroban.StellarRun host hist s → ∀ r,
      ((∀ early mid, Visits hist s early mid →
          SorobanSound r (Accumulators.addedIn (sorobanPayload r) early) mid) ↔
        ∀ t ∈ hist, ∀ p, sorobanPayload r t = some p → Fits (t.pre.requests.accumulator r) p.val) :=
  ⟨fun _ _ h r => evm_sound_iff h r, fun _ _ h r => soroban_sound_iff h r⟩

def smallCiphertext : Bytes := [1, 5, 7].flatMap word

theorem smallCiphertext_begins : Begins smallCiphertext := by
  refine ⟨1, ⟨le_rfl, by decide, by decide, by decide +kernel⟩, ?_⟩
  decide +kernel

/-- Guardian 1 submits a payload for the request, on the EVM and on Soroban. -/
def evmSubmission (payload : Bytes) : List Evm.Invocation :=
  Evm.openedRequest ++ [(Evm.callBy 1 106, .approval (.approveAccessFHE 1 payload))]

def sorobanSubmission (fheShare : Bytes) : List Soroban.Invocation :=
  Soroban.openedVault 2 ++
    [(Soroban.invokedBy [Soroban.acct 3] 103, .requestAccess (Soroban.acct 3) 1),
      (Soroban.invokedBy [Soroban.acct 1] 104, .approval (.approveAccessFhe (Soroban.acct 1) 1 fheShare))]

theorem fhe_accumulators_sound_small :
    (∃ hist s, Evm.VaultRun Evm.localChain Evm.ERC721.standard hist s ∧
      s.requests.fheRequestAccumulator 1 = smallCiphertext ∧
      EvmSound Evm.localChain 1 (Accumulators.addedIn (evmPayload 1) hist) s) ∧
    ∃ hist s, Soroban.StellarRun Soroban.localHost hist s ∧ s.requests.accumulator 1 = smallCiphertext ∧
      SorobanSound 1 (Accumulators.addedIn (sorobanPayload 1) hist) s := by
  have hboth := fhe_accumulators_sound_iff Evm.localChain Evm.ERC721.standard Soroban.localHost
  constructor
  · obtain ⟨hist, s, hrun, hend⟩ := Evm.exists_run Evm.localChain Evm.ERC721.standard 7
      (evmSubmission smallCiphertext) (fun hist s =>
        decide (s.requests.fheRequestAccumulator 1 = smallCiphertext ∧
          ∀ t ∈ hist, evmPayload 1 t = none ∨ (evmPayload 1 t).map Subtype.val = some smallCiphertext))
      (by decide +kernel)
    obtain ⟨hacc, hall⟩ := of_decide_eq_true hend
    refine ⟨hist, s, hrun, hacc, (hboth.1 hist s hrun 1).mpr ?_ hist s .here⟩
    intro t ht p hp _
    obtain hnone | hsmall := hall t ht
    · cases hnone.symm.trans hp
    · rw [hp, Option.map_some, Option.some.injEq] at hsmall
      rw [hsmall]
      exact smallCiphertext_begins
  · obtain ⟨hist, s, hrun, hend⟩ := Soroban.exists_run Soroban.localHost (sorobanSubmission smallCiphertext)
      (fun hist s => decide (s.requests.accumulator 1 = smallCiphertext ∧
        ∀ t ∈ hist, sorobanPayload 1 t = none ∨ ((sorobanPayload 1 t).map Subtype.val = some smallCiphertext ∧
          t.pre.requests.accumulator 1 = []))) (by decide +kernel)
    obtain ⟨hacc, hall⟩ := of_decide_eq_true hend
    refine ⟨hist, s, hrun, hacc, (hboth.2 hist s hrun 1).mpr ?_ hist s .here⟩
    intro t ht p hp
    obtain hnone | ⟨hsmall, hempty⟩ := hall t ht
    · cases hnone.symm.trans hp
    · rw [hp, Option.map_some, Option.some.injEq] at hsmall
      rw [hsmall, hempty]
      exact ⟨fun _ => smallCiphertext_begins, fun hne => absurd rfl hne⟩

/-- A guardian's single byte becomes the accumulator, and from then on no ciphertext can be added. -/
theorem fhe_accumulator_not_ciphertext :
    (∃ hist s, Evm.VaultRun Evm.localChain Evm.ERC721.standard hist s ∧
      ¬ EvmSound Evm.localChain 1 (Accumulators.addedIn (evmPayload 1) hist) s ∧
      ∀ dim ct, IsCiphertext dim ct →
        ∀ sum, Evm.FHEEngine.fheAdd (s.requests.fheRequestAccumulator 1) ct ≠ .ok sum) ∧
    ∃ hist s, Soroban.StellarRun Soroban.localHost hist s ∧
      ¬ SorobanSound 1 (Accumulators.addedIn (sorobanPayload 1) hist) s ∧
      ∀ dim ct, IsCiphertext dim ct → ∀ sum, Soroban.fheAdd (s.requests.accumulator 1) ct ≠ .ok sum := by
  have hbroken : ∀ payloads, ¬ HoldsSum payloads [1] := by
    intro payloads hsum
    obtain ⟨_, hnil⟩ | ⟨_, dim, hct, _⟩ := hsum.cases
    · cases hnil
    · have hlength := hct.length
      rw [List.length_singleton] at hlength
      omega
  have hne : ([1] : Bytes) ≠ [] := by decide
  constructor
  · obtain ⟨hist, s, hrun, hend⟩ := Evm.exists_run Evm.localChain Evm.ERC721.standard 7 (evmSubmission [1])
      (fun _ s => decide (s.requests.fheRequestAccumulator 1 = [1])) (by decide +kernel)
    have hacc := of_decide_eq_true hend
    refine ⟨hist, s, hrun, fun h => hbroken _ (hacc ▸ h.sum), fun dim ct hct sum hadd => ?_⟩
    rw [hacc, evm_fheAdd_ok hne hct.ne_nil] at hadd
    exact absurd hadd.1.1 (by decide)
  · obtain ⟨hist, s, hrun, hend⟩ := Soroban.exists_run Soroban.localHost (sorobanSubmission [1])
      (fun _ s => decide (s.requests.accumulator 1 = [1])) (by decide +kernel)
    have hacc := of_decide_eq_true hend
    refine ⟨hist, s, hrun, fun h => hbroken _ (hacc ▸ h.sum), fun dim ct hct sum hadd => ?_⟩
    rw [hacc, Soroban.fheAdd_ok hne hct.ne_nil] at hadd
    exact absurd hadd.1.1 (by decide)

end ChainGuard.Link
