import ChainGuard.Library.Spending
import ChainGuard.Evm.ZKAccessVerifier

/-! The verifier as a transition system. A nullifier is spent as the word it was given in, and the check
only sees it modulo the order of the group. -/
namespace ChainGuard.Evm.ZKAccessVerifier
open Guarded Bn254 History
set_option autoImplicit false

/-! ## Calls -/

structure Call where
  sender : Address
  args : Args

structure VerifyingKey where
  alpha : G1Words
  beta : G2Words
  gamma : G2Words
  delta : G2Words
  ic : List G1Words
  deriving DecidableEq

def Args.vk (args : Args) : VerifyingKey := ⟨args.vkAlpha, args.vkBeta, args.vkGamma, args.vkDelta, args.vkIC⟩

def Args.signals (args : Args) : Signals := ⟨args.vaultRootCommitment, args.nullifierHash, args.documentId⟩

/-- The signals and the points of the linear combination are words. -/
structure Args.Words (args : Args) : Prop where
  vaultRootCommitment : args.vaultRootCommitment < 2 ^ 256
  nullifierHash : args.nullifierHash < 2 ^ 256
  documentId : args.documentId < 2 ^ 256
  vkIC : ∀ w ∈ args.vkIC, w.1 < 2 ^ 256 ∧ w.2 < 2 ^ 256

/-- A call that succeeds; one that reverts leaves no trace. -/
def Steps (pc : Precompiles) (spentNullifiers : ℕ → Bool) (c : Call) (spentNullifiers' : ℕ → Bool) : Prop :=
  c.args.Words ∧ ∃ logs, verifyProof pc c.sender spentNullifiers c.args = .ok ((spentNullifiers', true), logs)

def Unspent (spentNullifiers : ℕ → Bool) : Prop := spentNullifiers = fun _ => false

abbrev VerifierRun (pc : Precompiles) (hist : List (Transition (ℕ → Bool) Call)) (s : ℕ → Bool) : Prop :=
  Run Unspent (Steps pc) hist s

/-! ## What a call checks and spends -/

/-- The checks that do not look at the nullifiers spent so far. -/
structure Checks (pc : Precompiles) (args : Args) : Prop where
  a : isOnG1 args.a.1 args.a.2 = true
  c : isOnG1 args.c.1 args.c.2 = true
  vkIC : args.vkIC.length = args.inputs.length + 1
  pairing : ∃ buffer, pairings args (linearCombination pc args) = .ok buffer ∧ pairingHolds pc buffer = true

theorem steps_iff {pc : Precompiles} {s s' : ℕ → Bool} {c : Call} : Steps pc s c s' ↔ c.args.Words ∧
    s c.args.nullifierHash = false ∧ Checks pc c.args ∧ s' = Function.update s c.args.nullifierHash true := by
  simp only [Steps, verifyProof, bind_ok, revertIf_ok, exists_const, pure_ok, Prod.mk.injEq,
    Bool.not_eq_true, Bool.not_eq_false, not_not, ne_eq, and_true]
  refine and_congr_right fun _ => ?_
  constructor
  · rintro ⟨logs, hunspent, ha, hc, hlength, buffer, hbuffer, hholds, rfl, _⟩
    exact ⟨hunspent, ⟨ha, hc, hlength, buffer, hbuffer, hholds⟩, rfl⟩
  · rintro ⟨hunspent, ⟨ha, hc, hlength, buffer, hbuffer, hholds⟩, rfl⟩
    exact ⟨_, hunspent, ha, hc, hlength, buffer, hbuffer, hholds, rfl, rfl⟩

theorem nullifier_effect {pc : Precompiles} {s s' : ℕ → Bool} {c : Call} (h : Steps pc s c s') :
    Spending.Effect id (fun t : Transition (ℕ → Bool) Call => some t.label.args.nullifierHash) ⟨s, c, s'⟩ := by
  obtain ⟨_, hunspent, _, rfl⟩ := steps_iff.mp h
  exact .spends _ rfl hunspent rfl

def accepted (vk : VerifyingKey) (t : Transition (ℕ → Bool) Call) : Option Signals :=
  if t.label.args.vk = vk then some t.label.args.signals else none

theorem accepted_eq {vk : VerifyingKey} {t : Transition (ℕ → Bool) Call} {x : Signals} :
    accepted vk t = some x ↔ t.label.args.vk = vk ∧ t.label.args.signals = x := by
  rw [accepted, Option.ite_none_right_eq_some, Option.some.injEq]

theorem statements_once_iff {pc : Precompiles} (vk : VerifyingKey)
    {hist : List (Transition (ℕ → Bool) Call)} {s : ℕ → Bool} (h : VerifierRun pc hist s) :
    Spending.StatementsOnce (accepted vk) (Signals.Congruent groupOrder) hist ↔
      Spending.OneTicket (accepted vk) (Signals.Congruent groupOrder) Signals.nullifierHash hist := by
  have hstart : ∀ s : ℕ → Bool, Unspent s → id s = fun _ => false := fun _ hs => hs
  have heffect : ∀ s i s', Steps pc s i s' → Spending.Effect id
      (fun t : Transition (ℕ → Bool) Call => some t.label.args.nullifierHash) ⟨s, i, s'⟩ :=
    fun _ _ _ hstep => nullifier_effect hstep
  refine Spending.statementsOnce_iff ?_ hstart heffect h
  intro s i s' x _ haccepted
  obtain ⟨_, rfl⟩ := accepted_eq.mp haccepted
  rfl

/-! ## Other encodings -/

variable {G2 GT : Type} [CommGroup GT] {pc : Precompiles} {pairing : Pairing G2 GT}

/-- The words that encode a point encode one whose order divides that of the group. -/
def InGroup (w : G1Words) : Prop := ∀ Q : G1, point? w = some Q → groupOrder • Q = 0

theorem scalarMulG1_congr (hpc : pc.Correct pairing) (hinvalid : pc.RejectsInvalid) {w : G1Words}
    (hx : w.1 < 2 ^ 256) (hy : w.2 < 2 ^ 256) (hw : InGroup w) {m n : ℕ} (hm : m < 2 ^ 256)
    (hn : n < 2 ^ 256) (h : m ≡ n [MOD groupOrder]) : scalarMulG1 pc w m = scalarMulG1 pc w n := by
  cases hpoint : point? w with
  | none =>
    -- the precompile fails, which reads as two zeros
    have hfails : ∀ k, scalarMulG1 pc w k = (0, 0) := by
      intro k
      unfold scalarMulG1
      split
      · rfl
      · have hmul := hinvalid w k hx hy hpoint
        rw [wordsG1, List.cons_append, List.cons_append, List.nil_append] at hmul
        rw [hmul]
        rfl
    rw [hfails, hfails]
  | some Q =>
    have hcoords := point?_eq_some.mp hpoint
    have horder : addOrderOf Q ∣ groupOrder := addOrderOf_dvd_of_nsmul_eq_zero (hw Q hpoint)
    have hmultiple : m • Q = n • Q := nsmul_eq_nsmul_iff_modEq.mpr (h.of_dvd horder)
    rw [← hcoords, scalarMulG1_coords hpc Q hm, scalarMulG1_coords hpc Q hn, hmultiple]

/-- The arguments with the nullifier in another encoding. -/
def Args.withNullifier (args : Args) (n : ℕ) : Args := { args with nullifierHash := n }

theorem Args.Words.withNullifier {args : Args} (h : args.Words) {n : ℕ} (hn : n < 2 ^ 256) :
    (args.withNullifier n).Words where
  vaultRootCommitment := h.vaultRootCommitment
  nullifierHash := hn
  documentId := h.documentId
  vkIC := h.vkIC

theorem linearCombination_withNullifier (hpc : pc.Correct pairing) (hinvalid : pc.RejectsInvalid)
    {args : Args} (hwords : args.Words) (hgroup : ∀ w ∈ args.vkIC, InGroup w) {n : ℕ} (hn : n < 2 ^ 256)
    (h : n ≡ args.nullifierHash [MOD groupOrder]) :
    linearCombination pc (args.withNullifier n) = linearCombination pc args := by
  have hic : (args.withNullifier n).vkIC = args.vkIC := rfl
  unfold linearCombination
  rw [hic]
  cases hvk : args.vkIC with
  | nil => rfl
  | cons ic0 rest =>
    match rest, hvk with
    | [], _ => rfl
    | [_], _ => rfl
    | ic1 :: ic2 :: rest, hvk =>
      have hmem : ic2 ∈ args.vkIC := by rw [hvk]; simp
      obtain ⟨hx, hy⟩ := hwords.vkIC ic2 hmem
      have hterm := scalarMulG1_congr hpc hinvalid hx hy (hgroup ic2 hmem) hn hwords.nullifierHash h
      simp [Args.inputs, Args.withNullifier, hterm]

theorem checks_withNullifier (hpc : pc.Correct pairing) (hinvalid : pc.RejectsInvalid) {args : Args}
    (hwords : args.Words) (hgroup : ∀ w ∈ args.vkIC, InGroup w) {n : ℕ} (hn : n < 2 ^ 256)
    (h : n ≡ args.nullifierHash [MOD groupOrder]) (hchecks : Checks pc args) :
    Checks pc (args.withNullifier n) := by
  obtain ⟨buffer, hbuffer, hholds⟩ := hchecks.pairing
  refine ⟨hchecks.a, hchecks.c, hchecks.vkIC, buffer, ?_, hholds⟩
  rw [linearCombination_withNullifier hpc hinvalid hwords hgroup hn h]
  exact hbuffer

theorem exists_encoding {n : ℕ} (hn : n < 2 ^ 256) : ∃ m, m < 2 ^ 256 ∧ m ≠ n ∧ m ≡ n [MOD groupOrder] := by
  have hpositive : 0 < groupOrder := by decide
  have htwice : 2 * groupOrder < 2 ^ 256 := by decide
  by_cases h : n + groupOrder < 2 ^ 256
  · exact ⟨n + groupOrder, h, by omega, Nat.add_modEq_right⟩
  · have hsum : n - groupOrder + groupOrder = n := Nat.sub_add_cancel (by omega)
    refine ⟨n - groupOrder, by omega, by omega, ?_⟩
    calc
      n - groupOrder ≡ n - groupOrder + groupOrder [MOD groupOrder] := Nat.add_modEq_right.symm
      _ = n := hsum

theorem accepted_again (hpc : pc.Correct pairing) (hinvalid : pc.RejectsInvalid) {c : Call}
    {s' : ℕ → Bool} (hgroup : ∀ w ∈ c.args.vkIC, InGroup w) (h : Steps pc (fun _ => false) c s') {n : ℕ}
    (hlt : n < 2 ^ 256) (hne : n ≠ c.args.nullifierHash) (hcongruent : n ≡ c.args.nullifierHash [MOD groupOrder]) :
    ∃ hist s, VerifierRun pc hist s ∧
      hist.map (fun t => t.label) = [⟨c.sender, c.args.withNullifier n⟩, c] ∧
      ¬ Spending.StatementsOnce (accepted c.args.vk) (Signals.Congruent groupOrder) hist := by
  obtain ⟨hwords, _, hchecks, rfl⟩ := steps_iff.mp h
  have hagain := checks_withNullifier hpc hinvalid hwords hgroup hlt hcongruent hchecks
  have hunspent : Function.update (fun _ => false) c.args.nullifierHash true n = false :=
    Function.update_of_ne hne _ _
  have hstep := (steps_iff (c := ⟨c.sender, c.args.withNullifier n⟩)).mpr
    ⟨hwords.withNullifier hlt, hunspent, hagain, rfl⟩
  refine ⟨_, _, .next (.next (.start rfl) h) hstep, rfl, ?_⟩
  intro honce
  have hpair := honce _ _ (List.suffix_refl _) _ (List.mem_cons_self ..) _ _
    (accepted_eq.mpr ⟨rfl, rfl⟩) (accepted_eq.mpr ⟨rfl, rfl⟩)
  exact hpair ⟨Nat.ModEq.refl _, hcongruent.symm, Nat.ModEq.refl _⟩

theorem key_once_iff (hpc : pc.Correct pairing) (hinvalid : pc.RejectsInvalid) {vk : VerifyingKey}
    (hgroup : ∀ w ∈ vk.ic, InGroup w) :
    (∀ hist s, VerifierRun pc hist s →
        Spending.StatementsOnce (accepted vk) (Signals.Congruent groupOrder) hist) ↔
      ∀ c : Call, c.args.vk = vk → c.args.Words → ¬ Checks pc c.args := by
  constructor
  · rintro honce c rfl hwords hchecks
    have hstep : Steps pc (fun _ => false) c _ := steps_iff.mpr ⟨hwords, rfl, hchecks, rfl⟩
    obtain ⟨n, hlt, hne, hcongruent⟩ := exists_encoding hwords.nullifierHash
    obtain ⟨hist, s, hrun, _, htwice⟩ := accepted_again hpc hinvalid hgroup hstep hlt hne hcongruent
    exact htwice (honce hist s hrun)
  · intro hnone hist s hrun t earlier hsuffix u _ a b _ hb _
    obtain ⟨hkey, rfl⟩ := accepted_eq.mp hb
    obtain ⟨hwords, _, hchecks, _⟩ := steps_iff.mp (hrun.suffix_step hsuffix).2
    exact hnone t.label hkey hwords hchecks

end ChainGuard.Evm.ZKAccessVerifier
