import ChainGuard.Library.Spending
import ChainGuard.Soroban.Contract
import ChainGuard.Soroban.Bn254Codec

/-! `zk_verifier::verify_proof`: the check of a proof, and the nullifiers that the calls of the contract
spend. -/
namespace ChainGuard.Soroban.ZkVerifier
open Guarded History
set_option autoImplicit false

/-! ## The check -/

/-- `vk_x`; the array of the source begins as four points at infinity. -/
def linearCombination (args : ProofArgs) (ic : List G1Affine) : G1Affine :=
  let point (i : ℕ) := ic.getD i .atInfinity
  (((point 0).add ((point 1).scalarMul (word args.vaultRootCommitment.toNat))).add
    ((point 2).scalarMul (word args.nullifierHash.toNat))).add
      ((point 3).scalarMul (word args.documentId.toNat))

/-- The decoding of the points, in the order of the source, and the product of the pairings, `pairing` being an
argument. -/
def groth16With (pairing : G2Affine → G1Affine → Fq12) (args : ProofArgs) : Except ZkVerifierError Unit := do
  let a ← G1Affine.fromBytes args.a
  let c ← G1Affine.fromBytes args.c
  let b ← G2Affine.fromBytes args.b
  let alpha ← G1Affine.fromBytes args.alpha
  let beta ← G2Affine.fromBytes args.beta
  let gamma ← G2Affine.fromBytes args.gamma
  let delta ← G2Affine.fromBytes args.delta
  let ic ← args.ic.mapM G1Affine.fromBytes
  let product := (((pairing b a).mul (pairing beta alpha.negate)).mul
    (pairing gamma (linearCombination args ic))).mul (pairing delta c)
  revertIf (product.isOne = false) .InvalidProof

/-- The check of `verify_proof`, under its own `pairing`. -/
def groth16 : ProofArgs → Except ZkVerifierError Unit := groth16With pairing

def withPairing (pairing : G2Affine → G1Affine → Fq12) (host : Host) : Host :=
  { host with groth16 := groth16With pairing }

/-- A host whose check is that of the source. -/
def withVerifier (host : Host) : Host := withPairing pairing host

/-! ## Points at infinity -/

theorem one_mul_one : Fq12.mul .one .one = .one := by
  decide +kernel

/-- Points at infinity under every signal. -/
def emptyProof (vaultRootCommitment nullifierHash documentId : Bytes32) : ProofArgs where
  a := List.replicate 64 0
  b := List.replicate 128 0
  c := List.replicate 64 0
  vaultRootCommitment := vaultRootCommitment
  nullifierHash := nullifierHash
  documentId := documentId
  alpha := List.replicate 64 0
  beta := List.replicate 128 0
  gamma := List.replicate 128 0
  delta := List.replicate 128 0
  ic := List.replicate 4 (List.replicate 64 0)

theorem fromBytes_zeros : G1Affine.fromBytes (List.replicate 64 0) = .ok .atInfinity := by
  rw [G1Affine.fromBytes, if_pos (by decide)]

theorem fromBytes_zeros₂ : G2Affine.fromBytes (List.replicate 128 0) = .ok .atInfinity := by
  rw [G2Affine.fromBytes, if_pos (by decide)]

theorem pairing_atInfinity (p : G1Affine) : pairing .atInfinity p = .one := by
  simp [pairing, Affine.atInfinity]

/-- Every signal passes with points at infinity: each pairing is one. -/
theorem groth16_emptyProof (vaultRootCommitment nullifierHash documentId : Bytes32) :
    groth16 (emptyProof vaultRootCommitment nullifierHash documentId) = .ok () := by
  have hone : Fq12.one.isOne = true := by
    rw [Fq12.isOne, decide_eq_true rfl]
  have hic : (emptyProof vaultRootCommitment nullifierHash documentId).ic.mapM G1Affine.fromBytes =
      .ok ((List.replicate 4 (List.replicate 64 0)).map fun _ : Bytes => Affine.atInfinity) :=
    Loops.mapM_ok fun bytes hbytes => List.eq_of_mem_replicate hbytes ▸ fromBytes_zeros
  unfold groth16 groth16With
  simp only [bind_ok]
  refine ⟨_, fromBytes_zeros, _, fromBytes_zeros, _, fromBytes_zeros₂, _, fromBytes_zeros, _,
    fromBytes_zeros₂, _, fromBytes_zeros₂, _, fromBytes_zeros₂, _, hic, ?_⟩
  rw [pairing_atInfinity, pairing_atInfinity, pairing_atInfinity, one_mul_one, one_mul_one, one_mul_one, revertIf_ok,
    hone]
  decide

/-! ## The nullifiers that a run spends -/

variable {host : Host} {s s' : State}

theorem toStorageBytes_inj {m n : Bytes32} (h : toStorageBytes m = toStorageBytes n) : m = n :=
  BitVec.eq_of_toNat_eq (word_inj m.isLt n.isLt (List.tail_eq_of_cons_eq h))

theorem isNullifierSpent_false {nullifier : Bytes32} :
    isNullifierSpent s nullifier = .ok false ↔ s.entries (toStorageBytes nullifier) = none := by
  rw [isNullifierSpent]
  split
  · next hnone => exact iff_of_true rfl hnone
  · next hspent => simp [hspent]
  · next hbytes => simp [hbytes]

theorem verifyProof_ok {args : ProofArgs} {out : Output Entries} : verifyProof host s args = .ok out ↔
    s.entries (toStorageBytes args.nullifierHash) = none ∧ args.ic.length = 4 ∧ host.groth16 args = .ok () ∧
      (markNullifierSpent s args.nullifierHash, [.proofVerified args.nullifierHash args.documentId]) = out := by
  rw [← isNullifierSpent_false]
  simp only [verifyProof, bind_ok, revertIf_ok, exists_const, Bool.not_eq_true, ne_eq, not_not]
  constructor
  · rintro ⟨_, hread, rfl, hic, hcheck⟩
    cases hgroth16 : host.groth16 args with
    | error e =>
      rw [hgroth16] at hcheck
      cases hcheck
    | ok u =>
      rw [hgroth16] at hcheck
      exact ⟨hread, hic, rfl, Except.ok.inj hcheck⟩
  · rintro ⟨hread, hic, hgroth16, rfl⟩
    rw [hgroth16]
    exact ⟨false, hread, rfl, hic, rfl⟩

theorem verifyAccessProof_ok {env : Env} {submitter : Address} {args : ProofArgs} {out : Output Entries} :
    verifyAccessProof host env s submitter args = .ok out ↔
      submitter ∈ env.authorized ∧ verifyProof host s args = .ok out := by
  simp only [verifyAccessProof, bind_ok, requireAuth_ok, exists_const]

theorem view_true {args : ProofArgs} {entries : Entries} {logs : List Event} :
    verifyAccessProofView host s args = .ok ((entries, true), logs) ↔
      verifyProof host s args = .ok (entries, logs) := by
  rw [verifyAccessProofView]
  split
  · next hverify => simp [hverify]
  · next hverify => simp [hverify]
  · next hverify => simp [hverify]

theorem view_false {args : ProofArgs} {entries : Entries} {logs : List Event}
    (h : verifyAccessProofView host s args = .ok ((entries, false), logs)) : entries = s.entries ∧ logs = [] := by
  rw [verifyAccessProofView] at h
  split at h
  · cases h
  · cases h
    exact ⟨rfl, rfl⟩
  · cases h

/-- Whether `is_nullifier_spent` answers `true`. -/
def isSpent (entries : Entries) (nullifier : Bytes32) : Bool :=
  decide (entries (toStorageBytes nullifier) = some .spent)

theorem markNullifierSpent_self (s : State) (nullifier : Bytes32) :
    markNullifierSpent s nullifier (toStorageBytes nullifier) = some .spent := by
  rw [markNullifierSpent, Function.update_self]

theorem isSpent_mark (nullifier : Bytes32) :
    isSpent (markNullifierSpent s nullifier) = Function.update (isSpent s.entries) nullifier true := by
  funext n
  by_cases hn : n = nullifier
  · rw [hn, Function.update_self, isSpent, markNullifierSpent_self]
    rfl
  · have hkey : toStorageBytes n ≠ toStorageBytes nullifier := fun h => hn (toStorageBytes_inj h)
    rw [Function.update_of_ne hn, isSpent, isSpent, markNullifierSpent, Function.update_of_ne hkey]

/-- A flag stays: reading it as bytes traps. -/
theorem aggregateShare_isSpent {vaultId encryptedShare proof : Bytes} {entries : Entries} {logs : List Event}
    (h : aggregateShare s vaultId encryptedShare proof = .ok (entries, logs)) : isSpent entries = isSpent s.entries := by
  simp only [aggregateShare, bind_ok, pure_ok, Prod.mk.injEq] at h
  obtain ⟨_, hread, rfl, _⟩ := h
  have hflag : s.entries vaultId ≠ some .spent := fun hflag => by
    rw [loadAccumulator, hflag] at hread
    cases hread
  funext n
  by_cases hn : toStorageBytes n = vaultId
  · rw [isSpent, isSpent, hn, Function.update_self, decide_eq_false hflag]
    rfl
  · rw [isSpent, isSpent, Function.update_of_ne hn]

/-- The nullifier that an invocation spends, also when the call was meant as a view. -/
def spentNullifier (host : Host) (t : Transition State Invocation) : Option Bytes32 :=
  match t.label.2 with
  | .verifyAccessProof _ args => some args.nullifierHash
  | .verifyAccessProofView args =>
    match verifyAccessProofView host t.pre args with
    | .ok ((_, true), _) => some args.nullifierHash
    | _ => none
  | _ => none

theorem nullifier_effect {i : Invocation} (h : Steps host s i s') :
    Spending.Effect (fun s => isSpent s.entries) (spentNullifier host) ⟨s, i, s'⟩ := by
  have hunspent : ∀ {n : Bytes32}, s.entries (toStorageBytes n) = none → isSpent s.entries n = false := fun hnone => by
    rw [isSpent, hnone]
    rfl
  cases h.effect with
  | verifyAccessProof hverify =>
    obtain ⟨hnone, _, _, hout⟩ := verifyProof_ok.mp (verifyAccessProof_ok.mp hverify).2
    cases hout
    exact .spends _ rfl (hunspent hnone) (isSpent_mark _)
  | @verifyAccessProofView env args entries valid logs hview =>
    cases valid with
    | false =>
      obtain ⟨rfl, rfl⟩ := view_false hview
      exact .kept (by simp only [spentNullifier, hview]) rfl
    | true =>
      obtain ⟨hnone, _, _, hout⟩ := verifyProof_ok.mp (view_true.mp hview)
      cases hout
      exact .spends args.nullifierHash (by simp only [spentNullifier, hview]) (hunspent hnone) (isSpent_mark _)
  | aggregateShare haggregate => exact .kept rfl (aggregateShare_isSpent haggregate)
  | _ => exact .kept rfl rfl

/-! ## What both entry points check -/

/-- The checks that do not look at the storage. -/
structure Passes (args : ProofArgs) : Prop where
  ic : args.ic.length = 4
  groth16 : groth16 args = .ok ()

theorem emptyProof_passes (vaultRootCommitment nullifierHash documentId : Bytes32) :
    Passes (emptyProof vaultRootCommitment nullifierHash documentId) :=
  ⟨List.length_replicate, groth16_emptyProof _ _ _⟩

theorem verifyProof_iff {args : ProofArgs} {out : Output Entries} :
    verifyProof (withVerifier host) s args = .ok out ↔ s.entries (toStorageBytes args.nullifierHash) = none ∧
      Passes args ∧
      (markNullifierSpent s args.nullifierHash, [.proofVerified args.nullifierHash args.documentId]) = out := by
  rw [verifyProof_ok]
  constructor
  · rintro ⟨hnone, hic, hgroth16, hout⟩
    exact ⟨hnone, ⟨hic, hgroth16⟩, hout⟩
  · rintro ⟨hnone, ⟨hic, hgroth16⟩, hout⟩
    exact ⟨hnone, hic, hgroth16, hout⟩

/-- The state in which an accepted call leaves the storage. -/
def verified (s : State) (args : ProofArgs) : State :=
  { s with
    entries := markNullifierSpent s args.nullifierHash
    logs := [.proofVerified args.nullifierHash args.documentId] }

theorem verified_entries (s : State) (args : ProofArgs) :
    (verified s args).entries = markNullifierSpent s args.nullifierHash := rfl

theorem submission_iff {env : Env} {submitter : Address} {args : ProofArgs} (hauth : submitter ∈ env.authorized) :
    Steps (withVerifier host) s (env, .verifyAccessProof submitter args) s' ↔
      s.entries (toStorageBytes args.nullifierHash) = none ∧ Passes args ∧ verified s args = s' := by
  simp only [Steps, exec, bind_ok, pure_ok, verifyAccessProof_ok, verifyProof_iff]
  constructor
  · rintro ⟨_, ⟨_, hnone, hpasses, rfl⟩, hpost⟩
    exact ⟨hnone, hpasses, hpost⟩
  · rintro ⟨hnone, hpasses, hpost⟩
    exact ⟨_, ⟨hauth, hnone, hpasses, rfl⟩, hpost⟩

/-! ## Statements -/

structure VerifyingKey where
  alpha : Bytes
  beta : Bytes
  gamma : Bytes
  delta : Bytes
  ic : List Bytes
  deriving DecidableEq

def vkOf (args : ProofArgs) : VerifyingKey := ⟨args.alpha, args.beta, args.gamma, args.delta, args.ic⟩

def signalsOf (args : ProofArgs) : Signals :=
  ⟨args.vaultRootCommitment.toNat, args.nullifierHash.toNat, args.documentId.toNat⟩

/-- The signals of an accepted `verify_access_proof` under a key. -/
def accepted (vk : VerifyingKey) (t : Transition State Invocation) : Option Signals :=
  match t.label.2 with
  | .verifyAccessProof _ args => if vkOf args = vk then some (signalsOf args) else none
  | _ => none

theorem accepted_eq {vk : VerifyingKey} {t : Transition State Invocation} {x : Signals} :
    accepted vk t = some x ↔ ∃ submitter args, t.label.2 = .verifyAccessProof submitter args ∧
      vkOf args = vk ∧ signalsOf args = x := by
  unfold accepted
  split
  · next submitter args hcall =>
    rw [Option.ite_none_right_eq_some, Option.some.injEq]
    constructor
    · exact fun h => ⟨submitter, args, hcall, h⟩
    · rintro ⟨submitter', args', hcall', h⟩
      rw [hcall] at hcall'
      obtain ⟨rfl, rfl⟩ := hcall'
      exact h
  · next hother =>
    refine iff_of_false (by simp) ?_
    rintro ⟨submitter, args, hcall, _⟩
    exact hother submitter args hcall

theorem accepted_spends {vk : VerifyingKey} {t : Transition State Invocation} {x : Signals}
    (h : accepted vk t = some x) : spentNullifier host t = some (BitVec.ofNat 256 x.nullifierHash) := by
  obtain ⟨submitter, args, hcall, _, rfl⟩ := accepted_eq.mp h
  simp only [spentNullifier, hcall, signalsOf, BitVec.ofNat_toNat, BitVec.setWidth_eq]

/-- A run accepts no statement twice exactly when it accepts none under two encodings of its
nullifier. -/
theorem statements_once_iff (vk : VerifyingKey) {hist : List (Transition State Invocation)}
    (h : StellarRun host hist s) :
    Spending.StatementsOnce (accepted vk) (Signals.Congruent Bn254.groupOrder) hist ↔
      Spending.OneTicket (accepted vk) (Signals.Congruent Bn254.groupOrder)
        (fun x => BitVec.ofNat 256 x.nullifierHash) hist := by
  have hstart : ∀ s : State, Deployed s → isSpent s.entries = fun _ => false := by
    rintro s rfl
    rfl
  have heffect : ∀ s i s', Steps host s i s' →
      Spending.Effect (fun s => isSpent s.entries) (spentNullifier host) ⟨s, i, s'⟩ :=
    fun _ _ _ hstep => nullifier_effect hstep
  exact Spending.statementsOnce_iff (fun _ _ _ _ _ hstates => accepted_spends hstates) hstart heffect h

theorem emptyProof_accepted_again {env : Env} {submitter : Address} (hauth : submitter ∈ env.authorized)
    {m n : Bytes32} (hne : n ≠ m) (h : m.toNat ≡ n.toNat [MOD Bn254.groupOrder]) :
    ∃ hist s, StellarRun (withVerifier host) hist s ∧
      hist.map (fun t => t.label.2) =
        [.verifyAccessProof submitter (emptyProof 0 n 0), .verifyAccessProof submitter (emptyProof 0 m 0)] ∧
      ¬ Spending.StatementsOnce (accepted (vkOf (emptyProof 0 0 0))) (Signals.Congruent Bn254.groupOrder)
        hist := by
  let first := verified {} (emptyProof 0 m 0)
  have hfirst : Steps (withVerifier host) {} (env, .verifyAccessProof submitter (emptyProof 0 m 0)) first :=
    (submission_iff hauth).mpr ⟨rfl, emptyProof_passes 0 m 0, rfl⟩
  have hkey : toStorageBytes n ≠ toStorageBytes m := fun h => hne (toStorageBytes_inj h)
  have hunspent : first.entries (toStorageBytes (emptyProof 0 n 0).nullifierHash) = none := by
    have hsignal : ∀ n, (emptyProof 0 n 0).nullifierHash = n := fun _ => rfl
    rw [verified_entries, hsignal, hsignal, markNullifierSpent, Function.update_of_ne hkey]
  have hsecond : Steps (withVerifier host) first (env, .verifyAccessProof submitter (emptyProof 0 n 0)) _ :=
    (submission_iff hauth).mpr ⟨hunspent, emptyProof_passes 0 n 0, rfl⟩
  refine ⟨_, _, .next (.next (.start rfl) hfirst) hsecond, rfl, ?_⟩
  intro honce
  have hpair := honce _ _ (List.suffix_refl _) _ (List.mem_cons_self ..) _ _
    (accepted_eq.mpr ⟨_, _, rfl, rfl, rfl⟩) (accepted_eq.mpr ⟨_, _, rfl, rfl, rfl⟩)
  exact hpair ⟨rfl, h, rfl⟩

/-! `verify_access_proof_view`, the check before a submission: it runs the verifier's body, the spending of the
nullifier included. -/

variable {host : Host} {s s' : State}

def ViewAccepts (host : Host) (s : State) (args : ProofArgs) : Prop :=
  ∃ entries logs, verifyAccessProofView host s args = .ok ((entries, true), logs)

theorem viewAccepts_iff {args : ProofArgs} : ViewAccepts host s args ↔
    s.entries (toStorageBytes args.nullifierHash) = none ∧ args.ic.length = 4 ∧ host.groth16 args = .ok () := by
  simp only [ViewAccepts, view_true, verifyProof_ok]
  constructor
  · rintro ⟨_, _, hnone, hic, hgroth16, _⟩
    exact ⟨hnone, hic, hgroth16⟩
  · rintro ⟨hnone, hic, hgroth16⟩
    exact ⟨_, _, hnone, hic, hgroth16, rfl⟩

theorem view_step (host : Host) (env : Env) {args : ProofArgs}
    (hnone : s.entries (toStorageBytes args.nullifierHash) = none) (h : Passes args) :
    Steps (withVerifier host) s (env, .verifyAccessProofView args) (verified s args) := by
  have hview := view_true.mpr ((@verifyProof_iff host s args _).mpr ⟨hnone, h, rfl⟩)
  simp only [Steps, exec, hview, bind_ok]
  exact ⟨_, rfl, rfl⟩

def storage (s : State) : State := { s with logs := [] }

/-- The view writes nothing, and what it accepts can then be submitted by whoever is authorized. -/
structure ReadOnlyView (host : Host) (s : State) (args : ProofArgs) : Prop where
  storage : ∀ env s', Steps host s (env, .verifyAccessProofView args) s' → storage s' = storage s
  agrees : ViewAccepts host s args →
    ∀ env s', Steps host s (env, .verifyAccessProofView args) s' → ∀ env' submitter, submitter ∈ env'.authorized →
      ∃ s'', Steps host s' (env', .verifyAccessProof submitter args) s''

/-- The view is read-only exactly where it does not accept: something lies under the nullifier's key, its flag or bytes
of `aggregate_share`, the verifying key has not four points, or the points or the pairings fail. -/
theorem readOnlyView_iff (host : Host) (s : State) (args : ProofArgs) :
    ReadOnlyView (withVerifier host) s args ↔ s.entries (toStorageBytes args.nullifierHash) ≠ none ∨
      args.ic.length ≠ 4 ∨ groth16 args ≠ .ok () := by
  constructor
  · intro h
    by_contra hnone
    rw [not_or, not_or, not_not, not_not, not_not] at hnone
    obtain ⟨hunspent, hic, hgroth16⟩ := hnone
    have hstep := view_step host (invokedBy [] 0) hunspent ⟨hic, hgroth16⟩
    have hkept : (verified s args).entries = s.entries := by
      have hstorage := congrArg State.entries (h.storage _ _ hstep)
      exact hstorage
    have hspent := markNullifierSpent_self s args.nullifierHash
    rw [← verified_entries, hkept, hunspent] at hspent
    cases hspent
  · intro h
    have hrefuses : ¬ ViewAccepts (withVerifier host) s args := fun haccepts => by
      obtain ⟨hunspent, hic, hgroth16⟩ := viewAccepts_iff.mp haccepts
      exact h.elim (fun hentry => hentry hunspent) (Or.rec (fun hlength => hlength hic) fun hfails => hfails hgroth16)
    refine ⟨fun env s' hstep => ?_, fun haccepts => absurd haccepts hrefuses⟩
    cases hstep.effect with
    | @verifyAccessProofView _ _ entries valid logs hview =>
      cases valid with
      | true => exact absurd ⟨entries, logs, hview⟩ hrefuses
      | false =>
        obtain ⟨rfl, rfl⟩ := view_false hview
        rfl

/-- The view accepts points at infinity, spends the nullifier, and leaves a state that refuses the submission. -/
theorem view_spends_emptyProof :
    ∃ s, Steps (withVerifier localHost) {} (invokedBy [] 0, .verifyAccessProofView (emptyProof 0 5 0)) s ∧
      ViewAccepts (withVerifier localHost) {} (emptyProof 0 5 0) ∧ isNullifierSpent s 5 = .ok true ∧
      (∀ s', ¬ Steps (withVerifier localHost) s (invokedBy [acct 1] 1, .verifyAccessProof (acct 1) (emptyProof 0 5 0))
        s') ∧
      ¬ ReadOnlyView (withVerifier localHost) {} (emptyProof 0 5 0) := by
  have hpasses := emptyProof_passes 0 5 0
  have hstep := view_step (s := {}) localHost (invokedBy [] 0) rfl hpasses
  have hspent : (verified {} (emptyProof 0 5 0)).entries (toStorageBytes 5) = some .spent :=
    (congrFun (verified_entries ..) _).trans (markNullifierSpent_self _ 5)
  refine ⟨_, hstep, viewAccepts_iff.mpr ⟨rfl, hpasses.ic, hpasses.groth16⟩, ?_, fun s' hsubmit => ?_,
    fun hreadOnly => ?_⟩
  · rw [isNullifierSpent, hspent]
    rfl
  · have hauth : acct 1 ∈ (invokedBy [acct 1] 1).authorized := List.mem_singleton_self _
    have hunspent := ((submission_iff hauth).mp hsubmit).1
    exact Option.some_ne_none _ (hspent.symm.trans hunspent)
  · have hrefused := (readOnlyView_iff ..).mp hreadOnly
    exact hrefused.elim (fun hentry => hentry rfl) (Or.rec (fun h => h hpasses.ic) fun h => h hpasses.groth16)

/-! `verify_proof` over any pairing: it accepts the encodings of points whose product of pairings is one. -/
open Bn254 hiding Fp

variable {pair : G2Affine → G1Affine → Fq12} {host : Host} {s : State}

/-! ## The points of a proof -/

structure ProofPoints where
  A : G1
  B : Twist
  C : G1
  alpha : G1
  beta : Twist
  gamma : Twist
  delta : Twist
  ic : List G1

namespace ProofPoints

def vkX (x : ProofPoints) (vaultRootCommitment nullifierHash documentId : ℕ) : G1 :=
  x.ic.getD 0 0 + vaultRootCommitment • x.ic.getD 1 0 + nullifierHash • x.ic.getD 2 0 + documentId • x.ic.getD 3 0

def product (pair : G2Affine → G1Affine → Fq12) (x : ProofPoints) (vkX : G1) : Fq12 :=
  (((pair (twistAffine x.B) (affine x.A)).mul (pair (twistAffine x.beta) (affine (-x.alpha)))).mul
    (pair (twistAffine x.gamma) (affine vkX))).mul (pair (twistAffine x.delta) (affine x.C))

/-- The arguments are the canonical encodings of the points, whose coordinates are below the bound. -/
structure Decoded (x : ProofPoints) (args : ProofArgs) : Prop where
  a : args.a = encode x.A ∧ CoordsBelowBound x.A
  b : args.b = encodeTwist x.B ∧ BelowBound x.B.coords
  c : args.c = encode x.C ∧ CoordsBelowBound x.C
  alpha : args.alpha = encode x.alpha ∧ CoordsBelowBound x.alpha
  beta : args.beta = encodeTwist x.beta ∧ BelowBound x.beta.coords
  gamma : args.gamma = encodeTwist x.gamma ∧ BelowBound x.gamma.coords
  delta : args.delta = encodeTwist x.delta ∧ BelowBound x.delta.coords
  ic : args.ic = x.ic.map encode ∧ ∀ Q ∈ x.ic, CoordsBelowBound Q

end ProofPoints

/-- The lengths of the arguments, which their types say. -/
structure Sized (args : ProofArgs) : Prop where
  a : args.a.length = 64
  b : args.b.length = 128
  c : args.c.length = 64
  alpha : args.alpha.length = 64
  beta : args.beta.length = 128
  gamma : args.gamma.length = 128
  delta : args.delta.length = 128
  ic : ∀ bytes ∈ args.ic, bytes.length = 64

/-! ## What is accepted -/

theorem linearCombination_affine (args : ProofArgs) (x : ProofPoints) : linearCombination args (x.ic.map affine) =
    affine (x.vkX args.vaultRootCommitment.toNat args.nullifierHash.toNat args.documentId.toNat) := by
  have hpoint : ∀ i, (x.ic.map affine).getD i .atInfinity = affine (x.ic.getD i 0) := fun i => by
    rw [← affine_zero, List.getD_eq_getElem?_getD, List.getElem?_map, Option.getD_map, List.getD_eq_getElem?_getD]
  simp only [linearCombination, hpoint, ProofPoints.vkX]
  rw [scalarMul_affine _ (BitVec.isLt _), scalarMul_affine _ (BitVec.isLt _), scalarMul_affine _ (BitVec.isLt _),
    add_affine, add_affine, add_affine]

theorem mapM_fromBytes {ic : List Bytes} (hlength : ∀ bytes ∈ ic, bytes.length = 64) {points : List G1Affine} :
    ic.mapM G1Affine.fromBytes = .ok points ↔
      ∃ Qs : List G1, (ic = Qs.map encode ∧ ∀ Q ∈ Qs, CoordsBelowBound Q) ∧ Qs.map affine = points := by
  induction ic generalizing points with
  | nil =>
    rw [List.mapM_nil, pure_ok]
    constructor
    · rintro rfl
      exact ⟨[], ⟨rfl, fun Q hQ => absurd hQ List.not_mem_nil⟩, rfl⟩
    · rintro ⟨Qs, ⟨hnil, _⟩, rfl⟩
      rw [List.map_eq_nil_iff.mp hnil.symm]
      rfl
  | cons bytes ic ih =>
    rw [List.forall_mem_cons] at hlength
    simp only [List.mapM_cons, bind_ok, pure_ok, G1Affine.fromBytes_encode hlength.1, ih hlength.2]
    constructor
    · rintro ⟨P, ⟨Q, hbytes, hbelow, hP⟩, rest, ⟨Qs, ⟨hmap, hbelow'⟩, hrest⟩, hpoints⟩
      refine ⟨Q :: Qs, ⟨?_, List.forall_mem_cons.mpr ⟨hbelow, hbelow'⟩⟩, ?_⟩
      · rw [List.map_cons, hbytes, hmap]
      · rw [List.map_cons, hP, hrest, hpoints]
    · rintro ⟨Qs, ⟨hmap, hbelow⟩, hpoints⟩
      obtain ⟨Q, Qs', rfl, hbytes, hrest⟩ := List.map_eq_cons_iff.mp hmap.symm
      rw [List.forall_mem_cons] at hbelow
      exact ⟨_, ⟨Q, hbytes.symm, hbelow.1, rfl⟩, _, ⟨Qs', ⟨hrest.symm, hbelow.2⟩, rfl⟩, hpoints⟩

theorem groth16With_iff {args : ProofArgs} (hsized : Sized args) : groth16With pair args = .ok () ↔
    ∃ x : ProofPoints, x.Decoded args ∧ x.product pair
      (x.vkX args.vaultRootCommitment.toNat args.nullifierHash.toNat args.documentId.toNat) = .one := by
  simp only [groth16With, bind_ok, G1Affine.fromBytes_encode hsized.a,
    G1Affine.fromBytes_encode hsized.c, G2Affine.fromBytes_encode hsized.b, G1Affine.fromBytes_encode hsized.alpha,
    G2Affine.fromBytes_encode hsized.beta, G2Affine.fromBytes_encode hsized.gamma,
    G2Affine.fromBytes_encode hsized.delta, mapM_fromBytes hsized.ic]
  constructor
  · rintro ⟨_, ⟨A, ha, hA, rfl⟩, _, ⟨C, hc, hC, rfl⟩, _, ⟨B, hb, hB, rfl⟩, _, ⟨alpha, halpha, hAlpha, rfl⟩,
      _, ⟨beta, hbeta, hBeta, rfl⟩, _, ⟨gamma, hgamma, hGamma, rfl⟩, _, ⟨delta, hdelta, hDelta, rfl⟩,
      _, ⟨ic, hic, rfl⟩, hone⟩
    refine ⟨⟨A, B, C, alpha, beta, gamma, delta, ic⟩, ⟨⟨ha, hA⟩, ⟨hb, hB⟩, ⟨hc, hC⟩, ⟨halpha, hAlpha⟩,
      ⟨hbeta, hBeta⟩, ⟨hgamma, hGamma⟩, ⟨hdelta, hDelta⟩, hic⟩, ?_⟩
    have hcombination := linearCombination_affine args ⟨A, B, C, alpha, beta, gamma, delta, ic⟩
    rw [hcombination, negate_affine, revertIf_ok, Bool.not_eq_false, Fq12.isOne, decide_eq_true_eq] at hone
    exact hone
  · rintro ⟨x, h, hone⟩
    refine ⟨_, ⟨x.A, h.a.1, h.a.2, rfl⟩, _, ⟨x.C, h.c.1, h.c.2, rfl⟩, _, ⟨x.B, h.b.1, h.b.2, rfl⟩,
      _, ⟨x.alpha, h.alpha.1, h.alpha.2, rfl⟩, _, ⟨x.beta, h.beta.1, h.beta.2, rfl⟩,
      _, ⟨x.gamma, h.gamma.1, h.gamma.2, rfl⟩, _, ⟨x.delta, h.delta.1, h.delta.2, rfl⟩, _, ⟨x.ic, h.ic, rfl⟩, ?_⟩
    rw [linearCombination_affine, negate_affine, revertIf_ok, Bool.not_eq_false, Fq12.isOne, decide_eq_true_eq]
    exact hone

end ChainGuard.Soroban.ZkVerifier
