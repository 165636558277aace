import ChainGuard.OffChain.KeyRotation

/-! How a rotation ends, and whether it strands its user: once a chain has registered the new public key, the account
needs the private key. -/
namespace ChainGuard.OffChain.KeyRotation
open Methods ClientKeyring
set_option autoImplicit false

variable {keys : ClientKeyring.Config} {ecies : Ecies keys}

/-! ## Calls -/

inductive Call (ecies : Ecies keys)
  | rotateCompromisedKey (o : KeyRotationOptions ecies)
  | emergencyBatchRevoke (o : EmergencyRevocationOptions ecies)

def Call.options : Call ecies → RotationOptions
  | .rotateCompromisedKey o => o.toRotationOptions
  | .emergencyBatchRevoke o => o.toRotationOptions

def Call.lists : Call ecies → List (Envelopes ecies)
  | .rotateCompromisedKey o => [o.envelopes]
  | .emergencyBatchRevoke o => o.vaultBatches.map (·.envelopes)

abbrev Reported := List DocumentId × List KeyRotationFailure

def Call.run (x : RotationAnswers) : Call ecies → Rotation ecies (List Reported)
  | .rotateCompromisedKey o => do
    let report ← KeyRotation.rotateCompromisedKey ecies o x
    return [(report.rotatedDocumentIds, report.failures)]
  | .emergencyBatchRevoke o => do
    let report ← KeyRotation.emergencyBatchRevoke ecies o x
    return report.vaultResults.map fun result => (result.rotatedDocumentIds, result.failures)

section Pieces
variable (o : RotationOptions) (x : RotationAnswers) (w : World ecies)

/-! ## The pieces of a call -/

def Prepared (envelopes : Envelopes ecies) : Prop :=
  o.account ≠ [] ∧ ¬ (o.oldPublicKey = [] ∨ o.oldPrivateKey = []) ∧ trim o.pinOrPassphrase ≠ [] ∧
    ¬ (keys.importsPublicKey (rotatedPair o x keys).1 = false ∨ keys.importsPrivateKey (rotatedPair o x keys).2 = false) ∧
    ∀ envelope ∈ envelopes.findSome? (fun item => item.bind (·.envelope)),
      ∃ plaintext, ecies.decryptWithPrivateKey envelope o.oldPrivateKey = .ok plaintext

theorem proveOwnership_call (oldPrivateKey : JsString) (envelopes : Envelopes ecies) :
    (call (proveOwnership ecies oldPrivateKey envelopes) w = (.ok (), w) ∧
      ∀ envelope ∈ envelopes.findSome? (fun item => item.bind (·.envelope)),
        ∃ plaintext, ecies.decryptWithPrivateKey envelope oldPrivateKey = .ok plaintext) ∨
    (∃ e, call (proveOwnership ecies oldPrivateKey envelopes) w = (.error e, w)) ∧
      ¬ ∀ envelope ∈ envelopes.findSome? (fun item => item.bind (·.envelope)),
        ∃ plaintext, ecies.decryptWithPrivateKey envelope oldPrivateKey = .ok plaintext := by
  unfold proveOwnership
  cases hfind : envelopes.findSome? (fun item => item.bind (·.envelope)) with
  | none => exact .inl ⟨rfl, nofun⟩
  | some envelope =>
    cases hdecrypt : ecies.decryptWithPrivateKey envelope oldPrivateKey with
    | ok plaintext =>
      simp only [hdecrypt]
      refine .inl ⟨rfl, ?_⟩
      rintro _ ⟨⟩
      exact ⟨plaintext, hdecrypt⟩
    | error message =>
      simp only [hdecrypt]
      refine .inr ⟨⟨_, rfl⟩, fun hall => ?_⟩
      obtain ⟨plaintext, hplaintext⟩ := hall envelope rfl
      cases hdecrypt.symm.trans hplaintext

theorem throwIf_call {c : Prop} [Decidable c] (e : RotationError) :
    call (Methods.throwIf c e : Rotation ecies Unit) w = if c then (.error e, w) else (.ok (), w) := by
  unfold Methods.throwIf
  split
  · rfl
  · rfl

theorem prepare_call (envelopes : Envelopes ecies) :
    (Prepared o x envelopes ∧ call (prepare ecies o x envelopes) w = (.ok (rotatedPair o x keys), w)) ∨
      ¬ Prepared o x envelopes ∧ ∃ e, call (prepare ecies o x envelopes) w = (.error e, w) := by
  simp only [prepare, call_bind, throwIf_call]
  by_cases haccount : o.account = []
  · exact .inr ⟨fun h => h.1 haccount, by simp [haccount]⟩
  by_cases hold : o.oldPublicKey = [] ∨ o.oldPrivateKey = []
  · exact .inr ⟨fun h => h.2.1 hold, by simp [haccount, hold]⟩
  by_cases hpin : trim o.pinOrPassphrase = []
  · exact .inr ⟨fun h => h.2.2.1 hpin, by simp [haccount, hold, hpin]⟩
  by_cases hformat : keys.importsPublicKey (rotatedPair o x keys).1 = false ∨
      keys.importsPrivateKey (rotatedPair o x keys).2 = false
  · exact .inr ⟨fun h => h.2.2.2.1 hformat, by simp [haccount, hold, hpin, hformat]⟩
  simp only [if_neg haccount, if_neg hold, if_neg hpin, if_neg hformat]
  rcases proveOwnership_call w o.oldPrivateKey envelopes with ⟨hcall, howned⟩ | ⟨⟨e, hcall⟩, hnot⟩
  · rw [hcall]
    exact .inl ⟨⟨haccount, hold, hpin, hformat, howned⟩, rfl⟩
  · rw [hcall]
    exact .inr ⟨fun h => hnot h.2.2.2.2, e, rfl⟩

/-- Neither adapter rejects, nor the wait for the transaction. -/
def Confirmed : Prop :=
  (∃ result, revocation o x .evm = .ok result ∧ ∀ tx ∈ result, ∀ e, tx.wait ≠ some (.error e)) ∧
    ∃ result, revocation o x .soroban = .ok result

theorem revokeKeys_call (newPublicKey : JsString) :
    (∃ evmResult sorobanResult, revocation o x .evm = .ok evmResult ∧ revocation o x .soroban = .ok sorobanResult ∧
      call (revokeKeys ecies o x newPublicKey) w = (.ok (evmResult, sorobanResult), w.revoked ecies o x newPublicKey)) ∨
    (∃ e, call (revokeKeys ecies o x newPublicKey) w = (.error e, w.revoked ecies o x newPublicKey)) ∧
      ¬ Confirmed o x := by
  simp only [revokeKeys, call_bind, call_modify]
  cases hevm : revocation o x .evm with
  | error e =>
    refine .inr ⟨?_, ?_⟩
    · cases revocation o x .soroban with
      | error e' => exact ⟨_, rfl⟩
      | ok result => exact ⟨_, rfl⟩
    · rintro ⟨⟨result, hresult, _⟩, _⟩
      cases hevm.symm.trans hresult
  | ok evmResult =>
    cases hsoroban : revocation o x .soroban with
    | error e =>
      refine .inr ⟨⟨_, rfl⟩, ?_⟩
      rintro ⟨_, result, hresult⟩
      cases hsoroban.symm.trans hresult
    | ok sorobanResult => exact .inl ⟨evmResult, sorobanResult, rfl, rfl, rfl⟩

theorem confirm_call (evmResult : Option Transaction) :
    ((∃ hash, call (confirm ecies evmResult) w = (.ok hash, w)) ∧ ∀ tx ∈ evmResult, ∀ e, tx.wait ≠ some (.error e)) ∨
      (∃ e, call (confirm ecies evmResult) w = (.error e, w)) ∧
        ¬ ∀ tx ∈ evmResult, ∀ e, tx.wait ≠ some (.error e) := by
  unfold confirm
  cases evmResult with
  | none => exact .inl ⟨⟨none, rfl⟩, nofun⟩
  | some tx =>
    rcases hwait : tx.wait with _ | (e | _)
    · refine .inl ⟨⟨tx.hash, by simp [hwait]⟩, ?_⟩
      rintro _ ⟨⟩ e
      simp [hwait]
    · exact .inr ⟨⟨.rejected e, by simp [hwait]⟩, fun hall => hall tx rfl e hwait⟩
    · refine .inl ⟨⟨tx.hash, by simp [hwait]⟩, ?_⟩
      rintro _ ⟨⟩ e
      simp [hwait]

theorem revoke_call (newPublicKey : JsString) :
    (Confirmed o x ∧ ∃ hashes, call (revoke ecies o x newPublicKey) w = (.ok hashes, w.revoked ecies o x newPublicKey)) ∨
      ¬ Confirmed o x ∧ ∃ e, call (revoke ecies o x newPublicKey) w = (.error e, w.revoked ecies o x newPublicKey) := by
  simp only [revoke, call_bind]
  rcases revokeKeys_call o x w newPublicKey with ⟨evmResult, sorobanResult, hevm, hsoroban, hcall⟩ | ⟨⟨e, hcall⟩, hnot⟩
  · rw [hcall]
    dsimp only
    rcases confirm_call (w.revoked ecies o x newPublicKey) evmResult with ⟨⟨hash, hconfirm⟩, hwaits⟩ | ⟨⟨e, hconfirm⟩, hwaits⟩
    · rw [hconfirm]
      exact .inl ⟨⟨⟨evmResult, hevm, hwaits⟩, sorobanResult, hsoroban⟩, _, rfl⟩
    · rw [hconfirm]
      refine .inr ⟨?_, e, rfl⟩
      rintro ⟨⟨result, hresult, hnone⟩, _⟩
      cases hevm.symm.trans hresult
      exact hwaits hnone
  · rw [hcall]
    exact .inr ⟨hnot, e, rfl⟩

/-- The pair can be stored under the PIN, and IndexedDB puts the record. -/
def Storable (pair : JsString × JsString) (s : Keyring) : Prop :=
  (pinSaved keys x.save s o.account pair.1 pair.2 o.pinOrPassphrase).isSome ∧ x.storageFailure = none

def heldKey (keys : ClientKeyring.Config) (account : JsString) (s : Keyring) : Option JsString :=
  (s.records (keys.lower account)).bind fun record => record.opaqueEnvelope.map (·.plaintext)

theorem stored_cases (pair : JsString × JsString) (s : Keyring) :
    (@Storable keys o x pair s ∧ (stored o x keys pair s).1 = .ok () ∧
        heldKey keys o.account (stored o x keys pair s).2 = some pair.2) ∨
      ¬ @Storable keys o x pair s ∧ (∃ e, (stored o x keys pair s).1 = .error e) ∧
        (stored o x keys pair s).2.records = s.records := by
  rcases saveKeyPair_outcome keys x.save s o.account pair.1 pair.2 o.pinOrPassphrase with
    ⟨exportKey, s', henroll, hpair, hsaved⟩ | ⟨e, hnone, hthrown⟩
  · cases hstorage : x.storageFailure with
    | none =>
      simp only [stored, hsaved, hstorage]
      refine .inl ⟨⟨by rw [hpair]; rfl, hstorage⟩, trivial, ?_⟩
      simp [heldKey, saved, Keyring.setRecord, Keyring.setCached, replaced]
    | some e =>
      simp only [stored, hsaved, hstorage]
      refine .inr ⟨fun h => ?_, ⟨e, rfl⟩, trivial⟩
      cases hstorage.symm.trans h.2
  · simp only [stored, hthrown]
    refine .inr ⟨fun h => ?_, ⟨e, rfl⟩, trivial⟩
    rw [Storable, hnone] at h
    cases h.1

theorem saveKeyPair_call (pair : JsString × JsString) :
    ∃ keyring, (@Storable keys o x pair w.keyring ∧ heldKey keys o.account keyring = some pair.2 ∧
        call (saveKeyPair ecies o x pair) w = (.ok (), { w with keyring })) ∨
      ¬ @Storable keys o x pair w.keyring ∧ keyring.records = w.keyring.records ∧
        ∃ e, call (saveKeyPair ecies o x pair) w = (.error e, { w with keyring }) := by
  refine ⟨(stored o x keys pair w.keyring).2, ?_⟩
  simp only [saveKeyPair, call_bind, call_get, call_modify]
  rcases stored_cases o x pair w.keyring with ⟨hstorable, hresult, hheld⟩ | ⟨hnot, ⟨e, hresult⟩, hrecords⟩
  · rw [hresult]
    exact .inl ⟨hstorable, hheld, rfl⟩
  · rw [hresult]
    exact .inr ⟨hnot, hrecords, _, rfl⟩

end Pieces

/-! ## How a call ends -/

section Calls
variable (x : RotationAnswers) (c : Call ecies) (w : World ecies)

def Call.pair : JsString × JsString := rotatedPair c.options x keys

def Call.Prepared : Prop := @KeyRotation.Prepared keys ecies c.options x c.lists.flatten

/-- Everything goes through. -/
def Call.Completes : Prop :=
  c.Prepared x ∧ Confirmed c.options x ∧ @Storable keys c.options x (c.pair x) w.keyring

def Call.reports : List Reported := c.lists.mapIdx fun i envelopes =>
  reencryptEnvelopes ecies c.options.oldPrivateKey (c.pair x).1 (x.reencryption i) 0 envelopes

/-- The call is refused before anything is submitted; or a revocation is rejected; or the pair is not stored; or all
goes through. -/
inductive Outcome : Except RotationError (List Reported) × World ecies → Prop
  | refused (hnot : ¬ c.Prepared x) (e : RotationError) : Outcome (.error e, w)
  | rejected (h : c.Prepared x) (hnot : ¬ c.Completes x w) (e : RotationError) :
      Outcome (.error e, w.revoked ecies c.options x (c.pair x).1)
  | unsaved (h : c.Prepared x) (hnot : ¬ c.Completes x w) (e : RotationError) (keyring : Keyring)
      (hrecords : keyring.records = w.keyring.records) :
      Outcome (.error e, { w.revoked ecies c.options x (c.pair x).1 with keyring })
  | completed (h : c.Completes x w) (keyring : Keyring)
      (hheld : heldKey keys c.options.account keyring = some (c.pair x).2) :
      Outcome (.ok (c.reports x), { w.revoked ecies c.options x (c.pair x).1 with keyring })

/-- Both methods prepare, revoke and save; what they report is the same whether they re-encrypt before they revoke or
afterwards. -/
theorem parts_outcome (reports : JsString × JsString → Option JsString × Option JsString → List Reported)
    (hreports : ∀ hashes, reports (c.pair x) hashes = c.reports x) :
    Outcome x c w (call (prepare ecies c.options x c.lists.flatten >>= fun pair =>
      revoke ecies c.options x pair.1 >>= fun hashes =>
        saveKeyPair ecies c.options x pair >>= fun _ => pure (reports pair hashes)) w) := by
  rw [call_bind]
  rcases prepare_call c.options x w c.lists.flatten with ⟨hprepared, hprepare⟩ | ⟨hnot, e, hprepare⟩
  · rw [hprepare]
    change Outcome x c w (call (revoke ecies c.options x (c.pair x).1 >>= fun hashes =>
      saveKeyPair ecies c.options x (c.pair x) >>= fun _ => pure (reports (c.pair x) hashes)) w)
    rw [call_bind]
    rcases revoke_call c.options x w (c.pair x).1 with ⟨hconfirmed, hashes, hrevoke⟩ | ⟨hnot, e, hrevoke⟩
    · rw [hrevoke]
      dsimp only
      rw [call_bind]
      obtain ⟨keyring, ⟨hstorable, hheld, hsave⟩ | ⟨hnot, hrecords, e, hsave⟩⟩ :=
        saveKeyPair_call c.options x (w.revoked ecies c.options x (c.pair x).1) (c.pair x)
      · rw [hsave]
        dsimp only
        rw [call_pure, hreports]
        exact @Outcome.completed _ _ x c w ⟨hprepared, hconfirmed, hstorable⟩ keyring hheld
      · rw [hsave]
        exact @Outcome.unsaved _ _ x c w hprepared (fun h => hnot h.2.2) e keyring hrecords
    · rw [hrevoke]
      exact .rejected hprepared (fun h => hnot h.2.1) e
  · rw [hprepare]
    exact .refused hnot e

theorem run_outcome : Outcome x c w (call (c.run x) w) := by
  cases c with
  | rotateCompromisedKey o =>
    have hparts := parts_outcome x (.rotateCompromisedKey o) w
      (fun pair _ => [reencryptEnvelopes ecies o.oldPrivateKey pair.1 (x.reencryption 0) 0 o.envelopes]) fun _ => rfl
    rw [Call.lists, List.flatten_singleton] at hparts
    simp only [Call.run, KeyRotation.rotateCompromisedKey, bind_assoc, pure_bind]
    exact hparts
  | emergencyBatchRevoke o =>
    have hparts := parts_outcome x (.emergencyBatchRevoke o) w
      (fun pair _ => (o.vaultBatches.mapIdx fun i batch =>
        reencryptVaultBatch ecies o.oldPrivateKey pair.1 (x.reencryption i) batch).map fun result =>
          (result.rotatedDocumentIds, result.failures)) (by
            intro hashes
            refine List.ext_getElem? fun i => ?_
            simp only [Call.reports, Call.lists, List.getElem?_map, List.getElem?_mapIdx, Option.map_map]
            rfl)
    rw [Call.lists, ← List.flatMap_def] at hparts
    simp only [Call.run, KeyRotation.emergencyBatchRevoke, bind_assoc, pure_bind]
    exact hparts

/-! ## Stranded users -/

def Supplied : Prop :=
  c.options.newPrivateKey ≠ [] ∧ keys.publicKeyOf c.options.newPrivateKey = (c.pair x).1

def Held (s : Keyring) : Prop :=
  ∃ privateKey, heldKey keys c.options.account s = some privateKey ∧ keys.publicKeyOf privateKey = (c.pair x).1

def RegisteredIn (w : World ecies) : Prop := ∃ chain, w.registered chain = some (c.pair x).1

def Accepts (chain : Chain) : Prop := c.options.contract chain = true ∧ (x.revocation chain).registers = true

structure NotStranded (result : Except RotationError (List Reported) × World ecies) : Prop where
  recoverable : RegisteredIn x c result.2 → Held x c result.2.keyring ∨ Supplied x c
  unchanged : ∀ e, result.1 = .error e → (∀ chain, ¬ Accepts x c chain) →
    result.2.keyring.records (keys.lower c.options.account) = w.keyring.records (keys.lower c.options.account)

/-- The caller has the key; or no chain registers it, and none had; or all goes through and the pair is one; or the
record held the key already, and stays. -/
def Recovers : Prop :=
  Supplied x c ∨ ¬ (RegisteredIn x c w ∨ c.Prepared x ∧ ∃ chain, Accepts x c chain) ∨
    (c.Completes x w ∧ keys.publicKeyOf (c.pair x).2 = (c.pair x).1) ∨ ¬ c.Completes x w ∧ Held x c w.keyring

theorem registeredIn_revoked : RegisteredIn x c (w.revoked ecies c.options x (c.pair x).1) ↔
    RegisteredIn x c w ∨ ∃ chain, Accepts x c chain := by
  simp only [RegisteredIn, World.revoked, Accepts]
  constructor
  · rintro ⟨chain, hchain⟩
    split at hchain
    · next haccepts => exact .inr ⟨chain, by simpa using haccepts⟩
    · exact .inl ⟨chain, hchain⟩
  · rintro (⟨chain, hchain⟩ | ⟨chain, hasked, hregisters⟩)
    · refine ⟨chain, ?_⟩
      split
      · rfl
      · exact hchain
    · exact ⟨chain, by simp [hasked, hregisters]⟩

variable {x c w}

theorem held_congr {s s' : Keyring} (hrecords : s'.records = s.records) : Held x c s' ↔ Held x c s := by
  rw [Held, Held, heldKey, heldKey, hrecords]

theorem notStranded_error {e : RotationError} {w' : World ecies} (hnot : ¬ c.Completes x w)
    (hrecords : w'.keyring.records = w.keyring.records)
    (hregistered : RegisteredIn x c w' ↔ RegisteredIn x c w ∨ c.Prepared x ∧ ∃ chain, Accepts x c chain) :
    NotStranded x c w (.error e, w') ↔ Recovers x c w := by
  constructor
  · intro h
    by_cases hnew : RegisteredIn x c w'
    · rcases h.recoverable hnew with hheld | hsupplied
      · exact .inr (.inr (.inr ⟨hnot, (held_congr hrecords).mp hheld⟩))
      · exact .inl hsupplied
    · exact .inr (.inl (hregistered.not.mp hnew))
  · intro hrecovers
    refine ⟨fun hnew => ?_, fun _ _ _ => congrFun hrecords _⟩
    rcases hrecovers with hsupplied | hnone | ⟨hcompletes, _⟩ | ⟨_, hheld⟩
    · exact .inr hsupplied
    · exact (hnone (hregistered.mp hnew)).elim
    · exact (hnot hcompletes).elim
    · exact .inl ((held_congr hrecords).mpr hheld)

variable (x c w)

/-- A call strands nobody exactly when the private key is passed, or not needed, or stored. -/
theorem not_stranded_iff : NotStranded x c w (call (c.run x) w) ↔ Recovers x c w := by
  rcases houtcome : call (c.run x) w with ⟨result, w'⟩
  have h := run_outcome x c w
  rw [houtcome] at h
  cases h with
  | refused hnot e =>
    refine notStranded_error (fun hcompletes => hnot hcompletes.1) rfl ?_
    exact ⟨.inl, fun h => h.resolve_right fun hprepared => hnot hprepared.1⟩
  | rejected hprepared hnot e =>
    refine notStranded_error hnot rfl ((registeredIn_revoked x c w).trans ?_)
    exact or_congr_right (and_iff_right hprepared).symm
  | unsaved hprepared hnot e keyring hrecords =>
    refine notStranded_error hnot hrecords ((registeredIn_revoked x c w).trans ?_)
    exact or_congr_right (and_iff_right hprepared).symm
  | completed hcompletes keyring hheld =>
    have hholds : Held x c keyring ↔ keys.publicKeyOf (c.pair x).2 = (c.pair x).1 := by
      simp only [Held, hheld, Option.some.injEq, exists_eq_left']
    have hregistered := registeredIn_revoked x c w
    constructor
    · intro h
      by_cases hnew : RegisteredIn x c (w.revoked ecies c.options x (c.pair x).1)
      · rcases h.recoverable hnew with hnewKey | hsupplied
        · exact .inr (.inr (.inl ⟨hcompletes, hholds.mp hnewKey⟩))
        · exact .inl hsupplied
      · refine .inr (.inl fun hor => hnew (hregistered.mpr (hor.imp_right And.right)))
    · intro hrecovers
      refine ⟨fun hnew => ?_, nofun⟩
      rcases hrecovers with hsupplied | hnone | ⟨_, hpair⟩ | ⟨hnot, _⟩
      · exact .inr hsupplied
      · exact (hnone ((hregistered.mp hnew).imp_right fun haccepts => ⟨hcompletes.1, haccepts⟩)).elim
      · exact .inl (hholds.mpr hpair)
      · exact (hnot hcompletes).elim

end Calls

/-! ## One chain accepts, the other rejects -/

def plainEcies (keys : ClientKeyring.Config) : Ecies keys where
  Envelope := JsString × JsString
  encryptWithPublicKey _ plaintext publicKey := .ok (publicKey, plaintext)
  decryptWithPrivateKey envelope privateKey :=
    if keys.publicKeyOf privateKey = envelope.1 then .ok envelope.2 else .error (js "Decryption failed")
  ideal := by
    rintro _ plaintext publicKey _ ⟨⟩ privateKey plaintext'
    by_cases hkey : keys.publicKeyOf privateKey = publicKey
    · simp [hkey, eq_comm]
    · simp [hkey]

/-- The old pair is `[3]`, and a pair `[5]` is generated. -/
def compromised : KeyRotationOptions (plainEcies plainKeys) where
  account := wallet
  oldPublicKey := [3]
  oldPrivateKey := [3]
  pinOrPassphrase := [49]
  contract := fun _ => true
  envelopes := []

def sorobanRejects : RotationAnswers where
  generated := [5]
  revocation := fun chain => match chain with
    | .evm => {}
    | .soroban => { reply := .error (js "timeout"), registers := false }

/-- The EVM chain has registered a key that nobody has. -/
theorem user_stranded : ∃ w' e,
    call (rotateCompromisedKey (plainEcies plainKeys) compromised sorobanRejects) {} = (.error (.rejected e), w') ∧
      w'.registered .evm = some [5] ∧ w'.keyring.records wallet = none ∧
      ¬ NotStranded sorobanRejects (.rotateCompromisedKey compromised) {}
        (call ((Call.rotateCompromisedKey compromised).run sorobanRejects) {}) := by
  refine ⟨_, _, rfl, rfl, rfl, fun h => ?_⟩
  rcases h.recoverable ⟨.evm, rfl⟩ with ⟨privateKey, hheld, _⟩ | ⟨hsome, _⟩
  · cases hheld
  · exact hsome rfl

end ChainGuard.OffChain.KeyRotation
