import ChainGuard.OffChain.KeyringRecords

/-! Runs of operations on the keyring, one after the other, and when its records stay self-consistent. -/
namespace ChainGuard.OffChain.ClientKeyring
open Async Methods History
set_option autoImplicit false

section Operations
variable {cfg : Config} {x : Answers} {s s' : Keyring} {account a publicKey privateKey pin : JsString}

/-! ## Unlocks and deletions -/

theorem getDecryptedPrivateKey_outcome (h : Consistent cfg s) :
    Consistent cfg (outcome (getDecryptedPrivateKey cfg account pin) x s).2 ∧
      ∀ key, (outcome (getDecryptedPrivateKey cfg account pin) x s).1 = .ok (.privateKey key) →
        ∃ r, s.records (cfg.lower account) = some r ∧ cfg.publicKeyOf key = r.publicKey := by
  simp only [getDecryptedPrivateKey, outcome_bind, outcome_throwIf]
  by_cases hsome : account = []
  · simp only [if_pos hsome]
    exact ⟨h, fun key => by rintro ⟨⟩⟩
  have hat := h account hsome
  simp only [if_neg hsome, outcome_get]
  cases hcached : (readCachedPrivateKey (cfg.lower account) s).filter (· ≠ []) with
  | some cached =>
    obtain ⟨hread, hne⟩ := Option.filter_eq_some_iff.mp hcached
    refine ⟨h, ?_⟩
    rintro key ⟨⟩
    exact hat.cache cached hread (by simpa using hne)
  | none =>
    simp only [outcome_bind, idbGet_outcome, outcome_orThrow, cfg.lower_lower]
    cases hrecord : (s.read (cfg.lower account)).filter KeyPairRecord.hasKey with
    | none => exact ⟨h, fun key => by rintro ⟨⟩⟩
    | some record =>
      obtain ⟨r, hr, rfl⟩ := Option.map_eq_some_iff.mp (Option.filter_eq_some_iff.mp hrecord).1
      have hunlocks := unlockStored_unlocks (x := x) hat (cfg.lower_lower account) hr pin
      dsimp only
      rcases hout : outcome (unlockStored cfg { r with account := cfg.lower account } pin) x s with ⟨e | key, s'⟩
      · rw [hout] at hunlocks
        refine ⟨(h.iff_at hsome fun b _ => hunlocks b).mpr ?_, fun key => by rintro ⟨⟩⟩
        exact (ConsistentAt.congr (hunlocks _)).mpr hat
      · rw [hout] at hunlocks
        obtain ⟨hkey, hconsistent, helse, r', hr', hpublic⟩ := hunlocks
        refine ⟨(h.iff_at hsome fun b hb => (helse b hb).trans ?_).mpr ?_, ?_⟩
        · exact ⟨rfl, rfl, Function.update_of_ne hb ..⟩
        · refine ⟨fun r'' hr'' => hconsistent.protections r'' hr'', fun key' hkey' _ => ⟨r', hr', ?_⟩⟩
          have hset : (s'.setCached (cfg.lower account) (some key)).sessionKeyCache (cfg.lower account) = some key :=
            Function.update_self ..
          cases Option.some.inj (hset.symm.trans hkey')
          exact hkey.trans hpublic.symm
        · rintro key' ⟨⟩
          exact ⟨r, hr, hkey⟩

theorem ConsistentAt.of_empty (hrecord : s.records a = none) (hcache : s.sessionKeyCache a = none) :
    ConsistentAt cfg s a := by
  constructor
  · intro r hr
    cases hrecord.symm.trans hr
  · intro key hkey
    cases hcache.symm.trans hkey

theorem deleteCredential_outcome : (∀ b, b ≠ cfg.lower a → SameAt b s (outcome (deleteCredential cfg a) x s).2) ∧
    (outcome (deleteCredential cfg a) x s).2.sessionKeyCache = s.sessionKeyCache := by
  simp only [deleteCredential, outcome_bind, outcome_get]
  cases s.managementTokens (cfg.lower a) with
  | none => exact ⟨fun b _ => .refl s, rfl⟩
  | some token =>
    simp only [outcome_bind, outcome_answer, outcome_rethrow]
    cases x.deletionFailure with
    | some e => exact ⟨fun b _ => .refl s, rfl⟩
    | none => exact ⟨fun b hb => ⟨rfl, Function.update_of_ne hb .., rfl⟩, rfl⟩

theorem deleteKeyPair_keyring (hsome : account ≠ []) : (outcome (deleteKeyPair cfg account) x s).2 =
    (outcome (deleteCredential cfg (cfg.lower account)) x (s.setCached (cfg.lower account) none)).2.setRecord
      (cfg.lower account) none := by
  simp only [deleteKeyPair, if_neg hsome, outcome_bind, wipeCachedPrivateKey, outcome_modify, outcome_tryCatch]
  rcases outcome (deleteCredential cfg (cfg.lower account)) x (s.setCached (cfg.lower account) none) with ⟨e | u, s'⟩
  · simp [idbDelete, outcome_bind, cfg.lower_lower]
  · simp [idbDelete, outcome_bind, cfg.lower_lower]

theorem deleteKeyPair_outcome (h : Consistent cfg s) : Consistent cfg (outcome (deleteKeyPair cfg account) x s).2 := by
  by_cases hsome : account = []
  · rw [deleteKeyPair, if_pos hsome]
    exact h
  rw [deleteKeyPair_keyring hsome]
  obtain ⟨helse, hcache⟩ := @deleteCredential_outcome cfg x (s.setCached (cfg.lower account) none)
    (cfg.lower account)
  rw [cfg.lower_lower] at helse
  refine (h.iff_at hsome fun b hb => ?_).mpr (.of_empty (Function.update_self ..) ?_)
  · have hwiped : SameAt b s (s.setCached (cfg.lower account) none) := ⟨rfl, rfl, Function.update_of_ne hb ..⟩
    exact (hwiped.trans (helse b hb)).trans ⟨Function.update_of_ne hb .., rfl, rfl⟩
  · exact (congrFun hcache _).trans (Function.update_self ..)

theorem Consistent.locked (h : Consistent cfg s)
    (hcache : ∀ a, s'.sessionKeyCache a = s.sessionKeyCache a ∨ s'.sessionKeyCache a = none)
    (hsame : s'.records = s.records ∧ s'.server = s.server) : Consistent cfg s' := by
  intro account hsome
  have hat := h account hsome
  rcases hcache (cfg.lower account) with hkept | hwiped
  · exact (ConsistentAt.congr ⟨congrFun hsame.1 _, congrFun hsame.2 _, hkept⟩).mpr hat
  · constructor
    · intro r hr
      refine (Protected.congr (congrFun hsame.2 _)).mpr (hat.protections r ?_)
      rwa [← hsame.1]
    · intro key hkey
      cases hwiped.symm.trans hkey

end Operations

/-! ## Saved pairs -/

structure SavedPair where
  account : JsString
  publicKey : JsString
  privateKey : JsString

section Saves
variable (cfg : Config) (x : Answers) (s : Keyring)

/-- The pair that `saveKeyPair` stores, once it is past its checks and the PIN is enrolled. -/
def pinSaved (account publicKey privateKey pin : JsString) : Option SavedPair :=
  if account ≠ [] ∧ publicKey ≠ [] ∧ privateKey ≠ [] ∧ cfg.importsPublicKey publicKey = true ∧
      cfg.importsPrivateKey privateKey = true ∧ (enrollment x s (cfg.lower account) pin).isSome then
    some ⟨cfg.lower account, publicKey, privateKey⟩
  else none

/-- The pair that an operation stores under a PIN, beside the passkey ciphertext that the record has. -/
def Operation.saves : Operation → Option SavedPair
  | .generateAndSaveKeyPair account pin enablePasskey =>
    if account ≠ [] ∧ (enrollment x s (cfg.lower account) pin).isSome ∧
        (enablePasskey = true → x.passkeyCreated = none) then
      some ⟨cfg.lower account, cfg.publicKeyOf x.generated, x.generated⟩
    else none
  | .saveKeyPair account publicKey privateKey pin => pinSaved cfg x s account publicKey privateKey pin
  | .importKeyBackup account (some parsed) backupPassphrase newPin =>
    if account ≠ [] ∧ backupPassphrase ≠ [] ∧ parsed.version = js "spoovault-keyring-backup-v1" ∧
        (parsed.account = [] ∨ cfg.lower parsed.account = cfg.lower account) ∧
        parsed.encryptedPrivateKey.passphrase = backupPassphrase then
      pinSaved cfg x s (cfg.lower account) parsed.publicKey parsed.encryptedPrivateKey.plaintext newPin
    else none
  | _ => none

end Saves

section Saved
variable {cfg : Config} {x : Answers} {s s' : Keyring} {account publicKey privateKey pin : JsString}

/-- What a method that stores a pair leaves: nothing has changed, or the pair is stored. -/
inductive Stores (x : Answers) (s : Keyring) (pin : JsString) : Option SavedPair → Keyring → Prop
  | unchanged : Stores x s pin none s
  | stored {pair : SavedPair} {exportKey : JsString} {s' : Keyring}
      (henroll : enrollment x s pair.account pin = some (exportKey, s')) :
      Stores x s pin (some pair) (saved x pair.account pair.publicKey pair.privateKey (s.read pair.account) exportKey s')

theorem saveKeyPair_outcome (cfg : Config) (x : Answers) (s : Keyring) (account publicKey privateKey pin : JsString) :
    (∃ exportKey s', enrollment x s (cfg.lower account) pin = some (exportKey, s') ∧
      pinSaved cfg x s account publicKey privateKey pin = some ⟨cfg.lower account, publicKey, privateKey⟩ ∧
      outcome (saveKeyPair cfg account publicKey privateKey pin) x s =
        (.ok .unit, saved x (cfg.lower account) publicKey privateKey (s.read (cfg.lower account)) exportKey s')) ∨
    ∃ e, pinSaved cfg x s account publicKey privateKey pin = none ∧
      outcome (saveKeyPair cfg account publicKey privateKey pin) x s = (.error e, s) := by
  simp only [saveKeyPair, outcome_bind, outcome_throwIf, outcome_answer]
  by_cases hmissing : account = [] ∨ publicKey = [] ∨ privateKey = []
  · right
    rw [if_pos hmissing]
    refine ⟨_, if_neg ?_, rfl⟩
    rintro ⟨haccount, hpublic, hprivate, _⟩
    simp [haccount, hpublic, hprivate] at hmissing
  simp only [if_neg hmissing]
  by_cases hformat : cfg.importsPublicKey publicKey = false ∨ cfg.importsPrivateKey privateKey = false
  · right
    rw [if_pos hformat]
    refine ⟨_, if_neg ?_, rfl⟩
    rintro ⟨_, _, _, hpublic, hprivate, _⟩
    simp [hpublic, hprivate] at hformat
  simp only [if_neg hformat]
  have hsaved : pinSaved cfg x s account publicKey privateKey pin =
      if (enrollment x s (cfg.lower account) pin).isSome then some ⟨cfg.lower account, publicKey, privateKey⟩
      else none := by
    simp only [not_or, Bool.not_eq_false] at hmissing hformat
    simp only [pinSaved, hmissing, hformat, ne_eq, not_false_eq_true, true_and]
  rw [hsaved]
  by_cases hpin : trim pin = []
  · simp only [if_pos hpin, enrollment, Option.isSome_none, Bool.false_eq_true, if_false]
    exact .inr ⟨_, trivial, rfl⟩
  simp only [if_neg hpin, idbGet_outcome, cfg.lower_lower]
  obtain ⟨e, hpersist⟩ := persistKeyPair_outcome cfg x s publicKey privateKey pin (s.read (cfg.lower account))
    (cfg.lower_lower account)
  rw [hpersist]
  cases henroll : enrollment x s (cfg.lower account) pin with
  | none => exact .inr ⟨e, rfl, rfl⟩
  | some yield => exact .inl ⟨yield.1, yield.2, rfl, rfl, rfl⟩

theorem saveKeyPair_stores : Stores x s pin (pinSaved cfg x s account publicKey privateKey pin)
    (outcome (saveKeyPair cfg account publicKey privateKey pin) x s).2 := by
  rcases saveKeyPair_outcome cfg x s account publicKey privateKey pin with
    ⟨exportKey, s', henroll, hpair, hsaved⟩ | ⟨e, hnone, hthrown⟩
  · rw [hpair, hsaved]
    exact @Stores.stored x s pin ⟨cfg.lower account, publicKey, privateKey⟩ _ _ henroll
  · rw [hnone, hthrown]
    exact .unchanged

theorem importKeyBackup_stores {backup : Option KeyPairBackupPayload} {backupPassphrase : JsString} :
    Stores x s pin ((Operation.importKeyBackup account backup backupPassphrase pin).saves cfg x s)
      (outcome (importKeyBackup cfg account backup backupPassphrase pin) x s).2 := by
  simp only [importKeyBackup, outcome_bind, outcome_throwIf, outcome_orThrow, outcome_answer]
  cases backup with
  | none =>
    by_cases haccount : account = []
    · simp only [if_pos haccount]
      exact .unchanged
    by_cases hpassphrase : backupPassphrase = []
    · simp only [if_neg haccount, if_pos hpassphrase]
      exact .unchanged
    · simp only [if_neg haccount, if_neg hpassphrase]
      exact .unchanged
  | some parsed =>
    by_cases haccount : account = []
    · rw [Operation.saves, if_neg fun hguard => hguard.1 haccount]
      simp only [if_pos haccount]
      exact .unchanged
    by_cases hpassphrase : backupPassphrase = []
    · rw [Operation.saves, if_neg fun hguard => hguard.2.1 hpassphrase]
      simp only [if_neg haccount, if_pos hpassphrase]
      exact .unchanged
    by_cases hversion : parsed.version = js "spoovault-keyring-backup-v1"
    case neg =>
      rw [Operation.saves, if_neg fun hguard => hversion hguard.2.2.1]
      simp only [if_neg haccount, if_neg hpassphrase, if_pos hversion, ne_eq]
      exact .unchanged
    by_cases hwallet : parsed.account ≠ [] ∧ cfg.lower parsed.account ≠ cfg.lower account
    · rw [Operation.saves, if_neg fun hguard => hguard.2.2.2.1.elim hwallet.1 hwallet.2]
      simp only [if_neg haccount, if_neg hpassphrase, if_neg (not_not.mpr hversion), if_pos hwallet]
      exact .unchanged
    simp only [if_neg haccount, if_neg hpassphrase, if_neg (not_not.mpr hversion), if_neg hwallet]
    by_cases hdecrypt : backupPassphrase = parsed.encryptedPrivateKey.passphrase
    · have hsame : parsed.account = [] ∨ cfg.lower parsed.account = cfg.lower account := by
        rwa [not_and_or, not_not, not_not] at hwallet
      rw [Operation.saves, if_pos ⟨haccount, hpassphrase, hversion, hsame, hdecrypt.symm⟩]
      have hstores := @saveKeyPair_stores cfg x s (cfg.lower account) parsed.publicKey
        parsed.encryptedPrivateKey.plaintext pin
      simp only [PassphraseCiphertext.decrypt, if_pos hdecrypt]
      rcases hout : outcome (saveKeyPair cfg (cfg.lower account) parsed.publicKey parsed.encryptedPrivateKey.plaintext
          pin) x s with ⟨e | reply, s'⟩
      · rwa [hout] at hstores
      · rwa [hout] at hstores
    · rw [Operation.saves, if_neg fun hguard => hdecrypt hguard.2.2.2.2.symm]
      simp only [PassphraseCiphertext.decrypt, if_neg hdecrypt]
      exact .unchanged

/-! ## Generated pairs -/

def createdPasskey (x : Answers) (enablePasskey : Bool) : Option PasskeyCiphertext :=
  if enablePasskey then x.passkeyCreated.map fun key => ⟨key, x.generated⟩ else none

theorem requestedPasskey_outcome (enablePasskey : Bool) :
    outcome (requestedPasskey enablePasskey x.generated) x s = (.ok (createdPasskey x enablePasskey), s) := by
  cases enablePasskey with
  | false => rfl
  | true => rfl

theorem createdPasskey_plaintext {enablePasskey : Bool} {passkey : PasskeyCiphertext}
    (h : createdPasskey x enablePasskey = some passkey) : passkey.plaintext = x.generated := by
  unfold createdPasskey at h
  split at h
  · obtain ⟨key, _, rfl⟩ := Option.map_eq_some_iff.mp h
    rfl
  · cases h

theorem passkeyProtected_withPasskey (r : KeyPairRecord) {passkey : PasskeyCiphertext}
    (hpublic : cfg.publicKeyOf passkey.plaintext = publicKey) :
    PasskeyProtected cfg (r.withPasskey passkey) publicKey := by
  rintro _ ⟨⟩
  exact ⟨passkey.plaintext, by simp [PasskeyCiphertext.decrypt, KeyPairRecord.withPasskey], hpublic⟩

theorem ConsistentAt.of_passkey {a : JsString} {r : KeyPairRecord} {passkey : PasskeyCiphertext}
    (hpublic : cfg.publicKeyOf passkey.plaintext = r.publicKey)
    (hprotected : Protected cfg s a (r.withPasskey passkey)) :
    ConsistentAt cfg ((s.setRecord a (some (r.withPasskey passkey))).setCached a (some passkey.plaintext)) a := by
  have hrecord : ((s.setRecord a (some (r.withPasskey passkey))).setCached a (some passkey.plaintext)).records a =
      some (r.withPasskey passkey) := Function.update_self ..
  have hcached : ((s.setRecord a (some (r.withPasskey passkey))).setCached a (some passkey.plaintext)).sessionKeyCache
      a = some passkey.plaintext := Function.update_self ..
  constructor
  · intro r' hr'
    cases Option.some.inj (hrecord.symm.trans hr')
    exact hprotected
  · intro key hkey _
    cases Option.some.inj (hcached.symm.trans hkey)
    exact ⟨_, hrecord, hpublic⟩

theorem setRecord_setCached_same {a b : JsString} (record : Option KeyPairRecord) (key : Option JsString) (hb : b ≠ a) :
    SameAt b s ((s.setRecord a record).setCached a key) :=
  ⟨Function.update_of_ne hb .., rfl, Function.update_of_ne hb ..⟩

theorem Keyring.read_setRecord {a : JsString} {record : KeyPairRecord} (hrecord : record.account = a) :
    (s.setRecord a (some record)).read a = some record := by
  subst hrecord
  have hstored : (s.setRecord record.account (some record)).records record.account = some record :=
    Function.update_self ..
  rw [Keyring.read, hstored]
  rfl

theorem saved_read (a exportKey : JsString) (existing : Option KeyPairRecord) :
    (saved x a publicKey privateKey existing exportKey s).read a =
      some (replaced a publicKey ⟨exportKey, a, publicKey, privateKey⟩ x.now existing) :=
  Keyring.read_setRecord rfl

theorem saved_setCached (a exportKey : JsString) (existing : Option KeyPairRecord) :
    (saved x a publicKey privateKey existing exportKey s).setCached a (some privateKey) =
      saved x a publicKey privateKey existing exportKey s := by
  simp only [saved, Keyring.setCached, Function.update_idem]

theorem createdPasskey_none {enablePasskey : Bool} :
    createdPasskey x enablePasskey = none ↔ (enablePasskey = true → x.passkeyCreated = none) := by
  cases enablePasskey with
  | false => simp [createdPasskey]
  | true => simp [createdPasskey]

theorem enrollment_trim (a : JsString) : enrollment x s a (trim pin) = enrollment x s a pin := by
  simp only [enrollment, trim_trim]

theorem idbPut_own {a : JsString} (ha : cfg.lower a = a) {record : KeyPairRecord} (hrecord : record.account = a) :
    outcome (idbPut cfg record) x s = (.ok (), s.setRecord a (some record)) := by
  subst hrecord
  rw [idbPut_outcome, ha]

def passkeyOnly (x : Answers) (a publicKey : JsString) (existing : Option KeyPairRecord) : KeyPairRecord :=
  { account := a, publicKey := publicKey, createdAt := createdAt x.now existing, updatedAt := x.now, hasPin := false }

theorem storeGenerated_passkey {a : JsString} (ha : cfg.lower a = a) (passkey : PasskeyCiphertext)
    (existing : Option KeyPairRecord) :
    outcome (storeGenerated cfg a publicKey privateKey [] (some passkey) existing) x s =
      (.ok (), s.setRecord a (some ((passkeyOnly x a publicKey existing).withPasskey passkey))) := by
  refine Eq.trans ?_ (@idbPut_own cfg x s a ha
    ((passkeyOnly x a publicKey existing).withPasskey passkey) rfl)
  rfl

theorem generateAndSaveKeyPair_throws (haccount : account ≠ []) {enablePasskey : Bool} {e : Failure}
    (hstore : outcome (storeGenerated cfg (cfg.lower account) (cfg.publicKeyOf x.generated) x.generated (trim pin)
      (createdPasskey x enablePasskey) (s.read (cfg.lower account))) x s = (.error e, s)) :
    (outcome (generateAndSaveKeyPair cfg account pin enablePasskey) x s).2 = s := by
  simp only [generateAndSaveKeyPair, outcome_bind, outcome_throwIf, outcome_answer, if_neg haccount,
    requestedPasskey_outcome, idbGet_outcome, cfg.lower_lower, hstore]

theorem generateAndSaveKeyPair_returns (haccount : account ≠ []) {enablePasskey : Bool} {r : KeyPairRecord}
    (hstore : outcome (storeGenerated cfg (cfg.lower account) (cfg.publicKeyOf x.generated) x.generated (trim pin)
      (createdPasskey x enablePasskey) (s.read (cfg.lower account))) x s = (.ok (), s'))
    (hread : s'.read (cfg.lower account) = some r) :
    (outcome (generateAndSaveKeyPair cfg account pin enablePasskey) x s).2 =
      (match createdPasskey x enablePasskey with
        | some passkey => if trim pin = [] then s' else s'.setRecord (cfg.lower account) (some (r.withPasskey passkey))
        | none => s').setCached (cfg.lower account) (some x.generated) := by
  have hraccount : r.account = cfg.lower account := by
    obtain ⟨stored, _, rfl⟩ := Option.map_eq_some_iff.mp hread
    rfl
  simp only [generateAndSaveKeyPair, outcome_bind, outcome_throwIf, outcome_answer, if_neg haccount,
    requestedPasskey_outcome, idbGet_outcome, cfg.lower_lower, hstore, hread]
  cases createdPasskey x enablePasskey with
  | none => rfl
  | some passkey =>
    by_cases hpin : trim pin = []
    · simp only [addPasskey, hpin, ne_eq, not_true_eq_false, if_false, if_true]
      rfl
    · simp only [addPasskey, ne_eq, hpin, not_false_eq_true, if_true, if_false]
      rw [@idbPut_own cfg x _ _ (cfg.lower_lower account) (r.withPasskey passkey) hraccount]
      rfl

theorem generateAndSaveKeyPair_withoutPin {enablePasskey : Bool} (haccount : account ≠ []) (hpin : trim pin = []) :
    Stores x s pin none (outcome (generateAndSaveKeyPair cfg account pin enablePasskey) x s).2 ∨
      ConsistentAt cfg (outcome (generateAndSaveKeyPair cfg account pin enablePasskey) x s).2 (cfg.lower account) ∧
        ∀ b, b ≠ cfg.lower account →
          SameAt b s (outcome (generateAndSaveKeyPair cfg account pin enablePasskey) x s).2 := by
  cases hcreated : createdPasskey x enablePasskey with
  | none =>
    left
    rw [generateAndSaveKeyPair_throws haccount (by simp only [hpin, hcreated, storeGenerated]; rfl)]
    exact .unchanged
  | some passkey =>
    have hplain := createdPasskey_plaintext hcreated
    have hstored := @generateAndSaveKeyPair_returns cfg x s _ account pin haccount enablePasskey _
      (by rw [hpin, hcreated, storeGenerated_passkey (cfg.lower_lower account)]) (Keyring.read_setRecord rfl)
    rw [hstored, hcreated]
    simp only [if_pos hpin, ← hplain]
    refine .inr ⟨?_, fun b hb => setRecord_setCached_same _ _ hb⟩
    apply ConsistentAt.of_passkey rfl
    intro p hp
    simp [KeyPairRecord.protections, KeyPairRecord.withPasskey, passkeyOnly] at hp
    subst hp
    exact passkeyProtected_withPasskey _ rfl passkey rfl

theorem generateAndSaveKeyPair_withPin {enablePasskey : Bool} (haccount : account ≠ []) (hpin : trim pin ≠ []) :
    Stores x s pin ((Operation.generateAndSaveKeyPair account pin enablePasskey).saves cfg x s)
        (outcome (generateAndSaveKeyPair cfg account pin enablePasskey) x s).2 ∨
      (Operation.generateAndSaveKeyPair account pin enablePasskey).saves cfg x s = none ∧
        ConsistentAt cfg (outcome (generateAndSaveKeyPair cfg account pin enablePasskey) x s).2 (cfg.lower account) ∧
        ∀ b, b ≠ cfg.lower account →
          SameAt b s (outcome (generateAndSaveKeyPair cfg account pin enablePasskey) x s).2 := by
  obtain ⟨e, hpersist⟩ := persistKeyPair_outcome cfg x s (cfg.publicKeyOf x.generated) x.generated (trim pin)
    (s.read (cfg.lower account)) (cfg.lower_lower account)
  rw [enrollment_trim] at hpersist
  have hstore : storeGenerated cfg (cfg.lower account) (cfg.publicKeyOf x.generated) x.generated (trim pin)
      (createdPasskey x enablePasskey) (s.read (cfg.lower account)) =
        persistKeyPair cfg (cfg.lower account) (cfg.publicKeyOf x.generated) x.generated (trim pin)
          (s.read (cfg.lower account)) := if_pos hpin
  rw [← hstore] at hpersist
  cases henroll : enrollment x s (cfg.lower account) pin with
  | none =>
    left
    rw [henroll] at hpersist
    rw [generateAndSaveKeyPair_throws haccount hpersist, Operation.saves, if_neg fun hguard => by simp [henroll] at hguard]
    exact .unchanged
  | some yield =>
    obtain ⟨exportKey, s'⟩ := yield
    rw [henroll] at hpersist
    rw [generateAndSaveKeyPair_returns haccount hpersist (saved_read ..)]
    cases hcreated : createdPasskey x enablePasskey with
    | none =>
      left
      rw [Operation.saves, if_pos ⟨haccount, by simp [henroll], createdPasskey_none.mp hcreated⟩, saved_setCached]
      exact @Stores.stored x s pin ⟨cfg.lower account, cfg.publicKeyOf x.generated, x.generated⟩ _ _ henroll
    | some passkey =>
      have hplain := createdPasskey_plaintext hcreated
      obtain ⟨_, _, _, c, hserver, rfl⟩ := enrollment_spec henroll
      right
      refine ⟨?_, ?_, ?_⟩
      · apply if_neg
        rintro ⟨_, _, hguard⟩
        rw [createdPasskey_none.mpr hguard] at hcreated
        cases hcreated
      · simp only [if_neg hpin]
        rw [← hplain]
        apply ConsistentAt.of_passkey rfl
        refine (protected_enrolled (c := c) rfl hserver ⟨rfl, rfl⟩).mpr ⟨rfl, passkeyProtected_withPasskey _ rfl⟩
      · intro b hb
        simp only [if_neg hpin]
        exact (saved_same henroll hb).trans (setRecord_setCached_same _ _ hb)

theorem generateAndSaveKeyPair_stores {enablePasskey : Bool} :
    Stores x s pin ((Operation.generateAndSaveKeyPair account pin enablePasskey).saves cfg x s)
        (outcome (generateAndSaveKeyPair cfg account pin enablePasskey) x s).2 ∨
      account ≠ [] ∧ (Operation.generateAndSaveKeyPair account pin enablePasskey).saves cfg x s = none ∧
        ConsistentAt cfg (outcome (generateAndSaveKeyPair cfg account pin enablePasskey) x s).2 (cfg.lower account) ∧
        ∀ b, b ≠ cfg.lower account →
          SameAt b s (outcome (generateAndSaveKeyPair cfg account pin enablePasskey) x s).2 := by
  by_cases haccount : account = []
  · left
    rw [Operation.saves, if_neg fun hguard => hguard.1 haccount]
    simp only [generateAndSaveKeyPair, outcome_bind, outcome_throwIf, if_pos haccount]
    exact .unchanged
  by_cases hpin : trim pin = []
  · have hnone : (Operation.generateAndSaveKeyPair account pin enablePasskey).saves cfg x s = none := by
      apply if_neg
      rintro ⟨_, henrolls, _⟩
      simp [enrollment, hpin] at henrolls
    rw [hnone]
    exact (generateAndSaveKeyPair_withoutPin haccount hpin).imp id fun h => ⟨haccount, rfl, h⟩
  · exact (generateAndSaveKeyPair_withPin haccount hpin).imp id fun h => ⟨haccount, h⟩

end Saved

/-! ## Runs -/

section Runs
variable {cfg : Config}

theorem selfConsistent_iff (hunique : Function.Injective cfg.publicKeyOf) (s : Keyring) :
    SelfConsistent cfg s ↔ Consistent cfg s := by
  constructor
  · intro h account hsome
    refine ⟨h.protections account hsome, fun key hcached hne => h.unlocks account [] key ⟨{}, ?_⟩⟩
    simp only [getDecryptedPrivateKey, outcome_bind, outcome_throwIf, if_neg hsome, outcome_get,
      readCachedPrivateKey, hcached]
    rw [Option.filter_some, if_pos (by simpa using hne)]
    rfl
  · intro h
    have hunlocks : ∀ account pin key, Unlocks cfg s account pin key →
        ∃ r, s.records (cfg.lower account) = some r ∧ cfg.publicKeyOf key = r.publicKey := by
      rintro account pin key ⟨x, hreturns⟩
      exact (getDecryptedPrivateKey_outcome h).2 key hreturns
    refine ⟨fun account hsome => (h account hsome).protections, hunlocks, ?_⟩
    intro account pin pin' key key' hkey hkey'
    obtain ⟨r, hr, hpublic⟩ := hunlocks account pin key hkey
    obtain ⟨r', hr', hpublic'⟩ := hunlocks account pin' key' hkey'
    cases Option.some.inj (hr.symm.trans hr')
    exact hunique (hpublic.trans hpublic'.symm)

/-- `saveKeyPair` is called with a pair. -/
def Operation.Matching (cfg : Config) : Operation → Prop
  | .saveKeyPair _ publicKey privateKey _ => publicKey = cfg.publicKeyOf privateKey
  | _ => True

abbrev Played := Operation × Answers

def Plays (cfg : Config) (s : Keyring) (played : Played) (s' : Keyring) : Prop :=
  played.1.Matching cfg ∧ (outcome (program cfg played.1) played.2 s).2 = s'

/-- The records that a run starts with may be legacy ones. -/
abbrev KeyringRun (cfg : Config) : List (Transition Keyring Played) → Keyring → Prop :=
  Run (SelfConsistent cfg) (Plays cfg)

/-- A pair is stored under a PIN only where it may be: it is a pair, and the record has no passkey ciphertext, or is
of the same public key. -/
def KeepsAgreement (cfg : Config) (t : Transition Keyring Played) : Prop :=
  ∀ pair, t.label.1.saves cfg t.label.2 t.pre = some pair → Agrees cfg t.pre pair.account pair.publicKey pair.privateKey

theorem Stores.consistent_iff {x : Answers} {s s' : Keyring} {pin : JsString} {pair : Option SavedPair}
    (h : Stores x s pin pair s') (hconsistent : Consistent cfg s)
    (haccount : ∀ p, pair = some p → ∃ account, account ≠ [] ∧ cfg.lower account = p.account) :
    Consistent cfg s' ↔ ∀ p, pair = some p → Agrees cfg s p.account p.publicKey p.privateKey := by
  cases h with
  | unchanged => exact ⟨fun _ => nofun, fun _ => hconsistent⟩
  | @stored pair exportKey s' henroll =>
    obtain ⟨account, hsome, hlower⟩ := haccount pair rfl
    rw [hconsistent.iff_at hsome (by rw [hlower]; exact fun b hb => saved_same henroll hb), hlower,
      saved_consistent_iff (hlower ▸ hconsistent account hsome) henroll rfl]
    constructor
    · rintro hagrees _ ⟨⟩
      exact hagrees
    · exact fun hagrees => hagrees pair rfl

theorem pinSaved_account {x : Answers} {s : Keyring} {account publicKey privateKey pin : JsString} {p : SavedPair}
    (h : pinSaved cfg x s account publicKey privateKey pin = some p) :
    ∃ account, account ≠ [] ∧ cfg.lower account = p.account := by
  obtain ⟨hguard, heq⟩ := Option.ite_none_right_eq_some.mp h
  cases heq
  exact ⟨account, hguard.1, rfl⟩

theorem saves_account {x : Answers} {s : Keyring} {op : Operation} {p : SavedPair}
    (h : op.saves cfg x s = some p) : ∃ account, account ≠ [] ∧ cfg.lower account = p.account := by
  cases op with
  | generateAndSaveKeyPair account pin enablePasskey =>
    obtain ⟨hguard, heq⟩ := Option.ite_none_right_eq_some.mp h
    cases heq
    exact ⟨account, hguard.1, rfl⟩
  | saveKeyPair account publicKey privateKey pin => exact pinSaved_account h
  | importKeyBackup account backup backupPassphrase newPin =>
    cases backup with
    | none => cases h
    | some parsed => exact pinSaved_account (Option.ite_none_right_eq_some.mp h).2
  | getDecryptedPrivateKey account pin => cases h
  | deleteKeyPair account => cases h
  | lockAccount account => cases h
  | clearSessionCache => cases h
  | lockNow accounts random => cases h

theorem consistent_next {s s' : Keyring} {op : Operation} {x : Answers} (h : Consistent cfg s)
    (hplays : Plays cfg s (op, x) s') : Consistent cfg s' ↔ KeepsAgreement cfg ⟨s, (op, x), s'⟩ := by
  obtain ⟨_, rfl⟩ := hplays
  cases op with
  | generateAndSaveKeyPair account pin enablePasskey =>
    rcases @generateAndSaveKeyPair_stores cfg x s account pin enablePasskey
      with hstores | ⟨hsome, hnone, hat, helse⟩
    · exact hstores.consistent_iff h fun p => saves_account
    · refine ⟨fun _ p hp => ?_, fun _ => (h.iff_at hsome helse).mpr hat⟩
      cases hnone.symm.trans hp
  | saveKeyPair account publicKey privateKey pin =>
    exact saveKeyPair_stores.consistent_iff h fun p => pinSaved_account
  | importKeyBackup account backup backupPassphrase newPin =>
    exact importKeyBackup_stores.consistent_iff h fun p => saves_account
  | getDecryptedPrivateKey account pin => exact ⟨fun _ _ => nofun, fun _ => (getDecryptedPrivateKey_outcome h).1⟩
  | deleteKeyPair account => exact ⟨fun _ _ => nofun, fun _ => deleteKeyPair_outcome h⟩
  | lockAccount account =>
    refine ⟨fun _ _ => nofun, fun _ => ?_⟩
    by_cases hsome : account = []
    · simp only [program, lockAccount, if_pos hsome]
      exact h
    · simp only [program, lockAccount, if_neg hsome]
      refine h.locked (fun a => ?_) ⟨rfl, rfl⟩
      by_cases ha : a = cfg.lower account
      · subst ha
        exact .inr (Function.update_self ..)
      · exact .inl (Function.update_of_ne ha ..)
  | clearSessionCache => exact ⟨fun _ _ => nofun, fun _ => h.locked (fun _ => .inr rfl) ⟨rfl, rfl⟩⟩
  | lockNow accounts random => exact ⟨fun _ _ => nofun, fun _ => h.locked (fun _ => .inr rfl) ⟨rfl, rfl⟩⟩

/-- The keyring is self-consistent throughout a run exactly when every pair that is stored under a PIN may be. -/
theorem self_consistent_iff (hunique : Function.Injective cfg.publicKeyOf)
    {hist : List (Transition Keyring Played)} {s : Keyring} (h : KeyringRun cfg hist s) :
    (∀ early mid, Visits hist s early mid → SelfConsistent cfg mid) ↔ ∀ t ∈ hist, KeepsAgreement cfg t := by
  refine h.visited_iff (R := fun _ s => SelfConsistent cfg s) (fun s hstart => hstart) ?_
  intro hist s played s' _ hbefore hplays
  rw [selfConsistent_iff hunique] at hbefore ⊢
  exact consistent_next hbefore hplays

end Runs

theorem selfConsistent_empty : SelfConsistent plainKeys {} := by
  refine (selfConsistent_iff Function.injective_id {}).mpr fun account _ => ?_
  exact .of_empty rfl rfl

def ran (played : List Played) : List (Transition Keyring Played) × Keyring :=
  executed (fun s played => (outcome (program plainKeys played.1) played.2 s).2) {} played

def generating : Played :=
  (.generateAndSaveKeyPair wallet [49] true, { generated := [1], passkeyCreated := some ⟨[2], [3]⟩, exportKey := [4] })

def saving (key : JsString) : Played := (.saveKeyPair wallet key key [49], { exportKey := [6] })

theorem ran_run (played : List Played) (h : ∀ p ∈ played, p.1.Matching plainKeys) :
    KeyringRun plainKeys (ran played).1 (ran played).2 := by
  induction played with
  | nil => exact .start selfConsistent_empty
  | cons p earlier ih =>
    obtain ⟨hmatching, hearlier⟩ := List.forall_mem_cons.mp h
    exact .next (ih hearlier) ⟨hmatching, rfl⟩

/-- Two pairs under the PIN, one with a passkey, the same one under the PIN, and a lock. -/
def savedInTurn : List Played := [(.lockAccount wallet, {}), saving [1], generating, saving [7], saving [5]]

instance (t : Transition Keyring Played) : Decidable (KeepsAgreement plainKeys t) :=
  inferInstanceAs (Decidable (∀ pair ∈ t.label.1.saves plainKeys t.label.2 t.pre,
    plainKeys.publicKeyOf pair.privateKey = pair.publicKey ∧ ∀ r ∈ t.pre.records pair.account,
      r.passkeyEncryptedPrivateKey ≠ none → r.publicKey = pair.publicKey))

theorem self_consistent_generating : Unlocks plainKeys (ran savedInTurn).2 wallet [] [1] ∧
    ∀ early mid, Visits (ran savedInTurn).1 (ran savedInTurn).2 early mid → SelfConsistent plainKeys mid := by
  have hrun := ran_run savedInTurn (by simp [savedInTurn, saving, generating, Operation.Matching, plainKeys])
  exact ⟨⟨{}, rfl⟩, (self_consistent_iff Function.injective_id hrun).mpr (by decide +kernel)⟩

/-- Another pair is saved under the PIN, and the passkey still unwraps to the key of the first. -/
theorem passkey_stale : ¬ ∀ hist s, KeyringRun plainKeys hist s → SelfConsistent plainKeys s := by
  intro hall
  have hconsistent := hall _ _ (ran_run [saving [5], generating] (by simp [saving, generating,
    Operation.Matching, plainKeys]))
  obtain ⟨r, hr, hpasskey, hpublic, hcredential, hsalt⟩ : ∃ r, (ran [saving [5], generating]).2.records wallet =
      some r ∧ r.passkeyEncryptedPrivateKey = some ⟨⟨[2], [3]⟩, [1]⟩ ∧ r.publicKey = [5] ∧
        r.passkeyCredentialId = [2] ∧ r.passkeyPrfSalt = [3] := ⟨_, rfl, rfl, rfl, rfl, rfl⟩
  obtain ⟨key, hunwrap, hkey⟩ := hconsistent.protections wallet (by decide) r hr (.passkey ⟨⟨[2], [3]⟩, [1]⟩)
    (by simp [KeyPairRecord.protections, hpasskey])
  have hold : [1] = key := by
    simpa [Keyring.unwrap, PasskeyCiphertext.decrypt, hcredential, hsalt] using hunwrap
  subst hold
  rw [hpublic] at hkey
  cases hkey

end ChainGuard.OffChain.ClientKeyring
