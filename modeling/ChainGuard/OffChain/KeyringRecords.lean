import ChainGuard.OffChain.ClientKeyring
import Mathlib.Data.List.DropRight

/-! Operations on the keyring that run one after the other, and whether the protections of a record agree: each
unwraps to the private key of the record's public key. -/
namespace ChainGuard.OffChain.ClientKeyring
open Async Methods History
set_option autoImplicit false

/-- What an operation returns or throws when it runs alone, and the keyring after it. -/
def outcome {α : Type} (p : Method α) (x : Answers) (s : Keyring) : Except Failure α × Keyring := call (p.alone x) s

theorem trim_trim (s : JsString) : trim (trim s) = trim s := by
  have hbegins : trim s <+: s.dropWhile isWhiteSpace := by
    rw [trim, ← List.reverse_suffix, List.reverse_reverse]
    exact List.dropWhile_suffix _
  have hfront : (trim s).dropWhile isWhiteSpace = trim s := by
    rw [List.dropWhile_eq_self_iff]
    intro hlength
    rw [List.IsPrefix.getElem hbegins hlength]
    exact List.dropWhile_get_zero_not _ s (hlength.trans_le hbegins.length_le)
  rw [trim, hfront]
  simp only [trim, List.reverse_reverse, List.dropWhile_idempotent]

/-! ## The single functions, run alone -/

section Calls
variable (cfg : Config) (x : Answers) (s : Keyring)

theorem outcome_bind {α β : Type} (p : Method α) (f : α → Method β) :
    outcome (p >>= f) x s = match outcome p x s with
      | (.ok a, mid) => outcome (f a) x mid
      | (.error e, mid) => (.error e, mid) := by
  refine (Program.call_alone_bind x s p f).trans ?_
  unfold outcome
  rcases call (p.alone x) s with ⟨_ | _, mid⟩
  · rfl
  · rfl

theorem outcome_tryCatch {α : Type} (p : Method α) (handler : Failure → Method α) :
    outcome (tryCatch p handler) x s = match outcome p x s with
      | (.ok a, mid) => (.ok a, mid)
      | (.error e, mid) => outcome (handler e) x mid := by
  refine (Program.call_alone_tryCatch x s p handler).trans ?_
  unfold outcome
  rcases call (p.alone x) s with ⟨_ | _, mid⟩
  · rfl
  · rfl

@[simp] theorem outcome_pure {α : Type} (a : α) : outcome (pure a) x s = (.ok a, s) := rfl
@[simp] theorem outcome_throw {α : Type} (e : Failure) : outcome (throw e : Method α) x s = (.error e, s) := rfl
@[simp] theorem outcome_get : outcome (get : Method Keyring) x s = (.ok s, s) := rfl
@[simp] theorem outcome_modify (f : Keyring → Keyring) : outcome (modify f : Method Unit) x s = (.ok (), f s) := rfl
@[simp] theorem outcome_answer : outcome (Program.answer : Method Answers) x s = (.ok x, s) := rfl

@[simp] theorem outcome_throwIf (c : Prop) [Decidable c] (e : Failure) :
    outcome (Program.throwIf c e : Method Unit) x s = if c then (.error e, s) else (.ok (), s) := by
  unfold Program.throwIf
  split
  · rfl
  · rfl

@[simp] theorem outcome_rethrow (e : Option Failure) : outcome (Program.rethrow e : Method Unit) x s =
    match e with
    | some e => (.error e, s)
    | none => (.ok (), s) := by
  cases e with
  | none => rfl
  | some e => rfl

@[simp] theorem outcome_orThrow {α : Type} (o : Option α) (e : Failure) :
    outcome (Program.orThrow o e : Method α) x s =
      match o with
      | some a => (.ok a, s)
      | none => (.error e, s) := by
  cases o with
  | none => rfl
  | some a => rfl

/-- A registration goes through: the server has no credential of the account, or accepts the management token. -/
def Registers (account : JsString) : Prop :=
  x.registrationFailure = none ∧ (s.server account = none ∨ (s.managementTokens account).isSome ∧ x.tokenAccepted = true)

instance (account : JsString) : Decidable (Registers x s account) := inferInstanceAs (Decidable (_ ∧ _))

def registered (account pin : JsString) : Keyring :=
  (s.setCredential account (some ⟨pin, x.exportKey⟩)).setToken account (some x.managementToken)

theorem register_outcome (account pin : JsString) :
    outcome (register cfg account pin) x s =
      if Registers x s (cfg.lower account) then (.ok x.exportKey, registered x s (cfg.lower account) pin)
      else (.error (x.registrationFailure.getD (.transport "OPAQUE_CREDENTIAL_EXISTS")), s) := by
  simp only [register, outcome_bind, outcome_answer, outcome_rethrow]
  cases hfailure : x.registrationFailure with
  | some e => simp [Registers, hfailure]
  | none =>
    simp only [outcome_get, outcome_throwIf]
    cases hserver : s.server (cfg.lower account) with
    | none => simp [Registers, hfailure, hserver, registered]
    | some c =>
      by_cases haccepted : (s.managementTokens (cfg.lower account)).isSome ∧ x.tokenAccepted = true
      · simp [Registers, hfailure, hserver, haccepted, registered]
      · simp [Registers, hfailure, hserver, haccepted]

def loggedIn (account pin : JsString) : Option Credential :=
  if x.loginFailure = none then (s.server account).filter fun c => c.pin = pin else none

theorem login_outcome (account pin : JsString) :
    ∃ e, outcome (login cfg account pin) x s =
      match loggedIn x s (cfg.lower account) pin with
      | some c => (.ok c.exportKey, s.setToken (cfg.lower account) (some x.managementToken))
      | none => (.error e, s) := by
  simp only [login, outcome_bind, outcome_answer, outcome_rethrow, loggedIn]
  cases hfailure : x.loginFailure with
  | some e => exact ⟨e, rfl⟩
  | none =>
    simp only [outcome_get, outcome_orThrow]
    cases (s.server (cfg.lower account)).filter fun c => c.pin = pin with
    | none => exact ⟨failure "OPAQUE_VERIFICATION_FAILED", rfl⟩
    | some c => exact ⟨failure "", rfl⟩

/-- What an enrollment yields: a new credential, or that of a login where one exists already. -/
def enrolled (account pin : JsString) : Option (JsString × Keyring) :=
  if Registers x s account then some (x.exportKey, registered x s account pin)
  else if x.registrationFailure.getD (.transport "OPAQUE_CREDENTIAL_EXISTS") = .transport "OPAQUE_CREDENTIAL_EXISTS" then
    (loggedIn x s account pin).map fun c => (c.exportKey, s.setToken account (some x.managementToken))
  else none

theorem enrollAndWrap_outcome (account pin publicKey privateKey : JsString) (hpin : trim pin ≠ []) :
    ∃ e, outcome (enrollAndWrap cfg account pin publicKey privateKey) x s =
      match enrolled x s (cfg.lower account) (trim pin) with
      | some (exportKey, s') => (.ok ⟨exportKey, cfg.lower account, publicKey, privateKey⟩, s')
      | none => (.error e, s) := by
  simp only [enrollAndWrap, outcome_bind, outcome_throwIf, if_neg hpin, outcome_tryCatch, register_outcome, enrolled]
  by_cases hregisters : Registers x s (cfg.lower account)
  · exact ⟨failure "", by simp [hregisters]⟩
  · simp only [hregisters, if_false]
    by_cases hexists : x.registrationFailure.getD (.transport "OPAQUE_CREDENTIAL_EXISTS") =
        .transport "OPAQUE_CREDENTIAL_EXISTS"
    · obtain ⟨e, hlogin⟩ := login_outcome cfg x s account (trim pin)
      refine ⟨e, ?_⟩
      simp only [hexists, if_true, hlogin]
      cases loggedIn x s (cfg.lower account) (trim pin) with
      | none => rfl
      | some c => rfl
    · exact ⟨x.registrationFailure.getD (.transport "OPAQUE_CREDENTIAL_EXISTS"), by simp [hexists]⟩

/-- What an enrollment with the PIN as it was typed yields for an account. -/
def enrollment (a pinOrPassphrase : JsString) : Option (JsString × Keyring) :=
  if trim pinOrPassphrase = [] then none else enrolled x s a (trim pinOrPassphrase)

/-- The pair is stored in the record of the account, wrapped with the export key, and its private key cached. -/
def saved (account publicKey privateKey : JsString) (existing : Option KeyPairRecord) (exportKey : JsString)
    (s : Keyring) : Keyring :=
  (s.setRecord account (some (replaced account publicKey ⟨exportKey, account, publicKey, privateKey⟩ x.now existing))).setCached
    account (some privateKey)

def Keyring.read (s : Keyring) (a : JsString) : Option KeyPairRecord :=
  (s.records a).map fun record => { record with account := a }

theorem idbGet_outcome (account : JsString) :
    outcome (idbGet cfg account) x s = (.ok (s.read (cfg.lower account)), s) := rfl

theorem idbPut_outcome (record : KeyPairRecord) : outcome (idbPut cfg record) x s =
    (.ok (), s.setRecord (cfg.lower record.account) (some { record with account := cfg.lower record.account })) := rfl

theorem persistKeyPair_outcome (publicKey privateKey pin : JsString) (existing : Option KeyPairRecord)
    {account a : JsString} (ha : cfg.lower account = a) :
    ∃ e, outcome (persistKeyPair cfg account publicKey privateKey pin existing) x s =
      match enrollment x s a pin with
      | some (exportKey, s') => (.ok (), saved x a publicKey privateKey existing exportKey s')
      | none => (.error e, s) := by
  subst ha
  simp only [persistKeyPair, outcome_bind, outcome_throwIf, enrollment]
  by_cases hpin : trim pin = []
  · exact ⟨failure "A PIN or passphrase is required when no passkey protects the keyring", by simp [hpin]⟩
  · obtain ⟨e, henroll⟩ := enrollAndWrap_outcome cfg x s (cfg.lower account) (trim pin) publicKey privateKey
      (by rwa [trim_trim])
    rw [cfg.lower_lower, trim_trim] at henroll
    refine ⟨e, ?_⟩
    simp only [if_neg hpin, henroll]
    cases enrolled x s (cfg.lower account) (trim pin) with
    | none => rfl
    | some yield =>
      simp only [outcome_answer, idbPut_outcome, replaced, cfg.lower_lower]
      rfl

end Calls

/-! ## Protections -/

inductive Protection
  | opaqueEnvelope (c : OpaqueKeyringEnvelope)
  | passkey (c : PasskeyCiphertext)
  | passphrase (c : PassphraseCiphertext)
  | zkpp (c : ZkppEnvelope)

def KeyPairRecord.protections (r : KeyPairRecord) : List Protection :=
  (r.opaqueEnvelope.map .opaqueEnvelope).toList ++ (r.passkeyEncryptedPrivateKey.map .passkey).toList ++
    (r.encryptedPrivateKey.map .passphrase).toList ++ (r.zkpp.map .zkpp).toList

/-- What a protection of the record unwraps to with its own secret: the export key of the credential that the server
holds, the key of the passkey that the record names, or the passphrase, PIN and OPRF key it was made with. -/
def Keyring.unwrap (s : Keyring) (account : JsString) (r : KeyPairRecord) : Protection → Option JsString
  | .opaqueEnvelope c => (s.server account).bind fun credential => c.decrypt credential.exportKey account r.publicKey
  | .passkey c => c.decrypt ⟨r.passkeyCredentialId, r.passkeyPrfSalt⟩
  | .passphrase c => c.decrypt c.passphrase
  | .zkpp c => c.decrypt c.oprfKey account c.pin

section Consistency
variable (cfg : Config)

/-- Every protection of the record unwraps to the private key of its public key. -/
def Protected (s : Keyring) (account : JsString) (r : KeyPairRecord) : Prop :=
  ∀ p ∈ r.protections, ∃ key, s.unwrap account r p = some key ∧ cfg.publicKeyOf key = r.publicKey

/-- With some answers, the key is returned. -/
def Unlocks (s : Keyring) (account pinOrPassphrase key : JsString) : Prop :=
  ∃ x, (outcome (getDecryptedPrivateKey cfg account pinOrPassphrase) x s).1 = .ok (.privateKey key)

structure SelfConsistent (s : Keyring) : Prop where
  protections : ∀ account, account ≠ [] → ∀ r, s.records (cfg.lower account) = some r →
    Protected cfg s (cfg.lower account) r
  unlocks : ∀ account pin key, Unlocks cfg s account pin key →
    ∃ r, s.records (cfg.lower account) = some r ∧ cfg.publicKeyOf key = r.publicKey
  /-- By PIN and by passkey alike. -/
  same : ∀ account pin pin' key key', Unlocks cfg s account pin key → Unlocks cfg s account pin' key' → key = key'

/-- What an account holds: its record, its credential and its cached key agree. -/
structure ConsistentAt (s : Keyring) (a : JsString) : Prop where
  protections : ∀ r, s.records a = some r → Protected cfg s a r
  cache : ∀ key, s.sessionKeyCache a = some key → key ≠ [] →
    ∃ r, s.records a = some r ∧ cfg.publicKeyOf key = r.publicKey

def Consistent (s : Keyring) : Prop := ∀ account, account ≠ [] → ConsistentAt cfg s (cfg.lower account)

/-- The account holds the same. -/
structure SameAt (a : JsString) (s s' : Keyring) : Prop where
  records : s'.records a = s.records a
  server : s'.server a = s.server a
  cache : s'.sessionKeyCache a = s.sessionKeyCache a

variable {cfg} {s s' : Keyring} {a : JsString}

theorem Protected.congr {r : KeyPairRecord} (hserver : s'.server a = s.server a) :
    Protected cfg s' a r ↔ Protected cfg s a r := by
  have hunwrap : s'.unwrap a r = s.unwrap a r := by
    funext p
    cases p with
    | opaqueEnvelope c => simp only [Keyring.unwrap, hserver]
    | passkey c => rfl
    | passphrase c => rfl
    | zkpp c => rfl
  rw [Protected, hunwrap, Protected]

def PasskeyProtected (cfg : Config) (r : KeyPairRecord) (publicKey : JsString) : Prop :=
  ∀ c, r.passkeyEncryptedPrivateKey = some c →
    ∃ key, c.decrypt ⟨r.passkeyCredentialId, r.passkeyPrfSalt⟩ = some key ∧ cfg.publicKeyOf key = publicKey

theorem Protected.passkey {r : KeyPairRecord} (h : Protected cfg s a r) : PasskeyProtected cfg r r.publicKey := by
  intro c hc
  exact h (.passkey c) (by simp [KeyPairRecord.protections, hc])

theorem protected_enrolled {r : KeyPairRecord} {c : Credential} {privateKey : JsString}
    (henvelope : r.opaqueEnvelope = some ⟨c.exportKey, a, r.publicKey, privateKey⟩) (hserver : s.server a = some c)
    (hlegacy : r.encryptedPrivateKey = none ∧ r.zkpp = none) :
    Protected cfg s a r ↔ cfg.publicKeyOf privateKey = r.publicKey ∧ PasskeyProtected cfg r r.publicKey := by
  constructor
  · intro h
    obtain ⟨key, hunwrap, hpublic⟩ := h (.opaqueEnvelope ⟨c.exportKey, a, r.publicKey, privateKey⟩)
      (by simp [KeyPairRecord.protections, henvelope])
    have hkey : privateKey = key := by
      simpa [Keyring.unwrap, hserver, OpaqueKeyringEnvelope.decrypt] using hunwrap
    exact ⟨hkey ▸ hpublic, h.passkey⟩
  · rintro ⟨hpublic, hpasskey⟩ p hp
    simp only [KeyPairRecord.protections, henvelope, hlegacy, Option.map_some, Option.map_none, Option.toList_some,
      Option.toList_none, List.append_nil, List.cons_append, List.nil_append, List.mem_cons, Option.mem_toList,
      Option.map_eq_some_iff] at hp
    rcases hp with rfl | ⟨c', hc', rfl⟩
    · exact ⟨privateKey, by simp [Keyring.unwrap, hserver, OpaqueKeyringEnvelope.decrypt], hpublic⟩
    · exact hpasskey c' hc'

theorem ConsistentAt.congr (h : SameAt a s s') : ConsistentAt cfg s' a ↔ ConsistentAt cfg s a := by
  constructor
  · intro hc
    constructor
    · intro r hr
      exact (Protected.congr h.server).mp (hc.protections r (h.records.trans hr))
    · intro key hkey hne
      obtain ⟨r, hr, hpublic⟩ := hc.cache key (h.cache.trans hkey) hne
      exact ⟨r, h.records.symm.trans hr, hpublic⟩
  · intro hc
    constructor
    · intro r hr
      exact (Protected.congr h.server).mpr (hc.protections r (h.records.symm.trans hr))
    · intro key hkey hne
      obtain ⟨r, hr, hpublic⟩ := hc.cache key (h.cache.symm.trans hkey) hne
      exact ⟨r, h.records.trans hr, hpublic⟩

@[simp] theorem SameAt.refl (s : Keyring) : SameAt a s s := ⟨rfl, rfl, rfl⟩

theorem SameAt.trans {s'' : Keyring} (h : SameAt a s s') (h' : SameAt a s' s'') : SameAt a s s'' :=
  ⟨h'.records.trans h.records, h'.server.trans h.server, h'.cache.trans h.cache⟩

theorem Consistent.iff_at (h : Consistent cfg s) {account : JsString} (hsome : account ≠ [])
    (helse : ∀ b, b ≠ cfg.lower account → SameAt b s s') :
    Consistent cfg s' ↔ ConsistentAt cfg s' (cfg.lower account) := by
  refine ⟨fun hc => hc account hsome, fun hc account' hsome' => ?_⟩
  by_cases heq : cfg.lower account' = cfg.lower account
  · rwa [heq]
  · exact (ConsistentAt.congr (helse _ heq)).mpr (h account' hsome')

theorem enrollment_spec {x : Answers} {pin exportKey : JsString} (h : enrollment x s a pin = some (exportKey, s')) :
    s'.records = s.records ∧ s'.sessionKeyCache = s.sessionKeyCache ∧ (∀ b, b ≠ a → s'.server b = s.server b) ∧
      ∃ c, s'.server a = some c ∧ c.exportKey = exportKey := by
  unfold enrollment at h
  split at h
  · cases h
  · unfold enrolled at h
    split at h
    · obtain ⟨rfl, rfl⟩ := Prod.mk.inj (Option.some.inj h)
      refine ⟨rfl, rfl, fun b hb => Function.update_of_ne hb .., _, Function.update_self .., rfl⟩
    · split at h
      · obtain ⟨c, hlogin, heq⟩ := Option.map_eq_some_iff.mp h
        obtain ⟨rfl, rfl⟩ := Prod.mk.inj heq
        refine ⟨rfl, rfl, fun _ _ => rfl, c, ?_, rfl⟩
        unfold loggedIn at hlogin
        split at hlogin
        · exact (Option.filter_eq_some_iff.mp hlogin).1
        · cases hlogin
      · cases h

/-- The pair may be saved beside what the record keeps: it is a pair, and a passkey ciphertext is of the same key. -/
def Agrees (cfg : Config) (s : Keyring) (a publicKey privateKey : JsString) : Prop :=
  cfg.publicKeyOf privateKey = publicKey ∧
    ∀ r, s.records a = some r → r.passkeyEncryptedPrivateKey ≠ none → r.publicKey = publicKey

theorem saved_same {x : Answers} {publicKey privateKey pin exportKey b : JsString}
    {existing : Option KeyPairRecord} (henroll : enrollment x s a pin = some (exportKey, s')) (hb : b ≠ a) :
    SameAt b s (saved x a publicKey privateKey existing exportKey s') := by
  obtain ⟨hrecords, hcache, hserver, _⟩ := enrollment_spec henroll
  constructor
  · exact (Function.update_of_ne hb ..).trans (congrFun hrecords b)
  · exact hserver b hb
  · exact (Function.update_of_ne hb ..).trans (congrFun hcache b)

theorem saved_consistent_iff (h : ConsistentAt cfg s a) {x : Answers}
    {publicKey privateKey pin exportKey : JsString} {existing : Option KeyPairRecord}
    (henroll : enrollment x s a pin = some (exportKey, s'))
    (hexisting : existing = s.read a) :
    ConsistentAt cfg (saved x a publicKey privateKey existing exportKey s') a ↔
      Agrees cfg s a publicKey privateKey := by
  obtain ⟨hrecords, hcache, _, c, hserver, rfl⟩ := enrollment_spec henroll
  set stored := saved x a publicKey privateKey existing c.exportKey s' with hstored
  set r := replaced a publicKey ⟨c.exportKey, a, publicKey, privateKey⟩ x.now existing with hr
  have hrecord : stored.records a = some r := Function.update_self ..
  have hcached : stored.sessionKeyCache a = some privateKey := Function.update_self ..
  have hprotected := @protected_enrolled cfg stored a r c privateKey rfl hserver ⟨rfl, rfl⟩
  have hpasskey : PasskeyProtected cfg r publicKey ↔ ∀ old, s.records a = some old →
      old.passkeyEncryptedPrivateKey ≠ none → old.publicKey = publicKey := by
    cases hold : s.records a with
    | none =>
      rw [Keyring.read, hold] at hexisting
      subst hexisting
      exact ⟨fun _ => nofun, fun _ => nofun⟩
    | some old =>
      rw [Keyring.read, hold] at hexisting
      subst hexisting
      have hbefore := (h.protections old hold).passkey
      constructor
      · rintro hafter _ ⟨⟩ hsome
        obtain ⟨ciphertext, hciphertext⟩ := Option.ne_none_iff_exists'.mp hsome
        obtain ⟨key, hdecrypt, hpublic⟩ := hbefore ciphertext hciphertext
        obtain ⟨key', hdecrypt', hpublic'⟩ := hafter ciphertext hciphertext
        cases Option.some.inj (hdecrypt.symm.trans hdecrypt')
        exact hpublic.symm.trans hpublic'
      · intro hsame ciphertext hciphertext
        obtain ⟨key, hdecrypt, hpublic⟩ := hbefore ciphertext hciphertext
        exact ⟨key, hdecrypt, hpublic.trans (hsame old rfl (Option.ne_none_iff_exists'.mpr ⟨_, hciphertext⟩))⟩
  constructor
  · intro hafter
    obtain ⟨hpublic, hkept⟩ := hprotected.mp (hafter.protections r hrecord)
    exact ⟨hpublic, hpasskey.mp hkept⟩
  · rintro ⟨hpublic, hkept⟩
    constructor
    · intro r' hr'
      cases Option.some.inj (hrecord.symm.trans hr')
      exact hprotected.mpr ⟨hpublic, hpasskey.mpr hkept⟩
    · intro key hkey _
      cases Option.some.inj (hcached.symm.trans hkey)
      exact ⟨r, hrecord, hpublic⟩

/-! ## Unlocks -/

theorem ZkppEnvelope.decrypt_eq (c : ZkppEnvelope) {oprfKey account pin key : JsString}
    (h : c.decrypt oprfKey account pin = some key) : c.plaintext = key := by
  unfold ZkppEnvelope.decrypt at h
  split at h
  · exact Option.some.inj h
  · cases h

theorem PassphraseCiphertext.decrypt_eq (c : PassphraseCiphertext) {passphrase key : JsString}
    (h : c.decrypt passphrase = some key) : c.plaintext = key := by
  unfold PassphraseCiphertext.decrypt at h
  split at h
  · exact Option.some.inj h
  · cases h

/-- An unlock of the account has returned the key of its record `r`. -/
structure Unlocked (cfg : Config) (s : Keyring) (a : JsString) (r : KeyPairRecord) (key : JsString) (s' : Keyring) : Prop where
  key : cfg.publicKeyOf key = r.publicKey
  consistent : ConsistentAt cfg s' a
  elsewhere : ∀ b, b ≠ a → SameAt b s s'
  record : ∃ r', s'.records a = some r' ∧ r'.publicKey = r.publicKey

/-- Of a method that unlocks: what it returns is `Unlocked`, and when it throws, nothing that an account holds has
changed. -/
def UnlocksRecord (cfg : Config) (s : Keyring) (a : JsString) (r : KeyPairRecord)
    (out : Except Failure JsString × Keyring) : Prop :=
  match out with
  | (.ok key, s') => Unlocked cfg s a r key s'
  | (.error _, s') => ∀ b, SameAt b s s'

theorem Unlocked.of_same (h : ConsistentAt cfg s a) {r : KeyPairRecord} (hr : s.records a = some r) {key : JsString}
    (hkey : cfg.publicKeyOf key = r.publicKey) (hsame : ∀ b, SameAt b s s') : Unlocked cfg s a r key s' :=
  ⟨hkey, (ConsistentAt.congr (hsame a)).mpr h, fun b _ => hsame b, r, (hsame a).records.trans hr, rfl⟩

section Unlocks
variable {x : Answers} {r : KeyPairRecord}

theorem migrate_unlocks (h : ConsistentAt cfg s a) (ha : cfg.lower a = a) (hr : s.records a = some r)
    {privateKey passphrase : JsString} (hkey : cfg.publicKeyOf privateKey = r.publicKey) (isCustomPin : Bool) :
    UnlocksRecord cfg s a r
      (outcome (migrate cfg { r with account := a } privateKey passphrase isCustomPin) x s) := by
  simp only [migrate, outcome_bind, outcome_throwIf]
  cases isCustomPin with
  | false => exact fun b => .refl s
  | true =>
    obtain ⟨e, hpersist⟩ := persistKeyPair_outcome cfg x s r.publicKey privateKey passphrase
      (some { r with account := a }) ha
    simp only [Bool.true_eq_false, if_false, hpersist]
    cases henroll : enrollment x s a passphrase with
    | none => exact fun b => .refl s
    | some yield =>
      obtain ⟨exportKey, s'⟩ := yield
      refine ⟨hkey, ?_, fun b hb => saved_same henroll hb, _, Function.update_self .., rfl⟩
      refine (saved_consistent_iff h henroll (by rw [Keyring.read, hr]; rfl)).mpr ⟨hkey, ?_⟩
      intro r' hr' _
      cases Option.some.inj (hr.symm.trans hr')
      rfl

theorem unlockRecord_unlocks (h : ConsistentAt cfg s a) (ha : cfg.lower a = a) (hr : s.records a = some r)
    (pin : JsString) : UnlocksRecord cfg s a r (outcome (unlockRecord cfg { r with account := a } pin) x s) := by
  have hprotected := h.protections r hr
  unfold unlockRecord
  cases henvelope : r.opaqueEnvelope with
  | some envelope =>
    obtain ⟨key, hunwrap, hpublic⟩ := hprotected (.opaqueEnvelope envelope) (by simp [KeyPairRecord.protections, henvelope])
    obtain ⟨e, hlogin⟩ := login_outcome cfg x s a (trim (trim pin))
    simp only [outcome_tryCatch, verifyAndUnwrap, outcome_bind, outcome_throwIf, ha] at hlogin ⊢
    by_cases hpin : trim (trim pin) = []
    · simp only [if_pos hpin]
      exact fun b => .refl s
    · simp only [if_neg hpin, hlogin]
      cases hloggedIn : loggedIn x s a (trim (trim pin)) with
      | none => exact fun b => .refl s
      | some c =>
        have hserver : s.server a = some c := by
          unfold loggedIn at hloggedIn
          split at hloggedIn
          · exact (Option.filter_eq_some_iff.mp hloggedIn).1
          · cases hloggedIn
        simp only [Keyring.unwrap, hserver, Option.bind_some] at hunwrap
        simp only [hunwrap, outcome_orThrow]
        exact .of_same h hr hpublic fun b => ⟨rfl, rfl, rfl⟩
  | none =>
    cases hzkpp : r.zkpp with
    | some envelope =>
      obtain ⟨key, hunwrap, hpublic⟩ := hprotected (.zkpp envelope) (by simp [KeyPairRecord.protections, hzkpp])
      cases hoprf : r.oprfKey with
      | none => exact fun b => .refl s
      | some oprfKey =>
        cases hdecrypt : envelope.decrypt oprfKey (cfg.lower a) (getEffectivePassphrase cfg a pin).1 with
        | none =>
          simp only [hdecrypt, outcome_bind, outcome_orThrow, outcome_answer]
          exact fun b => .refl s
        | some privateKey =>
          simp only [hdecrypt, outcome_bind, outcome_orThrow, outcome_answer]
          apply migrate_unlocks h ha hr
          rwa [← envelope.decrypt_eq hdecrypt, envelope.decrypt_eq hunwrap]
    | none =>
      cases hciphertext : r.encryptedPrivateKey with
      | none => exact fun b => .refl s
      | some ciphertext =>
        obtain ⟨key, hunwrap, hpublic⟩ := hprotected (.passphrase ciphertext)
          (by simp [KeyPairRecord.protections, hciphertext])
        cases hdecrypt : ciphertext.decrypt (getEffectivePassphrase cfg a pin).1 with
        | none =>
          simp only [hdecrypt, outcome_bind, outcome_orThrow, outcome_answer]
          exact fun b => .refl s
        | some privateKey =>
          simp only [hdecrypt, outcome_bind, outcome_orThrow, outcome_answer]
          apply migrate_unlocks h ha hr
          rwa [← ciphertext.decrypt_eq hdecrypt, ciphertext.decrypt_eq hunwrap]

theorem unlockStored_unlocks (h : ConsistentAt cfg s a) (ha : cfg.lower a = a) (hr : s.records a = some r)
    (pin : JsString) : UnlocksRecord cfg s a r (outcome (unlockStored cfg { r with account := a } pin) x s) := by
  unfold unlockStored
  cases hpasskey : if trim pin = [] then ({ r with account := a } : KeyPairRecord).unlockingPasskey else none with
  | none => exact unlockRecord_unlocks h ha hr pin
  | some ciphertext =>
    have hciphertext : r.passkeyEncryptedPrivateKey = some ciphertext := by
      split at hpasskey
      · unfold KeyPairRecord.unlockingPasskey at hpasskey
        split at hpasskey
        · exact hpasskey
        · cases hpasskey
      · cases hpasskey
    obtain ⟨key, hdecrypt, hpublic⟩ := (h.protections r hr).passkey ciphertext hciphertext
    simp only [outcome_tryCatch, decryptRecordWithPasskey, outcome_bind, outcome_answer, outcome_rethrow]
    cases x.passkeyFailure with
    | some e => exact fun b => .refl s
    | none =>
      simp only [outcome_orThrow, hdecrypt]
      exact .of_same h hr hpublic fun b => .refl s

end Unlocks
end Consistency
end ChainGuard.OffChain.ClientKeyring
