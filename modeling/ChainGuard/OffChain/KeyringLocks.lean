import ChainGuard.OffChain.ClientKeyring

/-! Interleaved operations on the keyring, and what locks it: an account may be open only if an operation that
was started after its last lock has opened it. -/
namespace ChainGuard.OffChain.ClientKeyring
open Async Methods History
set_option autoImplicit false

abbrev Browser := System Operation Keyring Answers Failure Reply

abbrev Step := Transition Browser (Event Operation Answers)

abbrev BrowserRun (cfg : Config) : List Step → Browser → Prop :=
  Run (fun s => s.running = (fun _ => none) ∧ s.shared.sessionKeyCache = fun _ => none) (Steps (program cfg))

/-! ## What a piece may write into the cache -/

section Cache
variable (cfg : Config)

def Operation.opens : Operation → Option JsString
  | .generateAndSaveKeyPair account _ _ => some (cfg.lower account)
  | .saveKeyPair account _ _ _ => some (cfg.lower account)
  | .importKeyBackup account _ _ _ => some (cfg.lower account)
  | .getDecryptedPrivateKey account _ => some (cfg.lower account)
  | _ => none

def Keyring.Open (s : Keyring) (account : JsString) : Prop := (s.sessionKeyCache account).isSome

/-- No account is opened but `account`. -/
def OpensOnly (account : Option JsString) (s s' : Keyring) : Prop :=
  ∀ a, s'.Open a → s.Open a ∨ account = some a

variable {account : Option JsString}

theorem OpensOnly.refl (s : Keyring) : OpensOnly account s s := fun _ h => .inl h

theorem OpensOnly.trans {s s' s'' : Keyring} (h : OpensOnly account s s') (h' : OpensOnly account s' s'') :
    OpensOnly account s s'' := by
  intro a hopen
  rcases h' a hopen with hopen | heq
  · exact h a hopen
  · exact .inr heq

def SameCache (s s' : Keyring) : Prop := s'.sessionKeyCache = s.sessionKeyCache

theorem SameCache.refl (s : Keyring) : SameCache s s := rfl

theorem SameCache.trans {s s' s'' : Keyring} (h : SameCache s s') (h' : SameCache s' s'') : SameCache s s'' :=
  Eq.trans h' h

theorem SameCache.opens {α : Type} {p : Method α} (h : p.Within SameCache) : p.Within (OpensOnly account) := by
  refine h.mono fun s s' hsame a hopen => .inl ?_
  rwa [Keyring.Open, hsame] at hopen

theorem cachePrivateKey_within (a privateKey : JsString) :
    (cachePrivateKey a privateKey).Within (OpensOnly (some a)) := by
  apply Program.within_modify
  intro s b hopen
  by_cases heq : a = b
  · exact .inr (congrArg some heq)
  · left
    simpa [Keyring.Open, Keyring.setCached, Function.update_of_ne (Ne.symm heq)] using hopen

theorem wipeCachedPrivateKey_within (a : JsString) : (wipeCachedPrivateKey a).Within (OpensOnly account) := by
  apply Program.within_modify
  intro s b hopen
  left
  by_cases heq : b = a
  · subst heq
    simp [Keyring.Open, Keyring.setCached] at hopen
  · simpa [Keyring.Open, Keyring.setCached, Function.update_of_ne heq] using hopen

theorem get_same : (get : Method Keyring).Within SameCache := Program.within_get SameCache.refl

theorem modify_same {f : Keyring → Keyring} (hf : ∀ s, (f s).sessionKeyCache = s.sessionKeyCache) :
    (modify f : Method Unit).Within SameCache := Program.within_modify hf

theorem register_same (a pin : JsString) : (register cfg a pin).Within SameCache := by
  refine Program.within_answer.bind fun started => (Program.within_rethrow _).bind fun _ =>
    get_same.bind fun s => Program.within_answer.bind fun finished => (Program.within_rethrow _).bind fun _ =>
    get_same.bind fun s' => (Program.within_throwIf _ _).bind fun _ => ?_
  refine (modify_same fun _ => rfl).bind fun _ => (modify_same fun _ => rfl).bind fun _ => ?_
  exact Program.within_pure _

theorem login_same (a pin : JsString) : (login cfg a pin).Within SameCache := by
  refine Program.within_answer.bind fun started => (Program.within_rethrow _).bind fun _ =>
    get_same.bind fun s => (Program.within_orThrow _ _).bind fun credential =>
    Program.within_answer.bind fun finished => (Program.within_rethrow _).bind fun _ => ?_
  exact (modify_same fun _ => rfl).bind fun _ => Program.within_pure _

theorem enrollAndWrap_same (a pin publicKey privateKey : JsString) :
    (enrollAndWrap cfg a pin publicKey privateKey).Within SameCache := by
  refine (Program.within_throwIf _ _).bind fun _ => Program.Within.bind ?_ fun _ => Program.within_pure _
  apply (register_same cfg a (trim pin)).tryCatch
  intro error
  split
  · exact login_same cfg a (trim pin)
  · exact Program.within_throw error

theorem verifyAndUnwrap_same (a pin publicKey : JsString) (envelope : OpaqueKeyringEnvelope) :
    (verifyAndUnwrap cfg a pin publicKey envelope).Within SameCache :=
  (Program.within_throwIf _ _).bind fun _ => (login_same cfg a (trim pin)).bind fun _ => Program.within_orThrow _ _

theorem deleteCredential_same (a : JsString) : (deleteCredential cfg a).Within SameCache := by
  apply get_same.bind
  intro s
  split
  · exact Program.within_pure _
  · refine Program.within_answer.bind fun finished => (Program.within_rethrow _).bind fun _ => ?_
    exact (modify_same fun _ => rfl).bind fun _ => modify_same fun _ => rfl

theorem idbGet_same (a : JsString) : (idbGet cfg a).Within SameCache :=
  Program.within_answer.bind fun _ => get_same.bind fun _ => Program.within_pure _

theorem idbPut_same (record : KeyPairRecord) : (idbPut cfg record).Within SameCache :=
  Program.within_answer.bind fun _ => modify_same fun _ => rfl

theorem idbDelete_same (a : JsString) : (idbDelete cfg a).Within SameCache :=
  Program.within_answer.bind fun _ => modify_same fun _ => rfl

theorem idbGet_bind_within {α : Type} (a : JsString) {f : Option KeyPairRecord → Method α}
    (hf : ∀ found, (∀ record, found = some record → record.account = cfg.lower a) →
      (f found).Within (OpensOnly account)) : (idbGet cfg a >>= f).Within (OpensOnly account) := by
  intro x s
  refine ⟨OpensOnly.refl s, hf _ ?_⟩
  intro record hrecord
  obtain ⟨stored, _, rfl⟩ := Option.map_eq_some_iff.mp hrecord
  rfl

theorem persistKeyPair_within (a publicKey privateKey pin : JsString) (existing : Option KeyPairRecord) :
    (persistKeyPair cfg a publicKey privateKey pin existing).Within (OpensOnly (some (cfg.lower a))) := by
  refine (Program.within_throwIf _ _).bind fun _ => (SameCache.opens (enrollAndWrap_same cfg _ _ _ _)).bind fun envelope =>
    Program.within_answer.bind fun x => (SameCache.opens (idbPut_same cfg _)).bind fun _ => ?_
  exact cachePrivateKey_within _ _

theorem migrate_within (record : KeyPairRecord) (privateKey passphrase : JsString) (isCustomPin : Bool) :
    (migrate cfg record privateKey passphrase isCustomPin).Within (OpensOnly (some (cfg.lower record.account))) :=
  (Program.within_throwIf _ _).bind fun _ => (persistKeyPair_within cfg _ _ _ _ _).bind fun _ =>
    Program.within_pure _

theorem unlockRecord_within (record : KeyPairRecord) (pin : JsString) :
    (unlockRecord cfg record pin).Within (OpensOnly (some (cfg.lower record.account))) := by
  unfold unlockRecord
  cases record.opaqueEnvelope with
  | some envelope => exact (SameCache.opens (verifyAndUnwrap_same cfg _ _ _ _)).tryCatch fun error => Program.within_throw _
  | none =>
    cases record.zkpp with
    | some envelope =>
      refine (Program.within_orThrow _ _).bind fun oprfKey => Program.within_answer.bind fun _ =>
        (Program.within_orThrow _ _).bind fun privateKey => ?_
      exact migrate_within cfg record _ _ _
    | none =>
      refine (Program.within_orThrow _ _).bind fun ciphertext => Program.within_answer.bind fun _ =>
        (Program.within_orThrow _ _).bind fun privateKey => ?_
      exact migrate_within cfg record _ _ _

theorem unlockStored_within (record : KeyPairRecord) (pin : JsString) :
    (unlockStored cfg record pin).Within (OpensOnly (some (cfg.lower record.account))) := by
  unfold unlockStored
  split
  · refine Program.Within.tryCatch ?_ fun error => Program.within_throw _
    exact Program.within_answer.bind fun _ => (Program.within_rethrow _).bind fun _ => Program.within_orThrow _ _
  · exact unlockRecord_within cfg record pin

theorem generateAndSaveKeyPair_within (a pin : JsString) (enablePasskey : Bool) :
    (generateAndSaveKeyPair cfg a pin enablePasskey).Within (OpensOnly (some (cfg.lower a))) := by
  have hcreate : ∀ privateKey, (requestedPasskey enablePasskey privateKey).Within
      (OpensOnly (some (cfg.lower a))) := by
    intro privateKey
    unfold requestedPasskey
    split
    · exact Program.within_answer.bind fun _ => Program.within_pure _
    · exact Program.within_pure _
  have hstore : ∀ publicKey privateKey pin passkey existing,
      (storeGenerated cfg (cfg.lower a) publicKey privateKey pin passkey existing).Within
        (OpensOnly (some (cfg.lower a))) := by
    intro publicKey privateKey pin passkey existing
    unfold storeGenerated
    split
    · simpa only [cfg.lower_lower] using persistKeyPair_within cfg (cfg.lower a) publicKey privateKey pin existing
    · cases passkey with
      | some passkey => exact Program.within_answer.bind fun _ => SameCache.opens (idbPut_same cfg _)
      | none => exact Program.within_throw _
  have hadd : ∀ pin passkey updated, (addPasskey cfg pin passkey updated).Within
      (OpensOnly (some (cfg.lower a))) := by
    intro pin passkey updated
    unfold addPasskey
    split
    · split
      · exact SameCache.opens (idbPut_same cfg _)
      · exact Program.within_pure _
    · exact Program.within_pure _
  refine (Program.within_throwIf _ _).bind fun _ => Program.within_answer.bind fun x => (hcreate _).bind fun passkey =>
    (SameCache.opens (idbGet_same cfg _)).bind fun existing => (hstore _ _ _ _ _).bind fun _ =>
      (SameCache.opens (idbGet_same cfg _)).bind fun updated =>
    (hadd _ _ _).bind fun _ => ?_
  exact (cachePrivateKey_within _ _).bind fun _ => Program.within_pure _

theorem saveKeyPair_within (a publicKey privateKey pin : JsString) :
    (saveKeyPair cfg a publicKey privateKey pin).Within (OpensOnly (some (cfg.lower a))) := by
  refine (Program.within_throwIf _ _).bind fun _ => Program.within_answer.bind fun _ =>
    (Program.within_throwIf _ _).bind fun _ => (Program.within_throwIf _ _).bind fun _ =>
    (SameCache.opens (idbGet_same cfg _)).bind fun existing => Program.Within.bind ?_ fun _ => Program.within_pure _
  simpa only [cfg.lower_lower] using persistKeyPair_within cfg (cfg.lower a) publicKey privateKey pin existing

theorem importKeyBackup_within (a : JsString) (backup : Option KeyPairBackupPayload)
    (backupPassphrase newPin : JsString) :
    (importKeyBackup cfg a backup backupPassphrase newPin).Within (OpensOnly (some (cfg.lower a))) := by
  refine (Program.within_throwIf _ _).bind fun _ => (Program.within_throwIf _ _).bind fun _ =>
    (Program.within_orThrow _ _).bind fun parsed => (Program.within_throwIf _ _).bind fun _ =>
    (Program.within_throwIf _ _).bind fun _ => Program.within_answer.bind fun _ =>
    (Program.within_orThrow _ _).bind fun privateKey => Program.Within.bind ?_ fun _ => Program.within_pure _
  simpa only [cfg.lower_lower] using saveKeyPair_within cfg (cfg.lower a) parsed.publicKey privateKey newPin

theorem getDecryptedPrivateKey_within (a pin : JsString) :
    (getDecryptedPrivateKey cfg a pin).Within (OpensOnly (some (cfg.lower a))) := by
  refine (Program.within_throwIf _ _).bind fun _ => (SameCache.opens get_same).bind fun s => ?_
  dsimp only
  split
  · exact Program.within_pure _
  · apply idbGet_bind_within
    intro found hfound
    cases hfilter : found.filter KeyPairRecord.hasKey with
    | none => exact Program.within_throw _
    | some record =>
      have haccount : cfg.lower record.account = cfg.lower a := by
        rw [hfound record (Option.filter_eq_some_iff.mp hfilter).1, cfg.lower_lower, cfg.lower_lower]
      refine Program.Within.bind (p := unlockStored cfg record pin) ?_ fun privateKey => ?_
      · simpa only [haccount] using unlockStored_within cfg record pin
      · exact (cachePrivateKey_within _ _).bind fun _ => Program.within_pure _

theorem deletion_same (a : JsString) :
    (do tryCatch (deleteCredential cfg (cfg.lower a)) fun _ => pure ()
        idbDelete cfg (cfg.lower a)
        return Reply.unit : Method Reply).Within SameCache := by
  refine ((deleteCredential_same cfg _).tryCatch fun _ => Program.within_pure _).bind fun _ => ?_
  exact (idbDelete_same cfg _).bind fun _ => Program.within_pure _

theorem deleteKeyPair_within (a : JsString) : (deleteKeyPair cfg a).Within (OpensOnly account) := by
  unfold deleteKeyPair
  split
  · exact Program.within_pure _
  · exact (wipeCachedPrivateKey_within _).bind fun _ => SameCache.opens (deletion_same cfg a)

theorem lockAccount_within (a : JsString) : (lockAccount cfg a).Within (OpensOnly account) := by
  unfold lockAccount
  split
  · exact Program.within_pure _
  · exact (wipeCachedPrivateKey_within _).bind fun _ =>
      SameCache.opens ((modify_same fun _ => rfl).bind fun _ => Program.within_pure _)

theorem clearSessionCache_within : clearSessionCache.Within (OpensOnly account) := by
  refine (Program.within_modify ?_).bind fun _ =>
    SameCache.opens ((modify_same fun _ => rfl).bind fun _ => Program.within_pure _)
  intro s a hopen
  cases hopen

theorem lockNow_within (accounts : List JsString) (random : JsString → JsString) :
    (lockNow cfg accounts random).Within (OpensOnly account) := by
  refine (Program.within_modify ?_).bind fun _ => clearSessionCache_within
  intro s a hopen
  left
  simp only [Keyring.Open] at hopen ⊢
  split at hopen
  · simpa using hopen
  · exact hopen

theorem program_within (op : Operation) : (program cfg op).Within (OpensOnly (op.opens cfg)) := by
  cases op with
  | generateAndSaveKeyPair account pin enablePasskey => exact generateAndSaveKeyPair_within cfg account pin enablePasskey
  | saveKeyPair account publicKey privateKey pin => exact saveKeyPair_within cfg account publicKey privateKey pin
  | importKeyBackup account backup passphrase pin => exact importKeyBackup_within cfg account backup passphrase pin
  | getDecryptedPrivateKey account pin => exact getDecryptedPrivateKey_within cfg account pin
  | deleteKeyPair account => exact deleteKeyPair_within cfg account
  | lockAccount account => exact lockAccount_within cfg account
  | clearSessionCache => exact clearSessionCache_within
  | lockNow accounts random => exact lockNow_within cfg accounts random

end Cache

/-! ## Locks -/

section Locks
variable (cfg : Config)

def CompletesDeletion (account : JsString) (t : Step) : Prop :=
  ∃ id x account' p, t.label = .resume id x ∧ t.pre.running id = some (.deleteKeyPair account', p) ∧
    cfg.lower account' = cfg.lower account ∧ t.post.running id = none

inductive Locks (account : JsString) (t : Step) : Prop
  | lockAccount {account' : JsString} (hcall : t.label = .call (.lockAccount account')) (hsome : account' ≠ [])
      (haccount : cfg.lower account' = cfg.lower account)
  | clearSessionCache (hcall : t.label = .call .clearSessionCache)
  | lockNow {accounts : List JsString} {random : JsString → JsString} (hcall : t.label = .call (.lockNow accounts random))
  | deleteKeyPair (hdeleted : CompletesDeletion cfg account t)

/-- A piece of the operation `id` opens the account: the operation has succeeded in saving the key, or in
unlocking it. -/
def OpenedBy (account : JsString) (id : ℕ) (op : Operation) (t : Step) : Prop :=
  t.pre.piece t.label = some (id, op) ∧ ¬ isUnlocked cfg account t.pre.shared ∧ isUnlocked cfg account t.post.shared

def StartedSinceLock (account : JsString) (id : ℕ) (op : Operation) (hist : List Step) : Prop :=
  Since (fun t => ¬ Locks cfg account t) (Starts id op) hist

/-- Since the account's last lock, an operation that unlocks, generates or saves its key was started, and it has
opened the account. -/
def Reopened (account : JsString) (hist : List Step) : Prop :=
  ∃ id op, op.opens cfg = some (cfg.lower account) ∧ StartedSinceLock cfg account id op hist ∧
    Since (fun t => ¬ Locks cfg account t) (OpenedBy cfg account id op) hist

structure LockEffective (hist : List Step) (s : Browser) : Prop where
  unlocked : ∀ account, isUnlocked cfg account s.shared → Reopened cfg account hist
  /-- A key that is returned before any await comes from the session cache. -/
  served : ∀ account pin key s', (getDecryptedPrivateKey cfg account pin).advance s.shared =
    (s', .done (.ok (.privateKey key))) → Reopened cfg account hist

/-- The piece that the step runs puts a key into the account's empty cache. -/
def Caches (account : JsString) (t : Step) : Prop :=
  t.pre.Achieves (program cfg) (fun s => s.Open (cfg.lower account)) t.label

/-- No operation that was in flight at a lock of an account is resumed into the piece that caches its key, and no
operation runs that piece while a deletion of the account is under way. -/
structure Timely (t : Step) (earlier : List Step) : Prop where
  resumed : ∀ account id x, t.label = .resume id x → Caches cfg account t →
    ∀ u ∈ earlier, Locks cfg account u → u.pre.running id = none
  undeleted : ∀ account, Caches cfg account t → ∀ id account' p,
    t.pre.running id = some (.deleteKeyPair account', p) → cfg.lower account' ≠ cfg.lower account

variable {cfg : Config} {hist : List Step} {s s' : Browser} {e : Event Operation Answers}

theorem isUnlocked_iff (account : JsString) (s : Keyring) :
    isUnlocked cfg account s ↔ account ≠ [] ∧ s.Open (cfg.lower account) := by
  simp [isUnlocked, Keyring.Open]

/-! ## Pieces -/

def Leaves (op : Operation) (s s' : Keyring) : Prop := (∃ account, op = .deleteKeyPair account) → SameCache s s'

theorem rest_leaves (op : Operation) (s : Keyring) : ((program cfg op).advance s).2.Within (Leaves op) := by
  by_cases hop : ∃ account, op = .deleteKeyPair account
  · obtain ⟨account, rfl⟩ := hop
    refine Program.Within.mono (R := SameCache) (fun _ _ h _ => h) ?_
    simp only [program, deleteKeyPair]
    split
    · trivial
    · exact ((deletion_same cfg account).advance SameCache.refl (fun _ _ _ => .trans) _).2
  · have hany : (program cfg op).Within fun _ _ => True := (program_within cfg op).mono fun _ _ _ => trivial
    exact (hany.advance (fun _ => trivial) (fun _ _ _ _ _ => trivial) s).2.mono fun _ _ _ h => (hop h).elim

/-- What is left of the operations under way. -/
structure Confined (cfg : Config) (s : Browser) : Prop where
  opens : s.Within fun op => OpensOnly (op.opens cfg)
  leaves : s.Within Leaves

theorem Confined.next (h : Confined cfg s) (hstep : Steps (program cfg) s e s') : Confined cfg s' := by
  constructor
  · exact (hstep.within (fun _ => OpensOnly.refl) (fun _ _ _ _ => OpensOnly.trans) (program_within cfg) h.opens).1
  · exact (hstep.within_resumed (fun _ s _ => .refl s) (fun _ _ _ _ h h' hop => (h hop).trans (h' hop)) rest_leaves
      h.leaves).1

theorem confined (h : BrowserRun cfg hist s) : Confined cfg s := by
  refine h.invariant ?_ fun s e s' hs hstep => hs.next hstep
  rintro s ⟨hrunning, _⟩
  constructor
  · intro id op p hsome
    simp [hrunning] at hsome
  · intro id op p hsome
    simp [hrunning] at hsome

theorem Confined.opened_by (h : Confined cfg s) (hstep : Steps (program cfg) s e s') {account : JsString}
    (hbefore : ¬ isUnlocked cfg account s.shared) (hafter : isUnlocked cfg account s'.shared) :
    ∃ id op, op.opens cfg = some (cfg.lower account) ∧ OpenedBy cfg account id op ⟨s, e, s'⟩ := by
  rw [isUnlocked_iff] at hafter hbefore
  have hclosed : ¬ s.shared.Open (cfg.lower account) := fun hopen => hbefore ⟨hafter.1, hopen⟩
  cases hpiece : s.piece e with
  | none =>
    rw [hstep.idle hpiece] at hafter
    exact (hclosed hafter.2).elim
  | some task =>
    obtain ⟨id, op⟩ := task
    have hopens := (hstep.within (fun _ => OpensOnly.refl) (fun _ _ _ _ => OpensOnly.trans) (program_within cfg)
      h.opens).2 id op hpiece _ hafter.2
    refine ⟨id, op, hopens.resolve_left hclosed, hpiece, ?_, ?_⟩
    · rwa [isUnlocked_iff]
    · rwa [isUnlocked_iff]

theorem Confined.deletion (h : Confined cfg s) (hstep : Steps (program cfg) s e s') {account : JsString}
    (hdeleted : CompletesDeletion cfg account ⟨s, e, s'⟩) : SameCache s.shared s'.shared := by
  obtain ⟨id, x, account', p, hlabel, hrunning, _, _⟩ := hdeleted
  exact (hstep.within_resumed (fun _ s _ => .refl s) (fun _ _ _ _ h h' hop => (h hop).trans (h' hop)) rest_leaves
    h.leaves).2 id x _ p hlabel hrunning ⟨account', rfl⟩

theorem lockAccount_closes (s : Keyring) {account : JsString} (hsome : account ≠ []) :
    ¬ ((lockAccount cfg account).advance s).1.Open (cfg.lower account) := by
  have hcache : ((lockAccount cfg account).advance s).1.sessionKeyCache (cfg.lower account) = none := by
    simp only [lockAccount, if_neg hsome]
    exact Function.update_self ..
  simp [Keyring.Open, hcache]

theorem Locks.locked (h : Confined cfg s) (hstep : Steps (program cfg) s e s') {account : JsString}
    (hlocks : Locks cfg account ⟨s, e, s'⟩)
    (hdeleted : CompletesDeletion cfg account ⟨s, e, s'⟩ → ¬ isUnlocked cfg account s.shared) :
    ¬ isUnlocked cfg account s'.shared := by
  rw [isUnlocked_iff]
  rintro ⟨hsome', hopen⟩
  cases hlocks with
  | @lockAccount account' hcall hsome haccount =>
    subst hstep hcall
    have hclosed := @lockAccount_closes cfg s.shared _ hsome
    rw [haccount] at hclosed
    exact hclosed hopen
  | clearSessionCache hcall =>
    subst hstep hcall
    cases hopen
  | lockNow hcall =>
    subst hstep hcall
    cases hopen
  | deleteKeyPair hcompletes =>
    rw [Keyring.Open, h.deletion hstep hcompletes] at hopen
    exact hdeleted hcompletes ((isUnlocked_iff ..).mpr ⟨hsome', hopen⟩)

theorem pure_then {α β : Type} (a : α) (f : α → Method β) : (pure a >>= f) = f a := rfl

theorem advance_get {α : Type} (f : Keyring → Method α) (s : Keyring) : (get >>= f).advance s = (f s).advance s := rfl

theorem unlocked_of_served {account pin key : JsString} {s s' : Keyring}
    (h : (getDecryptedPrivateKey cfg account pin).advance s = (s', .done (.ok (.privateKey key)))) :
    isUnlocked cfg account s := by
  by_cases hsome : account = []
  · simp only [getDecryptedPrivateKey, Program.throwIf, hsome] at h
    cases h
  · cases hcached : s.sessionKeyCache (cfg.lower account) with
    | none =>
      simp only [getDecryptedPrivateKey, Program.throwIf, if_neg hsome, pure_then, advance_get, readCachedPrivateKey,
        hcached, Option.filter_none] at h
      cases h
    | some cached => simp [isUnlocked, hsome, hcached]

/-! ## The law -/

theorem CompletesDeletion.piece {account : JsString} {t : Step} (h : CompletesDeletion cfg account t) :
    ∃ id account', t.pre.piece t.label = some (id, .deleteKeyPair account') := by
  obtain ⟨id, x, account', p, hlabel, hrunning, _⟩ := h
  refine ⟨id, account', ?_⟩
  simp only [hlabel, System.piece, hrunning, Option.map_some]

theorem Locks.opens_none {account : JsString} {t : Step} (h : Locks cfg account t) {id : ℕ} {op : Operation}
    (hpiece : t.pre.piece t.label = some (id, op)) : op.opens cfg = none := by
  cases h with
  | lockAccount hcall _ _ =>
    rw [hcall] at hpiece
    obtain ⟨⟩ := hpiece
    rfl
  | clearSessionCache hcall =>
    rw [hcall] at hpiece
    obtain ⟨⟩ := hpiece
    rfl
  | lockNow hcall =>
    rw [hcall] at hpiece
    obtain ⟨⟩ := hpiece
    rfl
  | deleteKeyPair hdeleted =>
    obtain ⟨id', account', hdeletion⟩ := hdeleted.piece
    obtain ⟨_, rfl⟩ := Prod.mk.inj (Option.some.inj (hpiece.symm.trans hdeletion))
    rfl

theorem Reopened.later {account : JsString} {t : Step} (h : Reopened cfg account hist)
    (hlocks : ¬ Locks cfg account t) : Reopened cfg account (t :: hist) := by
  obtain ⟨id, op, hopens, hstarted, hopened⟩ := h
  exact ⟨id, op, hopens, .inr ⟨hlocks, hstarted⟩, .inr ⟨hlocks, hopened⟩⟩

theorem LockEffective.of_unlocked (h : ∀ account, isUnlocked cfg account s.shared → Reopened cfg account hist) :
    LockEffective cfg hist s :=
  ⟨h, fun account _ _ _ hserved => h account (unlocked_of_served hserved)⟩

theorem deleteKeyPair_closes {account : JsString} {p : Method Reply}
    (hstep : Steps (program cfg) s (.call (.deleteKeyPair account)) s')
    (hrunning : s'.running s.next = some (.deleteKeyPair account, p)) : ¬ s'.shared.Open (cfg.lower account) := by
  subst hstep
  by_cases hsome : account = []
  · -- nothing is left to run
    have hdone : ((program cfg (.deleteKeyPair account)).advance s.shared).2.isDone = true := by
      simp only [program, deleteKeyPair, if_pos hsome]
      rfl
    simp only [exec, System.settle, hdone, if_true, Function.update_self] at hrunning
    cases hrunning
  · have hwiped : (program cfg (.deleteKeyPair account)).advance s.shared =
        ((wipeCachedPrivateKey (cfg.lower account) >>= fun _ => do
          tryCatch (deleteCredential cfg (cfg.lower account)) fun _ => pure ()
          idbDelete cfg (cfg.lower account)
          return Reply.unit : Method Reply)).advance s.shared := by
      simp only [program, deleteKeyPair, if_neg hsome]
    have hrest := ((deletion_same cfg account).advance SameCache.refl (fun _ _ _ => .trans)
      (s.shared.setCached (cfg.lower account) none)).1
    have hcache : ((program cfg (.deleteKeyPair account)).advance s.shared).1.sessionKeyCache =
        (s.shared.setCached (cfg.lower account) none).sessionKeyCache := by
      rw [hwiped]
      exact hrest
    simp [exec, System.settle, Keyring.Open, hcache, Keyring.setCached]

/-- What holds all along: accounts are open by right, and an account that is being deleted is closed. -/
structure Kept (cfg : Config) (hist : List Step) (s : Browser) : Prop where
  effective : LockEffective cfg hist s
  deleting : ∀ id account p, s.running id = some (.deleteKeyPair account, p) → ¬ s.shared.Open (cfg.lower account)

theorem Kept.locked (h : Kept cfg hist s) {account : JsString} (hdeleted : CompletesDeletion cfg account ⟨s, e, s'⟩) :
    ¬ isUnlocked cfg account s.shared := by
  obtain ⟨id, x, account', p, _, hrunning, haccount, _⟩ := hdeleted
  rw [isUnlocked_iff, ← haccount]
  exact fun hunlocked => h.deleting id account' p hrunning hunlocked.2

/-- An operation that caches a key in a timely step was started since the account's last lock. -/
theorem Timely.started (hrun : BrowserRun cfg hist s) (htimely : Timely cfg ⟨s, e, s'⟩ hist) {account : JsString}
    (hcaches : Caches cfg account ⟨s, e, s'⟩) (hlocks : ¬ Locks cfg account ⟨s, e, s'⟩) {id : ℕ} {op : Operation}
    (hpiece : s.piece e = some (id, op)) : StartedSinceLock cfg account id op (⟨s, e, s'⟩ :: hist) := by
  cases e with
  | call op' =>
    obtain ⟨rfl, rfl⟩ := Prod.mk.inj (Option.some.inj hpiece)
    exact .inl ⟨rfl, rfl⟩
  | resume id' x =>
    obtain ⟨⟨op', p⟩, hrunning, heq⟩ := Option.map_eq_some_iff.mp hpiece
    obtain ⟨rfl, rfl⟩ := Prod.mk.inj heq
    have hsince := running_since (fun s hstart => hstart.1) hrun hrunning
    obtain ⟨after, u, before, rfl, hstarts, hflight⟩ := (since_iff_split ..).mp hsince
    refine .inr ⟨hlocks, (since_iff_split ..).mpr ⟨after, u, before, rfl, hstarts, fun v hv hlocks' => ?_⟩⟩
    exact hflight v hv (htimely.resumed account id' x rfl hcaches v (List.mem_append_left _ hv) hlocks')

theorem Kept.next (hrun : BrowserRun cfg hist s) (h : Kept cfg hist s) (htimely : Timely cfg ⟨s, e, s'⟩ hist)
    (hstep : Steps (program cfg) s e s') : Kept cfg (⟨s, e, s'⟩ :: hist) s' := by
  have hconfined := confined hrun
  constructor
  · apply LockEffective.of_unlocked
    intro account hunlocked
    by_cases hlocks : Locks cfg account ⟨s, e, s'⟩
    · exact (hlocks.locked hconfined hstep h.locked hunlocked).elim
    · by_cases hopen : isUnlocked cfg account s.shared
      · exact (h.effective.unlocked account hopen).later hlocks
      · obtain ⟨id, op, hopens, hopened⟩ := hconfined.opened_by hstep hopen hunlocked
        rw [isUnlocked_iff] at hopen hunlocked
        have hcaches : Caches cfg account ⟨s, e, s'⟩ :=
          hstep.achieves (fun hbefore => hopen ⟨hunlocked.1, hbefore⟩) hunlocked.2
        exact ⟨id, op, hopens, htimely.started hrun hcaches hlocks hopened.1, .inl hopened⟩
  · intro id account p hrunning hopen
    rcases hstep.running hrunning with ⟨rfl, rfl⟩ | ⟨p', hbefore⟩
    · exact deleteKeyPair_closes hstep hrunning hopen
    · have hcaches : Caches cfg account ⟨s, e, s'⟩ := hstep.achieves (h.deleting id account p' hbefore) hopen
      exact htimely.undeleted account hcaches id account p' hbefore rfl

/-- Where all steps of a run are timely, locks are effective throughout it. -/
theorem lock_effective (h : BrowserRun cfg hist s) (htimely : ∀ t earlier, t :: earlier <:+ hist → Timely cfg t earlier) :
    ∀ early mid, Visits hist s early mid → LockEffective cfg early mid := by
  intro early mid hvisit
  have hkept : ∀ {hist : List Step} {s : Browser}, BrowserRun cfg hist s →
      (∀ t earlier, t :: earlier <:+ hist → Timely cfg t earlier) → Kept cfg hist s := by
    intro hist s hrun htimely
    induction hrun with
    | @start s hstart =>
      refine ⟨.of_unlocked fun account hunlocked => ?_, fun id account p hrunning => ?_⟩
      · simp [isUnlocked, hstart.2] at hunlocked
      · simp [hstart.1] at hrunning
    | next hrun hstep ih =>
      obtain ⟨hlast, hbefore⟩ := forall_suffix_cons.mp htimely
      exact (ih hbefore).next hrun hlast hstep
  exact (hkept (hvisit.run h) fun t earlier hsuffix => htimely t earlier (hsuffix.trans hvisit.suffix)).effective

end Locks

/-! ## Runs of one unlock -/

def passkeyRecord : KeyPairRecord :=
  KeyPairRecord.withPasskey { account := wallet, publicKey := [1], createdAt := 1, updatedAt := 1, hasPin := false }
    { key := { credentialId := [2], prfSalt := [3] }, plaintext := [1] }

def stored : Browser where
  shared := { records := fun account => if account = wallet then some passkeyRecord else none }

def played (events : List (Event Operation Answers)) : List Step × Browser :=
  executed (exec (program plainKeys)) stored events

theorem played_run (events : List (Event Operation Answers)) :
    BrowserRun plainKeys (played events).1 (played events).2 :=
  executed_run ⟨rfl, rfl⟩ (fun _ _ => rfl) events

/-- An unlock, up to its passkey prompt. -/
def unlocking : List (Event Operation Answers) := [.resume 0 {}, .call (.getDecryptedPrivateKey wallet [])]

/-- A lock, and then an unlock. -/
def relocked : List (Event Operation Answers) :=
  [.resume 1 {}, .resume 1 {}, .call (.getDecryptedPrivateKey wallet []), .call (.lockAccount wallet)]

theorem lock_effective_unlocking : isUnlocked plainKeys wallet (played relocked).2.shared ∧
    ∀ early mid, Visits (played relocked).1 (played relocked).2 early mid → LockEffective plainKeys early mid := by
  refine ⟨by decide, lock_effective (played_run relocked) fun t earlier hsuffix => ⟨?_, ?_⟩⟩
  · intro account id x _ _ u hu hlocks
    have hmem := hsuffix.subset (List.mem_cons_of_mem _ hu)
    simp only [played, relocked, executed, List.mem_cons, List.not_mem_nil, or_false] at hmem
    have hunlock : u.pre.piece u.label ≠ some (1, .getDecryptedPrivateKey wallet []) := fun hpiece => by
      cases hlocks.opens_none hpiece
    rcases hmem with rfl | rfl | rfl | rfl
    · exact (hunlock rfl).elim
    · exact (hunlock rfl).elim
    · exact (hunlock rfl).elim
    · rfl
  · intro account _ id account' p hrunning
    have hrun := ((played_run relocked).suffix_step hsuffix).1
    obtain ⟨u, hu, _, hlabel⟩ := (running_since (fun s hstart => hstart.1) hrun hrunning).once
    have hmem := hsuffix.subset (List.mem_cons_of_mem _ hu)
    simp only [played, relocked, executed, List.mem_cons, List.not_mem_nil, or_false] at hmem
    rcases hmem with rfl | rfl | rfl | rfl
    · cases hlabel
    · cases hlabel
    · cases hlabel
    · cases hlabel

/-- The wallet is locked while its unlock waits for the passkey. -/
theorem lock_undone : ¬ ∀ hist s, BrowserRun plainKeys hist s → LockEffective plainKeys hist s := by
  intro hall
  have heffective := hall _ _ (played_run (.resume 0 {} :: .call (.lockAccount wallet) :: unlocking))
  obtain ⟨id, op, hopens, hstarted, _⟩ := heffective.unlocked wallet (by decide)
  rcases hstarted with ⟨_, hlabel⟩ | ⟨_, ⟨_, hlabel⟩ | ⟨hlocks, _⟩⟩
  · cases hlabel
  · cases hlabel
    cases hopens
  · exact hlocks (.lockAccount rfl (by decide) rfl)

end ChainGuard.OffChain.ClientKeyring
