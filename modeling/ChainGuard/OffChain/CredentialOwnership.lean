import ChainGuard.OffChain.KeyringSteps

/-! Who replaces and deletes the credentials of the keyring server. Requests of one account that overlap
can get past each other's checks; in the runs in which none does, a credential is managed with its own
tokens only. -/
namespace ChainGuard.OffChain.OpaqueKeyring
open Methods History
set_option autoImplicit false

variable {cfg : Config} {s s' : Server} {e : Event} {knows : JsString → JsString → Prop}
  {hist : List (Transition Server Event)}

/-! ## Tokens and writes -/

/-- A login request verifies only when it was made with the password of the record that the login was
started with. -/
def Config.Ideal (cfg : Config) (knows : JsString → JsString → Prop) : Prop :=
  ∀ record startLoginRequest account state response request,
    cfg.startLogin record startLoginRequest account = some (state, response) →
    cfg.finishLogin request state account = true → ∃ r, record = some r ∧ knows request r

/-- The token was issued for credential `c`: at the end of the registration that stored it, or by a login
with its password. -/
def IssuedFor (cfg : Config) (knows : JsString → JsString → Prop) (hist : List (Transition Server Event))
    (account token : JsString) (c : ℕ) : Prop :=
  ∃ t ∈ hist,
    (∃ now, t.label = .resume c now token ∧ t.pre.pending c = some (.registrationStored account)) ∨
    ∃ loginId request now login credential,
      t.label = .call (.finishLogin (some loginId) (some request)) now token ∧
      t.pre.tables.logins loginId = some login ∧ login.account = account ∧
      login.credential = some credential ∧ credential.storedBy = c ∧
      cfg.finishLogin request login.serverLoginState account = true ∧ knows request credential.registrationRecord

/-- Request `id` carries the token, which was accepted when the request was let through. -/
def Carried (hist : List (Transition Server Event)) (id : ℕ) (account token : JsString)
    (entry : ManagementToken) : Prop :=
  ∃ t ∈ hist, ∃ now random, Accepted t.pre.tables now account token entry ∧
    ((t.label = .resume id now random ∧ ∃ record existing,
        t.pre.pending id = some (.registrationChecking account record (some token) (some existing))) ∨
      (id = t.pre.next ∧ ∃ field, t.label = .call (.deleteCredential field (some token)) now random))

/-- What a request was let through with, and for which stored credential. -/
structure Permit where
  account : JsString
  authority : Option ManagementToken
  seen : Option ℕ

/-- A request that is about to write. -/
def Pending.permit : Pending → Option Permit
  | .registrationWriting account _ authority seen => some { account, authority, seen }
  | .deletionWriting account authority seen => some { account, authority := some authority, seen }
  | _ => none

/-- No request has written the account's credential without having revoked its tokens yet. -/
def Server.Settled (s : Server) (account : JsString) : Prop :=
  ∀ id, s.pending id ≠ some (.registrationStored account) ∧ s.pending id ≠ some (.deletionStored account)

/-- Credentials are replaced and deleted with their own tokens, logins yield tokens for the credential
they were started with, and the tokens of an account are those of its credential. -/
structure OwnerManaged (cfg : Config) (knows : JsString → JsString → Prop)
    (hist : List (Transition Server Event)) (s : Server) : Prop where
  written : ∀ t earlier, t :: earlier <:+ hist → ∀ id now random p permit c,
    t.label = .resume id now random → t.pre.pending id = some p → p.permit = some permit →
    t.pre.stored permit.account = some c → ∃ token entry, Carried earlier id permit.account token entry ∧
      IssuedFor cfg knows earlier permit.account token c
  loggedIn : ∀ t ∈ hist, ∀ loginId request now random login,
    t.label = .call (.finishLogin (some loginId) (some request)) now random →
    t.pre.tables.logins loginId = some login → now < login.expiresAt →
    cfg.finishLogin request login.serverLoginState login.account = true →
    ∃ credential, login.credential = some credential ∧ t.pre.stored login.account = some credential.storedBy
  tokens : ∀ token entry, s.tables.managementTokens token = some entry → s.Settled entry.account →
    ∃ c, entry.issuedFor = some c ∧ s.stored entry.account = some c

/-- Nothing came between a request and what it relies on: what it writes over is still the credential it
was let through for, the record of a login is still stored, and no token is accepted while the tokens of
a replaced credential are still to be revoked. -/
def Undisturbed (cfg : Config) (s : Server) : Event → Prop
  | .call (.deleteCredential account (some token)) now _ =>
    ∀ entry, Accepted s.tables now ((account.map cfg.trimLower).getD []) token entry →
      s.Settled ((account.map cfg.trimLower).getD [])
  | .call (.finishLogin (some loginId) (some request)) now _ =>
    ∀ login, s.tables.logins loginId = some login → now < login.expiresAt →
      cfg.finishLogin request login.serverLoginState login.account = true →
      s.stored login.account = login.credential.map (·.storedBy)
  | .call _ _ _ => True
  | .resume id now _ =>
    match s.pending id with
    | some (.registrationChecking account _ (some token) (some _)) =>
      ∀ entry, Accepted s.tables now account token entry → s.Settled account
    | some (.registrationWriting account _ _ seen) => s.stored account = seen
    | some (.deletionWriting account _ seen) => s.stored account = seen
    | _ => True

/-! ## What holds of every run -/

structure Traced (cfg : Config) (knows : JsString → JsString → Prop) (hist : List (Transition Server Event))
    (s : Server) : Prop where
  logins : ∀ id login, s.tables.logins id = some login → login.Started cfg
  tokens : ∀ token entry, s.tables.managementTokens token = some entry →
    ∀ c, entry.issuedFor = some c → IssuedFor cfg knows hist entry.account token c
  permits : ∀ id p permit entry, s.pending id = some p → p.permit = some permit →
    permit.authority = some entry → ∃ token, Carried hist id permit.account token entry ∧
      ∀ c, entry.issuedFor = some c → IssuedFor cfg knows hist permit.account token c

theorem IssuedFor.later {t : Transition Server Event} {account token : JsString} {c : ℕ}
    (h : IssuedFor cfg knows hist account token c) : IssuedFor cfg knows (t :: hist) account token c := by
  obtain ⟨t', ht', hissued⟩ := h
  exact ⟨t', List.mem_cons_of_mem _ ht', hissued⟩

theorem Carried.later {t : Transition Server Event} {id : ℕ} {account token : JsString}
    {entry : ManagementToken} (h : Carried hist id account token entry) :
    Carried (t :: hist) id account token entry := by
  obtain ⟨t', ht', hcarried⟩ := h
  exact ⟨t', List.mem_cons_of_mem _ ht', hcarried⟩

theorem Issues.issuedFor (hideal : cfg.Ideal knows) (hstarted : ∀ id login, s.tables.logins id = some login →
    login.Started cfg) {token : JsString} {entry : ManagementToken} (h : Issues cfg s e token entry) {c : ℕ}
    (hc : entry.issuedFor = some c) : IssuedFor cfg knows (⟨s, e, s'⟩ :: hist) entry.account token c := by
  refine ⟨_, List.mem_cons_self .., ?_⟩
  cases h with
  | registration hp =>
    obtain rfl := Option.some.inj hc
    exact .inl ⟨_, rfl, hp⟩
  | login hfound hunexpired hproof =>
    obtain ⟨credential, hcredential, hstored⟩ := Option.map_eq_some_iff.mp hc
    obtain ⟨_, _, hstart⟩ := hstarted _ _ hfound
    obtain ⟨record, hrecord, hknows⟩ := hideal _ _ _ _ _ _ hstart hproof
    rw [hcredential, Option.map_some, Option.some.injEq] at hrecord
    rw [← hrecord] at hknows
    exact .inr ⟨_, _, _, _, credential, rfl, hfound, rfl, hcredential, hstored, hproof, hknows⟩

theorem Waits.authorized_by {p : Pending} {permit : Permit} {entry : ManagementToken} (h : Waits cfg s e p)
    (hpermit : p.permit = some permit) (hentry : permit.authority = some entry) :
    ∃ token, (∀ s' hist, Carried (⟨s, e, s'⟩ :: hist) (e.request s) permit.account token entry) ∧
      s.tables.managementTokens token = some entry ∧ entry.account = permit.account ∧
      permit.seen = s.stored permit.account := by
  cases h with
  | deletion haccepted =>
    obtain rfl := Option.some.inj hpermit
    obtain rfl := Option.some.inj hentry
    refine ⟨_, fun s' hist => ?_, haccepted.found, haccepted.account_eq, rfl⟩
    exact ⟨_, List.mem_cons_self .., _, _, haccepted, .inr ⟨rfl, _, rfl⟩⟩
  | authorized hp haccepted =>
    obtain rfl := Option.some.inj hpermit
    obtain rfl := Option.some.inj hentry
    refine ⟨_, fun s' hist => ?_, haccepted.found, haccepted.account_eq, rfl⟩
    exact ⟨_, List.mem_cons_self .., _, _, haccepted, .inl ⟨rfl, _, _, hp⟩⟩
  | unopposed =>
    obtain rfl := Option.some.inj hpermit
    cases hentry
  | _ => cases hpermit

theorem traced (hideal : cfg.Ideal knows) (h : KeyringRun cfg hist s) : Traced cfg knows hist s := by
  refine h.relates (R := Traced cfg knows) ?_ ?_
  · rintro s rfl
    refine ⟨?_, ?_, ?_⟩
    · intro _ _ h
      cases h
    · intro _ _ h
      cases h
    · intro _ _ _ _ h
      cases h
  · intro hist s e s' _ htraced hstep
    have hafter := hstep.after
    obtain ⟨r, hpending, hwaits⟩ := hafter.pending
    refine ⟨?_, ?_, ?_⟩
    · intro id login hlogin
      rcases hafter.tables.logins id login hlogin with hold | hstarted
      · exact htraced.logins id login hold
      · exact hstarted
    · intro token entry hentry c hc
      rcases hafter.tables.tokens token entry hentry with hold | hissued
      · exact (htraced.tokens token entry hold c hc).later
      · exact hissued.issuedFor hideal htraced.logins hc
    · intro id p permit entry hp hpermit hentry
      by_cases hid : id = e.request s
      · subst hid
        rw [hpending, Function.update_self] at hp
        obtain ⟨token, hcarried, hfound, haccount, _⟩ := (hwaits p hp).authorized_by hpermit hentry
        refine ⟨token, hcarried s' hist, fun c hc => ?_⟩
        rw [← haccount]
        exact (htraced.tokens token entry hfound c hc).later
      · rw [hpending, Function.update_of_ne hid] at hp
        obtain ⟨token, hcarried, hissued⟩ := htraced.permits id p permit entry hp hpermit hentry
        exact ⟨token, hcarried.later, fun c hc => (hissued c hc).later⟩

/-! ## What holds of undisturbed runs -/

/-- The request has not begun or has written, so that it does not write any more. -/
def Server.Wrote (s : Server) (c : ℕ) : Prop :=
  s.pending c = none ∨ ∃ account, s.pending c = some (.registrationStored account)

structure Undisrupted (s : Server) : Prop where
  fresh : ∀ id, s.next ≤ id → s.pending id = none
  stored : ∀ account c, s.stored account = some c → c < s.next ∧ s.Wrote c
  seen : ∀ id p permit c, s.pending id = some p → p.permit = some permit → permit.seen = some c →
    c < s.next ∧ s.Wrote c
  /-- What a registration has written stays until its tokens are revoked. -/
  current : ∀ id account, s.pending id = some (.registrationStored account) → s.stored account = some id
  apart : ∀ id p permit c, s.pending id = some p → p.permit = some permit → permit.seen = some c →
    s.pending c ≠ some (.registrationStored permit.account)
  permits : ∀ id p permit, s.pending id = some p → p.permit = some permit →
    (permit.authority = none → permit.seen = none) ∧
      ∀ entry, permit.authority = some entry → ∃ c, entry.issuedFor = some c ∧ permit.seen = some c
  tokens : ∀ token entry, s.tables.managementTokens token = some entry → s.Settled entry.account →
    ∃ c, entry.issuedFor = some c ∧ s.stored entry.account = some c

def Event.writes (s : Server) : Event → Option JsString
  | .call _ _ _ => none
  | .resume id _ _ => ((s.pending id).bind Pending.permit).map (·.account)

theorem written_of_other {account : JsString} (h : e.writes s ≠ some account) :
    written s e account = s.store account := by
  cases e with
  | call => rfl
  | resume id now random =>
    simp only [Event.writes] at h
    simp only [written]
    cases hp : s.pending id with
    | none => rfl
    | some p =>
      rw [hp] at h
      cases p with
      | registrationWriting account' =>
        have hne : account ≠ account' := by
          rintro rfl
          exact h rfl
        exact Function.update_of_ne hne _ _
      | deletionWriting account' =>
        have hne : account ≠ account' := by
          rintro rfl
          exact h rfl
        exact Function.update_of_ne hne _ _
      | _ => rfl

theorem After.stored_of_other (h : After cfg s e s') {account : JsString} (hother : e.writes s ≠ some account) :
    s'.stored account = s.stored account := by
  rw [Server.stored, Server.stored, h.store, written_of_other hother]

theorem After.stored_of_writes (h : After cfg s e s') {account : JsString} (hwrites : e.writes s = some account) :
    ∃ p permit, s.pending (e.request s) = some p ∧ p.permit = some permit ∧ permit.account = account ∧
      (s'.pending (e.request s) = some (.registrationStored account) ∧
          s'.stored account = some (e.request s) ∨
        s'.pending (e.request s) = some (.deletionStored account) ∧ s'.stored account = none) := by
  cases e with
  | call => cases hwrites
  | resume id now random =>
    simp only [Event.writes, Option.map_eq_some_iff, Option.bind_eq_some_iff] at hwrites
    obtain ⟨permit, ⟨p, hp, hpermit⟩, rfl⟩ := hwrites
    refine ⟨p, permit, hp, hpermit, rfl, ?_⟩
    have hstore := h.store
    cases p with
    | registrationWriting account record authority seen =>
      obtain rfl := Option.some.inj hpermit
      refine .inl ⟨h.stored_next _ _ _ _ rfl hp _ rfl, ?_⟩
      simp [Server.stored, hstore, written, hp, write, Event.request]
    | deletionWriting account authority seen =>
      obtain rfl := Option.some.inj hpermit
      refine .inr ⟨h.stored_next _ _ _ _ rfl hp _ rfl, ?_⟩
      simp [Server.stored, hstore, written, hp, write]
    | _ => cases hpermit

theorem Undisturbed.seen {id now : ℕ} {random : JsString} (h : Undisturbed cfg s (.resume id now random))
    {p : Pending} {permit : Permit} (hp : s.pending id = some p) (hpermit : p.permit = some permit) :
    s.stored permit.account = permit.seen := by
  simp only [Undisturbed, hp] at h
  cases p with
  | registrationWriting | deletionWriting =>
    obtain rfl := Option.some.inj hpermit
    exact h
  | _ => cases hpermit

theorem Undisturbed.settled (h : Undisturbed cfg s e) {p : Pending} {permit : Permit}
    {entry : ManagementToken} (hwaits : Waits cfg s e p) (hpermit : p.permit = some permit)
    (hentry : permit.authority = some entry) : s.Settled permit.account := by
  cases hwaits with
  | deletion haccepted =>
    obtain rfl := Option.some.inj hpermit
    exact h _ haccepted
  | authorized hp haccepted =>
    obtain rfl := Option.some.inj hpermit
    simp only [Undisturbed, hp] at h
    exact h _ haccepted
  | unopposed =>
    obtain rfl := Option.some.inj hpermit
    cases hentry
  | _ => cases hpermit

theorem Waits.seen {p : Pending} {permit : Permit} (h : Waits cfg s e p) (hpermit : p.permit = some permit)
    {c : ℕ} (hseen : permit.seen = some c) :
    (∃ entry, permit.authority = some entry) ∧ s.stored permit.account = some c := by
  cases h with
  | deletion | authorized =>
    obtain rfl := Option.some.inj hpermit
    exact ⟨⟨_, rfl⟩, hseen⟩
  | unopposed =>
    obtain rfl := Option.some.inj hpermit
    cases hseen
  | _ => cases hpermit

theorem After.wrote (h : After cfg s e s') {c : ℕ} (hlt : c < s.next) (hwrote : s.Wrote c) : s'.Wrote c := by
  obtain ⟨r, hpending, hwaits⟩ := h.pending
  by_cases hc : c = e.request s
  · left
    rw [hpending, hc, Function.update_self]
    cases r with
    | none => rfl
    | some p =>
      subst hc
      cases hwaits p rfl with
      | registration | login | deletion => exact absurd hlt (lt_irrefl _)
      | registrationRead hp | unopposed hp | authorized hp | registered hp | loginRead hp | removed hp =>
        rcases hwrote with hnone | ⟨_, hstored⟩
        · simp [Event.request, hp] at hnone
        · simp [Event.request, hp] at hstored
  · simpa only [Server.Wrote, hpending, Function.update_of_ne hc] using hwrote

/-- What replaces or deletes a credential does so where none of its own has yet to be revoked. -/
theorem Undisrupted.not_current_of_writes (hs : Undisrupted s) (hundisturbed : Undisturbed cfg s e)
    (h : After cfg s e s') {id : ℕ} {account : JsString} (hwrites : e.writes s = some account) :
    s.pending id ≠ some (.registrationStored account) := by
  intro hstored
  obtain ⟨p, permit, hp, hpermit, rfl, _⟩ := h.stored_of_writes hwrites
  cases e with
  | call => cases hwrites
  | resume id' now random =>
    have hseen := hundisturbed.seen hp hpermit
    rw [hs.current id _ hstored] at hseen
    exact hs.apart _ _ _ _ hp hpermit hseen.symm hstored

theorem After.pending_cases (h : After cfg s e s') {id : ℕ} {p : Pending} (hp : s'.pending id = some p) :
    id = e.request s ∧ Waits cfg s e p ∨ id ≠ e.request s ∧ s.pending id = some p := by
  obtain ⟨r, hpending, hwaits⟩ := h.pending
  by_cases hid : id = e.request s
  · rw [hpending, hid, Function.update_self] at hp
    exact .inl ⟨hid, hwaits p hp⟩
  · rw [hpending, Function.update_of_ne hid] at hp
    exact .inr ⟨hid, hp⟩

theorem Undisrupted.request_lt (hs : Undisrupted s) {id : ℕ} {p : Pending} (hp : s.pending id = some p) :
    id < s.next := by
  by_contra hle
  rw [hs.fresh id (not_lt.mp hle)] at hp
  cases hp

theorem After.fresh (h : After cfg s e s') (hfresh : ∀ id, s.next ≤ id → s.pending id = none) (id : ℕ)
    (hid : s'.next ≤ id) : s'.pending id = none := by
  have hnone : s.pending id = none := hfresh id (h.next_le.trans hid)
  by_contra hsome
  obtain ⟨p, hp⟩ := Option.ne_none_iff_exists'.mp hsome
  rcases h.pending_cases hp with ⟨rfl, _⟩ | ⟨_, hold⟩
  · exact absurd (h.request_lt hsome hnone) (not_lt.mpr hid)
  · rw [hnone] at hold
    cases hold

theorem Undisrupted.stored_next (hs : Undisrupted s) (h : After cfg s e s') {account : JsString} {c : ℕ}
    (hc : s'.stored account = some c) : c < s'.next ∧ s'.Wrote c := by
  by_cases hwrites : e.writes s = some account
  · obtain ⟨p, _, hp, _, _, ⟨hpending, hstored⟩ | ⟨_, hstored⟩⟩ := h.stored_of_writes hwrites
    · obtain rfl := Option.some.inj (hstored.symm.trans hc)
      exact ⟨(hs.request_lt hp).trans_le h.next_le, .inr ⟨_, hpending⟩⟩
    · rw [hstored] at hc
      cases hc
  · rw [h.stored_of_other hwrites] at hc
    obtain ⟨hlt, hwrote⟩ := hs.stored _ _ hc
    exact ⟨hlt.trans_le h.next_le, h.wrote hlt hwrote⟩

theorem Undisrupted.seen_next (hs : Undisrupted s) (h : After cfg s e s') {id : ℕ} {p : Pending}
    {permit : Permit} {c : ℕ} (hp : s'.pending id = some p) (hpermit : p.permit = some permit)
    (hseen : permit.seen = some c) : c < s'.next ∧ s'.Wrote c := by
  have hbefore : c < s.next ∧ s.Wrote c := by
    rcases h.pending_cases hp with ⟨_, hwaits⟩ | ⟨_, hold⟩
    · exact hs.stored _ _ (hwaits.seen hpermit hseen).2
    · exact hs.seen _ _ _ _ hold hpermit hseen
  exact ⟨hbefore.1.trans_le h.next_le, h.wrote hbefore.1 hbefore.2⟩

theorem Undisrupted.current_next (hs : Undisrupted s) (h : After cfg s e s')
    (hundisturbed : Undisturbed cfg s e) {id : ℕ} {account : JsString}
    (hp : s'.pending id = some (.registrationStored account)) : s'.stored account = some id := by
  rcases h.pending_cases hp with ⟨rfl, hwaits⟩ | ⟨_, hold⟩
  · have hwrites : e.writes s = some account := by
      cases hwaits with
      | registered hp => simp [Event.writes, hp, Pending.permit]
    obtain ⟨_, _, _, _, _, ⟨_, hstored⟩ | ⟨hpending, _⟩⟩ := h.stored_of_writes hwrites
    · exact hstored
    · rw [hpending] at hp
      cases hp
  · have hother : e.writes s ≠ some account :=
      fun hwrites => hs.not_current_of_writes hundisturbed h hwrites hold
    rw [h.stored_of_other hother]
    exact hs.current _ _ hold

theorem Undisrupted.apart_next (hs : Undisrupted s) (h : After cfg s e s')
    (hundisturbed : Undisturbed cfg s e) {id : ℕ} {p : Pending} {permit : Permit} {c : ℕ}
    (hp : s'.pending id = some p) (hpermit : p.permit = some permit) (hseen : permit.seen = some c) :
    s'.pending c ≠ some (.registrationStored permit.account) := by
  intro hc
  rcases h.pending_cases hc with ⟨hcr, hwaitsc⟩ | ⟨hcr, holdc⟩
  · -- the event would have written for a request that wrote before
    rcases h.pending_cases hp with ⟨hid, _⟩ | ⟨_, hold⟩
    · rw [hid, ← hcr, hc, Option.some.injEq] at hp
      subst hp
      cases hpermit
    · obtain ⟨hlt, hwrote⟩ := hs.seen _ _ _ _ hold hpermit hseen
      cases hwaitsc with
      | registered hwriting =>
        subst hcr
        rcases hwrote with hnone | ⟨_, hstored⟩
        · simp [hwriting] at hnone
        · simp [hwriting] at hstored
  · rcases h.pending_cases hp with ⟨_, hwaits⟩ | ⟨_, hold⟩
    · obtain ⟨⟨entry, hentry⟩, _⟩ := hwaits.seen hpermit hseen
      exact (hundisturbed.settled hwaits hpermit hentry c).1 holdc
    · exact hs.apart _ _ _ _ hold hpermit hseen holdc

theorem Undisrupted.permits_next (hs : Undisrupted s) (h : After cfg s e s')
    (hundisturbed : Undisturbed cfg s e) {id : ℕ} {p : Pending} {permit : Permit}
    (hp : s'.pending id = some p) (hpermit : p.permit = some permit) :
    (permit.authority = none → permit.seen = none) ∧
      ∀ entry, permit.authority = some entry → ∃ c, entry.issuedFor = some c ∧ permit.seen = some c := by
  rcases h.pending_cases hp with ⟨_, hwaits⟩ | ⟨_, hold⟩
  · constructor
    · intro hnone
      by_contra hsome
      obtain ⟨c, hc⟩ := Option.ne_none_iff_exists'.mp hsome
      obtain ⟨⟨entry, hentry⟩, _⟩ := hwaits.seen hpermit hc
      rw [hnone] at hentry
      cases hentry
    · intro entry hentry
      obtain ⟨token, _, hfound, haccount, hseen⟩ := hwaits.authorized_by hpermit hentry
      have hsettled := hundisturbed.settled hwaits hpermit hentry
      rw [← haccount] at hsettled
      obtain ⟨c, hc, hstored⟩ := hs.tokens token entry hfound hsettled
      exact ⟨c, hc, by rw [hseen, ← haccount, hstored]⟩
  · exact hs.permits _ _ _ hold hpermit

theorem Undisrupted.settled_before (hs : Undisrupted s) (h : After cfg s e s') {account : JsString}
    (hends : ¬ Ends s e account) (hsettled : s'.Settled account) : s.Settled account := by
  obtain ⟨r, hpending, _⟩ := h.pending
  intro id
  by_contra hwaiting
  rw [not_and_or, not_not, not_not] at hwaiting
  by_cases hid : id = e.request s
  · cases e with
    | call =>
      have hnone : s.pending id = none := hs.fresh id hid.ge
      simp [hnone] at hwaiting
    | resume id' now random =>
      obtain rfl : id = id' := hid
      exact hends ⟨id, now, random, rfl, hwaiting⟩
  · have hkept : s'.pending id = s.pending id := by rw [hpending, Function.update_of_ne hid]
    rw [← hkept] at hwaiting
    exact hwaiting.elim (hsettled id).1 (hsettled id).2

theorem Undisrupted.tokens_next (hs : Undisrupted s) (h : After cfg s e s')
    (hundisturbed : Undisturbed cfg s e) (hideal : cfg.Ideal knows)
    (hstarted : ∀ id login, s.tables.logins id = some login → login.Started cfg) {token : JsString}
    {entry : ManagementToken} (hentry : s'.tables.managementTokens token = some entry)
    (hsettled : s'.Settled entry.account) :
    ∃ c, entry.issuedFor = some c ∧ s'.stored entry.account = some c := by
  have hissued : Issues cfg s e token entry →
      ∃ c, entry.issuedFor = some c ∧ s'.stored entry.account = some c := by
    intro hissues
    cases hissues with
    | @registration id now _ account hp =>
      have hother : (Event.resume id now token).writes s ≠ some account := by
        simp [Event.writes, hp, Pending.permit]
      exact ⟨id, rfl, (h.stored_of_other hother).trans (hs.current _ _ hp)⟩
    | @login _ _ _ _ login hfound hunexpired hproof =>
      obtain ⟨_, _, hstart⟩ := hstarted _ _ hfound
      obtain ⟨_, hrecord, _⟩ := hideal _ _ _ _ _ _ hstart hproof
      obtain ⟨credential, hcredential, _⟩ := Option.map_eq_some_iff.mp hrecord
      have hstored : s.stored login.account = login.credential.map (·.storedBy) :=
        hundisturbed _ hfound hunexpired hproof
      rw [hcredential, Option.map_some] at hstored
      exact ⟨_, by rw [hcredential, Option.map_some], (h.stored_of_other nofun).trans hstored⟩
  by_cases hends : Ends s e entry.account
  · exact hissued (h.tables.revoked _ hends token entry hentry rfl)
  rcases h.tables.tokens token entry hentry with hold | hnew
  · obtain ⟨c, hc, hstored⟩ := hs.tokens token entry hold (hs.settled_before h hends hsettled)
    refine ⟨c, hc, ?_⟩
    rw [h.stored_of_other, hstored]
    intro hwrites
    obtain ⟨_, _, _, _, _, ⟨hwaiting, _⟩ | ⟨hwaiting, _⟩⟩ := h.stored_of_writes hwrites
    · exact (hsettled _).1 hwaiting
    · exact (hsettled _).2 hwaiting
  · exact hissued hnew

theorem Undisrupted.next (hs : Undisrupted s) (h : After cfg s e s') (hundisturbed : Undisturbed cfg s e)
    (hideal : cfg.Ideal knows) (hstarted : ∀ id login, s.tables.logins id = some login → login.Started cfg) :
    Undisrupted s' where
  fresh := h.fresh hs.fresh
  stored _ _ hc := hs.stored_next h hc
  seen _ _ _ _ hp hpermit hseen := hs.seen_next h hp hpermit hseen
  current _ _ hp := hs.current_next h hundisturbed hp
  apart _ _ _ _ hp hpermit hseen := hs.apart_next h hundisturbed hp hpermit hseen
  permits _ _ _ hp hpermit := hs.permits_next h hundisturbed hp hpermit
  tokens _ _ hentry hsettled := hs.tokens_next h hundisturbed hideal hstarted hentry hsettled

theorem undisrupted (hideal : cfg.Ideal knows) (h : KeyringRun cfg hist s)
    (hundisturbed : ∀ t ∈ hist, Undisturbed cfg t.pre t.label) : Undisrupted s := by
  refine h.relates_of (R := fun _ s => Undisrupted s) ?_ ?_ hundisturbed
  · rintro s rfl
    exact ⟨fun _ _ => rfl, nofun, nofun, nofun, nofun, nofun, nofun⟩
  · intro hist s e s' hrun hs hundisturbed hstep
    exact hs.next hstep.after hundisturbed hideal (traced hideal hrun).logins

/-! ## Runs -/

/-- In every run of undisturbed steps only the owner of the current credential manages it. -/
theorem owner_managed (hideal : cfg.Ideal knows) (h : KeyringRun cfg hist s)
    (hundisturbed : ∀ t ∈ hist, Undisturbed cfg t.pre t.label) : OwnerManaged cfg knows hist s := by
  refine ⟨?_, ?_, (undisrupted hideal h hundisturbed).tokens⟩
  · intro t earlier hsuffix id now random p permit c hlabel hp hpermit hstored
    obtain ⟨hrun, _⟩ := h.suffix_step hsuffix
    have hbefore : ∀ t' ∈ earlier, Undisturbed cfg t'.pre t'.label :=
      fun t' ht' => hundisturbed t' (hsuffix.subset (List.mem_cons_of_mem _ ht'))
    have hseen : permit.seen = some c := by
      have hstep := hundisturbed t (hsuffix.subset (List.mem_cons_self ..))
      rw [hlabel] at hstep
      rw [← hstep.seen hp hpermit, hstored]
    obtain ⟨hunopposed, hauthorized⟩ :=
      (undisrupted hideal hrun hbefore).permits id p permit hp hpermit
    cases hauthority : permit.authority with
    | none =>
      rw [hunopposed hauthority] at hseen
      cases hseen
    | some entry =>
      obtain ⟨c', hissued, hc'⟩ := hauthorized entry hauthority
      obtain rfl := Option.some.inj (hc'.symm.trans hseen)
      obtain ⟨token, hcarried, htraced⟩ :=
        (traced hideal hrun).permits id p permit entry hp hpermit hauthority
      exact ⟨token, entry, hcarried, htraced _ hissued⟩
  · intro t ht loginId request now random login hlabel hlogin hunexpired hproof
    obtain ⟨_, _, hrun, _⟩ := h.of_mem ht
    obtain ⟨_, _, hstart⟩ := (traced hideal hrun).logins _ _ hlogin
    obtain ⟨_, hrecord, _⟩ := hideal _ _ _ _ _ _ hstart hproof
    obtain ⟨credential, hcredential, _⟩ := Option.map_eq_some_iff.mp hrecord
    have hstep := hundisturbed t ht
    rw [hlabel] at hstep
    have hstored := hstep login hlogin hunexpired hproof
    rw [hcredential, Option.map_some] at hstored
    exact ⟨credential, hcredential, hstored⟩

/-- A library whose messages are the records themselves. -/
def plainConfig : Config where
  trimLower := id
  createRegistrationResponse _ registrationRequest := some registrationRequest
  startLogin record _ _ := some (record.getD [], record.getD [])
  finishLogin request state _ := !state.isEmpty && request == state

theorem plainConfig_ideal : plainConfig.Ideal Eq := by
  intro record _ _ state _ request hstart hproof
  obtain ⟨rfl, _⟩ := Prod.mk.inj (Option.some.inj hstart)
  simp only [plainConfig, Bool.and_eq_true, Bool.not_eq_true', beq_iff_eq] at hproof
  obtain ⟨hnonempty, rfl⟩ := hproof
  cases record with
  | none => cases hnonempty
  | some r => exact ⟨r, rfl, rfl⟩

/-- The first registration of an account, with the given record. -/
def registering (record : UInt16) : Event :=
  .call (.finishRegistration (some (js "ada")) (some (List.replicate 16 record)) none) 0 []

/-- The run of some events on an empty store, newest first. -/
def served (events : List Event) : List (Transition Server Event) × Server :=
  executed (fun s e => (exec plainConfig s e).1) {} events

theorem served_run (events : List Event) : KeyringRun plainConfig (served events).1 (served events).2 := by
  refine executed_run ?_ ?_ events
  · rfl
  · intro s e
    rfl

/-- The next piece of a request. -/
def resuming (id : ℕ) : Event := .resume id 0 [id.toUInt16]

/-- Only the request that runs waits, and what it was let through for is still stored. -/
def InTurn (s : Server) : Event → Prop
  | .call (.finishLogin (some loginId) _) _ _ =>
    ∀ login ∈ s.tables.logins loginId, s.stored login.account = login.credential.map (·.storedBy)
  | e => (∀ id < s.next, s.pending id ≠ none → id = e.request s) ∧
    ∀ p ∈ s.pending (e.request s), ∀ permit ∈ p.permit, s.stored permit.account = permit.seen

instance (s : Server) (e : Event) : Decidable (InTurn s e) := by
  unfold InTurn
  split <;> infer_instance

theorem InTurn.undisturbed (hfresh : ∀ id, s.next ≤ id → s.pending id = none) (h : InTurn s e) :
    Undisturbed cfg s e := by
  have hothers : (∀ id < s.next, s.pending id ≠ none → id = e.request s) → ∀ id, id ≠ e.request s →
      s.pending id = none := by
    intro halone id hne
    by_contra hsome
    exact hne (halone id (not_le.mp fun hle => hsome (hfresh id hle)) hsome)
  unfold Undisturbed
  split
  · intro entry _ id
    have hnone : s.pending id = none := (eq_or_ne id s.next).elim (fun heq => hfresh id heq.ge) (hothers h.1 id)
    rw [hnone]
    exact ⟨nofun, nofun⟩
  · exact fun login hlogin _ _ => h login hlogin
  · trivial
  · next id _ _ =>
    split
    · next hp =>
      intro entry _ other
      by_cases hother : other = id
      · rw [hother, hp]
        exact ⟨nofun, nofun⟩
      · rw [hothers h.1 other hother]
        exact ⟨nofun, nofun⟩
    · next hp => exact h.2 _ hp _ rfl
    · next hp => exact h.2 _ hp _ rfl
    · trivial

/-- A registration, a login, a replacement with its token, and a deletion with the token of the replacement. -/
def managed : List Event :=
  [resuming 4, resuming 4, .call (.deleteCredential (some (js "ada")) (some [3])) 0 [],
    resuming 3, resuming 3, resuming 3, resuming 3,
    .call (.finishRegistration (some (js "ada")) (some (List.replicate 16 98)) (some [7])) 0 [],
    .call (.finishLogin (some (List.replicate 16 108)) (some (List.replicate 16 97))) 0 [7],
    .resume 1 0 (List.replicate 16 108), resuming 1,
    .call (.startLogin (some (js "ada")) (some (List.replicate 16 120))) 0 [],
    resuming 0, resuming 0, resuming 0, resuming 0, registering 97]

theorem owner_managed_registration :
    OwnerManaged plainConfig Eq (served managed).1 (served managed).2 ∧
    (∃ t ∈ (served managed).1, t.pre.stored (js "ada") = some 0 ∧ t.post.stored (js "ada") = some 3) ∧
    (served managed).2.stored (js "ada") = none := by
  have hinturn : ∀ t ∈ (served managed).1, InTurn t.pre t.label := by decide +kernel
  refine ⟨owner_managed plainConfig_ideal (served_run _) fun t ht => (hinturn t ht).undisturbed ?_, by decide +kernel⟩
  obtain ⟨_, _, hrun, _⟩ := (served_run managed).of_mem ht
  refine hrun.invariant (I := fun s => ∀ id, s.next ≤ id → s.pending id = none) ?_ ?_
  · rintro s rfl _ _
    rfl
  · exact fun _ _ _ hfresh hstep => hstep.after.fresh hfresh

/-- Two registrations that both read the store before either has written to it. -/
def racing : List Event :=
  [resuming 1, resuming 0, resuming 1, resuming 0, resuming 1, resuming 0, registering 98, registering 97]

/-- A step that carries no management token. -/
def Tokenless (t : Transition Server Event) : Prop :=
  match t.pre.pending 1, t.label with
  | some (.registrationChecking _ _ (some _) _), _ => False
  | _, .call (.deleteCredential _ _) _ _ => False
  | _, _ => True

theorem racing_carried (account token : JsString) (entry : ManagementToken) :
    ¬ Carried (served racing.tail).1 1 account token entry := by
  have hpieces : ∀ t ∈ (served racing.tail).1, Tokenless t := by
    simp only [Tokenless, racing, List.tail_cons, served, executed, List.forall_mem_cons]
    refine ⟨trivial, trivial, trivial, trivial, trivial, trivial, trivial, ?_⟩
    intro t ht
    cases ht
  rintro ⟨t, ht, now, random, _, ⟨_, record, existing, hchecking⟩ | ⟨_, field, hlabel⟩⟩
  · have hpiece := hpieces t ht
    rw [Tokenless, hchecking] at hpiece
    exact hpiece
  · have hpiece := hpieces t ht
    rw [Tokenless, hlabel] at hpiece
    split at hpiece
    · exact hpiece
    · exact hpiece
    · next hother => exact hother _ _ _ _ rfl

/-- Of two concurrent first registrations the second replaces the credential of the first without a
token, and both succeed. -/
theorem registrations_race :
    KeyringRun plainConfig (served racing).1 (served racing).2 ∧
    plainConfig.Ideal Eq ∧
    (exec plainConfig (served racing).2 (resuming 0)).2 =
      some (.ok (.managementToken [0])) ∧
    (exec plainConfig (served (resuming 0 :: racing)).2 (resuming 1)).2 =
      some (.ok (.managementToken [1])) ∧
    ¬ OwnerManaged plainConfig Eq (served racing).1 (served racing).2 := by
  refine ⟨served_run _, plainConfig_ideal, by decide +kernel, by decide +kernel, ?_⟩
  intro hmanaged
  obtain ⟨token, entry, hcarried, _⟩ := hmanaged.written _ _ (List.suffix_refl _) 1 0 [1]
    (.registrationWriting (js "ada") (List.replicate 16 98) none none) _ 0 rfl (by decide +kernel) rfl
    (by decide +kernel)
  exact racing_carried _ _ _ hcarried

end ChainGuard.OffChain.OpaqueKeyring
