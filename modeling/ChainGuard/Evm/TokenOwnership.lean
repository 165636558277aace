import ChainGuard.Evm.TokenBoundAccounts

/-! The accounts of a run are those of their bindings for good, and each is driven by the owner of its
token on this chain, whatever chain it is bound to. -/
namespace ChainGuard.Evm.TokenBoundAccounts
open CallStack Guarded History
set_option autoImplicit false

variable {chain : Chain} {spoo : Address} {T : Set Binding} {w w' : World} {s s' : State} {l : Label}
  {hist : List (Transition State Label)}

/-! ## Addresses -/

/-- No two of the strings that are hashed for the bindings have one hash, or, at last, one address. -/
structure CollisionFree (chain : Chain) (T : Set Binding) : Prop where
  contexts : Set.InjOn chain.keccak256 ((fun x => encodeContext x.context) '' T)
  codes : Set.InjOn chain.keccak256 ((fun x => proxyCode x.implementation) '' T)
  addresses : Set.InjOn (fun b => addressOf (chain.keccak256 b))
    ((fun x => addressPreimage chain.self (chain.keccak256 (proxyCode x.implementation))
      (deriveSalt chain x.context)) '' T)

theorem encodeContext_inj {c c' : AccountContext} (h : encodeContext c = encodeContext c') : c = c' := by
  simp only [encodeContext, abiEncode, List.flatMap_cons, List.flatMap_nil, List.append_nil] at h
  obtain ⟨hchain, h⟩ := List.append_inj h (by simp)
  obtain ⟨hcontract, h⟩ := List.append_inj h (by simp)
  obtain ⟨htoken, hsalt⟩ := List.append_inj h (by simp)
  have hlt : ∀ a : Address, a.toNat < 2 ^ 256 := fun a => a.isLt.trans (by decide)
  cases c
  cases c'
  rw [AccountContext.mk.injEq]
  refine ⟨BitVec.eq_of_toNat_eq ?_, BitVec.eq_of_toNat_eq ?_, BitVec.eq_of_toNat_eq ?_, BitVec.eq_of_toNat_eq ?_⟩
  · exact word_inj (BitVec.isLt _) (BitVec.isLt _) hchain
  · exact word_inj (hlt _) (hlt _) hcontract
  · exact word_inj (BitVec.isLt _) (BitVec.isLt _) htoken
  · exact word_inj (BitVec.isLt _) (BitVec.isLt _) hsalt

theorem proxyCode_inj {a a' : Address} (h : proxyCode a = proxyCode a') : a = a' := by
  obtain ⟨h, _⟩ := List.append_inj' h rfl
  obtain ⟨_, h⟩ := List.append_inj h rfl
  exact BitVec.eq_of_toNat_eq (bytesBE_inj a.isLt a'.isLt h)

theorem addressPreimage_inj {deployer : Address} {codeHash codeHash' salt32 salt32' : Bytes32}
    (h : addressPreimage deployer codeHash salt32 = addressPreimage deployer codeHash' salt32') :
    codeHash = codeHash' ∧ salt32 = salt32' := by
  obtain ⟨h, hcode⟩ := List.append_inj' h (by simp)
  obtain ⟨_, hsalt⟩ := List.append_inj' h (by simp)
  exact ⟨BitVec.eq_of_toNat_eq (word_inj codeHash.isLt codeHash'.isLt hcode),
    BitVec.eq_of_toNat_eq (word_inj salt32.isLt salt32'.isLt hsalt)⟩

theorem CollisionFree.account_injOn (h : CollisionFree chain T) : Set.InjOn (account chain) T := by
  intro x hx y hy haccount
  have hpreimage := h.addresses (Set.mem_image_of_mem _ hx) (Set.mem_image_of_mem _ hy) haccount
  obtain ⟨hcode, hsalt⟩ := addressPreimage_inj hpreimage
  have himplementation := proxyCode_inj (h.codes (Set.mem_image_of_mem _ hx) (Set.mem_image_of_mem _ hy) hcode)
  have hcontext := encodeContext_inj (h.contexts (Set.mem_image_of_mem _ hx) (Set.mem_image_of_mem _ hy) hsalt)
  cases x
  cases y
  exact congrArg₂ _ himplementation hcontext

/-! ## What a step does to the accounts -/

def deploy (chain : Chain) (w : World) (x : Binding) : World :=
  { w with
    code := Function.update w.code (account chain x) (some x.implementation)
    contexts := Function.update w.contexts (account chain x) x.context }

theorem createAccount_ok {x : Binding} {a : Address} (h : createAccount chain w x = .ok (w', a)) :
    a = account chain x ∧
      (w' = w ∨ w.code (account chain x) = none ∧ w' = deploy chain w x) := by
  rw [createAccount] at h
  dsimp only at h
  split at h
  · obtain ⟨rfl, rfl⟩ := Prod.mk.inj (Except.ok.inj h)
    exact ⟨rfl, .inl rfl⟩
  · next hcode =>
    simp only [revertIf_bind, pure_ok, Prod.mk.injEq] at h
    obtain ⟨_, rfl, rfl⟩ := h
    rw [Bool.not_eq_true, Option.isSome_eq_false_iff, Option.isNone_iff_eq_none] at hcode
    exact ⟨rfl, .inr ⟨hcode, rfl⟩⟩

/-- A binding is deployed where there is no code, or contexts stay and accounts stay or disappear. -/
inductive Effect (chain : Chain) (T : Set Binding) (w w' : World) : Prop
  | deployed (x : Binding) : x ∈ T → w.code (account chain x) = none →
      w'.code = Function.update w.code (account chain x) (some x.implementation) →
      w'.contexts = Function.update w.contexts (account chain x) x.context → Effect chain T w w'
  | kept : w'.contexts = w.contexts → (∀ a, w'.code a = w.code a ∨ w'.code a = none) → Effect chain T w w'

theorem Effect.refl (w : World) : Effect chain T w w := .kept rfl fun _ => .inl rfl

theorem createAccount_effect {x : Binding} {a : Address} (hx : x ∈ T) (h : createAccount chain w x = .ok (w', a)) :
    Effect chain T w w' := by
  obtain ⟨_, rfl | ⟨hcode, rfl⟩⟩ := createAccount_ok h
  · exact .refl _
  · exact .deployed x hx hcode rfl rfl

/-- What an accepted `executeCall` requires and does before it calls the target. -/
structure Executes (chain : Chain) (w : World) (e : Execution) (w' : World) : Prop where
  owned : w.ownerOf (BitVec.ofNat 256 chain.chainId) (w.contexts e.account).tokenContract
    (w.contexts e.account).tokenId = some e.sender
  unlocked : w.locked e.account = false
  code : w'.code = w.code
  contexts : w'.contexts = w.contexts
  locked : w'.locked = Function.update w.locked e.account true
  state : w'.state = Function.update w.state e.account (w.state e.account + 1)

theorem executeCall_ok {e : Execution} (h : executeCall chain w e = .ok w') : Executes chain w e w' := by
  simp only [executeCall, bind_ok, revertIf_ok, exists_const, pure_ok, not_not, Bool.not_eq_true] at h
  obtain ⟨o, howner, rfl, hunlocked, _, rfl⟩ := h
  refine ⟨?_, hunlocked, rfl, rfl, rfl, rfl⟩
  rw [owner, token] at howner
  dsimp only at howner
  split at howner
  · next howned => rw [howned, Except.ok.inj howner]
  · cases howner

/-- The bindings that a step creates are among the given ones. -/
def Label.Within (T : Set Binding) (l : Label) : Prop := ∀ x, l = .create x → x ∈ T

/-- The moves of the calls, with what the rules for them read. -/
inductive Inside (chain : Chain) (spoo : Address) (T : Set Binding) (w w' : World) : Prop
  | create (x : Binding) (a : Address) : x ∈ T → createAccount chain w x = .ok (w', a) → Inside chain spoo T w w'
  | transfers (ownerOf : Uint256 → Address → Uint256 → Option Address) : w' = { w with ownerOf } →
      Inside chain spoo T w w'
  | foreign : Foreign spoo w w' → Inside chain spoo T w w'

inductive Enter (chain : Chain) (spoo : Address) (T : Set Binding) : Open → World → World → Prop
  | init {w w' : World} (x : Binding) (a : Address) : x ∈ T → createAccount chain w x = .ok (w', a) →
      Enter chain spoo T (.init a) w w'
  | execute {w w' : World} {e : Execution} : w.code e.account = some spoo → Executes chain w e w' →
      Enter chain spoo T (.execute e) w w'
  | other {w : World} : Enter chain spoo T .other w w

inductive Leave : Open → World → World → World → Prop
  | init {saved w : World} {a : Address} : Leave (.init a) saved w w
  | execute {saved w : World} {e : Execution} : Leave (.execute e) saved w (executeCallReturn w e)
  | other {saved w : World} : Leave .other saved w w

theorem Steps.move (h : Steps chain spoo s l s') (hT : l.Within T) :
    Move (Inside chain spoo T) (Enter chain spoo T) Leave s s' := by
  cases h with
  | enter => exact .enter .other
  | leave => exact .leave .other
  | fail => exact .fail
  | create hcreate => exact .inside (.create _ _ (hT _ rfl) hcreate)
  | createInit hcreate _ => exact .enter (.init _ _ (hT _ rfl) hcreate)
  | created => exact .leave .init
  | execute hcode hexecute => exact .enter (.execute hcode (executeCall_ok hexecute))
  | executed => exact .leave .execute
  | transfers ownerOf => exact .inside (.transfers ownerOf rfl)
  | foreign hforeign => exact .inside (.foreign hforeign)

theorem Inside.effect (h : Inside chain spoo T w w') : Effect chain T w w' := by
  cases h with
  | create x a hx hcreate => exact createAccount_effect hx hcreate
  | transfers ownerOf heq =>
    subst heq
    exact .kept rfl fun _ => .inl rfl
  | foreign hforeign => exact .kept hforeign.contexts fun a => (hforeign.code a).imp_right And.right

theorem Enter.effect {k : Open} (h : Enter chain spoo T k w w') : Effect chain T w w' := by
  cases h with
  | init x a hx hcreate => exact createAccount_effect hx hcreate
  | execute _ hexecutes => exact .kept hexecutes.contexts fun a => .inl (congrFun hexecutes.code a)
  | other => exact .refl _

theorem Leave.effect {k : Open} {saved : World} (h : Leave k saved w w') : Effect chain T w w' := by
  cases h with
  | init => exact .refl _
  | execute => exact .kept rfl fun _ => .inl rfl
  | other => exact .refl _

theorem Steps.effect (h : Steps chain spoo s l s') (hT : l.Within T) (hl : l ≠ .fail) :
    Effect chain T s.world s'.world := by
  cases h.move hT with
  | inside hstep => exact hstep.effect
  | enter hstep => exact hstep.effect
  | leave hstep => exact hstep.effect
  | fail =>
    cases h with
    | fail => exact absurd rfl hl
    | leave => exact .refl _
    | created => exact .refl _
    | executed => exact .kept rfl fun _ => .inl rfl

theorem Steps.everywhere {I : World → Prop} (hI : ∀ w w', Effect chain T w w' → I w → I w')
    (h : Steps chain spoo s l s') (hT : l.Within T) (hs : Everywhere I s) : Everywhere I s' := by
  apply hs.move (h.move hT)
  · exact fun w w' hstep => hI w w' hstep.effect
  · exact fun k w w' hstep => hI w w' hstep.effect
  · exact fun k saved w w' hstep => hI w w' hstep.effect

/-! ## Contexts -/

def Bound (chain : Chain) (T : Set Binding) (w : World) : Prop :=
  ∀ a implementation, w.code a = some implementation →
    ∃ x ∈ T, account chain x = a ∧ x.implementation = implementation ∧ w.contexts a = x.context

theorem Effect.bound (h : Effect chain T w w') (hbound : Bound chain T w) : Bound chain T w' := by
  intro a implementation hcode
  cases h with
  | deployed x hx _ hcode' hcontexts =>
    rw [hcode'] at hcode
    by_cases ha : a = account chain x
    · subst ha
      rw [Function.update_self, Option.some.injEq] at hcode
      exact ⟨x, hx, rfl, hcode, by rw [hcontexts, Function.update_self]⟩
    · rw [Function.update_of_ne ha] at hcode
      rw [hcontexts, Function.update_of_ne ha]
      exact hbound a implementation hcode
  | kept hcontexts hcodes =>
    rw [hcontexts]
    rcases hcodes a with hsame | hnone
    · exact hbound a implementation (hsame ▸ hcode)
    · rw [hnone] at hcode
      cases hcode

theorem bound_everywhere (h : AccountRun chain spoo hist s) (hT : ∀ t ∈ hist, t.label.Within T) :
    Everywhere (Bound chain T) s := by
  refine h.relates_of (R := fun _ s => Everywhere (Bound chain T) s) ?_ ?_ hT
  · rintro s ⟨ownerOf, rfl⟩
    exact everywhere_nil fun a implementation hcode => by cases hcode
  · intro hist s l s' _ hs hwithin hstep
    exact hstep.everywhere (fun _ _ => Effect.bound) hwithin hs

theorem Effect.recorded (hfree : CollisionFree chain T) {x : Binding} (hx : x ∈ T) (h : Effect chain T w w')
    (hrecorded : w.contexts (account chain x) = x.context) : w'.contexts (account chain x) = x.context := by
  cases h with
  | deployed y hy _ _ hcontexts =>
    rw [hcontexts]
    by_cases ha : account chain x = account chain y
    · rw [ha, Function.update_self, hfree.account_injOn hx hy ha]
    · rw [Function.update_of_ne ha, hrecorded]
  | kept hcontexts _ => rw [hcontexts, hrecorded]

theorem recorded_from (hfree : CollisionFree chain T) {x : Binding} (hx : x ∈ T) {later : List (Transition State Label)}
    (hs : s.frames = []) (hrecorded : s.world.contexts (account chain x) = x.context)
    (h : RunFrom (Steps chain spoo) s later s') (hT : ∀ t ∈ later, t.label.Within T) :
    s'.world.contexts (account chain x) = x.context := by
  refine (h.relates_of (R := fun _ s => Everywhere (fun w => w.contexts (account chain x) = x.context) s) ?_ ?_
    hT).world
  · rintro r rfl
    exact ⟨hrecorded, fun f hf => by rw [hs] at hf; cases hf⟩
  · intro hist r l r' _ hr hwithin hstep
    exact hstep.everywhere (fun _ _ heffect => heffect.recorded hfree hx) hwithin hr

/-! ## Executions -/

/-- What holds while the target of an `executeCall` runs. -/
structure Executing (chain : Chain) (spoo : Address) (e : Execution) (saved w : World) : Prop where
  owned : saved.ownerOf (BitVec.ofNat 256 chain.chainId) (saved.contexts e.account).tokenContract
    (saved.contexts e.account).tokenId = some e.sender
  unlocked : saved.locked e.account = false
  code : w.code e.account = some spoo
  locked : w.locked e.account = true
  state : w.state e.account = saved.state e.account + 1

def During (chain : Chain) (spoo : Address) : Open → World → World → Prop
  | .execute e, saved, w => Executing chain spoo e saved w
  | _, _, _ => True

structure SameAccount (a : Address) (w w' : World) : Prop where
  code : w'.code a = w.code a
  locked : w'.locked a = w.locked a
  state : w'.state a = w.state a

theorem SameAccount.during {k : Open} {saved : World} (hsame : ∀ e, k = .execute e → w.code e.account = some spoo →
    w.locked e.account = true → SameAccount e.account w w')
    (h : During chain spoo k saved w) : During chain spoo k saved w' := by
  cases k with
  | execute e =>
    obtain ⟨howned, hunlocked, hcode, hlocked, hstate⟩ := h
    have hsame := hsame e rfl hcode hlocked
    exact ⟨howned, hunlocked, hsame.code.trans hcode, hsame.locked.trans hlocked, hsame.state.trans hstate⟩
  | init a => trivial
  | other => trivial

theorem createAccount_same {x : Binding} {a b : Address} (h : createAccount chain w x = .ok (w', a))
    (hcode : w.code b = some spoo) : SameAccount b w w' := by
  obtain ⟨_, rfl | ⟨hnone, rfl⟩⟩ := createAccount_ok h
  · exact ⟨rfl, rfl, rfl⟩
  · have hne : b ≠ account chain x := by
      rintro rfl
      rw [hnone] at hcode
      cases hcode
    exact ⟨Function.update_of_ne hne .., rfl, rfl⟩

theorem Inside.same (h : Inside chain spoo T w w') {b : Address} (hcode : w.code b = some spoo) :
    SameAccount b w w' := by
  cases h with
  | create x a _ hcreate => exact createAccount_same hcreate hcode
  | transfers ownerOf heq =>
    subst heq
    exact ⟨rfl, rfl, rfl⟩
  | foreign hforeign =>
    refine ⟨?_, hforeign.locked b hcode, hforeign.state b hcode⟩
    exact (hforeign.code b).resolve_right fun hother => hother.1 hcode

theorem Enter.same {k : Open} (h : Enter chain spoo T k w w') {b : Address} (hcode : w.code b = some spoo)
    (hlocked : w.locked b = true) : SameAccount b w w' := by
  cases h with
  | init x a _ hcreate => exact createAccount_same hcreate hcode
  | @execute _ _ e _ hexecutes =>
    have hne : b ≠ e.account := by
      rintro rfl
      rw [hexecutes.unlocked] at hlocked
      cases hlocked
    exact ⟨congrFun hexecutes.code b, by rw [hexecutes.locked, Function.update_of_ne hne],
      by rw [hexecutes.state, Function.update_of_ne hne]⟩
  | other => exact ⟨rfl, rfl, rfl⟩

theorem Enter.during {k : Open} (h : Enter chain spoo T k w w') : During chain spoo k w w' := by
  cases h with
  | execute hcode hexecutes =>
    refine ⟨hexecutes.owned, hexecutes.unlocked, (congrFun hexecutes.code _).trans hcode, ?_, ?_⟩
    · rw [hexecutes.locked, Function.update_self]
    · rw [hexecutes.state, Function.update_self]
  | init x a _ _ => trivial
  | other => trivial

theorem Leave.during {k k' : Open} {saved saved' : World} (h : Leave k' saved' w w')
    (hinner : During chain spoo k' saved' w) (hbetween : During chain spoo k saved saved')
    (houter : During chain spoo k saved w) : During chain spoo k saved w' := by
  cases h with
  | init => exact houter
  | other => exact houter
  | @execute _ _ e =>
    refine SameAccount.during ?_ houter
    rintro e' rfl _ _
    have hne : e'.account ≠ e.account := by
      intro hsame
      have hlocked := Executing.locked hbetween
      rw [hsame, Executing.unlocked hinner] at hlocked
      cases hlocked
    exact ⟨rfl, Function.update_of_ne hne .., rfl⟩

theorem held_throughout (h : AccountRun chain spoo hist s) (hT : ∀ t ∈ hist, t.label.Within T) :
    Held (During chain spoo) s := by
  refine h.relates_of (R := fun _ s => Held (During chain spoo) s) ?_ ?_ hT
  · rintro s ⟨ownerOf, rfl⟩
    exact held_nil _
  · intro hist s l s' _ hs hwithin hstep
    apply hs.move (hstep.move hwithin)
    · exact fun k saved w w' hinside => SameAccount.during fun e _ hcode _ => hinside.same hcode
    · exact fun k w w' henter => henter.during
    · exact fun k' k saved w w' henter => SameAccount.during fun e _ hcode hlocked => henter.same hcode hlocked
    · exact fun k' saved' k saved w w' hleave => hleave.during

def Completes (t : Transition State Label) (e : Execution) (saved : World) : Prop :=
  t.label = .executed e ∧ ∃ fs, t.pre.frames = ⟨.execute e, saved⟩ :: fs

theorem completes_executing (h : AccountRun chain spoo hist s) (hT : ∀ t ∈ hist, t.label.Within T)
    {t : Transition State Label} (ht : t ∈ hist) {e : Execution} {saved : World} (hcompletes : Completes t e saved) :
    Executing chain spoo e saved t.pre.world ∧ t.post.world = executeCallReturn t.pre.world e := by
  obtain ⟨earlier, hsuffix, hrun, hstep⟩ := h.of_mem ht
  have hwithin : ∀ u ∈ earlier, u.label.Within T :=
    fun u hu => hT u (hsuffix.subset (List.mem_cons_of_mem _ hu))
  obtain ⟨hlabel, fs, hframes⟩ := hcompletes
  have hheld := (held_throughout hrun hwithin).world ⟨.execute e, saved⟩ (by rw [hframes]; exact List.mem_cons_self ..)
  refine ⟨hheld, ?_⟩
  rw [hlabel] at hstep
  generalize t.pre = r at hstep
  generalize t.post = r' at hstep
  cases hstep
  rfl

/-! ## Who drives the accounts -/

def boundOwner (w : World) (a : Address) : Option Address :=
  w.ownerOf (w.contexts a).chainId (w.contexts a).tokenContract (w.contexts a).tokenId

def localOwner (chain : Chain) (w : World) (a : Address) : Option Address :=
  w.ownerOf (BitVec.ofNat 256 chain.chainId) (w.contexts a).tokenContract (w.contexts a).tokenId

/-- The account is bound to a token of this chain. -/
def IsLocal (chain : Chain) (w : World) (a : Address) : Prop :=
  (w.contexts a).chainId = BitVec.ofNat 256 chain.chainId

theorem IsLocal.boundOwner_eq {a : Address} (h : IsLocal chain w a) : boundOwner w a = localOwner chain w a := by
  rw [boundOwner, h]
  rfl

/-- The completed call was made by the owner of the account's token, on the token's chain, and counted once. -/
def ByOwner (t : Transition State Label) : Prop :=
  ∀ e saved, Completes t e saved →
    boundOwner saved e.account = some e.sender ∧ t.post.world.state e.account = saved.state e.account + 1

def OnLocal (chain : Chain) (t : Transition State Label) : Prop :=
  ∀ e saved, Completes t e saved → IsLocal chain saved e.account

/-- A call of the account that owns the token of that contract and number here is on an account of this chain. -/
def DrivesLocal (chain : Chain) (t : Transition State Label) : Prop :=
  ∀ e, t.label = .execute e → localOwner chain t.pre.world e.account = some e.sender → IsLocal chain t.pre.world e.account

def OwnersAgree (chain : Chain) (t : Transition State Label) : Prop :=
  ∀ e saved, Completes t e saved → boundOwner saved e.account = localOwner chain saved e.account

theorem byOwner_iff (h : AccountRun chain spoo hist s) (hT : ∀ t ∈ hist, t.label.Within T)
    {t : Transition State Label} (ht : t ∈ hist) : ByOwner t ↔ OwnersAgree chain t := by
  refine forall₃_congr fun e saved hcompletes => ?_
  obtain ⟨hexecuting, hpost⟩ := completes_executing h hT ht hcompletes
  have howned : localOwner chain saved e.account = some e.sender := hexecuting.owned
  rw [howned, hpost]
  exact and_iff_left hexecuting.state

/-- An open `executeCall` was made in the run, in the world that it is taken back to. -/
theorem execute_of_open (h : AccountRun chain spoo hist s) {e : Execution} {saved : World}
    (hopen : ⟨.execute e, saved⟩ ∈ s.frames) : ∃ t ∈ hist, t.label = .execute e ∧ t.pre.world = saved := by
  induction h with
  | start hs =>
    obtain ⟨ownerOf, rfl⟩ := hs
    cases hopen
  | @next hist s s' l hr hstep ih =>
    have hbefore : ⟨.execute e, saved⟩ ∈ s.frames → ∃ t ∈ ⟨s, l, s'⟩ :: hist, t.label = .execute e ∧
        t.pre.world = saved := by
      intro hopen
      obtain ⟨t, ht, hentered⟩ := ih hopen
      exact ⟨t, List.mem_cons_of_mem _ ht, hentered⟩
    cases hstep with
    | create | transfers | foreign => exact hbefore hopen
    | leave | fail | created | executed => exact hbefore (List.mem_cons_of_mem _ hopen)
    | enter | createInit =>
      rcases List.mem_cons.mp hopen with heq | hopen
      · cases heq
      · exact hbefore hopen
    | execute =>
      rcases List.mem_cons.mp hopen with heq | hopen
      · cases heq
        exact ⟨_, List.mem_cons_self .., rfl, rfl⟩
      · exact hbefore hopen

theorem onLocal_of_drives (h : AccountRun chain spoo hist s) (hT : ∀ t ∈ hist, t.label.Within T)
    (hdrives : ∀ t ∈ hist, DrivesLocal chain t) {t : Transition State Label} (ht : t ∈ hist) : OnLocal chain t := by
  intro e saved hcompletes
  obtain ⟨hexecuting, -⟩ := completes_executing h hT ht hcompletes
  obtain ⟨earlier, hsuffix, hrun, -⟩ := h.of_mem ht
  obtain ⟨-, fs, hframes⟩ := hcompletes
  obtain ⟨t', ht', hlabel, rfl⟩ := execute_of_open hrun (by rw [hframes]; exact List.mem_cons_self ..)
  exact hdrives t' (hsuffix.subset (List.mem_cons_of_mem _ ht')) e hlabel hexecuting.owned

/-- In every run: an account is at the address computed for its binding, bindings have different
addresses, and contexts are those of the bindings and stay. A completed call was made by the owner of the
token of that contract and number here and counted once; it was made by the owner of the account's own
token exactly when the two agree; and while no owner here calls an account that is bound to another chain, only the
owner of its token drives an account, and nobody one that is bound to another chain. -/
theorem token_bound_accounts (hfree : CollisionFree chain T) (h : AccountRun chain spoo hist s)
    (hT : ∀ t ∈ hist, t.label.Within T) :
    (∀ w x w' a, createAccount chain w x = .ok (w', a) → a = account chain x) ∧
    Set.InjOn (account chain) T ∧
    (∀ early mid, Visits hist s early mid → ∀ a implementation, mid.world.code a = some implementation →
      ∃ x ∈ T, account chain x = a ∧ x.implementation = implementation ∧ mid.world.contexts a = x.context) ∧
    (∀ t ∈ hist, t.label ≠ .fail → ∀ a, t.pre.world.code a ≠ none →
      t.post.world.contexts a = t.pre.world.contexts a) ∧
    (s.frames = [] → ∀ a, s.world.code a ≠ none → ∀ later s', RunFrom (Steps chain spoo) s later s' →
      (∀ t ∈ later, t.label.Within T) → s'.world.contexts a = s.world.contexts a) ∧
    (∀ t ∈ hist, ∀ e saved, Completes t e saved → localOwner chain saved e.account = some e.sender ∧
      t.post.world.state e.account = saved.state e.account + 1) ∧
    (∀ t ∈ hist, ByOwner t ↔ OwnersAgree chain t) ∧
    ((∀ t ∈ hist, DrivesLocal chain t) → ∀ t ∈ hist, ByOwner t ∧ OnLocal chain t) := by
  refine ⟨?_, hfree.account_injOn, ?_, ?_, ?_, ?_, fun t ht => byOwner_iff h hT ht, ?_⟩
  · intro w x w' a hcreate
    exact (createAccount_ok hcreate).1
  · intro early mid hvisit
    have hearly : ∀ t ∈ early, t.label.Within T := fun t ht => hT t (hvisit.suffix.subset ht)
    exact (bound_everywhere (hvisit.run h) hearly).world
  · intro t ht hfail a hcode
    obtain ⟨earlier, hsuffix, hrun, hstep⟩ := h.of_mem ht
    have hwithin : ∀ u ∈ earlier, u.label.Within T :=
      fun u hu => hT u (hsuffix.subset (List.mem_cons_of_mem _ hu))
    obtain ⟨implementation, hcode⟩ := Option.ne_none_iff_exists'.mp hcode
    obtain ⟨x, hx, rfl, _, hcontext⟩ := (bound_everywhere hrun hwithin).world a implementation hcode
    rw [hcontext]
    exact (hstep.effect (hT t ht) hfail).recorded hfree hx hcontext
  · intro hframes a hcode later s' hlater hwithin
    obtain ⟨implementation, hcode⟩ := Option.ne_none_iff_exists'.mp hcode
    obtain ⟨x, hx, rfl, _, hcontext⟩ := (bound_everywhere h hT).world a implementation hcode
    rw [hcontext]
    exact recorded_from hfree hx hframes hcontext hlater hwithin
  · intro t ht e saved hcompletes
    obtain ⟨hexecuting, hpost⟩ := completes_executing h hT ht hcompletes
    rw [hpost]
    exact ⟨hexecuting.owned, hexecuting.state⟩
  · intro hdrives t ht
    have hlocal := onLocal_of_drives h hT hdrives ht
    refine ⟨?_, hlocal⟩
    rw [byOwner_iff h hT ht]
    exact fun e saved hcompletes => (hlocal e saved hcompletes).boundOwner_eq

/-! ## A run -/

theorem createAccount_deploys {x : Binding} (hcode : w.code (account chain x) = none) (hne : account chain x ≠ 0) :
    createAccount chain w x = .ok (deploy chain w x, account chain x) := by
  have hnot : ¬ (w.code (computeAddressFromCode chain (chain.keccak256 (proxyCode x.implementation))
      (deriveSalt chain x.context))).isSome = true := by
    change ¬ (w.code (account chain x)).isSome = true
    simp [hcode]
  rw [createAccount]
  dsimp only
  rw [if_neg hnot, revertIf_bind]
  exact ⟨hne, rfl⟩

theorem executeCall_accepts {e : Execution} (howner : localOwner chain w e.account = some e.sender)
    (hunlocked : w.locked e.account = false) (hstate : w.state e.account + 1 < 2 ^ 256) :
    ∃ w', executeCall chain w e = .ok w' := by
  have howned : owner chain w e.account = .ok e.sender := by
    rw [owner, token]
    dsimp only
    rw [localOwner] at howner
    rw [howner]
  simp only [executeCall, bind_ok, revertIf_ok, exists_const, pure_ok, not_not, Bool.not_eq_true, not_le]
  exact ⟨_, _, howned, rfl, hunlocked, hstate, rfl⟩

/-- A token that account 9 owns on chain 43114 and account 8 on chain 1. -/
def twoOwners : Uint256 → Address → Uint256 → Option Address := fun chainId tokenContract tokenId =>
  if tokenContract = 0xc0 ∧ tokenId = 7 then
    if chainId = 43114 then some 9 else if chainId = 1 then some 8 else none
  else none

/-- Its account on chain 43114, if it is the token of the given chain. -/
def tokenOf (chainId : Uint256) : Binding := ⟨0x5b00, { chainId, tokenContract := 0xc0, tokenId := 7, salt := 0 }⟩

/-- The values of the hash on what is hashed for the two bindings. -/
def registryChain : Chain where
  keccak256 := fun b =>
    if b = encodeContext (tokenOf 43114).context then 0x2b370785939fcab231bea69af85a0be70995edf3a06155476dbc148a2aeb7d98
    else if b = encodeContext (tokenOf 1).context then 0xc95c25d3f5d243c3f4552eacb5ee32f8ef119e622af8d6876d286175dfc20731
    else if b = proxyCode 0x5b00 then 0xb208362c95515025d464844c75f1d0deef0225f7f8bd54cbee8c79def27c3da2
    else if b = addressPreimage 0x6551 0xb208362c95515025d464844c75f1d0deef0225f7f8bd54cbee8c79def27c3da2
        0x2b370785939fcab231bea69af85a0be70995edf3a06155476dbc148a2aeb7d98 then
      0x246850326ab752b288dd8052770318b342db6f5d35a2a56e3944a32fc22ab434
    else if b = addressPreimage 0x6551 0xb208362c95515025d464844c75f1d0deef0225f7f8bd54cbee8c79def27c3da2
        0xc95c25d3f5d243c3f4552eacb5ee32f8ef119e622af8d6876d286175dfc20731 then
      0x826188acaa3a41e252630a82c4e18cba1e6187ca7f60317b3dbdd513e64f5e92
    else 0
  tryRecover := fun _ _ => none
  domainSeparator := 0
  blsPairing := fun _ => none
  chainId := 43114
  self := 0x6551

theorem account_local : account registryChain (tokenOf 43114) = 0x770318b342db6f5d35a2a56e3944a32fc22ab434 := by
  decide +kernel

theorem account_foreign : account registryChain (tokenOf 1) = 0xc4e18cba1e6187ca7f60317b3dbdd513e64f5e92 := by
  decide +kernel

theorem collisionFree_singleton (chain : Chain) (x : Binding) : CollisionFree chain {x} where
  contexts := by
    rw [Set.image_singleton]
    exact Set.injOn_singleton ..
  codes := by
    rw [Set.image_singleton]
    exact Set.injOn_singleton ..
  addresses := by
    rw [Set.image_singleton]
    exact Set.injOn_singleton ..

/-- Account 9 drives the account of the binding. -/
def callBy9 (a : Address) : Execution := { sender := 9, account := a, target := 0xbeef, value := 0, data := [] }

def beforeCall (chain : Chain) (x : Binding) : World := deploy chain { ownerOf := twoOwners } x

theorem driven_run {chainId : Uint256} (hchain : chain.chainId = 43114) (hne : account chain (tokenOf chainId) ≠ 0) :
    ∃ hist s, AccountRun chain 0x5b00 hist s ∧ (∀ t ∈ hist, t.label.Within {tokenOf chainId}) ∧
      s.world.contexts (account chain (tokenOf chainId)) = (tokenOf chainId).context ∧
      (∃ t ∈ hist, Completes t (callBy9 (account chain (tokenOf chainId))) (beforeCall chain (tokenOf chainId))) ∧
      (∀ t ∈ hist, ∀ e, t.label = .execute e → t.pre.world.contexts e.account = (tokenOf chainId).context) ∧
      ∀ t ∈ hist, ∀ e saved, Completes t e saved →
        saved.contexts e.account = (tokenOf chainId).context ∧ saved.ownerOf = twoOwners ∧ e.sender = 9 := by
  have hcontext : (beforeCall chain (tokenOf chainId)).contexts (account chain (tokenOf chainId)) =
      (tokenOf chainId).context := Function.update_self ..
  have howner : localOwner chain (beforeCall chain (tokenOf chainId)) (account chain (tokenOf chainId)) = some 9 := by
    rw [localOwner, hcontext, hchain]
    rfl
  have hcreate : createAccount chain { ownerOf := twoOwners } (tokenOf chainId) = .ok (beforeCall chain _, _) :=
    createAccount_deploys rfl hne
  obtain ⟨w', hexecute⟩ := executeCall_accepts (e := callBy9 (account chain (tokenOf chainId)))
    (w := beforeCall chain (tokenOf chainId)) howner rfl (Nat.one_lt_two_pow (by decide))
  have hcode : (beforeCall chain (tokenOf chainId)).code (account chain (tokenOf chainId)) = some 0x5b00 :=
    Function.update_self ..
  have hexecutes := executeCall_ok hexecute
  have hstep : Steps chain 0x5b00 ⟨beforeCall chain (tokenOf chainId), []⟩ (.execute _) _ := .execute hcode hexecute
  have hrun : AccountRun chain 0x5b00 _ _ :=
    .next (.next (.next (.start ⟨twoOwners, rfl⟩) (.create hcreate)) hstep) .executed
  refine ⟨_, _, hrun, ?_, ?_, ?_, ?_, ?_⟩
  · intro t ht x hx
    simp only [List.mem_cons, List.not_mem_nil, or_false] at ht
    rcases ht with rfl | rfl | rfl
    · cases hx
    · cases hx
    · exact (Label.create.inj hx).symm
  · exact (congrFun hexecutes.contexts _).trans hcontext
  · exact ⟨_, List.mem_cons_self .., rfl, _, rfl⟩
  · intro t ht e hlabel
    simp only [List.mem_cons, List.not_mem_nil, or_false] at ht
    rcases ht with rfl | rfl | rfl
    · cases hlabel
    · cases hlabel
      exact hcontext
    · cases hlabel
  · rintro t ht e saved ⟨hlabel, fs, hframes⟩
    simp only [List.mem_cons, List.not_mem_nil, or_false] at ht
    rcases ht with rfl | rfl | rfl
    · obtain ⟨hframe, _⟩ := List.cons.inj hframes
      obtain ⟨hopen, rfl⟩ := CallStack.Frame.mk.inj hframe
      obtain rfl := Open.execute.inj hopen
      exact ⟨hcontext, rfl, rfl⟩
    · cases hlabel
    · cases hlabel

theorem token_bound_accounts_local : ∃ hist s, AccountRun registryChain 0x5b00 hist s ∧
    s.world.contexts 0x770318b342db6f5d35a2a56e3944a32fc22ab434 = (tokenOf 43114).context ∧
    (∃ t ∈ hist, ∃ e saved, Completes t e saved) ∧ ∀ t ∈ hist, ByOwner t ∧ OnLocal registryChain t := by
  have hne : account registryChain (tokenOf 43114) ≠ 0 := by
    rw [account_local]
    decide
  obtain ⟨hist, s, hrun, hwithin, hcontext, ⟨t, ht, hcompletes⟩, hcalls, -⟩ := driven_run rfl hne
  rw [account_local] at hcontext
  have hlaw := token_bound_accounts (collisionFree_singleton _ _) hrun hwithin
  refine ⟨hist, s, hrun, hcontext, ⟨t, ht, _, _, hcompletes⟩, hlaw.2.2.2.2.2.2.2 ?_⟩
  intro t ht e hlabel _
  rw [IsLocal, hcalls t ht e hlabel]
  rfl

/-- Account 9, which has the token of that contract and number here, drives the account of the token of
chain 1, whose owner there is account 8. -/
theorem foreign_account_driven : CollisionFree registryChain {tokenOf 1} ∧
    ∃ hist s, AccountRun registryChain 0x5b00 hist s ∧ (∀ t ∈ hist, t.label.Within {tokenOf 1}) ∧
      s.world.contexts 0xc4e18cba1e6187ca7f60317b3dbdd513e64f5e92 = (tokenOf 1).context ∧
      ∃ t ∈ hist, ∃ e saved, Completes t e saved ∧ e.sender = 9 ∧ boundOwner saved e.account = some 8 := by
  have hne : account registryChain (tokenOf 1) ≠ 0 := by
    rw [account_foreign]
    decide
  obtain ⟨hist, s, hrun, hwithin, hcontext, ⟨t, ht, hcompletes⟩, -, hall⟩ := driven_run rfl hne
  rw [account_foreign] at hcontext
  refine ⟨collisionFree_singleton _ _, hist, s, hrun, hwithin, hcontext, t, ht, _, _, hcompletes, rfl, ?_⟩
  obtain ⟨hbinding, howners, _⟩ := hall t ht _ _ hcompletes
  rw [boundOwner, hbinding, howners]
  decide

end ChainGuard.Evm.TokenBoundAccounts
