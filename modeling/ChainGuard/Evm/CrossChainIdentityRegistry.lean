import ChainGuard.Evm.Primitives
import ChainGuard.Evm.SignatureVerification
import ChainGuard.Evm.StrKey
import ChainGuard.Library.History
import ChainGuard.Library.Links

/-! `CrossChainIdentityRegistry`: EVM addresses bound to Stellar addresses by a message that both
owners sign. -/
namespace ChainGuard.Evm.CrossChainIdentityRegistry
open Guarded History
set_option autoImplicit false

def MAX_BINDING_AGE : ℕ := days 1
def MAX_FUTURE_DRIFT : ℕ := minutes 5

/-- The errors of the registry and of what it calls; `Panic` is the compiler's own. -/
inductive RegistryError
  | AlreadyBound
  | InvalidTimestamp
  | InvalidEvmSignature
  | InvalidStellarSignature
  | InvalidStellarAddress
  | NotBound
  | InvalidStrKey
  | ECDSAInvalidSignature
  | Panic
  deriving DecidableEq, Repr

inductive Event
  | IdentityBound (evmAddress : Address) (stellarAddress : Bytes) (stellarPublicKey : Bytes32)
      (timestamp : ℕ)

abbrev Result (α : Type) := Except RegistryError α

structure IdentityBinding where
  stellarAddress : Bytes := []
  stellarPublicKey : Bytes32 := 0
  timestamp : ℕ := 0
  bound : Bool := false
  deriving DecidableEq

structure Registry where
  bindings : Address → IdentityBinding := fun _ => {}
  stellarToEvm : Bytes32 → Address := fun _ => 0

/-- The arguments of `bindIdentity`. -/
structure BindIdentity where
  evmAddress : Address
  stellarAddress : Bytes
  stellarPublicKey : Bytes32
  timestamp : ℕ
  evmSignature : Bytes
  stellarSignature : Bytes

/-! ## The signed message -/

def payload (evmAddress : Address) (stellarPublicKey : Bytes32) (timestamp : ℕ) : Bytes :=
  ascii "BindIdentity" ++ bytesBE 20 evmAddress.toNat ++ word stellarPublicKey.toNat ++
    bytesBE 8 (uint64 timestamp)

section Calls
variable (chain : Chain)

def messageHash (evmAddress : Address) (stellarPublicKey : Bytes32) (timestamp : ℕ) : Bytes32 :=
  chain.keccak256 (payload evmAddress stellarPublicKey timestamp)

/-- EIP-191 -/
def evmDigest (message : Bytes32) : Bytes32 :=
  chain.keccak256 ([0x19] ++ ascii "Ethereum Signed Message:\n32" ++ word message.toNat)

/-! ## Calls -/

/-- `StrKey.decodeEd25519PublicKey`, whose error bubbles up. -/
def decodeAddress (stellarAddress : Bytes) : Result Bytes32 :=
  match StrKey.decodeEd25519PublicKey stellarAddress with
  | .ok key => pure key
  | .error .InvalidStrKey => .error .InvalidStrKey

/-- `ECDSA.recover` -/
def recover (digest : Bytes32) (signature : Bytes) : Result Address :=
  match chain.tryRecover digest signature with
  | some signer => pure signer
  | none => .error .ECDSAInvalidSignature

/-- `Ed25519.verify` -/
def verifyStellar (signature publicKey message : Bytes) : Result Bool :=
  match Ed25519.verify signature publicKey message with
  | .ok accepted => pure accepted
  | .error _ => .error .Panic

def bindIdentity (env : Env) (s : Registry) (c : BindIdentity) : Result (Registry × List Event) := do
  revertIf ((s.bindings c.evmAddress).bound = true) .AlreadyBound
  revertIf (c.stellarAddress.length = 0) .InvalidStellarAddress
  let key ← decodeAddress c.stellarAddress
  revertIf (key ≠ c.stellarPublicKey) .InvalidStellarAddress
  let stellarHash := chain.keccak256 c.stellarAddress
  revertIf (s.stellarToEvm stellarHash ≠ 0) .AlreadyBound
  revertIf (env.timestamp < MAX_BINDING_AGE) .Panic
  revertIf (c.timestamp < env.timestamp - MAX_BINDING_AGE ∨ env.timestamp + MAX_FUTURE_DRIFT < c.timestamp)
    .InvalidTimestamp
  let message := messageHash chain c.evmAddress c.stellarPublicKey c.timestamp
  revertIf (c.evmSignature.length ≠ 65) .InvalidEvmSignature
  let signer ← recover chain (evmDigest chain message) c.evmSignature
  revertIf (signer ≠ c.evmAddress) .InvalidEvmSignature
  let accepted ← verifyStellar c.stellarSignature (word c.stellarPublicKey.toNat) (word message.toNat)
  revertIf (accepted = false) .InvalidStellarSignature
  let binding : IdentityBinding :=
    { stellarAddress := c.stellarAddress, stellarPublicKey := c.stellarPublicKey,
      timestamp := c.timestamp, bound := true }
  pure ({ bindings := Function.update s.bindings c.evmAddress binding
          stellarToEvm := Function.update s.stellarToEvm stellarHash c.evmAddress },
    [.IdentityBound c.evmAddress c.stellarAddress c.stellarPublicKey c.timestamp])

/-! ## Lookups -/

def resolveEvmToStellar (s : Registry) (evmAddress : Address) : Result Bytes := do
  let b := s.bindings evmAddress
  revertIf (b.bound = false) .NotBound
  pure b.stellarAddress

def resolveStellarToEvm (s : Registry) (stellarAddress : Bytes) : Result Address := do
  let evm := s.stellarToEvm (chain.keccak256 stellarAddress)
  revertIf (evm = 0) .NotBound
  pure evm

def getBinding (s : Registry) (evmAddress : Address) : Result (Bytes × Bytes32 × ℕ) := do
  let b := s.bindings evmAddress
  revertIf (b.bound = false) .NotBound
  pure (b.stellarAddress, b.stellarPublicKey, b.timestamp)

/-! ## Runs -/

abbrev Invocation := Env × BindIdentity

/-- An accepted call; the others change nothing. -/
def Steps (s : Registry) (i : Invocation) (s' : Registry) : Prop :=
  ∃ logs, bindIdentity chain i.1 s i.2 = .ok (s', logs)

abbrev RegistryRun (hist : List (Transition Registry Invocation)) (s : Registry) : Prop :=
  Run (· = ({} : Registry)) (Steps chain) hist s

end Calls
/-! Bindings of the registry, once made, stay; no address, string or key is in two of them; and each
carries the signatures of both owners over its message. -/

variable {chain : Chain} {s s' : Registry} {i : Invocation}
  {hist later : List (Transition Registry Invocation)}

/-! ## One binding -/

/-- The signatures of a call, both over the message of its address, key and timestamp, and its age. -/
structure DualSigned (chain : Chain) (env : Env) (c : BindIdentity) : Prop where
  key : StrKey.decodeEd25519PublicKey c.stellarAddress = .ok c.stellarPublicKey
  not_old : env.timestamp - days 1 ≤ c.timestamp
  not_future : c.timestamp ≤ env.timestamp + minutes 5
  evm_signed : chain.tryRecover
    (evmDigest chain (messageHash chain c.evmAddress c.stellarPublicKey c.timestamp)) c.evmSignature =
      some c.evmAddress
  stellar_signed : Ed25519.Valid c.stellarSignature (word c.stellarPublicKey.toNat)
    (word (messageHash chain c.evmAddress c.stellarPublicKey c.timestamp).toNat)

def BindIdentity.binding (c : BindIdentity) : IdentityBinding :=
  { stellarAddress := c.stellarAddress, stellarPublicKey := c.stellarPublicKey, timestamp := c.timestamp,
    bound := true }

/-- What an accepted call requires and does. -/
structure Binds (chain : Chain) (env : Env) (s : Registry) (c : BindIdentity) (s' : Registry) : Prop where
  unbound : (s.bindings c.evmAddress).bound = false
  free : s.stellarToEvm (chain.keccak256 c.stellarAddress) = 0
  signed : DualSigned chain env c
  bindings : s'.bindings = Function.update s.bindings c.evmAddress c.binding
  stellarToEvm : s'.stellarToEvm =
    Function.update s.stellarToEvm (chain.keccak256 c.stellarAddress) c.evmAddress

theorem decodeAddress_ok {stellarAddress : Bytes} {key : Bytes32} :
    decodeAddress stellarAddress = .ok key ↔ StrKey.decodeEd25519PublicKey stellarAddress = .ok key := by
  unfold decodeAddress
  cases StrKey.decodeEd25519PublicKey stellarAddress with
  | ok key' => simp
  | error e => cases e; simp

theorem verifyStellar_ok {signature publicKey message : Bytes} :
    verifyStellar signature publicKey message = .ok true ↔ Ed25519.Valid signature publicKey message := by
  obtain ⟨result, hverify, hresult⟩ := Ed25519.verify_spec signature publicKey message
  rw [← hresult, verifyStellar, hverify]
  simp

theorem recover_ok {digest : Bytes32} {signature : Bytes} {signer : Address} :
    recover chain digest signature = .ok signer ↔ chain.tryRecover digest signature = some signer := by
  unfold recover
  cases chain.tryRecover digest signature with
  | none => simp
  | some signer' => simp

theorem bindIdentity_ok {env : Env} {c : BindIdentity} {logs : List Event}
    (h : bindIdentity chain env s c = .ok (s', logs)) : Binds chain env s c s' := by
  simp only [bindIdentity, bind_ok, revertIf_ok, exists_const, pure_ok, Prod.mk.injEq, not_not, not_or,
    not_lt, Bool.not_eq_true, Bool.not_eq_false, decodeAddress_ok, recover_ok] at h
  obtain ⟨hunbound, _, key, hkey, rfl, hfree, _, ⟨hold, hfuture⟩, _, signer, hsigner, rfl, accepted,
    hverify, haccepted, rfl, _⟩ := h
  rw [haccepted, verifyStellar_ok] at hverify
  exact ⟨hunbound, hfree, ⟨hkey, hold, hfuture, hsigner, hverify⟩, rfl, rfl⟩

theorem bindIdentity_accepts (hunbound : (s.bindings i.2.evmAddress).bound = false)
    (hfree : s.stellarToEvm (chain.keccak256 i.2.stellarAddress) = 0)
    (hsigned : DualSigned chain i.1 i.2) (hclock : days 1 ≤ i.1.timestamp)
    (hlength : i.2.evmSignature.length = 65) : ∃ s', Steps chain s i s' := by
  obtain ⟨_, _, hchars, _⟩ := StrKey.decodeEd25519PublicKey_spec hsigned.key
  have hnonempty : i.2.stellarAddress.length ≠ 0 := by omega
  suffices haccepts : ∃ r, bindIdentity chain i.1 s i.2 = .ok r by
    obtain ⟨⟨s', logs⟩, h⟩ := haccepts
    exact ⟨s', logs, h⟩
  simp only [bindIdentity, bind_ok, revertIf_ok, exists_const, pure_ok, not_not, not_or, not_lt,
    Bool.not_eq_true, Bool.not_eq_false, decodeAddress_ok, recover_ok]
  exact ⟨_, hunbound, hnonempty, _, hsigned.key, rfl, hfree, hclock, ⟨hsigned.not_old, hsigned.not_future⟩,
    hlength, _, hsigned.evm_signed, rfl, _, verifyStellar_ok.mpr hsigned.stellar_signed, rfl, rfl⟩

theorem Steps.binds (h : Steps chain s i s') : Binds chain i.1 s i.2 s' := by
  obtain ⟨logs, h⟩ := h
  exact bindIdentity_ok h

/-! ## The bindings of a run -/

theorem Binds.kept {env : Env} {c : BindIdentity} (h : Binds chain env s c s') {e : Address}
    (hbound : (s.bindings e).bound = true) : s'.bindings e = s.bindings e := by
  have hne : e ≠ c.evmAddress := by
    rintro rfl
    rw [h.unbound] at hbound
    cases hbound
  rw [h.bindings, Function.update_of_ne hne]

theorem binding_kept (h : RunFrom (Steps chain) s later s') {e : Address}
    (hbound : (s.bindings e).bound = true) : s'.bindings e = s.bindings e := by
  refine h.invariant (I := fun r => r.bindings e = s.bindings e) (fun r hr => by rw [hr]) ?_
  intro r i r' hsame hstep
  rw [← hsame] at hbound
  rw [hstep.binds.kept hbound, hsame]

theorem binding_of_mem (h : RegistryRun chain hist s) {t : Transition Registry Invocation} (ht : t ∈ hist) :
    s.bindings t.label.2.evmAddress = t.label.2.binding := by
  induction h with
  | start _ => cases ht
  | next _ hstep ih =>
    rcases List.mem_cons.mp ht with rfl | ht
    · rw [hstep.binds.bindings, Function.update_self]
    · have hbefore := ih ht
      have hbound : (t.label.2.binding).bound = true := rfl
      rw [← hbefore] at hbound
      rw [hstep.binds.kept hbound, hbefore]

theorem binding_made (h : RegistryRun chain hist s) {e : Address} (hbound : (s.bindings e).bound = true) :
    ∃ t ∈ hist, t.label.2.evmAddress = e ∧ s.bindings e = t.label.2.binding ∧
      DualSigned chain t.label.1 t.label.2 := by
  induction h with
  | start hi =>
    subst hi
    cases hbound
  | @next hist s s' i _ hstep ih =>
    have hbinds := hstep.binds
    by_cases he : e = i.2.evmAddress
    · refine ⟨_, List.mem_cons_self .., he.symm, ?_, hbinds.signed⟩
      rw [hbinds.bindings, he, Function.update_self]
    · have hsame : s'.bindings e = s.bindings e := by rw [hbinds.bindings, Function.update_of_ne he]
      rw [hsame] at hbound ⊢
      obtain ⟨t, ht, hmade⟩ := ih hbound
      exact ⟨t, List.mem_cons_of_mem _ ht, hmade⟩

/-! ## Both maps -/

def hashOf (chain : Chain) (s : Registry) (e : Address) : Option Bytes32 :=
  if (s.bindings e).bound = true then some (chain.keccak256 (s.bindings e).stellarAddress) else none

def ownerOf (s : Registry) (hash : Bytes32) : Option Address :=
  if s.stellarToEvm hash = 0 then none else some (s.stellarToEvm hash)

theorem Binds.hashOf_eq {env : Env} {c : BindIdentity} (h : Binds chain env s c s') :
    hashOf chain s' = Function.update (hashOf chain s) c.evmAddress
      (some (chain.keccak256 c.stellarAddress)) := by
  funext e
  by_cases he : e = c.evmAddress
  · subst he
    rw [Function.update_self, hashOf, h.bindings, Function.update_self]
    rfl
  · rw [Function.update_of_ne he, hashOf, hashOf, h.bindings, Function.update_of_ne he]

theorem Binds.ownerOf_eq {env : Env} {c : BindIdentity} (h : Binds chain env s c s')
    (hne : c.evmAddress ≠ 0) :
    ownerOf s' = Function.update (ownerOf s) (chain.keccak256 c.stellarAddress) (some c.evmAddress) := by
  funext hash
  by_cases hh : hash = chain.keccak256 c.stellarAddress
  · subst hh
    rw [Function.update_self, ownerOf, h.stellarToEvm, Function.update_self, if_neg hne]
  · rw [Function.update_of_ne hh, ownerOf, ownerOf, h.stellarToEvm, Function.update_of_ne hh]

/-- Recovery never yields the zero address, so an entry of the second map is never mistaken for none. -/
theorem maps_inverse (hrecover : ∀ digest signature, chain.tryRecover digest signature ≠ some 0)
    (h : RegistryRun chain hist s) : Links.Inverse (hashOf chain s) (ownerOf s) := by
  refine h.invariant (I := fun s => Links.Inverse (hashOf chain s) (ownerOf s)) ?_ ?_
  · rintro s rfl e hash
    simp [hashOf, ownerOf]
  · intro s i s' hinverse hstep
    have hbinds := hstep.binds
    have hne : i.2.evmAddress ≠ 0 := by
      intro hzero
      have hsigned := hbinds.signed.evm_signed
      exact hrecover _ _ (hsigned.trans (congrArg some hzero))
    rw [hbinds.hashOf_eq, hbinds.ownerOf_eq hne]
    refine hinverse.link ⟨?_, ?_⟩
    · intro hash hlinked
      simp [hashOf, hbinds.unbound] at hlinked
    · intro e hlinked
      simp [ownerOf, hbinds.free] at hlinked

theorem resolveEvmToStellar_ok {e : Address} {str : Bytes} :
    resolveEvmToStellar s e = .ok str ↔ (s.bindings e).bound = true ∧ (s.bindings e).stellarAddress = str := by
  simp only [resolveEvmToStellar, revertIf_bind, pure_ok, Bool.not_eq_false]

theorem resolveStellarToEvm_ok {e : Address} {str : Bytes} :
    resolveStellarToEvm chain s str = .ok e ↔ ownerOf s (chain.keccak256 str) = some e := by
  simp only [resolveStellarToEvm, revertIf_bind, pure_ok, ownerOf, Option.ite_none_left_eq_some,
    Option.some.injEq]

theorem getBinding_ok {e : Address} {str : Bytes} {key : Bytes32} {timestamp : ℕ} :
    getBinding s e = .ok (str, key, timestamp) ↔
      s.bindings e = { stellarAddress := str, stellarPublicKey := key, timestamp, bound := true } := by
  simp only [getBinding, revertIf_bind, pure_ok, Bool.not_eq_false, Prod.mk.injEq]
  constructor
  · rintro ⟨hbound, rfl, rfl, rfl⟩
    rw [← hbound]
  · intro h
    rw [h]
    exact ⟨rfl, rfl, rfl, rfl⟩

/-! ## Uniqueness -/

theorem bindings_distinct (hrecover : ∀ digest signature, chain.tryRecover digest signature ≠ some 0)
    (h : RegistryRun chain hist s) :
    hist.Pairwise fun t t' => t.label.2.evmAddress ≠ t'.label.2.evmAddress ∧
      t.label.2.stellarAddress ≠ t'.label.2.stellarAddress ∧
      t.label.2.stellarPublicKey ≠ t'.label.2.stellarPublicKey := by
  induction h with
  | start _ => exact .nil
  | @next hist s s' i hrun hstep ih =>
    refine List.pairwise_cons.mpr ⟨?_, ih⟩
    intro t ht
    have hbinds := hstep.binds
    have hbinding := binding_of_mem hrun ht
    have hbound : (s.bindings t.label.2.evmAddress).bound = true := by rw [hbinding]; rfl
    have hstring : i.2.stellarAddress ≠ t.label.2.stellarAddress := by
      intro hsame
      have hhash : hashOf chain s t.label.2.evmAddress = some (chain.keccak256 i.2.stellarAddress) := by
        rw [hashOf, if_pos hbound, hbinding, hsame]
        rfl
      have howner := (maps_inverse hrecover hrun _ _).mp hhash
      simp [ownerOf, hbinds.free] at howner
    refine ⟨?_, hstring, ?_⟩
    · intro hsame
      rw [← hsame, hbinds.unbound] at hbound
      cases hbound
    · intro hsame
      obtain ⟨earlier, _, _, hstep'⟩ := hrun.of_mem ht
      have hkey := hbinds.signed.key
      rw [hsame] at hkey
      exact hstring (StrKey.decodeEd25519PublicKey_inj hkey hstep'.binds.signed.key)

/-! ## What is signed -/

theorem payload_inj {e e' : Address} {key key' : Bytes32} {timestamp timestamp' : ℕ}
    (h : payload e key timestamp = payload e' key' timestamp') :
    e = e' ∧ key = key' ∧ uint64 timestamp = uint64 timestamp' := by
  unfold payload at h
  obtain ⟨hrest, htime⟩ := List.append_inj' h (by simp)
  obtain ⟨hrest, hkey⟩ := List.append_inj' hrest (by simp)
  obtain ⟨_, he⟩ := List.append_inj' hrest (by simp)
  have hlt : ∀ n, uint64 n < 256 ^ 8 := fun n => Nat.mod_lt n (by decide)
  exact ⟨BitVec.eq_of_toNat_eq (bytesBE_inj e.isLt e'.isLt he),
    BitVec.eq_of_toNat_eq (word_inj key.isLt key'.isLt hkey), bytesBE_inj (hlt _) (hlt _) htime⟩

theorem DualSigned.signed_timestamp {env : Env} {c : BindIdentity} (h : DualSigned chain env c)
    (hclock : env.timestamp + minutes 5 < 2 ^ 64) : uint64 c.timestamp = c.timestamp :=
  Nat.mod_eq_of_lt (h.not_future.trans_lt hclock)

/-- The registry in any run whose strings and messages, and the string looked up, have no two hashes in
common. -/
theorem identity_bindings_bijective
    (hrecover : ∀ digest signature, chain.tryRecover digest signature ≠ some 0) {hashed : Set Bytes}
    (hkeccak : Set.InjOn chain.keccak256 hashed) (h : RegistryRun chain hist s)
    (hhashed : ∀ t ∈ hist, t.label.2.stellarAddress ∈ hashed ∧
      payload t.label.2.evmAddress t.label.2.stellarPublicKey t.label.2.timestamp ∈ hashed) :
    (∀ e, ∀ str ∈ hashed,
      resolveEvmToStellar s e = .ok str ↔ resolveStellarToEvm chain s str = .ok e) ∧
    (hist.Pairwise fun t t' => t.label.2.evmAddress ≠ t'.label.2.evmAddress ∧
      t.label.2.stellarAddress ≠ t'.label.2.stellarAddress ∧
      t.label.2.stellarPublicKey ≠ t'.label.2.stellarPublicKey) ∧
    (∀ e b, getBinding s e = .ok b →
      ∀ later s', RunFrom (Steps chain) s later s' → getBinding s' e = .ok b) ∧
    (∀ e str key timestamp, getBinding s e = .ok (str, key, timestamp) →
      ∃ t ∈ hist, t.label.2.evmAddress = e ∧ t.label.2.stellarAddress = str ∧
        t.label.2.stellarPublicKey = key ∧ t.label.2.timestamp = timestamp ∧
        DualSigned chain t.label.1 t.label.2 ∧
        (t.label.1.timestamp + minutes 5 < 2 ^ 64 → uint64 timestamp = timestamp)) ∧
    ∀ t ∈ hist, ∀ e key timestamp, payload e key timestamp ∈ hashed →
      messageHash chain e key timestamp =
        messageHash chain t.label.2.evmAddress t.label.2.stellarPublicKey t.label.2.timestamp →
      e = t.label.2.evmAddress ∧ key = t.label.2.stellarPublicKey ∧
        uint64 timestamp = uint64 t.label.2.timestamp := by
  have hinverse := maps_inverse hrecover h
  refine ⟨?_, bindings_distinct hrecover h, ?_, ?_, ?_⟩
  · intro e str hstr
    rw [resolveEvmToStellar_ok, resolveStellarToEvm_ok, ← hinverse, hashOf, Option.ite_none_right_eq_some,
      Option.some.injEq]
    refine and_congr_right fun hbound => ⟨fun hsame => by rw [hsame], fun hhash => ?_⟩
    obtain ⟨t, ht, rfl, hbinding, _⟩ := binding_made h hbound
    rw [hbinding] at hhash ⊢
    exact hkeccak (hhashed t ht).1 hstr hhash
  · rintro e ⟨str, key, timestamp⟩ hget later s' hlater
    rw [getBinding_ok] at hget ⊢
    have hbound : (s.bindings e).bound = true := by rw [hget]
    rw [binding_kept hlater hbound, hget]
  · intro e str key timestamp hget
    rw [getBinding_ok] at hget
    have hbound : (s.bindings e).bound = true := by rw [hget]
    obtain ⟨t, ht, he, hbinding, hsigned⟩ := binding_made h hbound
    rw [hget] at hbinding
    obtain ⟨hstr, hkey, htime, _⟩ := IdentityBinding.mk.inj hbinding
    refine ⟨t, ht, he, hstr.symm, hkey.symm, htime.symm, hsigned, fun hclock => ?_⟩
    rw [htime]
    exact hsigned.signed_timestamp hclock
  · intro t ht e key timestamp hmem hmessage
    exact payload_inj (hkeccak hmem (hhashed t ht).2 hmessage)

/-! ## A run -/

/-- A hash that tells lengths apart, and signatures that carry their digest and signer. -/
def lengthChain : Chain where
  keccak256 := fun bytes => BitVec.ofNat 256 bytes.length
  tryRecover := fun digest signature =>
    let signer : Address := BitVec.ofNat 160 (natBE (signature.drop 32))
    if signature.length = 65 ∧ natBE (signature.take 32) = digest.toNat ∧ signer ≠ 0 then some signer
    else none
  domainSeparator := 0
  blsPairing := fun _ => none
  chainId := 43114
  self := 0x5900

theorem nine_ne : (9 : Address) ≠ 0 := by decide

/-- A call of 9 for the key that encodes the neutral point, under which everything is signed. -/
def neutralCall : Invocation :=
  (⟨9, 200000, 100, nine_ne, by decide⟩,
    { evmAddress := 9
      stellarAddress := ascii "GAAQAAAAAAAAAAAAAAAAAAAAAAAAAAAAAAAAAAAAAAAAAAAAAAAAAHV4"
      stellarPublicKey := BitVec.ofNat 256 (2 ^ 248)
      timestamp := 199000
      evmSignature := word 60 ++ bytesBE 33 9
      stellarSignature := 1 :: List.replicate 63 0 })

theorem neutral_decodes : Ed25519.Decodes (1 :: List.replicate 31 0) 0 where
  length := rfl
  canonical := by decide
  y_eq := by decide +kernel
  sign_eq := by decide +kernel

theorem neutral_valid (message : Bytes) :
    Ed25519.Valid (1 :: List.replicate 63 0) (word (2 ^ 248)) message := by
  have hscalar : Ed25519.natLE ((1 :: List.replicate 63 0 : Bytes).drop 32) = 0 := by decide
  refine ⟨rfl, rfl, ?_, 0, 0, neutral_decodes, neutral_decodes, ?_⟩
  · rw [hscalar]
    decide
  · rw [hscalar, zero_nsmul, nsmul_zero, add_zero]

theorem neutral_bound : ∃ s, Steps lengthChain {} neutralCall s := by
  refine bindIdentity_accepts rfl rfl ⟨?_, ?_, ?_, ?_, neutral_valid _⟩ ?_ rfl
  · decide +kernel
  · decide
  · decide
  · decide +kernel
  · decide

theorem lengthChain_recover (digest : Bytes32) (signature : Bytes) :
    lengthChain.tryRecover digest signature ≠ some 0 := by
  intro h
  simp only [lengthChain, Option.ite_none_right_eq_some, Option.some.injEq] at h
  exact h.1.2.2 h.2

/-- The string of `neutralCall` and its message. -/
def neutralHashed : Set Bytes :=
  {neutralCall.2.stellarAddress, payload 9 neutralCall.2.stellarPublicKey 199000}

theorem neutralHashed_injOn : Set.InjOn lengthChain.keccak256 neutralHashed := by
  have hne : lengthChain.keccak256 neutralCall.2.stellarAddress ≠
      lengthChain.keccak256 (payload 9 neutralCall.2.stellarPublicKey 199000) := by decide +kernel
  rintro x (rfl | rfl) y (rfl | rfl) hxy
  · rfl
  · exact absurd hxy hne
  · exact absurd hxy.symm hne
  · rfl

theorem identity_bindings_bijective_neutral : ∃ s, Steps lengthChain {} neutralCall s ∧
    resolveEvmToStellar s 9 = .ok neutralCall.2.stellarAddress ∧
    resolveStellarToEvm lengthChain s neutralCall.2.stellarAddress = .ok 9 := by
  obtain ⟨s, hstep⟩ := neutral_bound
  have h : RegistryRun lengthChain [⟨{}, neutralCall, s⟩] s := .next (.start rfl) hstep
  have hstring : neutralCall.2.stellarAddress ∈ neutralHashed := .inl rfl
  have hresolved : resolveEvmToStellar s 9 = .ok neutralCall.2.stellarAddress := by
    have hbinding : s.bindings 9 = neutralCall.2.binding := binding_of_mem h (List.mem_singleton_self _)
    rw [resolveEvmToStellar_ok, hbinding]
    exact ⟨rfl, rfl⟩
  have hhashed : ∀ t ∈ [(⟨{}, neutralCall, s⟩ : Transition Registry Invocation)],
      t.label.2.stellarAddress ∈ neutralHashed ∧
        payload t.label.2.evmAddress t.label.2.stellarPublicKey t.label.2.timestamp ∈ neutralHashed := by
    intro t ht
    rw [List.mem_singleton.mp ht]
    exact ⟨hstring, .inr rfl⟩
  have hbijective := identity_bindings_bijective lengthChain_recover neutralHashed_injOn h hhashed
  exact ⟨s, hstep, hresolved, (hbijective.1 9 _ hstring).mp hresolved⟩

end ChainGuard.Evm.CrossChainIdentityRegistry
