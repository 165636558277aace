import ChainGuard.Evm.CrossChainIdentityRegistry
import ChainGuard.Soroban.Heartbeats
import ChainGuard.Soroban.IdentityRegistry

/-! The identity registries of the two chains, asked to record the same bindings. The Soroban registry
derives the address from all 65 bytes of the recovered key, the EVM registry from the last 64. -/
namespace ChainGuard.Link.IdentityRegistries
open Evm.CrossChainIdentityRegistry (payload evmDigest)
open Evm Guarded History
set_option autoImplicit false

abbrev EvmRegistry := Evm.CrossChainIdentityRegistry.Registry
abbrev SorobanRegistry := Soroban.IdentityRegistry.Registry

/-! ## Bindings submitted to both chains -/

/-- Half the order of secp256k1. -/
def halfOrder : ℕ := 0x7FFFFFFFFFFFFFFFFFFFFFFFFFFFFFFF5D576E7357A4501DDFE92F46681B20A0

/-- The second word of a signature is in the lower half. -/
def LowS (signature : Soroban.Signature) : Prop := (signature.setWidth 256).toNat ≤ halfOrder

instance (signature : Soroban.Signature) : Decidable (LowS signature) :=
  inferInstanceAs (Decidable (_ ≤ _))

structure Request where
  evmAddress : Address
  stellarAddress : Bytes
  stellarKey : Bytes32
  timestamp : ℕ
  evmSignature : Soroban.Signature
  recoveryId : ℕ
  stellarSignature : Soroban.Signature
  decodes : StrKey.decodeEd25519PublicKey stellarAddress = .ok stellarKey
  timestamp_lt : timestamp < 2 ^ 64
  low_s : LowS evmSignature
  recoveryId_le : recoveryId ≤ 1

def signatureBytes (signature : Soroban.Signature) (recoveryId : ℕ) : Bytes :=
  bytesBE 64 signature.toNat ++ [UInt8.ofNat (27 + recoveryId)]

def Request.evm (r : Request) : Evm.CrossChainIdentityRegistry.BindIdentity where
  evmAddress := r.evmAddress
  stellarAddress := r.stellarAddress
  stellarPublicKey := r.stellarKey
  timestamp := r.timestamp
  evmSignature := signatureBytes r.evmSignature r.recoveryId
  stellarSignature := bytesBE 64 r.stellarSignature.toNat

def Request.soroban (r : Request) : Soroban.IdentityRegistry.BindIdentity where
  evmAddress := r.evmAddress
  stellarPubkey := r.stellarKey
  timestamp := r.timestamp
  evmSignature := r.evmSignature
  evmRecoveryId := r.recoveryId
  stellarSignature := r.stellarSignature

/-- A request and the calls of both chains that carry it, by clocks that agree. -/
structure Submission where
  request : Request
  evmEnv : Evm.Env
  sorobanEnv : Soroban.Env
  clock : sorobanEnv.timestamp = evmEnv.timestamp
  one_day : days 1 ≤ evmEnv.timestamp
  timestamp_lt : evmEnv.timestamp < 2 ^ 64

/-- The hosts compute the same functions. -/
structure SameCrypto (chain : Chain) (host : Soroban.Host) : Prop where
  keccak256 : host.keccak256 = chain.keccak256
  recover : ∀ digest signature recoveryId, LowS signature → recoveryId ≤ 1 →
    chain.tryRecover digest (signatureBytes signature recoveryId) =
      ((host.secp256k1Recover digest signature recoveryId).map (Soroban.ethereumAddress host)).filter (· ≠ 0)
  recovered_length : ∀ digest signature recoveryId key,
    host.secp256k1Recover digest signature recoveryId = some key → key.length = 65
  ed25519 : ∀ key message signature, host.ed25519Verify key message signature = true ↔
    Ed25519.verify (bytesBE 64 signature.toNat) (word key.toNat) message = .ok true

def NoCollision (host : Soroban.Host) : Prop :=
  ∀ digest signature recoveryId key, host.secp256k1Recover digest signature recoveryId = some key →
    Set.InjOn (fun bytes => Soroban.evmAddressOf (host.keccak256 bytes)) {key, key.drop 1}

variable {chain : Chain} {host : Soroban.Host} {env : Evm.Env} {senv : Soroban.Env} {i : Submission}

/-! ## When each chain accepts -/

def Request.recovered (host : Soroban.Host) (r : Request) : Option Bytes :=
  host.secp256k1Recover (Soroban.ethSignedMessage host
    (Soroban.IdentityRegistry.messageHash host r.evmAddress r.stellarKey r.timestamp)) r.evmSignature r.recoveryId

/-- What both chains ask for alike: the age and the Stellar signature. -/
structure Common (host : Soroban.Host) (i : Submission) : Prop where
  not_old : i.evmEnv.timestamp - days 1 ≤ i.request.timestamp
  not_future : i.request.timestamp ≤ i.evmEnv.timestamp + minutes 5
  stellar_signed : host.ed25519Verify i.request.stellarKey
    (word (Soroban.IdentityRegistry.messageHash host i.request.evmAddress i.request.stellarKey
      i.request.timestamp).toNat) i.request.stellarSignature = true

def EvmAccepts (chain : Chain) (s : EvmRegistry) (i : Submission) : Prop :=
  ∃ s', Evm.CrossChainIdentityRegistry.Steps chain s (i.evmEnv, i.request.evm) s'

def SorobanAccepts (host : Soroban.Host) (s : SorobanRegistry) (i : Submission) : Prop :=
  ∃ out, Soroban.IdentityRegistry.bindIdentity host i.sorobanEnv s i.request.soroban = .ok out

/-- Neither name of the request is in a binding of either chain. -/
structure Unbound (chain : Chain) (s : EvmRegistry) (s' : SorobanRegistry) (r : Request) : Prop where
  evm_address : (s.bindings r.evmAddress).bound = false
  evm_key : s.stellarToEvm (chain.keccak256 r.stellarAddress) = 0
  soroban_address : s'.evmToStellar r.evmAddress = none
  soroban_key : s'.stellarToEvm r.stellarKey = none

theorem payload_eq (r : Request) :
    payload r.evmAddress r.stellarKey r.timestamp =
      Soroban.IdentityRegistry.payload r.evmAddress r.stellarKey r.timestamp := by
  rw [payload, Soroban.IdentityRegistry.payload, uint64, Nat.mod_eq_of_lt r.timestamp_lt]

theorem SameCrypto.messageHash_eq (h : SameCrypto chain host) (r : Request) :
    Evm.CrossChainIdentityRegistry.messageHash chain r.evmAddress r.stellarKey r.timestamp =
      Soroban.IdentityRegistry.messageHash host r.evmAddress r.stellarKey r.timestamp := by
  rw [Evm.CrossChainIdentityRegistry.messageHash, payload_eq, ← h.keccak256]
  rfl

theorem SameCrypto.digest_eq (h : SameCrypto chain host) (message : Bytes32) :
    evmDigest chain message = Soroban.ethSignedMessage host message := by
  rw [evmDigest, Soroban.ethSignedMessage, h.keccak256]

theorem SameCrypto.valid_iff (h : SameCrypto chain host) (key : Bytes32) (message : Bytes)
    (signature : Soroban.Signature) :
    Ed25519.Valid (bytesBE 64 signature.toNat) (word key.toNat) message ↔
      host.ed25519Verify key message signature = true := by
  obtain ⟨result, hverify, hresult⟩ :=
    Ed25519.verify_spec (bytesBE 64 signature.toNat) (word key.toNat) message
  rw [h.ed25519, hverify, ← hresult, Except.ok.injEq]

theorem SameCrypto.recover_iff (h : SameCrypto chain host) (r : Request) :
    chain.tryRecover (evmDigest chain (Evm.CrossChainIdentityRegistry.messageHash chain r.evmAddress r.stellarKey
        r.timestamp)) (signatureBytes r.evmSignature r.recoveryId) = some r.evmAddress ↔
      r.evmAddress ≠ 0 ∧ ∃ key, r.recovered host = some key ∧ Soroban.ethereumAddress host key = r.evmAddress := by
  rw [h.messageHash_eq, h.digest_eq, h.recover _ _ _ r.low_s r.recoveryId_le, Option.filter_eq_some_iff,
    Option.map_eq_some_iff, decide_eq_true_eq, and_comm]
  rfl

theorem window_iff (i : Submission) : i.request.timestamp ≤ Soroban.saturatingAdd64 i.sorobanEnv.timestamp
    Soroban.IdentityRegistry.MAX_FUTURE_DRIFT ↔ i.request.timestamp ≤ i.evmEnv.timestamp + minutes 5 := by
  have hlt := i.request.timestamp_lt
  rw [i.clock, Soroban.saturatingAdd64, le_min_iff, Soroban.IdentityRegistry.MAX_FUTURE_DRIFT, minutes]
  omega

theorem evmAccepts_iff (h : SameCrypto chain host) {s : EvmRegistry}
    (hunbound : (s.bindings i.request.evmAddress).bound = false)
    (hfree : s.stellarToEvm (chain.keccak256 i.request.stellarAddress) = 0) :
    EvmAccepts chain s i ↔ Common host i ∧ i.request.evmAddress ≠ 0 ∧
      ∃ key, i.request.recovered host = some key ∧ Soroban.ethereumAddress host key = i.request.evmAddress := by
  constructor
  · rintro ⟨s', hstep⟩
    have hsigned := hstep.binds.signed
    have hvalid := (h.valid_iff ..).mp hsigned.stellar_signed
    change host.ed25519Verify i.request.stellarKey (word (Evm.CrossChainIdentityRegistry.messageHash chain
      i.request.evmAddress i.request.stellarKey i.request.timestamp).toNat) _ = true at hvalid
    rw [h.messageHash_eq] at hvalid
    exact ⟨⟨hsigned.not_old, hsigned.not_future, hvalid⟩, (h.recover_iff _).mp hsigned.evm_signed⟩
  · rintro ⟨⟨hold, hfuture, hvalid⟩, hrecovered⟩
    rw [← h.messageHash_eq, ← h.valid_iff] at hvalid
    have hlength : i.request.evm.evmSignature.length = 65 := by
      rw [Request.evm, signatureBytes, List.length_append, bytesBE_length]
      rfl
    exact Evm.CrossChainIdentityRegistry.bindIdentity_accepts (i := (i.evmEnv, i.request.evm)) hunbound hfree
      ⟨i.request.decodes, hold, hfuture, (h.recover_iff _).mpr hrecovered, hvalid⟩ i.one_day hlength

theorem sorobanAccepts_iff {s : SorobanRegistry} (hevm : s.evmToStellar i.request.evmAddress = none)
    (hstellar : s.stellarToEvm i.request.stellarKey = none) :
    SorobanAccepts host s i ↔ Common host i ∧ ∃ key, i.request.recovered host = some key ∧
      Soroban.evmAddressOf (host.keccak256 key) = i.request.evmAddress := by
  constructor
  · rintro ⟨out, h⟩
    obtain ⟨_, _, ⟨hold, hfuture, hsigned, hvalid⟩, _⟩ := Soroban.IdentityRegistry.bindIdentity_ok.mp h
    rw [i.clock] at hold
    exact ⟨⟨hold, (window_iff i).mp hfuture, hvalid⟩, hsigned⟩
  · rintro ⟨⟨hold, hfuture, hvalid⟩, hsigned⟩
    rw [← i.clock] at hold
    exact ⟨_, Soroban.IdentityRegistry.bindIdentity_ok.mpr
      ⟨hevm, hstellar, ⟨hold, (window_iff i).mpr hfuture, hsigned, hvalid⟩, rfl⟩⟩

/-- The registries see the request as authentic, on one of the chains: the address is the Ethereum address
of the recovered key, or the one that Soroban takes for it. -/
structure Claimed (host : Soroban.Host) (i : Submission) : Prop where
  common : Common host i
  address : ∃ key, i.request.recovered host = some key ∧
    (i.request.evmAddress ≠ 0 ∧ i.request.evmAddress = Soroban.ethereumAddress host key ∨
      i.request.evmAddress = Soroban.evmAddressOf (host.keccak256 key))

theorem addresses_ne (h : SameCrypto chain host) (hcollision : NoCollision host) {r : Request} {key : Bytes}
    (hkey : r.recovered host = some key) :
    Soroban.evmAddressOf (host.keccak256 key) ≠ Soroban.ethereumAddress host key := by
  intro hsame
  have heq : key = key.drop 1 := hcollision _ _ _ _ hkey (Or.inl rfl) (Or.inr rfl) hsame
  have hlength := h.recovered_length _ _ _ _ hkey
  have hdrop := congrArg List.length heq
  rw [List.length_drop] at hdrop
  omega

theorem not_both (h : SameCrypto chain host) (hcollision : NoCollision host) {s : EvmRegistry}
    {s' : SorobanRegistry} (hunbound : Unbound chain s s' i.request) (hevm : EvmAccepts chain s i) :
    ¬ SorobanAccepts host s' i := by
  intro hsoroban
  obtain ⟨_, _, key, hkey, haddress⟩ :=
    (evmAccepts_iff h hunbound.evm_address hunbound.evm_key).mp hevm
  obtain ⟨_, key', hkey', haddress'⟩ :=
    (sorobanAccepts_iff hunbound.soroban_address hunbound.soroban_key).mp hsoroban
  obtain rfl : key = key' := Option.some.inj (hkey.symm.trans hkey')
  exact addresses_ne h hcollision hkey (haddress'.trans haddress.symm)

theorem accepts_iff_claimed (h : SameCrypto chain host) {s : EvmRegistry} {s' : SorobanRegistry}
    (hunbound : Unbound chain s s' i.request) :
    EvmAccepts chain s i ∨ SorobanAccepts host s' i ↔ Claimed host i := by
  rw [evmAccepts_iff h hunbound.evm_address hunbound.evm_key,
    sorobanAccepts_iff hunbound.soroban_address hunbound.soroban_key]
  constructor
  · rintro (⟨hcommon, hne, key, hkey, haddress⟩ | ⟨hcommon, key, hkey, haddress⟩)
    · exact ⟨hcommon, key, hkey, .inl ⟨hne, haddress.symm⟩⟩
    · exact ⟨hcommon, key, hkey, .inr haddress.symm⟩
  · rintro ⟨hcommon, key, hkey, ⟨hne, haddress⟩ | haddress⟩
    · exact .inl ⟨hcommon, hne, key, hkey, haddress.symm⟩
    · exact .inr ⟨hcommon, key, hkey, haddress.symm⟩

theorem accept_alike_iff (h : SameCrypto chain host) (hcollision : NoCollision host) {s : EvmRegistry}
    {s' : SorobanRegistry} (hunbound : Unbound chain s s' i.request) :
    (EvmAccepts chain s i ↔ SorobanAccepts host s' i) ↔ ¬ Claimed host i := by
  rw [← accepts_iff_claimed h hunbound]
  constructor
  · rintro halike (hevm | hsoroban)
    · exact not_both h hcollision hunbound hevm (halike.mp hevm)
    · exact not_both h hcollision hunbound (halike.mpr hsoroban) hsoroban
  · intro hneither
    rw [not_or] at hneither
    exact iff_of_false hneither.1 hneither.2

/-! ## Runs -/

abbrev Both := EvmRegistry × SorobanRegistry

/-- A chain that accepts takes the binding, one that refuses keeps its registry. -/
inductive Submits (chain : Chain) (host : Soroban.Host) (s : Both) (i : Submission) : Both → Prop
  | both {s₁ : EvmRegistry} {s₂ : SorobanRegistry} {b : Soroban.IdentityRegistry.IdentityBinding} :
      Evm.CrossChainIdentityRegistry.Steps chain s.1 (i.evmEnv, i.request.evm) s₁ →
      Soroban.IdentityRegistry.bindIdentity host i.sorobanEnv s.2 i.request.soroban = .ok (s₂, b) →
      Submits chain host s i (s₁, s₂)
  | evm {s₁ : EvmRegistry} : Evm.CrossChainIdentityRegistry.Steps chain s.1 (i.evmEnv, i.request.evm) s₁ →
      ¬ SorobanAccepts host s.2 i → Submits chain host s i (s₁, s.2)
  | soroban {s₂ : SorobanRegistry} {b : Soroban.IdentityRegistry.IdentityBinding} :
      ¬ EvmAccepts chain s.1 i →
      Soroban.IdentityRegistry.bindIdentity host i.sorobanEnv s.2 i.request.soroban = .ok (s₂, b) →
      Submits chain host s i (s.1, s₂)
  | neither : ¬ EvmAccepts chain s.1 i → ¬ SorobanAccepts host s.2 i → Submits chain host s i s

/-- Runs of the two from their deployment. -/
abbrev BothRun (chain : Chain) (host : Soroban.Host) (hist : List (Transition Both Submission)) (s : Both) : Prop :=
  Run (· = (({}, {}) : Both)) (Submits chain host) hist s

/-- The lookups of the two agree, in both directions. -/
structure Agree (chain : Chain) (s : Both) : Prop where
  forward : ∀ e str key, StrKey.decodeEd25519PublicKey str = .ok key →
    (Evm.CrossChainIdentityRegistry.resolveEvmToStellar s.1 e = .ok str ↔
      ∃ b, Soroban.IdentityRegistry.resolveEvmToStellar s.2 e = some b ∧ b.stellarPubkey = key)
  reverse : ∀ e str key, StrKey.decodeEd25519PublicKey str = .ok key →
    (Evm.CrossChainIdentityRegistry.resolveStellarToEvm chain s.1 str = .ok e ↔
      ∃ b, Soroban.IdentityRegistry.resolveStellarToEvm s.2 key = some b ∧ b.evmAddress = e)

theorem agree_empty : Agree chain ({}, {}) where
  forward e str key _ := by
    rw [Evm.CrossChainIdentityRegistry.resolveEvmToStellar_ok]
    simp [Soroban.IdentityRegistry.resolveEvmToStellar]
  reverse e str key _ := by
    rw [Evm.CrossChainIdentityRegistry.resolveStellarToEvm_ok]
    simp [Soroban.IdentityRegistry.resolveStellarToEvm, Evm.CrossChainIdentityRegistry.ownerOf]

theorem unbound_empty (r : Request) : Unbound chain {} {} r := ⟨rfl, rfl, rfl, rfl⟩

theorem resolves_of_evm {s s' : EvmRegistry}
    (h : Evm.CrossChainIdentityRegistry.Steps chain s (i.evmEnv, i.request.evm) s') :
    Evm.CrossChainIdentityRegistry.resolveEvmToStellar s' i.request.evmAddress = .ok i.request.stellarAddress := by
  have hbinding : s'.bindings i.request.evmAddress = i.request.evm.binding := by
    rw [h.binds.bindings]
    exact Function.update_self ..
  rw [Evm.CrossChainIdentityRegistry.resolveEvmToStellar_ok, hbinding]
  exact ⟨rfl, rfl⟩

theorem not_agree_of_claimed (h : SameCrypto chain host) (hcollision : NoCollision host) {s : Both}
    (hclaimed : Claimed host i) (hstep : Submits chain host ({}, {}) i s) : ¬ Agree chain s := by
  intro hagree
  have hdecodes := i.request.decodes
  have haccepts := (accepts_iff_claimed h (unbound_empty _)).mpr hclaimed
  cases hstep with
  | both hevm hsoroban => exact not_both h hcollision (unbound_empty _) ⟨_, hevm⟩ ⟨_, hsoroban⟩
  | evm hevm hrefused =>
    obtain ⟨b, hb, _⟩ := (hagree.forward _ _ _ hdecodes).mp (resolves_of_evm hevm)
    cases hb
  | soroban hrefused hsoroban =>
    obtain ⟨_, _, _, hout⟩ := Soroban.IdentityRegistry.bindIdentity_ok.mp hsoroban
    obtain ⟨rfl, rfl⟩ := Prod.mk.inj hout
    have hresolved := (hagree.forward i.request.evmAddress _ _ hdecodes).mpr
      ⟨i.request.soroban.binding, Function.update_self .., rfl⟩
    rw [Evm.CrossChainIdentityRegistry.resolveEvmToStellar_ok] at hresolved
    cases hresolved.1
  | neither hevm hsoroban => exact haccepts.elim hevm hsoroban

theorem empty_of_not_claimed (h : SameCrypto chain host) {hist : List (Transition Both Submission)} {s : Both}
    (hrun : BothRun chain host hist s) (hhist : ∀ t ∈ hist, ¬ Claimed host t.label) : s = ({}, {}) := by
  refine hrun.relates_of (R := fun _ s => s = ({}, {})) (fun s hs => hs) ?_ hhist
  rintro hist s i s' _ rfl hclaimed hstep
  have hneither := mt (accepts_iff_claimed h (unbound_empty _)).mp hclaimed
  rw [not_or] at hneither
  cases hstep with
  | both hevm _ => exact absurd ⟨_, hevm⟩ hneither.1
  | evm hevm _ => exact absurd ⟨_, hevm⟩ hneither.1
  | soroban _ hsoroban => exact absurd ⟨_, hsoroban⟩ hneither.2
  | neither _ _ => rfl

theorem agree_throughout_iff (h : SameCrypto chain host) (hcollision : NoCollision host)
    {hist : List (Transition Both Submission)} {s : Both} (hrun : BothRun chain host hist s) :
    (∀ early mid, Visits hist s early mid → Agree chain mid) ↔ ∀ t ∈ hist, ¬ Claimed host t.label := by
  constructor
  · intro hagree
    induction hrun with
    | start _ => exact fun t ht => absurd ht List.not_mem_nil
    | @next hist s s' i hrun hstep ih =>
      have hbefore := ih fun early mid hvisit => hagree early mid (.before hvisit)
      obtain rfl := empty_of_not_claimed h hrun hbefore
      intro t ht
      rcases List.mem_cons.mp ht with rfl | ht
      · exact fun hclaimed => not_agree_of_claimed h hcollision hclaimed hstep (hagree _ _ .here)
      · exact hbefore t ht
  · intro hhist early mid hvisit
    have hearly : ∀ t ∈ early, ¬ Claimed host t.label := fun t ht => hhist t (hvisit.suffix.subset ht)
    rw [empty_of_not_claimed h (hvisit.run hrun) hearly]
    exact agree_empty

/-- The registries accept alike, and agree in every state of a run, exactly on what neither accepts. -/
theorem registries_agree_iff (h : SameCrypto chain host) (hcollision : NoCollision host) :
    (∀ i s s', Unbound chain s s' i.request →
      ((EvmAccepts chain s i ↔ SorobanAccepts host s' i) ↔ ¬ Claimed host i)) ∧
    ∀ hist s, BothRun chain host hist s →
      ((∀ early mid, Visits hist s early mid → Agree chain mid) ↔ ∀ t ∈ hist, ¬ Claimed host t.label) := by
  refine ⟨?_, ?_⟩
  · intro i s s' hunbound
    exact accept_alike_iff h hcollision hunbound
  · intro hist s hrun
    exact agree_throughout_iff h hcollision hrun

/-! ## A binding that one chain refuses -/

def chainOf (host : Soroban.Host) : Chain where
  keccak256 := host.keccak256
  tryRecover := fun digest signature =>
    ((host.secp256k1Recover digest (BitVec.ofNat 512 (natBE (signature.take 64)))
      ((signature.getLastD 0).toNat - 27)).map (Soroban.ethereumAddress host)).filter (· ≠ 0)
  domainSeparator := 0
  blsPairing := fun _ => none
  chainId := 43114
  self := 0x5900

theorem toNat_lt_pow (len : ℕ) (x : BitVec (8 * len)) : x.toNat < 256 ^ len := x.isLt.trans_eq (pow_mul 2 8 len)

theorem sameCrypto_chainOf {host : Soroban.Host}
    (hlength : ∀ digest signature recoveryId key,
      host.secp256k1Recover digest signature recoveryId = some key → key.length = 65)
    (hverify : ∀ key message signature, host.ed25519Verify key message signature = true ↔
      Ed25519.verify (bytesBE 64 signature.toNat) (word key.toNat) message = .ok true) :
    SameCrypto (chainOf host) host where
  keccak256 := rfl
  recover := by
    intro digest signature recoveryId _ hid
    have hbytes : (signatureBytes signature recoveryId).take 64 = bytesBE 64 signature.toNat := by
      rw [signatureBytes, List.take_append_of_le_length (by simp), List.take_of_length_le (by simp)]
    have hlast : (signatureBytes signature recoveryId).getLastD 0 = UInt8.ofNat (27 + recoveryId) := by
      simp [signatureBytes]
    have hrecovery : (UInt8.ofNat (27 + recoveryId)).toNat - 27 = recoveryId := by
      rw [UInt8.toNat_ofNat']
      omega
    have hvalue : BitVec.ofNat 512 (natBE (bytesBE 64 signature.toNat)) = signature := by
      have hlt : signature.toNat < 256 ^ 64 := toNat_lt_pow 64 signature
      rw [natBE_bytesBE, Nat.mod_eq_of_lt hlt, BitVec.ofNat_toNat, BitVec.setWidth_eq]
    simp only [chainOf, hbytes, hlast, hrecovery, hvalue]
  recovered_length := hlength
  ed25519 := hverify

/-- The message of the address of the secret 1 and the key of the neutral point. -/
def walletPayload : Bytes :=
  Soroban.IdentityRegistry.payload 0x7e5f4552091a69125d5dfcb7b8c2659029395bdf (BitVec.ofNat 256 (2 ^ 248)) 199000

def walletMessage : Bytes32 := 0x541665fc5b814c2cab6715a3f3faa5eed7ed73f29836666d2e1cf41ae4b7553c

def walletDigest : Bytes32 := 0x67829c9b7bca0041879b723cb779174607e4dba42d6c4a785b29aa77bb746e7a

/-- By the secret 1. -/
def walletSignature : Soroban.Signature :=
  (0xc6047f9441ed7d6d3045406e95c07cd85c778e4b8cef3ca7abac09b95c709ee5 : Bytes32) ++
    (0x16c38e17dedbbed75bf05955a69cca0fd4d6c684858973722381aad223d7660f : Bytes32)

/-- The values of the host functions on that message, that signature and its key. -/
def walletHost : Soroban.Host where
  keccak256 := fun b =>
    if b = walletPayload then walletMessage
    else if b = [0x19] ++ ascii "Ethereum Signed Message:\n32" ++ word walletMessage.toNat then walletDigest
    else if b = Soroban.generatorKey then 0x393a75c54f3552ba0c8900297d6e99bb8abf8cc013bb0e912d0b176596fe7b88
    else if b = Soroban.generatorKey.drop 1 then
      0xc0a6c424ac7157ae408398df7e5f4552091a69125d5dfcb7b8c2659029395bdf
    else 0x3c1764dca2211e254479b7bae2f4f93a7355a23b03b2beeff333c96bc404f6d6
  ed25519Verify := fun key message signature =>
    match Ed25519.verify (bytesBE 64 signature.toNat) (word key.toNat) message with
    | .ok accepted => accepted
    | .error _ => false
  secp256k1Recover := fun digest signature recoveryId =>
    if digest = walletDigest ∧ signature = walletSignature ∧ recoveryId = 0 then some Soroban.generatorKey
    else none
  toXdr := fun _ => []
  groth16 := fun _ => .error .InvalidProof

theorem walletHost_recovers {digest : Bytes32} {signature : Soroban.Signature} {recoveryId : ℕ} {key : Bytes}
    (h : walletHost.secp256k1Recover digest signature recoveryId = some key) : key = Soroban.generatorKey := by
  simp only [walletHost] at h
  split at h
  · exact (Option.some.inj h).symm
  · cases h

theorem walletHost_sameCrypto : SameCrypto (chainOf walletHost) walletHost := by
  apply sameCrypto_chainOf
  · intro digest signature recoveryId key hkey
    rw [walletHost_recovers hkey]
    decide +kernel
  · intro key message signature
    simp only [walletHost]
    cases Ed25519.verify (bytesBE 64 signature.toNat) (word key.toNat) message with
    | ok accepted => simp
    | error e => simp

theorem walletHost_noCollision : NoCollision walletHost := by
  intro digest signature recoveryId key hkey
  have hne : Soroban.evmAddressOf (walletHost.keccak256 Soroban.generatorKey) ≠
      Soroban.evmAddressOf (walletHost.keccak256 (Soroban.generatorKey.drop 1)) := by
    decide +kernel
  rw [walletHost_recovers hkey]
  rintro x (rfl | rfl) y (rfl | rfl) hxy
  · rfl
  · exact absurd hxy hne
  · exact absurd hxy (Ne.symm hne)
  · rfl

/-- The wallet of the secret 1 and the neutral point, under which everything is signed. -/
def walletRequest : Request where
  evmAddress := 0x7e5f4552091a69125d5dfcb7b8c2659029395bdf
  stellarAddress := ascii "GAAQAAAAAAAAAAAAAAAAAAAAAAAAAAAAAAAAAAAAAAAAAAAAAAAAAHV4"
  stellarKey := BitVec.ofNat 256 (2 ^ 248)
  timestamp := 199000
  evmSignature := walletSignature
  recoveryId := 0
  stellarSignature := BitVec.ofNat 512 (2 ^ 504)
  decodes := by decide +kernel
  timestamp_lt := by decide
  low_s := by decide +kernel
  recoveryId_le := by decide

def walletSubmission : Submission where
  request := walletRequest
  evmEnv := Evm.CrossChainIdentityRegistry.neutralCall.1
  sorobanEnv := Soroban.invokedBy [] 200000
  clock := rfl
  one_day := by decide
  timestamp_lt := by decide

theorem wallet_recovered : walletRequest.recovered walletHost = some Soroban.generatorKey := by
  decide +kernel

theorem wallet_common : Common walletHost walletSubmission where
  not_old := by decide
  not_future := by decide
  stellar_signed := by
    rw [← walletHost_sameCrypto.valid_iff]
    have hbytes : bytesBE 64 walletSubmission.request.stellarSignature.toNat = 1 :: List.replicate 63 0 := by
      decide +kernel
    have hkey : walletSubmission.request.stellarKey.toNat = 2 ^ 248 := by decide +kernel
    rw [hbytes, hkey]
    exact Evm.CrossChainIdentityRegistry.neutral_valid _

theorem wallet_ethereum : Soroban.ethereumAddress walletHost Soroban.generatorKey = walletRequest.evmAddress := by
  decide +kernel

theorem wallet_claimed : Claimed walletHost walletSubmission :=
  ⟨wallet_common, _, wallet_recovered, .inl ⟨by decide +kernel, wallet_ethereum.symm⟩⟩

theorem registries_agree_iff_wallet :
    ¬ (EvmAccepts (chainOf walletHost) {} walletSubmission ↔ SorobanAccepts walletHost {} walletSubmission) ∧
      ∀ hist s, BothRun (chainOf walletHost) walletHost hist s →
        ((∀ early mid, Visits hist s early mid → Agree (chainOf walletHost) mid) ↔
          ∀ t ∈ hist, ¬ Claimed walletHost t.label) := by
  have h := registries_agree_iff walletHost_sameCrypto walletHost_noCollision
  refine ⟨?_, h.2⟩
  rw [h.1 _ _ _ (unbound_empty _), not_not]
  exact wallet_claimed

/-- The EVM binds the wallet, and Soroban refuses it. -/
theorem registries_disagree : SameCrypto (chainOf walletHost) walletHost ∧ NoCollision walletHost ∧
    EvmAccepts (chainOf walletHost) {} walletSubmission ∧ ¬ SorobanAccepts walletHost {} walletSubmission ∧
    ∃ s, BothRun (chainOf walletHost) walletHost [⟨({}, {}), walletSubmission, s⟩] s ∧
      ¬ Agree (chainOf walletHost) s := by
  have hsame := walletHost_sameCrypto
  have hevm : EvmAccepts (chainOf walletHost) {} walletSubmission := by
    rw [evmAccepts_iff hsame rfl rfl]
    exact ⟨wallet_common, by decide +kernel, _, wallet_recovered, wallet_ethereum⟩
  have hsoroban := not_both hsame walletHost_noCollision (unbound_empty _) hevm
  refine ⟨hsame, walletHost_noCollision, hevm, hsoroban, ?_⟩
  obtain ⟨s, hstep⟩ := hevm
  have hsubmits : Submits (chainOf walletHost) walletHost ({}, {}) walletSubmission (s, {}) := .evm hstep hsoroban
  exact ⟨(s, {}), .next (.start rfl) hsubmits, not_agree_of_claimed hsame walletHost_noCollision wallet_claimed hsubmits⟩

end ChainGuard.Link.IdentityRegistries
