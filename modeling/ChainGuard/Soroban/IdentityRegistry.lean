import ChainGuard.Soroban.Primitives

/-! `IdentityRegistry` of Soroban: EVM addresses bound to Ed25519 keys by a message that both owners
sign. -/
namespace ChainGuard.Soroban.IdentityRegistry
open Guarded
set_option autoImplicit false

def MAX_BINDING_AGE : ℕ := 24 * 60 * 60
def MAX_FUTURE_DRIFT : ℕ := 5 * 60

inductive IdentityRegistryError
  | InvalidTimestamp
  | AlreadyBound
  | EvmAddressMismatch
  | InvalidEvmSignature
  | InvalidStellarSignature
  | NotBound
  deriving DecidableEq, Repr

/-- Why a call fails: a host function, or a typed error. -/
inductive RegistryFailure
  | host
  | registry (error : IdentityRegistryError)
  deriving DecidableEq, Repr

structure IdentityBinding where
  evmAddress : EvmAddress
  stellarPubkey : Bytes32
  timestamp : ℕ
  deriving DecidableEq

/-- The entries of the two kinds of keys. -/
structure Registry where
  evmToStellar : EvmAddress → Option IdentityBinding := fun _ => none
  stellarToEvm : Bytes32 → Option IdentityBinding := fun _ => none

/-- The arguments of `bind_identity`. -/
structure BindIdentity where
  evmAddress : EvmAddress
  stellarPubkey : Bytes32
  timestamp : ℕ
  evmSignature : Signature
  evmRecoveryId : ℕ
  stellarSignature : Signature

def payload (evmAddress : EvmAddress) (stellarPubkey : Bytes32) (timestamp : ℕ) : Bytes :=
  ascii "BindIdentity" ++ bytesBE 20 evmAddress.toNat ++ word stellarPubkey.toNat ++ bytesBE 8 timestamp

section Calls
variable (host : Host)

def messageHash (evmAddress : EvmAddress) (stellarPubkey : Bytes32) (timestamp : ℕ) : Bytes32 :=
  host.keccak256 (payload evmAddress stellarPubkey timestamp)

def bindIdentity (env : Env) (s : Registry) (c : BindIdentity) :
    Except RegistryFailure (Registry × IdentityBinding) := do
  let now := env.timestamp
  revertIf (c.timestamp < now - MAX_BINDING_AGE ∨ saturatingAdd64 now MAX_FUTURE_DRIFT < c.timestamp)
    (.registry .InvalidTimestamp)
  revertIf ((s.evmToStellar c.evmAddress).isSome = true ∨ (s.stellarToEvm c.stellarPubkey).isSome = true)
    (.registry .AlreadyBound)
  let message := messageHash host c.evmAddress c.stellarPubkey c.timestamp
  match host.secp256k1Recover (ethSignedMessage host message) c.evmSignature c.evmRecoveryId with
  | none => .error .host
  | some recoveredPubkey =>
    -- the whole SEC1 key is hashed here, its first byte included
    let recoveredEvm := evmAddressOf (host.keccak256 recoveredPubkey)
    revertIf (recoveredEvm ≠ c.evmAddress) (.registry .EvmAddressMismatch)
    revertIf (host.ed25519Verify c.stellarPubkey (word message.toNat) c.stellarSignature = false) .host
    let binding : IdentityBinding := ⟨c.evmAddress, c.stellarPubkey, c.timestamp⟩
    pure ({ evmToStellar := Function.update s.evmToStellar c.evmAddress (some binding)
            stellarToEvm := Function.update s.stellarToEvm c.stellarPubkey (some binding) }, binding)

end Calls

def resolveEvmToStellar (s : Registry) (evmAddress : EvmAddress) : Option IdentityBinding :=
  s.evmToStellar evmAddress

def resolveStellarToEvm (s : Registry) (stellarPubkey : Bytes32) : Option IdentityBinding :=
  s.stellarToEvm stellarPubkey

/-! ## What an accepted call requires and does -/

variable {host : Host} {env : Env} {s : Registry} {c : BindIdentity}

def BindIdentity.binding (c : BindIdentity) : IdentityBinding := ⟨c.evmAddress, c.stellarPubkey, c.timestamp⟩

def Registry.bind (s : Registry) (c : BindIdentity) : Registry where
  evmToStellar := Function.update s.evmToStellar c.evmAddress (some c.binding)
  stellarToEvm := Function.update s.stellarToEvm c.stellarPubkey (some c.binding)

/-- The signatures of a call and its age; the address is that of the hash of all 65 bytes. -/
structure DualSigned (host : Host) (env : Env) (c : BindIdentity) : Prop where
  not_old : env.timestamp - MAX_BINDING_AGE ≤ c.timestamp
  not_future : c.timestamp ≤ saturatingAdd64 env.timestamp MAX_FUTURE_DRIFT
  evm_signed : ∃ key,
    host.secp256k1Recover (ethSignedMessage host (messageHash host c.evmAddress c.stellarPubkey c.timestamp))
      c.evmSignature c.evmRecoveryId = some key ∧ evmAddressOf (host.keccak256 key) = c.evmAddress
  stellar_signed : host.ed25519Verify c.stellarPubkey
    (word (messageHash host c.evmAddress c.stellarPubkey c.timestamp).toNat) c.stellarSignature = true

theorem bindIdentity_ok {out : Registry × IdentityBinding} : bindIdentity host env s c = .ok out ↔
    s.evmToStellar c.evmAddress = none ∧ s.stellarToEvm c.stellarPubkey = none ∧ DualSigned host env c ∧
      out = (s.bind c, c.binding) := by
  rw [bindIdentity]
  simp only [revertIf_bind, not_or, not_lt, Option.not_isSome_iff_eq_none]
  constructor
  · rintro ⟨⟨hold, hfuture⟩, ⟨hevm, hstellar⟩, h⟩
    refine ⟨hevm, hstellar, ?_⟩
    split at h
    · cases h
    · next key hkey =>
      simp only [revertIf_bind, not_not, Bool.not_eq_false, pure_ok] at h
      obtain ⟨haddress, hverified, rfl⟩ := h
      exact ⟨⟨hold, hfuture, ⟨key, hkey, haddress⟩, hverified⟩, rfl⟩
  · rintro ⟨hevm, hstellar, ⟨hold, hfuture, ⟨key, hkey, haddress⟩, hverified⟩, rfl⟩
    refine ⟨⟨hold, hfuture⟩, ⟨hevm, hstellar⟩, ?_⟩
    rw [hkey]
    simp only [revertIf_bind, not_not, Bool.not_eq_false, pure_ok]
    exact ⟨haddress, hverified, rfl⟩

end ChainGuard.Soroban.IdentityRegistry
