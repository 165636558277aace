import ChainGuard.Evm.Primitives
import ChainGuard.Library.CallStack
import ChainGuard.Library.History

/-! `ERC6551Registry` and `SpooAccountImplementation`: accounts that are bound to tokens, deployed by
CREATE2 as proxies, and driven by the owner of the token. A call to another contract is open until that
contract returns, and may create and drive accounts meanwhile. -/
namespace ChainGuard.Evm.TokenBoundAccounts
open CallStack Guarded History
set_option autoImplicit false

abbrev Uint256 := BitVec 256

structure AccountContext where
  chainId : Uint256 := 0
  tokenContract : Address := 0
  tokenId : Uint256 := 0
  salt : Uint256 := 0
  deriving DecidableEq

/-- The arguments of `account` and `createAccount` that determine the account. -/
structure Binding where
  implementation : Address
  context : AccountContext
  deriving DecidableEq

/-- The storage of the registry and of the accounts, and the tokens of all chains. -/
structure World where
  /-- What the proxy at an address delegates to. -/
  code : Address → Option Address := fun _ => none
  contexts : Address → AccountContext := fun _ => {}
  state : Address → ℕ := fun _ => 0
  locked : Address → Bool := fun _ => false
  /-- `ownerOf`, by chain. -/
  ownerOf : Uint256 → Address → Uint256 → Option Address := fun _ _ _ => none

/-! ## `ERC6551Registry` -/

inductive RegistryError
  | createFailed
  deriving DecidableEq, Repr

/-- ERC-1167 -/
def proxyCode (implementation : Address) : Bytes :=
  [0x3d, 0x60, 0x2d, 0x80, 0x60, 0x0a, 0x3d, 0x39, 0x81, 0xf3, 0x36, 0x3d, 0x3d, 0x37, 0x3d, 0x3d, 0x3d, 0x36,
    0x3d, 0x73] ++ bytesBE 20 implementation.toNat ++
  [0x5a, 0xf4, 0x3d, 0x82, 0x80, 0x3e, 0x90, 0x3d, 0x91, 0x60, 0x2b, 0x57, 0xfd, 0x5b, 0xf3]

/-- `abi.encode(chainId, tokenContract, tokenId, salt)` -/
def encodeContext (c : AccountContext) : Bytes :=
  abiEncode [c.chainId.toNat, c.tokenContract.toNat, c.tokenId.toNat, c.salt.toNat]

/-- `abi.encodePacked(bytes1(0xff), deployer, salt32, codeHash)` -/
def addressPreimage (deployer : Address) (codeHash salt32 : Bytes32) : Bytes :=
  [0xff] ++ bytesBE 20 deployer.toNat ++ word salt32.toNat ++ word codeHash.toNat

/-- `address(uint160(uint256(hash)))` -/
def addressOf (hash : Bytes32) : Address := hash.setWidth 160

section Calls
variable (chain : Chain)

def deriveSalt (c : AccountContext) : Bytes32 := chain.keccak256 (encodeContext c)

def computeAddressFromCode (codeHash salt32 : Bytes32) : Address :=
  addressOf (chain.keccak256 (addressPreimage chain.self codeHash salt32))

def account (x : Binding) : Address :=
  let salt32 := deriveSalt chain x.context
  let codeHash := chain.keccak256 (proxyCode x.implementation)
  computeAddressFromCode chain codeHash salt32

/-- The address that CREATE2 deploys at. -/
def create2Address (deployer : Address) (salt32 : Bytes32) (initCode : Bytes) : Address :=
  addressOf (chain.keccak256 (addressPreimage deployer (chain.keccak256 initCode) salt32))

/-- `createAccount` up to its init call, and the address that it returns. -/
def createAccount (w : World) (x : Binding) : Except RegistryError (World × Address) :=
  let code := proxyCode x.implementation
  let salt32 := deriveSalt chain x.context
  let tbaAccount := computeAddressFromCode chain (chain.keccak256 code) salt32
  if (w.code tbaAccount).isSome then .ok (w, tbaAccount)
  else do
    let tbaAccount := create2Address chain chain.self salt32 code
    revertIf (tbaAccount = 0) .createFailed
    pure ({ w with
        code := Function.update w.code tbaAccount (some x.implementation)
        contexts := Function.update w.contexts tbaAccount x.context }, tbaAccount)

/-! ## `SpooAccountImplementation` -/

inductive AccountError
  | NotTokenOwner
  | Reentrancy
  /-- `ownerOf` reverts. -/
  | NonexistentToken
  | Panic
  deriving DecidableEq, Repr

/-- A call of `executeCall`. -/
structure Execution where
  sender : Address
  account : Address
  target : Address
  value : ℕ
  data : Bytes
  deriving DecidableEq

def token (w : World) (a : Address) : Uint256 × Address × Uint256 :=
  ((w.contexts a).chainId, (w.contexts a).tokenContract, (w.contexts a).tokenId)

/-- `ownerOf` of the contract at that address here; the chain of the token is dropped. -/
def owner (w : World) (a : Address) : Except AccountError Address :=
  let (_, tokenContract, tokenId) := token w a
  match w.ownerOf (BitVec.ofNat 256 chain.chainId) tokenContract tokenId with
  | some o => .ok o
  | none => .error .NonexistentToken

/-- `executeCall` up to its call of the target. -/
def executeCall (w : World) (e : Execution) : Except AccountError World := do
  let o ← owner chain w e.account
  revertIf (e.sender ≠ o) .NotTokenOwner
  revertIf (w.locked e.account = true) .Reentrancy
  revertIf (2 ^ 256 ≤ w.state e.account + 1) .Panic
  pure { w with
    locked := Function.update w.locked e.account true
    state := Function.update w.state e.account (w.state e.account + 1) }

end Calls

/-- The end of `executeCall`, once the target has returned. -/
def executeCallReturn (w : World) (e : Execution) : World :=
  { w with locked := Function.update w.locked e.account false }

/-! ## Runs -/

/-- Open calls: the init call of `createAccount`, the call of `executeCall`, and any other. -/
inductive Open
  | init (account : Address)
  | execute (e : Execution)
  | other

/-- What others do: accounts of other implementations change themselves, down to their destruction. -/
structure Foreign (spoo : Address) (w w' : World) : Prop where
  contexts : w'.contexts = w.contexts
  ownerOf : w'.ownerOf = w.ownerOf
  code : ∀ a, w'.code a = w.code a ∨ w.code a ≠ some spoo ∧ w'.code a = none
  state : ∀ a, w.code a = some spoo → w'.state a = w.state a
  locked : ∀ a, w.code a = some spoo → w'.locked a = w.locked a

inductive Label
  | enter | leave | fail
  | create (x : Binding)
  | created (account : Address)
  | execute (e : Execution)
  | executed (e : Execution)
  /-- Any transfers, on any chain. -/
  | transfers
  | foreign

abbrev State := Stacked Open World

/-- The steps; `spoo` is the implementation whose `registry` is this one. A call that reverts before it
calls another contract changes nothing. -/
inductive Steps (chain : Chain) (spoo : Address) : State → Label → State → Prop
  | enter {w : World} {fs : List (CallStack.Frame Open World)} : Steps chain spoo ⟨w, fs⟩ .enter ⟨w, ⟨.other, w⟩ :: fs⟩
  | leave {w saved : World} {fs : List (CallStack.Frame Open World)} :
      Steps chain spoo ⟨w, ⟨.other, saved⟩ :: fs⟩ .leave ⟨w, fs⟩
  | fail {w saved : World} {k : Open} {fs : List (CallStack.Frame Open World)} :
      Steps chain spoo ⟨w, ⟨k, saved⟩ :: fs⟩ .fail ⟨saved, fs⟩
  | create {w w' : World} {fs : List (CallStack.Frame Open World)} {x : Binding} {a : Address} :
      createAccount chain w x = .ok (w', a) → Steps chain spoo ⟨w, fs⟩ (.create x) ⟨w', fs⟩
  | createInit {w w' : World} {fs : List (CallStack.Frame Open World)} {x : Binding} {a : Address} :
      createAccount chain w x = .ok (w', a) → (w.code a).isSome = false →
      Steps chain spoo ⟨w, fs⟩ (.create x) ⟨w', ⟨.init a, w⟩ :: fs⟩
  | created {w saved : World} {fs : List (CallStack.Frame Open World)} {a : Address} :
      Steps chain spoo ⟨w, ⟨.init a, saved⟩ :: fs⟩ (.created a) ⟨w, fs⟩
  | execute {w w' : World} {fs : List (CallStack.Frame Open World)} {e : Execution} :
      w.code e.account = some spoo → executeCall chain w e = .ok w' →
      Steps chain spoo ⟨w, fs⟩ (.execute e) ⟨w', ⟨.execute e, w⟩ :: fs⟩
  | executed {w saved : World} {fs : List (CallStack.Frame Open World)} {e : Execution} :
      Steps chain spoo ⟨w, ⟨.execute e, saved⟩ :: fs⟩ (.executed e) ⟨executeCallReturn w e, fs⟩
  | transfers {w : World} {fs : List (CallStack.Frame Open World)}
      (ownerOf : Uint256 → Address → Uint256 → Option Address) :
      Steps chain spoo ⟨w, fs⟩ .transfers ⟨{ w with ownerOf }, fs⟩
  | foreign {w w' : World} {fs : List (CallStack.Frame Open World)} :
      Foreign spoo w w' → Steps chain spoo ⟨w, fs⟩ .foreign ⟨w', fs⟩

/-- Runs from the deployment of the registry, over tokens of any owners. -/
abbrev AccountRun (chain : Chain) (spoo : Address) (hist : List (Transition State Label)) (s : State) : Prop :=
  Run (fun s => ∃ ownerOf, s = ⟨{ ownerOf }, []⟩) (Steps chain spoo) hist s

end ChainGuard.Evm.TokenBoundAccounts
