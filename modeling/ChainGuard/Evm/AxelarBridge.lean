import ChainGuard.Evm.Precompiles
import ChainGuard.Library.Spending

/-! `SpooVaultAxelarBridge`: approvals sent over the gateway and received from it, and two instances
that trust each other. -/
namespace ChainGuard.Evm.AxelarBridge
open Guarded History
set_option autoImplicit false

inductive BridgeError
  | NotAxelarGateway
  | NotAdmin
  | UntrustedSource
  | MessageAlreadyProcessed
  /-- `abi.decode` -/
  | Panic
  deriving DecidableEq, Repr

abbrev Result (α : Type) := Except BridgeError α

structure Approval where
  vaultGID : Bytes32
  guardian : Address
  approvalType : BitVec 8
  nonce : Bytes32
  deriving DecidableEq

inductive Event
  | TrustedSourceSet (sourceChain sourceAddress : Bytes)
  | CrossChainApprovalSent (approval : Approval) (destinationChain : Bytes)
  | CrossChainApprovalReceived (approval : Approval) (sourceChain : Bytes)

structure Bridge where
  gateway : Address
  admin : Address
  processedMessages : Bytes32 → Bool := fun _ => false
  trustedSourceAddressHash : Bytes32 → Bytes32 := fun _ => 0

/-- The arguments of `callContract`. -/
structure GatewayCall where
  destinationChain : Bytes
  destinationAddress : Bytes
  payload : Bytes

/-- `abi.encode(vaultGID, guardian, approvalType, nonce, block.timestamp)` -/
def encodeApproval (a : Approval) (timestamp : ℕ) : Bytes :=
  abiEncode [a.vaultGID.toNat, a.guardian.toNat, a.approvalType.toNat, a.nonce.toNat, timestamp]

/-- `abi.decode(payload, (bytes32, address, uint8, uint256, uint256))` -/
def decodeApproval (payload : Bytes) : Option Approval :=
  if payload.length < 160 then none
  else do
    let guardian ← Abi.asAddress (Abi.wordAt payload 32)
    let approvalType := Abi.wordAt payload 64
    if approvalType < 2 ^ 8 then
      pure { vaultGID := BitVec.ofNat 256 (Abi.wordAt payload 0), guardian, approvalType := BitVec.ofNat 8 approvalType
             nonce := BitVec.ofNat 256 (Abi.wordAt payload 96) }
    else none

section Calls
variable (chain : Chain)

def setTrustedSource (env : Env) (b : Bridge) (sourceChain sourceAddress : Bytes) : Result (Bridge × List Event) := do
  revertIf (env.sender ≠ b.admin) .NotAdmin
  pure ({ b with trustedSourceAddressHash :=
            Function.update b.trustedSourceAddressHash (chain.keccak256 sourceChain) (chain.keccak256 sourceAddress) },
    [.TrustedSourceSet sourceChain sourceAddress])

/-- Anybody may send, for any guardian. -/
def sendApproval (env : Env) (destinationChain destinationAddress : Bytes) (a : Approval) :
    GatewayCall × List Event :=
  ({ destinationChain, destinationAddress, payload := encodeApproval a env.timestamp },
    [.CrossChainApprovalSent a destinationChain])

/-- `abi.encode(sourceChain, sourceAddress, payload)` -/
def commandPreimage (sourceChain sourceAddress payload : Bytes) : Bytes :=
  Abi.encode [.bytes sourceChain, .bytes sourceAddress, .bytes payload]

/-- `abi.encode(commandId, sourceChain, sourceAddress, payload)` -/
def messagePreimage (commandId : Bytes32) (sourceChain sourceAddress payload : Bytes) : Bytes :=
  Abi.encode [.word commandId.toNat, .bytes sourceChain, .bytes sourceAddress, .bytes payload]

/-- `_execute` -/
def executeCommand (b : Bridge) (commandId : Bytes32) (sourceChain sourceAddress payload : Bytes) :
    Result (Bridge × List Event) := do
  let sourceChainKey := chain.keccak256 sourceChain
  revertIf (b.trustedSourceAddressHash sourceChainKey ≠ chain.keccak256 sourceAddress) .UntrustedSource
  let messageHash := chain.keccak256 (messagePreimage commandId sourceChain sourceAddress payload)
  revertIf (b.processedMessages messageHash = true) .MessageAlreadyProcessed
  let b := { b with processedMessages := Function.update b.processedMessages messageHash true }
  match decodeApproval payload with
  | some approval => pure (b, [.CrossChainApprovalReceived approval sourceChain])
  | none => .error .Panic

def execute (sender : Address) (b : Bridge) (sourceChain sourceAddress payload : Bytes) :
    Result (Bridge × List Event) := do
  revertIf (sender ≠ b.gateway) .NotAxelarGateway
  let commandId := chain.keccak256 (commandPreimage sourceChain sourceAddress payload)
  executeCommand chain b commandId sourceChain sourceAddress payload

end Calls

/-! ## Two instances and the gateway -/

inductive Side
  | one | two
  deriving DecidableEq

def Side.other : Side → Side
  | .one => .two
  | .two => .one

/-- Where the instances are: the names of their chains, and their addresses as the gateway writes them. -/
structure Deployment where
  name : Side → Bytes
  address : Side → Bytes
  gateway : Side → Address
  admin : Side → Address
  names_ne : name .one ≠ name .two

/-- A message as the gateway carries it. -/
structure Message where
  sourceChain : Bytes
  sourceAddress : Bytes
  destinationChain : Bytes
  destinationAddress : Bytes
  payload : Bytes

structure State where
  bridges : Side → Bridge
  /-- In the order of sending. -/
  sent : List Message

inductive Label
  | send (x : Side) (env : Env) (destinationChain destinationAddress : Bytes) (a : Approval)
  /-- Of a contract that is neither instance. -/
  | foreign (m : Message)
  /-- Of the message at a position, to an instance. -/
  | deliver (x : Side) (position : ℕ) (m : Message)

def Deployment.message (dep : Deployment) (x : Side) (c : GatewayCall) : Message :=
  ⟨dep.name x, dep.address x, c.destinationChain, c.destinationAddress, c.payload⟩

/-- The message comes from the instance, or goes to it. -/
def Message.From (dep : Deployment) (x : Side) (m : Message) : Prop :=
  m.sourceChain = dep.name x ∧ m.sourceAddress = dep.address x

def Message.To (dep : Deployment) (x : Side) (m : Message) : Prop :=
  m.destinationChain = dep.name x ∧ m.destinationAddress = dep.address x

instance (dep : Deployment) (x : Side) (m : Message) : Decidable (m.From dep x) :=
  inferInstanceAs (Decidable (_ ∧ _))

/-- The call that the gateway makes to deliver a message. -/
def receive (chain : Chain) (b : Bridge) (m : Message) : Result (Bridge × List Event) :=
  execute chain b.gateway b m.sourceChain m.sourceAddress m.payload

/-- A delivery that the instance refuses changes nothing. -/
inductive Steps (chain : Chain) (dep : Deployment) : State → Label → State → Prop
  | send {s : State} {x : Side} {env : Env} {destinationChain destinationAddress : Bytes} {a : Approval} :
      Steps chain dep s (.send x env destinationChain destinationAddress a)
        { s with sent := s.sent ++ [dep.message x (sendApproval env destinationChain destinationAddress a).1] }
  | foreign {s : State} {m : Message} : (∀ x, ¬ m.From dep x) →
      Steps chain dep s (.foreign m) { s with sent := s.sent ++ [m] }
  | received {s : State} {x : Side} {position : ℕ} {m : Message} {b : Bridge} {logs : List Event} :
      s.sent[position]? = some m → m.To dep x → receive chain (s.bridges x) m = .ok (b, logs) →
      Steps chain dep s (.deliver x position m) { s with bridges := Function.update s.bridges x b }
  | refused {s : State} {x : Side} {position : ℕ} {m : Message} {e : BridgeError} :
      s.sent[position]? = some m → m.To dep x → receive chain (s.bridges x) m = .error e →
      Steps chain dep s (.deliver x position m) s

/-- The two are deployed, and their admins have made each trust the other. -/
structure Trusting (chain : Chain) (dep : Deployment) (s : State) : Prop where
  sent : s.sent = []
  bridges : ∀ x, ∃ (env : Env) (logs : List Event),
    setTrustedSource chain env { gateway := dep.gateway x, admin := dep.admin x } (dep.name x.other)
      (dep.address x.other) = .ok (s.bridges x, logs)

abbrev BridgeRun (chain : Chain) (dep : Deployment) (hist : List (Transition State Label)) (s : State) : Prop :=
  Run (Trusting chain dep) (Steps chain dep) hist s

end ChainGuard.Evm.AxelarBridge
