import Ntt.Evm.State

/-!
# The Wormhole Transceiver

`WormholeTransceiver`, `WormholeTransceiverState` and `Transceiver` of the contracts, as programs
over the state of a transceiver. A message is sent by one of three channels: the standard
relayer, the special relayer, or Wormhole core alone. It is received as a VAA that core verifies,
or as a delivery of the standard relayer; either way the emitter has to be the peer of its chain,
the hash is consumed, and the manager is called.

As in `Ntt.Evm.State`, every write of the storage is an action, and the state keeps the log of
the actions. A flag of a chain, a word that is zero or one in the contracts, is a `Bool` here:
only the setters write it, and only the two words of a `bool`.
-/

namespace Ntt

open Reentrant BigEndian

/-- `abi.encode` of a `uint256`. -/
def abiEncodeUint256 (n : ℕ) : Bytes := beBytes 32 n

/-- The instruction of the caller to a Wormhole transceiver. -/
structure WormholeTransceiverInstruction where
  shouldSkipRelayerSend : Bool
  signedQuoteBytes : Bytes
deriving DecidableEq, Repr

/-- What a transceiver reads of a VAA that core has parsed. -/
structure VM where
  emitterChainId : UInt16
  emitterAddress : Bytes32
  sequence : UInt64
  payload : Bytes
  hash : Bytes32
deriving DecidableEq, Repr

/-- The calls of a transceiver to core, the relayers and its manager. -/
inductive TransceiverExt where
  | messageFee
  | quoteEVMDeliveryPrice (targetChain : UInt16) (receiverValue gasLimit : ℕ)
  | quoteSpecialDeliveryPrice (sourceContract : Address) (targetChain : UInt16)
      (additionalValue : ℕ) (dstAddr : Bytes32) (relayInstructions : Bytes)
  | getDefaultDeliveryProvider
  | parseAndVerifyVM (encodedVM : Bytes)
  | publishMessage (value nonce : ℕ) (payload : Bytes) (consistencyLevel : UInt8)
  | sendToEvm (value : ℕ) (targetChain : UInt16) (targetAddress : Address) (payload : Bytes)
      (receiverValue paymentForExtraReceiverValue gasLimit : ℕ) (refundChain : UInt16)
      (refundAddress deliveryProvider : Address) (consistencyLevel : UInt8)
  | requestExecution (value : ℕ) (dstChain : UInt16) (dstAddr : Bytes32) (refundAddr : Address)
      (signedQuoteBytes requestBytes relayInstructions : Bytes)
  | attestationReceived (sourceChainId : UInt16) (sourceNttManagerAddress : Bytes32)
      (payload : NttManagerMessage)
deriving DecidableEq, Repr

/-- The replies to them. -/
def TransceiverExt.Reply : TransceiverExt → Type
  | .messageFee => ℕ
  | .quoteEVMDeliveryPrice .. => ℕ
  | .quoteSpecialDeliveryPrice .. => ℕ
  | .getDefaultDeliveryProvider => Address
  | .parseAndVerifyVM _ => VM × Bool × String
  | _ => Unit

/-- The native value that a call carries. -/
def TransceiverExt.value : TransceiverExt → ℕ
  | .publishMessage value .. => value
  | .sendToEvm value .. => value
  | .requestExecution value .. => value
  | _ => 0

/-- The external calls of a transceiver. -/
abbrev transceiverInterface : Interface := ⟨TransceiverExt, TransceiverExt.Reply⟩

/-- A deployed transceiver: its immutables, and the functions it uses that are not part of the
repository. -/
structure WormholeTransceiver where
  /-- The address of the transceiver. -/
  this : Address
  nttManager : Address
  nttManagerToken : Address
  consistencyLevel : UInt8
  wormholeRelayer : Address
  evmChainId : ℕ
  gasLimit : ℕ
  bytes : BytesParsing
  /-- Reads a byte that has to be zero or one. -/
  asBoolUnchecked : Bytes → ℕ → Except Error (Bool × ℕ)
  toWormholeFormat : Address → Bytes32
  fromWormholeFormat : Bytes32 → Except Error Address

/-- The prefix of the payloads of all transceiver messages. -/
def WH_TRANSCEIVER_PAYLOAD_PREFIX : BitVec 32 := 0x9945FF10

/-- The prefix of what is published when a peer is registered. -/
def WH_PEER_REGISTRATION_PREFIX : BitVec 32 := 0x18fc67c2

namespace WormholeTransceiver

/-! ### Storage and actions -/

/-- The storage of a transceiver. -/
structure Storage where
  /-- The hashes of VAAs and deliveries that were received. -/
  consumedVAAs : Bytes32 → Bool
  /-- The peers by chain; zero where there is none. -/
  peers : UInt16 → Bytes32
  relayingEnabledChains : UInt16 → Bool
  specialRelayingEnabledChains : UInt16 → Bool
  evmChainIds : UInt16 → Bool
  owner : Address
  /-- The status of the re-entrancy guard. -/
  entered : Bool

/-- The storage that the initialiser leaves. -/
def Storage.initial (owner : Address) : Storage where
  consumedVAAs _ := false
  peers _ := 0
  relayingEnabledChains _ := false
  specialRelayingEnabledChains _ := false
  evmChainIds _ := false
  owner := owner
  entered := false

/-- The relaying configuration of a chain that cannot be. -/
def Storage.checkInvalidRelayingConfig (st : Storage) (chainId : UInt16) : Bool :=
  st.relayingEnabledChains chainId && !st.evmChainIds chainId

/-- A chain that the standard relayer delivers to. -/
def Storage.shouldRelayViaStandardRelaying (st : Storage) (chainId : UInt16) : Bool :=
  st.relayingEnabledChains chainId && st.evmChainIds chainId

/-- An instruction and a chain for which a message goes to the special relayer. -/
def Storage.relaysViaSpecialRelayer (st : Storage) (chainId : UInt16)
    (instruction : WormholeTransceiverInstruction) : Bool :=
  !instruction.shouldSkipRelayerSend && !st.shouldRelayViaStandardRelaying chainId &&
    st.specialRelayingEnabledChains chainId

/-- A write of the storage. -/
inductive Action where
  | setWormholePeer (peerChainId : UInt16) (peerContract : Bytes32)
  | setIsWormholeEvmChain (chainId : UInt16) (isEvm : Bool)
  | setIsWormholeRelayingEnabled (chainId : UInt16) (isEnabled : Bool)
  | setIsSpecialRelayingEnabled (chainId : UInt16) (isEnabled : Bool)
  | setOwner (owner : Address)
  | setEntered (entered : Bool)
  /-- A VAA was verified, and its hash is consumed. -/
  | consumeVaa (vm : VM)
  /-- The relayer delivered a payload, and the hash of the delivery is consumed. -/
  | consumeDelivery (payload : Bytes) (sourceAddress : Bytes32) (sourceChain : UInt16)
      (deliveryHash : Bytes32)
deriving DecidableEq, Repr

/-- The storage after an action. -/
def Action.apply (st : Storage) : Action → Storage
  | .setWormholePeer chain peer => { st with peers := Function.update st.peers chain peer }
  | .setIsWormholeEvmChain chain isEvm =>
      { st with evmChainIds := Function.update st.evmChainIds chain isEvm }
  | .setIsWormholeRelayingEnabled chain isEnabled =>
      { st with
        relayingEnabledChains := Function.update st.relayingEnabledChains chain isEnabled }
  | .setIsSpecialRelayingEnabled chain isEnabled =>
      { st with specialRelayingEnabledChains :=
          Function.update st.specialRelayingEnabledChains chain isEnabled }
  | .setOwner owner => { st with owner }
  | .setEntered entered => { st with entered }
  | .consumeVaa vm => { st with consumedVAAs := Function.update st.consumedVAAs vm.hash true }
  | .consumeDelivery _ _ _ hash =>
      { st with consumedVAAs := Function.update st.consumedVAAs hash true }

/-- An action in the log, with the context of its call and the storage it was done on. -/
structure LogEntry where
  act : Action
  ctx : Context
  pre : Storage

/-- The state of a transceiver: its storage, and the log of what happened, newest first. -/
structure State where
  storage : Storage
  log : List LogEntry

/-- Does an action, and remembers it. -/
def State.perform (s : State) (ctx : Context) (a : Action) : State where
  storage := a.apply s.storage
  log := ⟨a, ctx, s.storage⟩ :: s.log

@[simp] theorem State.perform_storage (s : State) (ctx : Context) (a : Action) :
    (s.perform ctx a).storage = a.apply s.storage := rfl

@[simp] theorem State.perform_log (s : State) (ctx : Context) (a : Action) :
    (s.perform ctx a).log = ⟨a, ctx, s.storage⟩ :: s.log := rfl

/-- A program of a transceiver. -/
abbrev TransceiverProg (α : Type) : Type := Prog transceiverInterface State Error α

/-- Does an action. -/
def perform (ctx : Context) (a : Action) : TransceiverProg Unit := modify (·.perform ctx a)

/-- Reads the storage. -/
def load : TransceiverProg Storage := do
  return (← get).storage

/-- Calls another contract. -/
def external (x : TransceiverExt) : TransceiverProg x.Reply := call (X := transceiverInterface) x

theorem run_perform (ctx : Context) (a : Action) (s : State) :
    (perform ctx a).run s = .ret () (s.perform ctx a) := rfl

theorem run_load (s : State) : load.run s = .ret s.storage s := rfl

/-! ### Modifiers -/

/-- A function that is not payable. -/
def nonPayable (ctx : Context) : TransceiverProg Unit := revertIf (ctx.value ≠ 0) .nonPayable

/-- The modifier `onlyOwner`. -/
def onlyOwner (ctx : Context) : TransceiverProg Unit := do
  let st ← load
  revertIf (st.owner ≠ ctx.sender) (.ownableUnauthorizedAccount ctx.sender)

/-- The modifier `nonReentrant`. -/
def nonReentrant (ctx : Context) (body : TransceiverProg Unit) : TransceiverProg Unit := do
  let st ← load
  revertIf (st.entered = true) .reentrancyGuardReentrantCall
  perform ctx (.setEntered true)
  body
  perform ctx (.setEntered false)

variable (W : WormholeTransceiver)

/-- The modifier `onlyNttManager`. -/
def onlyNttManager (ctx : Context) : TransceiverProg Unit :=
  revertIf (ctx.sender ≠ W.nttManager) (.callerNotNttManager ctx.sender)

/-- The modifier `onlyRelayer`. -/
def onlyRelayer (ctx : Context) : TransceiverProg Unit :=
  revertIf (ctx.sender ≠ W.wormholeRelayer) (.callerNotRelayer ctx.sender)

/-! ### Sending -/

/-- Parses the instruction of the caller; without one, nothing is skipped. -/
def parseWormholeTransceiverInstruction (encoded : Bytes) :
    Except Error WormholeTransceiverInstruction := do
  if encoded.length = 0 then
    return ⟨false, []⟩
  else
    let (shouldSkipRelayerSend, offset) ← W.asBoolUnchecked encoded 0
    let rest ← checkedSub encoded.length offset
    let (signedQuoteBytes, offset) := W.bytes.sliceUnchecked encoded offset rest
    W.bytes.checkLength encoded offset
    return ⟨shouldSkipRelayerSend, signedQuoteBytes⟩

/-- What core takes for a message. -/
def messageFee : TransceiverProg ℕ := external .messageFee

/-- What the standard relayer takes for a delivery, the fee of core included. -/
def quoteEVMDeliveryPrice (targetChain : UInt16) : TransceiverProg ℕ :=
  external (.quoteEVMDeliveryPrice targetChain 0 W.gasLimit)

/-- The price of a delivery. -/
def quoteDeliveryPrice (targetChain : UInt16) (instruction : TransceiverInstruction) :
    TransceiverProg ℕ := do
  let weIns ← W.parseWormholeTransceiverInstruction instruction.payload
  if weIns.shouldSkipRelayerSend then
    messageFee
  else
    let st ← load
    revertIf (st.checkInvalidRelayingConfig targetChain = true)
      (.invalidRelayingConfig targetChain)
    if st.shouldRelayViaStandardRelaying targetChain then
      W.quoteEVMDeliveryPrice targetChain
    else if st.specialRelayingEnabledChains targetChain then
      let cost ← external (.quoteSpecialDeliveryPrice W.nttManagerToken targetChain 0
        (st.peers targetChain) (abiEncodeUint256 W.gasLimit))
      -- the relayer and core are paid independently
      let fee ← messageFee
      checkedAdd cost fee
    else
      messageFee

/-- Sends by the standard relayer. -/
def sendViaStandardRelaying (recipientChain : UInt16) (deliveryPayment : ℕ)
    (refundAddress : Bytes32) (encodedTransceiverPayload : Bytes) : TransceiverProg Unit := do
  let st ← load
  let target ← W.fromWormholeFormat (st.peers recipientChain)
  let refundRecipient ← W.fromWormholeFormat refundAddress
  let provider ← external .getDefaultDeliveryProvider
  let _ ← external (.sendToEvm deliveryPayment recipientChain target encodedTransceiverPayload 0 0
    W.gasLimit recipientChain refundRecipient provider W.consistencyLevel)

/-- Sends by the special relayer: core is paid its fee, the relayer what is left. -/
def sendViaSpecialRelaying (recipientChain : UInt16) (deliveryPayment : ℕ)
    (signedQuoteBytes encodedTransceiverPayload : Bytes) : TransceiverProg Unit := do
  let wormholeFee ← messageFee
  let _ ← external
    (.publishMessage wormholeFee 0 encodedTransceiverPayload W.consistencyLevel)
  let relayerPayment ← checkedSub deliveryPayment wormholeFee
  let st ← load
  let _ ← external (.requestExecution relayerPayment recipientChain (st.peers recipientChain) 0
    signedQuoteBytes encodedTransceiverPayload (abiEncodeUint256 W.gasLimit))

/-- Publishes through core alone. -/
def sendManually (deliveryPayment : ℕ) (encodedTransceiverPayload : Bytes) :
    TransceiverProg Unit := do
  let _ ← external
    (.publishMessage deliveryPayment 0 encodedTransceiverPayload W.consistencyLevel)

/-- `_sendMessage`: the branches of a delivery. -/
def _sendMessage (recipientChain : UInt16) (deliveryPayment : ℕ) (caller : Address)
    (recipientNttManagerAddress refundAddress : Bytes32) (instruction : TransceiverInstruction)
    (nttManagerMessage : Bytes) : TransceiverProg Unit := do
  let encodedTransceiverPayload ← encodeTransceiverMessage WH_TRANSCEIVER_PAYLOAD_PREFIX
    ⟨W.toWormholeFormat caller, recipientNttManagerAddress, nttManagerMessage, []⟩
  let weIns ← W.parseWormholeTransceiverInstruction instruction.payload
  let st ← load
  if !weIns.shouldSkipRelayerSend && st.shouldRelayViaStandardRelaying recipientChain then
    W.sendViaStandardRelaying recipientChain deliveryPayment refundAddress
      encodedTransceiverPayload
  else if !weIns.shouldSkipRelayerSend && st.specialRelayingEnabledChains recipientChain then
    W.sendViaSpecialRelaying recipientChain deliveryPayment weIns.signedQuoteBytes
      encodedTransceiverPayload
  else
    W.sendManually deliveryPayment encodedTransceiverPayload

/-- `sendMessage`. -/
def sendMessage (ctx : Context) (recipientChain : UInt16) (instruction : TransceiverInstruction)
    (nttManagerMessage : Bytes) (recipientNttManagerAddress refundAddress : Bytes32) :
    TransceiverProg Unit :=
  nonReentrant ctx do
    W.onlyNttManager ctx
    W._sendMessage recipientChain ctx.value ctx.sender recipientNttManagerAddress refundAddress
      instruction nttManagerMessage

/-! ### Receiving -/

/-- Verifies a VAA and its emitter, and consumes its hash. -/
def verifyMessage (ctx : Context) (encodedMessage : Bytes) : TransceiverProg VM := do
  let reply ← external (.parseAndVerifyVM encodedMessage)
  let (vm, valid, reason) : VM × Bool × String := reply
  revertIf (valid = false) (.invalidVaa reason)
  revertIf (W.evmChainId ≠ ctx.chainid) (.invalidFork W.evmChainId ctx.chainid)
  let st ← load
  revertIf (st.peers vm.emitterChainId ≠ vm.emitterAddress)
    (.invalidWormholePeer vm.emitterChainId vm.emitterAddress)
  -- replay protection
  revertIf (st.consumedVAAs vm.hash = true) (.transferAlreadyCompleted vm.hash)
  perform ctx (.consumeVaa vm)
  return vm

/-- Hands a message to the manager, whom it has to be for. -/
def deliverToNttManager (sourceChainId : UInt16)
    (sourceNttManagerAddress recipientNttManagerAddress : Bytes32) (payload : NttManagerMessage) :
    TransceiverProg Unit := do
  revertIf (recipientNttManagerAddress ≠ W.toWormholeFormat W.nttManager)
    (.unexpectedRecipientNttManagerAddress (W.toWormholeFormat W.nttManager)
      recipientNttManagerAddress)
  let _ ← external (.attestationReceived sourceChainId sourceNttManagerAddress payload)

/-- Parses a payload and hands its message to the manager. -/
def deliverPayload (sourceChainId : UInt16) (payload : Bytes) : TransceiverProg Unit := do
  let (parsedTransceiverMessage, parsedNttManagerMessage) ←
    parseTransceiverAndNttManagerMessage W.bytes WH_TRANSCEIVER_PAYLOAD_PREFIX payload
  W.deliverToNttManager sourceChainId parsedTransceiverMessage.sourceNttManagerAddress
    parsedTransceiverMessage.recipientNttManagerAddress parsedNttManagerMessage

/-- `receiveMessage`. -/
def receiveMessage (ctx : Context) (encodedMessage : Bytes) : TransceiverProg Unit := do
  let vm ← W.verifyMessage ctx encodedMessage
  W.deliverPayload vm.emitterChainId vm.payload

/-- `receiveWormholeMessages`. -/
def receiveWormholeMessages (ctx : Context) (payload : Bytes) (additionalMessages : List Bytes)
    (sourceAddress : Bytes32) (sourceChain : UInt16) (deliveryHash : Bytes32) :
    TransceiverProg Unit := do
  W.onlyRelayer ctx
  let st ← load
  revertIf (st.peers sourceChain ≠ sourceAddress) (.invalidWormholePeer sourceChain sourceAddress)
  revertIf (st.consumedVAAs deliveryHash = true) (.transferAlreadyCompleted deliveryHash)
  perform ctx (.consumeDelivery payload sourceAddress sourceChain deliveryHash)
  revertIf (additionalMessages.length > 0) .unexpectedAdditionalMessages
  W.deliverPayload sourceChain payload

/-! ### Administration -/

/-- `setWormholePeer`: a peer is set once. -/
def setWormholePeer (ctx : Context) (peerChainId : UInt16) (peerContract : Bytes32) :
    TransceiverProg Unit := do
  onlyOwner ctx
  revertIf (peerChainId = 0) .invalidWormholeChainIdZero
  revertIf (peerContract = 0) .invalidWormholePeerZeroAddress
  let st ← load
  revertIf (st.peers peerChainId ≠ 0) (.peerAlreadySet peerChainId (st.peers peerChainId))
  perform ctx (.setWormholePeer peerChainId peerContract)
  let _ ← external (.publishMessage ctx.value 0
    (encodeTransceiverRegistration ⟨WH_PEER_REGISTRATION_PREFIX, peerChainId, peerContract⟩)
    W.consistencyLevel)

/-- The setters of the flags of a chain. -/
def setFlag (ctx : Context) (chainId : UInt16) (a : Action) : TransceiverProg Unit := do
  nonPayable ctx
  onlyOwner ctx
  revertIf (chainId = 0) .invalidWormholeChainIdZero
  perform ctx a

/-- `setIsWormholeEvmChain`. -/
def setIsWormholeEvmChain (ctx : Context) (chainId : UInt16) (isEvm : Bool) :
    TransceiverProg Unit :=
  setFlag ctx chainId (.setIsWormholeEvmChain chainId isEvm)

/-- `setIsWormholeRelayingEnabled`. -/
def setIsWormholeRelayingEnabled (ctx : Context) (chainId : UInt16) (isEnabled : Bool) :
    TransceiverProg Unit :=
  setFlag ctx chainId (.setIsWormholeRelayingEnabled chainId isEnabled)

/-- `setIsSpecialRelayingEnabled`. -/
def setIsSpecialRelayingEnabled (ctx : Context) (chainId : UInt16) (isEnabled : Bool) :
    TransceiverProg Unit :=
  setFlag ctx chainId (.setIsSpecialRelayingEnabled chainId isEnabled)

/-- `transferTransceiverOwnership`. -/
def transferTransceiverOwnership (ctx : Context) (newOwner : Address) : TransceiverProg Unit := do
  nonPayable ctx
  W.onlyNttManager ctx
  perform ctx (.setOwner newOwner)

/-- `transferOwnership`. -/
def transferOwnership (ctx : Context) (newOwner : Address) : TransceiverProg Unit := do
  nonPayable ctx
  onlyOwner ctx
  revertIf (newOwner = 0) (.ownableInvalidOwner 0)
  perform ctx (.setOwner newOwner)

end WormholeTransceiver

end Ntt
