import Ntt.Evm.State

/-!
# The Manager Base

`ManagerBase`, `PausableOwnable` and the re-entrancy guard of the contracts, as programs over
the state of a manager: the modifiers, attestations and replay protection, quoting and sending
through the enabled transceivers, and the operations of the owner. A program calls the token,
the transceivers and the caller through `managerInterface`; every write goes through `perform`.
-/

namespace Ntt

open Reentrant

/-- A program of a manager. -/
abbrev ManagerProg (α : Type) : Type := Prog managerInterface State Error α

/-- Does an action. -/
def perform (ctx : Context) (a : Action) : ManagerProg Unit := modify (·.perform ctx a)

/-- Reads the storage. -/
def load : ManagerProg Storage := do
  return (← get).storage

/-- Calls another contract. -/
def external (x : Ext) : ManagerProg x.Reply := call (X := managerInterface) x

theorem run_perform (ctx : Context) (a : Action) (s : State) :
    (perform ctx a).run s = .ret () (s.perform ctx a) := rfl

theorem run_load (s : State) : load.run s = .ret s.storage s := rfl

/-! ### Modifiers -/

/-- A function that is not payable. -/
def nonPayable (ctx : Context) : ManagerProg Unit := revertIf (ctx.value ≠ 0) .nonPayable

/-- The modifier `whenNotPaused`. -/
def whenNotPaused : ManagerProg Unit := do
  let st ← load
  revertIf (st.paused = true) .requireContractIsNotPaused

/-- The modifier `onlyOwner`. -/
def onlyOwner (ctx : Context) : ManagerProg Unit := do
  let st ← load
  revertIf (st.owner ≠ ctx.sender) (.ownableUnauthorizedAccount ctx.sender)

/-- The modifier `onlyOwnerOrPauser`. -/
def onlyOwnerOrPauser (ctx : Context) : ManagerProg Unit := do
  let st ← load
  revertIf (st.pauser ≠ ctx.sender ∧ st.owner ≠ ctx.sender) (.invalidPauser ctx.sender)

/-- The modifier `onlyTransceiver`. -/
def onlyTransceiver (ctx : Context) : ManagerProg Unit := do
  let st ← load
  revertIf ((st.registry.transceiverInfos ctx.sender).enabled = false)
    (.callerNotTransceiver ctx.sender)

/-- The modifier `nonReentrant`. -/
def nonReentrant {α : Type} (ctx : Context) (body : ManagerProg α) : ManagerProg α := do
  let st ← load
  revertIf (st.entered = true) .reentrancyGuardReentrantCall
  perform ctx (.setEntered true)
  let a ← body
  perform ctx (.setEntered false)
  return a

/-! ### Operations of the owner -/

/-- Changes the registry or the threshold. -/
def updateQuorum (ctx : Context) (op : RegistryOp) : ManagerProg Unit := do
  let st ← load
  let q ← op.apply st.quorum
  perform ctx (.quorum op q)

/-- `setTransceiver`. -/
def setTransceiver (ctx : Context) (transceiver : Address) : ManagerProg Unit := do
  nonPayable ctx
  onlyOwner ctx
  updateQuorum ctx (.setTransceiver transceiver)

/-- `removeTransceiver`. -/
def removeTransceiver (ctx : Context) (transceiver : Address) : ManagerProg Unit := do
  nonPayable ctx
  onlyOwner ctx
  updateQuorum ctx (.removeTransceiver transceiver)

/-- `setThreshold`. -/
def setThreshold (ctx : Context) (threshold : UInt8) : ManagerProg Unit := do
  nonPayable ctx
  onlyOwner ctx
  updateQuorum ctx (.setThreshold threshold)

/-- `pause`. -/
def pause (ctx : Context) : ManagerProg Unit := do
  nonPayable ctx
  onlyOwnerOrPauser ctx
  whenNotPaused
  perform ctx (.setPaused true)

/-- `unpause`. -/
def unpause (ctx : Context) : ManagerProg Unit := do
  nonPayable ctx
  onlyOwner ctx
  let st ← load
  revertIf (st.paused = false) .requireContractIsPaused
  perform ctx (.setPaused false)

/-- `transferPauserCapability`. -/
def transferPauserCapability (ctx : Context) (newPauser : Address) : ManagerProg Unit := do
  nonPayable ctx
  onlyOwnerOrPauser ctx
  perform ctx (.setPauser newPauser)

/-- The loop over the registered transceivers from position `i` on, which the storage may
change under. The registered list never holds more than `MAX_TRANSCEIVERS`. -/
def transferTransceiversLoop (newOwner : Address) : ℕ → ℕ → ManagerProg Unit
  | 0, _ => pure ()
  | rounds + 1, i => do
      let st ← load
      match st.registry.registeredTransceivers[i]? with
      | none => pure ()
      | some transceiver =>
          let _ ← external (.transferTransceiverOwnership transceiver newOwner)
          transferTransceiversLoop newOwner rounds (i + 1)

/-- `transferOwnership`, of the manager and of every registered transceiver. -/
def transferOwnership (ctx : Context) (newOwner : Address) : ManagerProg Unit := do
  nonPayable ctx
  onlyOwner ctx
  revertIf (newOwner = 0) (.ownableInvalidOwner 0)
  perform ctx (.setOwner newOwner)
  let st ← load
  let retrieved := st.registry.registeredTransceivers.length
  let registered := st.registry.numRegistered.toNat
  revertIf (retrieved ≠ registered)
    (.retrievedIncorrectRegisteredTransceivers retrieved registered)
  transferTransceiversLoop newOwner MAX_TRANSCEIVERS.toNat 0

namespace NttManager

variable (M : NttManager)

/-! ### Attestations -/

/-- The digest of a message. -/
def digest (sourceChainId : UInt16) (m : NttManagerMessage) : Except Error Bytes32 :=
  nttManagerMessageDigest M.keccak256 sourceChainId m

/-- Records the vote of the calling transceiver. The source manager that it reports is only
remembered. -/
def recordTransceiverAttestation (ctx : Context) (sourceChainId : UInt16)
    (sourceNttManagerAddress : Bytes32) (payload : NttManagerMessage) :
    ManagerProg Bytes32 := do
  let nttManagerMessageHash ← M.digest sourceChainId payload
  let st ← load
  let index := st.registry.index ctx.sender
  let votes := (st.messageAttestations nttManagerMessageHash).attestedTransceivers
  revertIf (votes &&& Bitmap.bit index.toNat ≠ 0)
    (.transceiverAlreadyAttestedToMessage nttManagerMessageHash)
  perform ctx
    (.attest sourceChainId sourceNttManagerAddress payload nttManagerMessageHash index)
  return nttManagerMessageHash

/-- Checks that a message is approved and marks it as executed; the flag says whether it
already was. -/
def isMessageExecuted (ctx : Context) (sourceChainId : UInt16)
    (sourceNttManagerAddress : Bytes32) (message : NttManagerMessage) :
    ManagerProg (Bytes32 × Bool) := do
  let digest ← M.digest sourceChainId message
  let st ← load
  revertIf (st.isMessageApproved digest = false) (.messageNotApproved digest)
  -- replay protection
  if (st.messageAttestations digest).executed then
    return (0, true)
  else
    perform ctx (.execute sourceChainId sourceNttManagerAddress message digest)
    return (digest, false)

/-! ### Quoting and sending -/

/-- Refunds the caller. -/
def refundToSender (ctx : Context) (refundAmount : ℕ) : ManagerProg Unit := do
  let _ ← external (.sendValue ctx.sender refundAmount)

/-- The price that a transceiver asks. -/
def quoteTransceiver (transceiver : Address) (recipientChain : UInt16)
    (instruction : TransceiverInstruction) : ManagerProg ℕ :=
  external (.quoteDeliveryPrice transceiver recipientChain instruction)

/-- The loop over the enabled transceivers that asks each for its price. -/
def quoteLoop (recipientChain : UInt16) (instructions : List TransceiverInstruction) :
    List Address → List ℕ → ℕ → ManagerProg (List ℕ × ℕ)
  | [], priceQuotes, totalPriceQuote => return (priceQuotes, totalPriceQuote)
  | transceiver :: rest, priceQuotes, totalPriceQuote => do
      let st ← load
      let instruction ← readAt instructions (st.registry.index transceiver).toNat
      let price ← quoteTransceiver transceiver recipientChain instruction
      let totalPriceQuote ← checkedAdd totalPriceQuote price
      quoteLoop recipientChain instructions rest (priceQuotes ++ [price]) totalPriceQuote

/-- `quoteDeliveryPrice`: instructions are bounded by the number of enabled transceivers. -/
def quoteDeliveryPrice (recipientChain : UInt16) (transceiverInstructions : Bytes) :
    ManagerProg (List ℕ × ℕ) := do
  let st ← load
  let enabledTransceivers := st.registry.enabledTransceivers
  let instructions ← parseTransceiverInstructions M.bytes transceiverInstructions
    enabledTransceivers.length
  quoteLoop recipientChain instructions enabledTransceivers [] 0

/-- What a transfer needs of the transceivers: the enabled ones, the instructions, bounded by
the number of registered transceivers, and the prices. The caller is refunded the excess. -/
def prepareForTransfer (ctx : Context) (recipientChain : UInt16)
    (transceiverInstructions : Bytes) :
    ManagerProg (List Address × List TransceiverInstruction × List ℕ × ℕ) := do
  let st ← load
  let enabledTransceivers := st.registry.enabledTransceivers
  let numRegisteredTransceivers := st.registry.registeredTransceivers.length
  revertIf (enabledTransceivers.length = 0) .noEnabledTransceivers
  let instructions ← parseTransceiverInstructions M.bytes transceiverInstructions
    numRegisteredTransceivers
  let (priceQuotes, totalPriceQuote) ←
    quoteLoop recipientChain instructions enabledTransceivers [] 0
  revertIf (ctx.value < totalPriceQuote) (.deliveryPaymentTooLow totalPriceQuote ctx.value)
  let excessValue := ctx.value - totalPriceQuote
  if excessValue > 0 then
    refundToSender ctx excessValue
  return (enabledTransceivers, instructions, priceQuotes, totalPriceQuote)

/-- The loop that hands a message to the transceivers, each with its price. -/
def sendLoop (recipientChain : UInt16) (refundAddress peerAddress : Bytes32)
    (instructions : List TransceiverInstruction) (nttManagerMessage : Bytes) :
    List (Address × ℕ) → ManagerProg Unit
  | [] => pure ()
  | (transceiver, price) :: rest => do
      let st ← load
      let instruction ← readAt instructions (st.registry.index transceiver).toNat
      let _ ← external (.sendMessage transceiver price recipientChain instruction
        nttManagerMessage peerAddress refundAddress)
      sendLoop recipientChain refundAddress peerAddress instructions nttManagerMessage rest

/-- Sends a message through the transceivers to the peer, which has to exist. -/
def sendMessageToTransceivers (recipientChain : UInt16) (refundAddress peerAddress : Bytes32)
    (priceQuotes : List ℕ) (transceiverInstructions : List TransceiverInstruction)
    (enabledTransceivers : List Address) (nttManagerMessage : Bytes) : ManagerProg Unit := do
  revertIf (peerAddress = 0) (.peerNotRegistered recipientChain)
  sendLoop recipientChain refundAddress peerAddress transceiverInstructions nttManagerMessage
    (enabledTransceivers.zip priceQuotes)

end NttManager

end Ntt
