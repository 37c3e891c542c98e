import Ntt.Evm.ManagerBase
import Ntt.Lib.Machine

/-!
# The NTT Manager

`NttManager` of the contracts: transfers, their queue, the receipt and execution of messages,
and the operations of the owner on peers and limits. `NttManager.Call` lists the external
functions, and `NttManager.contract` is the manager as a machine whose moves are these calls,
nested ones included.

A transfer pulls tokens in before anything else, and locks or burns what arrived. It is then
trimmed, gets its sequence, and is either queued or sent. A message that transceivers attest to
is executed once it is approved: the tokens are minted or unlocked, or it is queued.
-/

namespace Ntt

open Reentrant

namespace NttManager

variable (M : NttManager)

/-- Reverts when the chain has forked. -/
def checkFork (ctx : Context) : ManagerProg Unit :=
  revertIf (M.evmChainId ≠ ctx.chainid) (.invalidFork M.evmChainId ctx.chainid)

/-- The decimals of the token. -/
def tokenDecimals : ManagerProg UInt8 := external .tokenDecimals

/-- The balance of an account of the token. -/
def getTokenBalanceOf (account : Address) : ManagerProg ℕ := external (.balanceOf account)

/-! ### Rate limits -/

/-- An operation on the outbound limit. -/
def updateOutboundLimit (ctx : Context) (op : RateLimitOp) : ManagerProg Unit := do
  let st ← load
  let p ← op.apply M.rateLimitDuration ctx.timestamp st.outboundLimit
  perform ctx (.outboundLimit op p)

/-- An operation on the inbound limit of a chain. -/
def updateInboundLimit (ctx : Context) (chain : UInt16) (op : RateLimitOp) :
    ManagerProg Unit := do
  let st ← load
  let p ← op.apply M.rateLimitDuration ctx.timestamp (st.inboundLimits chain)
  perform ctx (.inboundLimit chain op p)

/-- `_setOutboundLimit`; its event untrims the old and the new limit. -/
def setOutboundLimitTrimmed (ctx : Context) (limit : TrimmedAmount) : ManagerProg Unit := do
  let st ← load
  let oldLimit := st.outboundLimit.limit
  let decimals ← tokenDecimals
  M.updateOutboundLimit ctx (.setLimit limit)
  let _ ← oldLimit.untrim decimals
  let _ ← limit.untrim decimals

/-- `_setInboundLimit`; its event untrims the old and the new limit. -/
def setInboundLimitTrimmed (ctx : Context) (limit : TrimmedAmount) (chain : UInt16) :
    ManagerProg Unit := do
  let st ← load
  let oldLimit := (st.inboundLimits chain).limit
  let decimals ← tokenDecimals
  M.updateInboundLimit ctx chain (.setLimit limit)
  let _ ← oldLimit.untrim decimals
  let _ ← limit.untrim decimals

/-- `getCurrentOutboundCapacity`. -/
def getCurrentOutboundCapacity (ctx : Context) : ManagerProg ℕ := do
  let st ← load
  let trimmedCapacity ←
    RateLimiter.getCurrentCapacity M.rateLimitDuration ctx.timestamp st.outboundLimit
  let decimals ← tokenDecimals
  trimmedCapacity.untrim decimals

/-! ### Operations of the owner -/

/-- `setPeer`. -/
def setPeer (ctx : Context) (peerChainId : UInt16) (peerContract : Bytes32) (decimals : UInt8)
    (inboundLimit : ℕ) : ManagerProg Unit := do
  nonPayable ctx
  onlyOwner ctx
  revertIf (peerChainId = 0) .invalidPeerChainIdZero
  revertIf (peerContract = 0) .invalidPeerZeroAddress
  revertIf (decimals = 0) .invalidPeerDecimals
  revertIf (peerChainId = M.chainId) .invalidPeerSameChainId
  perform ctx (.setPeer peerChainId ⟨peerContract, decimals⟩)
  let toDecimals ← tokenDecimals
  let limit ← trim inboundLimit toDecimals toDecimals
  M.setInboundLimitTrimmed ctx limit peerChainId

/-- `setOutboundLimit`. -/
def setOutboundLimit (ctx : Context) (limit : ℕ) : ManagerProg Unit := do
  nonPayable ctx
  onlyOwner ctx
  let toDecimals ← tokenDecimals
  let limit ← trim limit toDecimals toDecimals
  M.setOutboundLimitTrimmed ctx limit

/-- `setInboundLimit`. -/
def setInboundLimit (ctx : Context) (limit : ℕ) (chain : UInt16) : ManagerProg Unit := do
  nonPayable ctx
  onlyOwner ctx
  let toDecimals ← tokenDecimals
  let limit ← trim limit toDecimals toDecimals
  M.setInboundLimitTrimmed ctx limit chain

/-! ### Payouts -/

/-- Mints or unlocks an amount: a redemption, or the refund of a cancelled transfer, whose
sequence then takes the place of the digest. -/
def mintOrUnlockToRecipient (ctx : Context) (digest : Bytes32) (recipient : Address)
    (amount : TrimmedAmount) (cancelled : Bool) : ManagerProg Unit := do
  M.checkFork ctx
  let decimals ← tokenDecimals
  let untrimmedAmount ← amount.untrim decimals
  if cancelled then
    perform ctx (.outboundTransferCancelled (UInt64.ofNat digest.toNat) recipient amount
      untrimmedAmount)
  else
    perform ctx (.transferRedeemed digest recipient amount untrimmedAmount)
  match M.mode with
  | .locking =>
      let _ ← external (.safeTransfer recipient untrimmedAmount)
  | .burning =>
      let _ ← external (.mint recipient untrimmedAmount)

/-! ### Inbound -/

/-- Queues an inbound transfer, or consumes its amount and refills the outbound limit by it. -/
def enqueueOrConsumeInboundRateLimit (ctx : Context) (digest : Bytes32) (sourceChainId : UInt16)
    (nativeTransferAmount : TrimmedAmount) (transferRecipient : Address) :
    ManagerProg Bool := do
  let st ← load
  let isRateLimited ← RateLimiter.isAmountRateLimited M.rateLimitDuration ctx.timestamp
    nativeTransferAmount (st.inboundLimits sourceChainId)
  if isRateLimited then
    perform ctx
      (.enqueueInbound digest ⟨nativeTransferAmount, ctx.timestamp, transferRecipient⟩)
    return true
  else
    M.updateInboundLimit ctx sourceChainId (.consume nativeTransferAmount)
    M.updateOutboundLimit ctx (.backfill nativeTransferAmount)
    return false

/-- Executes a transfer: queues it, or pays it out. The hook for an additional payload, which
is handed the source manager too, does nothing here. -/
def handleTransfer (ctx : Context) (sourceChainId : UInt16) (_sourceNttManagerAddress : Bytes32)
    (message : NttManagerMessage) (digest : Bytes32) : ManagerProg Unit := do
  let nativeTokenTransfer ← parseNativeTokenTransfer M.bytes message.payload
  -- verify that the destination chain is valid
  revertIf (nativeTokenTransfer.toChain ≠ M.chainId)
    (.invalidTargetChain nativeTokenTransfer.toChain M.chainId)
  let toDecimals ← tokenDecimals
  let untrimmed ← nativeTokenTransfer.amount.untrim toDecimals
  let nativeTransferAmount ← trim untrimmed toDecimals toDecimals
  let transferRecipient ← M.fromWormholeFormat nativeTokenTransfer.recipient
  let enqueued ← M.enqueueOrConsumeInboundRateLimit ctx digest sourceChainId
    nativeTransferAmount transferRecipient
  if enqueued then
    return ()
  else
    M.mintOrUnlockToRecipient ctx digest transferRecipient nativeTransferAmount false

/-- `executeMsg`, which anyone may call. -/
def executeMsg (ctx : Context) (sourceChainId : UInt16) (sourceNttManagerAddress : Bytes32)
    (message : NttManagerMessage) : ManagerProg Unit := do
  whenNotPaused
  let (digest, alreadyExecuted) ←
    M.isMessageExecuted ctx sourceChainId sourceNttManagerAddress message
  if alreadyExecuted then
    return ()
  else
    M.handleTransfer ctx sourceChainId sourceNttManagerAddress message digest

/-- Only the peer of a chain is accepted as the source manager. -/
def verifyPeer (sourceChainId : UInt16) (peerAddress : Bytes32) : ManagerProg Unit := do
  let st ← load
  revertIf ((st.peers sourceChainId).peerAddress ≠ peerAddress)
    (.invalidPeer sourceChainId peerAddress)

/-- `attestationReceived`: records a vote, and executes the message if it is approved. -/
def attestationReceived (ctx : Context) (sourceChainId : UInt16)
    (sourceNttManagerAddress : Bytes32) (payload : NttManagerMessage) : ManagerProg Unit := do
  onlyTransceiver ctx
  whenNotPaused
  verifyPeer sourceChainId sourceNttManagerAddress
  let nttManagerMessageHash ←
    M.recordTransceiverAttestation ctx sourceChainId sourceNttManagerAddress payload
  let st ← load
  if st.isMessageApproved nttManagerMessageHash then
    M.executeMsg ctx sourceChainId sourceNttManagerAddress payload

/-- `completeInboundQueuedTransfer`. -/
def completeInboundQueuedTransfer (ctx : Context) (digest : Bytes32) : ManagerProg Unit := do
  nonReentrant ctx do
    whenNotPaused
    let st ← load
    let queuedTransfer := st.inboundQueue digest
    revertIf (queuedTransfer.txTimestamp = 0) (.inboundQueuedTransferNotFound digest)
    let waited ← checkedSub ctx.timestamp.toNat queuedTransfer.txTimestamp.toNat
    revertIf (waited < M.rateLimitDuration.toNat)
      (.inboundQueuedTransferStillQueued digest queuedTransfer.txTimestamp)
    perform ctx (.dequeueInbound digest)
    M.mintOrUnlockToRecipient ctx digest queuedTransfer.recipient queuedTransfer.amount false

/-! ### Outbound -/

/-- The message of a transfer. -/
def encodeTransfer (sequence : UInt64) (amount : TrimmedAmount) (recipientChain : UInt16)
    (recipient : Bytes32) (sender : Address) : Except Error NttManagerMessage := do
  let payload ← encodeNativeTokenTransfer
    ⟨amount, M.toWormholeFormat M.token, recipient, recipientChain, []⟩
  return ⟨BitVec.ofNat 256 sequence.toNat, M.toWormholeFormat sender, payload⟩

/-- Sends the message of a transfer. -/
def sendTransfer (ctx : Context) (sequence : UInt64) (amount : TrimmedAmount)
    (recipientChain : UInt16) (recipient refundAddress : Bytes32) (sender : Address)
    (transceiverInstructions : Bytes) : ManagerProg Unit := do
  M.checkFork ctx
  let (enabledTransceivers, instructions, priceQuotes, _) ←
    M.prepareForTransfer ctx recipientChain transceiverInstructions
  let message ← M.encodeTransfer sequence amount recipientChain recipient sender
  let encodedNttManagerPayload ← encodeNttManagerMessage message
  let st ← load
  let peerAddress := (st.peers recipientChain).peerAddress
  perform ctx (.send sequence recipientChain message peerAddress enabledTransceivers)
  sendMessageToTransceivers recipientChain refundAddress peerAddress priceQuotes instructions
    enabledTransceivers encodedNttManagerPayload
  -- the event of the transfer
  let decimals ← tokenDecimals
  let _ ← amount.untrim decimals

/-- Trims an amount for a chain; what trimming would cut off is refused. -/
def trimTransferAmount (amount : ℕ) (toChain : UInt16) : ManagerProg TrimmedAmount := do
  let st ← load
  let toDecimals := (st.peers toChain).tokenDecimals
  revertIf (toDecimals = 0) .invalidPeerDecimals
  let fromDecimals ← tokenDecimals
  let trimmedAmount ← trim amount fromDecimals toDecimals
  let newAmount ← trimmedAmount.untrim fromDecimals
  revertIf (amount ≠ newAmount) (.transferAmountHasDust amount (amount - newAmount))
  return trimmedAmount

/-- Queues a transfer, or consumes its amount and refills the inbound limit by it. -/
def enqueueOrConsumeOutboundRateLimit (ctx : Context) (transfer : Transfer) (shouldQueue : Bool)
    (sequence : UInt64) : ManagerProg Bool := do
  let decimals ← tokenDecimals
  let internalAmount ← transfer.amount.shift decimals
  let st ← load
  let isAmountRateLimited ← RateLimiter.isAmountRateLimited M.rateLimitDuration ctx.timestamp
    internalAmount st.outboundLimit
  if isAmountRateLimited then
    if shouldQueue then
      M.checkFork ctx
      -- the event of the rate limit
      let _ ← M.getCurrentOutboundCapacity ctx
      perform ctx (.enqueueOutbound sequence (transfer.queued ctx.timestamp))
      refundToSender ctx ctx.value
      return true
    else
      let currentCapacity ← M.getCurrentOutboundCapacity ctx
      revert (.notEnoughCapacity currentCapacity transfer.received)
  else
    M.updateOutboundLimit ctx (.consume internalAmount)
    M.updateInboundLimit ctx transfer.recipientChain (.backfill internalAmount)
    return false

/-- Pulls tokens in from the caller and locks or burns them; returns what arrived. -/
def pullTokens (ctx : Context) (amount : ℕ) : ManagerProg ℕ := do
  let balanceBefore ← getTokenBalanceOf M.this
  let _ ← external (.safeTransferFrom ctx.sender M.this amount)
  let balanceAfter ← getTokenBalanceOf M.this
  -- correct amount for potential transfer fees
  let amount ← checkedSub balanceAfter balanceBefore
  match M.mode with
  | .locking => return amount
  | .burning =>
      let _ ← external (.burn amount)
      let balanceAfterBurn ← getTokenBalanceOf M.this
      revertIf (balanceBefore ≠ balanceAfterBurn)
        (.burnAmountDifferentThanBalanceDiff balanceBefore balanceAfterBurn)
      return amount

/-- Hands out a sequence to a transfer. -/
def useMessageSequence (ctx : Context) (transfer : Transfer) : ManagerProg UInt64 := do
  let st ← load
  let currentSequence := st.messageSequence
  revertIf (currentSequence.toNat + 1 ≥ 2 ^ 64) .arithmeticOverflow
  perform ctx (.useMessageSequence currentSequence transfer)
  return currentSequence

/-- What both forms of `transfer` do. -/
def transferEntryPoint (ctx : Context) (amount : ℕ) (recipientChain : UInt16)
    (recipient refundAddress : Bytes32) (shouldQueue : Bool) (transceiverInstructions : Bytes) :
    ManagerProg Unit := do
  revertIf (amount = 0) .zeroAmount
  revertIf (recipient = 0) .invalidRecipient
  revertIf (refundAddress = 0) .invalidRefundAddress
  let received ← M.pullTokens ctx amount
  let trimmedAmount ← trimTransferAmount received recipientChain
  let transfer : Transfer := ⟨amount, received, trimmedAmount, recipientChain, recipient,
    refundAddress, ctx.sender, transceiverInstructions⟩
  let sequence ← useMessageSequence ctx transfer
  let enqueued ← M.enqueueOrConsumeOutboundRateLimit ctx transfer shouldQueue sequence
  if enqueued then
    return ()
  else
    M.sendTransfer ctx sequence trimmedAmount recipientChain recipient refundAddress ctx.sender
      transceiverInstructions

/-- `transfer` with all its arguments. -/
def transfer (ctx : Context) (amount : ℕ) (recipientChain : UInt16)
    (recipient refundAddress : Bytes32) (shouldQueue : Bool) (transceiverInstructions : Bytes) :
    ManagerProg Unit := do
  nonReentrant ctx do
    whenNotPaused
    M.transferEntryPoint ctx amount recipientChain recipient refundAddress shouldQueue
      transceiverInstructions

/-- `transfer` without instructions, which does not queue. -/
def transferSimple (ctx : Context) (amount : ℕ) (recipientChain : UInt16)
    (recipient : Bytes32) : ManagerProg Unit :=
  M.transfer ctx amount recipientChain recipient recipient false [0]

/-- `completeOutboundQueuedTransfer`. -/
def completeOutboundQueuedTransfer (ctx : Context) (messageSequence : UInt64) :
    ManagerProg Unit := do
  nonReentrant ctx do
    whenNotPaused
    let st ← load
    let queuedTransfer := st.outboundQueue messageSequence
    revertIf (queuedTransfer.txTimestamp = 0) (.outboundQueuedTransferNotFound messageSequence)
    let waited ← checkedSub ctx.timestamp.toNat queuedTransfer.txTimestamp.toNat
    revertIf (waited < M.rateLimitDuration.toNat)
      (.outboundQueuedTransferStillQueued messageSequence queuedTransfer.txTimestamp)
    perform ctx (.releaseOutbound messageSequence)
    M.sendTransfer ctx messageSequence queuedTransfer.amount queuedTransfer.recipientChain
      queuedTransfer.recipient queuedTransfer.refundAddress queuedTransfer.sender
      queuedTransfer.transceiverInstructions

/-- `cancelOutboundQueuedTransfer`. -/
def cancelOutboundQueuedTransfer (ctx : Context) (messageSequence : UInt64) :
    ManagerProg Unit := do
  nonPayable ctx
  nonReentrant ctx do
    whenNotPaused
    let st ← load
    let queuedTransfer := st.outboundQueue messageSequence
    revertIf (queuedTransfer.txTimestamp = 0) (.outboundQueuedTransferNotFound messageSequence)
    revertIf (queuedTransfer.sender ≠ ctx.sender)
      (.cancellerNotSender ctx.sender queuedTransfer.sender)
    perform ctx (.withdrawOutbound messageSequence)
    M.mintOrUnlockToRecipient ctx (BitVec.ofNat 256 messageSequence.toNat) ctx.sender
      queuedTransfer.amount true

/-! ### The external interface -/

/-- A call of an external function that can change the state. -/
inductive Call where
  | transfer (amount : ℕ) (recipientChain : UInt16) (recipient refundAddress : Bytes32)
      (shouldQueue : Bool) (transceiverInstructions : Bytes)
  | transferSimple (amount : ℕ) (recipientChain : UInt16) (recipient : Bytes32)
  | attestationReceived (sourceChainId : UInt16) (sourceNttManagerAddress : Bytes32)
      (payload : NttManagerMessage)
  | executeMsg (sourceChainId : UInt16) (sourceNttManagerAddress : Bytes32)
      (message : NttManagerMessage)
  | completeInboundQueuedTransfer (digest : Bytes32)
  | completeOutboundQueuedTransfer (messageSequence : UInt64)
  | cancelOutboundQueuedTransfer (messageSequence : UInt64)
  | setPeer (peerChainId : UInt16) (peerContract : Bytes32) (decimals : UInt8)
      (inboundLimit : ℕ)
  | setOutboundLimit (limit : ℕ)
  | setInboundLimit (limit : ℕ) (chain : UInt16)
  | setTransceiver (transceiver : Address)
  | removeTransceiver (transceiver : Address)
  | setThreshold (threshold : UInt8)
  | pause
  | unpause
  | transferOwnership (newOwner : Address)
  | transferPauserCapability (newPauser : Address)
deriving DecidableEq, Repr

/-- The program of a call. -/
def body (ctx : Context) : Call → ManagerProg Unit
  | .transfer amount recipientChain recipient refundAddress shouldQueue instructions =>
      M.transfer ctx amount recipientChain recipient refundAddress shouldQueue instructions
  | .transferSimple amount recipientChain recipient =>
      M.transferSimple ctx amount recipientChain recipient
  | .attestationReceived sourceChainId source payload => do
      nonPayable ctx
      M.attestationReceived ctx sourceChainId source payload
  | .executeMsg sourceChainId source message => do
      nonPayable ctx
      M.executeMsg ctx sourceChainId source message
  | .completeInboundQueuedTransfer digest => do
      nonPayable ctx
      M.completeInboundQueuedTransfer ctx digest
  | .completeOutboundQueuedTransfer messageSequence =>
      M.completeOutboundQueuedTransfer ctx messageSequence
  | .cancelOutboundQueuedTransfer messageSequence =>
      M.cancelOutboundQueuedTransfer ctx messageSequence
  | .setPeer peerChainId peerContract decimals inboundLimit =>
      M.setPeer ctx peerChainId peerContract decimals inboundLimit
  | .setOutboundLimit limit => M.setOutboundLimit ctx limit
  | .setInboundLimit limit chain => M.setInboundLimit ctx limit chain
  | .setTransceiver transceiver => setTransceiver ctx transceiver
  | .removeTransceiver transceiver => removeTransceiver ctx transceiver
  | .setThreshold threshold => setThreshold ctx threshold
  | .pause => pause ctx
  | .unpause => unpause ctx
  | .transferOwnership newOwner => transferOwnership ctx newOwner
  | .transferPauserCapability newPauser => transferPauserCapability ctx newPauser

/-- A manager as a machine. -/
def contract : Contract managerInterface State Error where
  Entry := Context × Call
  body e := M.body e.1 e.2

end NttManager

end Ntt
