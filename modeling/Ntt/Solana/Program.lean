import Ntt.Lib.Transducer
import Ntt.Solana.Token

/-!
# The Solana Program

The accounts of the program as one state, and its instructions. The parameter `Runtime` has the
addresses that are derived from seeds, the hash, the loader and the posting of messages. What the
transceiver program does to release an outbound transfer is here as well.

An address that an instruction takes as a signer has signed. `Program.machine` takes instructions
in any order, and anything may happen to the accounts of the token program between them. An
instruction that fails leaves the state as it was.
-/

namespace Ntt.Solana

/-! ### The runtime -/

/-- What the program uses of the runtime. -/
structure Runtime where
  /-- The address of the program. -/
  programId : Pubkey
  /-- The address that signs for the program at the token program. -/
  tokenAuthority : Pubkey
  /-- The address that a sender approves for a transfer, by the hash of its arguments. -/
  sessionAuthority : Pubkey → Bytes32 → Pubkey
  keccak256 : Bytes → Bytes32
  io : WormholeIo
  upgradeLock : Pubkey
  /-- Sets the upgrade authority of the program, by the current one. -/
  setUpgradeAuthority : Option Pubkey → Pubkey → Pubkey → Except Error Pubkey
  /-- Whether a transceiver can post a message. -/
  postMessage : TransceiverMessage (NativeTokenTransfer EmptyPayload) → Except Error Unit

/-! ### The state -/

structure PendingTokenAuthority where
  pendingAuthority : Pubkey
  rentPayer : Pubkey
deriving DecidableEq, Repr

structure State (L : Type) where
  config : Config
  /-- The upgrade authority of the program. -/
  upgradeAuthority : Option Pubkey
  registeredTransceivers : Pubkey → Option RegisteredTransceiver
  peers : ChainId → Option NttManagerPeer
  inboxRateLimits : ChainId → Option RateLimitState
  outboxRateLimit : RateLimitState
  /-- The inbox items, by the hash of chain and message. -/
  inboxItems : Bytes32 → Option InboxItem
  outboxItems : Pubkey → Option OutboxItem
  pendingTokenAuthority : Option PendingTokenAuthority
  /-- The accounts of the token program. -/
  tokens : L

/-- The arguments of a transfer. -/
structure TransferArgs where
  amount : UInt64
  recipientChain : ChainId
  recipientAddress : Bytes32
  shouldQueue : Bool
deriving DecidableEq, Repr

/-- The bytes that the hash of the arguments is taken of. -/
def TransferArgs.bytes (self : TransferArgs) : Bytes :=
  packUint64 self.amount ++ packUint16 self.recipientChain.id ++ packBytes32 self.recipientAddress ++
    packUint8 (if self.shouldQueue then 1 else 0)

/-- A message that a transceiver has validated. -/
structure ValidatedTransceiverMessage where
  fromChain : ChainId
  message : TransceiverMessageData (NativeTokenTransfer EmptyPayload)
deriving DecidableEq

/-- The account of such a message, and the program that it belongs to. -/
structure MessageAccount where
  owner : Pubkey
  data : ValidatedTransceiverMessage
deriving DecidableEq

/-- What an instruction makes known: that it paid an inbox item, or sent an outbox item by a
transceiver. -/
inductive Event where
  | paid (inboxItem : Bytes32) (recipient : Pubkey) (amount : UInt64)
  | transferred (outboxItem : Pubkey)
  | released (outboxItem : Pubkey) (transceiver : Pubkey)
deriving DecidableEq, Repr

variable {L : Type} (R : Runtime) (T : TokenProgram L)

/-- A multisig that the program can use as the mint authority. -/
def checkMultisig (tokens : L) : Option Pubkey → Except Error Unit
  | none => return
  | some key => do
      let multisig ← loadAccount (T.multisig tokens key)
      require (multisig.m = 1 ∧ R.tokenAuthority ∈ multisig.signers) (.ntt .invalidMultisig)

namespace State

/-- A program that was just initialized. -/
def initializeConfigAndRateLimit (tokens : L) (upgradeAuthority : Option Pubkey)
    (deployer mint : Pubkey) (multisigTokenAuthority : Option Pubkey) (chainId : UInt16)
    (limit : UInt64) (mode : Mode) : Except Error (State L) := do
  require (deployer = upgradeAuthority.getD Pubkey.default) .constraintAddress
  checkMultisig R T tokens multisigTokenAuthority
  require (mode = .locking ∨
    T.mintAuthority tokens mint = some (multisigTokenAuthority.getD R.tokenAuthority))
    (.ntt .invalidMintAuthority)
  return {
    config := {
      mint, mode
      chainId := ⟨chainId⟩
      owner := deployer
      pendingOwner := none
      paused := false
      nextTransceiverId := 0
      threshold := 1
      enabledTransceivers := .new
      custody := T.associatedToken R.tokenAuthority mint }
    upgradeAuthority, tokens
    registeredTransceivers := fun _ => none
    peers := fun _ => none
    inboxRateLimits := fun _ => none
    outboxRateLimit := .new limit
    inboxItems := fun _ => none
    outboxItems := fun _ => none
    pendingTokenAuthority := none }

variable (self : State L) (now : Int64)

def setInboxItem (key : Bytes32) (item : InboxItem) : State L :=
  { self with inboxItems := Function.update self.inboxItems key (some item) }

def setOutboxItem (key : Pubkey) (item : OutboxItem) : State L :=
  { self with outboxItems := Function.update self.outboxItems key (some item) }

def setInboxRateLimit (chain : ChainId) (rateLimit : RateLimitState) : State L :=
  { self with inboxRateLimits := Function.update self.inboxRateLimits chain (some rateLimit) }

/-- `has_one = owner`, of the config. -/
def hasOneOwner (owner : Pubkey) : Except Error Unit :=
  require (self.config.owner = owner) .constraintHasOne

def notPaused : Except Error Unit := require (self.config.paused = false) (.ntt .paused)

/-- A registered transceiver that is enabled. -/
def enabledTransceiver (transceiver : Pubkey) : Except Error RegisteredTransceiver := do
  let account ← loadAccount (self.registeredTransceivers transceiver)
  let enabled ← (self.config.enabledTransceivers.get account.id).mapError .ntt
  require (enabled = true) (.ntt .disabledTransceiver)
  return account

/-! ### Transceivers and the threshold -/

/-- The account of a transceiver, which gets the next id when it is new. -/
def initTransceiver (transceiver : Pubkey) : Except Error (Config × RegisteredTransceiver) :=
  let registered := (self.registeredTransceivers transceiver).getD .zeroed
  -- initialize registered transceiver with new id on init
  if registered.transceiverAddress = Pubkey.default then do
    let id := self.config.nextTransceiverId
    require (id ≠ 255) (.panic .overflow)
    return ({ self.config with nextTransceiverId := id + 1 }, { id, transceiverAddress := transceiver })
  else return (self.config, registered)

/-- Registers a transceiver under the next id, or enables one that is registered. -/
def registerTransceiver (owner transceiver : Pubkey) (executable : Bool) :
    Except Error (State L) := do
  self.hasOneOwner owner
  require (executable = true) .constraintExecutable
  require (transceiver ≠ Pubkey.default) (.ntt .invalidTransceiverProgram)
  let (config, registered) ← self.initTransceiver transceiver
  let enabledTransceivers ← (config.enabledTransceivers.set registered.id true).mapError .ntt
  return { self with
    config := { config with enabledTransceivers }
    registeredTransceivers :=
      Function.update self.registeredTransceivers transceiver (some registered) }

/-- Disables a transceiver, and lowers the threshold to the number of those that are left. -/
def deregisterTransceiver (owner transceiver : Pubkey) : Except Error (State L) := do
  self.hasOneOwner owner
  let account ← self.enabledTransceiver transceiver
  let enabledTransceivers ← (self.config.enabledTransceivers.set account.id false).mapError .ntt
  let numEnabledTransceivers := enabledTransceivers.len
  -- at least one transceiver should be enabled
  require (numEnabledTransceivers ≠ 0) (.ntt .zeroThreshold)
  let threshold :=
    if numEnabledTransceivers < self.config.threshold then numEnabledTransceivers
    else self.config.threshold
  return { self with config := { self.config with enabledTransceivers, threshold } }

def setThreshold (owner : Pubkey) (threshold : UInt8) : Except Error (State L) := do
  self.hasOneOwner owner
  require (threshold ≤ self.config.enabledTransceivers.len) (.ntt .thresholdTooHigh)
  require (threshold ≠ 0) (.ntt .zeroThreshold)
  return { self with config := { self.config with threshold } }

/-! ### Peers, limits, pausing and ownership -/

/-- The rate limit of a peer that is set: a new one, unless there is one that was used. -/
def peerRateLimit (chainId : ChainId) (limit : UInt64) : Except Error RateLimitState :=
  let inboxRateLimit := (self.inboxRateLimits chainId).getD ⟨0, 0, 0⟩
  if inboxRateLimit.lastTxTimestamp = 0 then return .new limit
  else (inboxRateLimit.setLimit RATE_LIMIT_DURATION now limit).mapError .panic

def setPeer (owner : Pubkey) (chainId : ChainId) (address : Bytes32) (limit : UInt64)
    (tokenDecimals : UInt8) : Except Error (State L) := do
  self.hasOneOwner owner
  require (chainId ≠ self.config.chainId) (.ntt .invalidChainId)
  let rateLimit ← self.peerRateLimit now chainId limit
  let peers := Function.update self.peers chainId (some { address, tokenDecimals })
  return { self with peers }.setInboxRateLimit chainId rateLimit

def setOutboundLimit (owner : Pubkey) (limit : UInt64) : Except Error (State L) := do
  self.hasOneOwner owner
  let outboxRateLimit ←
    (self.outboxRateLimit.setLimit RATE_LIMIT_DURATION now limit).mapError .panic
  return { self with outboxRateLimit }

def setInboundLimit (owner : Pubkey) (limit : UInt64) (chainId : ChainId) :
    Except Error (State L) := do
  self.hasOneOwner owner
  let rateLimit ← loadAccount (self.inboxRateLimits chainId)
  let rateLimit ← (rateLimit.setLimit RATE_LIMIT_DURATION now limit).mapError .panic
  return self.setInboxRateLimit chainId rateLimit

def setPaused (owner : Pubkey) (paused : Bool) : Except Error (State L) := do
  self.hasOneOwner owner
  return { self with config := { self.config with paused } }

/-- The first step of a transfer of the ownership; the upgrade authority goes to the lock. -/
def transferOwnership (owner newOwner : Pubkey) : Except Error (State L) := do
  self.hasOneOwner owner
  let self := { self with config := { self.config with pendingOwner := some newOwner } }
  if self.upgradeAuthority ≠ some R.upgradeLock then
    let upgradeAuthority ← R.setUpgradeAuthority self.upgradeAuthority owner R.upgradeLock
    return { self with upgradeAuthority := some upgradeAuthority }
  return self

def transferOwnershipOneStepUnchecked (owner newOwner : Pubkey) : Except Error (State L) := do
  self.hasOneOwner owner
  let upgradeAuthority ← R.setUpgradeAuthority self.upgradeAuthority owner newOwner
  return { self with
    config := { self.config with pendingOwner := none, owner := newOwner }
    upgradeAuthority := some upgradeAuthority }

/-- The pending owner claims the ownership, or the owner cancels its transfer. -/
def claimOwnership (newOwner : Pubkey) : Except Error (State L) := do
  require (self.config.pendingOwner = some newOwner ∨ self.config.owner = newOwner)
    (.ntt .invalidPendingOwner)
  let upgradeAuthority ← R.setUpgradeAuthority self.upgradeAuthority R.upgradeLock newOwner
  return { self with
    config := { self.config with pendingOwner := none, owner := newOwner }
    upgradeAuthority := some upgradeAuthority }

/-! ### Inbound transfers -/

/-- The key of the inbox item of a message. -/
def inboxKey (data : ValidatedTransceiverMessage) : Except Error Bytes32 := do
  let bytes ← (data.message.nttManagerPayload.keccak256Bytes R.io
    (NativeTokenTransfer.impl R.io EmptyPayload.impl) data.fromChain).mapError .io
  return R.keccak256 bytes

/-- The rate limits at an approval: the amount is consumed on the inbound one of its chain and
refilled on the outbound one, or it is delayed. -/
def consumeInbound (chain : ChainId) (inboxRateLimit : RateLimitState) (amount : UInt64) :
    Except Error (State L × Int64) := do
  let (inboxRateLimit, result) ←
    (inboxRateLimit.consumeOrDelay RATE_LIMIT_DURATION now amount).mapError .panic
  let self := self.setInboxRateLimit chain inboxRateLimit
  match result with
  | .consumed now => do
      let outboxRateLimit ←
        (self.outboxRateLimit.refill RATE_LIMIT_DURATION now amount).mapError .panic
      return ({ self with outboxRateLimit }, now)
  | .delayed releaseTimestamp => return (self, releaseTimestamp)

/-- The inbox item at a key, or the account that its first vote creates. -/
def itemFor (key : Bytes32) : InboxItem := (self.inboxItems key).getD .zeroed

/-- An item as a vote finds it: the first one records the amount and the recipient. -/
def recordedItem (key : Bytes32) (amount : UInt64) (recipientAddress : Pubkey) : InboxItem :=
  if (self.itemFor key).init = false then
    { init := true, amount, recipientAddress, releaseStatus := .notApproved, votes := .new }
  else self.itemFor key

/-- Votes for a message from the peer of its chain, and approves it when that reaches the
threshold. This works while the program is paused. -/
def redeem (transceiver : Pubkey) (transceiverMessage : MessageAccount) :
    Except Error (State L) := do
  require (self.config.threshold > 0) (.ntt .zeroThreshold)
  let chain := transceiverMessage.data.fromChain
  let data := transceiverMessage.data.message
  let message := data.nttManagerPayload
  let peer ← loadAccount (self.peers chain)
  require (peer.address = data.sourceNttManager) (.ntt .invalidNttManagerPeer)
  require (message.payload.toChain = self.config.chainId) (.ntt .invalidChainId)
  require (data.recipientNttManager = R.programId) (.ntt .invalidRecipientNttManager)
  let account ← self.enabledTransceiver transceiver
  require (transceiverMessage.owner = account.transceiverAddress) .constraintOwner
  let key ← inboxKey R transceiverMessage.data
  let inboxRateLimit ← loadAccount (self.inboxRateLimits chain)
  let decimals := T.decimals self.tokens self.config.mint
  let amount ← (message.payload.amount.untrim decimals).mapError .ntt
  let inboxItem := self.recordedItem key amount message.payload.recipient
  -- idempotent
  let votes ← (inboxItem.votes.set account.id true).mapError .ntt
  let inboxItem := { inboxItem with votes }
  if inboxItem.votes.countEnabledVotes self.config.enabledTransceivers < self.config.threshold then
    return self.setInboxItem key inboxItem
  let (self, releaseTimestamp) ← self.consumeInbound now chain inboxRateLimit amount
  let inboxItem ← (inboxItem.releaseAfter releaseTimestamp).mapError .ntt
  return self.setInboxItem key inboxItem

/-- Releases an item whose time has come. When it has not, that is an error or changes nothing. -/
def releaseInboxItem (key : Bytes32) (revertWhenNotReady : Bool) :
    Except Error (Option InboxItem) := do
  let inboxItem ← loadAccount (self.inboxItems key)
  let (inboxItem, released) ← (inboxItem.tryRelease now).mapError .ntt
  if released then
    return some inboxItem
  else if revertWhenNotReady then
    match inboxItem.releaseStatus with
    | .notApproved => throw (.ntt .transferNotApproved)
    | .releaseAfter _ => throw (.ntt .cantReleaseYet)
    | .released => throw (.ntt .transferAlreadyRedeemed)
  else
    return none

/-- Mints to the custody, by the token authority or a multisig that it is a signer of. -/
def mintToCustody (tokens : L) (multisigTokenAuthority : Option Pubkey) (amount : UInt64) :
    Except Error L :=
  match multisigTokenAuthority with
  | some multisig => T.mintTo tokens self.config.mint self.config.custody ⟨multisig, false⟩
      [⟨R.tokenAuthority, true⟩] amount
  | none => T.mintTo tokens self.config.mint self.config.custody ⟨R.tokenAuthority, true⟩ [] amount

/-- Pays an item out of the custody. -/
def payFromCustody (tokens : L) (inboxItem : InboxItem) : Except Error L :=
  T.transferChecked tokens self.config.custody self.config.mint
    (T.associatedToken inboxItem.recipientAddress self.config.mint) R.tokenAuthority
    inboxItem.amount (T.decimals self.tokens self.config.mint)

/-- That an item was paid. -/
def paidEvent (key : Bytes32) (inboxItem : InboxItem) : Event :=
  .paid key (T.associatedToken inboxItem.recipientAddress self.config.mint) inboxItem.amount

/-- Releases an inbound transfer and mints the tokens to the recipient. -/
def releaseInboundMint (key : Bytes32) (multisigTokenAuthority : Option Pubkey)
    (revertWhenNotReady : Bool) : Except Error (State L × Option Event) := do
  self.notPaused
  require (self.config.mode = .burning) (.ntt .invalidMode)
  checkMultisig R T self.tokens multisigTokenAuthority
  match ← self.releaseInboxItem now key revertWhenNotReady with
  | none => return (self, none)
  | some inboxItem => do
      let tokens ← self.mintToCustody R T self.tokens multisigTokenAuthority inboxItem.amount
      let tokens ← self.payFromCustody R T tokens inboxItem
      return ({ self with tokens }.setInboxItem key inboxItem, some (self.paidEvent T key inboxItem))

/-- Releases an inbound transfer and unlocks the tokens to the recipient. -/
def releaseInboundUnlock (key : Bytes32) (revertWhenNotReady : Bool) :
    Except Error (State L × Option Event) := do
  self.notPaused
  require (self.config.mode = .locking) (.ntt .invalidMode)
  match ← self.releaseInboxItem now key revertWhenNotReady with
  | none => return (self, none)
  | some inboxItem => do
      let tokens ← self.payFromCustody R T self.tokens inboxItem
      return ({ self with tokens }.setInboxItem key inboxItem, some (self.paidEvent T key inboxItem))

/-! ### Outbound transfers -/

/-- The rate limits at a transfer: the amount is consumed on the outbound one and refilled on the
inbound one of the recipient chain, or it is delayed, when it may be. The two limits, and when the
transfer is released. -/
def consumeOutbound (inboxRateLimit : RateLimitState) (amount : UInt64) (shouldQueue : Bool) :
    Except Error (RateLimitState × RateLimitState × Int64) := do
  let (outboxRateLimit, result) ←
    (self.outboxRateLimit.consumeOrDelay RATE_LIMIT_DURATION now amount).mapError .panic
  match result with
  | .consumed now => do
      let inboxRateLimit ← (inboxRateLimit.refill RATE_LIMIT_DURATION now amount).mapError .panic
      return (outboxRateLimit, inboxRateLimit, now)
  | .delayed releaseTimestamp => do
      require (shouldQueue = true) (.ntt .transferExceedsRateLimit)
      return (outboxRateLimit, inboxRateLimit, releaseTimestamp)

/-- Consumes the rate limits and enters an item in the outbox. -/
def insertIntoOutbox (outboxItem sender : Pubkey) (inboxRateLimit : RateLimitState)
    (amount : UInt64) (trimmedAmount : TrimmedAmount) (recipientChain : ChainId)
    (recipientNttManager recipientAddress : Bytes32) (shouldQueue : Bool) :
    Except Error (State L) := do
  let (outboxRateLimit, inboxRateLimit, releaseTimestamp) ←
    self.consumeOutbound now inboxRateLimit amount shouldQueue
  let self := { self with outboxRateLimit }.setInboxRateLimit recipientChain inboxRateLimit
  return self.setOutboxItem outboxItem {
    amount := trimmedAmount
    sender, recipientChain, recipientNttManager, recipientAddress, releaseTimestamp
    released := .new }

/-- The accounts of a transfer: the peer of the recipient chain and its rate limit. -/
def transferAccounts (source outboxItem : Pubkey) (args : TransferArgs) :
    Except Error (NttManagerPeer × RateLimitState) := do
  self.notPaused
  require (self.config.enabledTransceivers.isEmpty = false) (.ntt .noRegisteredTransceivers)
  require (T.mint self.tokens source = self.config.mint) .constraintAddress
  require (self.outboxItems outboxItem = none) .accountAlreadyInUse
  let inboxRateLimit ← loadAccount (self.inboxRateLimits args.recipientChain)
  let peer ← loadAccount (self.peers args.recipientChain)
  return (peer, inboxRateLimit)

/-- The address that has to be approved for a transfer. -/
def sessionAuthority (source : Pubkey) (args : TransferArgs) : Pubkey :=
  R.sessionAuthority (T.owner self.tokens source) (R.keccak256 args.bytes)

/-- Burns tokens, by way of the custody, and enters an item in the outbox. -/
def transferBurn (source outboxItem : Pubkey) (args : TransferArgs) :
    Except Error (State L × Option Event) := do
  require (self.config.mode = .burning) (.ntt .invalidMode)
  let (peer, inboxRateLimit) ← self.transferAccounts T source outboxItem args
  let decimals := T.decimals self.tokens self.config.mint
  let (trimmedAmount, amount) ←
    (TrimmedAmount.removeDust args.amount decimals peer.tokenDecimals).mapError .ntt
  let before := T.amount self.tokens self.config.custody
  let tokens ← T.transferChecked self.tokens source self.config.mint self.config.custody
    (self.sessionAuthority R T source args) amount decimals
  let tokens ← T.burn tokens self.config.custody self.config.mint R.tokenAuthority amount
  let after := T.amount tokens self.config.custody
  require (after = before) (.ntt .badAmountAfterBurn)
  let sender := T.owner self.tokens source
  let self ← { self with tokens }.insertIntoOutbox now outboxItem sender inboxRateLimit amount
    trimmedAmount args.recipientChain peer.address args.recipientAddress args.shouldQueue
  return (self, some (.transferred outboxItem))

/-- Locks tokens in the custody and enters an item in the outbox. -/
def transferLock (source outboxItem : Pubkey) (args : TransferArgs) :
    Except Error (State L × Option Event) := do
  require (self.config.mode = .locking) (.ntt .invalidMode)
  let (peer, inboxRateLimit) ← self.transferAccounts T source outboxItem args
  let decimals := T.decimals self.tokens self.config.mint
  let (trimmedAmount, amount) ←
    (TrimmedAmount.removeDust args.amount decimals peer.tokenDecimals).mapError .ntt
  let before := T.amount self.tokens self.config.custody
  let tokens ← T.transferChecked self.tokens source self.config.mint self.config.custody
    (self.sessionAuthority R T source args) amount decimals
  let after := T.amount tokens self.config.custody
  if before.toNat + amount.toNat ≥ 2 ^ 64 then
    throw (.panic .overflow)
  require (after = before + amount) (.ntt .badAmountAfterTransfer)
  let sender := T.owner self.tokens source
  let self ← { self with tokens }.insertIntoOutbox now outboxItem sender inboxRateLimit amount
    trimmedAmount args.recipientChain peer.address args.recipientAddress args.shouldQueue
  return (self, some (.transferred outboxItem))

/-- Marks an outbox item as released by a transceiver, if its time has come, and says whether it
has. The transceiver has signed. -/
def markOutboxItemAsReleased (outboxItem transceiver : Pubkey) :
    Except Error (State L × Bool) := do
  self.notPaused
  let item ← loadAccount (self.outboxItems outboxItem)
  let account ← self.enabledTransceiver transceiver
  let already ← (item.released.get account.id).mapError .ntt
  require (already = false) (.ntt .messageAlreadySent)
  let (item, released) ← (item.tryRelease now account.id).mapError .ntt
  return (self.setOutboxItem outboxItem item, released)

/-- The message that a transceiver posts for an outbox item. -/
def outboxMessage (outboxItem : Pubkey) (item : OutboxItem) :
    TransceiverMessage (NativeTokenTransfer EmptyPayload) :=
  ⟨⟨R.programId, item.recipientNttManager, ⟨outboxItem, item.sender,
    ⟨item.amount, self.config.mint, item.recipientChain, item.recipientAddress, {}⟩⟩⟩, []⟩

/-- A transceiver releases an outbox item and posts its message. When the time of the item has not
come, that is an error or changes nothing. -/
def releaseOutbound (outboxItem transceiver : Pubkey) (revertOnDelay : Bool) :
    Except Error (State L × Option Event) := do
  let (self, released) ← self.markOutboxItemAsReleased now outboxItem transceiver
  if !released then
    if revertOnDelay then throw (.ntt .cantReleaseYet)
    else return (self, none)
  let item ← loadAccount (self.outboxItems outboxItem)
  R.postMessage (self.outboxMessage R outboxItem item)
  return (self, some (.released outboxItem transceiver))

/-! ### The mint authority -/

def isPaused : Except Error Unit := require (self.config.paused = true) (.ntt .notPaused)

/-- Hands the mint authority over from the token authority. -/
def claimFromTokenAuthority (newAuthority : Pubkey) : Except Error L :=
  T.setAuthority self.tokens self.config.mint ⟨R.tokenAuthority, true⟩ [] newAuthority

/-- Hands the mint authority over from a multisig that the token authority is a signer of. -/
def claimFromMultisigTokenAuthority (multisig newAuthority : Pubkey) : Except Error L :=
  T.setAuthority self.tokens self.config.mint ⟨multisig, false⟩ [⟨R.tokenAuthority, true⟩]
    newAuthority

/-- Hands the mint authority over from the one of the two that has it. -/
def claimFrom (multisigTokenAuthority : Option Pubkey) (newAuthority : Pubkey) : Except Error L :=
  match multisigTokenAuthority with
  | some multisig => self.claimFromMultisigTokenAuthority R T multisig newAuthority
  | none => self.claimFromTokenAuthority R T newAuthority

/-- The current mint authority, who signs, hands it to the program. -/
def acceptTokenAuthority (currentAuthority : Pubkey) (multisigTokenAuthority : Option Pubkey) :
    Except Error (State L) := do
  self.isPaused
  checkMultisig R T self.tokens multisigTokenAuthority
  let tokens ← T.setAuthority self.tokens self.config.mint ⟨currentAuthority, true⟩ []
    (multisigTokenAuthority.getD R.tokenAuthority)
  return { self with tokens }

/-- A multisig that is the mint authority hands it to the program. -/
def acceptTokenAuthorityFromMultisig (currentMultisigAuthority : Pubkey)
    (remaining : List AccountMeta) (multisigTokenAuthority : Option Pubkey) :
    Except Error (State L) := do
  self.isPaused
  checkMultisig R T self.tokens multisigTokenAuthority
  let _multisig ← loadAccount (T.multisig self.tokens currentMultisigAuthority)
  let tokens ← T.setAuthority self.tokens self.config.mint ⟨currentMultisigAuthority, false⟩
    remaining (multisigTokenAuthority.getD R.tokenAuthority)
  return { self with tokens }

/-- The accounts of an instruction by which the owner hands the mint authority over. -/
def setTokenAuthorityAccounts (owner : Pubkey) (multisigTokenAuthority : Option Pubkey) :
    Except Error Unit := do
  self.hasOneOwner owner
  self.isPaused
  checkMultisig R T self.tokens multisigTokenAuthority

def setTokenAuthorityOneStepUnchecked (owner : Pubkey) (multisigTokenAuthority : Option Pubkey)
    (newAuthority : Pubkey) : Except Error (State L) := do
  self.setTokenAuthorityAccounts R T owner multisigTokenAuthority
  let tokens ← self.claimFrom R T multisigTokenAuthority newAuthority
  return { self with tokens }

/-- The owner nominates an authority, in place of the one that is pending. -/
def setTokenAuthority (owner : Pubkey) (multisigTokenAuthority : Option Pubkey)
    (newAuthority rentPayer : Pubkey) : Except Error (State L) := do
  self.setTokenAuthorityAccounts R T owner multisigTokenAuthority
  require (T.mintAuthority self.tokens self.config.mint =
    some (multisigTokenAuthority.getD R.tokenAuthority)) (.ntt .invalidMintAuthority)
  let current := (self.pendingTokenAuthority.map PendingTokenAuthority.rentPayer).getD .default
  return { self with
    pendingTokenAuthority := some {
      pendingAuthority := newAuthority
      -- do not update rent_payer if already initialized
      rentPayer := if current ≠ Pubkey.default then current else rentPayer } }

/-- The accounts of an instruction that closes the nomination. -/
def claimTokenAuthorityAccounts (multisigTokenAuthority : Option Pubkey) (rentPayer : Pubkey) :
    Except Error PendingTokenAuthority := do
  self.isPaused
  checkMultisig R T self.tokens multisigTokenAuthority
  let pending ← loadAccount self.pendingTokenAuthority
  require (pending.rentPayer = rentPayer) (.ntt .incorrectRentPayer)
  return pending

/-- The owner takes a nomination back. -/
def revertTokenAuthority (multisigTokenAuthority : Option Pubkey) (rentPayer owner : Pubkey) :
    Except Error (State L) := do
  let _pending ← self.claimTokenAuthorityAccounts R T multisigTokenAuthority rentPayer
  require (owner = self.config.owner) .constraintAddress
  return { self with pendingTokenAuthority := none }

/-- The nominated authority, who signs, takes the mint authority over. -/
def claimTokenAuthority (multisigTokenAuthority : Option Pubkey) (rentPayer newAuthority : Pubkey) :
    Except Error (State L) := do
  let pending ← self.claimTokenAuthorityAccounts R T multisigTokenAuthority rentPayer
  require (newAuthority = pending.pendingAuthority) (.ntt .invalidPendingTokenAuthority)
  let tokens ← self.claimFrom R T multisigTokenAuthority newAuthority
  return { self with tokens, pendingTokenAuthority := none }

/-- A multisig that was nominated takes the mint authority over, when enough of it sign. -/
def claimTokenAuthorityToMultisig (multisigTokenAuthority : Option Pubkey)
    (rentPayer newMultisigAuthority : Pubkey) (remaining : List AccountMeta) :
    Except Error (State L) := do
  let pending ← self.claimTokenAuthorityAccounts R T multisigTokenAuthority rentPayer
  require (newMultisigAuthority = pending.pendingAuthority) (.ntt .invalidPendingTokenAuthority)
  let _multisig ← loadAccount (T.multisig self.tokens newMultisigAuthority)
  T.validateOwner self.tokens ⟨newMultisigAuthority, false⟩ remaining
  let tokens ← self.claimFrom R T multisigTokenAuthority newMultisigAuthority
  return { self with tokens, pendingTokenAuthority := none }

end State

/-! ### Instructions -/

/-- What the owner does to the transceivers and the threshold. -/
inductive RegistryInstruction where
  | registerTransceiver (owner transceiver : Pubkey) (executable : Bool)
  | deregisterTransceiver (owner transceiver : Pubkey)
  | setThreshold (owner : Pubkey) (threshold : UInt8)
deriving DecidableEq, Repr

/-- What else the owner does, and what is done to the ownership. -/
inductive AdminInstruction where
  | setPeer (owner : Pubkey) (chainId : ChainId) (address : Bytes32) (limit : UInt64)
      (tokenDecimals : UInt8)
  | setOutboundLimit (owner : Pubkey) (limit : UInt64)
  | setInboundLimit (owner : Pubkey) (limit : UInt64) (chainId : ChainId)
  | setPaused (owner : Pubkey) (paused : Bool)
  | transferOwnership (owner newOwner : Pubkey)
  | transferOwnershipOneStepUnchecked (owner newOwner : Pubkey)
  | claimOwnership (newOwner : Pubkey)
deriving DecidableEq, Repr

/-- What is done to the mint authority. -/
inductive TokenAuthorityInstruction where
  | acceptTokenAuthority (currentAuthority : Pubkey) (multisigTokenAuthority : Option Pubkey)
  | acceptTokenAuthorityFromMultisig (currentMultisigAuthority : Pubkey)
      (remaining : List AccountMeta) (multisigTokenAuthority : Option Pubkey)
  | setTokenAuthorityOneStepUnchecked (owner : Pubkey) (multisigTokenAuthority : Option Pubkey)
      (newAuthority : Pubkey)
  | setTokenAuthority (owner : Pubkey) (multisigTokenAuthority : Option Pubkey)
      (newAuthority rentPayer : Pubkey)
  | revertTokenAuthority (multisigTokenAuthority : Option Pubkey) (rentPayer owner : Pubkey)
  | claimTokenAuthority (multisigTokenAuthority : Option Pubkey) (rentPayer newAuthority : Pubkey)
  | claimTokenAuthorityToMultisig (multisigTokenAuthority : Option Pubkey)
      (rentPayer newMultisigAuthority : Pubkey) (remaining : List AccountMeta)
deriving DecidableEq, Repr

/-- An instruction, or anything that other programs do to the accounts of the token program. -/
inductive Instruction (L : Type) where
  | registry (i : RegistryInstruction)
  | admin (i : AdminInstruction)
  | tokenAuthority (i : TokenAuthorityInstruction)
  | redeem (transceiver : Pubkey) (transceiverMessage : MessageAccount)
  | releaseInboundMint (key : Bytes32) (multisigTokenAuthority : Option Pubkey)
      (revertWhenNotReady : Bool)
  | releaseInboundUnlock (key : Bytes32) (revertWhenNotReady : Bool)
  | transferBurn (source outboxItem : Pubkey) (args : TransferArgs)
  | transferLock (source outboxItem : Pubkey) (args : TransferArgs)
  | markOutboxItemAsReleased (outboxItem transceiver : Pubkey)
  | releaseOutbound (outboxItem transceiver : Pubkey) (revertOnDelay : Bool)
  | external (tokens : L)

namespace State

variable (self : State L) (now : Int64)

def applyRegistry : RegistryInstruction → Except Error (State L)
  | .registerTransceiver owner transceiver executable =>
      self.registerTransceiver owner transceiver executable
  | .deregisterTransceiver owner transceiver => self.deregisterTransceiver owner transceiver
  | .setThreshold owner threshold => self.setThreshold owner threshold

def applyAdmin : AdminInstruction → Except Error (State L)
  | .setPeer owner chainId address limit tokenDecimals =>
      self.setPeer now owner chainId address limit tokenDecimals
  | .setOutboundLimit owner limit => self.setOutboundLimit now owner limit
  | .setInboundLimit owner limit chainId => self.setInboundLimit now owner limit chainId
  | .setPaused owner paused => self.setPaused owner paused
  | .transferOwnership owner newOwner => self.transferOwnership R owner newOwner
  | .transferOwnershipOneStepUnchecked owner newOwner =>
      self.transferOwnershipOneStepUnchecked R owner newOwner
  | .claimOwnership newOwner => self.claimOwnership R newOwner

def applyTokenAuthority : TokenAuthorityInstruction → Except Error (State L)
  | .acceptTokenAuthority currentAuthority multisig =>
      self.acceptTokenAuthority R T currentAuthority multisig
  | .acceptTokenAuthorityFromMultisig currentMultisigAuthority remaining multisig =>
      self.acceptTokenAuthorityFromMultisig R T currentMultisigAuthority remaining multisig
  | .setTokenAuthorityOneStepUnchecked owner multisig newAuthority =>
      self.setTokenAuthorityOneStepUnchecked R T owner multisig newAuthority
  | .setTokenAuthority owner multisig newAuthority rentPayer =>
      self.setTokenAuthority R T owner multisig newAuthority rentPayer
  | .revertTokenAuthority multisig rentPayer owner =>
      self.revertTokenAuthority R T multisig rentPayer owner
  | .claimTokenAuthority multisig rentPayer newAuthority =>
      self.claimTokenAuthority R T multisig rentPayer newAuthority
  | .claimTokenAuthorityToMultisig multisig rentPayer newMultisigAuthority remaining =>
      self.claimTokenAuthorityToMultisig R T multisig rentPayer newMultisigAuthority remaining

/-- An instruction at a time: the new state, and what it makes known. -/
def apply : Instruction L → Except Error (State L × Option Event)
  | .registry i => do return (← self.applyRegistry i, none)
  | .admin i => do return (← self.applyAdmin R now i, none)
  | .tokenAuthority i => do return (← self.applyTokenAuthority R T i, none)
  | .redeem transceiver transceiverMessage => do
      return (← self.redeem R T now transceiver transceiverMessage, none)
  | .releaseInboundMint key multisig revertWhenNotReady =>
      self.releaseInboundMint R T now key multisig revertWhenNotReady
  | .releaseInboundUnlock key revertWhenNotReady =>
      self.releaseInboundUnlock R T now key revertWhenNotReady
  | .transferBurn source outboxItem args => self.transferBurn R T now source outboxItem args
  | .transferLock source outboxItem args => self.transferLock R T now source outboxItem args
  | .markOutboxItemAsReleased outboxItem transceiver => do
      let (self, released) ← self.markOutboxItemAsReleased now outboxItem transceiver
      return (self, if released then some (.released outboxItem transceiver) else none)
  | .releaseOutbound outboxItem transceiver revertOnDelay =>
      self.releaseOutbound R now outboxItem transceiver revertOnDelay
  | .external tokens => return ({ self with tokens }, none)

end State

/-- The program as a machine of timed instructions. -/
def Program.machine (R : Runtime) (T : TokenProgram L) :
    Transducer (State L) (Int64 × Instruction L) (Except Error (Option Event)) :=
  .ofExcept fun s o => s.apply R T o.1 o.2

/-! ### A runtime -/

/-- A runtime with some addresses. -/
def Runtime.reference (keccak256 : Bytes → Bytes32) : Runtime where
  programId := 0xA1
  tokenAuthority := 0xA2
  sessionAuthority owner hash := owner ^^^ hash
  keccak256
  io := .reference
  upgradeLock := 0xA3
  setUpgradeAuthority current authority newAuthority :=
    if current = some authority then .ok newAuthority else .error .external
  postMessage _ := .ok ()

/-- The accounts of a mint of nine decimals that nobody holds, and the authority that can mint. -/
def Ledger.fresh (mintAuthority : Pubkey) : Ledger where
  decimals := 9
  supply := 0
  mintAuthority := Function.update (fun _ => none) 0x70 (some mintAuthority)
  mint := 0x70
  owner wallet := wallet - 0x70
  delegate _ := none
  amount _ := 0
  multisig _ := none

end Ntt.Solana
