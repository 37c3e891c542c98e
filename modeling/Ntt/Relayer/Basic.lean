import Mathlib.Data.List.Nodup
import Mathlib.Data.Int.Notation

/-!
# Records, Messages and Errors of the Relayer Bot

The data that the roles of the bot pass around. A `0x` string is modelled by the bytes that it
spells, so that a comparison of lower-cased strings is one of bytes, and a decimal string by its
number. A stored time is in microseconds, as Postgres keeps it; a JavaScript date is in
milliseconds, and `TransactionRecord.createdAtMs` is what the driver makes of it.

The id of a row is its position in the table: rows are never deleted, and an id is only ever
compared with another.
-/

namespace Ntt.Relayer

/-- A Wormhole chain id. -/
abbrev ChainId := ℕ

/-- A `0x` string. -/
abbrev Hex := List UInt8

instance : LawfulBEq Hex := inferInstance

/-- Lifecycle of a relay. -/
inductive TxStatus where
  | pending
  | submitting
  | submitted
  | confirmed
  | failed
  | deadLetter
deriving DecidableEq, Repr

/-- The relay payload that is persisted and carried on the queue. -/
structure RelayPayload where
  emitterChain : ChainId
  emitterAddress : Hex
  sequence : ℕ
  sourceTxHash : Hex
  dstChain : ChainId
  dstAddr : Hex
  gasLimit : ℕ
  requestBytes : Hex
deriving DecidableEq, Repr

/-- A delivery failure, as the worker tells them apart. Whatever else is thrown is handled as a
retriable failure is. -/
inductive RelayError where
  | defer (message : String)
  | retriable (message : String)
  | permanent (message : String)
  | allWalletsBusy
deriving DecidableEq, Repr

/-- The texts written to `error_message`, by the place that makes them. -/
inductive ErrorMessage where
  /-- The message of an error that was caught. -/
  | ofError (err : RelayError)
  /-- `defer timeout after …ms: …`. -/
  | deferTimeout (ageMs : ℕ) (message : String)
  /-- `submitting recovery: no tx hash recorded`. -/
  | submittingRecovery
  /-- `submitted without a relay tx hash`. -/
  | noRelayTxHash
  /-- `submitted tx dropped before mempool`. -/
  | dropped
  /-- `submitted timeout: no receipt`. -/
  | noReceipt
  /-- `destination tx reverted (likely out of gas)`. -/
  | outOfGas
  /-- `destination tx reverted (deterministic, not gas)`. -/
  | deterministicRevert
deriving DecidableEq, Repr

/-- A row of the `transactions` table. -/
structure Row where
  sourceChainId : ChainId
  destinationChainId : ChainId
  relayerAddress : Hex
  eventTxHash : Hex
  payload : RelayPayload
  status : TxStatus
  relayTxHash : Option Hex
  walletUsed : Option Hex
  nonceUsed : Option ℕ
  retryCount : ℕ
  maxRetries : ℕ
  errorMessage : Option ErrorMessage
  createdAt : ℕ
  updatedAt : ℕ
deriving DecidableEq, Repr

/-- A row with its id, as the repository returns it. -/
structure TransactionRecord extends Row where
  id : ℕ
deriving DecidableEq, Repr

def rowToRecord (id : ℕ) (r : Row) : TransactionRecord := { r with id }

/-- `createdAt.getTime()`. -/
def TransactionRecord.createdAtMs (rec : TransactionRecord) : ℕ := rec.createdAt / 1000

/-- `updatedAt.getTime()`. -/
def TransactionRecord.updatedAtMs (rec : TransactionRecord) : ℕ := rec.updatedAt / 1000

structure InsertPendingInput where
  sourceChainId : ChainId
  destinationChainId : ChainId
  relayerAddress : Hex
  eventTxHash : Hex
  payload : RelayPayload
  maxRetries : ℕ
deriving DecidableEq, Repr

/-- The retry budget that an update returns. -/
structure Budget where
  retryCount : ℕ
  maxRetries : ℕ
deriving DecidableEq, Repr

/-- The budget is used up. -/
def Budget.exhausted (b : Budget) : Bool := b.maxRetries ≤ b.retryCount

/-- The on-the-wire message. -/
structure RelayMessage where
  transactionHash : Hex
  chainId : ChainId
  relayerAddress : Hex
  transactionData : RelayPayload
  retryCount : ℕ
  replaceNonce : Option ℕ
deriving DecidableEq, Repr

/-- Build the queue message from a persisted row. -/
def recordToMessage (rec : TransactionRecord) : RelayMessage where
  transactionHash := rec.eventTxHash
  chainId := rec.sourceChainId
  relayerAddress := rec.relayerAddress
  transactionData := rec.payload
  retryCount := rec.retryCount
  replaceNonce := none

/-- An `ExecutionRequested` event after correlation. -/
structure DecodedEvent where
  sourceChainId : ChainId
  destinationChainId : ChainId
  relayerAddress : Hex
  eventTxHash : Hex
  blockNumber : ℕ
  logIndex : ℕ
  payload : RelayPayload
deriving DecidableEq, Repr

/-- What `prepare` finds out. What a broadcast sends is determined by the row, so a prepared
delivery carries nothing. -/
inductive PrepareResult where
  | ready
  | alreadyConsumed
deriving DecidableEq, Repr

/-- A wallet leased for one delivery, with the nonce to use. -/
structure Lease where
  address : Hex
  nonce : ℕ
deriving DecidableEq, Repr

/-- A mined transaction receipt. -/
structure ReceiptInfo where
  succeeded : Bool
  gasUsed : Option ℕ
  gasLimit : Option ℕ
deriving DecidableEq, Repr

/-- The configuration of a chain. -/
structure ChainConfig where
  chainId : ChainId
  specialRelayerAddress : Option Hex
  coreBridgeAddress : Option Hex
  expectedTransceiver : Option Hex
  confirmations : ℕ
  genesisBlock : ℕ
deriving DecidableEq, Repr

/-- The configuration of the bot. The registry of chains has one entry for each chain id. -/
structure RelayerBotConfig where
  chains : List ChainConfig
  chains_nodup : (chains.map ChainConfig.chainId).Nodup
  /-- The addresses of the wallet pool. -/
  wallets : List Hex
  scanBlockRange : ℕ
  maxRetries : ℕ
  submittedTimeoutMin : ℕ
  vaaTimeoutMs : ℕ

end Ntt.Relayer
