import Ntt.Lib.BigEndian
import Ntt.Relayer.World

/-!
# The Listener of the Relayer Bot

One scan tick of a source chain, with the event source that it reads, and the sweep at startup. An
error that is thrown ends the tick, and the next one starts over; only a `CorrelationError` is
caught, and its event is skipped.
-/

namespace Ntt.Relayer

open Interleaving

variable {d : Deployment}

/-- `abi.decode(["uint256"], …)`. -/
def decodeUint256 (data : Hex) : Option ℕ :=
  if data.length < 32 then none else some (BigEndian.beNat (data.take 32))

/-- The bytes32 universal address of an EVM address. -/
def toUniversalAddress (evmAddress : Hex) : Hex :=
  List.replicate (32 - evmAddress.length) 0 ++ evmAddress

/-- The sender and the sequence of the first log of a receipt that publishes a payload. -/
def matchPublished (core : Hex) (expectedEmitter : Option Hex) (wantPayload : Hex)
    (receipt : List ReceiptLog) : Option (Hex × ℕ) :=
  receipt.findSome? fun log =>
    match log.published with
    | none => none
    | some (sender, sequence, payload) =>
        if log.address = core ∧ payload = wantPayload ∧ expectedEmitter.all (· = sender) = true then
          some (sender, sequence)
        else none

/-- Correlate an `ExecutionRequested` event with the Core message of the same transaction; none is
a `CorrelationError`. -/
def correlate (chain : ChainConfig) (relayer core : Hex) (blockNumber : ℕ)
    (log : ExecutionRequested) (receipt : List ReceiptLog) : Option DecodedEvent :=
  match matchPublished core chain.expectedTransceiver log.requestBytes receipt with
  | none => none
  | some (sender, sequence) =>
      match decodeUint256 log.relayInstructions with
      | none => none
      | some gasLimit =>
          some {
            sourceChainId := chain.chainId
            destinationChainId := log.dstChain
            relayerAddress := relayer
            eventTxHash := log.txHash
            blockNumber := blockNumber
            logIndex := log.logIndex
            payload := {
              emitterChain := chain.chainId
              emitterAddress := toUniversalAddress sender
              sequence := sequence
              sourceTxHash := log.txHash
              dstChain := log.dstChain
              dstAddr := log.dstAddr
              gasLimit := gasLimit
              requestBytes := log.requestBytes } }

/-- Correlates logs one after another; none when a receipt is not available yet. -/
def correlateAll (chain : ChainConfig) (relayer core : Hex) :
    List (ℕ × ExecutionRequested) → Prog d (Option (List DecodedEvent))
  | [] => pure (some [])
  | (blockNumber, log) :: logs => do
      match ← run (.getTransactionReceipt chain.chainId log.txHash) with
      | none => pure none
      | some receipt => do
          let out ← correlateAll chain relayer core logs
          pure (out.map ((correlate chain relayer core blockNumber log receipt).toList ++ ·))

/-- The order of events: by block, then by index. -/
abbrev EventOrder (a b : DecodedEvent) : Prop :=
  if a.blockNumber = b.blockNumber then a.logIndex ≤ b.logIndex else a.blockNumber ≤ b.blockNumber

/-- The events of a block window; none when an error is thrown. -/
def scan (chain : ChainConfig) (relayer : Hex) (fromBlock toBlock : ℤ) :
    Prog d (Option (List DecodedEvent)) :=
  if toBlock < fromBlock then pure (some [])
  else
    match chain.coreBridgeAddress with
    | none => pure none
    | some core => do
        let logs ← run (.getLogs chain.chainId relayer fromBlock.toNat toBlock.toNat)
        let out ← correlateAll chain relayer core logs
        pure (out.map (·.insertionSort EventOrder))

/-- Finalized head for the chain: the head net of confirmations. -/
def latestBlock (chain : ChainConfig) : Prog d ℤ := do
  let head ← run (.getBlockNumber chain.chainId)
  pure ((head - chain.confirmations : ℕ) : ℤ)

/-- The row that a scan inserts for an event. -/
def eventToInsert (maxRetries : ℕ) (ev : DecodedEvent) : InsertPendingInput where
  sourceChainId := ev.sourceChainId
  destinationChainId := ev.destinationChainId
  relayerAddress := ev.relayerAddress
  eventTxHash := ev.eventTxHash
  payload := ev.payload
  maxRetries := maxRetries

/-- Publishes the row of an event, unless it is already processed. -/
def publishInserted (rec : TransactionRecord) : Prog d Unit :=
  if rec.status = .pending then run (.publish (recordToMessage rec)) else pure ()

/-- Scans a window, records it in one database transaction, and publishes after the commit. -/
def scanWindow (chain : ChainConfig) (relayer : Hex) (cursor toBlock : ℤ) : Prog d Unit := do
  match ← scan chain relayer (cursor + 1) toBlock with
  | none => pure ()
  | some events => do
      let inputs := events.map (eventToInsert d.maxRetries)
      let inserted ← run (.recordScan chain.chainId relayer inputs toBlock)
      inserted.forM publishInserted

/-- The last block of the window after a cursor. -/
def windowEnd (d : Deployment) (cursor head : ℤ) : ℤ :=
  if head < cursor + d.scanBlockRange then head else cursor + d.scanBlockRange

/-- One scan tick for a single chain. -/
def scanChainOnce (chain : ChainConfig) : Prog d Unit :=
  match chain.specialRelayerAddress with
  | none => pure ()
  | some relayer => do
      run (.initCursor chain.chainId relayer chain.genesisBlock)
      match ← run (.readCursor chain.chainId relayer) with
      | none => pure ()
      | some cursor => do
          let head ← latestBlock chain
          if head ≤ cursor then pure ()
          else scanWindow chain relayer cursor (windowEnd d cursor head)

/-- Startup sweep: re-publish any pending rows with no relay tx yet, page by page, for at most a
number of pages. -/
def republishPending (batchSize : ℕ) : ℕ → Option (ℕ × ℕ) → Prog d Unit
  | 0, _ => pure ()
  | pages + 1, cursor => do
      let page ← run (.selectByStatus .pending batchSize cursor)
      match page.getLast? with
      | none => pure ()
      | some last => do
          page.forM fun rec =>
            if rec.relayTxHash.isSome then pure () else run (.publish (recordToMessage rec))
          if page.length < batchSize then pure ()
          else republishPending batchSize pages (some (last.createdAtMs, last.id))

end Ntt.Relayer
