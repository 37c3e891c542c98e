import Ntt.Relayer.World

/-!
# The Worker of the Relayer Bot

The processing of one delivery, with its two failure handlers. Its errors are the classified ones
that `prepare` and `broadcast` throw, those of a reservation, and of a wallet that is not in the
pool. The lock of the message is the session lock of the task (`Ntt.Relayer.System`).
-/

namespace Ntt.Relayer

open Interleaving

variable {d : Deployment}

def messageToInsert (m : RelayMessage) (maxRetries : ℕ) : InsertPendingInput where
  sourceChainId := m.chainId
  destinationChainId := m.transactionData.dstChain
  relayerAddress := m.relayerAddress
  eventTxHash := m.transactionHash
  payload := m.transactionData
  maxRetries := maxRetries

/-- Moves the row and its message to the dead letters. -/
def giveUp (m : RelayMessage) (rec : TransactionRecord) (msg : ErrorMessage) : Prog d Unit := do
  let _ ← run (.markDeadLetter rec.id msg)
  run (.deadLetter m)

/-- Touches the row and puts the message back. -/
def deferLater (m : RelayMessage) (rec : TransactionRecord) : Prog d Unit := do
  run (.touch rec.id)
  run (.nack m)

/-- Failure after the nonce was committed: the next attempt resubmits it. -/
def handleSubmittingFailure (m : RelayMessage) (rec : TransactionRecord) (err : RelayError) :
    Prog d Unit :=
  match err with
  | .permanent _ => giveUp m rec (.ofError err)
  | .defer _ => deferLater m rec
  | .retriable _ | .allWalletsBusy => do
      match ← run (.incrementRetry rec.id) with
      | none => run (.ack m)
      | some budget =>
          if budget.exhausted then giveUp m rec (.ofError err) else run (.nack m)

/-- Marks the row failed and gives it up. -/
def failAndGiveUp (m : RelayMessage) (rec : TransactionRecord) (msg : ErrorMessage) :
    Prog d Unit := do
  let _ ← run (.markFailed rec.id msg)
  giveUp m rec msg

/-- Failure before a nonce is committed. -/
def handleDeliveryFailure (m : RelayMessage) (rec : TransactionRecord) (err : RelayError) :
    Prog d Unit :=
  match err with
  | .allWalletsBusy => deferLater m rec
  | .defer message => do
      let now ← run .dateNow
      let ageMs := now - rec.createdAtMs
      if d.vaaTimeoutMs < ageMs then failAndGiveUp m rec (.deferTimeout ageMs message)
      else deferLater m rec
  | .permanent _ => failAndGiveUp m rec (.ofError err)
  | .retriable _ => do
      let failure ← run (.markFailed rec.id (.ofError err))
      -- no row updated counts as an exhausted budget here
      if failure.all Budget.exhausted then giveUp m rec (.ofError err) else run (.nack m)

/-- The idempotency guard. -/
def skip (m : RelayMessage) : TxStatus → Bool
  | .confirmed | .deadLetter => true
  | .submitted => m.replaceNonce.isNone
  | _ => false

/-- The committed nonce that a delivery resubmits. -/
def resubmitNonce (m : RelayMessage) (rec : TransactionRecord) : Option ℕ :=
  match m.replaceNonce with
  | some n => some n
  | none => if rec.status = .submitting then rec.nonceUsed else none

/-- The wallet and nonce of a resubmission. -/
def resubmitLease (m : RelayMessage) (rec : TransactionRecord) : Option Lease :=
  match resubmitNonce m rec, rec.walletUsed with
  | some nonce, some address => some ⟨address, nonce⟩
  | _, _ => none

def routePreCommitFailure (m : RelayMessage) (rec : TransactionRecord) (err : RelayError) :
    Prog d Unit :=
  if (resubmitLease m rec).isSome then handleSubmittingFailure m rec err
  else handleDeliveryFailure m rec err

/-- A reservation: the pending nonces of the wallets, and then the transaction. -/
def reserve (rec : TransactionRecord) : Prog d (Except RelayError Lease) := do
  match ← run (.getTransactionCounts rec.destinationChainId) with
  | .error err => pure (.error err)
  | .ok chainNonces => run (.reserve rec.id rec.destinationChainId chainNonces)

/-- Phase 2a: secure a nonce. A resubmission reuses the committed one, on the same wallet. -/
def secureNonce (m : RelayMessage) (rec : TransactionRecord) : Prog d (Except RelayError Lease) :=
  match resubmitLease m rec with
  | some lease =>
      if lease.address ∈ d.wallets then pure (.ok lease)
      else pure (.error (.retriable "wallet is not in the pool"))
  | none => reserve rec

/-- Phase 2b: broadcast, and record what was sent. -/
def broadcastLease (m : RelayMessage) (rec : TransactionRecord) (lease : Lease) : Prog d Unit := do
  match ← run (.broadcast rec.id rec.destinationChainId lease.address lease.nonce) with
  | .error err => handleSubmittingFailure m rec err
  | .ok txHash => do
      -- a row that was ended in the meantime only raises an alert
      let _ ← run (.markSubmitted rec.id txHash lease.address lease.nonce)
      run (.ack m)

/-- The attempt for a row that is not skipped. -/
def attempt (m : RelayMessage) (rec : TransactionRecord) : Prog d Unit := do
  match ← run (.prepare rec rec.retryCount) with
  | .error err => routePreCommitFailure m rec err
  | .ok .alreadyConsumed => do
      let _ ← run (.markConfirmed rec.id)
      run (.ack m)
  | .ok .ready => do
      match ← secureNonce m rec with
      | .error err => routePreCommitFailure m rec err
      | .ok lease => broadcastLease m rec lease

/-- A message that replaces a nonce is dropped when the row holds another one. -/
def processRecord (m : RelayMessage) (rec : TransactionRecord) : Prog d Unit :=
  if skip m rec.status then run (.ack m)
  else if m.replaceNonce.isSome ∧ rec.nonceUsed ≠ m.replaceNonce then run (.ack m)
  else attempt m rec

/-- Process one delivery. -/
def processDelivery (m : RelayMessage) : Prog d Unit := do
  match ← run (.findBySourceEvent m.chainId m.transactionHash) with
  | some existing => processRecord m existing
  | none => do
      let rec ← run (.insertPending (messageToInsert m d.maxRetries))
      processRecord m rec

end Ntt.Relayer
