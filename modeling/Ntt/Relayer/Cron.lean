import Ntt.Relayer.World

/-!
# The Cron of the Relayer Bot

One cron pass: lost messages are published again, rows that a crash left `submitting` are
resubmitted, and stale `submitted` rows are reconciled with the receipts. The alert on the number
of dead letters is left out.
-/

namespace Ntt.Relayer

open Interleaving

variable {d : Deployment}

/-- `BATCH`. -/
def batch : ℕ := 100

/-- A tx that ran out of gas consumes essentially its whole gas limit. -/
def revertedLikelyOutOfGas (receipt : ReceiptInfo) : Bool :=
  match receipt.gasUsed, receipt.gasLimit with
  | some gasUsed, some gasLimit => gasLimit = 0 || gasLimit * 95 ≤ gasUsed * 100
  | _, _ => true

/-- Reverted tx: retry with a fresh nonce. -/
def retryFresh (rec : TransactionRecord) (reason : ErrorMessage) : Prog d Unit := do
  match ← run (.markFailed rec.id reason) with
  | none => do
      let _ ← run (.markDeadLetter rec.id reason)
      pure ()
  | some failure =>
      if failure.exhausted then do
        let _ ← run (.markDeadLetter rec.id reason)
        pure ()
      else
        run (.publish { recordToMessage rec with retryCount := failure.retryCount })

/-- Stuck tx or a crashed `submitting` row: resubmit the nonce. -/
def resubmit (rec : TransactionRecord) (reason : ErrorMessage) : Prog d Unit :=
  match rec.nonceUsed, rec.walletUsed with
  | some nonce, some _ => do
      match ← run (.incrementRetry rec.id) with
      | none => pure ()
      | some budget =>
          if budget.exhausted then do
            let _ ← run (.markDeadLetter rec.id reason)
            pure ()
          else
            run (.publish { recordToMessage rec with
              retryCount := budget.retryCount
              replaceNonce := some nonce })
  | _, _ => retryFresh rec reason

/-- Re-drives the stale rows of a status whose message was lost. -/
def republishLost (status : TxStatus) (cutoffMs : ℕ) : Prog d Unit := do
  let lost ← run (.selectStaleByStatus status cutoffMs batch)
  lost.forM fun rec =>
    if status = .pending ∧ rec.relayTxHash.isSome then pure ()
    else run (.publish (recordToMessage rec))

/-- A submitted row without a receipt. -/
def reconcileUnmined (rec : TransactionRecord) (relayTxHash : Hex) : Prog d Unit := do
  let known ← run (.isTxKnown rec.destinationChainId relayTxHash)
  if known then do
    let now ← run .dateNow
    if 2 * d.submittedTimeoutMin * 60000 < now - rec.updatedAtMs then resubmit rec .noReceipt
    else pure ()
  else resubmit rec .dropped

/-- A submitted row with its receipt. -/
def reconcileMined (rec : TransactionRecord) (receipt : ReceiptInfo) : Prog d Unit :=
  if receipt.succeeded then do
    let _ ← run (.markConfirmed rec.id)
    pure ()
  else if revertedLikelyOutOfGas receipt then retryFresh rec .outOfGas
  else do
    let _ ← run (.markDeadLetter rec.id .deterministicRevert)
    pure ()

/-- Reconciles a stale submitted row. -/
def reconcile (rec : TransactionRecord) : Prog d Unit :=
  match rec.relayTxHash with
  | none => resubmit rec .noRelayTxHash
  | some relayTxHash => do
      match ← run (.getReceipt rec.destinationChainId relayTxHash) with
      | none => reconcileUnmined rec relayTxHash
      | some receipt => reconcileMined rec receipt

/-- One cron pass. -/
def cronTick : Prog d Unit := do
  let now ← run .dateNow
  let cutoffMs := now - d.submittedTimeoutMin * 60000
  republishLost .pending cutoffMs
  republishLost .failed cutoffMs
  let submitting ← run (.selectStaleByStatus .submitting cutoffMs batch)
  submitting.forM fun rec => resubmit rec .submittingRecovery
  let stale ← run (.selectStaleByStatus .submitted cutoffMs batch)
  stale.forM reconcile

end Ntt.Relayer
