import Ntt.Lib.Interleaving
import Ntt.Relayer.Database

/-!
# What the Roles of the Relayer Bot Act On

The state that all processes of the bot share: the two tables, the queue, and the destination
chains with the transactions handed to them. The source chains are fixed, since the bot reads only
what is final there, and so is the configuration; the two make a `Deployment`.

An action is a query, a database transaction, a queue operation or a call of a node. Database
transactions are atomic, and one that throws has done nothing. A query or a queue operation that
fails ends its process, as a crash does. What a node answers is the action's choice: a head, a
pending nonce, whether a receipt is seen yet, what `prepare` makes of the destination, and whether
a broadcast is taken and its answer comes back. A broadcast at a nonce that is already mined is not
taken.

The queue delivers at least once. It is modelled by the messages that wait, and by all that were
ever published: any of these may be delivered again.
-/

namespace Ntt.Relayer

open Interleaving

/-! ### Source chains -/

/-- An `ExecutionRequested` log. -/
structure ExecutionRequested where
  address : Hex
  dstChain : ChainId
  dstAddr : Hex
  requestBytes : Hex
  relayInstructions : Hex
  txHash : Hex
  logIndex : ℕ
deriving DecidableEq, Repr

/-- A log of a receipt, with the decoded `LogMessagePublished` if it is one. -/
structure ReceiptLog where
  address : Hex
  published : Option (Hex × ℕ × Hex)
deriving DecidableEq, Repr

namespace ReceiptLog

/-- A `LogMessagePublished` of a contract. -/
def publishing (address sender : Hex) (sequence : ℕ) (payload : Hex) : ReceiptLog :=
  ⟨address, some (sender, sequence, payload)⟩

end ReceiptLog

/-- The final blocks of the source chains, and the receipts of their transactions. -/
structure SourceChains where
  logs : ChainId → ℕ → List ExecutionRequested
  receipt : ChainId → Hex → Option (List ReceiptLog)

/-- The configuration, the source chains, and the random ids of rows in the order of insertion. -/
structure Deployment extends RelayerBotConfig where
  source : SourceChains
  uuid : ℕ → ℕ

/-- The logs of a contract in a range of blocks, with their block numbers: `getLogs`. -/
def SourceChains.getLogs (src : SourceChains) (chainId : ChainId) (address : Hex)
    (fromBlock toBlock : ℕ) : List (ℕ × ExecutionRequested) :=
  (List.range' fromBlock (toBlock + 1 - fromBlock)).flatMap fun b =>
    ((src.logs chainId b).filter (·.address = address)).map (b, ·)

theorem SourceChains.mem_getLogs {src : SourceChains} {chainId : ChainId} {address : Hex}
    {fromBlock toBlock b : ℕ} {log : ExecutionRequested} :
    (b, log) ∈ src.getLogs chainId address fromBlock toBlock ↔
      fromBlock ≤ b ∧ b ≤ toBlock ∧ log ∈ src.logs chainId b ∧ log.address = address := by
  simp only [getLogs, List.mem_flatMap, List.mem_range'_1, List.mem_map, List.mem_filter,
    decide_eq_true_eq, Prod.mk.injEq]
  constructor
  · rintro ⟨b', hb', log', ⟨hlog, haddr⟩, rfl, rfl⟩
    exact ⟨hb'.1, by omega, hlog, haddr⟩
  · rintro ⟨hlo, hhi, hlog, haddr⟩
    exact ⟨b, ⟨hlo, by omega⟩, log, ⟨hlog, haddr⟩, rfl, rfl⟩

/-! ### The shared state -/

/-- A transaction handed to a destination chain, with the row that it was made for. -/
structure Broadcast where
  chainId : ChainId
  wallet : Hex
  nonce : ℕ
  hash : Hex
  id : ℕ
deriving DecidableEq, Repr

structure World where
  transactions : List Row
  blockTracker : BlockTracker
  /-- The messages that wait for their delivery. -/
  queue : List RelayMessage
  /-- All messages that were ever published. -/
  published : List RelayMessage
  /-- The transactions handed to the destination chains, the last one first. -/
  sent : List Broadcast
  /-- The next nonce that a chain mines of a wallet. -/
  accountNonce : ChainId → Hex → ℕ
  receipts : Hex → Option ReceiptInfo
  /-- The time, in microseconds. -/
  clock : ℕ

namespace World

def init : World where
  transactions := []
  blockTracker _ := none
  queue := []
  published := []
  sent := []
  accountNonce _ _ := 0
  receipts _ := none
  clock := 0

end World

/-! ### Actions -/

inductive Act where
  | findBySourceEvent (sourceChainId : ChainId) (eventTxHash : Hex)
  | insertPending (input : InsertPendingInput)
  /-- The transaction of a reservation, with `markSubmitting` inside. -/
  | reserve (id : ℕ) (chainId : ChainId) (chainNonces : Hex → ℕ)
  | markSubmitted (id : ℕ) (relayTxHash wallet : Hex) (nonce : ℕ)
  | markConfirmed (id : ℕ)
  | touch (id : ℕ)
  | incrementRetry (id : ℕ)
  | markFailed (id : ℕ) (errorMessage : ErrorMessage)
  | markDeadLetter (id : ℕ) (errorMessage : ErrorMessage)
  | selectStaleByStatus (status : TxStatus) (olderThanMs limit : ℕ)
  | selectByStatus (status : TxStatus) (limit : ℕ) (after : Option (ℕ × ℕ))
  | initCursor (chainId : ChainId) (relayer : Hex) (genesisBlock : ℕ)
  | readCursor (chainId : ChainId) (relayer : Hex)
  /-- The transaction of a scan: the insertions and the advance of the cursor. -/
  | recordScan (chainId : ChainId) (relayer : Hex) (inputs : List InsertPendingInput) (toBlock : ℤ)
  | publish (msg : RelayMessage)
  | ack (msg : RelayMessage)
  | nack (msg : RelayMessage)
  | deadLetter (msg : RelayMessage)
  | getBlockNumber (chainId : ChainId)
  | getLogs (chainId : ChainId) (address : Hex) (fromBlock toBlock : ℕ)
  | getTransactionReceipt (chainId : ChainId) (txHash : Hex)
  | prepare (rec : TransactionRecord) (retryAttempt : ℕ)
  | getTransactionCounts (chainId : ChainId)
  | broadcast (id : ℕ) (chainId : ChainId) (wallet : Hex) (nonce : ℕ)
  | getReceipt (chainId : ChainId) (txHash : Hex)
  | isTxKnown (chainId : ChainId) (txHash : Hex)
  | dateNow

@[reducible] def Act.Reply : Act → Type
  | .findBySourceEvent .. => Option TransactionRecord
  | .insertPending _ => TransactionRecord
  | .reserve .. => Except RelayError Lease
  | .markSubmitted .. | .markConfirmed _ | .markDeadLetter .. => Bool
  | .incrementRetry _ | .markFailed .. => Option Budget
  | .selectStaleByStatus .. | .selectByStatus .. | .recordScan .. => List TransactionRecord
  | .readCursor .. => Option ℤ
  | .getBlockNumber _ | .dateNow => ℕ
  | .getLogs .. => List (ℕ × ExecutionRequested)
  | .getTransactionReceipt .. => Option (List ReceiptLog)
  | .prepare .. => Except RelayError PrepareResult
  | .getTransactionCounts _ => Except RelayError (Hex → ℕ)
  | .broadcast .. => Except RelayError Hex
  | .getReceipt .. => Option ReceiptInfo
  | .isTxKnown .. => Bool
  | .touch _ | .initCursor .. | .publish _ | .ack _ | .nack _ | .deadLetter _ => Unit

/-- What an action leaves open. -/
inductive Choice where
  /-- Nothing. -/
  | only
  /-- The rows that a scan comes upon, in its order. -/
  | scan (ids : List ℕ)
  /-- The wallet whose lock is got, or none. -/
  | wallet (address : Option Hex)
  /-- The number of a head block. -/
  | block (n : ℕ)
  /-- Whether the node has seen the transaction. -/
  | seen (b : Bool)
  /-- The pending nonces of the wallets, or the failure of a call. -/
  | nonces (r : Except RelayError (Hex → ℕ))
  /-- What `prepare` finds out. -/
  | prepared (r : Except RelayError PrepareResult)
  /-- Whether the chain takes a transaction of this hash, and the error, if one comes back. -/
  | sends (taken : Bool) (hash : Hex) (err : Option RelayError)

namespace World

/-- A table after an update, and whether it updated a row. -/
def updated (s : World) : Option (Row × List Row) → Bool × World
  | some (_, rows) => (true, { s with transactions := rows })
  | none => (false, s)

/-- A table after an update that returns the budget. -/
def budgeted (s : World) : Option (Row × List Row) → Option Budget × World
  | some (r, rows) => (some ⟨r.retryCount, r.maxRetries⟩, { s with transactions := rows })
  | none => (none, s)

/-- The insertions of a scan, one after another. -/
def insertAll (now : ℕ) : List Row → List InsertPendingInput → List TransactionRecord × List Row
  | rows, [] => ([], rows)
  | rows, input :: inputs =>
      let (rec, rows) := TransactionsRepo.insertPending rows now input
      let (recs, rows) := insertAll now rows inputs
      (rec :: recs, rows)

/-- The transaction of a reservation: the first free wallet gets a nonce, and the row is marked. -/
def reserve (s : World) (id : ℕ) (chainId : ChainId) (wallet : Hex) (chainNonce : ℕ) :
    Except RelayError Lease × World :=
  let nonce := reserveNonce s.transactions wallet chainId chainNonce
  match TransactionsRepo.markSubmitting s.transactions s.clock id wallet nonce with
  | some (_, rows) => (.ok ⟨wallet, nonce⟩, { s with transactions := rows })
  | none => (.error (.retriable "markSubmitting updated no row (status changed concurrently)"), s)

/-- A hash names one transaction. -/
def names (s : World) (b : Broadcast) : Bool := s.sent.all fun b' => b'.hash ≠ b.hash ∨ b' = b

end World

open TransactionsRepo BlockTrackerRepo World

/-- What an action does. -/
def perform (d : Deployment) : (a : Act) → Choice → World → Option (a.Reply × World)
  | .findBySourceEvent c h, _, s => some (findBySourceEvent s.transactions c h, s)
  | .insertPending input, _, s =>
      let (rec, rows) := insertPending s.transactions s.clock input
      some (rec, { s with transactions := rows })
  | .reserve id c nonces, .wallet (some w), s =>
      if w ∈ d.wallets then some (s.reserve id c w (nonces w)) else none
  | .reserve .., .wallet none, s => some (.error .allWalletsBusy, s)
  | .markSubmitted id h w n, _, s =>
      some (s.updated (markSubmitted s.transactions s.clock id h w n))
  | .markConfirmed id, _, s => some (s.updated (markConfirmed s.transactions s.clock id))
  | .touch id, _, s => some ((), (s.updated (touch s.transactions s.clock id)).2)
  | .incrementRetry id, _, s => some (s.budgeted (incrementRetry s.transactions s.clock id))
  | .markFailed id msg, _, s => some (s.budgeted (markFailed s.transactions s.clock id msg))
  | .markDeadLetter id msg, _, s =>
      some (s.updated (markDeadLetter s.transactions s.clock id msg))
  | .selectStaleByStatus status olderThanMs limit, .scan ids, s =>
      some (selectStaleByStatus s.transactions status olderThanMs limit ids, s)
  | .selectByStatus status limit after, _, s =>
      some (selectByStatus d.uuid s.transactions status limit after, s)
  | .initCursor c relayer genesis, _, s =>
      some ((), { s with blockTracker := init s.blockTracker c relayer genesis })
  | .readCursor c relayer, _, s => some (s.blockTracker (c, relayer), s)
  | .recordScan c relayer inputs toBlock, _, s =>
      let (recs, rows) := insertAll s.clock s.transactions inputs
      let tracker := advance s.blockTracker c relayer toBlock
      some (recs, { s with transactions := rows, blockTracker := tracker })
  | .publish msg, _, s =>
      some ((), { s with queue := s.queue ++ [msg], published := s.published ++ [msg] })
  | .ack _, _, s => some ((), s)
  | .nack msg, _, s => some ((), { s with queue := s.queue ++ [msg] })
  | .deadLetter _, _, s => some ((), s)
  | .getBlockNumber _, .block n, s => some (n, s)
  | .getLogs c address fromBlock toBlock, _, s =>
      some (d.source.getLogs c address fromBlock toBlock, s)
  | .getTransactionReceipt c h, .seen b, s => some (if b then d.source.receipt c h else none, s)
  | .prepare .., .prepared r, s => some (r, s)
  | .getTransactionCounts _, .nonces r, s => some (r, s)
  | .broadcast id c w n, .sends true h err, s =>
      let b : Broadcast := ⟨c, w, n, h, id⟩
      if s.accountNonce c w ≤ n ∧ s.names b then
        some (match err with | none => .ok h | some e => .error e, { s with sent := b :: s.sent })
      else none
  | .broadcast .., .sends false _ (some err), s => some (.error err, s)
  | .getReceipt _ h, .seen b, s => some (if b then s.receipts h else none, s)
  | .isTxKnown .., .seen b, s => some (b, s)
  | .dateNow, _, s => some (s.clock / 1000, s)
  | _, _, _ => none

/-- The actions of a deployment. -/
def atomics (d : Deployment) : Atomics World where
  Act := Act
  Reply := Act.Reply
  Choice := Choice
  perform := perform d

/-- A program of a role. -/
abbrev Prog (d : Deployment) (α : Type) : Type := Proc (atomics d) α

/-- One action, as a program. -/
def run {d : Deployment} (a : Act) : Prog d a.Reply := Proc.perform (A := atomics d) a

/-! ### Surroundings -/

/-- What happens without the bot. -/
inductive Env where
  /-- Time passes. -/
  | tick (micros : ℕ)
  /-- The transaction of a hash is mined. -/
  | mine (hash : Hex) (receipt : ReceiptInfo)

def env : Env → World → Option World
  | .tick micros, s => some { s with clock := s.clock + micros }
  | .mine hash receipt, s =>
      match s.sent.find? fun b => b.hash = hash ∧ b.nonce = s.accountNonce b.chainId b.wallet with
      | none => none
      | some b =>
          some { s with
            accountNonce := Function.update s.accountNonce b.chainId
              (Function.update (s.accountNonce b.chainId) b.wallet (b.nonce + 1))
            receipts := Function.update s.receipts hash (some receipt) }

end Ntt.Relayer
