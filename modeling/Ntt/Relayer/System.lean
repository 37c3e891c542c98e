import Ntt.Relayer.Cron
import Ntt.Relayer.Listener
import Ntt.Relayer.Worker

/-!
# The Relayer Bot as a System of Processes

The tasks of the bot and their locks. Any number of scans, sweeps, deliveries and cron passes are
under way at once. A delivery runs under the lock of its message and a cron pass under the leader
lock, each a session lock that is lost with its session; a delivery whose lock is held elsewhere
is skipped, which leaves its message where it was. Which worker owns a partition is left open, so
that every order of deliveries is a run.

A delivery takes a waiting message, or one that was published before and is delivered again: after
a crash, after its visibility timeout, or as a duplicate.
-/

namespace Ntt.Relayer

open Interleaving

/-- A task of the bot. -/
inductive Task where
  | scan (chain : ChainConfig)
  | sweep (pages : ℕ)
  | delivery (m : RelayMessage) (again : Bool)
  | cron
deriving DecidableEq, Repr

/-- A session advisory lock. -/
inductive SessionLock where
  | message (key : Key)
  | leader
deriving DecidableEq, Repr

def RelayMessage.key (m : RelayMessage) : Key := (m.chainId, m.transactionHash)

namespace Task

variable {d : Deployment}

def body : Task → Prog d Unit
  | scan chain => scanChainOnce chain
  | sweep pages => republishPending 500 pages none
  | delivery m _ => processDelivery m
  | cron => cronTick

def lock : Task → Option SessionLock
  | scan _ | sweep _ => none
  | delivery m _ => some (.message m.key)
  | cron => some .leader

/-- What starting a task does to the queue. -/
def start (d : Deployment) : Task → World → Option World
  | scan chain, s => if chain ∈ d.chains then some s else none
  | sweep _, s => some s
  | delivery m true, s => if m ∈ s.published then some s else none
  | delivery m false, s =>
      if m ∈ s.queue then some { s with queue := s.queue.erase m } else none
  | cron, s => some s

end Task

/-- The relayer bot. -/
def bot (d : Deployment) : System World where
  toAtomics := atomics d
  Task := Task
  Lock := SessionLock
  body := Task.body
  lock := Task.lock
  start := Task.start d
  Env := Env
  env := env

/-- The bot before anything has happened. -/
def Deployment.init (d : Deployment) : Config (bot d) := ⟨World.init, []⟩

/-- The bot after a list of events. -/
def Deployment.run (d : Deployment) (es : List (Event (bot d))) : Config (bot d) :=
  (machine (bot d)).run d.init es

/-! ### What may be seen of a run -/

section

variable {d : Deployment}

/-- The task and the next action of a process that can act. -/
def next (c : Config (bot d)) (i : ℕ) : Option (Task × Act) :=
  match c.threads[i]? with
  | some t =>
      match t.alive, t.left with
      | true, .act a _ => some (t.task, a)
      | _, _ => none
  | none => none

/-- The task delivers a message of the key. -/
def Task.delivers (k : Key) : Task → Bool
  | .delivery m _ => m.key = k
  | _ => false

/-- Some process delivers a message of the key. -/
def underDelivery (c : Config (bot d)) (k : Key) : Bool :=
  c.threads.any fun t => t.live && Task.delivers k t.task

/-- The session of a message lock is lost. -/
def losesMessageLock (c : Config (bot d)) : Event (bot d) → Bool
  | .lose i => (c.threads[i]?).any fun t => (Task.lock t.task).any fun l => l ≠ .leader
  | _ => false

theorem next_eq_some {c : Config (bot d)} {i : ℕ} {t : Thread (bot d)} {a : Act}
    {f : a.Reply → Prog d Unit} (ht : c.threads[i]? = some t) (hv : t.alive = true)
    (ha : t.left = .act a f) : next c i = some (t.task, a) := by
  simp only [next, ht, hv, ha]
  rfl

theorem underDelivery_eq_false {c : Config (bot d)} {k : Key} (h : underDelivery c k = false) {j : ℕ}
    {t : Thread (bot d)} {m : RelayMessage} {again : Bool} (ht : c.threads[j]? = some t)
    (hv : t.live = true) (htask : t.task = .delivery m again) : m.key ≠ k := by
  have hfalse := List.any_eq_false.mp h t (List.mem_of_getElem? ht)
  simpa [hv, htask, Task.delivers] using hfalse

theorem losesMessageLock_eq_false {c : Config (bot d)} {i : ℕ}
    (h : losesMessageLock c (.lose i) = false) {t : Thread (bot d)} (ht : c.threads[i]? = some t)
    (k : Key) : Task.lock t.task ≠ some (.message k) := by
  intro hl
  simp [losesMessageLock, ht, hl] at h

end

/-! ### A deployment -/

namespace Sample

def relayer : Hex := List.replicate 20 1

def core : Hex := List.replicate 20 2

def transceiver : Hex := List.replicate 20 3

def wallet : Hex := List.replicate 20 5

def chain : ChainConfig where
  chainId := 2
  specialRelayerAddress := some relayer
  coreBridgeAddress := some core
  expectedTransceiver := some transceiver
  confirmations := 1
  genesisBlock := 10

/-- A request for chain 4, with its log index as the payload and the sequence. -/
def request (txHash : Hex) (logIndex : ℕ) : ExecutionRequested where
  address := relayer
  dstChain := 4
  dstAddr := List.replicate 32 9
  requestBytes := [UInt8.ofNat logIndex]
  relayInstructions := List.replicate 31 0 ++ [100]
  txHash := txHash
  logIndex := logIndex

/-- The requests of block 10, by their transactions. -/
def requests (txs : List Hex) : List ExecutionRequested :=
  txs.zipIdx.map fun p => request p.1 p.2

def source (txs : List Hex) : SourceChains where
  logs c b := if c = 2 ∧ b = 10 then requests txs else []
  receipt c h :=
    if c = 2 then
      some (((requests txs).filter (·.txHash = h)).map fun r =>
        .publishing core transceiver r.logIndex r.requestBytes)
    else none

/-- A source chain with one request for each of some transactions, and one wallet. -/
def deployment (txs : List Hex) : Deployment where
  chains := [chain]
  chains_nodup := by simp
  wallets := [wallet]
  scanBlockRange := 200
  maxRetries := 5
  submittedTimeoutMin := 5
  vaaTimeoutMs := 1800000
  source := source txs
  uuid := id

/-- A scan tick at head 11, to its end, for so many requests. -/
def scanned (txs : List Hex) : List (Event (bot (deployment txs))) :=
  [.start (.scan chain), .act 0 .only, .act 0 .only, .act 0 (.block 11), .act 0 .only] ++
    txs.map (fun _ => .act 0 (.seen true)) ++ [.act 0 .only] ++ txs.map fun _ => .act 0 .only

/-- The queue message of a request. -/
def message (txHash : Hex) (logIndex : ℕ) : RelayMessage where
  transactionHash := txHash
  chainId := 2
  relayerAddress := relayer
  transactionData := {
    emitterChain := 2
    emitterAddress := toUniversalAddress transceiver
    sequence := logIndex
    sourceTxHash := txHash
    dstChain := 4
    dstAddr := List.replicate 32 9
    gasLimit := 100
    requestBytes := [UInt8.ofNat logIndex] }
  retryCount := 0
  replaceNonce := none

example : ((deployment [[7], [8]]).run (scanned [[7], [8]])).state.queue =
    [message [7] 0, message [8] 1] := by decide

/-- A deployment with one request. -/
abbrev single : Deployment := deployment [[7]]

/-- A first delivery, whose transaction is not mined for a while. -/
def delivered : List (Event (bot single)) :=
  scanned [[7]] ++ [.start (.delivery (message [7] 0) false), .act 1 .only,
    .act 1 (.prepared (.ok .ready)), .act 1 (.nonces (.ok fun _ => 0)), .act 1 (.wallet (some wallet)),
    .act 1 (.sends true [11] none), .act 1 .only, .act 1 .only, .env (.tick 301000000)]

end Sample

end Ntt.Relayer
