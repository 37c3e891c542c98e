import Ntt.Lib.Throwing
import Ntt.Relayer.Basic

/-!
# The Redis Queue of the Relayer Bot

The messages of a source chain are a stream with one consumer group, and a delay set from which the
ones that are due are moved back to the stream; the dead letters of all chains are one more stream.
Each operation of the queue is a program of Redis commands. A command is atomic; between two of them
others are done, and the program may crash. What a command returns may be lost on the way, or the
command itself, and then the program tries again as often as it may.

A message stands for its JSON text, which is what streams and delay sets hold. The group of a stream
starts at its beginning, so that creating it changes nothing, and ids of entries are counted. It is
left open in which order due members are moved, which idle entries are claimed, and what the clock
of a program says. An error that is not tried again ends a program as a crash does.

For the record there are two fields that Redis does not have: the deliveries that were made, and the
messages that were published and, since then, neither acked nor dead-lettered. A message is acked
when the ack deletes an entry of it, and dead-lettered when it is added to the dead letters.
-/

namespace Ntt.Relayer.RedisStreams

open Interleaving

/-! ### Redis -/

/-- A pulled message with the handle to settle it. -/
structure Delivery where
  message : RelayMessage
  partition : ChainId
  receiptHandle : ℕ
  deliveryAttempt : ℕ
deriving DecidableEq, Repr

structure Entry where
  id : ℕ
  data : RelayMessage
deriving DecidableEq, Repr

/-- An entry that was delivered and not acknowledged, since when. -/
structure Pending where
  id : ℕ
  deliveredAt : ℕ
deriving DecidableEq, Repr

/-- A stream with its group. -/
structure MessageStream where
  entries : List Entry
  lastGeneratedId : ℕ
  lastDeliveredId : ℕ
  pending : List Pending
deriving DecidableEq, Repr

structure Redis where
  streams : ChainId → MessageStream
  /-- The members of the delay sets with the times from which they are due. -/
  retry : ChainId → List (RelayMessage × ℕ)
  /-- The dead letters, with the reason and the id of the entry. -/
  dlq : List (RelayMessage × String × ℕ)
  clock : ℕ
  deliveries : List Delivery
  unsettled : List RelayMessage

def Redis.init : Redis where
  streams _ := ⟨[], 0, 0, []⟩
  retry _ := []
  dlq := []
  clock := 0
  deliveries := []
  unsettled := []

/-- The operation that adds or deletes an entry, for the record. -/
inductive Sender where
  | publish
  | pumpDelayed
  | ack
  | nack
  | deadLetter
deriving DecidableEq, Repr

/-- A Redis command of the queue, or a look at the clock. -/
inductive Command where
  | xadd (sender : Sender) (partition : ChainId) (data : RelayMessage)
  | xaddDlq (data : RelayMessage) (reason : String) (origId : ℕ)
  /-- The members that are due, at most a hundred. -/
  | zrangebyscore (partition : ChainId) (now : ℕ)
  | zrem (partition : ChainId) (member : RelayMessage)
  | zadd (partition : ChainId) (readyAt : ℕ) (member : RelayMessage)
  | xreadgroup (partition : ChainId) (count : ℕ)
  | xautoclaim (partition : ChainId) (minIdle count : ℕ)
  | xack (partition : ChainId) (id : ℕ)
  | xdel (sender : Sender) (partition : ChainId) (id : ℕ)
  | now
deriving DecidableEq, Repr

@[reducible] def Command.Value : Command → Type
  | .xadd .. | .now => ℕ
  | .zrangebyscore .. => List RelayMessage
  | .xreadgroup .. | .xautoclaim .. => List Entry
  | _ => Unit

/-- What a command leaves open. -/
structure Choice where
  /-- Redis gets the command. -/
  served : Bool
  /-- And its reply comes back. -/
  answered : Bool
  /-- The due members that are returned. -/
  due : List RelayMessage
  /-- The idle entries that are claimed. -/
  claimed : List ℕ
  /-- What the clock says. -/
  time : ℕ

def toDelivery (partition : ChainId) (deliveryAttempt : ℕ) (entry : Entry) : Delivery where
  message := entry.data
  partition := partition
  receiptHandle := entry.id
  deliveryAttempt := deliveryAttempt

namespace Redis

variable (s : Redis)

def setStream (partition : ChainId) (stream : MessageStream) : Redis :=
  { s with streams := Function.update s.streams partition stream }

def setRetry (partition : ChainId) (members : List (RelayMessage × ℕ)) : Redis :=
  { s with retry := Function.update s.retry partition members }

/-- Entries are delivered. -/
def deliver (partition : ChainId) (stream : MessageStream) (entries : List Entry)
    (deliveryAttempt : ℕ) : Redis :=
  { s.setStream partition stream with
    deliveries := s.deliveries ++ entries.map (toDelivery partition deliveryAttempt) }

/-- Messages are acked or dead-lettered. -/
def settle (ms : List RelayMessage) : Redis :=
  { s with unsettled := s.unsettled.filter fun m => m ∉ ms }

/-- What a command does when Redis gets it. -/
def exec : (a : Command) → Choice → Option (a.Value × Redis)
  | .xadd sender p m, _ =>
      let stream := s.streams p
      let id := stream.lastGeneratedId + 1
      let s := s.setStream p
        { stream with entries := stream.entries ++ [⟨id, m⟩], lastGeneratedId := id }
      if sender = .publish then some (id, { s with unsettled := m :: s.unsettled })
      else some (id, s)
  | .xaddDlq m reason origId, _ =>
      some ((), { s with dlq := s.dlq ++ [(m, reason, origId)] }.settle [m])
  | .zrangebyscore p now, ch =>
      let isDue m := ∃ x ∈ s.retry p, x.1 = m ∧ x.2 ≤ now
      if ch.due.Nodup ∧ ch.due.length ≤ 100 ∧ (∀ m ∈ ch.due, isDue m) ∧
          (ch.due.length < 100 → ∀ x ∈ s.retry p, x.2 ≤ now → x.1 ∈ ch.due) then
        some (ch.due, s)
      else none
  | .zrem p m, _ =>
      some ((), s.setRetry p ((s.retry p).filter fun x => x.1 ≠ m))
  | .zadd p readyAt m, _ =>
      some ((), s.setRetry p ((m, readyAt) :: (s.retry p).filter fun x => x.1 ≠ m))
  | .xreadgroup p count, _ =>
      let stream := s.streams p
      let fresh := stream.entries.filter fun e => stream.lastDeliveredId < e.id
      -- a count of zero is no limit
      let entries := if count = 0 then fresh else fresh.take count
      let lastDeliveredId := (entries.getLast?.map Entry.id).getD stream.lastDeliveredId
      let pending := stream.pending ++ entries.map fun e => ⟨e.id, s.clock⟩
      some (entries, s.deliver p { stream with lastDeliveredId, pending } entries 1)
  | .xautoclaim p minIdle count, ch =>
      let stream := s.streams p
      let isIdle id := ∃ x ∈ stream.pending, x.id = id ∧ x.deliveredAt + minIdle ≤ s.clock
      if ch.claimed.Nodup ∧ ch.claimed.length ≤ count ∧ ∀ id ∈ ch.claimed, isIdle id then
        -- an id whose entry was deleted is no longer pending
        let entries := stream.entries.filter fun e => e.id ∈ ch.claimed
        let others := stream.pending.filter fun x => x.id ∉ ch.claimed
        let pending := others ++ entries.map fun e => ⟨e.id, s.clock⟩
        some (entries, s.deliver p { stream with pending } entries 2)
      else none
  | .xack p id, _ =>
      let stream := s.streams p
      some ((), s.setStream p { stream with pending := stream.pending.filter fun x => x.id ≠ id })
  | .xdel sender p id, _ =>
      let stream := s.streams p
      let deleted := stream.entries.filter fun e => e.id = id
      let s := s.setStream p { stream with entries := stream.entries.filter fun e => e.id ≠ id }
      some ((), if sender = .ack then s.settle (deleted.map Entry.data) else s)
  | .now, ch => some (ch.time, s)

/-- A command, which may get lost, with its reply, which may get lost too. -/
def perform (a : Command) (ch : Choice) : Option (Option a.Value × Redis) :=
  if ch.served ∨ a = .now then
    (s.exec a ch).map fun r => (if ch.answered ∨ a = .now then some r.1 else none, r.2)
  else some (none, s)

end Redis

/-- The commands as atomic actions. -/
def redis : Atomics Redis where
  Act := Command
  Reply a := Option a.Value
  Choice := Choice
  perform a ch s := s.perform a ch

/-! ### The operations -/

/-- A program of commands. -/
abbrev Program (α : Type) : Type := Prog redis α

/-- A command that gets no reply throws. -/
def command (a : Command) : Program a.Value := OptionT.mk (Proc.perform (A := redis) a)

structure Options where
  visibilityTimeoutMs : ℕ
  maxAttempts : ℕ := 3

/-- Tries again after an error, up to a number of attempts. -/
def withRetry {α : Type} (fn : Program α) : ℕ → Program α
  | 0 => failure
  | n + 1 => fn <|> withRetry fn n

section

variable (o : Options)

def Options.run {α : Type} (fn : Program α) : Program α := withRetry fn o.maxAttempts

def publish (msg : RelayMessage) : Program Unit := do
  let _ ← o.run (command (.xadd .publish msg.chainId msg))

/-- Moves what is due back to the stream: added first, and then removed. -/
def pumpDelayed (partition : ChainId) : Program Unit := do
  let due ← o.run do
    let now ← command .now
    command (.zrangebyscore partition now)
  due.forM fun member => do
    let _ ← o.run (command (.xadd .pumpDelayed partition member))
    o.run (command (.zrem partition member))

def consume (partition : ChainId) (max : ℕ) : Program (List Delivery) := do
  pumpDelayed o partition
  let entries ← o.run (command (.xreadgroup partition max))
  return entries.map (toDelivery partition 1)

def reclaimExpired (partition : ChainId) (max : ℕ) : Program (List Delivery) := do
  let entries ← o.run (command (.xautoclaim partition o.visibilityTimeoutMs max))
  return entries.map (toDelivery partition 2)

def ack (d : Delivery) : Program Unit :=
  o.run do
    command (.xack d.partition d.receiptHandle)
    command (.xdel .ack d.partition d.receiptHandle)

/-- Puts a message into the delay set of its partition. -/
def nack (d : Delivery) (delayMs : ℕ) : Program Unit := do
  let readyAt := (← command .now) + delayMs
  o.run do
    command (.zadd d.partition readyAt d.message)
    command (.xack d.partition d.receiptHandle)
    command (.xdel .nack d.partition d.receiptHandle)

def deadLetter (d : Delivery) (reason : String) : Program Unit :=
  o.run do
    command (.xaddDlq d.message reason d.receiptHandle)
    command (.xack d.partition d.receiptHandle)
    command (.xdel .deadLetter d.partition d.receiptHandle)

end

/-! ### The queue as a system -/

/-- An operation of some client. -/
inductive Task where
  | publish (msg : RelayMessage)
  | consume (partition : ChainId) (max : ℕ)
  | reclaimExpired (partition : ChainId) (max : ℕ)
  | ack (d : Delivery)
  | nack (d : Delivery) (delayMs : ℕ)
  | deadLetter (d : Delivery) (reason : String)
deriving DecidableEq, Repr

namespace Task

/-- The end of a program, whether it threw or not. -/
def toProc {α : Type} (p : Program α) : Proc redis Unit := p.run.bind fun _ => .done ()

def body (o : Options) : Task → Proc redis Unit
  | publish msg => toProc (RedisStreams.publish o msg)
  | consume partition max => toProc (RedisStreams.consume o partition max)
  | reclaimExpired partition max => toProc (RedisStreams.reclaimExpired o partition max)
  | ack d => toProc (RedisStreams.ack o d)
  | nack d delayMs => toProc (RedisStreams.nack o d delayMs)
  | deadLetter d reason => toProc (RedisStreams.deadLetter o d reason)

/-- The delivery that is acked, nacked or dead-lettered. -/
def delivery : Task → Option Delivery
  | ack d | nack d _ | deadLetter d _ => some d
  | publish _ | consume .. | reclaimExpired .. => none

/-- It was made. -/
def start (t : Task) (s : Redis) : Option Redis :=
  if ∀ d ∈ t.delivery, d ∈ s.deliveries then some s else none

end Task

/-- Any number of clients, with no lock between them, and time. -/
def queue (o : Options) : System Redis where
  toAtomics := redis
  Task := Task
  Lock := Empty
  body := Task.body o
  lock _ := none
  start := Task.start
  Env := ℕ
  env ms s := some { s with clock := s.clock + ms }

end Ntt.Relayer.RedisStreams
