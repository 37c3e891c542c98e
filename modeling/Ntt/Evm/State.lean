import Mathlib.Logic.Function.Basic
import Ntt.Evm.RateLimiter
import Ntt.Evm.Token
import Ntt.Evm.TransceiverRegistry
import Ntt.Evm.TransceiverStructs
import Ntt.Lib.Resumption

/-!
# The State of an NTT Manager

The storage of a manager, the context of a call, the calls that a manager makes to other
contracts, and the deployment: the immutables with the libraries outside the repository.

Every write of the storage, and every event that the storage does not show, is an `Action`
with its name (`Action.apply` is the write). The state keeps the storage together with a
**log** of the actions so far, newest first, each with its call context and the storage it was
done on. The programs never read the log: it is what the statements about whole runs speak
of. `inStatus` and `outStatus` read off it where a message digest or a sequence stands. The state
holds the ledger of the token too, for the statements about custody and supply.
-/

namespace Ntt

/-! ### Storage -/

/-- The attestations of a message, and whether it was executed. -/
structure AttestationInfo where
  executed : Bool
  attestedTransceivers : UInt64
deriving DecidableEq, Repr

/-- The peer on another chain. -/
structure NttManagerPeer where
  peerAddress : Bytes32
  tokenDecimals : UInt8
deriving DecidableEq, Repr

/-- A transfer in the outbound queue; the timestamp of an entry that does not exist is zero. -/
structure OutboundQueuedTransfer where
  recipient : Bytes32
  refundAddress : Bytes32
  amount : TrimmedAmount
  txTimestamp : UInt64
  recipientChain : UInt16
  sender : Address
  transceiverInstructions : Bytes
deriving DecidableEq, Repr

/-- A transfer in the inbound queue; the timestamp of an entry that does not exist is zero. -/
structure InboundQueuedTransfer where
  amount : TrimmedAmount
  txTimestamp : UInt64
  recipient : Address
deriving DecidableEq, Repr

/-- A queue entry that does not exist. -/
def OutboundQueuedTransfer.zero : OutboundQueuedTransfer := ⟨0, 0, ⟨0⟩, 0, 0, 0, []⟩

/-- A queue entry that does not exist. -/
def InboundQueuedTransfer.zero : InboundQueuedTransfer := ⟨⟨0⟩, 0, 0⟩

/-- The storage of a manager. -/
structure Storage where
  /-- The transceivers and the threshold. -/
  quorum : Quorum
  /-- The attestations by digest. -/
  messageAttestations : Bytes32 → AttestationInfo
  /-- The next sequence. -/
  messageSequence : UInt64
  /-- The peers by chain. -/
  peers : UInt16 → NttManagerPeer
  /-- The outbound limit. -/
  outboundLimit : RateLimitParams
  /-- The inbound limits by chain. -/
  inboundLimits : UInt16 → RateLimitParams
  /-- The outbound queue by sequence. -/
  outboundQueue : UInt64 → OutboundQueuedTransfer
  /-- The inbound queue by digest. -/
  inboundQueue : Bytes32 → InboundQueuedTransfer
  owner : Address
  pauser : Address
  paused : Bool
  /-- The status of the re-entrancy guard. -/
  entered : Bool

/-- The storage that the initialiser leaves: no transceivers, no peers, nothing sent or
received, an owner who is also the pauser, and some outbound limit. -/
def Storage.initial (owner : Address) (outboundLimit : RateLimitParams) : Storage where
  quorum := .empty
  messageAttestations _ := ⟨false, 0⟩
  messageSequence := 0
  peers _ := ⟨0, 0⟩
  outboundLimit := outboundLimit
  inboundLimits _ := .zero
  outboundQueue _ := .zero
  inboundQueue _ := .zero
  owner := owner
  pauser := owner
  paused := false
  entered := false

/-- The registry of the transceivers. -/
abbrev Storage.registry (st : Storage) : TransceiverRegistry := st.quorum.registry

/-- The votes for a digest by transceivers that are enabled now. -/
def Storage.getMessageAttestations (st : Storage) (digest : Bytes32) : UInt64 :=
  (st.messageAttestations digest).attestedTransceivers &&& st.registry.bitmap

/-- The number of these votes. -/
def Storage.messageAttestationsCount (st : Storage) (digest : Bytes32) : UInt8 :=
  countSetBits (st.getMessageAttestations digest)

/-- A digest is approved when its votes reach the threshold, which is not zero. -/
def Storage.isMessageApproved (st : Storage) (digest : Bytes32) : Bool :=
  st.messageAttestationsCount digest ≥ st.quorum.threshold && st.quorum.threshold > 0

/-! ### Contexts, calls and deployments -/

/-- The context of a call: the caller, the value sent along, and the block. -/
structure Context where
  /-- `msg.sender`. -/
  sender : Address
  /-- `msg.value`. -/
  value : ℕ
  /-- `block.timestamp`. -/
  timestamp : UInt64
  /-- `block.chainid`. -/
  chainid : ℕ
deriving DecidableEq, Repr

/-- The calls of a manager to other contracts. -/
inductive Ext where
  | tokenDecimals
  | balanceOf (account : Address)
  | safeTransferFrom (sender recipient : Address) (amount : ℕ)
  | burn (amount : ℕ)
  | mint (recipient : Address) (amount : ℕ)
  | safeTransfer (recipient : Address) (amount : ℕ)
  | quoteDeliveryPrice (transceiver : Address) (recipientChain : UInt16)
      (instruction : TransceiverInstruction)
  | sendMessage (transceiver : Address) (value : ℕ) (recipientChain : UInt16)
      (instruction : TransceiverInstruction) (nttManagerMessage : Bytes)
      (recipientNttManagerAddress refundAddress : Bytes32)
  | transferTransceiverOwnership (transceiver newOwner : Address)
  | sendValue (recipient : Address) (amount : ℕ)
deriving DecidableEq, Repr

/-- The replies to them. -/
def Ext.Reply : Ext → Type
  | .tokenDecimals => UInt8
  | .balanceOf _ => ℕ
  | .quoteDeliveryPrice .. => ℕ
  | _ => Unit

/-- The calls that cannot change any storage. -/
def Ext.isStatic : Ext → Bool
  | .tokenDecimals | .balanceOf _ | .quoteDeliveryPrice .. => true
  | _ => false

/-- The external calls of a manager. -/
abbrev managerInterface : Reentrant.Interface := ⟨Ext, Ext.Reply⟩

/-- What a manager does with tokens. -/
inductive Mode where
  | locking
  | burning
deriving DecidableEq, Repr

/-- A deployed manager: its immutables, and the functions it uses that are not part of the
repository. -/
structure NttManager where
  /-- The address of the manager. -/
  this : Address
  token : Address
  mode : Mode
  chainId : UInt16
  evmChainId : ℕ
  rateLimitDuration : UInt64
  keccak256 : Bytes → Bytes32
  bytes : BytesParsing
  toWormholeFormat : Address → Bytes32
  fromWormholeFormat : Bytes32 → Except Error Address

/-! ### Actions -/

/-- What a transfer fixes when it gets its sequence: the amount asked for, the amount that
arrived, and what the message will carry. -/
structure Transfer where
  requested : ℕ
  received : ℕ
  amount : TrimmedAmount
  recipientChain : UInt16
  recipient : Bytes32
  refundAddress : Bytes32
  sender : Address
  transceiverInstructions : Bytes
deriving DecidableEq, Repr

/-- The queue entry of a transfer. -/
def Transfer.queued (t : Transfer) (txTimestamp : UInt64) : OutboundQueuedTransfer where
  recipient := t.recipient
  refundAddress := t.refundAddress
  amount := t.amount
  txTimestamp := txTimestamp
  recipientChain := t.recipientChain
  sender := t.sender
  transceiverInstructions := t.transceiverInstructions

/-- A write of the storage, or an event. -/
inductive Action where
  /-- The owner changed the registry or the threshold. -/
  | quorum (op : RegistryOp) (q : Quorum)
  | setPeer (chain : UInt16) (peer : NttManagerPeer)
  | outboundLimit (op : RateLimitOp) (p : RateLimitParams)
  | inboundLimit (chain : UInt16) (op : RateLimitOp) (p : RateLimitParams)
  | setPaused (paused : Bool)
  | setPauser (pauser : Address)
  | setOwner (owner : Address)
  | setEntered (entered : Bool)
  /-- A transceiver voted for a message, reporting its source manager. -/
  | attest (sourceChainId : UInt16) (sourceNttManagerAddress : Bytes32)
      (message : NttManagerMessage) (digest : Bytes32) (index : UInt8)
  /-- A message was marked as executed, and is handed to `_handleMsg`. -/
  | execute (sourceChainId : UInt16) (sourceNttManagerAddress : Bytes32)
      (message : NttManagerMessage) (digest : Bytes32)
  | enqueueInbound (digest : Bytes32) (transfer : InboundQueuedTransfer)
  | dequeueInbound (digest : Bytes32)
  /-- `TransferRedeemed`: tokens are about to be minted or unlocked for a message. -/
  | transferRedeemed (digest : Bytes32) (recipient : Address) (amount : TrimmedAmount)
      (untrimmedAmount : ℕ)
  | useMessageSequence (sequence : UInt64) (transfer : Transfer)
  | enqueueOutbound (sequence : UInt64) (transfer : OutboundQueuedTransfer)
  /-- A queued transfer left the queue to be sent. -/
  | releaseOutbound (sequence : UInt64)
  /-- A queued transfer left the queue to be refunded. -/
  | withdrawOutbound (sequence : UInt64)
  /-- A message is handed to the enabled transceivers. -/
  | send (sequence : UInt64) (recipientChain : UInt16) (message : NttManagerMessage)
      (peerAddress : Bytes32) (transceivers : List Address)
  /-- `OutboundTransferCancelled`: tokens are about to be returned to the sender. -/
  | outboundTransferCancelled (sequence : UInt64) (recipient : Address)
      (amount : TrimmedAmount) (untrimmedAmount : ℕ)

/-- The storage after an action. -/
def Action.apply (st : Storage) : Action → Storage
  | .quorum _ q => { st with quorum := q }
  | .setPeer chain peer => { st with peers := Function.update st.peers chain peer }
  | .outboundLimit _ p => { st with outboundLimit := p }
  | .inboundLimit chain _ p =>
      { st with inboundLimits := Function.update st.inboundLimits chain p }
  | .setPaused paused => { st with paused }
  | .setPauser pauser => { st with pauser }
  | .setOwner owner => { st with owner }
  | .setEntered entered => { st with entered }
  | .attest _ _ _ digest index =>
      let info := st.messageAttestations digest
      let votes := info.attestedTransceivers ||| Bitmap.bit index.toNat
      { st with messageAttestations :=
          Function.update st.messageAttestations digest ⟨info.executed, votes⟩ }
  | .execute _ _ _ digest =>
      let info := st.messageAttestations digest
      { st with messageAttestations :=
          Function.update st.messageAttestations digest ⟨true, info.attestedTransceivers⟩ }
  | .enqueueInbound digest transfer =>
      { st with inboundQueue := Function.update st.inboundQueue digest transfer }
  | .dequeueInbound digest =>
      { st with inboundQueue := Function.update st.inboundQueue digest .zero }
  | .useMessageSequence _ _ => { st with messageSequence := st.messageSequence + 1 }
  | .enqueueOutbound sequence transfer =>
      { st with outboundQueue := Function.update st.outboundQueue sequence transfer }
  | .releaseOutbound sequence =>
      { st with outboundQueue := Function.update st.outboundQueue sequence .zero }
  | .withdrawOutbound sequence =>
      { st with outboundQueue := Function.update st.outboundQueue sequence .zero }
  | .transferRedeemed .. | .send .. | .outboundTransferCancelled .. => st

/-- An action in the log, with the context of its call and the storage it was done on. -/
structure LogEntry where
  act : Action
  ctx : Context
  pre : Storage

/-- The state of a manager: its storage, the ledger of its token, which only calls of the token
read or change, and the log of what happened, newest first. -/
structure State where
  storage : Storage
  token : Ledger
  log : List LogEntry

/-- Does an action, and remembers it. -/
def State.perform (s : State) (ctx : Context) (a : Action) : State where
  storage := a.apply s.storage
  token := s.token
  log := ⟨a, ctx, s.storage⟩ :: s.log

@[simp] theorem State.perform_storage (s : State) (ctx : Context) (a : Action) :
    (s.perform ctx a).storage = a.apply s.storage := rfl

@[simp] theorem State.perform_token (s : State) (ctx : Context) (a : Action) :
    (s.perform ctx a).token = s.token := rfl

@[simp] theorem State.perform_log (s : State) (ctx : Context) (a : Action) :
    (s.perform ctx a).log = ⟨a, ctx, s.storage⟩ :: s.log := rfl

/-! ### What the log says of a digest and of a sequence -/

/-- Where a message digest stands. -/
inductive InStatus where
  /-- It was not executed. -/
  | none
  /-- It was executed, and nothing was done for it yet. -/
  | executing (message : NttManagerMessage)
  /-- It waits in the inbound queue. -/
  | queued (amount : TrimmedAmount) (recipient : Address)
  /-- It has left the inbound queue. -/
  | released (amount : TrimmedAmount) (recipient : Address)
  /-- Its tokens were minted or unlocked. -/
  | redeemed

/-- What an action makes of the status of a digest. -/
def InStatus.step (d : Bytes32) (old : InStatus) : Action → InStatus
  | .execute _ _ m d' => if d' = d then .executing m else old
  | .enqueueInbound d' t => if d' = d then .queued t.amount t.recipient else old
  | .dequeueInbound d' =>
      if d' = d then
        match old with
        | .queued amount recipient => .released amount recipient
        | other => other
      else old
  | .transferRedeemed d' .. => if d' = d then .redeemed else old
  | _ => old

/-- The status of a digest. -/
def inStatus (d : Bytes32) : List LogEntry → InStatus
  | [] => .none
  | e :: log => (inStatus d log).step d e.act

/-- Where a sequence stands. -/
inductive OutStatus where
  /-- It was not handed out. -/
  | none
  /-- It was handed out, to a transfer that is neither queued nor finalised; it was queued at a
  time, if it was. -/
  | inFlight (t : Transfer) (queuedAt : Option UInt64)
  /-- Its transfer waits in the outbound queue, since a time. -/
  | queued (t : Transfer) (txTimestamp : UInt64)
  /-- Its transfer has left the queue to be refunded. -/
  | withdrawn (t : Transfer) (txTimestamp : UInt64)
  /-- Its message was sent. -/
  | sent (t : Transfer) (queuedAt : Option UInt64)
  /-- Its transfer was cancelled. -/
  | cancelled (t : Transfer) (txTimestamp : UInt64)

/-- What an action makes of the status of a sequence. -/
def OutStatus.step (n : UInt64) (old : OutStatus) : Action → OutStatus
  | .useMessageSequence n' t => if n' = n then .inFlight t .none else old
  | .enqueueOutbound n' e =>
      if n' = n then
        match old with
        | .inFlight t _ => .queued t e.txTimestamp
        | other => other
      else old
  | .releaseOutbound n' =>
      if n' = n then
        match old with
        | .queued t txTimestamp => .inFlight t (some txTimestamp)
        | other => other
      else old
  | .withdrawOutbound n' =>
      if n' = n then
        match old with
        | .queued t txTimestamp => .withdrawn t txTimestamp
        | other => other
      else old
  | .send n' .. =>
      if n' = n then
        match old with
        | .inFlight t queuedAt => .sent t queuedAt
        | other => other
      else old
  | .outboundTransferCancelled n' .. =>
      if n' = n then
        match old with
        | .withdrawn t txTimestamp => .cancelled t txTimestamp
        | other => other
      else old
  | _ => old

/-- The status of a sequence. -/
def outStatus (n : UInt64) : List LogEntry → OutStatus
  | [] => .none
  | e :: log => (outStatus n log).step n e.act

@[simp] theorem inStatus_cons (d : Bytes32) (e : LogEntry) (log : List LogEntry) :
    inStatus d (e :: log) = (inStatus d log).step d e.act := rfl

@[simp] theorem outStatus_cons (n : UInt64) (e : LogEntry) (log : List LogEntry) :
    outStatus n (e :: log) = (outStatus n log).step n e.act := rfl

end Ntt
