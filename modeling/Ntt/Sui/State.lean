import Ntt.Lib.Decimal
import Ntt.Sui.Messages
import Ntt.Sui.RateLimit
import Ntt.Sui.TransceiverRegistry

/-!
# The State of the Sui Manager

The state of the manager with its inbox, what the admin does to it, and the two functions for
inbound transfers: `redeem`, by which a transceiver votes for a message and the last vote that is
needed releases it after a delay, and `release`. Transceivers are types that authenticate, as keys
of any type `τ`. Coins are of the framework, which is not part of the repository, and are the
parameter `Framework`; only a caller with the admin's capability can make the calls of the admin.

`Manager.machine` takes these calls in any order. One that aborts leaves the state as it was.
-/

namespace Ntt.Sui

/-! ### Amounts -/

namespace TrimmedAmount

/-- An amount in other decimals. -/
def scale (amount : UInt64) (fromDecimals toDecimals : UInt8) : Except Abort UInt64 :=
  if fromDecimals = toDecimals then return amount
  else if fromDecimals > toDecimals then do
    let power := fromDecimals - toDecimals
    assert (power ≤ 18) (.code "trimmed_amount" 0)
    let scalingFactor := 10 ^ power.toNat
    return UInt64.ofNat (amount.toNat / scalingFactor)
  else do
    let power := toDecimals - fromDecimals
    assert (power ≤ 18) (.code "trimmed_amount" 0)
    let scalingFactor := 10 ^ power.toNat
    assert (amount.toNat ≤ (2 ^ 64 - 1) / scalingFactor) (.code "trimmed_amount" 1)
    checkedU64 (amount.toNat * scalingFactor)

def untrim (self : TrimmedAmount) (toDecimals : UInt8) : Except Abort UInt64 :=
  scale self.amount self.decimals toDecimals

/-- Scaling fails only by a power of ten above the eighteenth, or when the product leaves 64
bits. -/
theorem scale_eq_ok {a c : UInt64} {f t : UInt8} :
    scale a f t = .ok c ↔ c.toNat = Decimal.rescale a.toNat f.toNat t.toNat ∧
      (f ≠ t → f.toNat - t.toNat ≤ 18 ∧ t.toNat - f.toNat ≤ 18) := by
  rw [scale]
  rcases Decimal.order f t with rfl | ⟨hne, hgt, hlt, hsub⟩ | ⟨hne, hgt, hlt, hsub⟩
  · rw [if_pos rfl, Decimal.rescale_self, UInt64.toNat_inj, and_iff_left fun h => absurd rfl h]
    exact Except.pure_eq_ok.trans eq_comm
  · have hzero : t.toNat - f.toNat ≤ 18 := by omega
    have hdiv : ∀ n, (UInt64.ofNat (a.toNat / n)).toNat = a.toNat / n := fun n =>
      UInt64.toNat_ofNat_of_lt ((Nat.div_le_self _ _).trans_lt a.toNat_lt)
    rw [if_neg hne, if_pos hgt, Decimal.rescale_of_ge hlt.le]
    simp only [Except.bind_eq_ok, assert_eq_ok, UInt8.le_iff_toNat_le, hsub, Except.pure_eq_ok]
    constructor
    · rintro ⟨_, hpow, rfl⟩
      exact ⟨hdiv _, fun _ => ⟨hpow, hzero⟩⟩
    · rintro ⟨hc, hpow⟩
      exact ⟨(), (hpow hne).1, UInt64.toNat_inj.mp ((hdiv _).trans hc.symm)⟩
  · have hzero : f.toNat - t.toNat ≤ 18 := by omega
    rw [if_neg hne, if_neg hgt, Decimal.rescale_of_le hlt.le]
    simp only [Except.bind_eq_ok, assert_eq_ok, checkedU64_eq_ok, UInt8.le_iff_toNat_le, hsub]
    constructor
    · rintro ⟨_, hpow, _, -, hc⟩
      exact ⟨hc, fun _ => ⟨hzero, hpow⟩⟩
    · rintro ⟨hc, hpow⟩
      refine ⟨(), (hpow hne).2, (), (Nat.le_div_iff_mul_le (by positivity)).mpr ?_, hc⟩
      have := c.toNat_lt
      omega

end TrimmedAmount

/-- The functions for coins: what is left of a balance, and the supply after minting. -/
structure Framework where
  /-- `coin::take`, from a balance. -/
  take : UInt64 → UInt64 → Except Abort UInt64
  /-- `coin::mint`, on a supply. -/
  mint : UInt64 → UInt64 → Except Abort UInt64

/-- An implementation of the functions for coins. -/
def Framework.reference : Framework where
  take balance amount := if amount ≤ balance then .ok (balance - amount) else .error .external
  mint supply amount :=
    if amount.toNat < 2 ^ 64 - 1 - supply.toNat then .ok (supply + amount) else .error .external

/-! ### The inbox -/

/-- A message from a chain. -/
structure InboxKey where
  chainId : UInt16
  message : NttManagerMessage NativeTokenTransfer
deriving DecidableEq

inductive ReleaseStatus where
  | notApproved
  | releaseAfter (timestamp : UInt64)
  | released
deriving DecidableEq, Repr

structure InboxItem where
  votes : Bitmap
  releaseStatus : ReleaseStatus
  data : NativeTokenTransfer
deriving DecidableEq

namespace InboxItem

def countEnabledVotes (self : InboxItem) (enabled : Bitmap) : UInt8 :=
  (self.votes.and enabled).countOnes

/-- Releases an item whose time has come, and says whether it did. -/
def tryRelease (self : InboxItem) (now : UInt64) : Except Abort (InboxItem × Bool) :=
  match self.releaseStatus with
  | .notApproved => return (self, false)
  | .releaseAfter releaseTimestamp =>
      if releaseTimestamp ≤ now then return ({ self with releaseStatus := .released }, true)
      else return (self, false)
  | .released => .error (.error "Transfer already redeemed")

def releaseAfter (self : InboxItem) (releaseTimestamp : UInt64) : Except Abort InboxItem :=
  if self.releaseStatus ≠ .notApproved then .error (.error "Transfer cannot be redeemed yet")
  else return { self with releaseStatus := .releaseAfter releaseTimestamp }

end InboxItem

/-! ### The state -/

structure Peer where
  address : Bytes32
  tokenDecimals : UInt8
  inboundRateLimit : RateLimitState
deriving DecidableEq

def Peer.new (address : Bytes32) (tokenDecimals : UInt8) (inboundLimit : UInt64) : Peer :=
  ⟨address, tokenDecimals, .new inboundLimit⟩

inductive Mode where
  | locking
  | burning
deriving DecidableEq, Repr

structure State (τ : Type) where
  /-- The address of the object, by which other managers know this one. -/
  id : Bytes32
  mode : Mode
  /-- The balance of locked tokens. -/
  balance : UInt64
  threshold : UInt8
  /-- The supply under the treasury cap, if there is one. -/
  treasuryCap : Option UInt64
  peers : UInt16 → Option Peer
  /-- The rate limit of the outbox. -/
  outboundRateLimit : RateLimitState
  inbox : InboxKey → Option InboxItem
  transceivers : TransceiverRegistry τ
  chainId : UInt16
  paused : Bool
  version : UInt64

namespace State

variable {τ : Type}

/-- A state without peers, transceivers and messages. -/
def new (id : Bytes32) (chainId : UInt16) (mode : Mode) (treasuryCap : Option UInt64) :
    Except Abort (State τ) := do
  assert (treasuryCap.isNone ↔ mode = .locking) .assertion
  return {
    id, mode, treasuryCap, chainId
    balance := 0
    threshold := 0
    peers := fun _ => none
    outboundRateLimit := .new 0xFFFFFFFFFFFFFFFF
    inbox := fun _ => none
    transceivers := .new
    paused := false
    version := 0 }

def borrowPeer (self : State τ) (chain : UInt16) : Except Abort Peer :=
  match self.peers chain with
  | some peer => .ok peer
  | none => .error .external

def setPeerEntry (self : State τ) (chain : UInt16) (peer : Peer) : State τ :=
  { self with peers := Function.update self.peers chain (some peer) }

def borrowInboxItem (self : State τ) (key : InboxKey) : Except Abort InboxItem :=
  match self.inbox key with
  | some item => .ok item
  | none => .error .external

def setInboxItem (self : State τ) (key : InboxKey) (item : InboxItem) : State τ :=
  { self with inbox := Function.update self.inbox key (some item) }

def assertNotPaused (self : State τ) : Except Abort Unit :=
  assert (self.paused = false) (.error "Contract is paused")

/-- The version of the package. -/
def VERSION : UInt64 := 0

def checkVersion (self : State τ) : Except Abort Unit :=
  if self.version ≠ VERSION then
    .error (.error "Version mismatch: the upgrade is not compatible with the current version")
  else return

/-! ### The admin -/

/-- Checks the threshold against the number of enabled transceivers. -/
def checkThresholdInvariants (self : State τ) : Except Abort Unit := do
  let threshold := self.threshold
  let enabledCount := self.transceivers.enabledBitmap.countOnes
  assert (threshold ≤ enabledCount) (.error "Threshold too high")
  -- when all transceivers are disabled, the threshold can be zero
  if enabledCount > 0 then
    assert (threshold > 0) (.error "Threshold cannot be zero")

def setThreshold (self : State τ) (threshold : UInt8) : Except Abort (State τ) := do
  assert (threshold > 0) (.error "Threshold cannot be zero")
  let self := { self with threshold }
  checkThresholdInvariants self
  return self

def enableTransceiver (self : State τ) (id : UInt8) : Except Abort (State τ) := do
  let transceivers ← self.transceivers.enableTransceiver id
  let self := { self with transceivers }
  checkThresholdInvariants self
  return self

/-- Disables an id, and lowers the threshold to the number of enabled ones that are left. -/
def disableTransceiver (self : State τ) (id : UInt8) : Except Abort (State τ) := do
  let transceivers ← self.transceivers.disableTransceiver id
  let enabledCount := transceivers.enabledBitmap.countOnes
  let threshold := if enabledCount < self.threshold then enabledCount else self.threshold
  let self := { self with transceivers, threshold }
  checkThresholdInvariants self
  return self

def setPeer (self : State τ) (now : UInt64) (chain : UInt16) (address : Bytes32)
    (tokenDecimals : UInt8) (inboundLimit : UInt64) : Except Abort (State τ) :=
  match self.peers chain with
  | some existingPeer => do
      let inboundRateLimit ←
        existingPeer.inboundRateLimit.setLimit RATE_LIMIT_DURATION now inboundLimit
      return self.setPeerEntry chain { address, tokenDecimals, inboundRateLimit }
  | none => return self.setPeerEntry chain (.new address tokenDecimals inboundLimit)

variable [DecidableEq τ]

/-- Registers a transceiver; a threshold of zero becomes one. -/
def registerTransceiver (self : State τ) (transceiver : τ) (stateObjectId : Bytes32) :
    Except Abort (State τ) := do
  let transceivers ← self.transceivers.registerTransceiver transceiver stateObjectId
  let threshold := if self.threshold = 0 then 1 else self.threshold
  let self := { self with transceivers, threshold }
  checkThresholdInvariants self
  return self

/-! ### Inbound transfers -/

/-- A vote of a transceiver, for a message that is entered with its first vote. A disabled
transceiver may vote too. -/
def vote (self : State τ) (transceiver : τ) (chainId : UInt16)
    (message : NttManagerMessage NativeTokenTransfer) : Except Abort (State τ) := do
  let transceiverIndex ← self.transceivers.transceiverId transceiver
  let key : InboxKey := ⟨chainId, message⟩
  let item := (self.inbox key).getD ⟨.empty, .notApproved, message.payload⟩
  let votes ← item.votes.enable transceiverIndex
  return self.setInboxItem key { item with votes }

end State

/-- A message that a transceiver has validated. -/
structure ValidatedTransceiverMessage where
  fromChain : UInt16
  message : TransceiverMessageData Bytes
deriving DecidableEq

/-- Only the manager that a message is for can take it apart. -/
def ValidatedTransceiverMessage.destructRecipientOnly (self : ValidatedTransceiverMessage)
    (manager : Bytes32) : Except Abort (UInt16 × Bytes32 × NttManagerMessage Bytes) := do
  assert (manager = self.message.recipientNttManagerAddress)
    (.error "Invalid recipient manager.")
  return (self.fromChain, self.message.sourceNttManagerAddress, self.message.nttManagerPayload)

namespace State

variable {τ : Type} (F : Framework) (W : Wormhole)

/-- The rate limits at an approval: the amount is consumed on the inbound one of its chain and
refilled on the outbound one, or it is delayed. -/
def consumeInbound (self : State τ) (now : UInt64) (chainId : UInt16) (amount : UInt64) :
    Except Abort (State τ × UInt64) := do
  let peer ← self.borrowPeer chainId
  let (inboundRateLimit, consumedOrDelayed) ←
    peer.inboundRateLimit.consumeOrDelay RATE_LIMIT_DURATION now amount
  let self := self.setPeerEntry chainId { peer with inboundRateLimit }
  match consumedOrDelayed with
  | .delayed releaseTimestamp => return (self, releaseTimestamp)
  | .consumed =>
      let outboundRateLimit ← self.outboundRateLimit.refill RATE_LIMIT_DURATION now amount
      return ({ self with outboundRateLimit }, now)

/-- Votes for a message from the peer of its chain, and approves it when that reaches the
threshold. -/
def redeem [DecidableEq τ] (self : State τ) (now : UInt64) (transceiver : τ)
    (validatedMessage : ValidatedTransceiverMessage) (decimals : UInt8) :
    Except Abort (State τ) := do
  self.checkVersion
  self.assertNotPaused
  let (chainId, sourceNttManager, nttManagerMessage) ←
    validatedMessage.destructRecipientOnly self.id
  let nttManagerMessage ← nttManagerMessage.map (NativeTokenTransfer.parse W)
  let peer ← self.borrowPeer chainId
  assert (sourceNttManager = peer.address) .assertion
  -- this checks that the transceiver is registered
  let self ← self.vote transceiver chainId nttManagerMessage
  assert (nttManagerMessage.payload.toChain = self.chainId) (.error "Wrong destination chain")
  let amount ← nttManagerMessage.payload.amount.untrim decimals
  let inboxItem ← self.borrowInboxItem ⟨chainId, nttManagerMessage⟩
  let numVotes := inboxItem.countEnabledVotes self.transceivers.enabledBitmap
  if numVotes < self.threshold then
    return self
  let (self, releaseTimestamp) ← self.consumeInbound now chainId amount
  let inboxItem ← self.borrowInboxItem ⟨chainId, nttManagerMessage⟩
  let inboxItem ← inboxItem.releaseAfter releaseTimestamp
  return self.setInboxItem ⟨chainId, nttManagerMessage⟩ inboxItem

/-- Pays out of the balance, or mints. -/
def mintOrUnlock (self : State τ) (amount : UInt64) : Except Abort (State τ) :=
  match self.mode with
  | .locking => do return { self with balance := ← F.take self.balance amount }
  | .burning =>
      match self.treasuryCap with
      | some supply => do return { self with treasuryCap := some (← F.mint supply amount) }
      | none => .error .external

/-- Releases a message whose time has come: the recipient and what it is paid. -/
def release (self : State τ) (now : UInt64) (fromChainId : UInt16)
    (message : NttManagerMessage NativeTokenTransfer) (decimals : UInt8) :
    Except Abort (State τ × Bytes32 × UInt64) := do
  self.checkVersion
  self.assertNotPaused
  let inboxItem ← self.borrowInboxItem ⟨fromChainId, message⟩
  let (inboxItem, released) ← inboxItem.tryRelease now
  assert (released = true) (.error "Can't release yet")
  let self := self.setInboxItem ⟨fromChainId, message⟩ inboxItem
  let amount ← message.payload.amount.untrim decimals
  let self ← self.mintOrUnlock F amount
  return (self, message.payload.recipient, amount)

end State

/-! ### Calls -/

/-- A call to the manager. -/
inductive Op (τ : Type) where
  | redeem (transceiver : τ) (validatedMessage : ValidatedTransceiverMessage) (decimals : UInt8)
  | release (fromChainId : UInt16) (message : NttManagerMessage NativeTokenTransfer)
      (decimals : UInt8)
  | registerTransceiver (transceiver : τ) (stateObjectId : Bytes32)
  | enableTransceiver (id : UInt8)
  | disableTransceiver (id : UInt8)
  | setThreshold (threshold : UInt8)
  | setPeer (chain : UInt16) (address : Bytes32) (tokenDecimals : UInt8) (inboundLimit : UInt64)
  | pause
  | unpause

namespace State

variable {τ : Type} [DecidableEq τ] (F : Framework) (W : Wormhole)

/-- A call at a time: the new state, and what a release pays. -/
def apply (self : State τ) (now : UInt64) :
    Op τ → Except Abort (State τ × Option (Bytes32 × UInt64))
  | .redeem transceiver validatedMessage decimals => do
      return (← self.redeem W now transceiver validatedMessage decimals, none)
  | .release fromChainId message decimals => do
      let (self, paid) ← self.release F now fromChainId message decimals
      return (self, some paid)
  | .registerTransceiver transceiver stateObjectId => do
      return (← self.registerTransceiver transceiver stateObjectId, none)
  | .enableTransceiver id => do return (← self.enableTransceiver id, none)
  | .disableTransceiver id => do return (← self.disableTransceiver id, none)
  | .setThreshold threshold => do return (← self.setThreshold threshold, none)
  | .setPeer chain address tokenDecimals inboundLimit => do
      return (← self.setPeer now chain address tokenDecimals inboundLimit, none)
  | .pause => return ({ self with paused := true }, none)
  | .unpause => return ({ self with paused := false }, none)

end State

/-- The manager as a machine of timed calls. -/
def Manager.machine {τ : Type} [DecidableEq τ] (F : Framework) (W : Wormhole) :
    Transducer (State τ) (UInt64 × Op τ) (Except Abort (Option (Bytes32 × UInt64))) :=
  .ofExcept fun s o => s.apply F W o.1 o.2

/-! ### What a call does -/

namespace State

variable {τ : Type}

/-- Nothing changes of registry and threshold. -/
def SameQuorum (s s' : State τ) : Prop :=
  s'.transceivers = s.transceivers ∧ s'.threshold = s.threshold

variable {s s' : State τ} {now : UInt64}

theorem setThreshold_spec {n : UInt8} (h : s.setThreshold n = .ok s') :
    s'.transceivers = s.transceivers ∧ s'.checkThresholdInvariants = .ok () ∧
      s'.inbox = s.inbox := by
  simp only [setThreshold, Except.bind_eq_ok, Except.pure_eq_ok] at h
  obtain ⟨_, -, _, hc, rfl⟩ := h
  exact ⟨rfl, hc, rfl⟩

theorem enableTransceiver_spec {id : UInt8} (h : s.enableTransceiver id = .ok s') :
    s.transceivers.enableTransceiver id = .ok s'.transceivers ∧
      s'.checkThresholdInvariants = .ok () ∧ s'.inbox = s.inbox := by
  simp only [enableTransceiver, Except.bind_eq_ok, Except.pure_eq_ok] at h
  obtain ⟨r, hr, _, hc, rfl⟩ := h
  exact ⟨hr, hc, rfl⟩

theorem disableTransceiver_spec {id : UInt8} (h : s.disableTransceiver id = .ok s') :
    s.transceivers.disableTransceiver id = .ok s'.transceivers ∧
      s'.checkThresholdInvariants = .ok () ∧ s'.inbox = s.inbox := by
  simp only [disableTransceiver, Except.bind_eq_ok, Except.pure_eq_ok] at h
  obtain ⟨r, hr, _, hc, rfl⟩ := h
  exact ⟨hr, hc, rfl⟩

theorem registerTransceiver_spec [DecidableEq τ] {t : τ} {stateObjectId : Bytes32}
    (h : s.registerTransceiver t stateObjectId = .ok s') :
    s.transceivers.registerTransceiver t stateObjectId = .ok s'.transceivers ∧
      s'.checkThresholdInvariants = .ok () ∧ s'.inbox = s.inbox := by
  simp only [registerTransceiver, Except.bind_eq_ok, Except.pure_eq_ok] at h
  obtain ⟨r, hr, _, hc, rfl⟩ := h
  exact ⟨hr, hc, rfl⟩

theorem setPeer_spec {chain : UInt16} {address : Bytes32} {tokenDecimals : UInt8}
    {inboundLimit : UInt64} (h : s.setPeer now chain address tokenDecimals inboundLimit = .ok s') :
    SameQuorum s s' ∧ s'.inbox = s.inbox := by
  rw [setPeer] at h
  split at h
  · simp only [Except.bind_eq_ok, Except.pure_eq_ok] at h
    obtain ⟨_, -, rfl⟩ := h
    exact ⟨⟨rfl, rfl⟩, rfl⟩
  · obtain rfl := Except.ok.inj h
    exact ⟨⟨rfl, rfl⟩, rfl⟩

/-- The item of a message, or the one that its first vote enters. -/
def itemFor (s : State τ) (key : InboxKey) : InboxItem :=
  (s.inbox key).getD ⟨.empty, .notApproved, key.message.payload⟩

/-- A vote sets the bit of a registered transceiver, and nothing else. -/
theorem vote_spec [DecidableEq τ] {t : τ} {chainId : UInt16}
    {message : NttManagerMessage NativeTokenTransfer} (h : s.vote t chainId message = .ok s') :
    ∃ info votes, (t, info) ∈ s.transceivers.transceivers ∧
      (s.itemFor ⟨chainId, message⟩).votes.enable info.id = .ok votes ∧
      s' = s.setInboxItem ⟨chainId, message⟩ { s.itemFor ⟨chainId, message⟩ with votes } := by
  simp only [vote, TransceiverRegistry.transceiverId, Except.bind_eq_ok, Except.pure_eq_ok] at h
  obtain ⟨_, ⟨info, hinfo, rfl⟩, votes, hvotes, rfl⟩ := h
  exact ⟨info, votes, TransceiverRegistry.mem_of_borrow hinfo, hvotes, rfl⟩

/-- An approval changes the rate limits and nothing else. -/
theorem consumeInbound_spec {chainId : UInt16} {amount releaseTimestamp : UInt64}
    (h : s.consumeInbound now chainId amount = .ok (s', releaseTimestamp)) :
    s' = { s with peers := s'.peers, outboundRateLimit := s'.outboundRateLimit } := by
  simp only [consumeInbound, Except.bind_eq_ok, Prod.exists] at h
  obtain ⟨peer, -, _, result, -, h⟩ := h
  cases result with
  | delayed timestamp =>
      obtain ⟨rfl, -⟩ := Prod.mk.inj (Except.ok.inj h)
      rfl
  | consumed =>
      simp only [Except.bind_eq_ok, Except.pure_eq_ok, Prod.mk.injEq] at h
      obtain ⟨_, -, rfl, -⟩ := h
      rfl

theorem consumeInbound_sameQuorum {chainId : UInt16} {amount releaseTimestamp : UInt64}
    (h : s.consumeInbound now chainId amount = .ok (s', releaseTimestamp)) :
    SameQuorum s s' ∧ s'.inbox = s.inbox := by
  rw [consumeInbound_spec h]
  exact ⟨⟨rfl, rfl⟩, rfl⟩

theorem borrowInboxItem_eq_ok {key : InboxKey} {item : InboxItem} :
    s.borrowInboxItem key = .ok item ↔ s.inbox key = some item := by
  rw [borrowInboxItem]
  cases s.inbox key <;> simp

theorem borrowPeer_eq_ok {chain : UInt16} {peer : Peer} :
    s.borrowPeer chain = .ok peer ↔ s.peers chain = some peer := by
  rw [borrowPeer]
  cases s.peers chain <;> simp

/-- What a redemption checks: the message is for this manager, in whose form it is, and from the
peer of its chain. -/
structure Redeems (W : Wormhole) (s : State τ) (validatedMessage : ValidatedTransceiverMessage)
    (key : InboxKey) : Prop where
  recipient : validatedMessage.message.recipientNttManagerAddress = s.id
  message : validatedMessage.message.nttManagerPayload.map (NativeTokenTransfer.parse W) =
    .ok key.message
  chain : validatedMessage.fromChain = key.chainId
  peer : ∃ peer, s.peers key.chainId = some peer ∧
    validatedMessage.message.sourceNttManagerAddress = peer.address

/-- A redemption that succeeds votes for its message, and leaves it at that or approves it. -/
theorem redeem_spec [DecidableEq τ] {W : Wormhole} {t : τ}
    {validatedMessage : ValidatedTransceiverMessage} {decimals : UInt8}
    (h : s.redeem W now t validatedMessage decimals = .ok s') :
    ∃ key s₁, Redeems W s validatedMessage key ∧ s.vote t key.chainId key.message = .ok s₁ ∧
      (s' = s₁ ∨ ∃ s₂ item releaseTimestamp amount, s₁.inbox key = some item ∧
        s₁.threshold ≤ item.countEnabledVotes s₁.transceivers.enabledBitmap ∧
        item.releaseStatus = .notApproved ∧
        key.message.payload.amount.untrim decimals = .ok amount ∧
        s₁.consumeInbound now key.chainId amount = .ok (s₂, releaseTimestamp) ∧
        s' = s₂.setInboxItem key
          { item with releaseStatus := .releaseAfter releaseTimestamp }) := by
  simp only [redeem, ValidatedTransceiverMessage.destructRecipientOnly, Except.bind_eq_ok,
    Except.pure_eq_ok, assert_eq_ok, borrowPeer_eq_ok, borrowInboxItem_eq_ok, Prod.exists] at h
  obtain ⟨_, -, _, -, chainId, source, payload, ⟨_, hrecipient, heq⟩, message, hmessage, peer,
    hpeer, _, hsource, s₁, hvote, _, -, amount, hamount, item, hitem, h⟩ := h
  obtain ⟨rfl, rfl, rfl⟩ := by simpa only [Prod.mk.injEq] using heq
  refine ⟨⟨validatedMessage.fromChain, message⟩, s₁,
    ⟨hrecipient.symm, hmessage, rfl, peer, hpeer, hsource⟩, hvote, ?_⟩
  split at h
  · exact .inl (Except.ok.inj h).symm
  · rename_i hvotes
    simp only [Except.bind_eq_ok, Except.pure_eq_ok, borrowInboxItem_eq_ok, Prod.exists] at h
    obtain ⟨s₂, releaseTimestamp, hconsume, item', hitem', item'', hrelease, rfl⟩ := h
    obtain ⟨-, hinbox⟩ := consumeInbound_sameQuorum hconsume
    obtain rfl : item = item' := by
      rw [hinbox, hitem] at hitem'
      exact Option.some.inj hitem'
    rw [InboxItem.releaseAfter] at hrelease
    split at hrelease
    · cases hrelease
    · rename_i hstatus
      obtain rfl := Except.ok.inj hrelease
      exact .inr ⟨s₂, item, releaseTimestamp, amount, hitem, UInt8.not_lt.mp hvotes,
        not_not.mp hstatus, hamount, hconsume, rfl⟩

theorem SameQuorum.trans {s s₁ s₂ : State τ} (h₁ : SameQuorum s s₁) (h₂ : SameQuorum s₁ s₂) :
    SameQuorum s s₂ :=
  ⟨h₂.1.trans h₁.1, h₂.2.trans h₁.2⟩

theorem vote_sameQuorum [DecidableEq τ] {t : τ} {chainId : UInt16}
    {message : NttManagerMessage NativeTokenTransfer} (h : s.vote t chainId message = .ok s') :
    SameQuorum s s' := by
  obtain ⟨_, _, -, -, rfl⟩ := vote_spec h
  exact ⟨rfl, rfl⟩

theorem redeem_sameQuorum [DecidableEq τ] {W : Wormhole} {t : τ}
    {validatedMessage : ValidatedTransceiverMessage} {decimals : UInt8}
    (h : s.redeem W now t validatedMessage decimals = .ok s') : SameQuorum s s' := by
  obtain ⟨key, s₁, -, hvote, rfl | ⟨s₂, _, _, _, -, -, -, -, hconsume, rfl⟩⟩ := redeem_spec h
  · exact vote_sameQuorum hvote
  · exact (vote_sameQuorum hvote).trans (consumeInbound_sameQuorum hconsume).1

/-- Funds are paid out: a part of the balance, or minted on the supply. -/
def PaysOut (F : Framework) (s s' : State τ) (amount : UInt64) : Prop :=
  (s.mode = .locking ∧ F.take s.balance amount = .ok s'.balance ∧
      s'.treasuryCap = s.treasuryCap) ∨
    (s.mode = .burning ∧ s'.balance = s.balance ∧ ∃ supply supply',
      s.treasuryCap = some supply ∧ F.mint supply amount = .ok supply' ∧
        s'.treasuryCap = some supply')

/-- A payment changes the funds and nothing else. -/
theorem mintOrUnlock_spec {F : Framework} {amount : UInt64}
    (h : s.mintOrUnlock F amount = .ok s') : PaysOut F s s' amount ∧
      s' = { s with balance := s'.balance, treasuryCap := s'.treasuryCap } := by
  rw [mintOrUnlock] at h
  split at h
  · rename_i hmode
    simp only [Except.bind_eq_ok, Except.pure_eq_ok] at h
    obtain ⟨balance, htake, rfl⟩ := h
    exact ⟨.inl ⟨hmode, htake, rfl⟩, rfl⟩
  · rename_i hmode
    split at h
    · rename_i supply hsupply
      simp only [Except.bind_eq_ok, Except.pure_eq_ok] at h
      obtain ⟨supply', hmint, rfl⟩ := h
      exact ⟨.inr ⟨hmode, rfl, supply, supply', hsupply, hmint, rfl⟩, rfl⟩
    · cases h

/-- A release pays for an item whose time has come, and marks it. -/
theorem release_cases {F : Framework} {fromChainId : UInt16}
    {message : NttManagerMessage NativeTokenTransfer} {decimals : UInt8} {recipient : Bytes32}
    {amount : UInt64}
    (h : s.release F now fromChainId message decimals = .ok (s', recipient, amount)) :
    ∃ item releaseTimestamp, s.inbox ⟨fromChainId, message⟩ = some item ∧
      item.releaseStatus = .releaseAfter releaseTimestamp ∧ releaseTimestamp ≤ now ∧
      message.payload.amount.untrim decimals = .ok amount ∧
      recipient = message.payload.recipient ∧ PaysOut F s s' amount ∧
      s' = { s.setInboxItem ⟨fromChainId, message⟩ { item with releaseStatus := .released } with
        balance := s'.balance, treasuryCap := s'.treasuryCap } := by
  simp only [release, Except.bind_eq_ok, Except.pure_eq_ok, assert_eq_ok, borrowInboxItem_eq_ok,
    Prod.exists, Prod.mk.injEq] at h
  obtain ⟨_, -, _, -, item, hitem, item', released, hrelease, _, rfl, _, hamount, _, hpay, rfl, rfl,
    rfl⟩ := h
  obtain ⟨hpays, hframe⟩ := mintOrUnlock_spec hpay
  rw [InboxItem.tryRelease] at hrelease
  split at hrelease
  · cases hrelease
  · rename_i releaseTimestamp hstatus
    split at hrelease
    · rename_i hle
      obtain ⟨rfl, -⟩ := Prod.mk.inj (Except.ok.inj hrelease)
      exact ⟨item, releaseTimestamp, hitem, hstatus, hle, hamount, rfl, hpays, hframe⟩
    · cases hrelease
  · cases hrelease

/-- What a release does to the inbox. -/
theorem release_spec {F : Framework} {fromChainId : UInt16}
    {message : NttManagerMessage NativeTokenTransfer} {decimals : UInt8} {paid : Bytes32 × UInt64}
    (h : s.release F now fromChainId message decimals = .ok (s', paid)) :
    SameQuorum s s' ∧ ∃ item, s.inbox ⟨fromChainId, message⟩ = some item ∧
      item.releaseStatus ≠ .notApproved ∧ s'.inbox =
        Function.update s.inbox ⟨fromChainId, message⟩
          (some { item with releaseStatus := .released }) := by
  obtain ⟨item, releaseTimestamp, hitem, hstatus, -, -, -, -, hframe⟩ := release_cases h
  rw [hframe]
  refine ⟨⟨rfl, rfl⟩, item, hitem, ?_, rfl⟩
  rw [hstatus]
  exact ReleaseStatus.noConfusion

theorem apply_release_eq_ok [DecidableEq τ] {F : Framework} {W : Wormhole} {fromChainId : UInt16}
    {message : NttManagerMessage NativeTokenTransfer} {decimals : UInt8}
    {paid : Option (Bytes32 × UInt64)} :
    s.apply F W now (.release fromChainId message decimals) = .ok (s', paid) ↔
      ∃ p, s.release F now fromChainId message decimals = .ok (s', p) ∧ some p = paid := by
  simp only [State.apply, Except.bind_eq_ok, Except.pure_eq_ok, Prod.mk.injEq]
  constructor
  · rintro ⟨⟨_, p⟩, hrelease, rfl, hpaid⟩
    exact ⟨p, hrelease, hpaid⟩
  · rintro ⟨p, hrelease, hpaid⟩
    exact ⟨(s', p), hrelease, rfl, hpaid⟩

end State

end Ntt.Sui
