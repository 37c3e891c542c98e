import Ntt.Sui.Quorum

/-!
# The Outbox of the Sui Manager

A transfer takes two calls. `prepareTransfer` splits the dust off a coin and leaves a ticket, and a
transfer uses the ticket: the coin is locked or burned, and an item is entered in the outbox under
the next message id. A transceiver takes the message of an item out once, when its time has come.
A ticket cannot be dropped or stored, so it is used in the transaction that prepared it.

Coins are of the framework, and so are the functions for them that are added here
(`Coins`). The treasury cap may leave the manager by a call of the admin; what comes back is the
cap with any supply.

`System.machine` takes these calls and those of `Manager.machine`, in any order.
-/

namespace Ntt.Sui

/-! ### Coins -/

/-- The functions for coins that transfers need. -/
structure Coins extends Framework where
  /-- `coin::put`, into a balance. -/
  put : UInt64 → UInt64 → Except Abort UInt64
  /-- `coin::burn`, from a supply. -/
  burn : UInt64 → UInt64 → Except Abort UInt64
  /-- `balance::split`: what is left of a balance, and what is split off. -/
  split : UInt64 → UInt64 → Except Abort (UInt64 × UInt64)

/-- What the manager relies on. -/
structure Coins.Lawful (C : Coins) : Prop where
  take : ∀ {balance amount balance'}, C.take balance amount = .ok balance' →
    balance.toNat = balance'.toNat + amount.toNat
  mint : ∀ {supply amount supply'}, C.mint supply amount = .ok supply' →
    supply'.toNat = supply.toNat + amount.toNat
  put : ∀ {balance amount balance'}, C.put balance amount = .ok balance' →
    balance'.toNat = balance.toNat + amount.toNat
  burn : ∀ {supply amount supply'}, C.burn supply amount = .ok supply' →
    supply.toNat = supply'.toNat + amount.toNat
  split : ∀ {balance amount left piece}, C.split balance amount = .ok (left, piece) →
    piece = amount ∧ balance.toNat = left.toNat + piece.toNat

/-- An implementation of the functions for coins. -/
def Coins.reference : Coins where
  toFramework := .reference
  put balance amount :=
    if balance.toNat + amount.toNat < 2 ^ 64 then .ok (balance + amount) else .error .external
  burn supply amount := if amount ≤ supply then .ok (supply - amount) else .error .external
  split balance amount :=
    if amount ≤ balance then .ok (balance - amount, amount) else .error .external

/-! ### Dust -/

namespace TrimmedAmount

/-- An amount in the decimals of the recipient, of which there are at most eight. -/
def trim (amount : UInt64) (fromDecimals toDecimals : UInt8) : Except Abort TrimmedAmount := do
  let toDecimals := min 8 (min fromDecimals toDecimals)
  let amount ← scale amount fromDecimals toDecimals
  return ⟨amount, toDecimals⟩

/-- The trimmed amount of a coin, what is left of the coin, and the dust. -/
def removeDust (C : Coins) (coin : UInt64) (fromDecimals toDecimals : UInt8) :
    Except Abort (TrimmedAmount × UInt64 × UInt64) := do
  let trimmed ← trim coin fromDecimals toDecimals
  let withoutDust ← trimmed.untrim fromDecimals
  let dust ← sub coin.toNat withoutDust.toNat
  let (coin, dust) ← C.split coin (UInt64.ofNat dust)
  return (trimmed, coin, dust)

end TrimmedAmount

/-! ### The outbox -/

structure OutboxItem where
  releaseTimestamp : UInt64
  released : Bitmap
  recipientNttManager : Bytes32
  data : NttManagerMessage NativeTokenTransfer
deriving DecidableEq

def OutboxItem.new (releaseTimestamp : UInt64) (recipientNttManager : Bytes32)
    (data : NttManagerMessage NativeTokenTransfer) : OutboxItem :=
  ⟨releaseTimestamp, .empty, recipientNttManager, data⟩

/-- Whether a bit is set. -/
def Bitmap.get (self : Bitmap) (index : UInt8) : Except Abort Bool := do
  let bitmask ← bitmask index
  return decide (self.bitmap &&& bitmask > 0)

/-- Releases an item by a transceiver if its time has come, and says whether it did. -/
def OutboxItem.tryRelease (self : OutboxItem) (now : UInt64) (transceiverIndex : UInt8) :
    Except Abort (OutboxItem × Bool) :=
  if self.releaseTimestamp > now then return (self, false)
  else do
    let already ← self.released.get transceiverIndex
    assert (already = false) (.error "Message has already been sent by this transceiver")
    let released ← self.released.enable transceiverIndex
    return ({ self with released }, true)

/-- What `prepareTransfer` leaves for a transfer. -/
structure TransferTicket where
  coins : UInt64
  tokenAddress : Bytes32
  trimmedAmount : TrimmedAmount
  recipientChain : UInt16
  recipient : Bytes32
  payload : Option Bytes
  recipientManager : Bytes32
  shouldQueue : Bool
deriving DecidableEq

/-- A message that only the transceiver it is for can unwrap. -/
structure OutboundMessage where
  message : NttManagerMessage Bytes
  sourceNttManager : Bytes32
  recipientNttManager : Bytes32
deriving DecidableEq

/-- The metadata of the coin; there is one for a type of coins. -/
structure CoinMetadata where
  id : Bytes32
  decimals : UInt8
deriving DecidableEq, Repr

/-- The state with its outbox, by message ids, and the tickets that were prepared. -/
structure System (τ : Type) extends State τ where
  outbox : Bytes32 → Option OutboxItem
  nextSequence : UInt64
  tickets : List TransferTicket

namespace State

variable {τ : Type} (C : Coins) (self : State τ) (now : UInt64)

/-- Splits the dust off a coin, for a transfer to a peer. -/
def prepareTransfer (coins : UInt64) (coinMeta : CoinMetadata) (recipientChain : UInt16)
    (recipient : Bytes32) (payload : Option Bytes) (shouldQueue : Bool) :
    Except Abort (TransferTicket × UInt64) := do
  let peer ← self.borrowPeer recipientChain
  let (trimmedAmount, coins, dust) ←
    TrimmedAmount.removeDust C coins coinMeta.decimals peer.tokenDecimals
  return ({
    coins, trimmedAmount, recipientChain, recipient, payload, shouldQueue
    tokenAddress := coinMeta.id
    recipientManager := peer.address }, dust)

/-- Puts a coin into the balance, or burns it. -/
def putOrBurn (coins : UInt64) : Except Abort (State τ) :=
  match self.mode with
  | .locking => do return { self with balance := ← C.put self.balance coins }
  | .burning =>
      match self.treasuryCap with
      | some supply => do return { self with treasuryCap := some (← C.burn supply coins) }
      | none => .error .external

/-- The rate limits at a transfer, and when it is released: the amount is consumed on the outbound
one, or it is delayed when it may be. -/
def consumeOutbound (amount : UInt64) (ticket : TransferTicket) :
    Except Abort (State τ × UInt64) := do
  let (outboundRateLimit, consumedOrDelayed) ←
    self.outboundRateLimit.consumeOrDelay RATE_LIMIT_DURATION now amount
  let self := { self with outboundRateLimit }
  match consumedOrDelayed with
  | .delayed releaseTimestamp => do
      assert (ticket.shouldQueue = true) (.error "Transfer exceeds rate limit")
      return (self, releaseTimestamp)
  | .consumed => do
      let peer ← self.borrowPeer ticket.recipientChain
      -- the inbound limit of the peer is refilled by the number of the trimmed amount
      let inboundRateLimit ←
        peer.inboundRateLimit.refill RATE_LIMIT_DURATION now ticket.trimmedAmount.amount
      return (self.setPeerEntry ticket.recipientChain { peer with inboundRateLimit }, now)

end State

namespace System

variable {τ : Type} (C : Coins) (W : Wormhole) (self : System τ) (now : UInt64)

/-- A manager that was just created. -/
def new (id : Bytes32) (chainId : UInt16) (mode : Mode) (treasuryCap : Option UInt64) :
    Except Abort (System τ) := do
  let state ← State.new id chainId mode treasuryCap
  return { state with
    outbox := fun _ => none
    nextSequence := 1
    tickets := [] }

/-- The next message id is the sequence number. -/
def nextMessageId : Except Abort (System τ × Bytes32) := do
  let sequence := self.nextSequence
  let nextSequence ← checkedU64 (sequence.toNat + 1)
  return ({ self with nextSequence }, BitVec.ofNat 256 sequence.toNat)

/-- Enters an item under the id of its message, under which there is none. -/
def addItem (item : OutboxItem) : Except Abort (System τ × Bytes32) := do
  assert (self.outbox item.data.id = none) .external
  return ({ self with outbox := Function.update self.outbox item.data.id (some item) },
    item.data.id)

def setOutboxItem (key : Bytes32) (item : OutboxItem) : System τ :=
  { self with outbox := Function.update self.outbox key (some item) }

/-- Transfers what a ticket holds, and gives the id of the message. -/
def transfer (coinMeta : CoinMetadata) (ticket : TransferTicket) (sender : Bytes32) :
    Except Abort (System τ × Bytes32) := do
  self.checkVersion
  self.assertNotPaused
  let state ← self.putOrBurn C ticket.coins
  let amount ← ticket.trimmedAmount.untrim coinMeta.decimals
  let (state, releaseTimestamp) ← state.consumeOutbound now amount ticket
  let (self, messageId) ← { self with toState := state }.nextMessageId
  self.addItem (.new releaseTimestamp ticket.recipientManager ⟨messageId, sender,
    { amount := ticket.trimmedAmount
      sourceToken := ticket.tokenAddress
      recipient := ticket.recipient
      toChain := ticket.recipientChain
      payload := ticket.payload }⟩)

def borrowOutboxItem (key : Bytes32) : Except Abort OutboxItem :=
  match self.outbox key with
  | some item => .ok item
  | none => .error .external

/-- Takes the message of an item out for a registered transceiver. -/
def createTransceiverMessage [DecidableEq τ] (transceiver : τ) (messageId : Bytes32) :
    Except Abort (System τ × OutboundMessage) := do
  self.assertNotPaused
  let transceiverIndex ← self.transceivers.transceiverId transceiver
  let item ← self.borrowOutboxItem messageId
  let (item, released) ← item.tryRelease now transceiverIndex
  assert (released = true) .assertion
  let message ← item.data.map (NativeTokenTransfer.toBytes W)
  return (self.setOutboxItem messageId item, ⟨message, self.id, item.recipientNttManager⟩)

def setOutboundRateLimit (limit : UInt64) : Except Abort (System τ) := do
  let outboundRateLimit ← self.outboundRateLimit.setLimit RATE_LIMIT_DURATION now limit
  return { self with outboundRateLimit }

/-- The admin takes the treasury cap. -/
def takeTreasuryCap : Except Abort (System τ) :=
  match self.treasuryCap with
  | some _ => return { self with treasuryCap := none }
  | none => .error .external

/-- A treasury cap is given to a manager that has none. -/
def returnTreasuryCap (supply : UInt64) : Except Abort (System τ) :=
  match self.treasuryCap with
  | some _ => .error .external
  | none => return { self with treasuryCap := some supply }

/-- An upgrade sets the version to that of the package, which must not be below. -/
def commitUpgrade : Except Abort (System τ) := do
  assert (State.VERSION ≥ self.version) .assertion
  return { self with version := State.VERSION }

end System

/-! ### Calls -/

/-- A call to the manager with its outbox. -/
inductive Call (τ : Type) where
  | manager (op : Op τ)
  | prepareTransfer (coins : UInt64) (recipientChain : UInt16) (recipient : Bytes32)
      (payload : Option Bytes) (shouldQueue : Bool)
  | transfer (ticket : TransferTicket) (sender : Bytes32)
  | createTransceiverMessage (transceiver : τ) (messageId : Bytes32)
  | setOutboundRateLimit (limit : UInt64)
  | takeTreasuryCap
  | returnTreasuryCap (supply : UInt64)
  | commitUpgrade

/-- What a call answers: a release what it pays, a preparation its ticket and the dust, a transfer
its message id, and the rest nothing or a message for a transceiver. -/
inductive Answer (τ : Type) where
  | nothing
  | paid (key : InboxKey) (recipient : Bytes32) (amount : UInt64)
  | prepared (ticket : TransferTicket) (dust : UInt64)
  | transferred (messageId : Bytes32)
  | sent (transceiver : τ) (messageId : Bytes32) (message : OutboundMessage)
deriving DecidableEq

/-- A call with the metadata of the coin. -/
def Op.withMetadata {τ : Type} (coinMeta : CoinMetadata) : Op τ → Op τ
  | .redeem transceiver validatedMessage _ =>
      .redeem transceiver validatedMessage coinMeta.decimals
  | .release fromChainId message _ => .release fromChainId message coinMeta.decimals
  | op => op

/-- What a call to the manager answers here. -/
def Op.answer {τ : Type} : Op τ → Option (Bytes32 × UInt64) → Answer τ
  | .release fromChainId message _, some (recipient, amount) =>
      .paid ⟨fromChainId, message⟩ recipient amount
  | _, _ => .nothing

namespace System

variable {τ : Type} [DecidableEq τ] (C : Coins) (W : Wormhole) (coinMeta : CoinMetadata)

/-- A call at a time. A ticket that is used is gone. -/
def apply (self : System τ) (now : UInt64) : Call τ → Except Abort (System τ × Answer τ)
  | .manager op => do
      let (state, paid) ← self.toState.apply C.toFramework W now (op.withMetadata coinMeta)
      return ({ self with toState := state }, op.answer paid)
  | .prepareTransfer coins recipientChain recipient payload shouldQueue => do
      let (ticket, dust) ←
        self.prepareTransfer C coins coinMeta recipientChain recipient payload shouldQueue
      return ({ self with tickets := ticket :: self.tickets }, .prepared ticket dust)
  | .transfer ticket sender => do
      assert (ticket ∈ self.tickets) .external
      let self := { self with tickets := self.tickets.erase ticket }
      let (self, messageId) ← self.transfer C now coinMeta ticket sender
      return (self, .transferred messageId)
  | .createTransceiverMessage transceiver messageId => do
      let (self, message) ← self.createTransceiverMessage W now transceiver messageId
      return (self, .sent transceiver messageId message)
  | .setOutboundRateLimit limit => do return (← self.setOutboundRateLimit now limit, .nothing)
  | .takeTreasuryCap => do return (← self.takeTreasuryCap, .nothing)
  | .returnTreasuryCap supply => do return (← self.returnTreasuryCap supply, .nothing)
  | .commitUpgrade => do return (← self.commitUpgrade, .nothing)

end System

/-- The manager with its outbox as a machine of timed calls. -/
def System.machine {τ : Type} [DecidableEq τ] (C : Coins) (W : Wormhole)
    (coinMeta : CoinMetadata) :
    Transducer (System τ) (UInt64 × Call τ) (Except Abort (Answer τ)) :=
  .ofExcept fun s o => s.apply C W coinMeta o.1 o.2

/-! ### What a call does -/

theorem Coins.reference_lawful : reference.Lawful where
  take := by
    intro balance amount balance' h
    simp only [reference, Framework.reference] at h
    split at h
    · rename_i hle
      obtain rfl := Except.ok.inj h
      rw [UInt64.toNat_sub_of_le _ _ hle]
      have := UInt64.le_iff_toNat_le.mp hle
      omega
    · cases h
  mint := by
    intro supply amount supply' h
    simp only [reference, Framework.reference] at h
    split at h
    · rename_i hlt
      obtain rfl := Except.ok.inj h
      rw [UInt64.toNat_add, Nat.mod_eq_of_lt (by omega)]
    · cases h
  put := by
    intro balance amount balance' h
    simp only [reference] at h
    split at h
    · rename_i hlt
      obtain rfl := Except.ok.inj h
      rw [UInt64.toNat_add, Nat.mod_eq_of_lt hlt]
    · cases h
  burn := by
    intro supply amount supply' h
    simp only [reference] at h
    split at h
    · rename_i hle
      obtain rfl := Except.ok.inj h
      rw [UInt64.toNat_sub_of_le _ _ hle]
      have := UInt64.le_iff_toNat_le.mp hle
      omega
    · cases h
  split := by
    intro balance amount left piece h
    simp only [reference] at h
    split at h
    · rename_i hle
      obtain ⟨rfl, rfl⟩ := Prod.mk.inj (Except.ok.inj h)
      rw [UInt64.toNat_sub_of_le _ _ hle]
      have := UInt64.le_iff_toNat_le.mp hle
      exact ⟨rfl, by omega⟩
    · cases h

/-- What is left of the coin is the value of the trimmed amount, and the dust is the rest. -/
theorem TrimmedAmount.removeDust_spec {C : Coins} (hC : C.Lawful) {coin left dust : UInt64}
    {fromDecimals toDecimals : UInt8} {trimmed : TrimmedAmount}
    (h : removeDust C coin fromDecimals toDecimals = .ok (trimmed, left, dust)) :
    trimmed.untrim fromDecimals = .ok left ∧ coin.toNat = left.toNat + dust.toNat := by
  simp only [removeDust, Except.bind_eq_ok, sub_eq_ok, Except.pure_eq_ok, Prod.exists,
    Prod.mk.injEq] at h
  obtain ⟨_, -, withoutDust, huntrim, _, ⟨hle, rfl⟩, left, dust, hsplit, rfl, rfl, rfl⟩ := h
  obtain ⟨hpiece, hsum⟩ := hC.split hsplit
  have hcoin := coin.toNat_lt
  have hdust : dust.toNat = coin.toNat - withoutDust.toNat := by
    rw [hpiece, UInt64.toNat_ofNat', Nat.mod_eq_of_lt (by omega)]
  have hleft : left = withoutDust := UInt64.toNat_inj.mp (by omega)
  rw [hleft] at hsum ⊢
  exact ⟨huntrim, hsum⟩

theorem Bitmap.get_eq_ok {self : Bitmap} {index : UInt8} {b : Bool} :
    self.get index = .ok b ↔ index.toNat < 128 ∧ decide (index.toNat ∈ self.positions) = b := by
  have hbit (h : index.toNat < 128) :
      self.bitmap &&& BitVec.twoPow 128 index.toNat > 0 ↔ index.toNat ∈ self.positions :=
    (BitVec.pos_iff_ne_zero _).trans (BitSet.and_twoPow_ne_zero h)
  simp only [get, Except.bind_eq_ok, bitmask_eq_ok, Except.pure_eq_ok]
  constructor
  · rintro ⟨_, ⟨h, rfl⟩, rfl⟩
    exact ⟨h, by simp only [hbit h]⟩
  · rintro ⟨h, rfl⟩
    exact ⟨_, ⟨h, rfl⟩, by simp only [hbit h]⟩

/-- An item is released when its time has come, under a bit that was not set. -/
theorem OutboxItem.tryRelease_spec {self item : OutboxItem} {now : UInt64} {index : UInt8}
    (h : self.tryRelease now index = .ok (item, true)) :
    self.releaseTimestamp ≤ now ∧ index.toNat ∉ self.released.positions ∧
      item = { self with released := item.released } ∧
      item.released.positions = insert index.toNat self.released.positions := by
  rw [tryRelease] at h
  split at h
  · cases h
  · rename_i hle
    simp only [Except.bind_eq_ok, Bitmap.get_eq_ok, assert_eq_ok, Except.pure_eq_ok,
      Prod.mk.injEq] at h
    obtain ⟨_, ⟨-, rfl⟩, _, halready, released, hreleased, rfl, -⟩ := h
    exact ⟨UInt64.not_lt.mp hle, of_decide_eq_false halready, rfl,
      Bitmap.positions_enable hreleased⟩

namespace State

variable {τ : Type} {C : Coins} {s s' : State τ} {now : UInt64}

/-- What a preparation leaves: the ticket has the value of its trimmed amount, and the dust is what
the coin has above that. -/
theorem prepareTransfer_spec (hC : C.Lawful) {coins dust : UInt64} {coinMeta : CoinMetadata}
    {recipientChain : UInt16} {recipient : Bytes32} {payload : Option Bytes} {shouldQueue : Bool}
    {ticket : TransferTicket} (h : s.prepareTransfer C coins coinMeta recipientChain recipient
      payload shouldQueue = .ok (ticket, dust)) :
    ticket.trimmedAmount.untrim coinMeta.decimals = .ok ticket.coins ∧
      coins.toNat = ticket.coins.toNat + dust.toNat := by
  simp only [prepareTransfer, Except.bind_eq_ok, Except.pure_eq_ok, Prod.exists,
    Prod.mk.injEq] at h
  obtain ⟨peer, -, _, _, _, hdust, rfl, rfl⟩ := h
  exact TrimmedAmount.removeDust_spec hC hdust

/-- Funds are taken in: into the balance, or burned off the supply. -/
def TakesIn (C : Coins) (s s' : State τ) (amount : UInt64) : Prop :=
  (s.mode = .locking ∧ C.put s.balance amount = .ok s'.balance ∧
      s'.treasuryCap = s.treasuryCap) ∨
    (s.mode = .burning ∧ s'.balance = s.balance ∧ ∃ supply supply',
      s.treasuryCap = some supply ∧ C.burn supply amount = .ok supply' ∧
        s'.treasuryCap = some supply')

theorem putOrBurn_spec {coins : UInt64} (h : s.putOrBurn C coins = .ok s') :
    TakesIn C s s' coins ∧ s' = { s with balance := s'.balance, treasuryCap := s'.treasuryCap } := by
  rw [putOrBurn] at h
  split at h
  · rename_i hmode
    simp only [Except.bind_eq_ok, Except.pure_eq_ok] at h
    obtain ⟨balance, hput, rfl⟩ := h
    exact ⟨.inl ⟨hmode, hput, rfl⟩, rfl⟩
  · rename_i hmode
    split at h
    · rename_i supply hsupply
      simp only [Except.bind_eq_ok, Except.pure_eq_ok] at h
      obtain ⟨supply', hburn, rfl⟩ := h
      exact ⟨.inr ⟨hmode, rfl, supply, supply', hsupply, hburn, rfl⟩, rfl⟩
    · cases h

/-- A transfer changes the rate limits and nothing else there. -/
theorem consumeOutbound_spec {amount releaseTimestamp : UInt64} {ticket : TransferTicket}
    (h : s.consumeOutbound now amount ticket = .ok (s', releaseTimestamp)) :
    s' = { s with peers := s'.peers, outboundRateLimit := s'.outboundRateLimit } := by
  simp only [consumeOutbound, Except.bind_eq_ok, Prod.exists] at h
  obtain ⟨_, result, -, h⟩ := h
  cases result with
  | delayed timestamp =>
      simp only [Except.bind_eq_ok, Except.pure_eq_ok, Prod.mk.injEq] at h
      obtain ⟨_, -, rfl, -⟩ := h
      rfl
  | consumed =>
      simp only [Except.bind_eq_ok, Except.pure_eq_ok, Prod.mk.injEq] at h
      obtain ⟨_, -, _, -, rfl, -⟩ := h
      rfl

end State

/-- The last call of a run either fails and changes nothing, or leaves the state after the run. -/
theorem System.run_concat {τ : Type} [DecidableEq τ] (C : Coins) (W : Wormhole)
    (coinMeta : CoinMetadata) (s₀ : System τ) (calls : List (UInt64 × Call τ))
    (o : UInt64 × Call τ) :
    let M := System.machine C W coinMeta
    (∃ e, M.run s₀ (calls ++ [o]) = M.run s₀ calls ∧ M.out (M.run s₀ calls) o = .error e) ∨
      ∃ a, (M.run s₀ calls).apply C W coinMeta o.1 o.2 = .ok (M.run s₀ (calls ++ [o]), a) ∧
        M.out (M.run s₀ calls) o = .ok a :=
  Transducer.ofExcept_run_concat ..

namespace System

variable {τ : Type} {C : Coins} {W : Wormhole} {coinMeta : CoinMetadata} {s s' : System τ}
  {now : UInt64}

/-- A transfer takes the coins of its ticket in and enters a new item with its amount. -/
theorem transfer_spec {ticket : TransferTicket} {sender messageId : Bytes32}
    (h : s.transfer C now coinMeta ticket sender = .ok (s', messageId)) :
    ∃ item, s.outbox messageId = none ∧ item.released = .empty ∧
      item.data.payload.amount = ticket.trimmedAmount ∧
      State.TakesIn C s.toState s'.toState ticket.coins ∧ s' = { s with
        balance := s'.balance
        treasuryCap := s'.treasuryCap
        peers := s'.peers
        outboundRateLimit := s'.outboundRateLimit
        nextSequence := s'.nextSequence
        outbox := Function.update s.outbox messageId (some item) } := by
  simp only [transfer, nextMessageId, addItem, Except.bind_eq_ok, Except.pure_eq_ok, assert_eq_ok,
    Prod.exists, Prod.mk.injEq] at h
  obtain ⟨_, -, _, -, s₁, hfunds, amount, -, s₂, t, hconsume, _, _, ⟨_, -, rfl, rfl⟩, _, hnone, rfl,
    rfl⟩ := h
  obtain ⟨hfunds, hframe⟩ := State.putOrBurn_spec hfunds
  have hlimits := State.consumeOutbound_spec hconsume
  refine ⟨.new t ticket.recipientManager ⟨.ofNat 256 s.nextSequence.toNat, sender,
    ⟨ticket.trimmedAmount, ticket.tokenAddress, ticket.recipient, ticket.recipientChain,
      ticket.payload⟩⟩, hnone, rfl, rfl, ?_, ?_⟩
  · have hbalance : s₂.balance = s₁.balance := by rw [hlimits]
    have hcap : s₂.treasuryCap = s₁.treasuryCap := by rw [hlimits]
    change State.TakesIn C s.toState s₂ ticket.coins
    rwa [State.TakesIn, hbalance, hcap]
  · rw [hframe] at hlimits
    rw [hlimits]

/-- A message is taken out of an item by a registered transceiver that has not done it before, when
the time of the item has come. -/
theorem createTransceiverMessage_spec [DecidableEq τ] {t : τ} {messageId : Bytes32}
    {message : OutboundMessage}
    (h : s.createTransceiverMessage W now t messageId = .ok (s', message)) :
    ∃ item item' info, s.outbox messageId = some item ∧ (t, info) ∈ s.transceivers.transceivers ∧
      item.releaseTimestamp ≤ now ∧ info.id.toNat ∉ item.released.positions ∧
      item' = { item with released := item'.released } ∧
      item'.released.positions = insert info.id.toNat item.released.positions ∧
      s' = s.setOutboxItem messageId item' := by
  simp only [createTransceiverMessage, borrowOutboxItem, TransceiverRegistry.transceiverId,
    Except.bind_eq_ok, Except.pure_eq_ok, assert_eq_ok, Prod.exists, Prod.mk.injEq] at h
  obtain ⟨_, -, _, ⟨info, hinfo, rfl⟩, item, hitem, item', _, hrelease, _, rfl, _, -, rfl, -⟩ := h
  split at hitem
  · rename_i item₀ hsome
    obtain rfl := Except.ok.inj hitem
    obtain ⟨hle, hnot, hframe, hpositions⟩ := OutboxItem.tryRelease_spec hrelease
    exact ⟨item₀, item', info, hsome, TransceiverRegistry.mem_of_borrow hinfo, hle, hnot, hframe,
      hpositions, rfl⟩
  · cases hitem

end System

end Ntt.Sui
