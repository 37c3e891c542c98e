import Ntt.Sui.Custody

/-!
# Backflow on Sui

What a transfer consumes of the outbound rate limit flows back into the inbound limit of the peer,
and what a redemption consumes there flows back out. `redeem` moves one number, in the units of
the token. `transfer` consumes the untrimmed amount and refills by the number of the trimmed one,
which is smaller when the coin has more decimals than the amount. Either refill leaves the
timestamp, so what has accrued since then counts once more.

`Backflow` says what the two limits should do, and `Restored` what a transfer and the redemption of
the same amount should leave. Each holds under an equation about the limit that is refilled
(`FlowsBack`), unless that is full with either number (`System.backflow_iff`).
-/

namespace Ntt.Sui

/-! ### One rate limit -/

namespace RateLimitState

/-- What accrues at a limit between two times, in whole units. -/
def accrual (limit since now : UInt64) : ℕ :=
  limit.toNat * (now.toNat - since.toNat) / RATE_LIMIT_DURATION.toNat

variable {s s' : RateLimitState} {now amount : UInt64}

theorem accrual_self (limit now : UInt64) : accrual limit now now = 0 := by
  rw [accrual, Nat.sub_self, Nat.mul_zero, Nat.zero_div]

theorem capacity_eq_min (hle : s.lastTxTimestamp ≤ now) : s.capacity RATE_LIMIT_DURATION now =
    min (s.capacityAtLastTx.toNat + accrual s.limit s.lastTxTimestamp now) s.limit.toNat :=
  capacity_eq hle

theorem capacityAt_spec {c : UInt64} (h : s.capacityAt RATE_LIMIT_DURATION now = .ok c) :
    s.lastTxTimestamp ≤ now ∧ c.toNat = s.capacity RATE_LIMIT_DURATION now := by
  have hcapacity : s.capacity RATE_LIMIT_DURATION now = c.toNat := by
    rw [capacity, h]
    rfl
  simp only [capacityAt, Except.bind_eq_ok, assert_eq_ok] at h
  obtain ⟨_, hle, -⟩ := h
  exact ⟨hle, hcapacity.symm⟩

/-- A consumption takes the amount off the capacity, or is delayed and changes nothing. -/
theorem consumeOrDelay_spec {result : RateLimitResult}
    (h : s.consumeOrDelay RATE_LIMIT_DURATION now amount = .ok (s', result)) :
    s.lastTxTimestamp ≤ now ∧
      ((result = .consumed ∧ s'.limit = s.limit ∧ s'.lastTxTimestamp = now ∧
        s'.capacityAtLastTx.toNat + amount.toNat = s.capacity RATE_LIMIT_DURATION now) ∨
      (∃ timestamp, result = .delayed timestamp ∧ s' = s ∧
        s.capacity RATE_LIMIT_DURATION now < amount.toNat)) := by
  simp only [consumeOrDelay, Except.bind_eq_ok] at h
  obtain ⟨capacity, hcapacity, h⟩ := h
  obtain ⟨hle, hcapacity⟩ := capacityAt_spec hcapacity
  refine ⟨hle, ?_⟩
  split at h
  · rename_i hfits
    obtain ⟨rfl, rfl⟩ := Prod.mk.inj (Except.ok.inj h)
    refine .inl ⟨rfl, rfl, rfl, ?_⟩
    have hnat := UInt64.le_iff_toNat_le.mp hfits
    rw [← hcapacity, UInt64.toNat_sub_of_le _ _ hfits]
    omega
  · rename_i hfits
    simp only [Except.bind_eq_ok, Except.pure_eq_ok, Prod.mk.injEq] at h
    obtain ⟨timestamp, -, rfl, rfl⟩ := h
    refine .inr ⟨timestamp, rfl, rfl, ?_⟩
    rw [← hcapacity]
    exact UInt64.lt_iff_toNat_lt.mp (UInt64.not_le.mp hfits)

/-- A refill stores the capacity with the amount, up to the limit, under the timestamp that was
there. -/
theorem refill_spec (h : s.refill RATE_LIMIT_DURATION now amount = .ok s') :
    s.lastTxTimestamp ≤ now ∧ s'.limit = s.limit ∧ s'.lastTxTimestamp = s.lastTxTimestamp ∧
      s'.capacityAtLastTx.toNat =
        min (s.capacity RATE_LIMIT_DURATION now + amount.toNat) s.limit.toNat := by
  have hle : s.lastTxTimestamp ≤ now := by
    simp only [refill, Except.bind_eq_ok] at h
    obtain ⟨_, hcapacity, -⟩ := h
    exact (capacityAt_spec hcapacity).1
  have happly : s.apply RATE_LIMIT_DURATION now (.refill amount) = .ok (s', none) := by
    rw [apply, h]
    rfl
  rw [apply_eq hle] at happly
  simp only [Solana.RateLimitOp.bucketOp, Bucket.apply] at happly
  obtain ⟨rfl, -⟩ := Prod.mk.inj (Except.ok.inj happly)
  have hlimit := s.limit.toNat_lt
  refine ⟨hle, UInt64.ofNat_toNat, rfl, ?_⟩
  rw [capacity_eq hle]
  exact Solana.RateLimitState.toNat_ofNat ((min_le_right _ _).trans_lt hlimit)

/-- After a refill, what had accrued counts once more. -/
theorem refill_capacity (h : s.refill RATE_LIMIT_DURATION now amount = .ok s') {later : UInt64}
    (hlater : now ≤ later) : s'.capacity RATE_LIMIT_DURATION later =
      min (s.capacity RATE_LIMIT_DURATION now + amount.toNat +
        accrual s.limit s.lastTxTimestamp later) s.limit.toNat := by
  obtain ⟨hle, hlimit, hlast, hstored⟩ := refill_spec h
  rw [capacity_eq_min (hlast ▸ UInt64.le_trans hle hlater), hlimit, hlast, hstored]
  omega

/-- After a consumption, the rest of the capacity counts from its time on. -/
theorem consume_capacity
    (h : s.consumeOrDelay RATE_LIMIT_DURATION now amount = .ok (s', .consumed)) {later : UInt64}
    (hlater : now ≤ later) : s'.limit = s.limit ∧ s'.lastTxTimestamp = now ∧
      amount.toNat ≤ s.capacity RATE_LIMIT_DURATION now ∧
      s'.capacity RATE_LIMIT_DURATION later =
        min (s.capacity RATE_LIMIT_DURATION now - amount.toNat + accrual s.limit now later)
          s.limit.toNat := by
  obtain ⟨-, ⟨-, hlimit, hlast, hstored⟩ | ⟨_, hdelayed, -⟩⟩ := consumeOrDelay_spec h
  · refine ⟨hlimit, hlast, by omega, ?_⟩
    rw [capacity_eq_min (hlast.trans_le hlater), hlimit, hlast, ← hstored, Nat.add_sub_cancel]
  · cases hdelayed

theorem capacity_of_consumed
    (h : s.consumeOrDelay RATE_LIMIT_DURATION now amount = .ok (s', .consumed)) :
    s'.capacity RATE_LIMIT_DURATION now + amount.toNat = s.capacity RATE_LIMIT_DURATION now := by
  obtain ⟨-, -, hfits, hconsume⟩ := consume_capacity h (UInt64.le_refl now)
  have hle : s.capacity RATE_LIMIT_DURATION now ≤ s.limit.toNat := by
    rw [capacity_eq (consumeOrDelay_spec h).1]
    exact Bucket.level_le_limit _ _ _
  rw [accrual_self] at hconsume
  omega

end RateLimitState

open RateLimitState

/-! ### Two rate limits -/

/-- A quantity is consumed on one limit, and the other is refilled by it as far as it goes. -/
structure Backflow (q : ℕ) (now : UInt64) (spent spent' filled filled' : RateLimitState) :
    Prop where
  consumed : spent'.capacity RATE_LIMIT_DURATION now + q = spent.capacity RATE_LIMIT_DURATION now
  refilled : filled'.capacity RATE_LIMIT_DURATION now =
    min (filled.capacity RATE_LIMIT_DURATION now + q) filled.limit.toNat

/-- A quantity that moved at a transfer or a redemption: it was consumed on one limit, and it flowed
back into the other under a condition. -/
def Moved (q : ℕ) (now : UInt64) (spent spent' filled filled' : RateLimitState) (cond : Prop) :
    Prop :=
  spent'.capacity RATE_LIMIT_DURATION now + q = spent.capacity RATE_LIMIT_DURATION now ∧
    (Backflow q now spent spent' filled filled' ↔ cond)

/-- A quantity went out at a time and came back at a later one: both limits have what has accrued
since the first, apart from what did not fit. -/
structure Restored (q : ℕ) (now later : UInt64)
    (outbound outbound' inbound inbound' : RateLimitState) : Prop where
  outbound : outbound'.capacity RATE_LIMIT_DURATION later =
    min (outbound.capacity RATE_LIMIT_DURATION now + accrual outbound.limit now later)
      outbound.limit.toNat
  inbound : inbound'.capacity RATE_LIMIT_DURATION later + q =
    min (inbound.capacity RATE_LIMIT_DURATION now + q + accrual inbound.limit now later)
      inbound.limit.toNat

/-- Two refills of a limit with some capacity come to the same: they are equal, or both fill it. -/
def FlowsBack (limit : UInt64) (capacity refill refill' : ℕ) : Prop :=
  refill = refill' ∨ (limit.toNat ≤ capacity + refill ∧ limit.toNat ≤ capacity + refill')

theorem flowsBack_iff {limit : UInt64} {capacity refill refill' : ℕ} :
    FlowsBack limit capacity refill refill' ↔
      min (capacity + refill) limit.toNat = min (capacity + refill') limit.toNat := by
  rw [FlowsBack]
  omega

section

variable {spent spent' filled filled' : RateLimitState} {now later q amount : UInt64}

/-- **One backflow.** A limit that is refilled by an amount after a quantity was consumed on another
is refilled by the quantity when the amount is that, less what counts once more. -/
theorem backflow_iff_flowsBack
    (hspent : spent.consumeOrDelay RATE_LIMIT_DURATION now q = .ok (spent', .consumed))
    (hfilled : filled.refill RATE_LIMIT_DURATION now amount = .ok filled') :
    Backflow q.toNat now spent spent' filled filled' ↔
      FlowsBack filled.limit (filled.capacity RATE_LIMIT_DURATION now)
        (amount.toNat + accrual filled.limit filled.lastTxTimestamp now) q.toNat := by
  have hrefill := refill_capacity hfilled (UInt64.le_refl now)
  rw [flowsBack_iff, ← Nat.add_assoc, ← hrefill]
  exact ⟨fun h => h.refilled, fun h => ⟨capacity_of_consumed hspent, h⟩⟩

theorem moved_of_ok
    (hspent : spent.consumeOrDelay RATE_LIMIT_DURATION now q = .ok (spent', .consumed))
    (hfilled : filled.refill RATE_LIMIT_DURATION now amount = .ok filled') :
    Moved q.toNat now spent spent' filled filled'
      (FlowsBack filled.limit (filled.capacity RATE_LIMIT_DURATION now)
        (amount.toNat + accrual filled.limit filled.lastTxTimestamp now) q.toNat) := by
  exact ⟨capacity_of_consumed hspent, backflow_iff_flowsBack hspent hfilled⟩

/-- **Out and back.** After a quantity was consumed on the first limit and the second refilled by an
amount, and later the quantity consumed on the second and refilled on the first. -/
theorem restored_iff_flowsBack {spent'' filled'' : RateLimitState} (hlater : now ≤ later)
    (hspent : spent.consumeOrDelay RATE_LIMIT_DURATION now q = .ok (spent', .consumed))
    (hfilled : filled.refill RATE_LIMIT_DURATION now amount = .ok filled')
    (hback : filled'.consumeOrDelay RATE_LIMIT_DURATION later q = .ok (filled'', .consumed))
    (hspent' : spent'.refill RATE_LIMIT_DURATION later q = .ok spent'') :
    Restored q.toNat now later spent spent'' filled filled'' ↔
      FlowsBack spent.limit (spent.capacity RATE_LIMIT_DURATION now)
          (accrual spent.limit now later + accrual spent.limit now later)
          (accrual spent.limit now later) ∧
        FlowsBack filled.limit (filled.capacity RATE_LIMIT_DURATION now)
          (amount.toNat + accrual filled.limit filled.lastTxTimestamp later)
          (q.toNat + accrual filled.limit now later) := by
  obtain ⟨hlimit, hlast, hfits, hconsume⟩ := consume_capacity hspent hlater
  have hout := refill_capacity hspent' (UInt64.le_refl later)
  have hin := refill_capacity hfilled hlater
  obtain ⟨-, hlimit', -⟩ := refill_spec hfilled
  obtain ⟨-, -, hfits', hin'⟩ := consume_capacity hback (UInt64.le_refl later)
  rw [hlimit, hlast, hconsume] at hout
  rw [accrual_self, hlimit'] at hin'
  have hout' : spent''.capacity RATE_LIMIT_DURATION later =
      min (spent.capacity RATE_LIMIT_DURATION now +
        (accrual spent.limit now later + accrual spent.limit now later)) spent.limit.toNat := by
    omega
  have hin'' : filled''.capacity RATE_LIMIT_DURATION later + q.toNat =
      min (filled.capacity RATE_LIMIT_DURATION now +
        (amount.toNat + accrual filled.limit filled.lastTxTimestamp later))
        filled.limit.toNat := by
    omega
  rw [flowsBack_iff, flowsBack_iff, ← hout', ← hin'', ← Nat.add_assoc]
  exact ⟨fun h => ⟨h.outbound, h.inbound⟩, fun h => ⟨h.1, h.2⟩⟩

end

/-! ### Transfers and redemptions -/

/-- An amount with fewer decimals is a smaller number, unless it is zero. -/
theorem TrimmedAmount.untrim_eq_amount {t : TrimmedAmount} {decimals : UInt8} {q : UInt64}
    (hle : t.decimals ≤ decimals) (h : t.untrim decimals = .ok q) :
    t.amount = q ↔ q = 0 ∨ t.decimals = decimals := by
  have hle' := UInt8.le_iff_toNat_le.mp hle
  have hq := (scale_eq_ok.mp h).1
  rw [Decimal.rescale_of_le hle'] at hq
  rw [← UInt64.toNat_inj, ← UInt64.toNat_inj, ← UInt8.toNat_inj]
  constructor
  · intro heq
    by_contra hnot
    obtain ⟨hpos, hne⟩ := not_or.mp hnot
    have hfactor : 1 < 10 ^ (decimals.toNat - t.decimals.toNat) :=
      Nat.one_lt_pow (by omega) (by norm_num)
    have := Nat.mul_lt_mul_of_pos_left hfactor (Nat.pos_of_ne_zero (heq ▸ hpos))
    omega
  · rintro (hzero | heq)
    · have hamount := (Nat.mul_eq_zero.mp (hq.symm.trans hzero)).resolve_right (by positivity)
      exact hamount.trans hzero.symm
    · rw [heq, Nat.sub_self, pow_zero, Nat.mul_one] at hq
      exact hq.symm

/-- The number of a prepared amount is what it is worth, unless the coin has more decimals than
eight or than the peer. -/
theorem State.prepareTransfer_number {τ : Type} {s : State τ} {C : Coins} {coins dust q : UInt64}
    {coinMeta : CoinMetadata} {recipientChain : UInt16} {recipient : Bytes32}
    {payload : Option Bytes} {shouldQueue : Bool} {ticket : TransferTicket}
    (h : s.prepareTransfer C coins coinMeta recipientChain recipient payload shouldQueue =
      .ok (ticket, dust)) (hq : ticket.trimmedAmount.untrim coinMeta.decimals = .ok q) :
    ∃ peer, s.peers recipientChain = some peer ∧ (ticket.trimmedAmount.amount = q ↔
      q = 0 ∨ coinMeta.decimals ≤ 8 ∧ coinMeta.decimals ≤ peer.tokenDecimals) := by
  simp only [prepareTransfer, TrimmedAmount.removeDust, TrimmedAmount.trim, borrowPeer_eq_ok,
    Except.bind_eq_ok, Except.pure_eq_ok, Prod.exists, Prod.mk.injEq] at h
  obtain ⟨peer, hpeer, trimmed, _, _, ⟨_, ⟨amount, -, rfl⟩, _, -, _, -, _, _, -, rfl, -, -⟩, rfl,
    -⟩ := h
  refine ⟨peer, hpeer, (TrimmedAmount.untrim_eq_amount ?_ hq).trans (or_congr_right ?_)⟩
  · rw [UInt8.le_iff_toNat_le]
    simp only [Decimal.toNat_min]
    omega
  · rw [← UInt8.toNat_inj, UInt8.le_iff_toNat_le, UInt8.le_iff_toNat_le]
    simp only [Decimal.toNat_min]
    have h8 : (8 : UInt8).toNat = 8 := rfl
    omega

namespace State

variable {τ : Type} {s s' : State τ} {now : UInt64}

/-- No rate limit changes. -/
def Untouched (s s' : State τ) : Prop :=
  s'.outboundRateLimit = s.outboundRateLimit ∧ s'.peers = s.peers

/-- A peer gets another inbound limit. -/
def PeerMoves (s s' : State τ) (chain : UInt16) (peer : Peer) (inbound' : RateLimitState) : Prop :=
  s.peers chain = some peer ∧
    s'.peers = Function.update s.peers chain (some { peer with inboundRateLimit := inbound' })

/-- The limits at a transfer: the amount goes through the outbound one, and the number of the
trimmed amount into the one of the peer. -/
theorem consumeOutbound_limits {q releaseTimestamp : UInt64} {ticket : TransferTicket}
    (h : s.consumeOutbound now q ticket = .ok (s', releaseTimestamp)) :
    (Untouched s s' ∧ s.outboundRateLimit.capacity RATE_LIMIT_DURATION now < q.toNat) ∨
      ∃ peer inbound', PeerMoves s s' ticket.recipientChain peer inbound' ∧
        s.outboundRateLimit.consumeOrDelay RATE_LIMIT_DURATION now q =
          .ok (s'.outboundRateLimit, .consumed) ∧
        peer.inboundRateLimit.refill RATE_LIMIT_DURATION now ticket.trimmedAmount.amount =
          .ok inbound' := by
  simp only [consumeOutbound, Except.bind_eq_ok, Prod.exists] at h
  obtain ⟨outbound', result, hconsume, h⟩ := h
  obtain ⟨-, ⟨rfl, -⟩ | ⟨_, rfl, rfl, hlt⟩⟩ := consumeOrDelay_spec hconsume
  · simp only [Except.bind_eq_ok, Except.pure_eq_ok, borrowPeer_eq_ok, Prod.mk.injEq] at h
    obtain ⟨peer, hpeer, inbound', hrefill, rfl, -⟩ := h
    exact .inr ⟨peer, inbound', ⟨hpeer, rfl⟩, hconsume, hrefill⟩
  · simp only [Except.bind_eq_ok, Except.pure_eq_ok, Prod.mk.injEq] at h
    obtain ⟨_, -, rfl, -⟩ := h
    exact .inl ⟨⟨rfl, rfl⟩, hlt⟩

/-- The limits at an approval: the amount goes through the one of the peer and into the outbound
one. -/
theorem consumeInbound_limits {chainId : UInt16} {q releaseTimestamp : UInt64}
    (h : s.consumeInbound now chainId q = .ok (s', releaseTimestamp)) :
    Untouched s s' ∨ ∃ peer inbound', PeerMoves s s' chainId peer inbound' ∧
      peer.inboundRateLimit.consumeOrDelay RATE_LIMIT_DURATION now q =
        .ok (inbound', .consumed) ∧
      s.outboundRateLimit.refill RATE_LIMIT_DURATION now q = .ok s'.outboundRateLimit := by
  simp only [consumeInbound, Except.bind_eq_ok, borrowPeer_eq_ok, Prod.exists] at h
  obtain ⟨peer, hpeer, inbound', result, hconsume, h⟩ := h
  obtain ⟨-, ⟨rfl, -⟩ | ⟨_, rfl, rfl, -⟩⟩ := consumeOrDelay_spec hconsume
  · simp only [Except.bind_eq_ok, Except.pure_eq_ok, Prod.mk.injEq] at h
    obtain ⟨_, hrefill, rfl, -⟩ := h
    exact .inr ⟨peer, inbound', ⟨hpeer, rfl⟩, hconsume, hrefill⟩
  · simp only [Except.pure_eq_ok, Prod.mk.injEq] at h
    obtain ⟨rfl, -⟩ := h
    -- a delay stores the limit as it was
    exact .inl ⟨rfl, Function.update_eq_self_iff.mpr hpeer.symm⟩

/-- The limits at a redemption: only an approval moves them. -/
theorem redeem_limits [DecidableEq τ] {W : Wormhole} {t : τ}
    {validatedMessage : ValidatedTransceiverMessage} {decimals : UInt8}
    {message : NttManagerMessage NativeTokenTransfer} {q : UInt64}
    (h : s.redeem W now t validatedMessage decimals = .ok s')
    (hmessage : validatedMessage.message.nttManagerPayload.map (NativeTokenTransfer.parse W) =
      .ok message) (hq : message.payload.amount.untrim decimals = .ok q) :
    Untouched s s' ∨ ∃ peer inbound', PeerMoves s s' validatedMessage.fromChain peer inbound' ∧
      peer.inboundRateLimit.consumeOrDelay RATE_LIMIT_DURATION now q =
        .ok (inbound', .consumed) ∧
      s.outboundRateLimit.refill RATE_LIMIT_DURATION now q = .ok s'.outboundRateLimit := by
  obtain ⟨key, s₁, hredeems, hvote, hafter⟩ := redeem_spec h
  obtain ⟨_, _, -, -, rfl⟩ := vote_spec hvote
  obtain rfl : message = key.message := Except.ok.inj (hmessage.symm.trans hredeems.message)
  obtain rfl | ⟨s₂, _, _, q', -, -, -, hq', hconsume, rfl⟩ := hafter
  · exact .inl ⟨rfl, rfl⟩
  · obtain rfl : q = q' := Except.ok.inj (hq.symm.trans hq')
    have hlimits := consumeInbound_limits hconsume
    rw [hredeems.chain]
    exact hlimits

end State

namespace System

open Sui.State

variable {τ : Type} [DecidableEq τ] {C : Coins} {W : Wormhole} {coinMeta : CoinMetadata}
  {s s' : System τ} {now : UInt64}

theorem transfer_limits {ticket : TransferTicket} {sender : Bytes32} {a : Answer τ} {q : UInt64}
    (h : s.apply C W coinMeta now (.transfer ticket sender) = .ok (s', a))
    (hq : ticket.trimmedAmount.untrim coinMeta.decimals = .ok q) :
    (Untouched s.toState s'.toState ∧
        s.outboundRateLimit.capacity RATE_LIMIT_DURATION now < q.toNat) ∨
      ∃ peer inbound', PeerMoves s.toState s'.toState ticket.recipientChain peer inbound' ∧
        s.outboundRateLimit.consumeOrDelay RATE_LIMIT_DURATION now q =
          .ok (s'.outboundRateLimit, .consumed) ∧
        peer.inboundRateLimit.refill RATE_LIMIT_DURATION now ticket.trimmedAmount.amount =
          .ok inbound' := by
  simp only [apply, transfer, nextMessageId, addItem, Except.bind_eq_ok, Except.pure_eq_ok,
    assert_eq_ok, Prod.exists, Prod.mk.injEq] at h
  obtain ⟨_, -, _, _, ⟨_, -, _, -, s₁, hfunds, q', hq', s₂, _, hconsume, _, _, ⟨_, -, rfl, rfl⟩, _,
    -, rfl, -⟩, rfl, -⟩ := h
  obtain rfl : q = q' := Except.ok.inj (hq.symm.trans hq')
  obtain ⟨-, hframe⟩ := State.putOrBurn_spec hfunds
  have hlimits := consumeOutbound_limits hconsume
  rw [hframe] at hlimits
  exact hlimits

theorem redeem_limits {t : τ} {validatedMessage : ValidatedTransceiverMessage}
    {decimals : UInt8} {message : NttManagerMessage NativeTokenTransfer} {a : Answer τ} {q : UInt64}
    (h : s.apply C W coinMeta now (.manager (.redeem t validatedMessage decimals)) = .ok (s', a))
    (hmessage : validatedMessage.message.nttManagerPayload.map (NativeTokenTransfer.parse W) =
      .ok message) (hq : message.payload.amount.untrim coinMeta.decimals = .ok q) :
    Untouched s.toState s'.toState ∨
      ∃ peer inbound', PeerMoves s.toState s'.toState validatedMessage.fromChain peer inbound' ∧
        peer.inboundRateLimit.consumeOrDelay RATE_LIMIT_DURATION now q =
          .ok (inbound', .consumed) ∧
        s.outboundRateLimit.refill RATE_LIMIT_DURATION now q = .ok s'.outboundRateLimit := by
  simp only [apply, Op.withMetadata, State.apply, Except.bind_eq_ok, Except.pure_eq_ok,
    Prod.exists, Prod.mk.injEq] at h
  obtain ⟨_, _, ⟨_, hredeem, rfl, -⟩, rfl, -⟩ := h
  exact State.redeem_limits hredeem hmessage hq

/-- **Backflow.** A transfer that consumes a quantity refills the inbound limit of its peer by it
exactly when the number of the trimmed amount, with what accrued there since the last transaction,
is the quantity, or either fills the limit. A redemption that consumes a quantity refills the
outbound limit by it exactly when nothing accrued there since the last transaction, or the quantity
fills the limit. And a quantity that goes out and comes back leaves both limits as they were, with
what has accrued, under both conditions. -/
theorem backflow_iff (C : Coins) (W : Wormhole) (coinMeta : CoinMetadata) :
    (∀ (s s' : System τ) now ticket sender a q,
      s.apply C W coinMeta now (.transfer ticket sender) = .ok (s', a) →
      ticket.trimmedAmount.untrim coinMeta.decimals = .ok q →
      (Untouched s.toState s'.toState ∧
        s.outboundRateLimit.capacity RATE_LIMIT_DURATION now < q.toNat) ∨
      ∃ peer inbound', PeerMoves s.toState s'.toState ticket.recipientChain peer inbound' ∧
        Moved q.toNat now s.outboundRateLimit s'.outboundRateLimit peer.inboundRateLimit inbound'
          (FlowsBack peer.inboundRateLimit.limit
            (peer.inboundRateLimit.capacity RATE_LIMIT_DURATION now)
            (ticket.trimmedAmount.amount.toNat + accrual peer.inboundRateLimit.limit
              peer.inboundRateLimit.lastTxTimestamp now) q.toNat)) ∧
    (∀ (s s' : System τ) now transceiver validatedMessage decimals a message q,
      s.apply C W coinMeta now (.manager (.redeem transceiver validatedMessage decimals)) =
        .ok (s', a) →
      validatedMessage.message.nttManagerPayload.map (NativeTokenTransfer.parse W) = .ok message →
      message.payload.amount.untrim coinMeta.decimals = .ok q →
      Untouched s.toState s'.toState ∨
      ∃ peer inbound', PeerMoves s.toState s'.toState validatedMessage.fromChain peer inbound' ∧
        Moved q.toNat now peer.inboundRateLimit inbound' s.outboundRateLimit s'.outboundRateLimit
          (FlowsBack s.outboundRateLimit.limit
            (s.outboundRateLimit.capacity RATE_LIMIT_DURATION now)
            (q.toNat + accrual s.outboundRateLimit.limit s.outboundRateLimit.lastTxTimestamp now)
            q.toNat)) ∧
    ∀ (s s₁ s₂ s' : System τ) now later ticket sender a q transceiver validatedMessage decimals
      message a',
      s.apply C W coinMeta now (.transfer ticket sender) = .ok (s₁, a) →
      ticket.trimmedAmount.untrim coinMeta.decimals = .ok q →
      q.toNat ≤ s.outboundRateLimit.capacity RATE_LIMIT_DURATION now →
      Untouched s₁.toState s₂.toState →
      s₂.apply C W coinMeta later (.manager (.redeem transceiver validatedMessage decimals)) =
        .ok (s', a') →
      validatedMessage.fromChain = ticket.recipientChain →
      validatedMessage.message.nttManagerPayload.map (NativeTokenTransfer.parse W) = .ok message →
      message.payload.amount.untrim coinMeta.decimals = .ok q →
      Untouched s₂.toState s'.toState ∨
      ∃ peer inbound', PeerMoves s.toState s'.toState ticket.recipientChain peer inbound' ∧
        (Restored q.toNat now later s.outboundRateLimit s'.outboundRateLimit peer.inboundRateLimit
            inbound' ↔
          FlowsBack s.outboundRateLimit.limit
            (s.outboundRateLimit.capacity RATE_LIMIT_DURATION now)
            (accrual s.outboundRateLimit.limit now later +
              accrual s.outboundRateLimit.limit now later)
            (accrual s.outboundRateLimit.limit now later) ∧
          FlowsBack peer.inboundRateLimit.limit
            (peer.inboundRateLimit.capacity RATE_LIMIT_DURATION now)
            (ticket.trimmedAmount.amount.toNat + accrual peer.inboundRateLimit.limit
              peer.inboundRateLimit.lastTxTimestamp later)
            (q.toNat + accrual peer.inboundRateLimit.limit now later)) := by
  refine ⟨?_, ?_, ?_⟩
  · intro s s' now ticket sender a q h hq
    obtain hun | ⟨peer, inbound', hmoves, hspent, hfilled⟩ := transfer_limits h hq
    · exact .inl hun
    · exact .inr ⟨peer, inbound', hmoves, moved_of_ok hspent hfilled⟩
  · intro s s' now transceiver validatedMessage decimals a message q h hmessage hq
    obtain hun | ⟨peer, inbound', hmoves, hspent, hfilled⟩ := redeem_limits h hmessage hq
    · exact .inl hun
    · exact .inr ⟨peer, inbound', hmoves, moved_of_ok hspent hfilled⟩
  · intro s s₁ s₂ s' now later ticket sender a q transceiver validatedMessage decimals message a' h
      hq hfits hsame hredeem hchain hmessage hq'
    obtain ⟨-, hlt⟩ | ⟨peer, inbound₁, ⟨hpeer, hpeers⟩, hspent, hfilled⟩ := transfer_limits h hq
    · omega
    obtain hun | ⟨peer₁, inbound', ⟨hpeer₁, hpeers'⟩, hback, hspent'⟩ :=
      redeem_limits hredeem hmessage hq'
    · exact .inl hun
    -- the redemption finds the limits that the transfer left
    rw [hsame.2, hpeers, hchain] at hpeer₁ hpeers'
    rw [Function.update_self] at hpeer₁
    rw [Function.update_idem] at hpeers'
    rw [hsame.1] at hspent'
    obtain rfl := Option.some.inj hpeer₁
    have hlater : now ≤ later := by
      have hlast := (consume_capacity hspent (UInt64.le_refl now)).2.1
      exact hlast ▸ (refill_spec hspent').1
    exact .inr ⟨peer, inbound', ⟨hpeer, hpeers'⟩,
      restored_iff_flowsBack hlater hspent hfilled hback hspent'⟩

/-- A peer with an inbound limit of 1000 units, a redemption of the sample transfer from it, and a
coin for a transfer to it. -/
def beforeTransfer (coins : UInt64) : List (UInt64 × Call Bool) :=
  [(0, .manager (.registerTransceiver false 1)), (0, .manager (.setPeer 2 42 8 1000)),
    (0, .manager (.redeem false State.sampleMessage 8)), (0, .prepareTransfer coins 2 9 none false)]

/-- The transfer of that coin, of the amount of the sample. -/
def ticketOf (coins : UInt64) : TransferTicket :=
  ⟨coins, 0x70, ⟨100, 8⟩, 2, 9, none, 42, false⟩

/-- The sample amount in another message. -/
def sampleBack : ValidatedTransceiverMessage :=
  ⟨2, ⟨42, 17, ⟨2, 5, (sampleTransfer.toBytes .reference).toOption.getD []⟩⟩⟩

section

variable (decimals : UInt8) (coins : UInt64)

/-- The manager of a coin with some decimals. -/
def sampleMachine : Transducer (System Bool) (UInt64 × Call Bool) (Except Abort (Answer Bool)) :=
  System.machine .reference .reference ⟨0x70, decimals⟩

def beforeOut : System Bool := (sampleMachine decimals).run fresh (beforeTransfer coins)

def afterOut : System Bool :=
  (sampleMachine decimals).next (beforeOut decimals coins) (0, .transfer (ticketOf coins) 5)

def afterBack : System Bool :=
  (sampleMachine decimals).next (afterOut decimals coins)
    (0, .manager (.redeem false sampleBack decimals))

end

theorem apply_of_out {decimals : UInt8} {s : System Bool} {call : Call Bool} {a : Answer Bool}
    (h : (sampleMachine decimals).out s (0, call) = .ok a) :
    s.apply .reference .reference ⟨0x70, decimals⟩ 0 call =
      .ok ((sampleMachine decimals).next s (0, call), a) := by
  obtain ⟨e, -, herror⟩ | ⟨a', happly, hout⟩ :=
    System.run_concat .reference .reference ⟨0x70, decimals⟩ s [] (0, call)
  · cases h.symm.trans herror
  · obtain rfl := Except.ok.inj (h.symm.trans hout)
    exact happly

/-- With eight decimals, the amount goes out and comes back. -/
theorem sample_backflow_iff :
    (∃ peer inbound', PeerMoves (beforeOut 8 100).toState (afterOut 8 100).toState
        (ticketOf 100).recipientChain peer inbound' ∧
      Backflow 100 0 (beforeOut 8 100).outboundRateLimit (afterOut 8 100).outboundRateLimit
        peer.inboundRateLimit inbound') ∧
    (∃ peer inbound', PeerMoves (afterOut 8 100).toState (afterBack 8 100).toState
        sampleBack.fromChain peer inbound' ∧
      Backflow 100 0 peer.inboundRateLimit inbound' (afterOut 8 100).outboundRateLimit
        (afterBack 8 100).outboundRateLimit) ∧
    ∃ peer inbound', PeerMoves (beforeOut 8 100).toState (afterBack 8 100).toState
        (ticketOf 100).recipientChain peer inbound' ∧
      Restored 100 0 0 (beforeOut 8 100).outboundRateLimit (afterBack 8 100).outboundRateLimit
        peer.inboundRateLimit inbound' := by
  obtain ⟨hout, hback, hrestored⟩ := backflow_iff (τ := Bool) .reference .reference ⟨0x70, 8⟩
  have htransfer : (beforeOut 8 100).apply .reference .reference ⟨0x70, 8⟩ 0
      (.transfer (ticketOf 100) 5) = .ok (afterOut 8 100, .transferred 1) :=
    apply_of_out (by decide +kernel)
  have hredeem : (afterOut 8 100).apply .reference .reference ⟨0x70, 8⟩ 0
      (.manager (.redeem false sampleBack 8)) = .ok (afterBack 8 100, .nothing) :=
    apply_of_out (by decide +kernel)
  have hq : (ticketOf 100).trimmedAmount.untrim 8 = .ok 100 := by decide +kernel
  have hq' : sampleTransfer.amount.untrim 8 = .ok 100 := by decide +kernel
  have hfits : (100 : UInt64).toNat ≤
      (beforeOut 8 100).outboundRateLimit.capacity RATE_LIMIT_DURATION 0 := by decide +kernel
  have hmoved : (afterBack 8 100).outboundRateLimit ≠ (afterOut 8 100).outboundRateLimit := by
    decide +kernel
  have hmessage : sampleBack.message.nttManagerPayload.map (NativeTokenTransfer.parse .reference) =
      .ok ⟨2, 5, sampleTransfer⟩ := by decide +kernel
  have hpeers : (beforeOut 8 100).peers (ticketOf 100).recipientChain =
      some ⟨42, 8, ⟨1000, 900, 0⟩⟩ := by decide +kernel
  refine ⟨?_, ?_, ?_⟩
  · obtain ⟨-, hlt⟩ | ⟨peer, inbound', hpeer, hmoves⟩ := hout _ _ _ _ _ _ 100 htransfer hq
    · exact absurd hlt (not_lt.mpr hfits)
    · obtain rfl := Option.some.inj (hpeer.1.symm.trans hpeers)
      exact ⟨_, inbound', hpeer, hmoves.2.mpr (.inl (by decide +kernel))⟩
  · obtain hun | ⟨peer, inbound', hpeer, hmoves⟩ :=
      hback _ _ _ _ _ _ _ _ 100 hredeem hmessage hq'
    · exact absurd hun.1 hmoved
    · exact ⟨peer, inbound', hpeer, hmoves.2.mpr (.inl (by decide +kernel))⟩
  · obtain hun | ⟨peer, inbound', hpeer, hiff⟩ := hrestored _ _ _ _ _ _ _ _ _ 100 _ _ _ _ _
      htransfer hq hfits ⟨rfl, rfl⟩ hredeem rfl hmessage hq'
    · exact absurd hun.1 hmoved
    · obtain rfl := Option.some.inj (hpeer.1.symm.trans hpeers)
      exact ⟨_, inbound', hpeer,
        hiff.mpr ⟨.inl (by decide +kernel), .inl (by decide +kernel)⟩⟩

/-- With nine decimals, the trimmed amount is a tenth of what is consumed. The inbound limit gets
that tenth back, and the redemption of the same amount is delayed. -/
theorem trimmed_amount_refilled :
    (beforeOut 9 1000).peers 2 = some ⟨42, 8, ⟨1000, 0, 0⟩⟩ ∧
      (afterOut 9 1000).peers 2 = some ⟨42, 8, ⟨1000, 100, 0⟩⟩ ∧
      (afterOut 9 1000).outboundRateLimit.capacity RATE_LIMIT_DURATION 0 + 1000 =
        (beforeOut 9 1000).outboundRateLimit.capacity RATE_LIMIT_DURATION 0 ∧
      ¬ Backflow 1000 0 (beforeOut 9 1000).outboundRateLimit (afterOut 9 1000).outboundRateLimit
        ⟨1000, 0, 0⟩ ⟨1000, 100, 0⟩ ∧
      (afterBack 9 1000).status ⟨2, ⟨2, 5, sampleTransfer⟩⟩ = .releaseAfter RATE_LIMIT_DURATION ∧
      (afterBack 9 1000).peers 2 = (afterOut 9 1000).peers 2 := by
  refine ⟨by decide +kernel, by decide +kernel, by decide +kernel, fun h => ?_, by decide +kernel,
    by decide +kernel⟩
  exact absurd h.refilled (by decide +kernel)

end System

end Ntt.Sui
