import Ntt.Solana.Program

/-!
# What the Instructions Do

For each instruction that succeeds, the checks that it passed and the state that it leaves, or the
part of the state that it cannot touch. Everything that is said of a run is derived from these.
-/

namespace Ntt.Solana

variable {L : Type} {R : Runtime} {T : TokenProgram L}

theorem bind_eq_error {α β : Type} {x : Except Error α} {f : α → Except Error β} {e : Error} :
    x >>= f = .error e ↔ x = .error e ∨ ∃ a, x = .ok a ∧ f a = .error e := by
  cases x <;> simp [bind, Except.bind]

theorem require_eq_error {c : Prop} [Decidable c] {e e' : Error} :
    require c e = .error e' ↔ ¬ c ∧ e = e' := by
  rw [require]
  by_cases h : c <;> simp [h]

theorem mapError_eq_error {ε α : Type} {f : ε → Error} {x : Except ε α} {e : Error} :
    x.mapError f = .error e ↔ ∃ e', x = .error e' ∧ f e' = e := by
  cases x <;> simp [Except.mapError]

/-- What a consumption does: it is within the capacity and is taken off it at once, or it is
delayed by the duration and leaves the limit as it is. -/
theorem RateLimitState.consumeOrDelay_cases {duration now : Int64} {s s' : RateLimitState}
    {amount : UInt64} {result : RateLimitResult}
    (h : s.consumeOrDelay duration now amount = .ok (s', result)) :
    result = .consumed now ∨
      ∃ t, result = .delayed t ∧ checkedI64 (now.toInt + duration.toInt) = .ok t ∧ s' = s := by
  simp only [consumeOrDelay, Except.bind_eq_ok] at h
  obtain ⟨capacity, -, h⟩ := h
  split at h
  · exact .inl (Prod.mk.inj (Except.ok.inj h)).2.symm
  · simp only [Except.bind_eq_ok, Except.pure_eq_ok, Prod.mk.injEq] at h
    obtain ⟨t, ht, rfl, rfl⟩ := h
    exact .inr ⟨t, rfl, ht, rfl⟩

/-- A timestamp that is a day later fits, and is later. -/
theorem lt_of_checkedI64 {now t : Int64}
    (h : checkedI64 (now.toInt + RATE_LIMIT_DURATION.toInt) = .ok t) : now < t := by
  rw [checkedI64] at h
  split at h
  · rename_i hfits
    obtain rfl := Except.ok.inj h
    rw [Int64.lt_iff_toInt_lt, Int64.toInt_ofInt_of_le hfits.1 hfits.2]
    have hday : RATE_LIMIT_DURATION.toInt = 86400 := by decide
    omega
  · cases h

namespace State

variable {s s' : State L} {now : Int64}

/-- The rate limits stay as they are. -/
def SameLimits (s s' : State L) : Prop :=
  s'.inboxRateLimits = s.inboxRateLimits ∧ s'.outboxRateLimit = s.outboxRateLimit

theorem enabledTransceiver_eq_ok {t : Pubkey} {account : RegisteredTransceiver} :
    s.enabledTransceiver t = .ok account ↔ s.registeredTransceivers t = some account ∧
      account.id.toNat ∈ s.config.enabledTransceivers.positions := by
  simp only [enabledTransceiver, Except.bind_eq_ok, loadAccount_eq_ok, mapError_eq_ok,
    require_eq_ok, Except.pure_eq_ok]
  constructor
  · rintro ⟨_, hreg, _, henabled, _, rfl, rfl⟩
    exact ⟨hreg, Bitmap.get_eq_ok_true.mp henabled⟩
  · rintro ⟨hreg, henabled⟩
    exact ⟨account, hreg, true, Bitmap.get_eq_ok_true.mpr henabled, (), rfl, rfl⟩

/-! ### Transceivers and the threshold -/

/-- A registration enables the id that the transceiver has, or gives it the next one. -/
theorem registerTransceiver_spec {owner t : Pubkey} {executable : Bool}
    (h : s.registerTransceiver owner t executable = .ok s') :
    t ≠ Pubkey.default ∧ ∃ registered enabledTransceivers nextTransceiverId,
      s.config.enabledTransceivers.set registered.id true = .ok enabledTransceivers ∧
      s' = { s with
        config := { s.config with enabledTransceivers, nextTransceiverId }
        registeredTransceivers := Function.update s.registeredTransceivers t (some registered) } ∧
      ((registered.transceiverAddress ≠ Pubkey.default ∧ s.registeredTransceivers t = some registered ∧
          nextTransceiverId = s.config.nextTransceiverId) ∨
        (((s.registeredTransceivers t).getD .zeroed).transceiverAddress = Pubkey.default ∧
          registered = ⟨s.config.nextTransceiverId, t⟩ ∧ s.config.nextTransceiverId ≠ 255 ∧
          nextTransceiverId = s.config.nextTransceiverId + 1)) := by
  simp only [registerTransceiver, Except.bind_eq_ok, require_eq_ok] at h
  obtain ⟨_, -, _, -, _, hne, ⟨config, registered⟩, hregistered, h⟩ := h
  simp only [Except.pure_eq_ok, mapError_eq_ok] at h
  obtain ⟨enabled, henabled, rfl⟩ := h
  refine ⟨hne, registered, enabled, config.nextTransceiverId, ?_⟩
  rw [initTransceiver] at hregistered
  split at hregistered
  · rename_i hdefault
    simp only [Except.bind_eq_ok, require_eq_ok, Except.pure_eq_ok, Prod.mk.injEq] at hregistered
    obtain ⟨_, hfits, rfl, rfl⟩ := hregistered
    exact ⟨henabled, rfl, .inr ⟨hdefault, rfl, hfits, rfl⟩⟩
  · rename_i hset
    obtain ⟨rfl, rfl⟩ := Prod.mk.inj (Except.ok.inj hregistered)
    cases hreg : s.registeredTransceivers t with
    | none =>
        rw [hreg] at hset
        exact absurd rfl hset
    | some r =>
        rw [hreg] at hset henabled
        exact ⟨henabled, rfl, .inl ⟨hset, rfl, rfl⟩⟩

/-- A deregistration leaves a transceiver enabled, and a threshold within their number. -/
theorem deregisterTransceiver_spec {owner t : Pubkey}
    (h : s.deregisterTransceiver owner t = .ok s') :
    ∃ enabledTransceivers threshold, enabledTransceivers.positions ⊆
        s.config.enabledTransceivers.positions ∧ enabledTransceivers.positions.Nonempty ∧
      (threshold.toNat = min enabledTransceivers.positions.card s.config.threshold.toNat) ∧
      s' = { s with config := { s.config with enabledTransceivers, threshold } } := by
  simp only [deregisterTransceiver, Except.bind_eq_ok, require_eq_ok, mapError_eq_ok,
    enabledTransceiver_eq_ok, Except.pure_eq_ok] at h
  obtain ⟨_, -, account, -, enabled, henabled, _, hne, rfl⟩ := h
  refine ⟨enabled, _, ?_, ?_, ?_, rfl⟩
  · rw [Bitmap.positions_set_false henabled]
    exact Finset.erase_subset _ _
  · rw [← Finset.card_pos, ← Bitmap.toNat_len]
    exact Nat.pos_of_ne_zero fun hzero => hne (UInt8.toNat_inj.mp hzero)
  · rw [← Bitmap.toNat_len]
    split
    · rename_i hlt
      have := UInt8.lt_iff_toNat_lt.mp hlt
      omega
    · rename_i hle
      have := UInt8.le_iff_toNat_le.mp (UInt8.not_lt.mp hle)
      omega

theorem setThreshold_spec {owner : Pubkey} {threshold : UInt8}
    (h : s.setThreshold owner threshold = .ok s') :
    0 < threshold.toNat ∧ threshold.toNat ≤ s.config.enabledTransceivers.positions.card ∧
      s' = { s with config := { s.config with threshold } } := by
  simp only [setThreshold, Except.bind_eq_ok, require_eq_ok, Except.pure_eq_ok] at h
  obtain ⟨_, -, _, hle, _, hne, rfl⟩ := h
  rw [UInt8.le_iff_toNat_le, Bitmap.toNat_len] at hle
  exact ⟨Nat.pos_of_ne_zero fun hzero => hne (UInt8.toNat_inj.mp hzero), hle, rfl⟩

/-! ### What the other instructions leave alone -/

/-- The owner, the pending owner and whether the program is paused are all that changes of the
config. -/
def SameConfig (s s' : State L) : Prop :=
  s'.config = { s.config with
    owner := s'.config.owner
    pendingOwner := s'.config.pendingOwner
    paused := s'.config.paused }

/-- What an instruction for peers, limits, pausing or the ownership leaves alone. -/
theorem applyAdmin_spec {i : AdminInstruction} (h : s.applyAdmin R now i = .ok s') :
    SameConfig s s' ∧ s' = { s with
      config := s'.config
      upgradeAuthority := s'.upgradeAuthority
      peers := s'.peers
      inboxRateLimits := s'.inboxRateLimits
      outboxRateLimit := s'.outboxRateLimit } := by
  cases i with
  | setPeer owner chainId address limit tokenDecimals =>
      simp only [applyAdmin, setPeer, Except.bind_eq_ok, Except.pure_eq_ok] at h
      obtain ⟨_, -, _, -, _, -, rfl⟩ := h
      exact ⟨rfl, rfl⟩
  | setOutboundLimit owner limit =>
      simp only [applyAdmin, setOutboundLimit, Except.bind_eq_ok, Except.pure_eq_ok] at h
      obtain ⟨_, -, _, -, rfl⟩ := h
      exact ⟨rfl, rfl⟩
  | setInboundLimit owner limit chainId =>
      simp only [applyAdmin, setInboundLimit, Except.bind_eq_ok, Except.pure_eq_ok] at h
      obtain ⟨_, -, _, -, _, -, rfl⟩ := h
      exact ⟨rfl, rfl⟩
  | setPaused owner paused =>
      simp only [applyAdmin, setPaused, Except.bind_eq_ok, Except.pure_eq_ok] at h
      obtain ⟨_, -, rfl⟩ := h
      exact ⟨rfl, rfl⟩
  | transferOwnership owner newOwner =>
      simp only [applyAdmin, transferOwnership, Except.bind_eq_ok] at h
      obtain ⟨_, -, h⟩ := h
      split at h
      · simp only [Except.bind_eq_ok, Except.pure_eq_ok] at h
        obtain ⟨_, -, rfl⟩ := h
        exact ⟨rfl, rfl⟩
      · obtain rfl := Except.ok.inj h
        exact ⟨rfl, rfl⟩
  | transferOwnershipOneStepUnchecked owner newOwner =>
      simp only [applyAdmin, transferOwnershipOneStepUnchecked, Except.bind_eq_ok,
        Except.pure_eq_ok] at h
      obtain ⟨_, -, _, -, rfl⟩ := h
      exact ⟨rfl, rfl⟩
  | claimOwnership newOwner =>
      simp only [applyAdmin, claimOwnership, Except.bind_eq_ok, Except.pure_eq_ok] at h
      obtain ⟨_, -, _, -, rfl⟩ := h
      exact ⟨rfl, rfl⟩

/-- An instruction for the mint authority changes the nomination and the accounts of the token
program. -/
theorem applyTokenAuthority_spec {i : TokenAuthorityInstruction}
    (h : s.applyTokenAuthority R T i = .ok s') :
    s' = { s with pendingTokenAuthority := s'.pendingTokenAuthority, tokens := s'.tokens } := by
  cases i with
  | acceptTokenAuthority currentAuthority multisig =>
      simp only [applyTokenAuthority, acceptTokenAuthority, Except.bind_eq_ok,
        Except.pure_eq_ok] at h
      obtain ⟨_, -, _, -, _, -, rfl⟩ := h
      rfl
  | acceptTokenAuthorityFromMultisig currentMultisigAuthority remaining multisig =>
      simp only [applyTokenAuthority, acceptTokenAuthorityFromMultisig, Except.bind_eq_ok,
        Except.pure_eq_ok] at h
      obtain ⟨_, -, _, -, _, -, _, -, rfl⟩ := h
      rfl
  | setTokenAuthorityOneStepUnchecked owner multisig newAuthority =>
      simp only [applyTokenAuthority, setTokenAuthorityOneStepUnchecked, Except.bind_eq_ok,
        Except.pure_eq_ok] at h
      obtain ⟨_, -, _, -, rfl⟩ := h
      rfl
  | setTokenAuthority owner multisig newAuthority rentPayer =>
      simp only [applyTokenAuthority, setTokenAuthority, Except.bind_eq_ok,
        Except.pure_eq_ok] at h
      obtain ⟨_, -, _, -, rfl⟩ := h
      rfl
  | revertTokenAuthority multisig rentPayer owner =>
      simp only [applyTokenAuthority, revertTokenAuthority, Except.bind_eq_ok,
        Except.pure_eq_ok] at h
      obtain ⟨_, -, _, -, rfl⟩ := h
      rfl
  | claimTokenAuthority multisig rentPayer newAuthority =>
      simp only [applyTokenAuthority, claimTokenAuthority, Except.bind_eq_ok,
        Except.pure_eq_ok] at h
      obtain ⟨_, -, _, -, _, -, rfl⟩ := h
      rfl
  | claimTokenAuthorityToMultisig multisig rentPayer newMultisigAuthority remaining =>
      simp only [applyTokenAuthority, claimTokenAuthorityToMultisig, Except.bind_eq_ok,
        Except.pure_eq_ok] at h
      obtain ⟨_, -, _, -, _, -, _, -, _, -, rfl⟩ := h
      rfl

/-! ### Inbound transfers -/

/-- What a redemption checks: the transceiver that owns the message is registered and enabled, and
the message is for this program and from the peer of its chain. -/
structure Redeems (R : Runtime) (T : TokenProgram L) (s : State L) (t : Pubkey)
    (m : MessageAccount) (account : RegisteredTransceiver) (key : Bytes32) (amount : UInt64) :
    Prop where
  threshold_pos : 0 < s.config.threshold.toNat
  peer : ∃ peer, s.peers m.data.fromChain = some peer ∧
    peer.address = m.data.message.sourceNttManager
  toChain : m.data.message.nttManagerPayload.payload.toChain = s.config.chainId
  recipient : m.data.message.recipientNttManager = R.programId
  registered : s.registeredTransceivers t = some account
  enabled : account.id.toNat ∈ s.config.enabledTransceivers.positions
  owner : m.owner = account.transceiverAddress
  key : inboxKey R m.data = .ok key
  amount : m.data.message.nttManagerPayload.payload.amount.untrim
    (T.decimals s.tokens s.config.mint) = .ok amount

/-- A redemption votes for its message, and leaves it at that or approves it. -/
theorem redeem_spec {t : Pubkey} {m : MessageAccount} (h : s.redeem R T now t m = .ok s') :
    ∃ account key amount item votes, Redeems R T s t m account key amount ∧
      item = s.recordedItem key amount m.data.message.nttManagerPayload.payload.recipient ∧
      item.votes.set account.id true = .ok votes ∧
      ((votes.positions ∩ s.config.enabledTransceivers.positions).card < s.config.threshold.toNat ∧
          s' = s.setInboxItem key { item with votes } ∨
        s.config.threshold.toNat ≤
            (votes.positions ∩ s.config.enabledTransceivers.positions).card ∧
          item.releaseStatus = .notApproved ∧ ∃ limit s₁ releaseTimestamp,
            s.inboxRateLimits m.data.fromChain = some limit ∧
            s.consumeInbound now m.data.fromChain limit amount = .ok (s₁, releaseTimestamp) ∧
            s' = s₁.setInboxItem key
              { item with votes, releaseStatus := .releaseAfter releaseTimestamp }) := by
  simp only [redeem, Except.bind_eq_ok, require_eq_ok, loadAccount_eq_ok, mapError_eq_ok,
    enabledTransceiver_eq_ok] at h
  obtain ⟨_, hpos, peer, hpeer, _, hsource, _, hchain, _, hrecipient, account,
    ⟨hreg, henabled⟩, _, howner, key, hkey, limit, hlimit, amount, hamount, votes, hvotes, h⟩ := h
  refine ⟨account, key, amount, _, votes, ⟨UInt8.lt_iff_toNat_lt.mp hpos, ⟨peer, hpeer, hsource⟩,
    hchain, hrecipient, hreg, henabled, howner, hkey, hamount⟩, rfl, hvotes, ?_⟩
  rw [← Bitmap.toNat_countEnabledVotes]
  split at h
  · rename_i hlt
    exact .inl ⟨UInt8.lt_iff_toNat_lt.mp hlt, (Except.ok.inj h).symm⟩
  · rename_i hle
    simp only [Except.bind_eq_ok, mapError_eq_ok, Except.pure_eq_ok, Prod.exists] at h
    obtain ⟨s₁, releaseTimestamp, hconsume, item, hrelease, rfl⟩ := h
    rw [InboxItem.releaseAfter] at hrelease
    split at hrelease
    · cases hrelease
    · rename_i hstatus
      obtain rfl := Except.ok.inj hrelease
      exact .inr ⟨UInt8.le_iff_toNat_le.mp (UInt8.not_lt.mp hle), not_not.mp hstatus, limit, s₁,
        releaseTimestamp, hlimit,
        hconsume, rfl⟩

/-- An approval consumes the inbound limit of the chain and refills the outbound one, and the item
is for release at once; or it leaves the limits as they are, and the item is delayed. -/
theorem consumeInbound_spec {s₁ : State L} {chain : ChainId} {limit : RateLimitState}
    {amount : UInt64} {releaseTimestamp : Int64}
    (h : s.consumeInbound now chain limit amount = .ok (s₁, releaseTimestamp)) :
    ∃ limit' outboxRateLimit, s₁ = { s with
        inboxRateLimits := Function.update s.inboxRateLimits chain (some limit')
        outboxRateLimit } ∧
      ((limit.consumeOrDelay RATE_LIMIT_DURATION now amount = .ok (limit', .consumed now) ∧
          s.outboxRateLimit.refill RATE_LIMIT_DURATION now amount = .ok outboxRateLimit ∧
          releaseTimestamp = now) ∨
        (limit.consumeOrDelay RATE_LIMIT_DURATION now amount =
            .ok (limit, .delayed releaseTimestamp) ∧ limit' = limit ∧
          outboxRateLimit = s.outboxRateLimit ∧
          checkedI64 (now.toInt + RATE_LIMIT_DURATION.toInt) = .ok releaseTimestamp)) := by
  simp only [consumeInbound, Except.bind_eq_ok, mapError_eq_ok, Prod.exists] at h
  obtain ⟨limit', result, hconsume, h⟩ := h
  obtain rfl | ⟨timestamp, rfl, htimestamp, rfl⟩ := RateLimitState.consumeOrDelay_cases hconsume
  · simp only [Except.bind_eq_ok, mapError_eq_ok, Except.pure_eq_ok, Prod.mk.injEq] at h
    obtain ⟨outboxRateLimit, hrefill, rfl, rfl⟩ := h
    exact ⟨limit', outboxRateLimit, rfl, .inl ⟨hconsume, hrefill, rfl⟩⟩
  · obtain ⟨rfl, rfl⟩ := Prod.mk.inj (Except.ok.inj h)
    exact ⟨limit', s.outboxRateLimit, rfl, .inr ⟨hconsume, rfl, rfl, htimestamp⟩⟩

/-- What is found of an inbox item that is released: its time has come, and it was not released. -/
theorem releaseInboxItem_spec {key : Bytes32} {revert : Bool} {released : Option InboxItem}
    (h : s.releaseInboxItem now key revert = .ok released) :
    released = none ∨ ∃ item releaseTimestamp, s.inboxItems key = some item ∧
      item.releaseStatus = .releaseAfter releaseTimestamp ∧ releaseTimestamp ≤ now ∧
      released = some { item with releaseStatus := .released } := by
  simp only [releaseInboxItem, Except.bind_eq_ok, loadAccount_eq_ok, mapError_eq_ok,
    Prod.exists] at h
  obtain ⟨item, hitem, item', done, hrelease, h⟩ := h
  rw [InboxItem.tryRelease] at hrelease
  cases hdone : done with
  | false =>
      rw [hdone, if_neg (by decide)] at h
      split at h
      · split at h <;> cases h
      · exact .inl (Except.ok.inj h).symm
  | true =>
      rw [hdone, if_pos rfl] at h
      split at hrelease
      · have heq := (Prod.mk.inj (Except.ok.inj hrelease)).2
        rw [hdone] at heq
        cases heq
      · rename_i releaseTimestamp hstatus
        split at hrelease
        · have heq := (Prod.mk.inj (Except.ok.inj hrelease)).2
          rw [hdone] at heq
          cases heq
        · rename_i hle
          obtain ⟨rfl, -⟩ := Prod.mk.inj (Except.ok.inj hrelease)
          exact .inr ⟨item, releaseTimestamp, hitem, hstatus, Int64.not_lt.mp hle,
            (Except.ok.inj h).symm⟩
      · cases hrelease

/-- A release pays an item whose time has come, with what the token program does for that; or it
changes nothing. -/
theorem releaseInbound_spec {key : Bytes32} {multisig : Option Pubkey} {revert : Bool}
    {e : Option Event} {i : Instruction L}
    (hi : i = .releaseInboundMint key multisig revert ∨ i = .releaseInboundUnlock key revert)
    (h : s.apply R T now i = .ok (s', e)) :
    (s' = s ∧ e = none) ∨ ∃ item releaseTimestamp minted tokens,
      s.inboxItems key = some item ∧ item.releaseStatus = .releaseAfter releaseTimestamp ∧
      releaseTimestamp ≤ now ∧ s.config.paused = false ∧
      ((s.config.mode = .burning ∧
          s.mintToCustody R T s.tokens multisig item.amount = .ok minted) ∨
        (s.config.mode = .locking ∧ minted = s.tokens)) ∧
      s.payFromCustody R T minted { item with releaseStatus := .released } = .ok tokens ∧
      s' = { s with tokens }.setInboxItem key { item with releaseStatus := .released } ∧
      e = some (.paid key (T.associatedToken item.recipientAddress s.config.mint) item.amount) := by
  obtain rfl | rfl := hi
  · simp only [apply, releaseInboundMint, Except.bind_eq_ok, require_eq_ok, notPaused] at h
    obtain ⟨_, hpaused, _, hmode, _, -, released, hrelease, h⟩ := h
    obtain rfl | ⟨item, releaseTimestamp, hitem, hstatus, hle, rfl⟩ := releaseInboxItem_spec hrelease
    · obtain ⟨rfl, rfl⟩ := Prod.mk.inj (Except.ok.inj h)
      exact .inl ⟨rfl, rfl⟩
    · simp only [Except.bind_eq_ok, Except.pure_eq_ok, Prod.mk.injEq] at h
      obtain ⟨minted, hmint, tokens, hpay, rfl, rfl⟩ := h
      exact .inr ⟨item, releaseTimestamp, minted, tokens, hitem, hstatus, hle, hpaused,
        .inl ⟨hmode, hmint⟩, hpay, rfl, rfl⟩
  · simp only [apply, releaseInboundUnlock, Except.bind_eq_ok, require_eq_ok, notPaused] at h
    obtain ⟨_, hpaused, _, hmode, released, hrelease, h⟩ := h
    obtain rfl | ⟨item, releaseTimestamp, hitem, hstatus, hle, rfl⟩ := releaseInboxItem_spec hrelease
    · obtain ⟨rfl, rfl⟩ := Prod.mk.inj (Except.ok.inj h)
      exact .inl ⟨rfl, rfl⟩
    · simp only [Except.bind_eq_ok, Except.pure_eq_ok, Prod.mk.injEq] at h
      obtain ⟨tokens, hpay, rfl, rfl⟩ := h
      exact .inr ⟨item, releaseTimestamp, s.tokens, tokens, hitem, hstatus, hle, hpaused,
        .inr ⟨hmode, rfl⟩, hpay, rfl, rfl⟩

/-! ### Outbound transfers -/

/-- A transfer consumes the outbound limit and refills the inbound one of the recipient chain, and
is for release at once; or it leaves the limits as they are, and is queued. -/
theorem consumeOutbound_spec {limit inboxRateLimit outboxRateLimit : RateLimitState}
    {amount : UInt64} {shouldQueue : Bool} {releaseTimestamp : Int64}
    (h : s.consumeOutbound now limit amount shouldQueue =
      .ok (outboxRateLimit, inboxRateLimit, releaseTimestamp)) :
    (s.outboxRateLimit.consumeOrDelay RATE_LIMIT_DURATION now amount =
          .ok (outboxRateLimit, .consumed now) ∧
        limit.refill RATE_LIMIT_DURATION now amount = .ok inboxRateLimit ∧
        releaseTimestamp = now) ∨
      (s.outboxRateLimit.consumeOrDelay RATE_LIMIT_DURATION now amount =
          .ok (s.outboxRateLimit, .delayed releaseTimestamp) ∧
        outboxRateLimit = s.outboxRateLimit ∧ inboxRateLimit = limit ∧ shouldQueue = true ∧
        checkedI64 (now.toInt + RATE_LIMIT_DURATION.toInt) = .ok releaseTimestamp) := by
  simp only [consumeOutbound, Except.bind_eq_ok, mapError_eq_ok, Prod.exists] at h
  obtain ⟨outbox', result, hconsume, h⟩ := h
  obtain rfl | ⟨timestamp, rfl, htimestamp, rfl⟩ := RateLimitState.consumeOrDelay_cases hconsume
  · simp only [Except.bind_eq_ok, mapError_eq_ok, Except.pure_eq_ok, Prod.mk.injEq] at h
    obtain ⟨inbox', hrefill, rfl, rfl, rfl⟩ := h
    exact .inl ⟨hconsume, hrefill, rfl⟩
  · simp only [Except.bind_eq_ok, require_eq_ok, Except.pure_eq_ok, Prod.mk.injEq] at h
    obtain ⟨_, hqueue, rfl, rfl, rfl⟩ := h
    exact .inr ⟨hconsume, rfl, rfl, hqueue, htimestamp⟩

/-- What a transfer enters in the outbox. -/
def enteredItem (T : TokenProgram L) (s : State L) (source : Pubkey) (args : TransferArgs)
    (peer : NttManagerPeer) (trimmed : TrimmedAmount) (releaseTimestamp : Int64) : OutboxItem :=
  ⟨trimmed, T.owner s.tokens source, args.recipientChain, peer.address, args.recipientAddress,
    releaseTimestamp, .new⟩

/-- What a transfer checks and does: it takes the amount without dust from the sender into the
custody, and burns it there or finds that all of it arrived. -/
structure Transfers (R : Runtime) (T : TokenProgram L) (s : State L) (now : Int64)
    (source : Pubkey) (args : TransferArgs) (peer : NttManagerPeer) (trimmed : TrimmedAmount)
    (amount : UInt64) (tokens : L) : Prop where
  not_paused : s.config.paused = false
  registered : s.peers args.recipientChain = some peer
  removed : TrimmedAmount.removeDust args.amount (T.decimals s.tokens s.config.mint)
    peer.tokenDecimals = .ok (trimmed, amount)
  moved : ∃ moved, T.transferChecked s.tokens source s.config.mint s.config.custody
      (s.sessionAuthority R T source args) amount (T.decimals s.tokens s.config.mint) =
        .ok moved ∧
    ((s.config.mode = .burning ∧
        T.burn moved s.config.custody s.config.mint R.tokenAuthority amount = .ok tokens ∧
        T.amount tokens s.config.custody = T.amount s.tokens s.config.custody) ∨
      (s.config.mode = .locking ∧ tokens = moved ∧
        (T.amount tokens s.config.custody).toNat =
          (T.amount s.tokens s.config.custody).toNat + amount.toNat))

theorem transferAccounts_spec {source outboxItem : Pubkey} {args : TransferArgs}
    {peer : NttManagerPeer} {limit : RateLimitState}
    (h : s.transferAccounts T source outboxItem args = .ok (peer, limit)) :
    s.config.paused = false ∧ s.outboxItems outboxItem = none ∧
      s.inboxRateLimits args.recipientChain = some limit ∧
      s.peers args.recipientChain = some peer := by
  simp only [transferAccounts, notPaused, Except.bind_eq_ok, require_eq_ok, loadAccount_eq_ok,
    Except.pure_eq_ok, Prod.mk.injEq] at h
  obtain ⟨_, hpaused, _, -, _, -, _, hnone, _, hlimit, _, hpeer, rfl, rfl⟩ := h
  exact ⟨hpaused, hnone, hlimit, hpeer⟩

/-- A transfer moves the tokens, consumes the rate limits and enters its item. -/
theorem transfer_spec {source outboxItem : Pubkey} {args : TransferArgs} {e : Option Event}
    {i : Instruction L}
    (hi : i = .transferBurn source outboxItem args ∨ i = .transferLock source outboxItem args)
    (h : s.apply R T now i = .ok (s', e)) :
    ∃ peer trimmed amount tokens limit outboxRateLimit inboxRateLimit releaseTimestamp,
      Transfers R T s now source args peer trimmed amount tokens ∧
      s.outboxItems outboxItem = none ∧ s.inboxRateLimits args.recipientChain = some limit ∧
      s.consumeOutbound now limit amount args.shouldQueue =
        .ok (outboxRateLimit, inboxRateLimit, releaseTimestamp) ∧
      s' = { s with
        tokens, outboxRateLimit
        inboxRateLimits :=
          Function.update s.inboxRateLimits args.recipientChain (some inboxRateLimit)
        outboxItems := Function.update s.outboxItems outboxItem
          (some (s.enteredItem T source args peer trimmed releaseTimestamp)) } ∧
      e = some (.transferred outboxItem) := by
  obtain rfl | rfl := hi
  · simp only [apply, transferBurn, insertIntoOutbox, Except.bind_eq_ok, require_eq_ok,
      mapError_eq_ok, Except.pure_eq_ok, Prod.exists, Prod.mk.injEq] at h
    obtain ⟨_, hmode, peer, limit, haccounts, trimmed, amount, hdust, moved, hmove, tokens, hburn,
      _, hafter, _, ⟨outbox', inbox', releaseTimestamp, hconsume, rfl⟩, rfl, rfl⟩ := h
    obtain ⟨hpaused, hnone, hlimit, hpeer⟩ := transferAccounts_spec haccounts
    exact ⟨peer, trimmed, amount, tokens, limit, outbox', inbox', releaseTimestamp,
      ⟨hpaused, hpeer, hdust, moved, hmove, .inl ⟨hmode, hburn, hafter⟩⟩, hnone, hlimit, hconsume,
      rfl, rfl⟩
  · simp only [apply, transferLock, insertIntoOutbox, Except.bind_eq_ok, require_eq_ok,
      mapError_eq_ok, Prod.exists] at h
    obtain ⟨_, hmode, peer, limit, haccounts, trimmed, amount, hdust, moved, hmove, h⟩ := h
    split at h
    · cases h
    · rename_i hfits
      simp only [Except.bind_eq_ok, require_eq_ok, Except.pure_eq_ok, Prod.exists,
        Prod.mk.injEq] at h
      obtain ⟨_, hafter, _, ⟨outbox', inbox', releaseTimestamp, hconsume, rfl⟩, rfl, rfl⟩ := h
      obtain ⟨hpaused, hnone, hlimit, hpeer⟩ := transferAccounts_spec haccounts
      have hsum : (T.amount moved s.config.custody).toNat =
          (T.amount s.tokens s.config.custody).toNat + amount.toNat := by
        rw [hafter, UInt64.toNat_add, Nat.mod_eq_of_lt (not_le.mp hfits)]
      exact ⟨peer, trimmed, amount, moved, limit, outbox', inbox', releaseTimestamp,
        ⟨hpaused, hpeer, hdust, moved, hmove, .inr ⟨hmode, rfl, hsum⟩⟩, hnone, hlimit, hconsume,
        rfl, rfl⟩

/-- An enabled transceiver marks an item whose time has come, and that it has not released; or
nothing changes. -/
theorem markOutboxItemAsReleased_spec {outboxItem t : Pubkey} {released : Bool}
    (h : s.markOutboxItemAsReleased now outboxItem t = .ok (s', released)) :
    ∃ item account, s.outboxItems outboxItem = some item ∧
      s.registeredTransceivers t = some account ∧
      account.id.toNat ∈ s.config.enabledTransceivers.positions ∧
      account.id.toNat ∉ item.released.positions ∧ s.config.paused = false ∧
      ((released = false ∧ now < item.releaseTimestamp ∧ s' = s.setOutboxItem outboxItem item) ∨
        (released = true ∧ item.releaseTimestamp ≤ now ∧ ∃ bitmap,
          item.released.set account.id true = .ok bitmap ∧
          s' = s.setOutboxItem outboxItem { item with released := bitmap })) := by
  simp only [markOutboxItemAsReleased, notPaused, Except.bind_eq_ok, require_eq_ok,
    loadAccount_eq_ok, mapError_eq_ok, enabledTransceiver_eq_ok, Except.pure_eq_ok,
    Prod.exists, Prod.mk.injEq] at h
  obtain ⟨_, hpaused, item, hitem, account, ⟨hreg, henabled⟩, already, hget, _, rfl, item',
    released, hrelease, rfl, rfl⟩ := h
  have hnot : account.id.toNat ∉ item.released.positions := by
    intro hmem
    rw [Bitmap.get_eq_ok_true.mpr hmem] at hget
    cases hget
  refine ⟨item, account, hitem, hreg, henabled, hnot, hpaused, ?_⟩
  rw [OutboxItem.tryRelease] at hrelease
  split at hrelease
  · rename_i hlt
    obtain ⟨rfl, rfl⟩ := Prod.mk.inj (Except.ok.inj hrelease)
    exact .inl ⟨rfl, hlt, rfl⟩
  · rename_i hle
    simp only [hget, Except.bind_eq_ok, Except.ok.injEq] at hrelease
    obtain ⟨_, rfl, hrelease⟩ := hrelease
    simp only [Bool.false_eq_true, if_false, Except.bind_eq_ok, Except.pure_eq_ok,
      Prod.mk.injEq] at hrelease
    obtain ⟨bitmap, hset, rfl, rfl⟩ := hrelease
    exact .inr ⟨rfl, Int64.not_lt.mp hle, bitmap, hset, rfl⟩

/-- The mark that a transceiver makes when it releases an item, on its own or with a message. -/
theorem releaseOutbound_spec {outboxItem t : Pubkey} {e : Option Event} {i : Instruction L}
    (hi : i = .markOutboxItemAsReleased outboxItem t ∨
      ∃ revert, i = .releaseOutbound outboxItem t revert)
    (h : s.apply R T now i = .ok (s', e)) :
    ∃ released, s.markOutboxItemAsReleased now outboxItem t = .ok (s', released) ∧
      e = if released then some (.released outboxItem t) else none := by
  obtain rfl | ⟨revert, rfl⟩ := hi
  · simp only [apply, Except.bind_eq_ok, Except.pure_eq_ok, Prod.exists, Prod.mk.injEq] at h
    obtain ⟨_, released, hmark, rfl, rfl⟩ := h
    exact ⟨released, hmark, rfl⟩
  · simp only [apply, releaseOutbound, Except.bind_eq_ok, Prod.exists] at h
    obtain ⟨s₁, released, hmark, h⟩ := h
    cases released with
    | false =>
        rw [if_pos (by decide)] at h
        split at h
        · cases h
        · obtain ⟨rfl, rfl⟩ := Prod.mk.inj (Except.ok.inj h)
          exact ⟨false, hmark, rfl⟩
    | true =>
        simp only [Bool.not_true, Bool.false_eq_true, if_false, Except.bind_eq_ok,
          Except.pure_eq_ok, Prod.mk.injEq] at h
        obtain ⟨_, -, _, -, rfl, rfl⟩ := h
        exact ⟨true, hmark, rfl⟩

end State

/-- The last instruction of a run either fails and changes nothing, or leaves the state after the
run. -/
theorem Program.run_concat (R : Runtime) (T : TokenProgram L) (s₀ : State L)
    (calls : List (Int64 × Instruction L)) (o : Int64 × Instruction L) :
    let M := Program.machine R T
    (∃ e, M.run s₀ (calls ++ [o]) = M.run s₀ calls ∧ M.out (M.run s₀ calls) o = .error e) ∨
      ∃ e, (M.run s₀ calls).apply R T o.1 o.2 = .ok (M.run s₀ (calls ++ [o]), e) ∧
        M.out (M.run s₀ calls) o = .ok e :=
  Transducer.ofExcept_run_concat ..

end Ntt.Solana
