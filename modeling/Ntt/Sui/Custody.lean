import Ntt.Lib.Tally
import Ntt.Sui.Approval
import Ntt.Sui.Outbox

/-!
# The Custody of the Sui Manager

A ticket holds a coin of exactly the value of its trimmed amount, so that is what a transfer locks
or burns, and what it enters in the outbox. A release pays the value of the amount in its message,
and marks the item of the inbox. Nothing else takes funds in or pays them out, but the holder of
the treasury cap while the admin has taken it.

So in locking mode the balance is the value of all that was transferred less that of all that was
released. In burning mode it is zero, and transfers and releases have burned that much.

## Main results

* `System.SystemStep`: what a call does (`system_step`).
* `custody_balance`: inbox, outbox and funds along a run.
-/

namespace Ntt.Sui

/-- What can become of a status at a time. -/
inductive ReleaseStatus.Next (now : UInt64) : ReleaseStatus → ReleaseStatus → Prop
  | stay {status} : Next now status status
  | approve {t} : Next now .notApproved (.releaseAfter t)
  | release {t} : t ≤ now → Next now (.releaseAfter t) .released

/-- The value of an amount in some decimals; zero if it does not fit. -/
def TrimmedAmount.value (decimals : UInt8) (self : TrimmedAmount) : ℕ :=
  ((self.untrim decimals).toOption.getD 0).toNat

theorem TrimmedAmount.value_of_untrim {decimals : UInt8} {self : TrimmedAmount} {amount : UInt64}
    (h : self.untrim decimals = .ok amount) : self.value decimals = amount.toNat := by
  rw [value, h]
  rfl

/-! ### Calls to the manager -/

namespace State

variable {τ : Type} {s s' : State τ} {now : UInt64}

/-- The funds stay as they are. -/
def SameFunds (s s' : State τ) : Prop :=
  s'.mode = s.mode ∧ s'.balance = s.balance ∧ s'.treasuryCap = s.treasuryCap

/-- What a call does to the inbox and the funds: nothing, a vote, a vote that approves, or a
release. -/
inductive InboxStep (F : Framework) (s s' : State τ) (now : UInt64) (op : Op τ)
    (paid : Option (Bytes32 × UInt64)) : Prop
  | other : s'.inbox = s.inbox → SameFunds s s' → paid = none → InboxStep F s s' now op paid
  | vote (key item) : item.releaseStatus = s.status key →
      s'.inbox = Function.update s.inbox key (some item) → SameFunds s s' → paid = none →
      InboxStep F s s' now op paid
  | approve (key item) {t} : s.status key = .notApproved → item.releaseStatus = .releaseAfter t →
      s'.inbox = Function.update s.inbox key (some item) → SameFunds s s' → paid = none →
      InboxStep F s s' now op paid
  | release {fromChainId message decimals item t amount} :
      op = .release fromChainId message decimals →
      s.inbox ⟨fromChainId, message⟩ = some item → item.releaseStatus = .releaseAfter t →
      t ≤ now → message.payload.amount.untrim decimals = .ok amount →
      s'.inbox = Function.update s.inbox ⟨fromChainId, message⟩
        (some { item with releaseStatus := .released }) →
      s'.mode = s.mode → PaysOut F s s' amount → paid = some (message.payload.recipient, amount) →
      InboxStep F s s' now op paid

variable [DecidableEq τ] {F : Framework} {W : Wormhole}

theorem redeem_inboxStep {t : τ} {validatedMessage : ValidatedTransceiverMessage}
    {decimals : UInt8} {op : Op τ} (h : s.redeem W now t validatedMessage decimals = .ok s') :
    InboxStep F s s' now op none := by
  obtain ⟨key, s₁, -, hvote, hafter⟩ := redeem_spec h
  obtain ⟨info, votes, -, -, rfl⟩ := vote_spec hvote
  obtain rfl | ⟨s₂, item, releaseTimestamp, _, hitem, -, hstatus, -, hconsume, rfl⟩ := hafter
  · exact .vote key { s.itemFor key with votes } rfl rfl ⟨rfl, rfl, rfl⟩ rfl
  · have hframe := consumeInbound_spec hconsume
    -- the item that is approved is the one with the vote
    have hitem' : item = { s.itemFor key with votes } := by
      change Function.update s.inbox key (some { s.itemFor key with votes }) key = some item
        at hitem
      rw [Function.update_self] at hitem
      exact (Option.some.inj hitem).symm
    refine .approve key { item with releaseStatus := .releaseAfter releaseTimestamp } ?_ rfl ?_ ?_
      rfl
    · rw [hitem'] at hstatus
      exact hstatus
    · rw [hframe]
      change Function.update (Function.update s.inbox key _) key _ = _
      rw [Function.update_idem]
    · rw [hframe]
      exact ⟨rfl, rfl, rfl⟩

/-- What any call to the manager does to the inbox and the funds. -/
theorem inbox_step {op : Op τ} {paid : Option (Bytes32 × UInt64)}
    (h : s.apply F W now op = .ok (s', paid)) : InboxStep F s s' now op paid := by
  cases op with
  | redeem t validatedMessage decimals =>
      obtain ⟨hredeem, rfl⟩ := Except.return_eq_ok.mp h
      exact redeem_inboxStep hredeem
  | release fromChainId message decimals =>
      obtain ⟨⟨recipient, amount⟩, hrelease, rfl⟩ := apply_release_eq_ok.mp h
      obtain ⟨item, t, hitem, hstatus, hle, hamount, rfl, hpays, hframe⟩ := release_cases hrelease
      exact .release rfl hitem hstatus hle hamount (by rw [hframe]; rfl) (by rw [hframe]; rfl)
        hpays rfl
  | registerTransceiver t stateObjectId =>
      obtain ⟨hop, rfl⟩ := Except.return_eq_ok.mp h
      simp only [registerTransceiver, Except.bind_eq_ok, Except.pure_eq_ok] at hop
      obtain ⟨_, -, _, -, rfl⟩ := hop
      exact .other rfl ⟨rfl, rfl, rfl⟩ rfl
  | enableTransceiver id =>
      obtain ⟨hop, rfl⟩ := Except.return_eq_ok.mp h
      simp only [enableTransceiver, Except.bind_eq_ok, Except.pure_eq_ok] at hop
      obtain ⟨_, -, _, -, rfl⟩ := hop
      exact .other rfl ⟨rfl, rfl, rfl⟩ rfl
  | disableTransceiver id =>
      obtain ⟨hop, rfl⟩ := Except.return_eq_ok.mp h
      simp only [disableTransceiver, Except.bind_eq_ok, Except.pure_eq_ok] at hop
      obtain ⟨_, -, _, -, rfl⟩ := hop
      exact .other rfl ⟨rfl, rfl, rfl⟩ rfl
  | setThreshold n =>
      obtain ⟨hop, rfl⟩ := Except.return_eq_ok.mp h
      simp only [setThreshold, Except.bind_eq_ok, Except.pure_eq_ok] at hop
      obtain ⟨_, -, _, -, rfl⟩ := hop
      exact .other rfl ⟨rfl, rfl, rfl⟩ rfl
  | setPeer chain address tokenDecimals inboundLimit =>
      obtain ⟨hop, rfl⟩ := Except.return_eq_ok.mp h
      rw [setPeer] at hop
      split at hop
      · simp only [Except.bind_eq_ok, Except.pure_eq_ok] at hop
        obtain ⟨_, -, rfl⟩ := hop
        exact .other rfl ⟨rfl, rfl, rfl⟩ rfl
      · obtain rfl := Except.ok.inj hop
        exact .other rfl ⟨rfl, rfl, rfl⟩ rfl
  | pause =>
      obtain ⟨rfl, rfl⟩ := Prod.mk.inj (Except.ok.inj h)
      exact .other rfl ⟨rfl, rfl, rfl⟩ rfl
  | unpause =>
      obtain ⟨rfl, rfl⟩ := Prod.mk.inj (Except.ok.inj h)
      exact .other rfl ⟨rfl, rfl, rfl⟩ rfl

omit [DecidableEq τ]

theorem status_of_inbox (h : s'.inbox = s.inbox) (key : InboxKey) : s'.status key = s.status key :=
  congrArg InboxItem.releaseStatus (itemFor_of_inbox h key)

theorem status_update {key : InboxKey} {item : InboxItem}
    (h : s'.inbox = Function.update s.inbox key (some item)) (key' : InboxKey) :
    s'.status key' = if key' = key then item.releaseStatus else s.status key' := by
  have hitem : s'.itemFor key' = (s.setInboxItem key item).itemFor key' := itemFor_of_inbox h key'
  rw [status, hitem, itemFor_setInboxItem, apply_ite InboxItem.releaseStatus]
  rfl

theorem status_of_item {key : InboxKey} {item : InboxItem} (h : s.inbox key = some item) :
    s.status key = item.releaseStatus := by
  rw [status, itemFor, h]
  rfl

/-- **The life of an inbox item, in one call.** -/
theorem InboxStep.next {op : Op τ} {paid : Option (Bytes32 × UInt64)}
    (h : InboxStep F s s' now op paid) (key : InboxKey) :
    ReleaseStatus.Next now (s.status key) (s'.status key) := by
  cases h with
  | other hinbox =>
      rw [status_of_inbox hinbox]
      exact .stay
  | vote key₀ item hstatus hinbox =>
      rw [status_update hinbox]
      split
      · rename_i heq
        rw [hstatus, heq]
        exact .stay
      · exact .stay
  | approve key₀ item hnot hstatus hinbox =>
      rw [status_update hinbox]
      split
      · rename_i heq
        rw [heq, hnot, hstatus]
        exact .approve
      · exact .stay
  | release _ hitem hstatus hle _ hinbox =>
      rw [status_update hinbox]
      split
      · rename_i heq
        rw [heq, status_of_item hitem, hstatus]
        exact .release hle
      · exact .stay

/-- A call leaves what is released and the funds, or it releases one message and pays for it. -/
theorem InboxStep.released_iff {op : Op τ} {paid : Option (Bytes32 × UInt64)}
    (h : InboxStep F s s' now op paid) :
    ((∀ key, s'.status key = .released ↔ s.status key = .released) ∧ SameFunds s s' ∧
      paid = none) ∨
    ∃ key decimals amount, op = .release key.chainId key.message decimals ∧
      s.status key ≠ .released ∧
      (∀ key', s'.status key' = .released ↔ key' = key ∨ s.status key' = .released) ∧
      key.message.payload.amount.untrim decimals = .ok amount ∧ s'.mode = s.mode ∧
      PaysOut F s s' amount ∧ paid = some (key.message.payload.recipient, amount) := by
  cases h with
  | other hinbox hfunds hpaid =>
      exact .inl ⟨fun key => by rw [status_of_inbox hinbox], hfunds, hpaid⟩
  | vote key₀ item hstatus hinbox hfunds hpaid =>
      refine .inl ⟨fun key => ?_, hfunds, hpaid⟩
      rw [status_update hinbox]
      split
      · rename_i heq
        rw [hstatus, heq]
      · rfl
  | approve key₀ item hnot hstatus hinbox hfunds hpaid =>
      refine .inl ⟨fun key => ?_, hfunds, hpaid⟩
      rw [status_update hinbox]
      split
      · rename_i heq
        rw [hstatus, heq, hnot]
        exact iff_of_false ReleaseStatus.noConfusion ReleaseStatus.noConfusion
      · rfl
  | @release fromChainId message decimals item t amount hop hitem hstatus hle hamount hinbox hmode
      hpays hpaid =>
      refine .inr ⟨⟨fromChainId, message⟩, decimals, amount, hop, ?_, fun key => ?_, hamount, hmode,
        hpays, hpaid⟩
      · rw [status_of_item hitem, hstatus]
        exact ReleaseStatus.noConfusion
      · rw [status_update hinbox]
        split
        · rename_i heq
          exact ⟨fun _ => .inl heq, fun _ => rfl⟩
        · rename_i hne
          exact ⟨.inr, fun hor => hor.resolve_left hne⟩

end State

/-! ### All calls -/

/-- What the admin and the owner of the package do besides. -/
def Call.isAdmin {τ : Type} : Call τ → Bool
  | .setOutboundRateLimit _ | .takeTreasuryCap | .returnTreasuryCap _ | .commitUpgrade => true
  | _ => false

namespace System

variable {τ : Type} {s s' : System τ} {now : UInt64}

/-- What a call does: it is one to the manager, or it prepares or makes a transfer, sends a message,
or sets a limit, the version or the treasury cap. -/
inductive SystemStep [DecidableEq τ] (C : Coins) (W : Wormhole) (coinMeta : CoinMetadata)
    (s s' : System τ) (now : UInt64) (a : Answer τ) : Call τ → Prop
  | manager {op paid} :
      s.toState.apply C.toFramework W now (op.withMetadata coinMeta) = .ok (s'.toState, paid) →
      s'.outbox = s.outbox → s'.tickets = s.tickets → a = op.answer paid →
      SystemStep C W coinMeta s s' now a (.manager op)
  | prepare {coins recipientChain recipient payload shouldQueue ticket dust} :
      ticket.trimmedAmount.untrim coinMeta.decimals = .ok ticket.coins →
      coins.toNat = ticket.coins.toNat + dust.toNat →
      s' = { s with tickets := ticket :: s.tickets } → a = .prepared ticket dust →
      SystemStep C W coinMeta s s' now a
        (.prepareTransfer coins recipientChain recipient payload shouldQueue)
  | transfer {ticket sender key item} : ticket ∈ s.tickets → s.outbox key = none →
      item.released = .empty → item.data.payload.amount = ticket.trimmedAmount →
      State.TakesIn C s.toState s'.toState ticket.coins →
      s'.toState = { s.toState with
        balance := s'.balance
        treasuryCap := s'.treasuryCap
        peers := s'.peers
        outboundRateLimit := s'.outboundRateLimit } →
      s'.outbox = Function.update s.outbox key (some item) → s'.tickets = s.tickets.erase ticket →
      a = .transferred key → SystemStep C W coinMeta s s' now a (.transfer ticket sender)
  | send {t key item item' info message} : s.outbox key = some item →
      (t, info) ∈ s.transceivers.transceivers → item.releaseTimestamp ≤ now →
      info.id.toNat ∉ item.released.positions → item' = { item with released := item'.released } →
      item'.released.positions = insert info.id.toNat item.released.positions →
      s'.outbox = Function.update s.outbox key (some item') → s'.toState = s.toState →
      s'.tickets = s.tickets → a = .sent t key message →
      SystemStep C W coinMeta s s' now a (.createTransceiverMessage t key)
  | admin {call} : call.isAdmin = true →
      s' = { s with
        treasuryCap := s'.treasuryCap
        outboundRateLimit := s'.outboundRateLimit
        version := s'.version } → a = .nothing →
      (s'.treasuryCap = s.treasuryCap ∨ s'.treasuryCap = none ∨ s.treasuryCap = none) →
      SystemStep C W coinMeta s s' now a call

variable [DecidableEq τ] {C : Coins} {W : Wormhole} {coinMeta : CoinMetadata}

theorem system_step (hC : C.Lawful) {call : Call τ} {a : Answer τ}
    (h : s.apply C W coinMeta now call = .ok (s', a)) : SystemStep C W coinMeta s s' now a call := by
  cases call with
  | manager op =>
      simp only [apply, Except.bind_eq_ok, Except.pure_eq_ok, Prod.exists, Prod.mk.injEq] at h
      obtain ⟨state, paid, hop, rfl, rfl⟩ := h
      exact .manager hop rfl rfl rfl
  | prepareTransfer coins recipientChain recipient payload shouldQueue =>
      simp only [apply, Except.bind_eq_ok, Except.pure_eq_ok, Prod.exists, Prod.mk.injEq] at h
      obtain ⟨ticket, dust, hprepare, rfl, rfl⟩ := h
      obtain ⟨hvalue, hsum⟩ := State.prepareTransfer_spec hC hprepare
      exact .prepare hvalue hsum rfl rfl
  | transfer ticket sender =>
      simp only [apply, Except.bind_eq_ok, Except.pure_eq_ok, assert_eq_ok, Prod.exists,
        Prod.mk.injEq] at h
      obtain ⟨_, hmem, s₁, key, htransfer, rfl, rfl⟩ := h
      obtain ⟨item, hnone, hreleased, hamount, hfunds, hframe⟩ := transfer_spec htransfer
      refine .transfer hmem hnone hreleased hamount hfunds ?_ ?_ ?_ rfl
      all_goals rw [hframe]
  | createTransceiverMessage t messageId =>
      simp only [apply, Except.bind_eq_ok, Except.pure_eq_ok, Prod.exists, Prod.mk.injEq] at h
      obtain ⟨s₁, message, hcreate, rfl, rfl⟩ := h
      obtain ⟨item, item', info, hitem, hinfo, hle, hnot, hframe, hpositions, rfl⟩ :=
        createTransceiverMessage_spec hcreate
      exact .send hitem hinfo hle hnot hframe hpositions rfl rfl rfl rfl
  | setOutboundRateLimit limit =>
      simp only [apply, setOutboundRateLimit, Except.bind_eq_ok, Except.pure_eq_ok,
        Prod.mk.injEq] at h
      obtain ⟨_, ⟨_, -, rfl⟩, rfl, rfl⟩ := h
      exact .admin rfl rfl rfl (.inl rfl)
  | takeTreasuryCap =>
      obtain ⟨htake, rfl⟩ := Except.return_eq_ok.mp h
      rw [takeTreasuryCap] at htake
      split at htake
      · obtain rfl := Except.ok.inj htake
        exact .admin rfl rfl rfl (.inr (.inl rfl))
      · cases htake
  | returnTreasuryCap supply =>
      obtain ⟨hreturn, rfl⟩ := Except.return_eq_ok.mp h
      rw [returnTreasuryCap] at hreturn
      split at hreturn
      · cases hreturn
      · rename_i hnone
        obtain rfl := Except.ok.inj hreturn
        exact .admin rfl rfl rfl (.inr (.inr hnone))
  | commitUpgrade =>
      simp only [apply, commitUpgrade, Except.bind_eq_ok, Except.pure_eq_ok, Prod.mk.injEq] at h
      obtain ⟨_, ⟨_, -, rfl⟩, rfl, rfl⟩ := h
      exact .admin rfl rfl rfl (.inl rfl)

/-- A call keeps the registry in order, and the transceivers that are registered. -/
theorem SystemStep.registry {call : Call τ} {a : Answer τ}
    (h : SystemStep C W coinMeta s s' now a call) (hs : s.Governed) :
    s'.Governed ∧ ∀ e ∈ s.transceivers.transceivers, e ∈ s'.transceivers.transceivers := by
  have same (hsame : State.SameQuorum s.toState s'.toState) : s'.Governed ∧
      ∀ e ∈ s.transceivers.transceivers, e ∈ s'.transceivers.transceivers := by
    refine ⟨hsame.governed hs, fun e he => ?_⟩
    rwa [hsame.1]
  cases h with
  | manager happly => exact ⟨hs.apply happly, fun e he => State.registered_of_apply happly he⟩
  | prepare _ _ heq =>
      rw [heq] at same ⊢
      exact same ⟨rfl, rfl⟩
  | transfer _ _ _ _ _ heq =>
      rw [heq] at same ⊢
      exact same ⟨rfl, rfl⟩
  | send _ _ _ _ _ _ _ heq =>
      rw [heq] at same ⊢
      exact same ⟨rfl, rfl⟩
  | admin _ heq =>
      rw [heq] at same ⊢
      exact same ⟨rfl, rfl⟩

/-- Every ticket holds a coin of the value of its amount. -/
def TicketsSound (coinMeta : CoinMetadata) (s : System τ) : Prop :=
  ∀ ticket ∈ s.tickets, ticket.trimmedAmount.untrim coinMeta.decimals = .ok ticket.coins

theorem SystemStep.tickets {call : Call τ} {a : Answer τ}
    (h : SystemStep C W coinMeta s s' now a call) (hs : s.TicketsSound coinMeta) :
    s'.TicketsSound coinMeta := by
  intro ticket hticket
  cases h with
  | manager _ _ heq => exact hs ticket (by rwa [heq] at hticket)
  | prepare hvalue _ heq =>
      rw [heq] at hticket
      rcases List.mem_cons.mp hticket with rfl | hmem
      · exact hvalue
      · exact hs ticket hmem
  | transfer _ _ _ _ _ _ _ heq =>
      rw [heq] at hticket
      exact hs ticket (List.mem_of_mem_erase hticket)
  | send _ _ _ _ _ _ _ _ heq =>
      rw [heq] at hticket
      exact hs ticket hticket
  | admin _ heq =>
      rw [heq] at hticket
      exact hs ticket hticket

/-- What an item says apart from who has released it stays, and so do the marks. -/
def OutboxKept (item item' : OutboxItem) : Prop :=
  item' = { item with released := item'.released } ∧
    item.released.positions ⊆ item'.released.positions

/-- **The life of an outbox item, in one call.** -/
theorem SystemStep.kept {call : Call τ} {a : Answer τ}
    (h : SystemStep C W coinMeta s s' now a call) {key : Bytes32} {item : OutboxItem}
    (hitem : s.outbox key = some item) :
    ∃ item', s'.outbox key = some item' ∧ OutboxKept item item' := by
  cases h with
  | manager _ heq => exact ⟨item, by rw [heq, hitem], rfl, subset_rfl⟩
  | prepare _ _ heq => exact ⟨item, by rw [heq, ← hitem], rfl, subset_rfl⟩
  | @transfer _ _ key₀ _ _ hnone _ _ _ _ heq =>
      have hne : key ≠ key₀ := by
        rintro rfl
        rw [hnone] at hitem
        cases hitem
      exact ⟨item, by rw [heq, Function.update_of_ne hne, hitem], rfl, subset_rfl⟩
  | @send t key₀ item₀ item' info message hitem₀ _ _ _ hframe hpositions heq =>
      rcases eq_or_ne key key₀ with rfl | hne
      · rw [hitem] at hitem₀
        obtain rfl := Option.some.inj hitem₀
        refine ⟨item', by rw [heq, Function.update_self], hframe, ?_⟩
        rw [hpositions]
        exact Finset.subset_insert _ _
      · exact ⟨item, by rw [heq, Function.update_of_ne hne, hitem], rfl, subset_rfl⟩
  | admin _ heq => exact ⟨item, by rw [heq, ← hitem], rfl, subset_rfl⟩

/-! ### Funds -/

/-- The supply under the treasury cap. -/
def supply (s : System τ) : ℕ := (s.treasuryCap.getD 0).toNat

/-- What a transfer or a release burns, less what it mints. -/
def burned (s s' : System τ) : Answer τ → ℤ
  | .transferred _ | .paid .. => s.supply - s'.supply
  | _ => 0

/-- The value of what a transfer entered. -/
def entryValue (decimals : UInt8) (s : System τ) (key : Bytes32) : ℕ :=
  ((s.outbox key).map fun item => item.data.payload.amount.value decimals).getD 0

/-- The value of the amount in a message. -/
def releaseValue (decimals : UInt8) (key : InboxKey) : ℕ :=
  key.message.payload.amount.value decimals

/-- What was transferred in all, and what was released in all. -/
def Books (decimals : UInt8) (s : System τ) (transferred released : ℕ) : Prop :=
  Tally (fun key => (s.outbox key).isSome) (s.entryValue decimals) transferred ∧
    Tally (fun key => s.status key = .released) (releaseValue decimals) released

/-- Funds change by what is transferred less what is released. -/
def FundsMove (s s' : System τ) (a : Answer τ) (transferred released : ℤ) : Prop :=
  s'.mode = s.mode ∧
    (s.mode = .locking → (s'.balance.toNat : ℤ) - s.balance.toNat = transferred - released) ∧
    (s.mode = .burning → s'.balance = s.balance ∧ s.burned s' a = transferred - released)

omit [DecidableEq τ] in
theorem FundsMove.none {a : Answer τ} (hmode : s'.mode = s.mode) (hbalance : s'.balance = s.balance)
    (ha : s.burned s' a = 0) (transferred released : ℤ) :
    FundsMove s s' a (transferred - transferred) (released - released) := by
  refine ⟨hmode, fun _ => ?_, fun _ => ⟨hbalance, ?_⟩⟩
  · rw [hbalance]
    omega
  · rw [ha]
    omega

omit [DecidableEq τ] in
theorem FundsMove.takesIn (hC : C.Lawful) {amount : UInt64} {key : Bytes32}
    (h : State.TakesIn C s.toState s'.toState amount) (hmode : s'.mode = s.mode)
    (transferred released : ℤ) : FundsMove s s' (.transferred key)
      (transferred + amount.toNat - transferred) (released - released) := by
  refine ⟨hmode, fun hlocking => ?_, fun hburning => ?_⟩
  · rcases h with ⟨-, hput, -⟩ | ⟨hburning, -⟩
    · have := hC.put hput
      omega
    · rw [hlocking] at hburning
      cases hburning
  · rcases h with ⟨hlocking, -⟩ | ⟨-, hbalance, before, after, hbefore, hburn, hafter⟩
    · rw [hburning] at hlocking
      cases hlocking
    · refine ⟨hbalance, ?_⟩
      have := hC.burn hburn
      rw [burned, supply, supply, hbefore, hafter, Option.getD_some, Option.getD_some]
      omega

omit [DecidableEq τ] in
theorem FundsMove.paysOut (hC : C.Lawful) {amount : UInt64} {key : InboxKey} {recipient : Bytes32}
    (h : State.PaysOut C.toFramework s.toState s'.toState amount) (hmode : s'.mode = s.mode)
    (transferred released : ℤ) : FundsMove s s' (.paid key recipient amount)
      (transferred - transferred) (released + amount.toNat - released) := by
  refine ⟨hmode, fun hlocking => ?_, fun hburning => ?_⟩
  · rcases h with ⟨-, htake, -⟩ | ⟨hburning, -⟩
    · have := hC.take htake
      omega
    · rw [hlocking] at hburning
      cases hburning
  · rcases h with ⟨hlocking, -⟩ | ⟨-, hbalance, before, after, hbefore, hmint, hafter⟩
    · rw [hburning] at hlocking
      cases hlocking
    · refine ⟨hbalance, ?_⟩
      have := hC.mint hmint
      rw [burned, supply, supply, hbefore, hafter, Option.getD_some, Option.getD_some]
      omega

section Books

variable {decimals : UInt8} {transferred released : ℕ}

omit [DecidableEq τ] in
/-- The books stay where entries keep their amounts and nothing is released. -/
theorem Books.of_same (h : s.Books decimals transferred released)
    (hentries : ∀ key, (s'.outbox key).map (fun item => item.data.payload.amount) =
      (s.outbox key).map fun item => item.data.payload.amount)
    (hstatus : ∀ key, s'.status key = .released ↔ s.status key = .released) :
    s'.Books decimals transferred released := by
  refine ⟨h.1.congr (fun key => ?_) fun key _ => ?_, h.2.congr hstatus fun _ _ => rfl⟩
  · have hsome := congrArg Option.isSome (hentries key)
    simp only [Option.isSome_map] at hsome
    rw [hsome]
  · have hvalue := congrArg (Option.map (TrimmedAmount.value decimals)) (hentries key)
    simp only [Option.map_map] at hvalue
    exact congrArg (fun v => v.getD 0) hvalue

omit [DecidableEq τ] in
/-- A new entry adds its value to what was transferred. -/
theorem Books.enter (h : s.Books decimals transferred released) {key : Bytes32}
    {item : OutboxItem} (hnone : s.outbox key = none)
    (hentry : s'.outbox = Function.update s.outbox key (some item))
    (hstatus : ∀ key, s'.status key = .released ↔ s.status key = .released) :
    s'.Books decimals (transferred + item.data.payload.amount.value decimals) released := by
  have hvalue : s'.entryValue decimals key = item.data.payload.amount.value decimals := by
    rw [entryValue, hentry, Function.update_self]
    rfl
  refine ⟨?_, h.2.congr hstatus fun _ _ => rfl⟩
  rw [← hvalue]
  refine h.1.insert (by rw [hnone]; decide) (fun key' => ?_) fun key' hsome => ?_
  · rw [hentry]
    rcases eq_or_ne key' key with rfl | hne
    · rw [Function.update_self]
      exact ⟨fun _ => .inl rfl, fun _ => rfl⟩
    · rw [Function.update_of_ne hne]
      exact ⟨.inr, fun hor => hor.resolve_left hne⟩
  · have hne : key' ≠ key := by
      rintro rfl
      rw [hnone] at hsome
      cases hsome
    rw [entryValue, hentry, Function.update_of_ne hne, entryValue]

omit [DecidableEq τ] in
/-- A release adds its value to what was released. -/
theorem Books.release (h : s.Books decimals transferred released) {key : InboxKey}
    (houtbox : s'.outbox = s.outbox) (hnot : s.status key ≠ .released)
    (hstatus : ∀ key', s'.status key' = .released ↔ key' = key ∨ s.status key' = .released) :
    s'.Books decimals transferred (released + releaseValue decimals key) := by
  refine ⟨?_, h.2.insert hnot hstatus fun _ _ => rfl⟩
  refine h.1.congr (fun key' => by rw [houtbox]) fun key' _ => ?_
  rw [entryValue, houtbox, entryValue]

end Books

omit [DecidableEq τ] in
theorem release_of_withMetadata {op : Op τ} {key : InboxKey} {decimals : UInt8}
    (h : op.withMetadata coinMeta = .release key.chainId key.message decimals) :
    decimals = coinMeta.decimals ∧ ∀ recipient amount,
      op.answer (some (recipient, amount)) = .paid key recipient amount := by
  cases op with
  | release fromChainId message _ =>
      injection h with hchain hmessage hdecimals
      subst hchain hmessage
      exact ⟨hdecimals.symm, fun _ _ => rfl⟩
  | _ => cases h

omit [DecidableEq τ] in
theorem answer_none (op : Op τ) : op.answer none = .nothing := by
  cases op <;> rfl

/-- A call keeps the books, and the funds move by what they say. -/
theorem SystemStep.books (hC : C.Lawful) {call : Call τ} {a : Answer τ}
    (h : SystemStep C W coinMeta s s' now a call) (hs : s.TicketsSound coinMeta)
    {transferred released : ℕ} (hbooks : s.Books coinMeta.decimals transferred released) :
    ∃ transferred' released' : ℕ, s'.Books coinMeta.decimals transferred' released' ∧
      FundsMove s s' a (transferred' - transferred) (released' - released) := by
  cases h with
  | @manager op paid happly houtbox _ ha =>
      obtain ⟨hstatus, ⟨hmode, hbalance, -⟩, rfl⟩ | ⟨key, decimals, amount, hop, hnot, hstatus,
        hamount, hmode, hpays, rfl⟩ := (State.inbox_step happly).released_iff
      · refine ⟨transferred, released, hbooks.of_same (fun key => by rw [houtbox]) hstatus, ?_⟩
        rw [answer_none] at ha
        exact .none hmode hbalance (by rw [ha]; rfl) _ _
      · obtain ⟨rfl, hanswer⟩ := release_of_withMetadata hop
        rw [hanswer] at ha
        have hvalue : releaseValue coinMeta.decimals key = amount.toNat :=
          TrimmedAmount.value_of_untrim hamount
        refine ⟨transferred, _, hbooks.release houtbox hnot hstatus, ?_⟩
        rw [ha, hvalue, Nat.cast_add]
        exact .paysOut hC hpays hmode _ _
  | prepare _ _ heq ha =>
      refine ⟨transferred, released, hbooks.of_same (fun key => by rw [heq]) (fun key => ?_), ?_⟩
      · rw [heq]
      · rw [ha]
        exact .none (by rw [heq]) (by rw [heq]) rfl _ _
  | @transfer ticket sender key item hmem hnone _ hamount hfunds heq houtbox _ ha =>
      have hmode : s'.mode = s.mode := by rw [heq]
      have hvalue : item.data.payload.amount.value coinMeta.decimals = ticket.coins.toNat := by
        rw [hamount]
        exact TrimmedAmount.value_of_untrim (hs ticket hmem)
      have hstatus (key : InboxKey) : s'.status key = .released ↔ s.status key = .released := by
        rw [heq]
        rfl
      refine ⟨_, released, hbooks.enter hnone houtbox hstatus, ?_⟩
      rw [ha, hvalue, Nat.cast_add]
      exact .takesIn hC hfunds hmode _ _
  | @send t key item item' info message hitem _ _ _ hframe _ houtbox hstate _ ha =>
      refine ⟨transferred, released, hbooks.of_same (fun key' => ?_) (fun key' => ?_), ?_⟩
      · rw [houtbox]
        rcases eq_or_ne key' key with rfl | hne
        · rw [Function.update_self, hitem, hframe]
          rfl
        · rw [Function.update_of_ne hne]
      · rw [hstate]
      · rw [ha]
        exact .none (by rw [hstate]) (by rw [hstate]) rfl _ _
  | admin _ heq ha =>
      refine ⟨transferred, released, hbooks.of_same (fun key => by rw [heq]) (fun key => ?_), ?_⟩
      · rw [heq]
        rfl
      · rw [ha]
        exact .none (by rw [heq]) (by rw [heq]) rfl _ _

/-- Everything that was entered or released has a value. -/
def Valued (decimals : UInt8) (s : System τ) : Prop :=
  (∀ key item, s.outbox key = some item →
    ∃ amount, item.data.payload.amount.untrim decimals = .ok amount) ∧
  ∀ key, s.status key = .released →
    ∃ amount, key.message.payload.amount.untrim decimals = .ok amount

theorem SystemStep.valued {call : Call τ} {a : Answer τ}
    (h : SystemStep C W coinMeta s s' now a call) (hs : s.TicketsSound coinMeta)
    (hv : s.Valued coinMeta.decimals) : s'.Valued coinMeta.decimals := by
  obtain ⟨hentries, hreleased⟩ := hv
  cases h with
  | @manager op _ happly houtbox =>
      refine ⟨fun key item hitem => hentries key item (by rwa [houtbox] at hitem), fun key => ?_⟩
      intro hkey
      obtain ⟨hstatus, -⟩ | ⟨key₀, _, amount, hop, -, hstatus, hamount, -⟩ :=
        (State.inbox_step happly).released_iff
      · exact hreleased key ((hstatus key).mp hkey)
      · rcases (hstatus key).mp hkey with rfl | hbefore
        · obtain ⟨rfl, -⟩ := release_of_withMetadata hop
          exact ⟨amount, hamount⟩
        · exact hreleased key hbefore
  | prepare _ _ heq =>
      rw [heq]
      exact ⟨hentries, hreleased⟩
  | @transfer ticket _ key₀ item₀ hmem hnone _ hamount _ heq houtbox =>
      refine ⟨fun key item hitem => ?_, fun key hkey => hreleased key (by rwa [heq] at hkey)⟩
      rw [houtbox] at hitem
      rcases eq_or_ne key key₀ with rfl | hne
      · rw [Function.update_self] at hitem
        obtain rfl := Option.some.inj hitem
        rw [hamount]
        exact ⟨_, hs ticket hmem⟩
      · rw [Function.update_of_ne hne] at hitem
        exact hentries key item hitem
  | @send t key₀ item₀ item' info message hitem₀ _ _ _ hframe _ houtbox hstate =>
      refine ⟨fun key item hitem => ?_, fun key hkey => hreleased key (by rwa [hstate] at hkey)⟩
      rw [houtbox] at hitem
      rcases eq_or_ne key key₀ with rfl | hne
      · rw [Function.update_self] at hitem
        obtain rfl := Option.some.inj hitem
        rw [hframe]
        exact hentries key item₀ hitem₀
      · rw [Function.update_of_ne hne] at hitem
        exact hentries key item hitem
  | admin _ heq =>
      rw [heq]
      exact ⟨hentries, hreleased⟩

/-! ### Runs -/

/-- What a message for a transceiver did: the transceiver is registered and had not released the
item, whose time has come, and now it has. -/
structure Sent (s s' : System τ) (now : UInt64) (key : Bytes32) (t : τ) : Prop where
  marks : ∃ item info item', s.outbox key = some item ∧
    (t, info) ∈ s.transceivers.transceivers ∧ item.releaseTimestamp ≤ now ∧
    info.id.toNat ∉ item.released.positions ∧ s'.outbox key = some item' ∧
    item'.released.positions = insert info.id.toNat item.released.positions

/-- What a call does to inbox, outbox and funds. -/
structure CustodyStep (C : Coins) (coinMeta : CoinMetadata) (o : UInt64 × Call τ)
    (s s' : System τ) (answer : Except Abort (Answer τ)) : Prop where
  failed : ∀ e, answer = .error e → s' = s
  next : ∀ key, ReleaseStatus.Next o.1 (s.status key) (s'.status key)
  released : ∀ key, s.status key ≠ .released → s'.status key = .released → ∃ amount,
    key.message.payload.amount.untrim coinMeta.decimals = .ok amount ∧
    State.PaysOut C.toFramework s.toState s'.toState amount ∧
    answer = .ok (.paid key key.message.payload.recipient amount)
  paid : ∀ key recipient amount, answer = .ok (.paid key recipient amount) →
    s.status key ≠ .released ∧ s'.status key = .released
  prepared : ∀ coins recipientChain recipient payload shouldQueue,
    o.2 = .prepareTransfer coins recipientChain recipient payload shouldQueue →
    ∀ a, answer = .ok a → ∃ ticket dust, a = .prepared ticket dust ∧
      ticket.trimmedAmount.untrim coinMeta.decimals = .ok ticket.coins ∧
      coins.toNat = ticket.coins.toNat + dust.toNat
  transferred : ∀ ticket sender, o.2 = .transfer ticket sender → ∀ a, answer = .ok a →
    ∃ key item, a = .transferred key ∧ s.outbox key = none ∧ s'.outbox key = some item ∧
      item.released.positions = ∅ ∧ item.data.payload.amount = ticket.trimmedAmount ∧
      ticket.trimmedAmount.untrim coinMeta.decimals = .ok ticket.coins ∧
      State.TakesIn C s.toState s'.toState ticket.coins
  entered : ∀ key, s.outbox key = none → s'.outbox key ≠ none → answer = .ok (.transferred key)
  kept : ∀ key item, s.outbox key = some item →
    ∃ item', s'.outbox key = some item' ∧ OutboxKept item item'
  sent : ∀ t key message, answer = .ok (.sent t key message) → Sent s s' o.1 key t
  /-- The treasury cap may be taken, and another one returned. -/
  funds : (∀ key, answer ≠ .ok (.transferred key)) →
    (∀ key recipient amount, answer ≠ .ok (.paid key recipient amount)) →
    s'.balance = s.balance ∧ (s'.treasuryCap = s.treasuryCap ∨ s'.treasuryCap = none ∨
      s.treasuryCap = none)

omit [DecidableEq τ] in
/-- A call that fails does none of it. -/
theorem CustodyStep.of_error {o : UInt64 × Call τ} {e : Abort} :
    CustodyStep C coinMeta o s s (.error e : Except Abort (Answer τ)) where
  failed _ _ := rfl
  next _ := .stay
  released _ hne he := absurd he hne
  paid := by rintro _ _ _ ⟨⟩
  prepared := by rintro _ _ _ _ _ _ _ ⟨⟩
  transferred := by rintro _ _ _ _ ⟨⟩
  entered _ hnone hsome := absurd hnone hsome
  kept _ item hitem := ⟨item, hitem, rfl, subset_rfl⟩
  sent := by rintro _ _ _ ⟨⟩
  funds _ _ := ⟨rfl, .inl rfl⟩

/-- Only a call to the manager changes a status or pays. -/
theorem SystemStep.manager_or_same {call : Call τ} {a : Answer τ}
    (h : SystemStep C W coinMeta s s' now a call) :
    (∃ (op : Op τ) (paid : _), s.toState.apply C.toFramework W now (op.withMetadata coinMeta) =
      .ok (s'.toState, paid) ∧ a = op.answer paid) ∨
    (∀ key, s'.status key = s.status key) ∧
      ∀ key recipient amount, a ≠ .paid key recipient amount := by
  cases h with
  | manager happly _ _ ha => exact .inl ⟨_, _, happly, ha⟩
  | prepare _ _ heq ha =>
      refine .inr ⟨fun key => by rw [heq], ?_⟩
      rw [ha]
      rintro _ _ _ ⟨⟩
  | transfer _ _ _ _ _ heq _ _ ha =>
      refine .inr ⟨fun key => by rw [heq]; rfl, ?_⟩
      rw [ha]
      rintro _ _ _ ⟨⟩
  | send _ _ _ _ _ _ _ heq _ ha =>
      refine .inr ⟨fun key => by rw [heq], ?_⟩
      rw [ha]
      rintro _ _ _ ⟨⟩
  | admin _ heq ha =>
      refine .inr ⟨fun key => by rw [heq]; rfl, ?_⟩
      rw [ha]
      rintro _ _ _ ⟨⟩

theorem SystemStep.next {call : Call τ} {a : Answer τ}
    (h : SystemStep C W coinMeta s s' now a call) (key : InboxKey) :
    ReleaseStatus.Next now (s.status key) (s'.status key) := by
  obtain ⟨op, paid, happly, -⟩ | ⟨hsame, -⟩ := h.manager_or_same
  · exact (State.inbox_step happly).next key
  · rw [hsame key]
    exact .stay

/-- What becomes released is what is paid. -/
theorem SystemStep.released {call : Call τ} {a : Answer τ}
    (h : SystemStep C W coinMeta s s' now a call) {key : InboxKey}
    (hne : s.status key ≠ .released) (hkey : s'.status key = .released) :
    ∃ amount, key.message.payload.amount.untrim coinMeta.decimals = .ok amount ∧
      State.PaysOut C.toFramework s.toState s'.toState amount ∧
      a = .paid key key.message.payload.recipient amount := by
  obtain ⟨op, paid, happly, ha⟩ | ⟨hsame, -⟩ := h.manager_or_same
  · obtain ⟨hstatus, -⟩ | ⟨key₀, _, amount, hop, -, hstatus, hamount, -, hpays, rfl⟩ :=
      (State.inbox_step happly).released_iff
    · exact absurd ((hstatus key).mp hkey) hne
    · obtain rfl : key = key₀ := ((hstatus key).mp hkey).resolve_right hne
      obtain ⟨rfl, hanswer⟩ := release_of_withMetadata hop
      exact ⟨amount, hamount, hpays, ha.trans (hanswer _ _)⟩
  · rw [hsame key] at hkey
    exact absurd hkey hne

/-- What is paid becomes released. -/
theorem SystemStep.paid {call : Call τ} {key : InboxKey} {recipient : Bytes32} {amount : UInt64}
    (h : SystemStep C W coinMeta s s' now (.paid key recipient amount) call) :
    s.status key ≠ .released ∧ s'.status key = .released := by
  obtain ⟨op, paid, happly, ha⟩ | ⟨-, hnot⟩ := h.manager_or_same
  · obtain ⟨-, -, rfl⟩ | ⟨key₀, _, amount', hop, hbefore, hstatus, -, -, -, rfl⟩ :=
      (State.inbox_step happly).released_iff
    · rw [answer_none] at ha
      cases ha
    · obtain ⟨-, hanswer⟩ := release_of_withMetadata hop
      rw [hanswer] at ha
      injection ha with hkey
      subst hkey
      exact ⟨hbefore, (hstatus key).mpr (.inl rfl)⟩
  · exact absurd rfl (hnot key recipient amount)

/-- An entry in the outbox is the transfer that is answered. -/
theorem SystemStep.entered {call : Call τ} {a : Answer τ}
    (h : SystemStep C W coinMeta s s' now a call) {key : Bytes32} (hnone : s.outbox key = none)
    (hsome : s'.outbox key ≠ none) : a = .transferred key := by
  cases h with
  | manager _ heq =>
      rw [heq] at hsome
      exact absurd hnone hsome
  | prepare _ _ heq =>
      rw [heq] at hsome
      exact absurd hnone hsome
  | @transfer _ _ key₀ _ _ _ _ _ _ _ heq _ ha =>
      rcases eq_or_ne key key₀ with rfl | hne
      · exact ha
      · rw [heq, Function.update_of_ne hne] at hsome
        exact absurd hnone hsome
  | @send t key₀ item₀ _ _ _ hitem _ _ _ _ _ heq =>
      have hne : key ≠ key₀ := by
        rintro rfl
        rw [hnone] at hitem
        cases hitem
      rw [heq, Function.update_of_ne hne] at hsome
      exact absurd hnone hsome
  | admin _ heq =>
      rw [heq] at hsome
      exact absurd hnone hsome

theorem SystemStep.sent {call : Call τ} {t : τ} {key : Bytes32} {message : OutboundMessage}
    (h : SystemStep C W coinMeta s s' now (.sent t key message) call) : Sent s s' now key t := by
  cases h with
  | manager happly _ _ ha =>
      obtain ⟨-, -, rfl⟩ | ⟨key₀, _, _, hop, -, -, -, -, -, rfl⟩ :=
        (State.inbox_step happly).released_iff
      · rw [answer_none] at ha
        cases ha
      · rw [(release_of_withMetadata hop).2] at ha
        cases ha
  | prepare _ _ _ ha => cases ha
  | transfer _ _ _ _ _ _ _ _ ha => cases ha
  | @send t₀ key₀ item item' info _ hitem hinfo hle hnot _ hpositions houtbox _ _ ha =>
      injection ha with ht hkey
      subst ht hkey
      refine ⟨item, info, item', hitem, hinfo, hle, hnot, ?_, hpositions⟩
      rw [houtbox, Function.update_self]
  | admin _ _ ha => cases ha

/-- Only transfers and releases, and the admin with the treasury cap, change the funds. -/
theorem SystemStep.funds {call : Call τ} {a : Answer τ}
    (h : SystemStep C W coinMeta s s' now a call) (htransferred : ∀ key, a ≠ .transferred key)
    (hpaid : ∀ key recipient amount, a ≠ .paid key recipient amount) :
    s'.balance = s.balance ∧ (s'.treasuryCap = s.treasuryCap ∨ s'.treasuryCap = none ∨
      s.treasuryCap = none) := by
  cases h with
  | manager happly _ _ ha =>
      obtain ⟨-, ⟨-, hbalance, hcap⟩, -⟩ | ⟨key, _, amount, hop, -, -, -, -, -, rfl⟩ :=
        (State.inbox_step happly).released_iff
      · exact ⟨hbalance, .inl hcap⟩
      · rw [(release_of_withMetadata hop).2] at ha
        exact absurd ha (hpaid _ _ _)
  | prepare _ _ heq =>
      rw [heq]
      exact ⟨rfl, .inl rfl⟩
  | transfer _ _ _ _ _ _ _ _ ha => exact absurd ha (htransferred _)
  | send _ _ _ _ _ _ _ heq =>
      rw [heq]
      exact ⟨rfl, .inl rfl⟩
  | admin _ heq _ hcap =>
      refine ⟨by rw [heq], hcap⟩

theorem SystemStep.custody {o : UInt64 × Call τ} {a : Answer τ}
    (h : SystemStep C W coinMeta s s' o.1 a o.2) (hs : s.TicketsSound coinMeta) :
    CustodyStep C coinMeta o s s' (.ok a) where
  failed := by rintro _ ⟨⟩
  next := h.next
  released key hne hkey := by
    obtain ⟨amount, hamount, hpays, rfl⟩ := h.released hne hkey
    exact ⟨amount, hamount, hpays, rfl⟩
  paid key recipient amount ha := by
    obtain rfl := Except.ok.inj ha
    exact h.paid
  prepared coins recipientChain recipient payload shouldQueue ho a' ha := by
    obtain rfl := Except.ok.inj ha
    rw [ho] at h
    cases h with
    | prepare hvalue hsum _ ha => exact ⟨_, _, ha, hvalue, hsum⟩
    | admin hadmin => cases hadmin
  transferred ticket sender ho a' ha := by
    obtain rfl := Except.ok.inj ha
    rw [ho] at h
    cases h with
    | @transfer _ _ key item hmem hnone hreleased hamount hfunds _ houtbox _ ha =>
        refine ⟨key, item, ha, hnone, by rw [houtbox, Function.update_self], ?_, hamount,
          hs ticket hmem, hfunds⟩
        rw [hreleased]
        rfl
    | admin hadmin => cases hadmin
  entered key hnone hsome := by rw [h.entered hnone hsome]
  kept key item hitem := h.kept hitem
  sent t key message ha := by
    obtain rfl := Except.ok.inj ha
    exact h.sent
  funds htransferred hpaid :=
    h.funds (fun key ha => htransferred key (congrArg Except.ok ha))
      fun key recipient amount ha => hpaid key recipient amount (congrArg Except.ok ha)

/-- What holds of every state of a run. -/
structure Sound (coinMeta : CoinMetadata) (s : System τ) : Prop where
  governed : s.Governed
  tickets : s.TicketsSound coinMeta
  valued : s.Valued coinMeta.decimals

theorem Sound.next (hC : C.Lawful) (hs : s.Sound coinMeta) (o : UInt64 × Call τ) :
    ((System.machine C W coinMeta).next s o).Sound coinMeta := by
  refine Transducer.ofExcept_next hs fun s' a h => ?_
  have hstep := system_step hC h
  exact ⟨(hstep.registry hs.governed).1, hstep.tickets hs.tickets,
    hstep.valued hs.tickets hs.valued⟩

theorem Sound.run (hC : C.Lawful) (hs : s.Sound coinMeta) (calls : List (UInt64 × Call τ)) :
    ((System.machine C W coinMeta).run s calls).Sound coinMeta :=
  Transducer.run_inv (fun _ o hs _ => hs.next hC o) hs Transducer.along_true

/-- A message has been released. -/
def IsReleased (key : InboxKey) (s : System τ) : Prop := s.status key = .released

theorem IsReleased.next (hC : C.Lawful) {key : InboxKey} (hs : IsReleased key s)
    (o : UInt64 × Call τ) : IsReleased key ((System.machine C W coinMeta).next s o) := by
  refine Transducer.ofExcept_next hs fun s' a h => ?_
  have hnext := (system_step hC h).next key
  rw [show s.status key = .released from hs] at hnext
  change s'.status key = .released
  generalize hafter : s'.status key = after at hnext ⊢
  cases hnext
  rfl

/-- An item exists, and a transceiver that is registered has released it. -/
def Marked (key : Bytes32) (t : τ) (s : System τ) : Prop :=
  s.Governed ∧ ∃ item info, s.outbox key = some item ∧
    (t, info) ∈ s.transceivers.transceivers ∧ info.id.toNat ∈ item.released.positions

theorem Marked.next (hC : C.Lawful) {key : Bytes32} {t : τ} (hs : Marked key t s)
    (o : UInt64 × Call τ) : Marked key t ((System.machine C W coinMeta).next s o) := by
  refine Transducer.ofExcept_next hs fun s' a h => ?_
  obtain ⟨hgov, item, info, hitem, hinfo, hmem⟩ := hs
  have hstep := system_step hC h
  obtain ⟨hgov', hkept⟩ := hstep.registry hgov
  obtain ⟨item', hitem', -, hsub⟩ := hstep.kept hitem
  exact ⟨hgov', item', info, hitem', hkept _ hinfo, hsub hmem⟩

omit [DecidableEq τ] in
theorem Sent.not_marked {key : Bytes32} {t : τ} (h : Sent s s' now key t) : ¬ Marked key t s := by
  rintro ⟨hgov, item, info, hitem, hinfo, hmem⟩
  obtain ⟨item₀, info₀, _, hitem₀, hinfo₀, -, hnot, -⟩ := h.marks
  rw [hitem] at hitem₀
  obtain rfl := Option.some.inj hitem₀
  -- a type is registered under one id
  obtain rfl := hgov.registry.info_unique hinfo hinfo₀
  exact hnot hmem

omit [DecidableEq τ] in
theorem Sent.marked {key : Bytes32} {t : τ} (h : Sent s s' now key t) (hgov : s'.Governed)
    (hkept : ∀ e ∈ s.transceivers.transceivers, e ∈ s'.transceivers.transceivers) :
    Marked key t s' := by
  obtain ⟨item, info, item', -, hinfo, -, -, hitem', hpositions⟩ := h.marks
  refine ⟨hgov, item', info, hitem', hkept _ hinfo, ?_⟩
  rw [hpositions]
  exact Finset.mem_insert_self ..

/-- What a step of a run burns, less what it mints, if it is a transfer or a release. -/
def burnedBy (C : Coins) (W : Wormhole) (coinMeta : CoinMetadata) (s : System τ)
    (o : UInt64 × Call τ) : ℤ :=
  match (System.machine C W coinMeta).out s o with
  | .ok a => s.burned ((System.machine C W coinMeta).next s o) a
  | .error _ => 0

/-- The funds are what the books say: in locking mode the balance is what was transferred less what
was released, and in burning mode transfers and releases have burned that much. -/
def Balanced (mode : Mode) (s : System τ) (burned transferred released : ℤ) : Prop :=
  s.mode = mode ∧ (mode = .locking → (s.balance.toNat : ℤ) = transferred - released) ∧
    (mode = .burning → s.balance = 0 ∧ burned = transferred - released)

theorem balanced_run (hC : C.Lawful) {mode : Mode} {s₀ : System τ} (hs : s₀.Sound coinMeta)
    (hbooks : s₀.Books coinMeta.decimals 0 0) (hfunds : s₀.Balanced mode 0 0 0)
    (calls : List (UInt64 × Call τ)) :
    ∃ transferred released : ℕ,
      ((System.machine C W coinMeta).run s₀ calls).Books coinMeta.decimals transferred released ∧
      ((System.machine C W coinMeta).run s₀ calls).Balanced mode
        ((System.machine C W coinMeta).total (burnedBy C W coinMeta) s₀ calls) transferred
        released := by
  induction calls using List.reverseRecOn with
  | nil => exact ⟨0, 0, hbooks, hfunds⟩
  | append_singleton calls o ih =>
      obtain ⟨transferred, released, hbooks, hmode, hlocking, hburning⟩ := ih
      have hsound := hs.run (W := W) hC calls
      have hnext : (System.machine C W coinMeta).run s₀ (calls ++ [o]) =
          (System.machine C W coinMeta).next ((System.machine C W coinMeta).run s₀ calls) o :=
        Transducer.run_append ..
      rw [Transducer.total_concat]
      obtain ⟨e, hrun, hout⟩ | ⟨a, happly, hout⟩ := System.run_concat C W coinMeta s₀ calls o
      · rw [burnedBy, hout, hrun, add_zero]
        exact ⟨transferred, released, hbooks, hmode, hlocking, hburning⟩
      · obtain ⟨transferred', released', hbooks', hmode', hlocking', hburning'⟩ :=
          (system_step hC happly).books hC hsound.tickets hbooks
        rw [hmode] at hmode' hlocking' hburning'
        refine ⟨transferred', released', hbooks', hmode', fun hm => ?_, fun hm => ?_⟩
        · have := hlocking hm
          have := hlocking' hm
          omega
        · obtain ⟨hzero, hburned⟩ := hburning hm
          obtain ⟨hbalance, hburned'⟩ := hburning' hm
          refine ⟨hbalance.trans hzero, ?_⟩
          rw [burnedBy, hout, ← hnext]
          change _ + burned _ _ a = _
          omega

omit [DecidableEq τ] in
/-- A manager that was just created. -/
theorem new_spec (coinMeta : CoinMetadata) {id : Bytes32} {chainId : UInt16}
    {mode : Mode} {treasuryCap : Option UInt64} (h : System.new id chainId mode treasuryCap = .ok s) :
    s.Sound coinMeta ∧ s.Books coinMeta.decimals 0 0 ∧ s.Balanced mode 0 0 0 := by
  simp only [System.new, Except.bind_eq_ok, Except.pure_eq_ok] at h
  obtain ⟨state, hstate, rfl⟩ := h
  have hgov := State.governed_new hstate
  simp only [State.new, Except.bind_eq_ok, Except.pure_eq_ok] at hstate
  obtain ⟨_, -, rfl⟩ := hstate
  refine ⟨⟨hgov.1, by rintro _ ⟨⟩, by rintro _ _ ⟨⟩, fun key hkey => ?_⟩, ⟨.zero ?_, .zero ?_⟩, rfl,
    fun _ => rfl, fun _ => ⟨rfl, rfl⟩⟩
  · change ReleaseStatus.notApproved = .released at hkey
    cases hkey
  · rintro key ⟨⟩
  · intro key hkey
    change ReleaseStatus.notApproved = .released at hkey
    cases hkey

/-- **Custody and single release.** In every run of a manager from its creation. The status of every
message goes from not approved to a time, and from a time that has come to released, and it is paid
its value out of the funds in the call that releases it, and in no other; so once. Every item of
the outbox is entered by a transfer, and a registered transceiver releases it once, when its time
has come. A transfer takes in the value of its amount, and the dust was returned when the ticket was
prepared. In locking mode the balance is the value of everything that was transferred less that of
everything that was released; in burning mode transfers and releases have burned that much. -/
theorem custody_balance (hC : C.Lawful) (W : Wormhole) (coinMeta : CoinMetadata) {id : Bytes32}
    {chainId : UInt16} {mode : Mode} {treasuryCap : Option UInt64} {s₀ : System τ}
    (hnew : System.new id chainId mode treasuryCap = .ok s₀) (calls : List (UInt64 × Call τ)) :
    (∀ before o after, calls = before ++ o :: after →
      CustodyStep C coinMeta o ((System.machine C W coinMeta).run s₀ before)
        ((System.machine C W coinMeta).run s₀ (before ++ [o]))
        ((System.machine C W coinMeta).out ((System.machine C W coinMeta).run s₀ before) o)) ∧
    (∀ key before o after before' o' after', calls = before ++ o :: after →
      calls = before' ++ o' :: after' →
      let status := fun calls => ((System.machine C W coinMeta).run s₀ calls).status key
      status before ≠ .released → status (before ++ [o]) = .released →
        status before' ≠ .released → status (before' ++ [o']) = .released → before = before') ∧
    (∀ key t m m' before o after before' o' after', calls = before ++ o :: after →
      calls = before' ++ o' :: after' →
      (System.machine C W coinMeta).out ((System.machine C W coinMeta).run s₀ before) o =
        .ok (.sent t key m) →
      (System.machine C W coinMeta).out ((System.machine C W coinMeta).run s₀ before') o' =
        .ok (.sent t key m') → before = before') ∧
    let s := (System.machine C W coinMeta).run s₀ calls
    s.Valued coinMeta.decimals ∧ ∃ transferred released : ℕ,
      s.Books coinMeta.decimals transferred released ∧
      s.Balanced mode ((System.machine C W coinMeta).total (burnedBy C W coinMeta) s₀ calls)
        transferred released := by
  obtain ⟨hsound, hbooks, hfunds⟩ := new_spec coinMeta hnew
  have hrun := fun calls => hsound.run (W := W) hC calls
  have hstep : ∀ before o, CustodyStep C coinMeta o
      ((System.machine C W coinMeta).run s₀ before)
      ((System.machine C W coinMeta).run s₀ (before ++ [o]))
      ((System.machine C W coinMeta).out ((System.machine C W coinMeta).run s₀ before) o) := by
    intro before o
    obtain ⟨e, hsame, hout⟩ | ⟨a, happly, hout⟩ := System.run_concat C W coinMeta s₀ before o
    · rw [hsame, hout]
      exact .of_error
    · rw [hout]
      exact (system_step hC happly).custody (hrun before).tickets
  refine ⟨fun before o after _ => hstep before o, ?_, ?_, (hrun calls).valued,
    balanced_run hC hsound hbooks hfunds calls⟩
  · intro key before o after before' o' after' hcalls hcalls' status hnot hreleased hnot' hreleased'
    exact Transducer.step_unique (P := IsReleased key) (fun s o hs => hs.next hC o) hcalls hcalls'
      hnot hreleased hnot' hreleased'
  · intro key t m m' before o after before' o' after' hcalls hcalls' hout hout'
    -- a message is a step into the states where the transceiver has released the item
    have into : ∀ before o m, (System.machine C W coinMeta).out
        ((System.machine C W coinMeta).run s₀ before) o = .ok (.sent t key m) →
        ¬ Marked key t ((System.machine C W coinMeta).run s₀ before) ∧
          Marked key t ((System.machine C W coinMeta).run s₀ (before ++ [o])) := by
      intro before o m hout
      have hsent := (hstep before o).sent t key m hout
      refine ⟨hsent.not_marked, hsent.marked (hrun _).governed ?_⟩
      obtain ⟨e, -, herror⟩ | ⟨a, happly, -⟩ := System.run_concat C W coinMeta s₀ before o
      · rw [hout] at herror
        cases herror
      · exact ((system_step hC happly).registry (hrun before).governed).2
    obtain ⟨hn, hp⟩ := into before o m hout
    obtain ⟨hn', hp'⟩ := into before' o' m' hout'
    exact Transducer.step_unique (P := Marked key t) (fun s o hs => hs.next hC o) hcalls hcalls'
      hn hp hn' hp'

/-- A manager that was just created. -/
def fresh : System Bool where
  toState := State.fresh
  outbox := fun _ => none
  nextSequence := 1
  tickets := []

theorem new_eq_fresh : System.new 17 21 .locking none = .ok fresh := rfl

/-- The ticket of a transfer of 1005 units of nine decimals, of which five are dust. -/
def sampleTicket : TransferTicket := ⟨1000, 0x70, ⟨100, 8⟩, 2, 9, none, 42, false⟩

/-- A transceiver, a peer, and a transfer to it that is sent. -/
def sampleCalls : List (UInt64 × Call Bool) :=
  [(0, .manager (.registerTransceiver false 1)), (0, .manager (.setPeer 2 42 8 1000)),
    (1, .prepareTransfer 1005 2 9 none false), (2, .transfer sampleTicket 5),
    (3, .createTransceiverMessage false 1)]

theorem sample_custody_balance :
    ((System.machine .reference .reference ⟨0x70, 9⟩).run fresh sampleCalls).balance = 1000 ∧
      ∃ transferred released : ℕ,
        ((System.machine .reference .reference ⟨0x70, 9⟩).run fresh sampleCalls).Books 9
          transferred released ∧ (1000 : ℤ) = transferred - released := by
  have hbalance : ((System.machine .reference .reference ⟨0x70, 9⟩).run fresh
      sampleCalls).balance = 1000 := by decide +kernel
  obtain ⟨-, -, -, -, transferred, released, hbooks, -, hlocking, -⟩ :=
    custody_balance Coins.reference_lawful .reference ⟨0x70, 9⟩ new_eq_fresh sampleCalls
  have hsum := hlocking rfl
  rw [hbalance] at hsum
  exact ⟨hbalance, transferred, released, hbooks, hsum⟩

end System

end Ntt.Sui
