import Ntt.Solana.Codec
import Ntt.Solana.Registry

/-!
# The Inbox of the Solana Program

An inbox item is found by the hash of a chain and a message, so every transceiver that redeems the
message votes on the same item. The vote that reaches the threshold approves it: the amount is
consumed on the inbound rate limit and the item is for release at once, or it is delayed. A release
pays what the first vote recorded.

Every bit of an item's votes was set by the transceiver that is registered under it, with a message
of the peer that was registered for its chain (`votes_accounted`). Where the hash does not collide,
that was the same message, and the enabled votes are a quorum.

## Main results

* `State.InboxStep`: what an instruction does to the inbox (`inbox_step`).
* `inbox_lifecycle`: the life of every item along a run.
-/

namespace Ntt.Solana

variable {L : Type} {R : Runtime} {T : TokenProgram L}

/-- The instructions for inbound transfers. -/
def Instruction.isInbound : Instruction L → Bool
  | .redeem .. | .releaseInboundMint .. | .releaseInboundUnlock .. => true
  | _ => false

/-- What can become of a status at a time. -/
inductive ReleaseStatus.Next (now : Int64) : ReleaseStatus → ReleaseStatus → Prop
  | stay {status} : Next now status status
  | approve {t} : Next now .notApproved (.releaseAfter t)
  | release {t} : t ≤ now → Next now (.releaseAfter t) .released

namespace State

variable {s s' : State L} {now : Int64}

/-- The status of an inbox item; one that does not exist is not approved. -/
def status (s : State L) (key : Bytes32) : ReleaseStatus := (s.itemFor key).releaseStatus

/-- An amount is consumed on the inbound limit of a chain, and refilled on the outbound one. -/
def Consumes (s s' : State L) (now : Int64) (chain : ChainId) (amount : UInt64) : Prop :=
  ∃ limit limit', s.inboxRateLimits chain = some limit ∧
    limit.consumeOrDelay RATE_LIMIT_DURATION now amount = .ok (limit', .consumed now) ∧
    s'.inboxRateLimits = Function.update s.inboxRateLimits chain (some limit') ∧
    s.outboxRateLimit.refill RATE_LIMIT_DURATION now amount = .ok s'.outboxRateLimit

/-- The amount is consumed and the time of the item is now, or the limits stay as they are and it
comes later. -/
def ConsumedOrDelayed (s s' : State L) (now : Int64) (chain : ChainId) (amount : UInt64)
    (releaseTimestamp : Int64) : Prop :=
  (releaseTimestamp = now ∧ Consumes s s' now chain amount) ∨
    (now < releaseTimestamp ∧ SameLimits s s')

/-- The item is paid what it records, out of the custody, into which it is minted before if the
program burns. -/
def Pays (R : Runtime) (T : TokenProgram L) (s s' : State L) (item : InboxItem) : Prop :=
  ∃ minted, ((s.config.mode = .burning ∧ ∃ multisig,
      s.mintToCustody R T s.tokens multisig item.amount = .ok minted) ∨
    (s.config.mode = .locking ∧ minted = s.tokens)) ∧
    s.payFromCustody R T minted item = .ok s'.tokens

/-- What an instruction does to the inbox: nothing, a vote, a vote that approves, or a release. -/
inductive InboxStep (R : Runtime) (T : TokenProgram L) (s s' : State L) (now : Int64)
    (i : Instruction L) (e : Option Event) : Prop
  | other : s'.inboxItems = s.inboxItems → (∀ key r a, e ≠ some (.paid key r a)) →
      (i.isInbound = true → SameLimits s s') → InboxStep R T s s' now i e
  | vote {t m account key amount votes} : i = .redeem t m → e = none →
      Redeems R T s t m account key amount →
      (s.recordedItem key amount m.data.message.nttManagerPayload.payload.recipient).votes.set
        account.id true = .ok votes →
      s' = s.setInboxItem key { s.recordedItem key amount
        m.data.message.nttManagerPayload.payload.recipient with votes } →
      InboxStep R T s s' now i e
  | approve {t m account key amount votes releaseTimestamp} : i = .redeem t m → e = none →
      Redeems R T s t m account key amount →
      (s.recordedItem key amount m.data.message.nttManagerPayload.payload.recipient).votes.set
        account.id true = .ok votes →
      s.config.threshold.toNat ≤
        (votes.positions ∩ s.config.enabledTransceivers.positions).card →
      (s.recordedItem key amount
        m.data.message.nttManagerPayload.payload.recipient).releaseStatus = .notApproved →
      s'.inboxItems = Function.update s.inboxItems key (some { s.recordedItem key amount
        m.data.message.nttManagerPayload.payload.recipient with
        votes, releaseStatus := .releaseAfter releaseTimestamp }) →
      ConsumedOrDelayed s s' now m.data.fromChain amount releaseTimestamp →
      InboxStep R T s s' now i e
  | release {key item releaseTimestamp} : s.inboxItems key = some item →
      item.releaseStatus = .releaseAfter releaseTimestamp → releaseTimestamp ≤ now →
      s'.inboxItems =
        Function.update s.inboxItems key (some { item with releaseStatus := .released }) →
      Pays R T s s' { item with releaseStatus := .released } → SameLimits s s' →
      e = some (.paid key (T.associatedToken item.recipientAddress s.config.mint) item.amount) →
      InboxStep R T s s' now i e

theorem inbox_step {i : Instruction L} {e : Option Event}
    (h : s.apply R T now i = .ok (s', e)) : InboxStep R T s s' now i e := by
  have release (key multisig revert)
      (hi : i = .releaseInboundMint key multisig revert ∨ i = .releaseInboundUnlock key revert) :
      InboxStep R T s s' now i e := by
    obtain ⟨rfl, rfl⟩ | ⟨item, t, minted, tokens, hitem, hstatus, hle, -, hminted, hpay, rfl, rfl⟩ :=
      releaseInbound_spec hi h
    · exact .other rfl (by rintro _ _ _ ⟨⟩) fun _ => ⟨rfl, rfl⟩
    · refine .release hitem hstatus hle rfl ⟨minted, ?_, hpay⟩ ⟨rfl, rfl⟩ rfl
      obtain ⟨hmode, hmint⟩ | hlock := hminted
      · exact .inl ⟨hmode, multisig, hmint⟩
      · exact .inr hlock
  have transfer {source outboxItem args}
      (hi : i = .transferBurn source outboxItem args ∨ i = .transferLock source outboxItem args) :
      InboxStep R T s s' now i e := by
    obtain ⟨_, _, _, _, _, _, _, _, -, -, -, -, rfl, rfl⟩ := transfer_spec hi h
    refine .other rfl (by rintro _ _ _ ⟨⟩) fun hin => ?_
    obtain rfl | rfl := hi <;> cases hin
  have mark {outboxItem t} (hi : i = .markOutboxItemAsReleased outboxItem t ∨
      ∃ revert, i = .releaseOutbound outboxItem t revert) : InboxStep R T s s' now i e := by
    obtain ⟨released, hmark, rfl⟩ := releaseOutbound_spec hi h
    refine .other ?_ ?_ fun hin => ?_
    · obtain ⟨_, _, -, -, -, -, -, ⟨-, -, rfl⟩ | ⟨-, -, _, -, rfl⟩⟩ :=
        markOutboxItemAsReleased_spec hmark <;> rfl
    · intro key r a he
      cases released <;> cases he
    · obtain rfl | ⟨_, rfl⟩ := hi <;> cases hin
  cases i with
  | registry r =>
      obtain ⟨hr, rfl⟩ := Except.return_eq_ok.mp h
      refine .other ?_ (by rintro _ _ _ ⟨⟩) (by rintro ⟨⟩)
      cases r with
      | registerTransceiver owner t executable =>
          obtain ⟨-, _, _, _, -, rfl, -⟩ := registerTransceiver_spec hr
          rfl
      | deregisterTransceiver owner t =>
          obtain ⟨_, _, -, -, -, rfl⟩ := deregisterTransceiver_spec hr
          rfl
      | setThreshold owner threshold =>
          obtain ⟨-, -, rfl⟩ := setThreshold_spec hr
          rfl
  | admin a =>
      obtain ⟨ha, rfl⟩ := Except.return_eq_ok.mp h
      refine .other ?_ (by rintro _ _ _ ⟨⟩) (by rintro ⟨⟩)
      rw [(applyAdmin_spec ha).2]
  | tokenAuthority a =>
      obtain ⟨ha, rfl⟩ := Except.return_eq_ok.mp h
      refine .other ?_ (by rintro _ _ _ ⟨⟩) (by rintro ⟨⟩)
      rw [applyTokenAuthority_spec ha]
  | redeem t m =>
      obtain ⟨hr, rfl⟩ := Except.return_eq_ok.mp h
      obtain ⟨account, key, amount, item, votes, hredeems, rfl, hvotes, ⟨-, hs'⟩ | ⟨hcount,
        hstatus, limit, s₁, t, hlimit, hconsume, rfl⟩⟩ := redeem_spec hr
      · exact .vote rfl rfl hredeems hvotes hs'
      · obtain ⟨limit', outbox', rfl, ⟨hconsumed, hrefill, rfl⟩ | ⟨-, rfl, rfl, ht⟩⟩ :=
          consumeInbound_spec hconsume
        · exact .approve rfl rfl hredeems hvotes hcount hstatus rfl
            (.inl ⟨rfl, limit, limit', hlimit, hconsumed, rfl, hrefill⟩)
        · refine .approve rfl rfl hredeems hvotes hcount hstatus rfl
            (.inr ⟨lt_of_checkedI64 ht, ?_, rfl⟩)
          change Function.update s.inboxRateLimits _ (some limit') = s.inboxRateLimits
          rw [← hlimit, Function.update_eq_self]
  | releaseInboundMint key multisig revert => exact release key multisig revert (.inl rfl)
  | releaseInboundUnlock key revert => exact release key none revert (.inr rfl)
  | transferBurn source outboxItem args => exact transfer (.inl rfl)
  | transferLock source outboxItem args => exact transfer (.inr rfl)
  | markOutboxItemAsReleased outboxItem t => exact mark (.inl rfl)
  | releaseOutbound outboxItem t revert => exact mark (.inr ⟨revert, rfl⟩)
  | external tokens =>
      obtain ⟨rfl, rfl⟩ := Prod.mk.inj (Except.ok.inj h)
      exact .other rfl (by rintro _ _ _ ⟨⟩) (by rintro ⟨⟩)

/-! ### What happens to an item -/

/-- Every item that exists was initialized by its first vote. -/
def AllInit (s : State L) : Prop := ∀ key item, s.inboxItems key = some item → item.init = true

theorem itemFor_update {key : Bytes32} {item : InboxItem}
    (h : s'.inboxItems = Function.update s.inboxItems key (some item)) (key' : Bytes32) :
    s'.itemFor key' = if key' = key then item else s.itemFor key' := by
  rw [itemFor, h]
  by_cases hkey : key' = key
  · subst hkey
    simp
  · simp [hkey, itemFor]

theorem itemFor_of_eq (h : s'.inboxItems = s.inboxItems) (key : Bytes32) :
    s'.itemFor key = s.itemFor key := by
  rw [itemFor, itemFor, h]

/-- The item that a vote finds is the one that exists, or a new one without votes. -/
theorem AllInit.recordedItem_eq (hs : s.AllInit) (key : Bytes32) (amount : UInt64)
    (recipient : Pubkey) :
    s.recordedItem key amount recipient =
      { s.recordedItem key amount recipient with
        init := true
        votes := (s.itemFor key).votes
        releaseStatus := s.status key } ∧
      ((s.itemFor key).init = true → s.recordedItem key amount recipient = s.itemFor key) := by
  cases hitem : s.inboxItems key with
  | none =>
      have hzero : s.itemFor key = .zeroed := by rw [itemFor, hitem]; rfl
      rw [recordedItem, status, hzero]
      exact ⟨rfl, fun h => by cases h⟩
  | some item =>
      have hsome : s.itemFor key = item := by rw [itemFor, hitem]; rfl
      have hinit := hs key item hitem
      rw [recordedItem, status, hsome, hinit]
      refine ⟨?_, fun _ => rfl⟩
      change item = { item with init := true }
      rw [← hinit]

/-- What exists is kept: the amount and the recipient of an item, and every vote. -/
structure ItemKept (item item' : InboxItem) : Prop where
  init : item.init = true → item'.init = true
  amount : item.init = true → item'.amount = item.amount
  recipientAddress : item.init = true → item'.recipientAddress = item.recipientAddress
  votes : item.votes.positions ⊆ item'.votes.positions

theorem ItemKept.refl (item : InboxItem) : ItemKept item item :=
  ⟨id, fun _ => rfl, fun _ => rfl, subset_rfl⟩

section

variable {key : Bytes32} {amount : UInt64} {recipient : Pubkey} {id : UInt8} {votes : Bitmap}

/-- A vote adds the bit of its transceiver. -/
theorem AllInit.positions_vote (hs : s.AllInit)
    (hvotes : (s.recordedItem key amount recipient).votes.set id true = .ok votes) :
    votes.positions = insert id.toNat (s.itemFor key).votes.positions := by
  have hpositions := (Bitmap.positions_set_true hvotes).2
  rw [(hs.recordedItem_eq key amount recipient).1] at hpositions
  exact hpositions

/-- A vote keeps what exists. -/
theorem AllInit.itemKept_vote (hs : s.AllInit)
    (hvotes : (s.recordedItem key amount recipient).votes.set id true = .ok votes)
    (releaseStatus : ReleaseStatus) :
    ItemKept (s.itemFor key) { s.recordedItem key amount recipient with votes, releaseStatus } := by
  obtain ⟨heq, hsame⟩ := hs.recordedItem_eq key amount recipient
  refine ⟨fun _ => ?_, fun hinit => ?_, fun hinit => ?_, ?_⟩
  · rw [heq]
  · rw [hsame hinit]
  · rw [hsame hinit]
  · rw [hs.positions_vote hvotes]
    exact Finset.subset_insert _ _

end

/-- **The life of an item, in one step.** -/
theorem InboxStep.item {i : Instruction L} {e : Option Event} (h : InboxStep R T s s' now i e)
    (hs : s.AllInit) : s'.AllInit ∧ ∀ key, ItemKept (s.itemFor key) (s'.itemFor key) ∧
      ReleaseStatus.Next now (s.status key) (s'.status key) := by
  have update {key₀ : Bytes32} {item₀ : InboxItem}
      (heq : s'.inboxItems = Function.update s.inboxItems key₀ (some item₀))
      (hinit : item₀.init = true) (hkept : ItemKept (s.itemFor key₀) item₀)
      (hnext : ReleaseStatus.Next now (s.status key₀) item₀.releaseStatus) :
      s'.AllInit ∧ ∀ key, ItemKept (s.itemFor key) (s'.itemFor key) ∧
        ReleaseStatus.Next now (s.status key) (s'.status key) := by
    refine ⟨fun key item hitem => ?_, fun key => ?_⟩
    · rw [heq] at hitem
      rcases eq_or_ne key key₀ with rfl | hne
      · rw [Function.update_self] at hitem
        obtain rfl := Option.some.inj hitem
        exact hinit
      · rw [Function.update_of_ne hne] at hitem
        exact hs key item hitem
    · rw [status, status, itemFor_update heq]
      split
      · rename_i hkey
        subst hkey
        exact ⟨hkept, hnext⟩
      · exact ⟨.refl _, .stay⟩
  cases h with
  | other heq =>
      refine ⟨fun key item hitem => hs key item (by rwa [← heq]), fun key => ?_⟩
      rw [status, status, itemFor_of_eq heq]
      exact ⟨.refl _, .stay⟩
  | @vote t m account key amount votes _ _ _ hvotes heq =>
      have hrec := (hs.recordedItem_eq key amount
        m.data.message.nttManagerPayload.payload.recipient).1
      refine update (congrArg State.inboxItems heq) ?_ (hs.itemKept_vote hvotes _) ?_
      · rw [hrec]
      · rw [hrec]
        exact .stay
  | @approve t m account key amount votes releaseTimestamp _ _ _ hvotes _ hstatus heq _ =>
      have hrec := (hs.recordedItem_eq key amount
        m.data.message.nttManagerPayload.payload.recipient).1
      refine update heq ?_ (hs.itemKept_vote hvotes _) ?_
      · rw [hrec]
      · rw [hrec] at hstatus
        rw [show s.status key = .notApproved from hstatus]
        exact .approve
  | @release key item releaseTimestamp hitem hstatus hle heq _ _ _ =>
      have hsome : s.itemFor key = item := by rw [itemFor, hitem]; rfl
      refine update heq (hs key item hitem) ?_ ?_
      · rw [hsome]
        exact ⟨id, fun _ => rfl, fun _ => rfl, subset_rfl⟩
      · rw [status, hsome, hstatus]
        exact .release hle

/-- A vote that is new is that of the transceiver which redeems. -/
theorem InboxStep.new_vote {i : Instruction L} {e : Option Event}
    (h : InboxStep R T s s' now i e) (hs : s.AllInit) {key : Bytes32} {bit : ℕ}
    (hbit : bit ∈ (s'.itemFor key).votes.positions)
    (hnew : bit ∉ (s.itemFor key).votes.positions) :
    ∃ t m account amount, i = .redeem t m ∧ Redeems R T s t m account key amount ∧
      account.id.toNat = bit := by
  have update {key₀ : Bytes32} {item₀ : InboxItem}
      (heq : s'.inboxItems = Function.update s.inboxItems key₀ (some item₀)) :
      key = key₀ ∧ bit ∈ item₀.votes.positions := by
    rw [itemFor_update heq] at hbit
    split at hbit
    · rename_i hkey
      exact ⟨hkey, hbit⟩
    · exact absurd hbit hnew
  cases h with
  | other heq =>
      rw [itemFor_of_eq heq] at hbit
      exact absurd hbit hnew
  | @vote t m account key₀ amount votes hi _ hredeems hvotes heq =>
      obtain ⟨rfl, hmem⟩ := update (congrArg State.inboxItems heq)
      rw [hs.positions_vote hvotes] at hmem
      obtain rfl := (Finset.mem_insert.mp hmem).resolve_right hnew
      exact ⟨t, m, account, amount, hi, hredeems, rfl⟩
  | @approve t m account key₀ amount votes releaseTimestamp hi _ hredeems hvotes _ _ heq _ =>
      obtain ⟨rfl, hmem⟩ := update heq
      rw [hs.positions_vote hvotes] at hmem
      obtain rfl := (Finset.mem_insert.mp hmem).resolve_right hnew
      exact ⟨t, m, account, amount, hi, hredeems, rfl⟩
  | @release key₀ item releaseTimestamp hitem _ _ heq _ _ _ =>
      obtain ⟨rfl, hmem⟩ := update heq
      have hsome : s.itemFor key = item := by rw [itemFor, hitem]; rfl
      rw [hsome] at hnew
      exact absurd hmem hnew

/-! ### Votes along a run -/

/-- A transceiver has voted with a message in one of the calls: it redeemed it, and the message was
from the address that was the peer of its chain then. -/
def Voted (R : Runtime) (T : TokenProgram L) (s₀ : State L) (calls : List (Int64 × Instruction L))
    (t : Pubkey) (m : MessageAccount) : Prop :=
  ∃ before o after s', calls = before ++ o :: after ∧ o.2 = .redeem t m ∧
    ((Program.machine R T).run s₀ before).redeem R T o.1 t m = .ok s' ∧
    ∃ peer, ((Program.machine R T).run s₀ before).peers m.data.fromChain = some peer ∧
      peer.address = m.data.message.sourceNttManager

theorem Voted.append {s₀ : State L} {calls : List (Int64 × Instruction L)} {t : Pubkey}
    {m : MessageAccount} (h : Voted R T s₀ calls t m) (o : Int64 × Instruction L) :
    Voted R T s₀ (calls ++ [o]) t m := by
  obtain ⟨before, o', after, s', rfl, hvotes⟩ := h
  exact ⟨before, o', after ++ [o], s', by simp, hvotes⟩

/-- The bit `i` of an item is the vote of a registered transceiver, with a message of that item. -/
def Accounted (R : Runtime) (T : TokenProgram L) (s₀ : State L)
    (calls : List (Int64 × Instruction L)) (s : State L) (key : Bytes32) (i : ℕ) : Prop :=
  ∃ t r m, s.registeredTransceivers t = some r ∧ r.id.toNat = i ∧ Voted R T s₀ calls t m ∧
    inboxKey R m.data = .ok key

/-- **Every vote is accounted for**, after any calls. Induction on the calls, from the last. -/
theorem votes_accounted (R : Runtime) (T : TokenProgram L) {s₀ : State L} (h₀ : s₀.Registry)
    (hnone : ∀ key, s₀.inboxItems key = none) (calls : List (Int64 × Instruction L)) :
    let s := (Program.machine R T).run s₀ calls
    s.Registry ∧ s.AllInit ∧
      ∀ key, ∀ i ∈ (s.itemFor key).votes.positions, Accounted R T s₀ calls s key i := by
  induction calls using List.reverseRecOn with
  | nil =>
      refine ⟨h₀, fun key item hitem => ?_, fun key i hi => ?_⟩
      · exact absurd (hnone key) (by rw [show s₀.inboxItems key = some item from hitem]; simp)
      · have hzero : s₀.itemFor key = .zeroed := by rw [itemFor, hnone]; rfl
        change i ∈ (s₀.itemFor key).votes.positions at hi
        rw [hzero] at hi
        exact absurd hi (by rw [InboxItem.zeroed, Bitmap.positions_new]; exact Finset.notMem_empty i)
  | append_singleton calls o ih =>
      rw [Transducer.run_append]
      set s := (Program.machine R T).run s₀ calls
      obtain ⟨hreg, hinit, hvotes⟩ := ih
      change ((Program.machine R T).next s o).Registry ∧ ((Program.machine R T).next s o).AllInit ∧
        ∀ key, ∀ i ∈ (((Program.machine R T).next s o).itemFor key).votes.positions,
          Accounted R T s₀ (calls ++ [o]) ((Program.machine R T).next s o) key i
      cases hstep : s.apply R T o.1 o.2 with
      | error e =>
          rw [Program.machine, (Transducer.ofExcept_of_error hstep).1]
          refine ⟨hreg, hinit, fun key i hi => ?_⟩
          obtain ⟨t, r, m, hr, hid, hvoted, hkey⟩ := hvotes key i hi
          exact ⟨t, r, m, hr, hid, hvoted.append o, hkey⟩
      | ok res =>
          rw [Program.machine, (Transducer.ofExcept_of_ok hstep).1]
          obtain ⟨hreg', hkept⟩ := hreg.apply hstep
          have hinbox := inbox_step hstep
          refine ⟨hreg', (hinbox.item hinit).1, fun key i hi => ?_⟩
          by_cases hold : i ∈ (s.itemFor key).votes.positions
          · obtain ⟨t, r, m, hr, hid, hvoted, hkey⟩ := hvotes key i hold
            exact ⟨t, r, m, hkept t r hr, hid, hvoted.append o, hkey⟩
          · obtain ⟨t, m, account, amount, hop, hredeems, hid⟩ := hinbox.new_vote hinit hi hold
            rw [hop] at hstep
            exact ⟨t, account, m, hkept t account hredeems.registered, hid,
              ⟨calls, o, [], res.1, rfl, hop, (Except.return_eq_ok.mp hstep).1, hredeems.peer⟩,
              hredeems.key⟩

/-! ### Approvals -/

/-- What the calls have hashed. -/
def hashed (R : Runtime) (calls : List (Int64 × Instruction L)) : Set Bytes :=
  {b | ∃ o ∈ calls, ∃ t m, o.2 = .redeem t m ∧
    m.data.message.nttManagerPayload.keccak256Bytes R.io
      (NativeTokenTransfer.impl R.io EmptyPayload.impl) m.data.fromChain = .ok b}

theorem inboxKey_eq_ok {data : ValidatedTransceiverMessage} {key : Bytes32} :
    inboxKey R data = .ok key ↔ ∃ b, data.message.nttManagerPayload.keccak256Bytes R.io
      (NativeTokenTransfer.impl R.io EmptyPayload.impl) data.fromChain = .ok b ∧
        R.keccak256 b = key := by
  simp only [inboxKey, Except.bind_eq_ok, mapError_eq_ok, Except.pure_eq_ok]

/-- Two messages that share an item are one message from one chain, where the hash does not
collide. -/
theorem inboxKey_inj (hio : R.io.Lawful) {calls : List (Int64 × Instruction L)}
    (hhash : Set.InjOn R.keccak256 (hashed R calls)) {o o' : Int64 × Instruction L}
    (ho : o ∈ calls) (ho' : o' ∈ calls) {t t' : Pubkey} {m m' : MessageAccount}
    (hop : o.2 = .redeem t m) (hop' : o'.2 = .redeem t' m') {key : Bytes32}
    (hkey : inboxKey R m.data = .ok key) (hkey' : inboxKey R m'.data = .ok key) :
    m.data.fromChain = m'.data.fromChain ∧
      m.data.message.nttManagerPayload = m'.data.message.nttManagerPayload := by
  obtain ⟨b, hb, rfl⟩ := inboxKey_eq_ok.mp hkey
  obtain ⟨b', hb', heq⟩ := inboxKey_eq_ok.mp hkey'
  have hbytes := hhash ⟨o, ho, t, m, hop, hb⟩ ⟨o', ho', t', m', hop', hb'⟩ heq.symm
  rw [← hbytes] at hb'
  exact NttManagerMessage.keccak256Bytes_inj hio hb hb'

/-- The quorum of a message: a threshold of at least one, and as many transceivers that are
registered and enabled, and have voted for that message of that chain. -/
structure Quorate (R : Runtime) (T : TokenProgram L) (s₀ : State L)
    (calls : List (Int64 × Instruction L)) (s : State L) (m : MessageAccount) : Prop where
  threshold_pos : 1 ≤ s.config.threshold.toNat
  voters : ∃ voters : Finset Pubkey, s.config.threshold.toNat ≤ voters.card ∧ ∀ t ∈ voters,
    (∃ r, s.registeredTransceivers t = some r ∧
      r.id.toNat ∈ s.config.enabledTransceivers.positions) ∧
    ∃ m', Voted R T s₀ calls t m' ∧ m'.data.fromChain = m.data.fromChain ∧
      m'.data.message.nttManagerPayload = m.data.message.nttManagerPayload

/-- An approval: a redemption with its quorum, which consumes the rate limits or is delayed. -/
def Approved (R : Runtime) (T : TokenProgram L) (s₀ : State L)
    (before : List (Int64 × Instruction L)) (o : Int64 × Instruction L) (key : Bytes32) : Prop :=
  let s := (Program.machine R T).run s₀ before
  let s' := (Program.machine R T).run s₀ (before ++ [o])
  ∃ t m amount releaseTimestamp, o.2 = .redeem t m ∧ inboxKey R m.data = .ok key ∧
    Quorate R T s₀ (before ++ [o]) s m ∧
    m.data.message.nttManagerPayload.payload.amount.untrim
      (T.decimals s.tokens s.config.mint) = .ok amount ∧
    s'.status key = .releaseAfter releaseTimestamp ∧
    ConsumedOrDelayed s s' o.1 m.data.fromChain amount releaseTimestamp

/-- An approval has as many voters as the threshold, each of them registered and enabled. -/
theorem quorate_of_votes (hio : R.io.Lawful) {s₀ : State L}
    {before : List (Int64 × Instruction L)} {o : Int64 × Instruction L}
    (hhash : Set.InjOn R.keccak256 (hashed R (before ++ [o]))) {t : Pubkey} {m : MessageAccount}
    (hop : o.2 = .redeem t m) {key : Bytes32} (hkey : inboxKey R m.data = .ok key)
    {votes : Bitmap} (hpos : 0 < s.config.threshold.toNat)
    (hcount : s.config.threshold.toNat ≤
      (votes.positions ∩ s.config.enabledTransceivers.positions).card)
    (hvotes : ∀ i ∈ votes.positions, Accounted R T s₀ (before ++ [o]) s key i) :
    Quorate R T s₀ (before ++ [o]) s m := by
  -- every enabled vote has its own voter
  obtain ⟨voters, hcard, hvoters, -⟩ := BitSet.exists_voters
    (P := fun i t => ∃ r m, s.registeredTransceivers t = some r ∧ r.id.toNat = i ∧
      Voted R T s₀ (before ++ [o]) t m ∧ inboxKey R m.data = .ok key)
    (fun i hi => hvotes i (Finset.mem_inter.mp hi).1)
    (fun i j t hi hj => by
      obtain ⟨r, _, hr, rfl, -⟩ := hi
      obtain ⟨r', _, hr', rfl, -⟩ := hj
      rw [hr] at hr'
      rw [Option.some.inj hr'])
  refine ⟨hpos, voters, hcard ▸ hcount, fun t' ht' => ?_⟩
  obtain ⟨i, hi, r, m', hr, rfl, hvoted, hkey'⟩ := hvoters t' ht'
  refine ⟨⟨r, hr, (Finset.mem_inter.mp hi).2⟩, m', hvoted, ?_⟩
  obtain ⟨before', o', after', _, hcalls, hop', -⟩ := hvoted
  have ho' : o' ∈ before ++ [o] := by
    rw [hcalls]
    exact List.mem_append_right _ (List.mem_cons_self ..)
  exact inboxKey_inj hio hhash ho' (List.mem_append_right _ (List.mem_singleton_self o)) hop' hop
    hkey' hkey

/-- A step that approves a message is a redemption with its quorum. -/
theorem approved_of_status (hio : R.io.Lawful) {s₀ : State L} (h₀ : s₀.Registry)
    (hnone : ∀ key, s₀.inboxItems key = none) {before : List (Int64 × Instruction L)}
    {o : Int64 × Instruction L} (hhash : Set.InjOn R.keccak256 (hashed R (before ++ [o])))
    {key : Bytes32}
    (hnot : ((Program.machine R T).run s₀ before).status key = .notApproved)
    (happ : ((Program.machine R T).run s₀ (before ++ [o])).status key ≠ .notApproved) :
    Approved R T s₀ before o key := by
  obtain ⟨-, hinit, -⟩ := votes_accounted R T h₀ hnone before
  obtain ⟨-, -, hvotes⟩ := votes_accounted R T h₀ hnone (before ++ [o])
  rw [Approved, Transducer.run_append]
  rw [Transducer.run_append] at happ hvotes
  set s := (Program.machine R T).run s₀ before
  change ((Program.machine R T).next s o).status key ≠ _ at happ
  change ∀ key, ∀ i ∈ (((Program.machine R T).next s o).itemFor key).votes.positions,
    Accounted R T s₀ (before ++ [o]) ((Program.machine R T).next s o) key i at hvotes
  cases hstep : s.apply R T o.1 o.2 with
  | error e =>
      rw [Program.machine, (Transducer.ofExcept_of_error hstep).1] at happ
      exact absurd hnot happ
  | ok res =>
      have hnext : (Program.machine R T).next s o = res.1 := (Transducer.ofExcept_of_ok hstep).1
      rw [hnext] at happ hvotes
      change ∃ t m amount releaseTimestamp, o.2 = .redeem t m ∧ inboxKey R m.data = .ok key ∧
        Quorate R T s₀ (before ++ [o]) s m ∧ _ = _ ∧
        ((Program.machine R T).next s o).status key = _ ∧
        ConsumedOrDelayed s ((Program.machine R T).next s o) o.1 _ _ _
      rw [hnext]
      cases inbox_step hstep with
      | other heq =>
          rw [status, itemFor_of_eq heq] at happ
          exact absurd hnot happ
      | @vote t m account key₀ amount votes hop _ hredeems hset heq =>
          rw [status, itemFor_update (congrArg State.inboxItems heq)] at happ
          split at happ
          · rename_i hkey
            subst hkey
            rw [(hinit.recordedItem_eq key amount _).1] at happ
            exact absurd hnot happ
          · exact absurd hnot happ
      | @approve t m account key₀ amount votes releaseTimestamp hop _ hredeems hset hcount _ heq
          hlimits =>
          have hitem := itemFor_update heq key
          by_cases hkey : key = key₀
          · subst hkey
            rw [if_pos rfl] at hitem
            have hvotes' : ∀ i ∈ votes.positions,
                Accounted R T s₀ (before ++ [o]) s key i := by
              intro i hi
              obtain ⟨t', r', m', hr', hid, hvoted, hkey'⟩ := hvotes key i (by rwa [hitem])
              rw [hop] at hstep
              rw [(redeem_sameRegistry (Except.return_eq_ok.mp hstep).1).registered] at hr'
              exact ⟨t', r', m', hr', hid, hvoted, hkey'⟩
            refine ⟨t, m, amount, releaseTimestamp, hop, hredeems.key, ?_, hredeems.amount, ?_,
              hlimits⟩
            · exact quorate_of_votes hio hhash hop hredeems.key hredeems.threshold_pos hcount hvotes'
            · rw [status, hitem]
          · rw [if_neg hkey] at hitem
            rw [status, hitem] at happ
            exact absurd hnot happ
      | @release key₀ item releaseTimestamp hitem hstatus _ heq _ _ _ =>
          rw [status, itemFor_update heq] at happ
          split at happ
          · rename_i hkey
            subst hkey
            rw [status, itemFor, hitem] at hnot
            exact absurd (hnot.symm.trans hstatus) (by simp)
          · exact absurd hnot happ

/-- A step that releases an item pays it; and only such a step pays. -/
theorem InboxStep.paid {i : Instruction L} {e : Option Event} (h : InboxStep R T s s' now i e)
    (hs : s.AllInit) (key : Bytes32) :
    (s.status key ≠ .released → s'.status key = .released → Pays R T s s' (s'.itemFor key) ∧
      e = some (.paid key (T.associatedToken (s.itemFor key).recipientAddress s.config.mint)
        (s.itemFor key).amount)) ∧
    ∀ r a, e = some (.paid key r a) → s.status key ≠ .released ∧ s'.status key = .released := by
  have vote {key₀ : Bytes32} {item₀ : InboxItem}
      (heq : s'.inboxItems = Function.update s.inboxItems key₀ (some item₀))
      (hnot : item₀.releaseStatus = s.status key₀ ∨ ∃ t, item₀.releaseStatus = .releaseAfter t)
      (hne : s.status key ≠ .released) : s'.status key ≠ .released := by
    rw [status, itemFor_update heq]
    split
    · rename_i hkey
      subst hkey
      obtain hsame | ⟨t, ht⟩ := hnot
      · rwa [hsame]
      · rw [ht]
        exact ReleaseStatus.noConfusion
    · exact hne
  cases h with
  | other heq hpaid =>
      refine ⟨fun hne hreleased => ?_, fun r a he => absurd he (hpaid key r a)⟩
      rw [status, itemFor_of_eq heq] at hreleased
      exact absurd hreleased hne
  | @vote t m account key₀ amount votes _ he _ _ heq =>
      refine ⟨fun hne hreleased => absurd hreleased ?_, fun r a hpaid => ?_⟩
      · refine vote (congrArg State.inboxItems heq) (.inl ?_) hne
        rw [(hs.recordedItem_eq key₀ amount _).1]
      · rw [he] at hpaid
        cases hpaid
  | @approve t m account key₀ amount votes releaseTimestamp _ he _ _ _ _ heq _ =>
      refine ⟨fun hne hreleased => absurd hreleased ?_, fun r a hpaid => ?_⟩
      · exact vote heq (.inr ⟨releaseTimestamp, rfl⟩) hne
      · rw [he] at hpaid
        cases hpaid
  | @release key₀ item releaseTimestamp hitem hstatus _ heq hpays _ he =>
      have hsome : s.itemFor key₀ = item := by rw [itemFor, hitem]; rfl
      have hitem' := itemFor_update heq key
      constructor
      · intro hne hreleased
        by_cases hkey : key = key₀
        · subst hkey
          rw [if_pos rfl] at hitem'
          rw [hitem', hsome]
          exact ⟨hpays, he⟩
        · rw [if_neg hkey] at hitem'
          rw [status, hitem'] at hreleased
          exact absurd hreleased hne
      · intro r a hpaid
        rw [he] at hpaid
        injection Option.some.inj hpaid with hkey
        subst hkey
        rw [if_pos rfl] at hitem'
        rw [status, hsome, hstatus, status, hitem']
        exact ⟨ReleaseStatus.noConfusion, rfl⟩

/-- A step of an inbound transfer leaves the limits alone, unless it approves an item for release
at once. -/
theorem InboxStep.limits {i : Instruction L} {e : Option Event} (h : InboxStep R T s s' now i e)
    (hs : s.AllInit) (hi : i.isInbound = true) : SameLimits s s' ∨ ∃ key chain amount,
      s.status key = .notApproved ∧ s'.status key = .releaseAfter now ∧
        Consumes s s' now chain amount := by
  cases h with
  | other _ _ hlimits => exact .inl (hlimits hi)
  | vote _ _ _ _ heq =>
      rw [heq]
      exact .inl ⟨rfl, rfl⟩
  | @approve t m account key amount votes releaseTimestamp _ _ _ _ _ hstatus heq hlimits =>
      obtain ⟨rfl, hconsumes⟩ | ⟨-, hsame⟩ := hlimits
      · refine .inr ⟨key, m.data.fromChain, amount, ?_, ?_, hconsumes⟩
        · rw [(hs.recordedItem_eq key amount _).1] at hstatus
          exact hstatus
        · rw [status, itemFor_update heq, if_pos rfl]
      · exact .inl hsame
  | release _ _ _ _ _ hsame => exact .inl hsame

/-- What a step does to the inbox, the rate limits and the tokens of inbound transfers. -/
structure LifecycleStep (R : Runtime) (T : TokenProgram L) (s₀ : State L)
    (before : List (Int64 × Instruction L)) (o : Int64 × Instruction L) (s s' : State L)
    (answer : Except Error (Option Event)) : Prop where
  failed : ∀ e, answer = .error e → s' = s
  kept : ∀ key, ItemKept (s.itemFor key) (s'.itemFor key)
  next : ∀ key, ReleaseStatus.Next o.1 (s.status key) (s'.status key)
  approved : ∀ key, s.status key = .notApproved → s'.status key ≠ .notApproved →
    Approved R T s₀ before o key
  limits : o.2.isInbound = true → SameLimits s s' ∨ ∃ key chain amount,
    s.status key = .notApproved ∧ s'.status key = .releaseAfter o.1 ∧
      Consumes s s' o.1 chain amount
  released : ∀ key, s.status key ≠ .released → s'.status key = .released →
    Pays R T s s' (s'.itemFor key) ∧ answer = .ok (some (.paid key
      (T.associatedToken (s.itemFor key).recipientAddress s.config.mint) (s.itemFor key).amount))
  paid : ∀ key r a, answer = .ok (some (.paid key r a)) →
    s.status key ≠ .released ∧ s'.status key = .released

/-- A program that was just initialized has an empty inbox. -/
theorem inboxItems_initial {tokens : L} {upgradeAuthority : Option Pubkey} {deployer mint : Pubkey}
    {multisig : Option Pubkey} {chainId : UInt16} {limit : UInt64} {mode : Mode}
    (h : initializeConfigAndRateLimit R T tokens upgradeAuthority deployer mint multisig chainId
      limit mode = .ok s) (key : Bytes32) : s.inboxItems key = none := by
  simp only [initializeConfigAndRateLimit, Except.bind_eq_ok, Except.pure_eq_ok] at h
  obtain ⟨_, -, _, -, _, -, rfl⟩ := h
  rfl

/-- The items of a state exist by their first votes, and this one is approved. -/
def IsApproved (key : Bytes32) (s : State L) : Prop := s.AllInit ∧ s.status key ≠ .notApproved

/-- The items of a state exist by their first votes, and this one is released. -/
def IsReleased (key : Bytes32) (s : State L) : Prop := s.AllInit ∧ s.status key = .released

theorem IsApproved.next {key : Bytes32} (hs : IsApproved key s) (o : Int64 × Instruction L) :
    IsApproved key ((Program.machine R T).next s o) := by
  refine Transducer.ofExcept_next hs fun s' e h => ?_
  obtain ⟨hinit, hitem⟩ := (inbox_step h).item hs.1
  refine ⟨hinit, fun hnot => hs.2 ?_⟩
  have hnext := (hitem key).2
  rw [hnot] at hnext
  generalize hbefore : s.status key = before at hnext ⊢
  cases hnext
  rfl

theorem IsReleased.next {key : Bytes32} (hs : IsReleased key s) (o : Int64 × Instruction L) :
    IsReleased key ((Program.machine R T).next s o) := by
  refine Transducer.ofExcept_next hs fun s' e h => ?_
  obtain ⟨hinit, hitem⟩ := (inbox_step h).item hs.1
  refine ⟨hinit, ?_⟩
  have hnext := (hitem key).2
  rw [hs.2] at hnext
  generalize hafter : s'.status key = after at hnext ⊢
  cases hnext
  rfl

end State

open Solana.State

/-- **The life of every inbox item.** In every run from an initialized program, and for every
instruction of it: one that fails changes nothing. An item goes from not approved to a time, and
from a time that has come to released, and keeps its votes, its amount and its recipient. It is
approved by a quorum of at least one of the transceivers that are enabled then, each of which has
redeemed that message of that chain from the chain's peer; that consumes the inbound limit and
refills the outbound one when the item is for release at once, and inbound transfers do nothing
else to the limits. A release pays exactly the amount that the item records, and nothing else does.
An item is approved once and released once. -/
theorem inbox_lifecycle (R : Runtime) (T : TokenProgram L) (hio : R.io.Lawful) {tokens : L}
    {upgradeAuthority : Option Pubkey} {deployer mint : Pubkey} {multisig : Option Pubkey}
    {chainId : UInt16} {limit : UInt64} {mode : Mode} {s₀ : State L}
    (hinit : initializeConfigAndRateLimit R T tokens upgradeAuthority deployer mint multisig
      chainId limit mode = .ok s₀) (calls : List (Int64 × Instruction L))
    (hhash : Set.InjOn R.keccak256 (State.hashed R calls)) :
    (∀ before o after, calls = before ++ o :: after →
      LifecycleStep R T s₀ before o ((Program.machine R T).run s₀ before)
        ((Program.machine R T).run s₀ (before ++ [o]))
        ((Program.machine R T).out ((Program.machine R T).run s₀ before) o)) ∧
    ∀ key before o after before' o' after', calls = before ++ o :: after →
      calls = before' ++ o' :: after' →
      let status := fun calls => ((Program.machine R T).run s₀ calls).status key
      (status before = .notApproved → status (before ++ [o]) ≠ .notApproved →
        status before' = .notApproved → status (before' ++ [o']) ≠ .notApproved →
          before = before') ∧
      (status before ≠ .released → status (before ++ [o]) = .released →
        status before' ≠ .released → status (before' ++ [o']) = .released →
          before = before') := by
  have hreg := registry_initial hinit
  have hnone := inboxItems_initial hinit
  have hall : ∀ calls, ((Program.machine R T).run s₀ calls).AllInit := fun calls =>
    (votes_accounted R T hreg hnone calls).2.1
  constructor
  · rintro before o after rfl
    have hsub : State.hashed R (before ++ [o]) ⊆ State.hashed R (before ++ o :: after) := by
      rintro b ⟨o', ho', hb⟩
      refine ⟨o', ?_, hb⟩
      rcases List.mem_append.mp ho' with hmem | hmem
      · exact List.mem_append_left _ hmem
      · rw [List.mem_singleton.mp hmem]
        exact List.mem_append_right _ (List.mem_cons_self ..)
    have happroved : ∀ key, ((Program.machine R T).run s₀ before).status key = .notApproved →
        ((Program.machine R T).run s₀ (before ++ [o])).status key ≠ .notApproved →
          Approved R T s₀ before o key := fun key =>
      approved_of_status hio hreg hnone (hhash.mono hsub)
    have hs := hall before
    rw [Transducer.run_append] at happroved ⊢
    set s := (Program.machine R T).run s₀ before
    change ∀ key, _ → ((Program.machine R T).next s o).status key ≠ _ → _ at happroved
    change LifecycleStep R T s₀ before o s ((Program.machine R T).next s o)
      ((Program.machine R T).out s o)
    cases hstep : s.apply R T o.1 o.2 with
    | error e =>
        have hnext : (Program.machine R T).next s o = s := (Transducer.ofExcept_of_error hstep).1
        have hout : (Program.machine R T).out s o = .error e :=
          (Transducer.ofExcept_of_error hstep).2
        rw [hnext] at happroved ⊢
        rw [hout]
        exact ⟨fun _ _ => rfl, fun _ => .refl _, fun _ => .stay, happroved,
          fun _ => .inl ⟨rfl, rfl⟩, fun _ hne he => absurd he hne, by rintro _ _ _ ⟨⟩⟩
    | ok res =>
        have hnext : (Program.machine R T).next s o = res.1 := (Transducer.ofExcept_of_ok hstep).1
        have hout : (Program.machine R T).out s o = .ok res.2 :=
          (Transducer.ofExcept_of_ok hstep).2
        rw [hnext] at happroved ⊢
        rw [hout]
        have hinbox := inbox_step hstep
        refine ⟨by rintro _ ⟨⟩, fun key => ((hinbox.item hs).2 key).1,
          fun key => ((hinbox.item hs).2 key).2, happroved, hinbox.limits hs, ?_, ?_⟩
        · intro key hne he
          obtain ⟨hpays, hevent⟩ := (hinbox.paid hs key).1 hne he
          exact ⟨hpays, congrArg Except.ok hevent⟩
        · intro key r a he
          exact (hinbox.paid hs key).2 r a (Except.ok.inj he)
  · intro key before o after before' o' after' hcalls hcalls' status
    constructor
    · intro hnot happ hnot' happ'
      exact Transducer.step_unique (P := IsApproved key) (fun s o hs => hs.next o) hcalls hcalls'
        (fun h => h.2 hnot) ⟨hall _, happ⟩ (fun h => h.2 hnot') ⟨hall _, happ'⟩
    · intro hnot hrel hnot' hrel'
      exact Transducer.step_unique (P := IsReleased key) (fun s o hs => hs.next o) hcalls hcalls'
        (fun h => hnot h.2) ⟨hall _, hrel⟩ (fun h => hnot' h.2) ⟨hall _, hrel'⟩

/-- A transfer of 100 units of eight decimals to this chain, in a message of the peer on chain 2. -/
def sampleMessage : MessageAccount :=
  ⟨0x51, ⟨2⟩, 0x42, 0xA1, 7, 5, ⟨100, 8⟩, 3, ⟨1⟩, 9, {}⟩

/-- The hash of that message. -/
def sampleKey : Bytes32 := 0xf47215ba2c9f141f5235bbadd17075afe6a441560beb9c0988318b39713b4daa

/-- A transceiver and a peer, tokens in the custody, and the transfer redeemed. -/
def sampleRedeemed : List (Int64 × Instruction Ledger) :=
  [(1, .registry (.registerTransceiver 1 0x51 true)),
    (2, .admin (.setPeer 1 ⟨2⟩ 0x42 1000 8)),
    (3, .external { Ledger.fresh 1 with amount := fun _ => 5000 }),
    (4, .redeem 0x51 sampleMessage)]

/-- The transfer is released. -/
def sampleRelease : Int64 × Instruction Ledger := (5, .releaseInboundUnlock sampleKey false)

theorem sample_inbox_lifecycle :
    let M := Program.machine (.reference fun _ => sampleKey) .reference
    (M.run fresh sampleRedeemed).status sampleKey = .releaseAfter 4 ∧
    LifecycleStep (.reference fun _ => sampleKey) .reference fresh sampleRedeemed sampleRelease
      (M.run fresh sampleRedeemed) (M.run fresh (sampleRedeemed ++ [sampleRelease]))
      (.ok (some (.paid sampleKey (9 + 0x70) 1000))) := by
  intro M
  have hout : M.out (M.run fresh sampleRedeemed) sampleRelease =
      .ok (some (.paid sampleKey (9 + 0x70) 1000)) := by decide +kernel
  have hhash : Set.InjOn (Runtime.reference fun _ => sampleKey).keccak256
      (State.hashed (.reference fun _ => sampleKey) (sampleRedeemed ++ [sampleRelease])) := by
    -- one message is hashed
    rintro b ⟨o, ho, t, m, hop, hb⟩ b' ⟨o', ho', t', m', hop', hb'⟩ -
    have hone : ∀ o ∈ sampleRedeemed ++ [sampleRelease], ∀ t m, o.2 = .redeem t m →
        m = sampleMessage := by
      intro o ho t m hop
      simp only [sampleRedeemed, sampleRelease, List.cons_append, List.nil_append, List.mem_cons,
        List.not_mem_nil, or_false] at ho
      rcases ho with rfl | rfl | rfl | rfl | rfl <;> cases hop
      rfl
    rw [hone o ho t m hop] at hb
    rw [hone o' ho' t' m' hop'] at hb'
    exact Except.ok.inj (hb.symm.trans hb')
  have hstep := (inbox_lifecycle (.reference fun _ => sampleKey) .reference
    WormholeIo.reference_lawful (initialize_eq_fresh _) _ hhash).1 sampleRedeemed sampleRelease []
    rfl
  rw [show (Program.machine _ _).out _ _ = _ from hout] at hstep
  exact ⟨by decide +kernel, hstep⟩

end Ntt.Solana
