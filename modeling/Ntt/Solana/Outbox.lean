import Ntt.Solana.Registry

/-!
# The Outbox of the Solana Program

A transfer moves the amount without its dust into the custody, and burns it there or finds that all
of it arrived. So what the outbox item records is what was burned or locked, whatever fee the mint
may have. The amount is consumed on the outbound limit and refilled on the inbound one of the
recipient chain when the item is for release at once; or the item is delayed, and the limits stay
as they are. Every transceiver releases an item once, when its time has come.

## Main results

* `State.OutboxStep`: what an instruction does to the outbox (`outbox_step`).
* `outbox_custody`: the transfers and the releases of a run.
-/

namespace Ntt.Solana

variable {L : Type} {R : Runtime} {T : TokenProgram L}

/-! ### Dust -/

namespace TrimmedAmount

/-- Scaling down and up again loses at most the dust. -/
theorem scale_scale_le {amount trimmed back : UInt64} {d d' : UInt8} (hd : d' ≤ d)
    (h : scale amount d d' = .ok trimmed) (h' : scale trimmed d' d = .ok back) :
    back.toNat ≤ amount.toNat := by
  have hsplit := Decimal.rescale_down_up (a := amount.toNat) (UInt8.le_iff_toNat_le.mp hd)
  rw [(scale_eq_ok.mp h').1, (scale_eq_ok.mp h).1]
  omega

/-- The amount without dust is the value of the trimmed amount, and not above the amount. -/
theorem removeDust_spec {amount rest : UInt64} {d d' : UInt8} {trimmed : TrimmedAmount}
    (h : removeDust amount d d' = .ok (trimmed, rest)) :
    trimmed.untrim d = .ok rest ∧ rest.toNat ≤ amount.toNat := by
  simp only [removeDust, trim, Except.bind_eq_ok, Except.pure_eq_ok, Prod.mk.injEq] at h
  obtain ⟨_, ⟨scaled, hscaled, rfl⟩, _, huntrim, rfl, rfl⟩ := h
  refine ⟨huntrim, scale_scale_le ?_ hscaled huntrim⟩
  exact UInt8.le_trans Std.min_le_left Std.min_le_right

end TrimmedAmount

/-- The transfers. -/
def Instruction.isTransfer : Instruction L → Bool
  | .transferBurn .. | .transferLock .. => true
  | _ => false

namespace State

variable {s s' : State L} {now : Int64}

/-- An amount is consumed on the outbound limit, and refilled on the inbound one of a chain. -/
def ConsumesOutbound (s s' : State L) (now : Int64) (chain : ChainId) (amount : UInt64) : Prop :=
  s.outboxRateLimit.consumeOrDelay RATE_LIMIT_DURATION now amount =
      .ok (s'.outboxRateLimit, .consumed now) ∧
    ∃ limit limit', s.inboxRateLimits chain = some limit ∧
      limit.refill RATE_LIMIT_DURATION now amount = .ok limit' ∧
      s'.inboxRateLimits = Function.update s.inboxRateLimits chain (some limit')

/-- What an instruction does to the outbox: nothing, a new item, or the mark of a transceiver. -/
inductive OutboxStep (R : Runtime) (T : TokenProgram L) (s s' : State L) (now : Int64)
    (i : Instruction L) (e : Option Event) : Prop
  | other : s'.outboxItems = s.outboxItems → i.isTransfer = false →
      (∀ key t, e ≠ some (.released key t)) → OutboxStep R T s s' now i e
  | transfer {source key args peer trimmed amount releaseTimestamp} :
      (i = .transferBurn source key args ∨ i = .transferLock source key args) →
      Transfers R T s now source args peer trimmed amount s'.tokens → s'.config = s.config →
      s.outboxItems key = none →
      s'.outboxItems = Function.update s.outboxItems key
        (some (s.enteredItem T source args peer trimmed releaseTimestamp)) →
      ((releaseTimestamp = now ∧ ConsumesOutbound s s' now args.recipientChain amount) ∨
        (now < releaseTimestamp ∧ args.shouldQueue = true ∧ SameLimits s s')) →
      e = some (.transferred key) → OutboxStep R T s s' now i e
  | mark {key t item account bitmap} : s.outboxItems key = some item →
      s.registeredTransceivers t = some account → s'.registeredTransceivers t = some account →
      account.id.toNat ∈ s.config.enabledTransceivers.positions →
      account.id.toNat ∉ item.released.positions → item.releaseTimestamp ≤ now →
      bitmap.positions = insert account.id.toNat item.released.positions →
      s'.outboxItems = Function.update s.outboxItems key (some { item with released := bitmap }) →
      i.isTransfer = false → e = some (.released key t) → OutboxStep R T s s' now i e

theorem outbox_step {i : Instruction L} {e : Option Event}
    (h : s.apply R T now i = .ok (s', e)) : OutboxStep R T s s' now i e := by
  have transfer (source outboxItem args)
      (hi : i = .transferBurn source outboxItem args ∨ i = .transferLock source outboxItem args) :
      OutboxStep R T s s' now i e := by
    obtain ⟨peer, trimmed, amount, tokens, limit, outbox', inbox', t, htransfers, hnone, hlimit,
      hconsume, rfl, rfl⟩ := transfer_spec hi h
    refine .transfer hi htransfers rfl hnone rfl ?_ rfl
    obtain ⟨hconsumed, hrefill, rfl⟩ | ⟨-, rfl, rfl, hqueue, ht⟩ := consumeOutbound_spec hconsume
    · exact .inl ⟨rfl, hconsumed, limit, inbox', hlimit, hrefill, rfl⟩
    · refine .inr ⟨lt_of_checkedI64 ht, hqueue, ?_, rfl⟩
      change Function.update s.inboxRateLimits _ (some inbox') = s.inboxRateLimits
      rw [← hlimit, Function.update_eq_self]
  have mark (outboxItem t) (hi : i = .markOutboxItemAsReleased outboxItem t ∨
      ∃ revert, i = .releaseOutbound outboxItem t revert) : OutboxStep R T s s' now i e := by
    obtain ⟨released, hmark, rfl⟩ := releaseOutbound_spec hi h
    obtain ⟨item, account, hitem, hreg, henabled, hnot, -, ⟨rfl, -, rfl⟩ | ⟨rfl, hle, bitmap,
      hset, rfl⟩⟩ := markOutboxItemAsReleased_spec hmark
    · refine .other ?_ (by obtain rfl | ⟨_, rfl⟩ := hi <;> rfl) (by rintro _ _ ⟨⟩)
      change Function.update s.outboxItems outboxItem (some item) = s.outboxItems
      rw [← hitem, Function.update_eq_self]
    · exact .mark hitem hreg hreg henabled hnot hle (Bitmap.positions_set_true hset).2 rfl
        (by obtain rfl | ⟨_, rfl⟩ := hi <;> rfl) rfl
  have release (key multisig revert)
      (hi : i = .releaseInboundMint key multisig revert ∨ i = .releaseInboundUnlock key revert) :
      OutboxStep R T s s' now i e := by
    obtain ⟨rfl, rfl⟩ | ⟨_, _, _, _, -, -, -, -, -, -, rfl, rfl⟩ := releaseInbound_spec hi h
    · exact .other rfl (by obtain rfl | rfl := hi <;> rfl) (by rintro _ _ ⟨⟩)
    · exact .other rfl (by obtain rfl | rfl := hi <;> rfl) (by rintro _ _ ⟨⟩)
  cases i with
  | registry r =>
      obtain ⟨hr, rfl⟩ := Except.return_eq_ok.mp h
      refine .other ?_ rfl (by rintro _ _ ⟨⟩)
      cases r with
      | registerTransceiver owner t executable =>
          obtain ⟨-, _, _, _, -, rfl, -⟩ := registerTransceiver_spec hr
          rfl
      | deregisterTransceiver owner t =>
          obtain ⟨_, _, -, -, -, rfl⟩ := deregisterTransceiver_spec hr
          rfl
      | setThreshold owner threshold =>
          obtain ⟨-, -, rfl⟩ := setThreshold_spec hr
          rfl
  | admin a =>
      obtain ⟨ha, rfl⟩ := Except.return_eq_ok.mp h
      refine .other ?_ rfl (by rintro _ _ ⟨⟩)
      rw [(applyAdmin_spec ha).2]
  | tokenAuthority a =>
      obtain ⟨ha, rfl⟩ := Except.return_eq_ok.mp h
      refine .other ?_ rfl (by rintro _ _ ⟨⟩)
      rw [applyTokenAuthority_spec ha]
  | redeem t m =>
      obtain ⟨hr, rfl⟩ := Except.return_eq_ok.mp h
      refine .other ?_ rfl (by rintro _ _ ⟨⟩)
      obtain ⟨_, _, _, _, _, -, -, -, ⟨-, rfl⟩ | ⟨-, -, _, _, _, -, hconsume, rfl⟩⟩ :=
        redeem_spec hr
      · rfl
      · obtain ⟨_, _, rfl, -⟩ := consumeInbound_spec hconsume
        rfl
  | releaseInboundMint key multisig revert => exact release key multisig revert (.inl rfl)
  | releaseInboundUnlock key revert => exact release key none revert (.inr rfl)
  | transferBurn source outboxItem args => exact transfer source outboxItem args (.inl rfl)
  | transferLock source outboxItem args => exact transfer source outboxItem args (.inr rfl)
  | markOutboxItemAsReleased outboxItem t => exact mark outboxItem t (.inl rfl)
  | releaseOutbound outboxItem t revert => exact mark outboxItem t (.inr ⟨revert, rfl⟩)
  | external tokens =>
      obtain ⟨rfl, rfl⟩ := Prod.mk.inj (Except.ok.inj h)
      exact .other rfl rfl (by rintro _ _ ⟨⟩)

/-- What an item says apart from who has released it stays, and so do the marks. -/
def OutboxKept (item item' : OutboxItem) : Prop :=
  item' = { item with released := item'.released } ∧
    item.released.positions ⊆ item'.released.positions

/-- **The life of an outbox item, in one step.** -/
theorem OutboxStep.kept {i : Instruction L} {e : Option Event} (h : OutboxStep R T s s' now i e)
    {key : Pubkey} {item : OutboxItem} (hitem : s.outboxItems key = some item) :
    ∃ item', s'.outboxItems key = some item' ∧ OutboxKept item item' := by
  cases h with
  | other heq => exact ⟨item, by rw [heq, hitem], rfl, subset_rfl⟩
  | @transfer _ key₀ _ _ _ _ _ _ _ _ hnone heq _ _ =>
      have hne : key ≠ key₀ := by
        rintro rfl
        rw [hnone] at hitem
        cases hitem
      exact ⟨item, by rw [heq, Function.update_of_ne hne, hitem], rfl, subset_rfl⟩
  | @mark key₀ t item₀ account bitmap hitem₀ _ _ _ _ _ hbitmap heq _ _ =>
      rcases eq_or_ne key key₀ with rfl | hne
      · rw [hitem] at hitem₀
        obtain rfl := Option.some.inj hitem₀
        refine ⟨{ item with released := bitmap }, by rw [heq, Function.update_self], rfl, ?_⟩
        rw [hbitmap]
        exact Finset.subset_insert _ _
      · exact ⟨item, by rw [heq, Function.update_of_ne hne, hitem], rfl, subset_rfl⟩

/-! ### Transfers -/

/-- What a transfer did. The item is new, and records an amount whose value is what was burned or
added to the custody, and what the sender lost; the rest of the amount that was asked for is dust,
and stays. That value is consumed on the outbound limit and refilled on the inbound one of the
recipient chain just when the item is for release at once. -/
structure Recorded (T : TokenProgram L) (s s' : State L) (now : Int64) (source key : Pubkey)
    (args : TransferArgs) (item : OutboxItem) (amount : UInt64) : Prop where
  entered : s.outboxItems key = none ∧ s'.outboxItems key = some item ∧
    item.released.positions = ∅
  recipient : item.recipientChain = args.recipientChain ∧
    item.recipientAddress = args.recipientAddress ∧ ∃ peer,
      s.peers args.recipientChain = some peer ∧ item.recipientNttManager = peer.address
  value : item.amount.untrim (T.decimals s.tokens s.config.mint) = .ok amount
  dust : amount.toNat ≤ args.amount.toNat
  burned : s.config.mode = .burning → (T.supply s.tokens s.config.mint).toNat =
    (T.supply s'.tokens s.config.mint).toNat + amount.toNat ∧
      T.amount s'.tokens s.config.custody = T.amount s.tokens s.config.custody
  locked : s.config.mode = .locking → (T.amount s'.tokens s.config.custody).toNat =
    (T.amount s.tokens s.config.custody).toNat + amount.toNat
  taken : source ≠ s.config.custody → (T.amount s.tokens source).toNat =
    (T.amount s'.tokens source).toNat + amount.toNat
  limits : (item.releaseTimestamp = now ∧ ConsumesOutbound s s' now args.recipientChain amount) ∨
    (now < item.releaseTimestamp ∧ args.shouldQueue = true ∧ SameLimits s s')

/-- A transfer records what it moved. -/
theorem Transfers.recorded (hT : T.Lawful) {source key : Pubkey} {args : TransferArgs}
    {peer : NttManagerPeer} {trimmed : TrimmedAmount} {amount : UInt64} {releaseTimestamp : Int64}
    (h : Transfers R T s now source args peer trimmed amount s'.tokens)
    (hnone : s.outboxItems key = none)
    (heq : s'.outboxItems = Function.update s.outboxItems key
      (some (s.enteredItem T source args peer trimmed releaseTimestamp)))
    (hlimits : (releaseTimestamp = now ∧ ConsumesOutbound s s' now args.recipientChain amount) ∨
      (now < releaseTimestamp ∧ args.shouldQueue = true ∧ SameLimits s s')) :
    Recorded T s s' now source key args
      (s.enteredItem T source args peer trimmed releaseTimestamp) amount := by
  obtain ⟨huntrim, hdust⟩ := TrimmedAmount.removeDust_spec h.removed
  obtain ⟨moved, hmove, hcase⟩ := h.moved
  obtain ⟨-, hsupply, hamounts⟩ := hT.transferChecked hmove
  refine ⟨⟨hnone, by rw [heq, Function.update_self], Bitmap.positions_new⟩,
    ⟨rfl, rfl, peer, h.registered, rfl⟩, huntrim, hdust, fun hmode => ?_, fun hmode => ?_,
    fun hne => ?_, hlimits⟩
  · obtain ⟨-, hburn, hafter⟩ | ⟨hlock, -⟩ := hcase
    · obtain ⟨-, hburned, -⟩ := hT.burn hburn
      rw [hsupply] at hburned
      exact ⟨hburned, hafter⟩
    · rw [hmode] at hlock
      cases hlock
  · obtain ⟨hburn, -⟩ | ⟨-, -, hafter⟩ := hcase
    · rw [hmode] at hburn
      cases hburn
    · exact hafter
  · obtain ⟨htaken, -⟩ := hamounts hne
    obtain ⟨-, hburn, -⟩ | ⟨-, htokens, -⟩ := hcase
    · obtain ⟨-, -, -, hother⟩ := hT.burn hburn
      rw [hother source hne]
      exact htaken
    · rw [htokens]
      exact htaken

/-! ### Releases -/

/-- An item exists, and the transceiver that is registered has marked it. -/
def Marked (key t : Pubkey) (s : State L) : Prop :=
  s.Registry ∧ ∃ item account, s.outboxItems key = some item ∧
    s.registeredTransceivers t = some account ∧ account.id.toNat ∈ item.released.positions

theorem Marked.next {key t : Pubkey} (hs : Marked key t s) (o : Int64 × Instruction L) :
    Marked key t ((Program.machine R T).next s o) := by
  refine Transducer.ofExcept_next hs fun s' e h => ?_
  obtain ⟨hreg, item, account, hitem, haccount, hmem⟩ := hs
  obtain ⟨hreg', hkept⟩ := hreg.apply h
  obtain ⟨item', hitem', -, hsub⟩ := (outbox_step h).kept hitem
  exact ⟨hreg', item', account, hitem', hkept t account haccount, hsub hmem⟩

/-- What a release did: the transceiver is enabled and had not released the item, whose time has
come, and now it has. -/
structure Released (s s' : State L) (now : Int64) (key t : Pubkey) : Prop where
  marks : ∃ item account item', s.outboxItems key = some item ∧
    s.registeredTransceivers t = some account ∧ s'.registeredTransceivers t = some account ∧
    account.id.toNat ∈ s.config.enabledTransceivers.positions ∧ item.releaseTimestamp ≤ now ∧
    account.id.toNat ∉ item.released.positions ∧ s'.outboxItems key = some item' ∧
    item'.released.positions = insert account.id.toNat item.released.positions

/-- What a step does to the outbox, the rate limits and the tokens of outbound transfers. -/
structure CustodyStep (T : TokenProgram L) (o : Int64 × Instruction L) (s s' : State L)
    (answer : Except Error (Option Event)) : Prop where
  failed : ∀ e, answer = .error e → s' = s
  kept : ∀ key item, s.outboxItems key = some item →
    ∃ item', s'.outboxItems key = some item' ∧ OutboxKept item item'
  transferred : ∀ source key args,
    (o.2 = .transferBurn source key args ∨ o.2 = .transferLock source key args) →
    ∀ e, answer = .ok e → e = some (.transferred key) ∧
      ∃ item amount, Recorded T s s' o.1 source key args item amount
  released : ∀ key t, answer = .ok (some (.released key t)) → Released s s' o.1 key t
  /-- A mark is the release of its transceiver. -/
  marked : ∀ key item item', s.outboxItems key = some item → s'.outboxItems key = some item' →
    ∀ id ∈ item'.released.positions, id ∉ item.released.positions →
      ∃ t account, answer = .ok (some (.released key t)) ∧
        s.registeredTransceivers t = some account ∧ account.id.toNat = id

theorem OutboxStep.custody (hT : T.Lawful) {o : Int64 × Instruction L} {e : Option Event}
    (h : OutboxStep R T s s' o.1 o.2 e) : CustodyStep T o s s' (.ok e) := by
  have hkept : ∀ key item, s.outboxItems key = some item →
      ∃ item', s'.outboxItems key = some item' ∧ OutboxKept item item' :=
    fun key item hitem => h.kept hitem
  have same {key : Pubkey} {item item' : OutboxItem} (heq : s'.outboxItems key = s.outboxItems key)
      (hitem : s.outboxItems key = some item) (hitem' : s'.outboxItems key = some item') :
      item' = item := by
    rw [heq, hitem] at hitem'
    exact (Option.some.inj hitem').symm
  cases h with
  | other heq hno hmarks =>
      refine ⟨by rintro _ ⟨⟩, hkept, fun source key args hi => ?_, fun key t he => ?_,
        fun key item item' hitem hitem' id hid hnew => ?_⟩
      · obtain hi | hi := hi <;> rw [hi] at hno <;> cases hno
      · exact absurd (Except.ok.inj he) (hmarks key t)
      · rw [same (congrFun heq key) hitem hitem'] at hid
        exact absurd hid hnew
  | @transfer source key args peer trimmed amount releaseTimestamp hi htransfers hconfig hnone heq
      hlimits he =>
      refine ⟨by rintro _ ⟨⟩, hkept, fun source' key' args' hi' e' he' => ?_, fun key' t he' => ?_,
        fun key' item item' hitem hitem' id hid hnew => ?_⟩
      · obtain rfl := Except.ok.inj he'
        obtain ⟨rfl, rfl, rfl⟩ : source = source' ∧ key = key' ∧ args = args' := by
          obtain hi | hi := hi <;> obtain hi' | hi' := hi' <;> rw [hi] at hi' <;> cases hi' <;>
            exact ⟨rfl, rfl, rfl⟩
        exact ⟨he, _, _, htransfers.recorded hT hnone heq hlimits⟩
      · rw [he] at he'
        cases he'
      · have hne : key' ≠ key := by
          rintro rfl
          rw [hnone] at hitem
          cases hitem
        rw [same (by rw [heq, Function.update_of_ne hne]) hitem hitem'] at hid
        exact absurd hid hnew
  | @mark key t item account bitmap hitem hreg hreg' henabled hnot hle hbitmap heq hno he =>
      have hafter : s'.outboxItems key = some { item with released := bitmap } := by
        rw [heq, Function.update_self]
      refine ⟨by rintro _ ⟨⟩, hkept, fun source key' args hi => ?_, fun key' t' he' => ?_,
        fun key' item₀ item' hitem₀ hitem' id hid hnew => ?_⟩
      · obtain hi | hi := hi <;> rw [hi] at hno <;> cases hno
      · rw [he] at he'
        injection Option.some.inj (Except.ok.inj he') with hkey ht
        subst hkey
        subst ht
        exact ⟨item, account, _, hitem, hreg, hreg', henabled, hle, hnot, hafter, hbitmap⟩
      · rcases eq_or_ne key' key with rfl | hne
        · rw [hitem] at hitem₀
          rw [hafter] at hitem'
          obtain rfl := Option.some.inj hitem₀
          obtain rfl := Option.some.inj hitem'
          simp only [hbitmap] at hid
          obtain rfl := (Finset.mem_insert.mp hid).resolve_right hnew
          exact ⟨t, account, congrArg Except.ok he, hreg, rfl⟩
        · rw [same (by rw [heq, Function.update_of_ne hne]) hitem₀ hitem'] at hid
          exact absurd hid hnew

/-! ### Runs -/

/-- An item was entered by one of the calls, a transfer, and says what it said then. -/
def Entered (R : Runtime) (T : TokenProgram L) (s₀ : State L) (calls : List (Int64 × Instruction L))
    (key : Pubkey) (item : OutboxItem) : Prop :=
  ∃ before o after source args item₀ amount, calls = before ++ o :: after ∧
    (o.2 = .transferBurn source key args ∨ o.2 = .transferLock source key args) ∧
    Recorded T ((Program.machine R T).run s₀ before)
      ((Program.machine R T).run s₀ (before ++ [o])) o.1 source key args item₀ amount ∧
    OutboxKept item₀ item

theorem Entered.append {s₀ : State L} {calls : List (Int64 × Instruction L)} {key : Pubkey}
    {item item' : OutboxItem} (h : Entered R T s₀ calls key item) (o : Int64 × Instruction L)
    (hkept : OutboxKept item item') : Entered R T s₀ (calls ++ [o]) key item' := by
  obtain ⟨before, o', after, source, args, item₀, amount, rfl, hi, hrecorded, heq, hsub⟩ := h
  refine ⟨before, o', after ++ [o], source, args, item₀, amount, by simp, hi, hrecorded, ?_,
    hsub.trans hkept.2⟩
  rw [hkept.1, heq]

/-- **Every item was entered by a transfer.** Induction on the calls, from the last. -/
theorem entered_run (R : Runtime) (hT : T.Lawful) {s₀ : State L}
    (hnone : ∀ key, s₀.outboxItems key = none) (calls : List (Int64 × Instruction L))
    {key : Pubkey} {item : OutboxItem}
    (hitem : ((Program.machine R T).run s₀ calls).outboxItems key = some item) :
    Entered R T s₀ calls key item := by
  induction calls using List.reverseRecOn generalizing item with
  | nil =>
      rw [show ((Program.machine R T).run s₀ []).outboxItems key = none from hnone key] at hitem
      cases hitem
  | append_singleton calls o ih =>
      have hrun : (Program.machine R T).run s₀ (calls ++ [o]) =
          (Program.machine R T).next ((Program.machine R T).run s₀ calls) o :=
        Transducer.run_append ..
      rw [hrun] at hitem
      set s := (Program.machine R T).run s₀ calls with hs
      cases hstep : s.apply R T o.1 o.2 with
      | error e =>
          rw [Program.machine, (Transducer.ofExcept_of_error hstep).1] at hitem
          exact (ih hitem).append o ⟨rfl, subset_rfl⟩
      | ok res =>
          have hnext : (Program.machine R T).next s o = res.1 :=
            (Transducer.ofExcept_of_ok hstep).1
          rw [hnext] at hitem hrun
          have hout := outbox_step hstep
          cases hold : s.outboxItems key with
          | some item₀ =>
              obtain ⟨item', hitem', hkept⟩ := hout.kept hold
              rw [hitem'] at hitem
              obtain rfl := Option.some.inj hitem
              exact (ih hold).append o hkept
          | none =>
              cases hout with
              | other heq _ _ =>
                  rw [heq, hold] at hitem
                  cases hitem
              | @transfer source key₀ args peer trimmed amount t hi htransfers _ hnone' heq
                  hlimits _ =>
                  rcases eq_or_ne key key₀ with rfl | hne
                  · have hrecorded := htransfers.recorded hT hnone' heq hlimits
                    rw [hrecorded.entered.2.1] at hitem
                    obtain rfl := Option.some.inj hitem
                    refine ⟨calls, o, [], source, args, _, amount, rfl, hi, ?_, rfl, subset_rfl⟩
                    rw [hrun]
                    exact hrecorded
                  · rw [heq, Function.update_of_ne hne, hold] at hitem
                    cases hitem
              | @mark key₀ _ item₀ _ bitmap hitem₀ _ _ _ _ _ _ heq _ _ =>
                  have hne : key ≠ key₀ := by
                    rintro rfl
                    rw [hold] at hitem₀
                    cases hitem₀
                  rw [heq, Function.update_of_ne hne, hold] at hitem
                  cases hitem

/-- A program that was just initialized has an empty outbox. -/
theorem outboxItems_initial {tokens : L} {upgradeAuthority : Option Pubkey}
    {deployer mint : Pubkey} {multisig : Option Pubkey} {chainId : UInt16} {limit : UInt64}
    {mode : Mode} (h : initializeConfigAndRateLimit R T tokens upgradeAuthority deployer mint
      multisig chainId limit mode = .ok s) (key : Pubkey) : s.outboxItems key = none := by
  simp only [initializeConfigAndRateLimit, Except.bind_eq_ok, Except.pure_eq_ok] at h
  obtain ⟨_, -, _, -, _, -, rfl⟩ := h
  rfl

end State

open Solana.State

/-- **The custody of outbound transfers.** In every run from an initialized program: a transfer
that succeeds enters a new item, whose amount has exactly the value of what was burned, or of what
the custody has gained, whatever fee the mint has, and the sender keeps the dust. That value is
consumed on the outbound limit, and refilled on the inbound one of the recipient chain, just when
the item is for release at once. Every item of a state was entered so, and says what it said then;
and an enabled transceiver releases it when its time has come, once. -/
theorem outbox_custody (R : Runtime) {T : TokenProgram L} (hT : T.Lawful) {tokens : L}
    {upgradeAuthority : Option Pubkey} {deployer mint : Pubkey} {multisig : Option Pubkey}
    {chainId : UInt16} {limit : UInt64} {mode : Mode} {s₀ : State L}
    (hinit : initializeConfigAndRateLimit R T tokens upgradeAuthority deployer mint multisig
      chainId limit mode = .ok s₀) (calls : List (Int64 × Instruction L)) :
    (∀ before o after, calls = before ++ o :: after →
      CustodyStep T o ((Program.machine R T).run s₀ before)
        ((Program.machine R T).run s₀ (before ++ [o]))
        ((Program.machine R T).out ((Program.machine R T).run s₀ before) o)) ∧
    (∀ key item, ((Program.machine R T).run s₀ calls).outboxItems key = some item →
      Entered R T s₀ calls key item) ∧
    ∀ key t before o after before' o' after', calls = before ++ o :: after →
      calls = before' ++ o' :: after' →
      (Program.machine R T).out ((Program.machine R T).run s₀ before) o =
        .ok (some (.released key t)) →
      (Program.machine R T).out ((Program.machine R T).run s₀ before') o' =
        .ok (some (.released key t)) → before = before' := by
  have hstep : ∀ before o, CustodyStep T o ((Program.machine R T).run s₀ before)
      ((Program.machine R T).run s₀ (before ++ [o]))
      ((Program.machine R T).out ((Program.machine R T).run s₀ before) o) := by
    intro before o
    rw [Transducer.run_append]
    set s := (Program.machine R T).run s₀ before
    change CustodyStep T o s ((Program.machine R T).next s o) ((Program.machine R T).out s o)
    cases happly : s.apply R T o.1 o.2 with
    | error e =>
        have hnext : (Program.machine R T).next s o = s :=
          (Transducer.ofExcept_of_error happly).1
        have hout : (Program.machine R T).out s o = .error e :=
          (Transducer.ofExcept_of_error happly).2
        rw [hnext, hout]
        refine ⟨fun _ _ => rfl, fun key item hitem => ⟨item, hitem, rfl, subset_rfl⟩,
          by rintro _ _ _ _ _ ⟨⟩, by rintro _ _ ⟨⟩, fun key item item' hitem hitem' id hid hnew => ?_⟩
        rw [hitem] at hitem'
        obtain rfl := Option.some.inj hitem'
        exact absurd hid hnew
    | ok res =>
        have hnext : (Program.machine R T).next s o = res.1 :=
          (Transducer.ofExcept_of_ok happly).1
        have hout : (Program.machine R T).out s o = .ok res.2 :=
          (Transducer.ofExcept_of_ok happly).2
        rw [hnext, hout]
        exact (outbox_step happly).custody hT
  refine ⟨fun before o after _ => hstep before o,
    fun key item hitem => entered_run R hT (outboxItems_initial hinit) calls hitem, ?_⟩
  intro key t before o after before' o' after' hcalls hcalls' hout hout'
  have hreg := fun calls => registry_run R T (registry_initial hinit) calls
  -- a release is a step into the states where the transceiver has marked the item
  have into : ∀ before o, (Program.machine R T).out ((Program.machine R T).run s₀ before) o =
      .ok (some (.released key t)) → ¬ Marked key t ((Program.machine R T).run s₀ before) ∧
        Marked key t ((Program.machine R T).run s₀ (before ++ [o])) := by
    intro before o hout
    obtain ⟨item, account, item', hitem, hr, hr', -, -, hnot, hitem', hpos⟩ :=
      ((hstep before o).released key t hout).marks
    constructor
    · rintro ⟨-, item₁, account₁, hitem₁, hr₁, hmem⟩
      rw [hitem] at hitem₁
      rw [hr] at hr₁
      obtain rfl := Option.some.inj hitem₁
      obtain rfl := Option.some.inj hr₁
      exact hnot hmem
    · refine ⟨hreg _, item', account, hitem', hr', ?_⟩
      rw [hpos]
      exact Finset.mem_insert_self ..
  obtain ⟨hn, hp⟩ := into before o hout
  obtain ⟨hn', hp'⟩ := into before' o' hout'
  exact Transducer.step_unique (P := Marked key t) (fun s o hs => hs.next o) hcalls hcalls' hn hp
    hn' hp'

/-- A transfer of 1005 units of nine decimals to chain 2. -/
def sampleArgs : TransferArgs := ⟨1005, ⟨2⟩, 0x99, false⟩

/-- The hash of its arguments. -/
def sampleArgsHash : Bytes32 :=
  0xbe3e6b3703df52af0b3786db264bc6420f2c00adf928c6af9942bc67934dd140

/-- The accounts of a sender who has approved the transfer, and an empty custody. -/
def sampleSender : Ledger :=
  { Ledger.fresh 1 with
    amount := Function.update (fun _ => 0) 0x61 2000
    delegate := Function.update (fun _ => none) 0x61
      (some ((0x61 - 0x70) ^^^ sampleArgsHash)) }

/-- A transceiver, a peer of eight decimals, and the sender. -/
def sampleReady : List (Int64 × Instruction Ledger) :=
  [(1, .registry (.registerTransceiver 1 0x51 true)),
    (2, .admin (.setPeer 1 ⟨2⟩ 0x42 1000 8)), (3, .external sampleSender)]

/-- The transfer. -/
def sampleTransfer : Int64 × Instruction Ledger := (4, .transferLock 0x61 0x77 sampleArgs)

/-- Five units are dust. -/
theorem sample_outbox_custody :
    let M := Program.machine (.reference fun _ => sampleArgsHash) .reference
    ∃ item amount, Recorded .reference (M.run fresh sampleReady)
        (M.run fresh (sampleReady ++ [sampleTransfer])) 4 0x61 0x77 sampleArgs item amount ∧
      ((M.run fresh (sampleReady ++ [sampleTransfer])).outboxItems 0x77).map
        (fun item => item.amount) = some ⟨100, 8⟩ := by
  intro M
  have hout : M.out (M.run fresh sampleReady) sampleTransfer =
      .ok (some (.transferred 0x77)) := by decide +kernel
  have hcustody := (outbox_custody (.reference fun _ => sampleArgsHash)
    TokenProgram.reference_lawful (initialize_eq_fresh _) (sampleReady ++ [sampleTransfer])).1
    sampleReady sampleTransfer [] rfl
  obtain ⟨-, item, amount, hrecorded⟩ :=
    hcustody.transferred 0x61 0x77 sampleArgs (.inr rfl) _ hout
  exact ⟨item, amount, hrecorded, by decide +kernel⟩

end Ntt.Solana
