import Ntt.Evm.Books
import Ntt.Evm.Delivery

/-!
# What a History is Worth

The amounts of one transfer are kept in several decimals: those of the token when it is taken, the
trimmed ones in the queue and on the wire, those of the other token when it is received, the
trimmed ones again in the inbound queue, and those of the token when it is paid out. Here all of
them are values, and every value that goes into a manager is found again.

Of the outbound side, each sequence has a value, which is the value taken for it
(`History.value_takenIn`). Of the inbound side, each digest that was executed has one, the value
of its message, as long as the amounts of the messages have no more decimals than the manager can
keep (`NttManager.Fits`); it waits in the queue or was paid out (`History.value_redeemed`).

## Main results

* `History.outbound_amount`, `History.inbound_amount`: the queues hold what the statuses say.
* `idle_accounts`: a manager with nothing begun, as two equations.
-/

namespace Ntt

open Decimal

namespace OutStatus

/-- The value of the transfer of a sequence. -/
def value (s : OutStatus) : ℚ := s.transfer.elim 0 fun t => t.amount.value

/-- The value of a sequence in the outbound queue. -/
def queuedValue : OutStatus → ℚ
  | .queued t _ => t.amount.value
  | _ => 0

/-- The value of a sequence whose message was sent. -/
def sentValue : OutStatus → ℚ
  | .sent t _ => t.amount.value
  | _ => 0

/-- The value of a sequence that was cancelled. -/
def cancelledValue : OutStatus → ℚ
  | .cancelled t _ => t.amount.value
  | _ => 0

/-- Only handing out a sequence changes its value. -/
theorem value_step (n : UInt64) (old : OutStatus) (a : Action) :
    (old.step n a).value =
      match a with
      | .useMessageSequence n' t => if n' = n then t.amount.value else old.value
      | _ => old.value := by
  rw [value, transfer_step]
  cases a with
  | useMessageSequence n' t => by_cases hn : n' = n <;> simp [hn, value]
  | _ => rfl

/-- A sequence that nothing is being done for is queued, sent or cancelled. -/
theorem value_eq {s : OutStatus} (hf : s.isInFlight = false) (hw : s.isWithdrawn = false) :
    s.value = s.queuedValue + s.sentValue + s.cancelledValue := by
  cases s with
  | inFlight => cases hf
  | withdrawn => cases hw
  | _ => simp [value, transfer, queuedValue, sentValue, cancelledValue]

end OutStatus

namespace InStatus

/-- The value of a digest in the inbound queue. -/
def queuedValue : InStatus → ℚ
  | .queued amount _ => amount.value
  | _ => 0

end InStatus

/-- The value in the outbound queue. -/
def outboundValue (st : Storage) : ℚ := ∑ n, (st.outboundQueue n).amount.value

/-- The value in the inbound queue. -/
def inboundValue (st : Storage) : ℚ := ∑ d, (st.inboundQueue d).amount.value

@[simp] theorem value_zero_amount : (⟨0#72⟩ : TrimmedAmount).value = 0 := by
  simp [TrimmedAmount.value, TrimmedAmount.getAmount]

/-- The tokens that an action accounts for as redeemed. -/
def Action.redeemed : Action → ℕ
  | .transferRedeemed _ _ _ untrimmed => untrimmed
  | _ => 0

/-- The tokens that an action accounts for as returned. -/
def Action.returned : Action → ℕ
  | .outboundTransferCancelled _ _ _ untrimmed => untrimmed
  | _ => 0

/-- The tokens given out for messages, after a log. -/
def redeemed (log : List LogEntry) : ℕ := (log.map fun e => e.act.redeemed).sum

/-- The tokens returned to senders, after a log. -/
def returnedTo (log : List LogEntry) : ℕ := (log.map fun e => e.act.returned).sum

@[simp] theorem redeemed_cons (e : LogEntry) (log : List LogEntry) :
    redeemed (e :: log) = e.act.redeemed + redeemed log := List.sum_cons

@[simp] theorem returnedTo_cons (e : LogEntry) (log : List LogEntry) :
    returnedTo (e :: log) = e.act.returned + returnedTo log := List.sum_cons

/-- What is given out is given for messages or returned. -/
theorem paidOut_eq (log : List LogEntry) : paidOut log = redeemed log + returnedTo log := by
  induction log with
  | nil => rfl
  | cons e log ih =>
      have : e.act.pays = e.act.redeemed + e.act.returned := by
        cases e.act <;> simp [Action.pays, Action.redeemed, Action.returned]
      rw [paidOut_cons, redeemed_cons, returnedTo_cons, ih, this]
      omega

/-- The message that a digest was executed with. -/
def executedMessage (d : Bytes32) : List LogEntry → Option NttManagerMessage
  | [] => none
  | e :: log =>
      match e.act with
      | .execute _ _ m d' => if d' = d then some m else executedMessage d log
      | _ => executedMessage d log

namespace NttManager

variable {M : NttManager} {R : Rules} {owner : Address} {limit : RateLimitParams}
  {log : List LogEntry} {st : Storage} {decimals : UInt8}

/-! ### The queues -/

/-- A sequence about to be handed out has no status. -/
theorem History.outStatus_none (h : M.History R (.initial owner limit) log st) :
    outStatus st.messageSequence log = .none := by
  by_contra hne
  exact absurd ((h.sequence_lt _).mp hne) (UInt64.lt_irrefl _)

/-- A digest about to be executed has no status. -/
theorem History.inStatus_none (h : M.History R (.initial owner limit) log st) {d : Bytes32}
    (hd : (st.messageAttestations d).executed = false) : inStatus d log = .none := by
  by_contra hne
  rw [(h.executed_iff d).mpr hne] at hd
  cases hd

/-- The outbound queue holds the value that its statuses say. -/
theorem History.outbound_amount (h : M.History R (.initial owner limit) log st) (n : UInt64) :
    (st.outboundQueue n).amount.value = (outStatus n log).queuedValue := by
  induction h with
  | nil => simp [Storage.initial, OutboundQueuedTransfer.zero, outStatus, OutStatus.queuedValue]
  | @cons log st ctx a hlog ha ih =>
      cases a with
      | useMessageSequence n' t =>
          refine ih.trans ?_
          by_cases hn : n' = n
          · subst hn
            obtain ⟨-, rfl, -⟩ := ha
            simp [OutStatus.step, hlog.outStatus_none, OutStatus.queuedValue]
          · simp [OutStatus.step, hn]
      | enqueueOutbound n' e =>
          obtain ⟨-, -, t, ht, rfl⟩ := ha
          by_cases hn : n = n'
          · subst hn
            simp [Action.apply, OutStatus.step, ht, OutStatus.queuedValue, Transfer.queued]
          · simpa [Action.apply, OutStatus.step, hn, Ne.symm hn] using ih
      | releaseOutbound n' =>
          obtain ⟨t, ht, -⟩ := hlog.outbound_queued ha.2.1
          by_cases hn : n = n'
          · subst hn
            simp [Action.apply, OutStatus.step, ht, OutStatus.queuedValue,
              OutboundQueuedTransfer.zero]
          · simpa [Action.apply, OutStatus.step, hn, Ne.symm hn] using ih
      | withdrawOutbound n' =>
          obtain ⟨t, ht, -⟩ := hlog.outbound_queued ha.2.1
          by_cases hn : n = n'
          · subst hn
            simp [Action.apply, OutStatus.step, ht, OutStatus.queuedValue,
              OutboundQueuedTransfer.zero]
          · simpa [Action.apply, OutStatus.step, hn, Ne.symm hn] using ih
      | send n' _ _ _ _ =>
          obtain ⟨-, -, -, -, t, since, ht, -⟩ := ha
          refine ih.trans ?_
          by_cases hn : n' = n
          · subst hn
            simp [OutStatus.step, ht, OutStatus.queuedValue]
          · simp [OutStatus.step, hn]
      | outboundTransferCancelled n' _ _ _ =>
          obtain ⟨-, -, t, since, _, -, ht, -⟩ := ha
          refine ih.trans ?_
          by_cases hn : n' = n
          · subst hn
            simp [OutStatus.step, ht, OutStatus.queuedValue]
          · simp [OutStatus.step, hn]
      | _ => exact ih

/-- The inbound queue holds the value that its statuses say. -/
theorem History.inbound_amount (h : M.History R (.initial owner limit) log st) (d : Bytes32) :
    (st.inboundQueue d).amount.value = (inStatus d log).queuedValue := by
  induction h with
  | nil => simp [Storage.initial, InboundQueuedTransfer.zero, inStatus, InStatus.queuedValue]
  | @cons log st ctx a hlog ha ih =>
      cases a with
      | execute chain source m d' =>
          refine ih.trans ?_
          by_cases hd : d' = d
          · subst hd
            simp [InStatus.step, hlog.inStatus_none ha.2.2.1, InStatus.queuedValue]
          · simp [InStatus.step, hd]
      | enqueueInbound d' t =>
          by_cases hd : d = d'
          · subst hd
            simp [Action.apply, InStatus.step, InStatus.queuedValue]
          · simpa [Action.apply, InStatus.step, hd, Ne.symm hd] using ih
      | dequeueInbound d' =>
          by_cases hd : d = d'
          · subst hd
            simp [Action.apply, InStatus.step, hlog.inbound_queued ha.1, InStatus.queuedValue,
              InboundQueuedTransfer.zero]
          · simpa [Action.apply, InStatus.step, hd, Ne.symm hd] using ih
      | transferRedeemed d' recipient amount n =>
          obtain ⟨_, -, -, hs⟩ := ha
          refine ih.trans ?_
          by_cases hd : d' = d
          · subst hd
            rcases hs with hs | ⟨m, _, -, hs, -⟩ <;> simp [InStatus.step, hs, InStatus.queuedValue]
          · simp [InStatus.step, hd]
      | _ => exact ih

/-! ### The outbound side -/

/-- What a transfer records is worth what arrived. -/
theorem Trims.value {t : Transfer} (h : Trims decimals st t) :
    Decimal.value t.received decimals.toNat = t.amount.value ∧
      t.amount.getDecimals.toNat ≤ decimals.toNat := by
  obtain ⟨-, htrim, huntrim⟩ := h
  have hle : t.amount.getDecimals.toNat ≤ decimals.toNat := by
    rw [(trim_eq_ok.mp htrim).1, toNat_wireDecimals]
    omega
  exact ⟨value_untrim hle huntrim, hle⟩

/-- A transfer that has a sequence was trimmed when it got it. -/
theorem History.trims (hR : ∀ d, R.decimals d → d = decimals)
    (h : M.History R (.initial owner limit) log st) {n : UInt64} {t : Transfer}
    (ht : (outStatus n log).transfer = some t) :
    ∃ older st', M.History R (.initial owner limit) older st' ∧ Trims decimals st' t := by
  obtain ⟨take, hmem, hact⟩ := handed_out_of_status ht
  obtain ⟨newer, older, rfl⟩ := List.append_of_mem hmem
  obtain ⟨hbefore, ha⟩ := h.before
  rw [hact] at ha
  obtain ⟨-, -, -, -, -, d, hd, htrims⟩ := ha
  rw [hR d hd] at htrims
  exact ⟨older, take.pre, hbefore, htrims⟩

/-- The value taken is the value of all sequences. -/
theorem History.value_takenIn (hR : ∀ d, R.decimals d → d = decimals)
    (h : M.History R (.initial owner limit) log st) :
    Decimal.value (takenIn log) decimals.toNat = ∑ n, (outStatus n log).value := by
  induction h with
  | nil => simp [takenIn, outStatus, OutStatus.value, OutStatus.transfer]
  | @cons log st ctx a hlog ha ih =>
      cases a with
      | useMessageSequence n t =>
          obtain ⟨-, hn, -, -, -, d, hd, htrims⟩ := ha
          rw [hR d hd] at htrims
          have hzero : (outStatus n log).value = 0 := by
            rw [hn, hlog.outStatus_none]
            rfl
          have hsum := Tally.sum_change (fun k => (outStatus k log).value)
            (fun k => ((outStatus k log).step k (.useMessageSequence n t)).value) n
            fun k hk => by simp only [OutStatus.value_step, Ne.symm hk, if_false]
          simp only [OutStatus.value_step, if_true, hzero, add_zero] at hsum
          simp only [takenIn_cons, outStatus_cons, OutStatus.value_step, Action.takes,
            Decimal.value_add, ih, htrims.value.1, hsum]
          ring
      | _ => simpa only [takenIn_cons, outStatus_cons, OutStatus.value_step, Action.takes,
          Nat.zero_add] using ih

/-- The value returned is the value of the sequences that were cancelled. -/
theorem History.value_returned (hR : ∀ d, R.decimals d → d = decimals)
    (h : M.History R (.initial owner limit) log st) :
    Decimal.value (returnedTo log) decimals.toNat = ∑ n, (outStatus n log).cancelledValue := by
  induction h with
  | nil => simp [returnedTo, outStatus, OutStatus.cancelledValue]
  | @cons log st ctx a hlog ha ih =>
      -- what no cancellation does
      have same (ha : a.returned = 0)
          (hs : ∀ n, ((outStatus n log).step n a).cancelledValue =
            (outStatus n log).cancelledValue) :
          Decimal.value (returnedTo (⟨a, ctx, st⟩ :: log)) decimals.toNat =
            ∑ n, (outStatus n (⟨a, ctx, st⟩ :: log)).cancelledValue := by
        simpa only [returnedTo_cons, outStatus_cons, ha, Nat.zero_add, hs] using ih
      cases a with
      | useMessageSequence n t =>
          refine same rfl fun k => ?_
          by_cases hn : n = k
          · subst hn
            obtain ⟨-, rfl, -⟩ := ha
            simp [OutStatus.step, hlog.outStatus_none, OutStatus.cancelledValue]
          · simp [OutStatus.step, hn]
      | enqueueOutbound n _ | releaseOutbound n | withdrawOutbound n | send n _ _ _ _ =>
          refine same rfl fun k => ?_
          by_cases hn : n = k <;> cases hs : outStatus k log <;>
            simp [OutStatus.step, hn, OutStatus.cancelledValue]
      | outboundTransferCancelled n recipient amount untrimmed =>
          obtain ⟨-, -, t, since, d, hd, ht, -, rfl, huntrim⟩ := ha
          rw [hR d hd] at huntrim
          obtain ⟨_, _, _, htrims⟩ := hlog.trims hR (n := n) (t := t) (by rw [ht]; rfl)
          have hvalue := value_untrim htrims.value.2 huntrim
          have hsum := Tally.sum_change (fun k => (outStatus k log).cancelledValue)
            (fun k => ((outStatus k log).step k (.outboundTransferCancelled n recipient
              t.amount untrimmed)).cancelledValue) n
            fun k hk => by simp only [OutStatus.step, Ne.symm hk, if_false]
          simp only [ht, OutStatus.step, if_true, OutStatus.cancelledValue, add_zero] at hsum
          simp only [returnedTo_cons, outStatus_cons, Action.returned, Decimal.value_add, ih,
            hvalue]
          rw [add_comm]
          exact hsum.symm
      | _ => exact same rfl fun _ => rfl

/-- A message in the log is that of its sequence, which stays sent. -/
theorem History.sent_of_send (h : M.History R (.initial owner limit) log st) {e : LogEntry}
    (he : e ∈ log) {n : UInt64} {chain : UInt16} {m : NttManagerMessage} {peer : Bytes32}
    {transceivers : List Address} (hact : e.act = .send n chain m peer transceivers) :
    ∃ t since, outStatus n log = .sent t since ∧ M.messageOf n t = .ok m ∧
      chain = t.recipientChain := by
  induction h with
  | nil => cases he
  | @cons log st ctx a hlog ha ih =>
      rcases List.mem_cons.mp he with rfl | he
      · subst hact
        obtain ⟨-, -, -, -, t, since, ht, -, hchain, hm, -⟩ := ha
        exact ⟨t, since, by simp [OutStatus.step, ht], hm, hchain⟩
      · obtain ⟨t, since, ht, hm, hchain⟩ := ih he
        refine ⟨t, since, ?_, hm, hchain⟩
        cases a with
        | useMessageSequence n' t' =>
            obtain ⟨-, rfl, -⟩ := ha
            have hne : st.messageSequence ≠ n := by
              rintro rfl
              rw [hlog.outStatus_none] at ht
              cases ht
            simp [OutStatus.step, hne, ht]
        | enqueueOutbound n' _ | releaseOutbound n' | withdrawOutbound n' | send n' _ _ _ _
          | outboundTransferCancelled n' _ _ _ =>
            by_cases hn : n' = n <;> simp [OutStatus.step, hn, ht]
        | _ => exact ht

/-- The peers have the decimals that the owner may set for them. -/
theorem History.peer_decimals {P : UInt16 → UInt8 → Prop}
    (hP : ∀ st log ctx chain peer d n, R.calls st log ctx (.setPeer chain peer d n) → P chain d)
    (h : M.History R (.initial owner limit) log st) {chain : UInt16}
    (hne : (st.peers chain).tokenDecimals ≠ 0) : P chain (st.peers chain).tokenDecimals := by
  induction h with
  | nil => exact absurd rfl hne
  | @cons log st ctx a _ ha ih =>
      cases a with
      | setPeer chain' peer =>
          by_cases hc : chain = chain'
          · subst hc
            obtain ⟨n, hn⟩ := ha.1
            simpa [Action.apply] using hP _ _ _ _ _ _ _ hn
          · simp only [Action.apply, Function.update_of_ne hc] at hne ⊢
            exact ih hne
      | _ => exact ih hne

/-! ### The inbound side -/

variable (M) in
/-- The value of the transfer in a message. -/
def messageValue (m : NttManagerMessage) : ℚ :=
  match parseNativeTokenTransfer M.bytes m.payload with
  | .ok t => t.amount.value
  | .error _ => 0

variable (M) in
/-- The value that a digest was executed with. -/
def executedValue (log : List LogEntry) (d : Bytes32) : ℚ :=
  (executedMessage d log).elim 0 M.messageValue

variable (M) in
/-- The value of a digest that was executed and is not paid for. -/
def waitingValue : InStatus → ℚ
  | .executing m => M.messageValue m
  | .queued amount _ | .released amount _ => amount.value
  | _ => 0

variable (M) in
/-- The amount in a message for this manager has no more decimals than it can keep. -/
def Fits (decimals : UInt8) (m : NttManagerMessage) : Prop :=
  ∀ t, parseNativeTokenTransfer M.bytes m.payload = .ok t → t.toChain = M.chainId →
    t.amount.getDecimals.toNat ≤ min 8 decimals.toNat

variable (M) in
/-- The messages that were executed fit. -/
def AllFit (decimals : UInt8) (log : List LogEntry) : Prop :=
  ∀ e ∈ log, ∀ chain source m d, e.act = .execute chain source m d → M.Fits decimals m

/-- A message that can be parsed is for this manager. -/
theorem parseTransfer_toChain {m : NttManagerMessage} {p : TrimmedAmount × Address}
    (h : M.parseTransfer m decimals = .ok p) :
    ∃ t, parseNativeTokenTransfer M.bytes m.payload = .ok t ∧ t.toChain = M.chainId ∧
      ∃ n, t.amount.untrim decimals = .ok n ∧ trim n decimals decimals = .ok p.1 := by
  simp only [parseTransfer, Except.bind_eq_ok, Except.pure_eq_ok, throwIf] at h
  obtain ⟨t, ht, u, hchain, n, hn, a, ha, r, -, rfl⟩ := h
  refine ⟨t, ht, ?_, n, hn, ha⟩
  by_contra hne
  rw [if_pos hne] at hchain
  cases hchain

/-- What is queued or paid out for a message has few enough decimals. -/
theorem parseTransfer_decimals {m : NttManagerMessage} {p : TrimmedAmount × Address}
    (h : M.parseTransfer m decimals = .ok p) : p.1.getDecimals.toNat ≤ decimals.toNat := by
  obtain ⟨t, -, -, n, -, ha⟩ := parseTransfer_toChain h
  rw [(trim_eq_ok.mp ha).1, toNat_wireDecimals]
  omega

/-- And is worth what the message says, if that fits. -/
theorem parseTransfer_value {m : NttManagerMessage} {p : TrimmedAmount × Address}
    (hfit : M.Fits decimals m) (h : M.parseTransfer m decimals = .ok p) :
    p.1.value = M.messageValue m := by
  obtain ⟨t, ht, hchain, n, hn, ha⟩ := parseTransfer_toChain h
  rw [(value_retrim (hfit t ht hchain) hn ha).1]
  simp only [messageValue, ht]

/-- The status of a digest that is being executed names the message. -/
theorem executedMessage_of_executing {d : Bytes32} {m : NttManagerMessage}
    (h : inStatus d log = .executing m) : executedMessage d log = some m := by
  induction log with
  | nil => cases h
  | cons e log ih =>
      obtain ⟨a, ctx, pre⟩ := e
      cases a with
      | execute chain source m' d' | enqueueInbound d' t | transferRedeemed d' r a n =>
          by_cases hd : d' = d <;> simp_all [executedMessage, InStatus.step]
      | dequeueInbound d' =>
          by_cases hd : d' = d <;> cases hs : inStatus d log <;>
            simp_all [executedMessage, InStatus.step]
      | _ => exact ih h

/-- A digest without a status was executed with no message. -/
theorem executedMessage_of_none {d : Bytes32} (h : inStatus d log = .none) :
    executedMessage d log = none := by
  induction log with
  | nil => rfl
  | cons e log ih =>
      obtain ⟨a, ctx, pre⟩ := e
      cases a with
      | execute chain source m' d' | enqueueInbound d' t | transferRedeemed d' r a n =>
          by_cases hd : d' = d <;> simp_all [executedMessage, InStatus.step]
      | dequeueInbound d' =>
          by_cases hd : d' = d <;> cases hs : inStatus d log <;>
            simp_all [executedMessage, InStatus.step]
      | _ => exact ih h

/-- The message of a digest was executed in an entry of the log. -/
theorem execute_of_executedMessage {d : Bytes32} {m : NttManagerMessage}
    (h : executedMessage d log = some m) :
    ∃ e ∈ log, ∃ chain source, e.act = .execute chain source m d := by
  induction log with
  | nil => cases h
  | cons e log ih =>
      have older (hold : executedMessage d log = some m) :
          ∃ e' ∈ e :: log, ∃ chain source, e'.act = .execute chain source m d := by
        obtain ⟨e', he', hact⟩ := ih hold
        exact ⟨e', List.mem_cons_of_mem _ he', hact⟩
      rw [executedMessage] at h
      split at h
      · rename_i chain source m' d' hact
        split at h
        · rename_i hd
          cases h
          exact ⟨e, List.mem_cons_self, chain, source, by rw [hact, hd]⟩
        · exact older h
      · exact older h

/-- What waits for a payout has few enough decimals. -/
theorem History.waiting_decimals (hR : ∀ d, R.decimals d → d = decimals)
    (h : M.History R (.initial owner limit) log st) {d : Bytes32} {amount : TrimmedAmount}
    {recipient : Address} (hs : inStatus d log = .queued amount recipient ∨
      inStatus d log = .released amount recipient) :
    amount.getDecimals.toNat ≤ decimals.toNat := by
  induction h with
  | nil => rcases hs with hs | hs <;> cases hs
  | @cons log st ctx a hlog ha ih =>
      cases a with
      | execute chain source m d' =>
          by_cases hd : d' = d
          · rcases hs with hs | hs <;> simp [InStatus.step, hd] at hs
          · exact ih (by simpa [InStatus.step, hd] using hs)
      | enqueueInbound d' t =>
          obtain ⟨m, d'', hd'', -, hparse, -⟩ := ha
          rw [hR d'' hd''] at hparse
          by_cases hd : d' = d
          · rcases hs with hs | hs <;> simp [InStatus.step, hd] at hs
            rw [← hs.1]
            exact parseTransfer_decimals hparse
          · exact ih (by simpa [InStatus.step, hd] using hs)
      | dequeueInbound d' =>
          by_cases hd : d' = d
          · subst hd
            have hold := hlog.inbound_queued ha.1
            rcases hs with hs | hs <;> simp [InStatus.step, hold] at hs
            exact ih (.inl (by rw [hold, hs.1, hs.2]))
          · exact ih (by simpa [InStatus.step, hd] using hs)
      | transferRedeemed d' r a n =>
          by_cases hd : d' = d
          · rcases hs with hs | hs <;> simp [InStatus.step, hd] at hs
          · exact ih (by simpa [InStatus.step, hd] using hs)
      | _ => exact ih hs

/-- An action on one digest changes what waits by what it makes of that digest. -/
theorem sum_waitingValue (e : LogEntry) (log : List LogEntry) (d : Bytes32)
    (hs : ∀ d', d' ≠ d → (inStatus d' log).step d' e.act = inStatus d' log) :
    ∑ k, M.waitingValue (inStatus k (e :: log)) + M.waitingValue (inStatus d log) =
      ∑ k, M.waitingValue (inStatus k log) + M.waitingValue ((inStatus d log).step d e.act) :=
  Tally.sum_change (fun k => M.waitingValue (inStatus k log))
    (fun k => M.waitingValue (inStatus k (e :: log))) d
    fun d' hd => by simp only [inStatus_cons, hs d' hd]

/-- An execution adds the value of its message. -/
theorem sum_executedValue {ctx : Context} {chain : UInt16} {source d : Bytes32}
    {m : NttManagerMessage} (hd : inStatus d log = .none) :
    ∑ k, M.executedValue (⟨.execute chain source m d, ctx, st⟩ :: log) k =
      ∑ k, M.executedValue log k + M.messageValue m := by
  have hsum := Tally.sum_change (M.executedValue log)
    (M.executedValue (⟨.execute chain source m d, ctx, st⟩ :: log)) d
    fun d' hd' => by simp [executedValue, executedMessage, Ne.symm hd']
  have hold : M.executedValue log d = 0 := by simp [executedValue, executedMessage_of_none hd]
  have hnew : M.executedValue (⟨.execute chain source m d, ctx, st⟩ :: log) d =
      M.messageValue m := by
    simp [executedValue, executedMessage]
  rw [hold, hnew, add_zero] at hsum
  exact hsum

/-- The value of all executed messages waits, or was paid out. -/
theorem History.value_redeemed (hR : ∀ d, R.decimals d → d = decimals)
    (h : M.History R (.initial owner limit) log st) (hfit : M.AllFit decimals log) :
    ∑ d, M.executedValue log d =
      Decimal.value (redeemed log) decimals.toNat + ∑ d, M.waitingValue (inStatus d log) := by
  induction h with
  | nil => simp [executedValue, executedMessage, redeemed, inStatus, waitingValue]
  | @cons log st ctx a hlog ha ih =>
      have hfit' : M.AllFit decimals log := fun e he => hfit e (List.mem_cons_of_mem _ he)
      have ih := ih hfit'
      have fits {d : Bytes32} {m : NttManagerMessage} (hs : inStatus d log = .executing m) :
          M.Fits decimals m := by
        obtain ⟨e, he, chain, source, hact⟩ :=
          execute_of_executedMessage (executedMessage_of_executing hs)
        exact hfit' e he chain source m d hact
      -- what neither executes nor pays out
      have same (hr : a.redeemed = 0)
          (hx : ∀ d, M.executedValue (⟨a, ctx, st⟩ :: log) d = M.executedValue log d)
          (hw : ∑ d, M.waitingValue (inStatus d (⟨a, ctx, st⟩ :: log)) =
            ∑ d, M.waitingValue (inStatus d log)) :
          ∑ d, M.executedValue (⟨a, ctx, st⟩ :: log) d =
            Decimal.value (redeemed (⟨a, ctx, st⟩ :: log)) decimals.toNat +
              ∑ d, M.waitingValue (inStatus d (⟨a, ctx, st⟩ :: log)) := by
        rw [redeemed_cons, hr, Nat.zero_add, hw, Finset.sum_congr rfl fun d _ => hx d]
        exact ih
      cases a with
      | execute chain source m d =>
          have hnone := hlog.inStatus_none ha.2.2.1
          have hwait := sum_waitingValue (M := M) ⟨.execute chain source m d, ctx, st⟩ log d
            fun d' hd => by simp [InStatus.step, Ne.symm hd]
          have hold : M.waitingValue (inStatus d log) = 0 := by rw [hnone]; rfl
          have hnew : M.waitingValue ((inStatus d log).step d (.execute chain source m d)) =
              M.messageValue m := by
            simp [InStatus.step, waitingValue]
          rw [hold, hnew] at hwait
          rw [sum_executedValue hnone, ih, redeemed_cons]
          simp only [Action.redeemed, Nat.zero_add]
          linarith
      | enqueueInbound d t =>
          obtain ⟨m, d', hd', hs, hparse, -⟩ := ha
          rw [hR d' hd'] at hparse
          have hwait := sum_waitingValue (M := M) ⟨.enqueueInbound d t, ctx, st⟩ log d
            fun d' hd => by simp [InStatus.step, Ne.symm hd]
          have hold : M.waitingValue (inStatus d log) = t.amount.value := by
            rw [hs, parseTransfer_value (p := (t.amount, t.recipient)) (fits hs) hparse]
            rfl
          have hnew : M.waitingValue ((inStatus d log).step d (.enqueueInbound d t)) =
              t.amount.value := by
            simp [InStatus.step, waitingValue]
          rw [hold, hnew, add_left_inj] at hwait
          exact same rfl (fun _ => rfl) hwait
      | dequeueInbound d =>
          have hs := hlog.inbound_queued ha.1
          have hwait := sum_waitingValue (M := M) ⟨.dequeueInbound d, ctx, st⟩ log d
            fun d' hd => by simp [InStatus.step, Ne.symm hd]
          have hsame : M.waitingValue ((inStatus d log).step d (.dequeueInbound d)) =
              M.waitingValue (inStatus d log) := by
            simp [InStatus.step, hs, waitingValue]
          rw [hsame, add_left_inj] at hwait
          exact same rfl (fun _ => rfl) hwait
      | transferRedeemed d recipient amount n =>
          obtain ⟨d', hd', huntrim, hs⟩ := ha
          rw [hR d' hd'] at huntrim
          have hwait := sum_waitingValue (M := M) ⟨.transferRedeemed d recipient amount n, ctx, st⟩ log d
            fun d' hd => by simp [InStatus.step, Ne.symm hd]
          obtain ⟨hle, hold⟩ : amount.getDecimals.toNat ≤ decimals.toNat ∧
              M.waitingValue (inStatus d log) = amount.value := by
            rcases hs with hs | ⟨m, d'', hd'', hs, hparse⟩
            · exact ⟨hlog.waiting_decimals hR (.inr hs), by rw [hs]; rfl⟩
            · rw [hR d'' hd''] at hparse
              refine ⟨parseTransfer_decimals hparse, ?_⟩
              rw [hs, parseTransfer_value (p := (amount, recipient)) (fits hs) hparse]
              rfl
          have hnew : M.waitingValue ((inStatus d log).step d
              (.transferRedeemed d recipient amount n)) = 0 := by
            simp [InStatus.step, waitingValue]
          rw [hold, hnew, add_zero] at hwait
          rw [redeemed_cons, Action.redeemed, Decimal.value_add, value_untrim hle huntrim]
          change ∑ d, M.executedValue log d = _
          linarith
      | _ => exact same rfl (fun _ => rfl) rfl

/-- A message that something was done for is for this manager. -/
theorem History.executed_here (h : M.History R (.initial owner limit) log st) {d : Bytes32}
    (hnone : inStatus d log ≠ .none) (hopen : (inStatus d log).isOpen = false) :
    ∃ m t, executedMessage d log = some m ∧
      parseNativeTokenTransfer M.bytes m.payload = .ok t ∧ t.toChain = M.chainId := by
  suffices hall : ∀ amount recipient, inStatus d log = .queued amount recipient ∨
      inStatus d log = .released amount recipient ∨ inStatus d log = .redeemed → ∃ m t,
        executedMessage d log = some m ∧
        parseNativeTokenTransfer M.bytes m.payload = .ok t ∧ t.toChain = M.chainId by
    cases hs : inStatus d log with
    | none => exact absurd hs hnone
    | executing m => rw [hs] at hopen; cases hopen
    | queued amount recipient => exact hall amount recipient (.inl hs)
    | released amount recipient => exact hall amount recipient (.inr (.inl hs))
    | redeemed => exact hall ⟨0⟩ 0 (.inr (.inr hs))
  clear hnone hopen
  intro amount recipient hs
  induction h generalizing amount recipient with
  | nil => rcases hs with hs | hs | hs <;> cases hs
  | @cons log st ctx a hlog ha ih =>
      have parsed {m : NttManagerMessage} {d' : UInt8} {p : TrimmedAmount × Address}
          (hm : inStatus d log = .executing m) (hp : M.parseTransfer m d' = .ok p) : ∃ m t,
            executedMessage d log = some m ∧
            parseNativeTokenTransfer M.bytes m.payload = .ok t ∧ t.toChain = M.chainId := by
        obtain ⟨t, ht, hchain, -⟩ := parseTransfer_toChain hp
        exact ⟨m, t, executedMessage_of_executing hm, ht, hchain⟩
      cases a with
      | execute chain source m d' =>
          by_cases hd : d' = d
          · rcases hs with hs | hs | hs <;> simp [InStatus.step, hd] at hs
          · simpa [executedMessage, hd] using
              ih amount recipient (by simpa [InStatus.step, hd] using hs)
      | enqueueInbound d' t =>
          obtain ⟨m, d'', -, hm, hparse, -⟩ := ha
          by_cases hd : d' = d
          · subst hd
            exact parsed hm hparse
          · exact ih amount recipient (by simpa [InStatus.step, hd] using hs)
      | dequeueInbound d' =>
          by_cases hd : d' = d
          · subst hd
            exact ih _ _ (.inl (hlog.inbound_queued ha.1))
          · exact ih amount recipient (by simpa [InStatus.step, hd] using hs)
      | transferRedeemed d' r a n =>
          obtain ⟨_, -, -, hbefore⟩ := ha
          by_cases hd : d' = d
          · subst hd
            rcases hbefore with hrel | ⟨m, d'', -, hm, hparse⟩
            · exact ih _ _ (.inr (.inl hrel))
            · exact parsed hm hparse
          · exact ih amount recipient (by simpa [InStatus.step, hd] using hs)
      | _ => exact ih amount recipient hs

/-! ### Nothing begun -/

/-- **The accounts of a manager.** With nothing begun and every executed message of a kind that the
manager can keep, what was taken and what was executed is worth what was given out, what is in the
queues, and what was sent. -/
theorem idle_accounts {issued : ℕ} {s : State} (hR : ∀ d, R.decimals d → d = decimals)
    (h : M.History R (.initial owner limit) s.log s.storage)
    (hbooks : M.Books issued ∅ ∅ ∅ s) (hfit : M.AllFit decimals s.log) :
    Decimal.value s.token.taken decimals.toNat + ∑ d, M.executedValue s.log d =
      Decimal.value s.token.given decimals.toNat + outboundValue s.storage +
        inboundValue s.storage + ∑ n, (outStatus n s.log).sentValue := by
  have hout : ∑ n, (outStatus n s.log).value = outboundValue s.storage +
      ∑ n, (outStatus n s.log).sentValue + ∑ n, (outStatus n s.log).cancelledValue := by
    rw [outboundValue, ← Finset.sum_add_distrib, ← Finset.sum_add_distrib]
    refine Finset.sum_congr rfl fun n _ => ?_
    rw [h.outbound_amount]
    refine OutStatus.value_eq (Bool.not_eq_true _ ▸ fun hf => ?_)
      (Bool.not_eq_true _ ▸ fun hw => ?_)
    · exact hbooks.inFlight n hf
    · exact hbooks.isWithdrawn n hw
  have hin : ∑ d, M.waitingValue (inStatus d s.log) = inboundValue s.storage := by
    refine Finset.sum_congr rfl fun d _ => ?_
    rw [h.inbound_amount]
    have hopen : ¬ (inStatus d s.log).isOpen = true := hbooks.inbound d
    cases hs : inStatus d s.log <;> simp_all [waitingValue, InStatus.queuedValue, InStatus.isOpen]
  have htaken := h.value_takenIn hR
  have hreturned := h.value_returned hR
  have hredeemed := h.value_redeemed hR hfit
  rw [hbooks.taken, hbooks.given, paidOut_eq, Decimal.value_add]
  linarith

end NttManager

end Ntt
