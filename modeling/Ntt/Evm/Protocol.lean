import Ntt.Evm.NttManager
import Ntt.Evm.RegistryInvariant

/-!
# The Manager as a Transition System

What a manager does, without how: `Permitted` says when each action may happen, as a condition
on the storage, on where its digest or sequence stands, and on the call. A `History` is a log
of permitted actions from an initial storage, and the storage they leave. That the programs of
the manager only produce histories, whatever the contracts they call do, is proved in
`Ntt.Evm.Refinement`; the safety claims are proved here and in the modules about them, by
induction on histories, with no program in sight.

## Main results

* `History.quorum_inv`: the registry and the threshold stay in order.
* `History.executed_iff`, `History.queued`: the executed flag and the inbound queue agree with
  where a digest stands.
* `History.outbound_queued`, `History.sequence_lt`: so do the outbound queue and the sequence
  counter with where a sequence stands.
-/

namespace Ntt

namespace NttManager

variable (M : NttManager)

/-- What the payload of a message says, at the decimals of the token: an amount in these
decimals, trimmed, and a recipient. -/
def parseTransfer (m : NttManagerMessage) (toDecimals : UInt8) :
    Except Error (TrimmedAmount × Address) := do
  let nativeTokenTransfer ← parseNativeTokenTransfer M.bytes m.payload
  throwIf (nativeTokenTransfer.toChain ≠ M.chainId)
    (.invalidTargetChain nativeTokenTransfer.toChain M.chainId)
  let untrimmed ← nativeTokenTransfer.amount.untrim toDecimals
  let nativeTransferAmount ← trim untrimmed toDecimals toDecimals
  let transferRecipient ← M.fromWormholeFormat nativeTokenTransfer.recipient
  return (nativeTransferAmount, transferRecipient)

/-- The message that a sequence and its transfer make. -/
def messageOf (sequence : UInt64) (t : Transfer) : Except Error NttManagerMessage :=
  M.encodeTransfer sequence t.amount t.recipientChain t.recipient t.sender

/-- What a transfer records is what arrived, trimmed without loss for its chain. -/
def Trims (decimals : UInt8) (st : Storage) (t : Transfer) : Prop :=
  (st.peers t.recipientChain).tokenDecimals ≠ 0 ∧
    trim t.received decimals (st.peers t.recipientChain).tokenDecimals = .ok t.amount ∧
    t.amount.untrim decimals = .ok t.received

/-- What is known of the calls to a manager, and of the replies of its token. -/
structure Rules where
  /-- The decimals that the token can report. -/
  decimals : UInt8 → Prop
  /-- The calls that can be made, on a storage and after a log. -/
  calls : Storage → List LogEntry → Context → Call → Prop

/-- The call that makes an operation on the registry or the threshold. -/
def callOf : RegistryOp → Call
  | .setTransceiver transceiver => .setTransceiver transceiver
  | .removeTransceiver transceiver => .removeTransceiver transceiver
  | .setThreshold threshold => .setThreshold threshold

/-- A transfer records the arguments of a call. -/
def Call.Asks (t : Transfer) : Call → Prop
  | .transfer amount recipientChain recipient refundAddress _ instructions =>
      t.requested = amount ∧ t.recipientChain = recipientChain ∧ t.recipient = recipient ∧
        t.refundAddress = refundAddress ∧ t.transceiverInstructions = instructions
  | .transferSimple amount recipientChain recipient =>
      t.requested = amount ∧ t.recipientChain = recipientChain ∧ t.recipient = recipient ∧
        t.refundAddress = recipient ∧ t.transceiverInstructions = [0]
  | _ => False

/-- When an action may happen: in a call, on a storage, after a log. -/
def Permitted (R : Rules) (ctx : Context) (st : Storage) (log : List LogEntry) :
    Action → Prop
  | .quorum op q => R.calls st log ctx (callOf op) ∧ st.owner = ctx.sender ∧
      op.apply st.quorum = .ok q
  | .setPeer chain peer =>
      (∃ n, R.calls st log ctx (.setPeer chain peer.peerAddress peer.tokenDecimals n)) ∧
        st.owner = ctx.sender ∧ chain ≠ 0 ∧ chain ≠ M.chainId ∧ peer.peerAddress ≠ 0 ∧
        peer.tokenDecimals ≠ 0
  | .outboundLimit op p =>
      op.apply M.rateLimitDuration ctx.timestamp st.outboundLimit = .ok p
  | .inboundLimit chain op p =>
      op.apply M.rateLimitDuration ctx.timestamp (st.inboundLimits chain) = .ok p
  | .setPaused paused => st.paused = !paused
  | .setPauser _ => st.pauser = ctx.sender ∨ st.owner = ctx.sender
  | .setOwner owner => st.owner = ctx.sender ∧ owner ≠ 0
  | .setEntered entered => st.entered = !entered
  | .attest chain source m digest index =>
      R.calls st log ctx (.attestationReceived chain source m) ∧
        (st.registry.transceiverInfos ctx.sender).enabled = true ∧
        index = st.registry.index ctx.sender ∧ st.paused = false ∧
        (st.peers chain).peerAddress = source ∧ M.digest chain m = .ok digest ∧
        index.toNat ∉ Bitmap.members (st.messageAttestations digest).attestedTransceivers
  | .execute chain source m digest =>
      M.digest chain m = .ok digest ∧ st.isMessageApproved digest = true ∧
        (st.messageAttestations digest).executed = false ∧ st.paused = false ∧
        (R.calls st log ctx (.executeMsg chain source m) ∨
          ∃ index st' log', log = ⟨.attest chain source m digest index, ctx, st'⟩ :: log')
  | .enqueueInbound digest t => ∃ m decimals, R.decimals decimals ∧
      inStatus digest log = .executing m ∧
      M.parseTransfer m decimals = .ok (t.amount, t.recipient) ∧ t.txTimestamp = ctx.timestamp
  | .dequeueInbound digest => (st.inboundQueue digest).txTimestamp ≠ 0 ∧
      (st.inboundQueue digest).txTimestamp.toNat + M.rateLimitDuration.toNat ≤ ctx.timestamp.toNat
  | .transferRedeemed digest recipient amount untrimmed => ∃ decimals, R.decimals decimals ∧
      amount.untrim decimals = .ok untrimmed ∧
      (inStatus digest log = .released amount recipient ∨
        ∃ m decimals', R.decimals decimals' ∧ inStatus digest log = .executing m ∧
          M.parseTransfer m decimals' = .ok (amount, recipient))
  | .useMessageSequence sequence t => st.entered = true ∧ sequence = st.messageSequence ∧
      sequence.toNat + 1 < 2 ^ 64 ∧ t.sender = ctx.sender ∧
      (∃ st' log' e, R.calls st' log' ctx e ∧ e.Asks t) ∧
      ∃ decimals, R.decimals decimals ∧ Trims decimals st t
  | .enqueueOutbound sequence e => st.entered = true ∧ e.txTimestamp = ctx.timestamp ∧
      ∃ t, outStatus sequence log = .inFlight t none ∧ e = t.queued ctx.timestamp
  | .releaseOutbound sequence => st.entered = true ∧
      (st.outboundQueue sequence).txTimestamp ≠ 0 ∧
      (st.outboundQueue sequence).txTimestamp.toNat + M.rateLimitDuration.toNat ≤
        ctx.timestamp.toNat
  | .withdrawOutbound sequence => st.entered = true ∧
      (st.outboundQueue sequence).txTimestamp ≠ 0 ∧
      (st.outboundQueue sequence).sender = ctx.sender
  | .send sequence chain m peer transceivers => st.entered = true ∧
      transceivers ≠ [] ∧ transceivers.Nodup ∧ (st.peers chain).peerAddress = peer ∧
      ∃ t queuedAt, outStatus sequence log = .inFlight t queuedAt ∧
        (∀ txTimestamp ∈ queuedAt,
          txTimestamp.toNat + M.rateLimitDuration.toNat ≤ ctx.timestamp.toNat) ∧
        chain = t.recipientChain ∧ M.messageOf sequence t = .ok m ∧
        (∃ b, encodeNttManagerMessage m = .ok b)
  | .outboundTransferCancelled sequence recipient amount untrimmed => st.entered = true ∧
      recipient = ctx.sender ∧ ∃ t txTimestamp decimals, R.decimals decimals ∧
      outStatus sequence log = .withdrawn t txTimestamp ∧ t.sender = recipient ∧ t.amount = amount ∧
      amount.untrim decimals = .ok untrimmed

/-- A log of permitted actions from an initial storage, with the storage it leaves. -/
inductive History (R : Rules) (init : Storage) : List LogEntry → Storage → Prop
  | nil : History R init [] init
  | cons {log : List LogEntry} {st : Storage} {ctx : Context} {a : Action} :
      History R init log st → M.Permitted R ctx st log a →
      History R init (⟨a, ctx, st⟩ :: log) (a.apply st)

variable {M} {R : Rules} {owner : Address} {limit : RateLimitParams}
  {log : List LogEntry} {st : Storage}

/-! ### The storage agrees with the log -/

/-- The registry and the threshold stay in order. -/
theorem History.quorum_inv (h : M.History R (.initial owner limit) log st) : st.quorum.Inv := by
  induction h with
  | nil => exact .empty
  | @cons log st ctx a _ ha ih =>
      cases a with
      | quorum op q =>
          have hspec := op.apply_spec ih
          rw [ha.2.2, RegistryOp.Spec] at hspec
          exact hspec.1
      | _ => exact ih

/-- A digest is marked as executed when its status says so. -/
theorem History.executed_iff (h : M.History R (.initial owner limit) log st) (d : Bytes32) :
    (st.messageAttestations d).executed = true ↔ inStatus d log ≠ .none := by
  induction h with
  | nil => simp [Storage.initial, inStatus]
  | @cons log st ctx a _ ha ih =>
      cases a with
      | attest chain source m d' index =>
          refine Iff.trans ?_ ih
          by_cases hd : d = d'
          · subst hd
            simp [Action.apply]
          · simp [Action.apply, hd]
      | execute chain source m d' =>
          by_cases hd : d = d'
          · subst hd
            simp [Action.apply, InStatus.step]
          · simpa [Action.apply, InStatus.step, hd, Ne.symm hd] using ih
      | enqueueInbound d' t =>
          obtain ⟨m, _, -, hm, -⟩ := ha
          refine ih.trans ?_
          by_cases hd : d' = d
          · subst hd
            simp [InStatus.step, hm]
          · simp [InStatus.step, hd]
      | dequeueInbound d' =>
          refine ih.trans ?_
          by_cases hd : d' = d
          · cases hs : inStatus d log <;> simp [InStatus.step, hd, hs]
          · simp [InStatus.step, hd]
      | transferRedeemed d' recipient amount n =>
          obtain ⟨_, -, -, hs⟩ := ha
          refine ih.trans ?_
          by_cases hd : d' = d
          · subst hd
            rcases hs with hs | ⟨m, _, -, hs, -⟩ <;> simp [InStatus.step, hs]
          · simp [InStatus.step, hd]
      | _ => exact ih

/-- A digest in the inbound queue has the status of its entry. -/
theorem History.inbound_queued (h : M.History R (.initial owner limit) log st) {d : Bytes32}
    (hq : (st.inboundQueue d).txTimestamp ≠ 0) :
    inStatus d log = .queued (st.inboundQueue d).amount (st.inboundQueue d).recipient := by
  induction h with
  | nil => exact absurd rfl hq
  | @cons log st ctx a hlog ha ih =>
      cases a with
      | execute chain source m d' =>
          by_cases hd : d' = d
          · subst hd
            -- a digest in the queue was executed before
            have := (hlog.executed_iff d').mpr (by rw [ih hq]; simp)
            rw [ha.2.2.1] at this
            exact absurd this Bool.false_ne_true
          · simpa [InStatus.step, hd, Action.apply] using ih hq
      | enqueueInbound d' t =>
          by_cases hd : d = d'
          · subst hd
            simp [InStatus.step, Action.apply]
          · simp only [Action.apply, Function.update_of_ne hd] at hq ⊢
            simpa [InStatus.step, Ne.symm hd] using ih hq
      | dequeueInbound d' =>
          by_cases hd : d = d'
          · subst hd
            simp only [Action.apply, Function.update_self] at hq
            exact absurd rfl hq
          · simp only [Action.apply, Function.update_of_ne hd] at hq ⊢
            simpa [InStatus.step, Ne.symm hd] using ih hq
      | transferRedeemed d' recipient amount n =>
          obtain ⟨_, -, -, hs⟩ := ha
          have hq' := ih hq
          by_cases hd : d' = d
          · subst hd
            rcases hs with hs | ⟨m, _, -, hs, -⟩ <;> rw [hs] at hq' <;> cases hq'
          · simpa [InStatus.step, hd, Action.apply] using hq'
      | _ => exact ih hq

/-- The sequences below the counter are those that were handed out. -/
theorem History.sequence_lt (h : M.History R (.initial owner limit) log st) (n : UInt64) :
    outStatus n log ≠ .none ↔ n < st.messageSequence := by
  induction h with
  | nil =>
      rw [UInt64.lt_iff_toNat_lt]
      simp [outStatus, Storage.initial]
  | @cons log st ctx a hlog ha ih =>
      cases a with
      | useMessageSequence n' t =>
          obtain ⟨-, rfl, hlt, -⟩ := ha
          have hnext : (st.messageSequence + 1).toNat = st.messageSequence.toNat + 1 :=
            UInt64.toNat_add_one hlt
          rw [UInt64.lt_iff_toNat_lt] at ih ⊢
          simp only [Action.apply, hnext]
          by_cases hn : st.messageSequence = n
          · subst hn
            simp [OutStatus.step]
          · have hne : n.toNat ≠ st.messageSequence.toNat :=
              fun h => hn (UInt64.toNat_inj.mp h).symm
            simp only [outStatus_cons, OutStatus.step, if_neg hn, ih]
            omega
      | enqueueOutbound n' e =>
          refine Iff.trans ?_ ih
          cases hs : outStatus n log <;> by_cases hn : n' = n <;> simp [OutStatus.step, hn, hs]
      | releaseOutbound n' =>
          refine Iff.trans ?_ ih
          cases hs : outStatus n log <;> by_cases hn : n' = n <;> simp [OutStatus.step, hn, hs]
      | withdrawOutbound n' =>
          refine Iff.trans ?_ ih
          cases hs : outStatus n log <;> by_cases hn : n' = n <;> simp [OutStatus.step, hn, hs]
      | send n' chain m peer ts =>
          refine Iff.trans ?_ ih
          cases hs : outStatus n log <;> by_cases hn : n' = n <;> simp [OutStatus.step, hn, hs]
      | outboundTransferCancelled n' recipient amount k =>
          refine Iff.trans ?_ ih
          cases hs : outStatus n log <;> by_cases hn : n' = n <;> simp [OutStatus.step, hn, hs]
      | _ => exact ih

/-- A sequence in the outbound queue has the status of its entry. -/
theorem History.outbound_queued (h : M.History R (.initial owner limit) log st) {n : UInt64}
    (hq : (st.outboundQueue n).txTimestamp ≠ 0) :
    ∃ t, outStatus n log = .queued t (st.outboundQueue n).txTimestamp ∧
      st.outboundQueue n = t.queued (st.outboundQueue n).txTimestamp := by
  induction h with
  | nil => exact absurd rfl hq
  | @cons log st ctx a hlog ha ih =>
      cases a with
      | useMessageSequence n' t =>
          obtain ⟨t', ht', he⟩ := ih hq
          refine ⟨t', ?_, he⟩
          change outStatus n _ = .queued t' (st.outboundQueue n).txTimestamp
          have hn : n' ≠ n := by
            rintro rfl
            have := (hlog.sequence_lt n').mp (by rw [ht']; simp)
            rw [ha.2.1] at this
            exact absurd this (UInt64.lt_irrefl _)
          simpa [OutStatus.step, hn] using ht'
      | enqueueOutbound n' e =>
          obtain ⟨-, hts, t, ht, he⟩ := ha
          by_cases hn : n = n'
          · subst hn
            subst he
            refine ⟨t, ?_, ?_⟩
            · simp [OutStatus.step, ht, Action.apply]
            · simp [Action.apply, Transfer.queued]
          · simp only [Action.apply, Function.update_of_ne hn] at hq ⊢
            simpa [OutStatus.step, Ne.symm hn] using ih hq
      | releaseOutbound n' =>
          by_cases hn : n = n'
          · subst hn
            simp only [Action.apply, Function.update_self] at hq
            exact absurd rfl hq
          · simp only [Action.apply, Function.update_of_ne hn] at hq ⊢
            simpa [OutStatus.step, Ne.symm hn] using ih hq
      | withdrawOutbound n' =>
          by_cases hn : n = n'
          · subst hn
            simp only [Action.apply, Function.update_self] at hq
            exact absurd rfl hq
          · simp only [Action.apply, Function.update_of_ne hn] at hq ⊢
            simpa [OutStatus.step, Ne.symm hn] using ih hq
      | send n' chain m peer ts =>
          obtain ⟨t', ht', he⟩ := ih hq
          refine ⟨t', ?_, he⟩
          change outStatus n _ = .queued t' (st.outboundQueue n).txTimestamp
          by_cases hn : n' = n <;> simp [OutStatus.step, hn, ht']
      | outboundTransferCancelled n' recipient amount k =>
          obtain ⟨t', ht', he⟩ := ih hq
          refine ⟨t', ?_, he⟩
          change outStatus n _ = .queued t' (st.outboundQueue n).txTimestamp
          by_cases hn : n' = n <;> simp [OutStatus.step, hn, ht']
      | _ => exact ih hq

end NttManager

end Ntt
