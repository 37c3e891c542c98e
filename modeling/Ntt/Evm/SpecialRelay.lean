import Ntt.Evm.NativeValue
import Ntt.Evm.SpecialRelayer

/-!
# Delivery by the Special Relayer

A Wormhole transceiver forwards to the special relayer the price of a delivery less the fee of
core. The signed quote that comes with the delivery asks for a payment of its own, and the
relayer returns what exceeds it to its caller. The caller is the transceiver, which has neither a
`receive` nor a `fallback` function: it cannot be paid. So a delivery by the special relayer goes
through only when the payment that was signed is the price on chain, to the last unit
(`special_relay_iff`).

## Main results

* `WormholeTransceiver.sendMessage_awaits`: what a transceiver requests of the relayer.
* `SpecialRelayer.GoodQuote.run_requestExecution`: a request with a good quote, up to its payments.
* `SpecialRelayer.GoodQuote.refund_fails`: how a request of a transceiver fails.
* `special_relay_iff`: when the request succeeds.
-/

namespace Ntt

open Reentrant BigEndian

/-! ### What the transceiver requests -/

namespace WormholeTransceiver

/-- A transceiver has no function that takes native value which comes by itself. -/
def receivesNative : Bool := false

variable {W : WormholeTransceiver} {s t : State} {es : List TransceiverEvent} {value v : ℕ}
  {chain dstChain : UInt16} {refundAddress recipientManager dstAddr : Bytes32}
  {instruction : TransceiverInstruction} {message signedQuote requestBytes : Bytes}
  {relayInstructions : Bytes} {refundAddr : Address}

/-- The runs of a sequence that calls first. -/
theorem ends_bind_external {α : Type} {x : TransceiverExt}
    {f : x.Reply → State → Res transceiverInterface State Error α}
    {o : Outcome transceiverInterface State Error α} :
    (((external x).run s).bind f).Ends anyAnswer es o ↔ (es = [] ∧ o = .awaiting x s) ∨
      ∃ r s' es', (f r s').Ends anyAnswer es' o ∧ es = ⟨x, r⟩ :: es' := by
  change (Res.call (X := transceiverInterface) x s f).Ends anyAnswer es o ↔ _
  rw [Res.ends_call]
  refine or_congr_right ⟨?_, ?_⟩
  · rintro ⟨r, s', l, es', rfl, h, rfl⟩
    exact ⟨r, s', es', h, rfl⟩
  · rintro ⟨r, s', es', h, rfl⟩
    exact ⟨r, s', _, es', rfl, h, rfl⟩

theorem ends_bind_messageFee {α : Type} {f : ℕ → State → Res transceiverInterface State Error α}
    {o : Outcome transceiverInterface State Error α} :
    ((messageFee.run s).bind f).Ends anyAnswer es o ↔ (es = [] ∧ o = .awaiting .messageFee s) ∨
      ∃ (fee : ℕ) (s' : State) (es' : List TransceiverEvent),
        (f fee s').Ends anyAnswer es' o ∧ es = ⟨.messageFee, fee⟩ :: es' :=
  ends_bind_external

theorem sendViaSpecialRelaying_awaits {payload quote : Bytes}
    (h : ((W.sendViaSpecialRelaying chain value quote payload).run s).Ends anyAnswer es
      (.awaiting (.requestExecution v dstChain dstAddr refundAddr signedQuote requestBytes
        relayInstructions) t)) :
    dstChain = chain ∧ signedQuote = quote ∧ relayInstructions = abiEncodeUint256 W.gasLimit := by
  simp only [sendViaSpecialRelaying, run_bind, ends_bind_messageFee, ends_bind_external,
    monadLift_eq_liftExcept, ends_bind_liftExcept, run_load, Res.bind_ret, run_pure, Res.ends_ret,
    Outcome.awaiting.injEq, reduceCtorEq, and_false, false_and, exists_false, false_or,
    or_false] at h
  obtain ⟨fee, s₁, es₁, ⟨r, s₂, es₂, ⟨payment, -, -, hx, -⟩, -⟩, -⟩ := h
  cases hx
  exact ⟨rfl, rfl, rfl⟩

/-- The other channels request nothing of the special relayer. -/
theorem sendViaStandardRelaying_not_awaits {payload : Bytes} :
    ¬ ((W.sendViaStandardRelaying chain value refundAddress payload).run s).Ends anyAnswer es
      (.awaiting (.requestExecution v dstChain dstAddr refundAddr signedQuote requestBytes
        relayInstructions) t) := by
  simp only [sendViaStandardRelaying, run_bind, run_load, Res.bind_ret, monadLift_eq_liftExcept,
    ends_bind_liftExcept, ends_bind_external, run_pure, Res.ends_ret, Outcome.awaiting.injEq,
    reduceCtorEq, and_false, false_and, exists_false, or_false, not_false_eq_true]

theorem sendManually_not_awaits {payload : Bytes} :
    ¬ ((W.sendManually value payload).run s).Ends anyAnswer es
      (.awaiting (.requestExecution v dstChain dstAddr refundAddr signedQuote requestBytes
        relayInstructions) t) := by
  simp only [sendManually, run_bind, ends_bind_external, run_pure, Res.ends_ret,
    Outcome.awaiting.injEq, reduceCtorEq, and_false, false_and, exists_false, or_false,
    not_false_eq_true]

/-- What is awaited under the guard is awaited by the body. -/
theorem nonReentrant_awaits {ctx : Context} {body : TransceiverProg Unit} {x : TransceiverExt}
    (h : ((nonReentrant ctx body).run s).Ends anyAnswer es (.awaiting x t)) :
    ∃ s', (body.run s').Ends anyAnswer es (.awaiting x t) := by
  rw [nonReentrant, run_bind, run_load, Res.bind_ret, run_bind, ends_bind_revertIf] at h
  obtain ⟨-, -, ⟨⟩⟩ | ⟨-, h⟩ := h
  rw [run_bind, run_perform, Res.bind_ret, run_bind, Res.ends_bind_awaiting] at h
  obtain h | ⟨_, _, _, _, -, h, -⟩ := h
  · exact ⟨_, h⟩
  · obtain ⟨-, ⟨⟩⟩ := ends_perform.mp h

/-- What a transceiver requests of the special relayer: an execution on the chain of the message,
under the signed quote of the caller, with its own gas limit. -/
theorem sendMessage_awaits {ctx : Context}
    (h : ((W.sendMessage ctx chain instruction message recipientManager refundAddress).run
      s).Ends anyAnswer es (.awaiting (.requestExecution v dstChain dstAddr refundAddr signedQuote
        requestBytes relayInstructions) t)) :
    dstChain = chain ∧ relayInstructions = abiEncodeUint256 W.gasLimit ∧
      ∃ weIns, W.parseWormholeTransceiverInstruction instruction.payload = .ok weIns ∧
        signedQuote = weIns.signedQuoteBytes := by
  obtain ⟨s₁, h⟩ := nonReentrant_awaits h
  rw [onlyNttManager, run_bind, ends_bind_revertIf] at h
  obtain ⟨-, -, ⟨⟩⟩ | ⟨-, h⟩ := h
  simp only [_sendMessage, run_bind, monadLift_eq_liftExcept, ends_bind_liftExcept, run_load,
    Res.bind_ret, run_ite, Res.ends_ite, reduceCtorEq, and_false, exists_false, false_or] at h
  obtain ⟨payload, -, weIns, hins, ⟨-, h⟩ | ⟨-, ⟨-, h⟩ | ⟨-, h⟩⟩⟩ := h
  · exact absurd h sendViaStandardRelaying_not_awaits
  · obtain ⟨hchain, hquote, hgas⟩ := sendViaSpecialRelaying_awaits h
    exact ⟨hchain, hgas, weIns, hins, hquote⟩
  · exact absurd h sendManually_not_awaits

/-- A transceiver that relays by the special relayer makes such a request, with what its value
leaves of the fee of core. -/
theorem sendMessage_requests (refundAddress : Bytes32) {ctx : Context}
    {weIns : WormholeTransceiverInstruction} {payload : Bytes} {fee : ℕ}
    (hentered : s.storage.entered = false)
    (hsender : ctx.sender = W.nttManager)
    (hins : W.parseWormholeTransceiverInstruction instruction.payload = .ok weIns)
    (hspecial : s.storage.relaysViaSpecialRelayer chain weIns = true)
    (henc : encodeTransceiverMessage WH_TRANSCEIVER_PAYLOAD_PREFIX
      ⟨W.toWormholeFormat ctx.sender, recipientManager, message, []⟩ = .ok payload)
    (hfee : fee ≤ ctx.value) :
    ∃ es t, ((W.sendMessage ctx chain instruction message recipientManager refundAddress).run
      s).Ends anyAnswer es (.awaiting (.requestExecution (ctx.value - fee) chain
        (s.storage.peers chain) 0 weIns.signedQuoteBytes payload (abiEncodeUint256 W.gasLimit))
          t) := by
  let s₁ := s.perform ctx (.setEntered true)
  let calls : List TransceiverEvent :=
    [⟨.messageFee, fee⟩, ⟨.publishMessage fee 0 payload W.consistencyLevel, ()⟩]
  have hrelay : ((W._sendMessage chain ctx.value ctx.sender recipientManager refundAddress
      instruction message).run s₁).Ends anyAnswer calls
        (.awaiting (.requestExecution (ctx.value - fee) chain (s.storage.peers chain) 0
          weIns.signedQuoteBytes payload (abiEncodeUint256 W.gasLimit)) s₁) := by
    rw [_sendMessage_special hins (by exact hspecial), henc, run_bind, run_liftExcept_ok,
      Res.bind_ret, sendViaSpecialRelaying, run_bind]
    refine ends_bind_messageFee.mpr (.inr ⟨fee, s₁, _, ?_, rfl⟩)
    rw [run_bind]
    refine ends_bind_external.mpr (.inr ⟨(), s₁, _, ?_, rfl⟩)
    have hsub : checkedSub ctx.value fee = .ok (ctx.value - fee) := checkedSub_eq_ok.mpr ⟨hfee, rfl⟩
    simp only [monadLift_eq_liftExcept, hsub, run_bind, run_liftExcept_ok, Res.bind_ret, run_load]
    exact ends_bind_external.mpr (.inl ⟨rfl, rfl⟩)
  refine ⟨calls, s₁, ?_⟩
  rw [sendMessage, nonReentrant, run_bind, run_load, Res.bind_ret, run_bind, ends_bind_revertIf]
  refine .inr ⟨by simp [hentered], ?_⟩
  rw [run_bind, run_perform, Res.bind_ret, run_bind, Res.ends_bind_awaiting]
  refine .inl ?_
  rw [onlyNttManager, run_bind, ends_bind_revertIf]
  exact .inr ⟨not_not.mpr hsender, hrelay⟩

end WormholeTransceiver

/-! ### What the relayer does with the request -/

namespace SpecialRelayer

/-- A call of a relayer with its reply. -/
abbrev RelayerEvent : Type := Event relayerInterface

/-- The payment that a call made, where it was accepted. -/
def payment? : RelayerEvent → Option (Address × ℕ)
  | ⟨.call recipient amount, accepted⟩ => bif accepted then some (recipient, amount) else none
  | _ => none

/-- The payments of an execution. -/
def payments (es : List RelayerEvent) : List (Address × ℕ) := es.filterMap payment?

/-- How calls of a relayer are answered. The registry of the quoters is only read. A payment hands
control to its recipient, which may leave any state behind; the payee accepts it, and a
transceiver cannot. -/
def answers (authorised : Address → Address → Bool) (transceiver payee : Address) :
    Answering relayerInterface State RelayerEvent
  | .requestQuote quoter dstChain dstAddr refundAddr requestBytes relayInstructions, s, r, s', e =>
      s' = s ∧
        e = ⟨.requestQuote quoter dstChain dstAddr refundAddr requestBytes relayInstructions, r⟩
  | .isAuthorizedQuoter quoter signer, s, r, s', e =>
      r = authorised quoter signer ∧ s' = s ∧ e = ⟨.isAuthorizedQuoter quoter signer, r⟩
  | .call recipient amount, _, r, _, e =>
      (recipient = transceiver → r = WormholeTransceiver.receivesNative) ∧
        (recipient = payee → r = true) ∧ e = ⟨.call recipient amount, r⟩

/-- A signed quote that a configured relayer has nothing against but, maybe, its payment: it is
well formed and unexpired, it names both chains and the gas limit, and an authorised quoter signed
it. -/
structure GoodQuote (R : SpecialRelayer) (authorised : Address → Address → Bool) (st : Storage)
    (timestamp : UInt64) (dstChain : UInt16) (gasLimit : ℕ) (signedQuoteBytes : Bytes)
    (q : ParsedQuote) : Prop where
  quoter : st.penguinBridgeExecutionQuoter ≠ 0
  sourceChain : st.sourceChainId ≠ 0
  parsed : parseSignedQuote signedQuoteBytes = .ok q
  pre : q.pre = SIGNED_QUOTE_PREFIX
  signedSourceChain : q.signedSourceChain = st.sourceChainId
  signedTargetChain : q.signedTargetChain = dstChain
  unexpired : timestamp ≤ q.expiryTime
  gasLimit : q.gasLimit = gasLimit
  signed : R.recoverQuoteSigner signedQuoteBytes = .ok q.quotedQuoter
  authorised : authorised st.penguinBridgeExecutionQuoter q.quotedQuoter = true
  payeeAddress : q.universalPayeeAddress.toNat < 2 ^ 160

variable {R : SpecialRelayer} {authorised : Address → Address → Bool} {s : State}
  {dstChain : UInt16} {gasLimit value : ℕ} {signedQuoteBytes : Bytes} {q : ParsedQuote}
  {transceiver payee : Address} {ctx : Context}

/-- A gas limit of a quote is read back as it was encoded. -/
theorem GoodQuote.decode {timestamp : UInt64} {st : Storage}
    (h : R.GoodQuote authorised st timestamp dstChain gasLimit signedQuoteBytes q) :
    abiDecodeUint256 (abiEncodeUint256 gasLimit) = .ok q.gasLimit := by
  have hlt : q.gasLimit < 256 ^ 32 := by
    have hparsed := h.parsed
    rw [parseSignedQuote] at hparsed
    split at hparsed
    · cases hparsed
    · obtain rfl := Except.ok.inj hparsed
      exact (beNat_lt _).trans_le (Nat.pow_le_pow_right (by decide) (by simp))
  rw [abiDecodeUint256, abiEncodeUint256, length_beBytes, if_neg (by decide), numberAt,
    List.drop_zero, List.take_of_length_le (length_beBytes 32 _).le, ← h.gasLimit,
    beNat_beBytes hlt]

/-- A good quote whose payment is covered comes to its payments. -/
theorem GoodQuote.run_validateAndPay
    (h : R.GoodQuote authorised s.storage ctx.timestamp dstChain gasLimit signedQuoteBytes q)
    (hvalue : q.requiredPayment ≤ ctx.value) :
    (R.validateAndPay ctx dstChain signedQuoteBytes (abiEncodeUint256 gasLimit)).run s =
      .call (.isAuthorizedQuoter s.storage.penguinBridgeExecutionQuoter q.quotedQuoter) s
        fun (authorized : Bool) s' => (do
          revertIf (authorized = false) (.invalidQuoteSigner q.quotedQuoter)
          revertIf (q.universalPayeeAddress.toNat ≥ 2 ^ 160)
            (.invalidPayeeAddress q.universalPayeeAddress)
          let st ← load
          payQuote ctx (payeeOf st q) q.requiredPayment : RelayerProg Unit).run s' := by
  have hexpiry : ¬ ctx.timestamp > q.expiryTime := UInt64.not_lt.mpr h.unexpired
  have hpayment : ¬ ctx.value < q.requiredPayment := not_lt.mpr hvalue
  simp only [validateAndPay, run_bind, run_load, Res.bind_ret, run_revertIf,
    monadLift_eq_liftExcept, h.quoter, h.sourceChain, h.parsed, run_liftExcept_ok, h.pre,
    h.signedSourceChain, h.signedTargetChain, ne_eq, not_true_eq_false, if_false, hexpiry, hpayment,
    h.decode, h.signed]
  rfl

/-- The state in which a request makes its payments. -/
def State.requested (s : State) (ctx : Context) : State :=
  (s.receive ctx.sender ctx.value).update fun st => { st with entered := true }

/-- What is left of a request after its payments. -/
def finish (dstChain : UInt16) (dstAddr : Bytes32) (requestBytes relayInstructions : Bytes) :
    RelayerProg Unit := do
  modify fun s => { s with
    log := .executionRequested dstChain dstAddr requestBytes relayInstructions :: s.log }
  modify (·.update fun st => { st with entered := false })

/-- Under a good quote whose payment is covered, a request comes to its payments. -/
theorem GoodQuote.run_requestExecution {dstAddr : Bytes32} {refundAddr : Address}
    {requestBytes : Bytes}
    (h : R.GoodQuote authorised s.storage ctx.timestamp dstChain gasLimit signedQuoteBytes q)
    (hvalue : q.requiredPayment ≤ ctx.value) (hentered : s.storage.entered = false) :
    (R.requestExecution ctx dstChain dstAddr refundAddr signedQuoteBytes requestBytes
      (abiEncodeUint256 gasLimit)).run s =
      .call (.isAuthorizedQuoter s.storage.penguinBridgeExecutionQuoter q.quotedQuoter)
        (s.requested ctx) fun (authorized : Bool) s' => (do
          revertIf (authorized = false) (.invalidQuoteSigner q.quotedQuoter)
          let st ← load
          payQuote ctx (payeeOf st q) q.requiredPayment
          finish dstChain dstAddr requestBytes (abiEncodeUint256 gasLimit) :
            RelayerProg Unit).run s' := by
  have h' : R.GoodQuote authorised (s.requested ctx).storage ctx.timestamp dstChain gasLimit
      signedQuoteBytes q :=
    ⟨h.quoter, h.sourceChain, h.parsed, h.pre, h.signedSourceChain, h.signedTargetChain,
      h.unexpired, h.gasLimit, h.signed, h.authorised, h.payeeAddress⟩
  have hpayee : ¬ q.universalPayeeAddress.toNat ≥ 2 ^ 160 := not_le.mpr h.payeeAddress
  have hrun : (R.requestExecution ctx dstChain dstAddr refundAddr signedQuoteBytes requestBytes
      (abiEncodeUint256 gasLimit)).run s =
        ((R.validateAndPay ctx dstChain signedQuoteBytes (abiEncodeUint256 gasLimit)).run
          (s.requested ctx)).bind fun _ => (finish dstChain dstAddr requestBytes
            (abiEncodeUint256 gasLimit)).run := by
    simp only [requestExecution, nonReentrant, run_bind, run_modify, run_load, run_revertIf,
      Res.bind_ret, State.receive, hentered, reduceCtorEq, if_false, Res.bind_assoc]
    rfl
  rw [hrun, h'.run_validateAndPay hvalue]
  refine congrArg (Res.call _ _) (funext₂ fun authorized s' => ?_)
  simp only [run_bind, run_revertIf, hpayee, if_false, Res.bind_ret, run_load, Res.bind_assoc]
  rfl

/-- A request is refused while another is at work. -/
theorem run_requestExecution_of_entered {dstAddr : Bytes32} {refundAddr : Address}
    {requestBytes relayInstructions : Bytes} (hentered : s.storage.entered = true) :
    (R.requestExecution ctx dstChain dstAddr refundAddr signedQuoteBytes requestBytes
      relayInstructions).run s = .revert .reentrantCall := by
  simp [requestExecution, nonReentrant, run_modify, run_load, run_revertIf, State.receive, hentered]

/-- A payment that is funded, with what comes after it. -/
theorem bind_callValue {α : Type} {recipient : Address} {amount : ℕ}
    {f : Bool → State → Res relayerInterface State RelayerError α} (hfunds : amount ≤ s.balance) :
    ((callValue recipient amount).run s).bind f =
      .call (.call recipient amount) (s.pay recipient amount) fun (accepted : Bool) s' =>
        f accepted (bif accepted then s' else s) := by
  simp only [callValue, run_bind, run_get, Res.bind_ret, not_lt.mpr hfunds, if_false, run_modify]
  refine congrArg (Res.call _ _) (funext₂ fun accepted s' => ?_)
  cases accepted with
  | true => rfl
  | false => rfl

/-- When there is something to return to a transceiver, the request reverts, although the payee
takes its payment. -/
theorem GoodQuote.refund_fails {dstAddr : Bytes32} {refundAddr : Address} {requestBytes : Bytes}
    (h : R.GoodQuote authorised s.storage ctx.timestamp dstChain gasLimit signedQuoteBytes q)
    (hvalue : q.requiredPayment < ctx.value) (hpayee : payeeOf s.storage q ≠ ctx.sender)
    (hentered : s.storage.entered = false) :
    ∃ calls, ((R.requestExecution ctx dstChain dstAddr refundAddr signedQuoteBytes requestBytes
      (abiEncodeUint256 gasLimit)).run s).Ends
        (answers authorised ctx.sender (payeeOf s.storage q)) calls
        (.reverted (.refundFailed ctx.sender (ctx.value - q.requiredPayment))) := by
  let paid := (s.requested ctx).pay (payeeOf s.storage q) q.requiredPayment
  have hfunds : q.requiredPayment ≤ (s.requested ctx).balance :=
    hvalue.le.trans (Nat.le_add_left _ _)
  have hleft : ctx.value - q.requiredPayment ≤ paid.balance :=
    Nat.sub_le_sub_right (Nat.le_add_left _ _) _
  have hrefund : ctx.value - q.requiredPayment > 0 := by omega
  rw [h.run_requestExecution hvalue.le hentered]
  refine Res.exists_ends_call _ ⟨h.authorised.symm, rfl, rfl⟩ ?_
  simp only [run_bind, run_revertIf, reduceCtorEq, if_false, Res.bind_ret, run_load, payQuote,
    Res.bind_assoc]
  rw [bind_callValue hfunds]
  refine Res.exists_ends_call paid ⟨fun hp => absurd hp hpayee, fun _ => rfl, rfl⟩ ?_
  simp only [run_bind, run_revertIf, reduceCtorEq, if_false, Res.bind_ret, cond_true, hrefund,
    if_true, Res.bind_assoc]
  rw [bind_callValue hleft]
  refine Res.exists_ends_call paid ⟨fun _ => rfl, fun hp => absurd hp.symm hpayee, rfl⟩ ?_
  exact ⟨[], .revert _⟩

/-- The caller has to be one that takes native value, unless there is nothing to return. -/
theorem GoodQuote.settles_iff (ctx : Context) {dstAddr : Bytes32} {refundAddr : Address}
    {requestBytes : Bytes}
    (h : R.GoodQuote authorised s.storage ctx.timestamp dstChain gasLimit signedQuoteBytes q)
    (hvalue : q.requiredPayment ≤ ctx.value) (hpayee : payeeOf s.storage q ≠ ctx.sender)
    (user : Address) :
    ((R.requestExecution ctx dstChain dstAddr refundAddr signedQuoteBytes requestBytes
      (abiEncodeUint256 gasLimit)).run s).Always
        (answers authorised ctx.sender (payeeOf s.storage q))
        (fun calls _ _ => payments calls = (payeeOf s.storage q, q.requiredPayment) ::
          if q.requiredPayment < ctx.value then [(user, ctx.value - q.requiredPayment)] else []) ↔
      q.requiredPayment = ctx.value ∧ s.storage.entered = false := by
  constructor
  · intro H
    have hentered : s.storage.entered = false := by
      by_contra hne
      rw [run_requestExecution_of_entered (Bool.not_eq_false _ ▸ hne)] at H
      exact Res.not_always_revert H
    refine ⟨?_, hentered⟩
    by_contra hne
    obtain ⟨calls, hcalls⟩ := h.refund_fails (lt_of_le_of_ne hvalue hne) hpayee hentered
    exact H.1 _ _ hcalls
  · rintro ⟨hvalue', hentered⟩
    have hfunds : q.requiredPayment ≤ (s.requested ctx).balance :=
      hvalue.trans (Nat.le_add_left _ _)
    have hrefund : ¬ ctx.value - q.requiredPayment > 0 := by omega
    have hrest : ¬ q.requiredPayment < ctx.value := by omega
    rw [h.run_requestExecution hvalue hentered]
    refine Res.always_call.mpr ?_
    rintro r s' l ⟨hr, rfl, rfl⟩
    obtain rfl : r = true := hr.trans h.authorised
    simp only [run_bind, run_revertIf, reduceCtorEq, if_false, Res.bind_ret, run_load, payQuote,
      Res.bind_assoc]
    rw [bind_callValue hfunds]
    refine Res.always_call.mpr ?_
    rintro accepted s' l ⟨-, haccepts, rfl⟩
    obtain rfl : accepted = true := haccepts rfl
    simp only [run_bind, reduceCtorEq, if_false, Res.bind_ret, hrefund, run_pure, finish,
      run_modify, Res.always_ret, hrest]
    rfl

end SpecialRelayer

/-! ### Both together -/

variable {R : SpecialRelayer} {W : WormholeTransceiver} {st t : WormholeTransceiver.State}
  {s : SpecialRelayer.State} {authorised : Address → Address → Bool} {q : ParsedQuote}
  {ctx : Context} {es : List WormholeTransceiver.TransceiverEvent} {v : ℕ}
  {chain dstChain : UInt16} {recipientManager refundAddress dstAddr : Bytes32}
  {refundAddr : Address} {instruction : TransceiverInstruction}
  {weIns : WormholeTransceiverInstruction}
  {message signedQuote requestBytes relayInstructions : Bytes}

open SpecialRelayer in
/-- A transceiver sends a message by the special relayer, with a signed quote that is in order and
asks for no more than the transceiver forwards. The request always succeeds, pays the payee what
the quote asks for and the user the rest, if and only if there is no rest, and the relayer is not
at work already. -/
theorem special_relay_iff
    (h : ((W.sendMessage ctx chain instruction message recipientManager refundAddress).run
      st).Ends anyAnswer es (.awaiting (.requestExecution v dstChain dstAddr refundAddr signedQuote
        requestBytes relayInstructions) t))
    (hins : W.parseWormholeTransceiverInstruction instruction.payload = .ok weIns)
    (hquote : R.GoodQuote authorised s.storage ctx.timestamp chain W.gasLimit
      weIns.signedQuoteBytes q)
    (hvalue : q.requiredPayment ≤ v) (hpayee : payeeOf s.storage q ≠ W.this) (user : Address) :
    ((R.requestExecution ⟨W.this, v, ctx.timestamp, ctx.chainid⟩ dstChain dstAddr refundAddr
      signedQuote requestBytes relayInstructions).run s).Always
        (answers authorised W.this (payeeOf s.storage q))
        (fun calls _ _ => payments calls = (payeeOf s.storage q, q.requiredPayment) ::
          if q.requiredPayment < v then [(user, v - q.requiredPayment)] else []) ↔
      q.requiredPayment = v ∧ s.storage.entered = false := by
  obtain ⟨hchain, hgas, weIns', hins', hbytes⟩ := WormholeTransceiver.sendMessage_awaits h
  obtain rfl : weIns' = weIns := Except.ok.inj (hins'.symm.trans hins)
  rw [hchain, hgas, hbytes]
  exact hquote.settles_iff ⟨W.this, v, ctx.timestamp, ctx.chainid⟩ hvalue hpayee user

/-! ### A quote of 5, and one of 4 -/

/-- A quote for a delivery from chain 2 to chain 4 that pays the account `0xFEE`. -/
def sampleQuote (payment : ℕ) : Bytes :=
  beBytes 4 0x50513031 ++ beBytes 20 0x51 ++ beBytes 32 0xFEE ++ beBytes 2 2 ++ beBytes 2 4 ++
    beBytes 8 2000 ++ beBytes 32 500000 ++ beBytes 32 payment ++ List.replicate 65 0

/-- What the relayer reads of it. -/
def sampleParsed (payment : ℕ) : ParsedQuote where
  pre := SIGNED_QUOTE_PREFIX
  quotedQuoter := 0x51
  universalPayeeAddress := 0xFEE
  signedSourceChain := 2
  signedTargetChain := 4
  expiryTime := 2000
  gasLimit := 500000
  requiredPayment := payment

/-- A relayer for which every signature is of the account `0x51`. -/
def sampleRelayer : SpecialRelayer where
  this := 0x5BE
  keccak256 _ := 0
  recover _ _ _ _ := .ok 0x51

/-- The state of the relayer, on chain 2. -/
def sampleIdle : SpecialRelayer.State where
  storage :=
    { owner := 0xA, pendingOwner := 0, penguinBridgeExecutionQuoter := 0x99, sourceChainId := 2,
      entered := false }
  balance := 0
  log := []

/-- The quote is in order, whatever it asks for. -/
theorem sampleQuote_good {payment : ℕ}
    (hparse : parseSignedQuote (sampleQuote payment) = .ok (sampleParsed payment)) :
    sampleRelayer.GoodQuote (fun _ signer => signer == 0x51) sampleIdle.storage 1000 4 500000
      (sampleQuote payment) (sampleParsed payment) where
  quoter := by decide
  sourceChain := by decide
  parsed := hparse
  pre := rfl
  signedSourceChain := rfl
  signedTargetChain := rfl
  unexpired := show (1000 : UInt64) ≤ 2000 by decide
  gasLimit := rfl
  signed := rfl
  authorised := rfl
  payeeAddress := show (0xFEE : Bytes32).toNat < 2 ^ 160 by decide

/-- The context in which the manager hands the transceiver a message and the value 6. -/
def sampleDelivery : Context := ⟨0x1000, 6, 1000, 1⟩

/-- The caller asks for the special relayer, under a quote. -/
def sampleInstruction (payment : ℕ) : TransceiverInstruction := ⟨0, 0 :: sampleQuote payment⟩

/-- With a fee of 1, the sample transceiver requests an execution for 5. -/
theorem sample_requests {payment : ℕ}
    (hins : (NttManager.sampleTransceiver 0x71).parseWormholeTransceiverInstruction
      (sampleInstruction payment).payload = .ok ⟨false, sampleQuote payment⟩) :
    ∃ es t payload, (((NttManager.sampleTransceiver 0x71).sendMessage sampleDelivery 4
      (sampleInstruction payment) [] 0x99 0).run NttManager.sampleRelaying).Ends anyAnswer es
        (.awaiting (.requestExecution 5 4 0x99 0 (sampleQuote payment) payload
          (abiEncodeUint256 500000)) t) := by
  have hpeer : NttManager.sampleRelaying.storage.peers 4 = 0x99 := by decide
  have hidle : NttManager.sampleRelaying.storage.entered = false := rfl
  have hsender : sampleDelivery.sender = (NttManager.sampleTransceiver 0x71).nttManager := rfl
  have hspecial : NttManager.sampleRelaying.storage.relaysViaSpecialRelayer 4
      ⟨false, sampleQuote payment⟩ = true := by
    simp [WormholeTransceiver.Storage.relaysViaSpecialRelayer,
      WormholeTransceiver.Storage.shouldRelayViaStandardRelaying, NttManager.sampleRelaying,
      WormholeTransceiver.Storage.initial]
  obtain ⟨payload, hencode⟩ : ∃ payload, encodeTransceiverMessage WH_TRANSCEIVER_PAYLOAD_PREFIX
      ⟨(NttManager.sampleTransceiver 0x71).toWormholeFormat sampleDelivery.sender, 0x99, [], []⟩ =
        .ok payload := ⟨_, rfl⟩
  have hfee : 1 ≤ sampleDelivery.value := by decide
  obtain ⟨es, t, h⟩ := WormholeTransceiver.sendMessage_requests 0 hidle hsender hins hspecial
    hencode hfee
  rw [hpeer] at h
  exact ⟨es, t, payload, h⟩

/-- When the quote asks for 5, the request succeeds and pays them. -/
theorem sample_special_relay : ∃ payload,
    ((sampleRelayer.requestExecution ⟨0x71, 5, 1000, 1⟩ 4 0x99 0 (sampleQuote 5) payload
      (abiEncodeUint256 500000)).run sampleIdle).Always
        (SpecialRelayer.answers (fun _ signer => signer == 0x51) 0x71 0xFEE)
        fun calls _ _ => SpecialRelayer.payments calls = [(0xFEE, 5)] := by
  have hparse : parseSignedQuote (sampleQuote 5) = .ok (sampleParsed 5) := by decide +kernel
  have hins : (NttManager.sampleTransceiver 0x71).parseWormholeTransceiverInstruction
      (sampleInstruction 5).payload = .ok ⟨false, sampleQuote 5⟩ := by decide +kernel
  obtain ⟨es, t, payload, h⟩ := sample_requests hins
  have hcovered : (sampleParsed 5).requiredPayment ≤ 5 := by decide
  have hpayee : SpecialRelayer.payeeOf sampleIdle.storage (sampleParsed 5) ≠
      (NttManager.sampleTransceiver 0x71).this := by decide
  exact ⟨payload, (special_relay_iff h hins (sampleQuote_good hparse) hcovered hpayee 0x5000).mpr
    ⟨rfl, rfl⟩⟩

/-- When the quote asks for 4, the relayer cannot return the unit that is left: the request
reverts, although the payee takes its payment. -/
theorem overpaid_request_reverts :
    sampleRelayer.GoodQuote (fun _ signer => signer == 0x51) sampleIdle.storage 1000 4 500000
      (sampleQuote 4) (sampleParsed 4) ∧
    (∃ es t payload, (((NttManager.sampleTransceiver 0x71).sendMessage sampleDelivery 4
      (sampleInstruction 4) [] 0x99 0).run NttManager.sampleRelaying).Ends anyAnswer es
        (.awaiting (.requestExecution 5 4 0x99 0 (sampleQuote 4) payload
          (abiEncodeUint256 500000)) t)) ∧
    ∀ payload, ∃ calls,
      ((sampleRelayer.requestExecution ⟨0x71, 5, 1000, 1⟩ 4 0x99 0 (sampleQuote 4) payload
        (abiEncodeUint256 500000)).run sampleIdle).Ends
          (SpecialRelayer.answers (fun _ signer => signer == 0x51) 0x71 0xFEE) calls
          (.reverted (.refundFailed 0x71 1)) := by
  have hparse : parseSignedQuote (sampleQuote 4) = .ok (sampleParsed 4) := by decide +kernel
  have hgood := sampleQuote_good hparse
  refine ⟨hgood, sample_requests (by decide +kernel), fun payload => ?_⟩
  have hcovered : (sampleParsed 4).requiredPayment < (⟨0x71, 5, 1000, 1⟩ : Context).value := by
    decide
  exact hgood.refund_fails hcovered (by decide) rfl

end Ntt
