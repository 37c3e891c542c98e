import Ntt.Evm.Runs
import Ntt.Evm.WormholeTransceiver
import Ntt.Lib.Trace

/-!
# The Native Value of a Transfer

A transfer comes with native value that pays for the delivery of its message. The manager asks
each enabled transceiver for its price, hands it exactly that price, and returns the rest to the
caller; a transceiver passes on all that it was handed to its delivery channel. So no contract
keeps or loses anything.

The one place where a transceiver subtracts is the special relayer's branch, which takes the fee
of core off the price. The fee is read again when the message is sent: a fee that was raised in
between, above the price, makes the subtraction revert, and the transfer with it
(`raised_fee_reverts`).

## Main results

* `WormholeTransceiver.sendMessage_forwards`, `WormholeTransceiver.quoteDeliveryPrice_quoted`:
  the branches of a delivery and of a quote.
* `WormholeTransceiver.sendMessage_underflow`: when the subtraction reverts.
* `NttManager.native_value_conserved`: the statement about a whole transfer.
-/

namespace Ntt

open Reentrant

/-- Encoding a message fails on its lengths only. -/
theorem encodeTransceiverMessage_ne_overflow {pre : BitVec 32} {m : TransceiverMessage} :
    encodeTransceiverMessage pre m ≠ .error .arithmeticOverflow := by
  have hcheck (payload : Bytes) : checkPayloadLength payload ≠ .error .arithmeticOverflow := by
    rw [checkPayloadLength, throwIf]
    split <;> simp [bind, Except.bind, pure, Except.pure]
  rw [encodeTransceiverMessage]
  cases h₁ : checkPayloadLength m.nttManagerPayload with
  | error e =>
      intro h
      obtain rfl : e = .arithmeticOverflow := Except.error.inj h
      exact hcheck _ h₁
  | ok n =>
      cases h₂ : checkPayloadLength m.transceiverPayload with
      | error e =>
          intro h
          obtain rfl : e = .arithmeticOverflow := Except.error.inj h
          exact hcheck _ h₂
      | ok n' => simp [bind, Except.bind, pure, Except.pure]

/-! ### Transceivers -/

namespace WormholeTransceiver

/-- A call of a transceiver with its reply. -/
abbrev TransceiverEvent : Type := Event transceiverInterface

/-- The native value that a transceiver passes on. -/
def forwarded (es : List TransceiverEvent) : ℕ := (es.map fun e => e.ext.value).sum

/-- The calls of a delivery of some value: what each branch pays to whom. -/
inductive Forwards (W : WormholeTransceiver) (value : ℕ) : List TransceiverEvent → Prop
  | standard {provider : Address} {chain : UInt16} {target refundRecipient : Address}
      {payload : Bytes} :
      Forwards W value [⟨.getDefaultDeliveryProvider, provider⟩,
        ⟨.sendToEvm value chain target payload 0 0 W.gasLimit chain refundRecipient provider
          W.consistencyLevel, ()⟩]
  | special {fee : ℕ} {chain : UInt16} {peer : Bytes32} {signedQuote payload : Bytes} :
      fee ≤ value →
      Forwards W value [⟨.messageFee, fee⟩, ⟨.publishMessage fee 0 payload W.consistencyLevel, ()⟩,
        ⟨.requestExecution (value - fee) chain peer 0 signedQuote payload
          (abiEncodeUint256 W.gasLimit), ()⟩]
  | manual {payload : Bytes} :
      Forwards W value [⟨.publishMessage value 0 payload W.consistencyLevel, ()⟩]

/-- The calls of a quote: what the price is made of. -/
inductive Quoted (W : WormholeTransceiver) (price : ℕ) : List TransceiverEvent → Prop
  | fee : Quoted W price [⟨.messageFee, price⟩]
  | standard {chain : UInt16} :
      Quoted W price [⟨.quoteEVMDeliveryPrice chain 0 W.gasLimit, price⟩]
  | special {cost fee : ℕ} {chain : UInt16} {peer : Bytes32} :
      cost + fee = price →
      Quoted W price [⟨.quoteSpecialDeliveryPrice W.nttManagerToken chain 0 peer
        (abiEncodeUint256 W.gasLimit), cost⟩, ⟨.messageFee, fee⟩]

variable {W : WormholeTransceiver} {s t : State} {es : List TransceiverEvent} {value price : ℕ}

/-- Every branch passes on all the value. -/
theorem Forwards.forwarded_eq (h : W.Forwards value es) : forwarded es = value := by
  cases h with
  | special hle =>
      simp only [forwarded, List.map_cons, List.map_nil, TransceiverExt.value, List.sum_cons,
        List.sum_nil]
      omega
  | _ => simp [forwarded, TransceiverExt.value]

/-- The fee that core reports for a quote is part of the price. -/
theorem Quoted.fee_le (h : W.Quoted price es) {fee : ℕ}
    (hfee : (⟨.messageFee, fee⟩ : TransceiverEvent) ∈ es) : fee ≤ price := by
  cases h with
  | fee =>
      cases List.mem_singleton.mp hfee
      exact le_rfl
  | standard => cases List.mem_singleton.mp hfee
  | special hsum =>
      rcases List.mem_cons.mp hfee with h | h
      · cases h
      · cases List.mem_singleton.mp h
        omega

@[simp] theorem ends_load {o : Outcome transceiverInterface State Error Storage} :
    (load.run s).Ends anyAnswer es o ↔ es = [] ∧ o = .returned s.storage s :=
  Res.ends_ret

@[simp] theorem ends_perform {ctx : Context} {a : Action}
    {o : Outcome transceiverInterface State Error Unit} :
    ((perform ctx a).run s).Ends anyAnswer es o ↔ es = [] ∧ o = .returned () (s.perform ctx a) :=
  Res.ends_ret

@[simp] theorem ends_external {x : TransceiverExt} {r : x.Reply} :
    ((external x).run s).Ends anyAnswer es (.returned r t) ↔ es = [⟨x, r⟩] := by
  rw [external, ends_ext_returned]
  simp [anyAnswer]

@[simp] theorem not_ends_external {x : TransceiverExt} {e : Error} :
    ¬ ((external x).run s).Ends anyAnswer es (.reverted e) :=
  not_ends_ext_reverted

@[simp] theorem ends_messageFee {fee : ℕ} :
    (messageFee.run s).Ends anyAnswer es (.returned fee t) ↔ es = [⟨.messageFee, fee⟩] :=
  ends_external (x := .messageFee)

@[simp] theorem not_ends_messageFee {e : Error} :
    ¬ (messageFee.run s).Ends anyAnswer es (.reverted e) :=
  not_ends_external

@[simp] theorem ends_quoteEVMDeliveryPrice {chain : UInt16} :
    ((W.quoteEVMDeliveryPrice chain).run s).Ends anyAnswer es (.returned price t) ↔
      es = [⟨.quoteEVMDeliveryPrice chain 0 W.gasLimit, price⟩] :=
  ends_external (x := .quoteEVMDeliveryPrice chain 0 W.gasLimit)

section

variable {chain : UInt16} {refundAddress recipientManager : Bytes32} {payload signedQuote : Bytes}
  {instruction : TransceiverInstruction} {caller : Address} {message : Bytes}

theorem sendViaStandardRelaying_forwards
    (h : ((W.sendViaStandardRelaying chain value refundAddress payload).run s).Ends anyAnswer es
      (.returned () t)) : W.Forwards value es := by
  simp only [sendViaStandardRelaying, run_bind, Res.ends_bind_returned, ends_load,
    monadLift_eq_liftExcept, ends_liftExcept, ends_external, reduceCtorEq, and_false,
    exists_false, false_or, Outcome.returned.injEq, run_pure, Res.ends_ret] at h
  obtain ⟨_, _, _, _, ⟨rfl, -⟩, ⟨_, target, _, _, ⟨rfl, -⟩, ⟨_, refundRecipient, _, _, ⟨rfl, -⟩,
    ⟨_, provider, _, _, rfl, ⟨_, _, _, _, rfl, ⟨rfl, -⟩, rfl⟩, rfl⟩, rfl⟩, rfl⟩, rfl⟩ := h
  exact .standard

theorem sendViaSpecialRelaying_forwards
    (h : ((W.sendViaSpecialRelaying chain value signedQuote payload).run s).Ends anyAnswer es
      (.returned () t)) : W.Forwards value es := by
  simp only [sendViaSpecialRelaying, run_bind, Res.ends_bind_returned, ends_load,
    monadLift_eq_liftExcept, ends_liftExcept, ends_external, ends_messageFee, reduceCtorEq, and_false,
    exists_false, false_or, Outcome.returned.injEq, run_pure, Res.ends_ret] at h
  obtain ⟨_, fee, _, _, rfl, ⟨_, _, _, _, rfl, ⟨_, payment, _, _, ⟨rfl, _, hsub, rfl, -⟩,
    ⟨_, _, _, _, ⟨rfl, -⟩, ⟨_, _, _, _, rfl, ⟨rfl, -⟩, rfl⟩, rfl⟩, rfl⟩, rfl⟩, rfl⟩ := h
  obtain ⟨hle, rfl⟩ := checkedSub_eq_ok.mp hsub
  exact .special hle

theorem sendManually_forwards
    (h : ((W.sendManually value payload).run s).Ends anyAnswer es (.returned () t)) :
    W.Forwards value es := by
  simp only [sendManually, run_bind, Res.ends_bind_returned, ends_external, run_pure,
    Res.ends_ret] at h
  obtain ⟨_, _, _, _, rfl, ⟨rfl, -⟩, rfl⟩ := h
  exact .manual

/-- A delivery passes on what it was paid, on every branch. -/
theorem _sendMessage_forwards
    (h : ((W._sendMessage chain value caller recipientManager refundAddress instruction
      message).run s).Ends anyAnswer es (.returned () t)) : W.Forwards value es := by
  simp only [_sendMessage, run_bind, Res.ends_bind_returned, ends_load, monadLift_eq_liftExcept,
    ends_liftExcept, reduceCtorEq, and_false, exists_false, false_or, Outcome.returned.injEq,
    run_ite, Res.ends_ite] at h
  obtain ⟨_, payload, _, _, ⟨rfl, -⟩, ⟨_, weIns, _, _, ⟨rfl, -⟩, ⟨_, st, _, _, ⟨rfl, -⟩, h, rfl⟩,
    rfl⟩, rfl⟩ := h
  rcases h with ⟨-, h⟩ | ⟨-, ⟨-, h⟩ | ⟨-, h⟩⟩
  · exact sendViaStandardRelaying_forwards h
  · exact sendViaSpecialRelaying_forwards h
  · exact sendManually_forwards h

/-- A delivery passes on what it was paid, on every branch. -/
theorem sendMessage_forwards {ctx : Context}
    (h : ((W.sendMessage ctx chain instruction message recipientManager refundAddress).run
      s).Ends anyAnswer es (.returned () t)) :
    W.Forwards ctx.value es ∧ ctx.sender = W.nttManager := by
  simp only [sendMessage, nonReentrant, onlyNttManager, run_bind, Res.ends_bind_returned,
    ends_load, ends_perform, ends_revertIf, reduceCtorEq, and_false, false_or,
    Outcome.returned.injEq] at h
  obtain ⟨_, _, _, _, ⟨rfl, -⟩, ⟨_, _, _, _, ⟨rfl, -⟩, ⟨_, _, _, _, ⟨rfl, -⟩, ⟨es', _, _, _,
    ⟨_, _, _, _, ⟨rfl, hsender, -⟩, h, rfl⟩, ⟨rfl, -⟩, rfl⟩, rfl⟩, rfl⟩, rfl⟩ := h
  rw [List.append_nil]
  exact ⟨_sendMessage_forwards h, not_not.mp hsender⟩

/-- The special relayer's branch reverts by itself only when the fee exceeds the value. -/
theorem sendViaSpecialRelaying_reverts {e : Error}
    (h : ((W.sendViaSpecialRelaying chain value signedQuote payload).run s).Ends anyAnswer es
      (.reverted e)) : ∃ fee, (⟨.messageFee, fee⟩ : TransceiverEvent) ∈ es ∧ value < fee := by
  simp only [sendViaSpecialRelaying, run_bind, Res.ends_bind_reverted, not_ends_messageFee,
    not_ends_external, ends_messageFee, ends_external, ends_load, monadLift_eq_liftExcept,
    ends_liftExcept, run_pure, Res.ends_ret, reduceCtorEq, and_false, exists_false, false_or,
    or_false, Outcome.reverted.injEq, false_and] at h
  obtain ⟨_, fee, _, _, rfl, ⟨_, _, _, _, -, ⟨-, _, hsub, -⟩, -⟩, rfl⟩ := h
  refine ⟨fee, List.mem_cons_self, not_le.mp fun hle => ?_⟩
  rw [checkedSub_eq_ok.mpr ⟨hle, rfl⟩] at hsub
  cases hsub

/-- The special relayer's branch of a delivery. -/
theorem _sendMessage_special {weIns : WormholeTransceiverInstruction}
    (hins : W.parseWormholeTransceiverInstruction instruction.payload = .ok weIns)
    (hspecial : s.storage.relaysViaSpecialRelayer chain weIns = true) :
    (W._sendMessage chain value caller recipientManager refundAddress instruction message).run s =
      (liftExcept (encodeTransceiverMessage WH_TRANSCEIVER_PAYLOAD_PREFIX
        ⟨W.toWormholeFormat caller, recipientManager, message, []⟩) >>= fun payload =>
          W.sendViaSpecialRelaying chain value weIns.signedQuoteBytes payload).run s := by
  simp only [Storage.relaysViaSpecialRelayer, Bool.and_eq_true, Bool.not_eq_true'] at hspecial
  obtain ⟨⟨hskip, hstandard⟩, hspecial⟩ := hspecial
  cases henc : encodeTransceiverMessage WH_TRANSCEIVER_PAYLOAD_PREFIX
      ⟨W.toWormholeFormat caller, recipientManager, message, []⟩ with
  | error e => simp [_sendMessage, henc, run_liftExcept_error]
  | ok payload =>
      simp [_sendMessage, henc, hins, hskip, hstandard, hspecial, run_liftExcept_ok, run_load]

/-- On the special relayer's branch, nothing but the subtraction overflows. -/
theorem _sendMessage_underflow {weIns : WormholeTransceiverInstruction}
    (hins : W.parseWormholeTransceiverInstruction instruction.payload = .ok weIns)
    (hspecial : s.storage.relaysViaSpecialRelayer chain weIns = true)
    (h : ((W._sendMessage chain value caller recipientManager refundAddress instruction
      message).run s).Ends anyAnswer es (.reverted .arithmeticOverflow)) :
    ∃ fee, (⟨.messageFee, fee⟩ : TransceiverEvent) ∈ es ∧ value < fee := by
  rw [_sendMessage_special hins hspecial, run_bind, Res.ends_bind_reverted] at h
  rcases h with h | ⟨_, _, _, _, h₁, h, rfl⟩
  · obtain ⟨-, ⟨e, he, h⟩ | ⟨_, -, h⟩⟩ := ends_liftExcept.mp h
    · obtain rfl := Outcome.reverted.inj h
      exact absurd he encodeTransceiverMessage_ne_overflow
    · cases h
  · obtain ⟨rfl, -⟩ := ends_liftExcept.mp h₁
    exact sendViaSpecialRelaying_reverts h

/-- Nor in the whole delivery. -/
theorem sendMessage_underflow {ctx : Context} {weIns : WormholeTransceiverInstruction}
    (hins : W.parseWormholeTransceiverInstruction instruction.payload = .ok weIns)
    (hspecial : s.storage.relaysViaSpecialRelayer chain weIns = true)
    (h : ((W.sendMessage ctx chain instruction message recipientManager refundAddress).run
      s).Ends anyAnswer es (.reverted .arithmeticOverflow)) :
    ∃ fee, (⟨.messageFee, fee⟩ : TransceiverEvent) ∈ es ∧ ctx.value < fee := by
  simp only [sendMessage, nonReentrant, onlyNttManager, run_bind, Res.ends_bind_reverted,
    Res.ends_bind_returned, ends_load, ends_perform, ends_revertIf, reduceCtorEq, and_false,
    false_or, or_false, false_and, exists_false, Outcome.returned.injEq, Outcome.reverted.injEq,
    true_and] at h
  obtain ⟨_, _, _, _, ⟨rfl, rfl, rfl⟩, ⟨_, _, _, _, ⟨rfl, -, rfl⟩, ⟨_, _, _, _, ⟨rfl, rfl⟩, h, rfl⟩,
    rfl⟩, rfl⟩ := h
  obtain ⟨_, _, _, _, ⟨rfl, -, rfl⟩, h, rfl⟩ := h
  -- the guard is not part of the configuration
  exact _sendMessage_underflow hins (by exact hspecial) h

/-- A quote is what its branch asked for. -/
theorem quoteDeliveryPrice_quoted
    (h : ((W.quoteDeliveryPrice chain instruction).run s).Ends anyAnswer es (.returned price t)) :
    W.Quoted price es ∧
      ∃ weIns, W.parseWormholeTransceiverInstruction instruction.payload = .ok weIns := by
  simp only [quoteDeliveryPrice, run_bind, Res.ends_bind_returned, ends_load,
    monadLift_eq_liftExcept, ends_liftExcept, ends_revertIf, reduceCtorEq, and_false,
    exists_false, false_or, Outcome.returned.injEq, run_ite, Res.ends_ite] at h
  obtain ⟨_, weIns, _, _, ⟨rfl, _, hins, rfl, -⟩, h, rfl⟩ := h
  refine ⟨?_, weIns, hins⟩
  rcases h with ⟨-, h⟩ | ⟨-, _, st, _, _, ⟨rfl, -⟩, ⟨_, _, _, _, ⟨rfl, -⟩, h, rfl⟩, rfl⟩
  · obtain rfl := ends_messageFee.mp h
    exact .fee
  · rcases h with ⟨-, h⟩ | ⟨-, ⟨-, h⟩ | ⟨-, h⟩⟩
    · obtain rfl := ends_quoteEVMDeliveryPrice.mp h
      exact .standard
    · obtain ⟨_, cost, _, _, hcost, ⟨_, fee, _, _, hfee, ⟨rfl, _, hsum, rfl, -⟩, rfl⟩, rfl⟩ := h
      obtain rfl := ends_external.mp hcost
      obtain rfl := ends_messageFee.mp hfee
      exact .special (checkedAdd_eq_ok.mp hsum).2
    · obtain rfl := ends_messageFee.mp h
      exact .fee

end

end WormholeTransceiver

/-! ### Managers -/

open WormholeTransceiver (TransceiverEvent forwarded)

/-- What a call of a manager came to: a price with what the transceiver asked for it, a message
handed to a transceiver with what it did, native value returned, or anything else. -/
inductive Deed where
  | quote (transceiver : Address) (price : ℕ) (calls : List TransceiverEvent)
  | delivery (transceiver : Address) (value : ℕ) (calls : List TransceiverEvent)
  | refund (recipient : Address) (value : ℕ)
  | other

namespace Deed

/-- The transceiver that was asked, with its price. -/
def quoted : Deed → Option (Address × ℕ)
  | quote transceiver price _ => some (transceiver, price)
  | _ => none

/-- The transceiver that was handed a message, with the value that came with it. -/
def delivered : Deed → Option (Address × ℕ)
  | delivery transceiver value _ => some (transceiver, value)
  | _ => none

/-- Who was returned native value, and how much. -/
def refunded : Deed → Option (Address × ℕ)
  | refund recipient value => some (recipient, value)
  | _ => none

/-- What a transceiver passed on to its channel. -/
def passedOn : Deed → ℕ
  | delivery _ _ calls => forwarded calls
  | _ => 0

/-- What a delivery leaves with a transceiver. -/
def leftWith (a : Address) : Deed → ℤ
  | delivery transceiver value calls =>
      if transceiver = a then (value : ℤ) - forwarded calls else 0
  | _ => 0

/-- A quote and a delivery are one of the branches of the transceiver. -/
def Branch (W : Address → WormholeTransceiver) : Deed → Prop
  | quote transceiver price calls => (W transceiver).Quoted price calls
  | delivery transceiver value calls => (W transceiver).Forwards value calls
  | _ => True

/-- A branch leaves nothing with its transceiver. -/
theorem Branch.leftWith_eq {W : Address → WormholeTransceiver} {d : Deed} (h : d.Branch W)
    {a : Address} : d.leftWith a = 0 := by
  cases d with
  | delivery transceiver value calls =>
      rw [leftWith, WormholeTransceiver.Forwards.forwarded_eq h, sub_self, ite_self]
  | _ => rfl

end Deed

/-- The prices asked for, in order. -/
def quotes (ds : List Deed) : List (Address × ℕ) := ds.filterMap Deed.quoted

/-- The values handed to transceivers, in order. -/
def deliveries (ds : List Deed) : List (Address × ℕ) := ds.filterMap Deed.delivered

/-- The values returned, in order. -/
def refunds (ds : List Deed) : List (Address × ℕ) := ds.filterMap Deed.refunded

/-- The sum of the values of a list of payments. -/
def total (ps : List (Address × ℕ)) : ℕ := (ps.map Prod.snd).sum

/-- The change of the manager's native balance in a call: what came with it, less what the call
gave out. Calls nested in it have their own. -/
def managerChange (ctx : Context) (ds : List Deed) : ℤ :=
  ctx.value - (total (deliveries ds) + total (refunds ds) : ℕ)

/-- The change of the native balance of a transceiver in a call of the manager. -/
def transceiverChange (a : Address) (ds : List Deed) : ℤ := (ds.map (Deed.leftWith a)).sum

/-- The transceivers pass on what they are handed. -/
theorem sum_passedOn {W : Address → WormholeTransceiver} {ds : List Deed}
    (h : ∀ d ∈ ds, d.Branch W) : (ds.map Deed.passedOn).sum = total (deliveries ds) := by
  induction ds with
  | nil => rfl
  | cons d ds ih =>
      obtain ⟨hd, hds⟩ := List.forall_mem_cons.mp h
      rw [List.map_cons, List.sum_cons, ih hds]
      cases d with
      | delivery transceiver value calls =>
          rw [Deed.passedOn, WormholeTransceiver.Forwards.forwarded_eq hd]
          rfl
      | _ => exact Nat.zero_add _

/-- The accounts of a trace: its prices, its deliveries and its refunds. -/
structure Accounts (ds : List Deed) (qs dels refs : List (Address × ℕ)) : Prop where
  quotes : quotes ds = qs
  deliveries : deliveries ds = dels
  refunds : refunds ds = refs

namespace Accounts

variable {ds ds' : List Deed} {qs qs' dels dels' refs refs' : List (Address × ℕ)}

theorem append (h : Accounts ds qs dels refs) (h' : Accounts ds' qs' dels' refs') :
    Accounts (ds ++ ds') (qs ++ qs') (dels ++ dels') (refs ++ refs') :=
  ⟨by rw [Ntt.quotes, List.filterMap_append, ← h.quotes, ← h'.quotes, Ntt.quotes, Ntt.quotes],
    by rw [Ntt.deliveries, List.filterMap_append, ← h.deliveries, ← h'.deliveries,
      Ntt.deliveries, Ntt.deliveries],
    by rw [Ntt.refunds, List.filterMap_append, ← h.refunds, ← h'.refunds, Ntt.refunds,
      Ntt.refunds]⟩

/-- Any calls account for themselves. -/
theorem self (ds : List Deed) :
    Accounts ds (Ntt.quotes ds) (Ntt.deliveries ds) (Ntt.refunds ds) :=
  ⟨rfl, rfl, rfl⟩

theorem nil : Accounts [] [] [] [] := self []

/-- Calls that are about nothing native. -/
theorem of_other (h : ∀ d ∈ ds, d = .other) : Accounts ds [] [] [] := by
  induction ds with
  | nil => exact nil
  | cons d ds ih =>
      obtain ⟨rfl, hds⟩ := List.forall_mem_cons.mp h
      exact append (self [.other]) (ih hds)

end Accounts

namespace NttManager

/-- How the calls of a manager come out when its transceivers are Wormhole transceivers: a price
and a delivery are a run of the transceiver's code, from whatever state it is in. What other
calls, and calls nested anywhere, do to the state is arbitrary. -/
def deeds (M : NttManager) (W : Address → WormholeTransceiver) (ctx : Context) :
    Answering managerInterface State Deed
  | .quoteDeliveryPrice a chain instruction, _, price, _, d => ∃ calls s s',
      (((W a).quoteDeliveryPrice chain instruction).run s).Ends anyAnswer calls
        (.returned price s') ∧ d = .quote a price calls
  | .sendMessage a value chain instruction message manager refundAddress, _, _, _, d =>
      ∃ calls s s', (((W a).sendMessage ⟨M.this, value, ctx.timestamp, ctx.chainid⟩ chain
        instruction message manager refundAddress).run s).Ends anyAnswer calls
          (.returned () s') ∧ d = .delivery a value calls
  | .sendValue recipient value, _, _, _, d => d = .refund recipient value
  | _, _, _, _, d => d = .other

section

variable {M : NttManager} {W : Address → WormholeTransceiver} {ctx ctx' : Context} {s t : State}
  {ds : List Deed} {chain : UInt16}

@[simp] theorem ends_load {o : Outcome managerInterface State Error Storage} :
    (load.run s).Ends (M.deeds W ctx) ds o ↔ ds = [] ∧ o = .returned s.storage s :=
  Res.ends_ret

@[simp] theorem ends_perform {a : Action} {o : Outcome managerInterface State Error Unit} :
    ((perform ctx' a).run s).Ends (M.deeds W ctx) ds o ↔
      ds = [] ∧ o = .returned () (s.perform ctx' a) :=
  Res.ends_ret

theorem ends_external {x : Ext} {r : x.Reply} :
    ((external x).run s).Ends (M.deeds W ctx) ds (.returned r t) ↔
      ∃ d, M.deeds W ctx x s r t d ∧ ds = [d] :=
  ends_ext_returned

theorem ends_quoteTransceiver {a : Address} {instruction : TransceiverInstruction} {price : ℕ}
    (h : ((quoteTransceiver a chain instruction).run s).Ends (M.deeds W ctx) ds
      (.returned price t)) : Accounts ds [(a, price)] [] [] := by
  obtain ⟨d, ⟨calls, s', s'', -, rfl⟩, rfl⟩ := ends_ext_returned.mp h
  exact ⟨rfl, rfl, rfl⟩

theorem ends_refundToSender {amount : ℕ}
    (h : ((refundToSender ctx' amount).run s).Ends (M.deeds W ctx) ds (.returned () t)) :
    Accounts ds [] [] [(ctx'.sender, amount)] := by
  simp only [refundToSender, run_bind, Res.ends_bind_returned, ends_external, run_pure,
    Res.ends_ret] at h
  obtain ⟨_, _, _, _, ⟨d, rfl, rfl⟩, ⟨rfl, -⟩, rfl⟩ := h
  exact ⟨rfl, rfl, rfl⟩

/-- A loop over transceivers that asks each for its price. -/
theorem quoteLoop_accounts {instructions : List TransceiverInstruction}
    {transceivers : List Address} {asked : List ℕ} {sum : ℕ} {r : List ℕ × ℕ}
    (h : ((quoteLoop chain instructions transceivers asked sum).run s).Ends (M.deeds W ctx) ds
      (.returned r t)) :
    ∃ prices, r = (asked ++ prices, sum + prices.sum) ∧ prices.length = transceivers.length ∧
      Accounts ds (transceivers.zip prices) [] [] := by
  induction transceivers generalizing asked sum s ds with
  | nil =>
      obtain ⟨rfl, h⟩ := Res.ends_ret.mp h
      cases h
      exact ⟨[], by simp, rfl, .nil⟩
  | cons transceiver rest ih =>
      simp only [quoteLoop, run_bind, Res.ends_bind_returned, ends_load, monadLift_eq_liftExcept,
        ends_liftExcept, reduceCtorEq, and_false, exists_false, false_or,
        Outcome.returned.injEq] at h
      obtain ⟨_, _, _, _, ⟨rfl, -⟩, ⟨_, instruction, _, _, ⟨rfl, -⟩, ⟨ds₁, price, _, _, hprice,
        ⟨_, sum', _, ds₂, ⟨rfl, _, hsum, rfl, -⟩, hrest, rfl⟩, rfl⟩, rfl⟩, rfl⟩ := h
      obtain ⟨-, rfl⟩ := checkedAdd_eq_ok.mp hsum
      obtain ⟨prices, rfl, hlen, hacc⟩ := ih hrest
      refine ⟨price :: prices, by simp [Nat.add_assoc], by simp [hlen], ?_⟩
      exact (ends_quoteTransceiver hprice).append hacc

/-- The loop that hands the message to the transceivers, each with its price. -/
theorem sendLoop_accounts {refundAddress peerAddress : Bytes32}
    {instructions : List TransceiverInstruction} {message : Bytes} {pairs : List (Address × ℕ)}
    (h : ((sendLoop chain refundAddress peerAddress instructions message pairs).run s).Ends
      (M.deeds W ctx) ds (.returned () t)) : Accounts ds [] pairs [] := by
  induction pairs generalizing s ds with
  | nil =>
      obtain ⟨rfl, -⟩ := Res.ends_ret.mp h
      exact .nil
  | cons pair rest ih =>
      simp only [sendLoop, run_bind, Res.ends_bind_returned, ends_load, monadLift_eq_liftExcept,
        ends_liftExcept, reduceCtorEq, and_false, exists_false, false_or,
        Outcome.returned.injEq, ends_external] at h
      obtain ⟨_, _, _, _, ⟨rfl, -⟩, ⟨_, instruction, _, _, ⟨rfl, -⟩, ⟨_, _, _, ds₂,
        ⟨_, ⟨calls, s', s'', -, rfl⟩, rfl⟩, hrest, rfl⟩, rfl⟩, rfl⟩ := h
      exact (Accounts.self [.delivery _ _ calls]).append (ih hrest)

/-- Preparing a transfer: the prices are asked for, and what is left is returned. -/
theorem prepareForTransfer_accounts {instructions : Bytes}
    {r : List Address × List TransceiverInstruction × List ℕ × ℕ}
    (h : ((M.prepareForTransfer ctx chain instructions).run s).Ends (M.deeds W ctx) ds
      (.returned r t)) :
    ∃ refs, Accounts ds (r.1.zip r.2.2.1) [] refs ∧ r.2.2.1.length = r.1.length ∧
      r.2.2.1.sum + total refs = ctx.value ∧ ∀ p ∈ refs, p.1 = ctx.sender := by
  simp only [prepareForTransfer, run_bind, Res.ends_bind_returned, ends_load,
    monadLift_eq_liftExcept, ends_liftExcept, ends_revertIf, reduceCtorEq, and_false,
    exists_false, false_or, Outcome.returned.injEq] at h
  obtain ⟨_, _, _, _, ⟨rfl, -⟩, ⟨_, _, _, _, ⟨rfl, -⟩, ⟨_, xs, _, _, ⟨rfl, -⟩, ⟨ds₁, q, s₁, _, hloop,
    ⟨_, _, _, ds₂, ⟨rfl, hle, -⟩, h, rfl⟩, rfl⟩, rfl⟩, rfl⟩, rfl⟩ := h
  obtain ⟨prices, rfl, hlen, hacc⟩ := quoteLoop_accounts hloop
  simp only [List.nil_append, Nat.zero_add] at hle h ⊢
  rw [run_ite, Res.ends_ite] at h
  rcases h with ⟨hpos, h⟩ | ⟨hpos, h⟩
  · simp only [run_bind, Res.ends_bind_returned, run_pure, Res.ends_ret] at h
    obtain ⟨ds₃, _, _, _, href, ⟨rfl, h⟩, rfl⟩ := h
    cases h
    have hall := hacc.append (ends_refundToSender href)
    simp only [List.append_nil, List.nil_append] at hall ⊢
    refine ⟨_, hall, hlen, ?_, fun p hp => ?_⟩
    · simp only [total, List.map_cons, List.map_nil, List.sum_cons, List.sum_nil]
      omega
    · rw [List.mem_singleton.mp hp]
  · obtain ⟨rfl, h⟩ := Res.ends_ret.mp h
    cases h
    rw [List.append_nil]
    refine ⟨[], hacc, hlen, ?_, fun p hp => absurd hp List.not_mem_nil⟩
    simp only [total, List.map_nil, List.sum_nil]
    omega

end

/-- A call pays every transceiver its price, and returns what is left of the value to the
caller. -/
structure Settles (ctx : Context) (ds : List Deed) : Prop where
  prices : deliveries ds = quotes ds
  value : total (deliveries ds) + total (refunds ds) = ctx.value
  refunds : ∀ p ∈ refunds ds, p.1 = ctx.sender

section

variable {M : NttManager} {W : Address → WormholeTransceiver} {ctx : Context} {s t : State}
  {ds ds' : List Deed}

/-- Calls that are about nothing native can come before. -/
theorem Settles.of_other_append (h : ∀ d ∈ ds, d = .other) (h' : Settles ctx ds') :
    Settles ctx (ds ++ ds') := by
  have hall := (Accounts.of_other h).append (Accounts.self ds')
  simp only [List.nil_append] at hall
  exact ⟨by rw [hall.deliveries, hall.quotes, h'.prices],
    by rw [hall.deliveries, hall.refunds, h'.value], by rw [hall.refunds]; exact h'.refunds⟩

/-- The call of a token. -/
theorem only_other {x : Ext} (hx : ∀ s r s' d, M.deeds W ctx x s r s' d → d = .other) :
    Only (M.deeds W ctx) (· = .other) (external x) :=
  Only.ext hx

theorem tokenDecimals_other : Only (M.deeds W ctx) (· = .other) tokenDecimals :=
  only_other fun _ _ _ _ h => h

theorem load_other : Only (M.deeds W ctx) (· = .other) load := .bind .get fun _ => .pure _

theorem perform_other {ctx' : Context} {a : Action} :
    Only (M.deeds W ctx) (· = .other) (perform ctx' a) := .modify _

theorem whenNotPaused_other : Only (M.deeds W ctx) (· = .other) whenNotPaused :=
  .bind load_other fun _ => .revertIf _ _

theorem updateOutboundLimit_other {ctx' : Context} {op : RateLimitOp} :
    Only (M.deeds W ctx) (· = .other) (M.updateOutboundLimit ctx' op) :=
  .bind load_other fun _ => .bind (.liftExcept _) fun _ => perform_other

theorem updateInboundLimit_other {ctx' : Context} {chain : UInt16} {op : RateLimitOp} :
    Only (M.deeds W ctx) (· = .other) (M.updateInboundLimit ctx' chain op) :=
  .bind load_other fun _ => .bind (.liftExcept _) fun _ => perform_other

theorem getCurrentOutboundCapacity_other {ctx' : Context} :
    Only (M.deeds W ctx) (· = .other) (M.getCurrentOutboundCapacity ctx') :=
  .bind load_other fun _ => .bind (.liftExcept _) fun _ =>
    .bind tokenDecimals_other fun _ => .liftExcept _

theorem trimTransferAmount_other {amount : ℕ} {chain : UInt16} :
    Only (M.deeds W ctx) (· = .other) (trimTransferAmount amount chain) :=
  .bind load_other fun _ => .bind (.revertIf _ _) fun _ => .bind tokenDecimals_other fun _ =>
    .bind (.liftExcept _) fun _ => .bind (.liftExcept _) fun _ =>
      .bind (.revertIf _ _) fun _ => .pure _

theorem useMessageSequence_other {ctx' : Context} {transfer : Transfer} :
    Only (M.deeds W ctx) (· = .other) (useMessageSequence ctx' transfer) :=
  .bind load_other fun _ => .bind (.revertIf _ _) fun _ => .bind perform_other fun _ => .pure _

theorem pullTokens_other {ctx' : Context} {amount : ℕ} :
    Only (M.deeds W ctx) (· = .other) (M.pullTokens ctx' amount) := by
  have hbalance {a : Address} : Only (M.deeds W ctx) (· = .other) (getTokenBalanceOf a) :=
    only_other fun _ _ _ _ h => h
  refine .bind hbalance fun before => .bind (only_other fun _ _ _ _ h => h) fun _ =>
    .bind hbalance fun after => .bind (.liftExcept _) fun received => ?_
  cases M.mode with
  | locking => exact .pure _
  | burning =>
      exact .bind (only_other fun _ _ _ _ h => h) fun _ => .bind hbalance fun _ =>
        .bind (.revertIf _ _) fun _ => .pure _

/-- Sending a transfer settles its value. -/
theorem sendTransfer_settles {sequence : UInt64} {amount : TrimmedAmount} {chain : UInt16}
    {recipient refundAddress : Bytes32} {sender : Address} {instructions : Bytes}
    (h : ((M.sendTransfer ctx sequence amount chain recipient refundAddress sender
      instructions).run s).Ends (M.deeds W ctx) ds (.returned () t)) : Settles ctx ds := by
  simp only [sendTransfer, checkFork, run_bind, ends_bind_revertIf, reduceCtorEq, and_false,
    false_or] at h
  obtain ⟨-, h⟩ := h
  rw [Res.ends_bind_returned] at h
  obtain ⟨ds₁, r, s₁, _, hprep, h, rfl⟩ := h
  obtain ⟨refs, hprep, hlen, hvalue, hrefs⟩ := prepareForTransfer_accounts hprep
  simp only [sendMessageToTransceivers, run_bind, run_load, run_perform, Res.bind_ret,
    monadLift_eq_liftExcept, ends_bind_liftExcept, reduceCtorEq, and_false, exists_false,
    false_or] at h
  obtain ⟨message, -, encoded, -, h⟩ := h
  rw [Res.ends_bind_returned] at h
  obtain ⟨ds₂, _, s₂, ds₃, hsend, h, rfl⟩ := h
  simp only [ends_bind_revertIf, reduceCtorEq, and_false, false_or] at hsend
  -- the event of the transfer
  rw [run_bind, Res.ends_bind_returned] at h
  obtain ⟨ds₄, decimals, s₃, _, hdecimals, h, rfl⟩ := h
  simp only [run_bind, ends_bind_liftExcept, run_pure, Res.ends_ret, reduceCtorEq, and_false,
    exists_false, false_or] at h
  obtain ⟨_, -, rfl, -⟩ := h
  have hother := tokenDecimals_other _ _ _ _ hdecimals
  have hall := hprep.append ((sendLoop_accounts hsend.2).append (Accounts.of_other hother))
  simp only [List.nil_append, List.append_nil] at hall ⊢
  have hsnd : total (r.1.zip r.2.2.1) = r.2.2.1.sum := by
    rw [total, List.map_snd_zip (by omega)]
  exact ⟨hall.deliveries.trans hall.quotes.symm,
    by rw [hall.deliveries, hall.refunds, hsnd, hvalue], by rw [hall.refunds]; exact hrefs⟩

/-- A transfer that is queued returns all the value; one that is not has done nothing native. -/
theorem enqueueOrConsumeOutboundRateLimit_settles {transfer : Transfer} {shouldQueue : Bool}
    {sequence : UInt64} {enqueued : Bool}
    (h : ((M.enqueueOrConsumeOutboundRateLimit ctx transfer shouldQueue sequence).run s).Ends
      (M.deeds W ctx) ds (.returned enqueued t)) :
    if enqueued then Settles ctx ds else ∀ d ∈ ds, d = .other := by
  simp only [enqueueOrConsumeOutboundRateLimit, run_bind] at h
  rw [Res.ends_bind_returned] at h
  obtain ⟨ds₁, decimals, s₁, _, hdecimals, h, rfl⟩ := h
  have hother := tokenDecimals_other _ _ _ _ hdecimals
  simp only [run_bind, monadLift_eq_liftExcept, ends_bind_liftExcept, run_load, Res.bind_ret,
    run_ite, reduceCtorEq, and_false, exists_false, false_or] at h
  obtain ⟨internalAmount, -, isAmountRateLimited, -, h⟩ := h
  rw [Res.ends_ite, Res.ends_ite] at h
  rcases h with ⟨-, ⟨-, h⟩ | ⟨-, h⟩⟩ | ⟨-, h⟩
  · -- queued
    simp only [checkFork, run_bind, ends_bind_revertIf, reduceCtorEq, and_false, false_or] at h
    obtain ⟨-, h⟩ := h
    rw [Res.ends_bind_returned] at h
    obtain ⟨ds₂, _, s₂, _, hcapacity, h, rfl⟩ := h
    rw [run_bind, run_perform, Res.bind_ret, run_bind, Res.ends_bind_returned] at h
    obtain ⟨ds₃, _, s₃, _, href, h, rfl⟩ := h
    obtain ⟨rfl, h⟩ := Res.ends_ret.mp h
    cases h
    have href := ends_refundToSender href
    rw [List.append_nil]
    refine .of_other_append hother (.of_other_append
      (getCurrentOutboundCapacity_other _ _ _ _ hcapacity) ⟨?_, ?_, ?_⟩)
    · rw [href.deliveries, href.quotes]
    · rw [href.deliveries, href.refunds]
      exact Nat.zero_add _
    · rw [href.refunds]
      exact fun p hp => by rw [List.mem_singleton.mp hp]
  · -- refused
    rw [Res.ends_bind_returned] at h
    obtain ⟨_, _, _, _, -, h, -⟩ := h
    cases h
  · rw [Res.ends_bind_returned] at h
    obtain ⟨ds₂, _, s₂, _, hout, h, rfl⟩ := h
    rw [run_bind, Res.ends_bind_returned] at h
    obtain ⟨ds₃, _, s₃, _, hin, h, rfl⟩ := h
    obtain ⟨rfl, h⟩ := Res.ends_ret.mp h
    cases h
    have hout := updateOutboundLimit_other _ _ _ _ hout
    have hin := updateInboundLimit_other _ _ _ _ hin
    intro d hd
    simp only [List.append_nil, List.mem_append] at hd
    rcases hd with hd | hd | hd
    · exact hother d hd
    · exact hout d hd
    · exact hin d hd

/-- Both forms of `transfer` settle the value that comes with them. -/
theorem transferEntryPoint_settles {amount : ℕ} {chain : UInt16} {recipient refundAddress : Bytes32}
    {shouldQueue : Bool} {instructions : Bytes}
    (h : ((M.transferEntryPoint ctx amount chain recipient refundAddress shouldQueue
      instructions).run s).Ends (M.deeds W ctx) ds (.returned () t)) : Settles ctx ds := by
  simp only [transferEntryPoint, run_bind, ends_bind_revertIf, reduceCtorEq, and_false,
    false_or] at h
  obtain ⟨-, -, -, h⟩ := h
  rw [Res.ends_bind_returned] at h
  obtain ⟨_, received, s₁, _, hpull, h, rfl⟩ := h
  rw [run_bind, Res.ends_bind_returned] at h
  obtain ⟨_, trimmedAmount, s₂, _, htrim, h, rfl⟩ := h
  rw [run_bind, Res.ends_bind_returned] at h
  obtain ⟨_, sequence, s₃, _, hseq, h, rfl⟩ := h
  rw [run_bind, Res.ends_bind_returned] at h
  obtain ⟨_, enqueued, s₄, _, henqueue, h, rfl⟩ := h
  have henqueue := enqueueOrConsumeOutboundRateLimit_settles henqueue
  refine .of_other_append (pullTokens_other _ _ _ _ hpull) (.of_other_append
    (trimTransferAmount_other _ _ _ _ htrim) (.of_other_append
      (useMessageSequence_other _ _ _ _ hseq) ?_))
  rw [run_ite, Res.ends_ite] at h
  rcases h with ⟨rfl, h⟩ | ⟨henq, h⟩
  · obtain ⟨rfl, -⟩ := Res.ends_ret.mp h
    rw [List.append_nil]
    exact henqueue
  · rw [if_neg henq] at henqueue
    exact .of_other_append henqueue (sendTransfer_settles h)

/-- A guarded call does what its body does. -/
theorem nonReentrant_settles {body : ManagerProg Unit}
    (hbody : ∀ s ds t, (body.run s).Ends (M.deeds W ctx) ds (.returned () t) → Settles ctx ds)
    (h : ((nonReentrant ctx body).run s).Ends (M.deeds W ctx) ds (.returned () t)) :
    Settles ctx ds := by
  simp only [nonReentrant, run_bind, run_load, run_perform, Res.bind_ret, ends_bind_revertIf,
    reduceCtorEq, and_false, false_or] at h
  obtain ⟨-, h⟩ := h
  rw [Res.ends_bind_returned] at h
  obtain ⟨ds', _, s', _, h, hlast, rfl⟩ := h
  obtain ⟨rfl, -⟩ := Res.ends_ret.mp hlast
  rw [List.append_nil]
  exact hbody _ _ _ h

theorem transfer_settles {amount : ℕ} {chain : UInt16} {recipient refundAddress : Bytes32}
    {shouldQueue : Bool} {instructions : Bytes}
    (h : ((M.transfer ctx amount chain recipient refundAddress shouldQueue instructions).run
      s).Ends (M.deeds W ctx) ds (.returned () t)) : Settles ctx ds := by
  refine nonReentrant_settles (fun s' ds' t' h' => ?_) h
  rw [run_bind, Res.ends_bind_returned] at h'
  obtain ⟨_, _, _, _, hpaused, h', rfl⟩ := h'
  exact .of_other_append (whenNotPaused_other _ _ _ _ hpaused) (transferEntryPoint_settles h')

theorem completeOutboundQueuedTransfer_settles {sequence : UInt64}
    (h : ((M.completeOutboundQueuedTransfer ctx sequence).run s).Ends (M.deeds W ctx) ds
      (.returned () t)) : Settles ctx ds := by
  refine nonReentrant_settles (fun s' ds' t' h' => ?_) h
  rw [run_bind, Res.ends_bind_returned] at h'
  obtain ⟨_, _, s₁, _, hpaused, h', rfl⟩ := h'
  simp only [run_bind, run_load, run_perform, Res.bind_ret, monadLift_eq_liftExcept,
    ends_bind_revertIf, ends_bind_liftExcept, reduceCtorEq, and_false, exists_false,
    false_or] at h'
  obtain ⟨-, _, -, -, h'⟩ := h'
  exact .of_other_append (whenNotPaused_other _ _ _ _ hpaused) (sendTransfer_settles h')

end

/-- A call that delivers a message, or may. -/
def Call.delivers : Call → Bool
  | .transfer .. | .transferSimple .. | .completeOutboundQueuedTransfer _ => true
  | _ => false

section

variable {M : NttManager} {W : Address → WormholeTransceiver} {ctx : Context} {s t : State}
  {ds : List Deed}

/-- A call that delivers settles its value. -/
theorem body_settles {call : Call} (hcall : call.delivers = true)
    (h : ((M.body ctx call).run s).Ends (M.deeds W ctx) ds (.returned () t)) : Settles ctx ds := by
  cases call with
  | transfer | transferSimple => exact transfer_settles h
  | completeOutboundQueuedTransfer => exact completeOutboundQueuedTransfer_settles h
  | _ => cases hcall

/-- A quote and a delivery are one of the branches of the transceiver. -/
theorem branch_of_deeds {x : Ext} {r : x.Reply} {s' : State} {d : Deed}
    (h : M.deeds W ctx x s r s' d) : d.Branch W := by
  cases x with
  | quoteDeliveryPrice =>
      obtain ⟨calls, s₁, s₂, hcalls, rfl⟩ := h
      exact (WormholeTransceiver.quoteDeliveryPrice_quoted hcalls).1
  | sendMessage =>
      obtain ⟨calls, s₁, s₂, hcalls, rfl⟩ := h
      exact (WormholeTransceiver.sendMessage_forwards hcalls).1
  | _ =>
      obtain rfl := h
      trivial

end

/-- **Conservation of native value.** However the calls of a transfer or of the completion of a
queued one come out, and whatever nested calls do: if it returns, it leaves the native balance of
the manager and of each transceiver as it was. The value that came with it is what the
transceivers passed on to their channels, and what was returned to the caller. Each transceiver
was handed the price that it asked for in this call, and its branch passed on exactly that. On
the special relayer's branch, a delivery that is paid a price quoted before overflows only if core
reports a fee above the price, higher than any it reported for the quote. -/
theorem native_value_conserved (M : NttManager) (W : Address → WormholeTransceiver)
    {ctx : Context} {call : Call} (hcall : call.delivers = true) :
    (∀ s ds t, ((M.body ctx call).run s).Ends (M.deeds W ctx) ds (.returned () t) →
      managerChange ctx ds = 0 ∧ (∀ a, transceiverChange a ds = 0) ∧
      ctx.value = (ds.map Deed.passedOn).sum + total (refunds ds) ∧
      (∀ p ∈ refunds ds, p.1 = ctx.sender) ∧ deliveries ds = quotes ds ∧
      ∀ d ∈ ds, d.Branch W) ∧
    ∀ a chain instruction s₁ s₂ price quoted,
      (((W a).quoteDeliveryPrice chain instruction).run s₁).Ends anyAnswer quoted
        (.returned price s₂) →
      ∀ weIns, (W a).parseWormholeTransceiverInstruction instruction.payload = .ok weIns →
      ∀ s, s.storage.relaysViaSpecialRelayer chain weIns = true →
      ∀ ctx' message manager refundAddress sent, ctx'.value = price →
        (((W a).sendMessage ctx' chain instruction message manager refundAddress).run s).Ends
          anyAnswer sent (.reverted .arithmeticOverflow) →
        ∃ fee : ℕ, (⟨.messageFee, fee⟩ : TransceiverEvent) ∈ sent ∧ price < fee ∧
          ∀ fee₀ : ℕ, (⟨.messageFee, fee₀⟩ : TransceiverEvent) ∈ quoted → fee₀ < fee := by
  constructor
  · intro s ds t h
    have hsettles := body_settles hcall h
    have hbranch : ∀ d ∈ ds, d.Branch W :=
      Res.Ends.forall_mem (P := Deed.Branch W) (fun _ _ _ _ _ => branch_of_deeds) h
    refine ⟨?_, fun a => ?_, ?_, hsettles.refunds, hsettles.prices, hbranch⟩
    · rw [managerChange, hsettles.value, sub_self]
    · exact List.sum_eq_zero fun n hn => by
        obtain ⟨d, hd, rfl⟩ := List.mem_map.mp hn
        exact (hbranch d hd).leftWith_eq
    · rw [sum_passedOn hbranch, hsettles.value]
  · intro a chain instruction s₁ s₂ price quoted hquote weIns hins s hspecial ctx' message manager
      refundAddress sent hvalue hsend
    obtain ⟨fee, hfee, hlt⟩ := WormholeTransceiver.sendMessage_underflow hins hspecial hsend
    rw [hvalue] at hlt
    have hquoted := (WormholeTransceiver.quoteDeliveryPrice_quoted hquote).1
    exact ⟨fee, hfee, hlt, fun fee₀ hfee₀ => (hquoted.fee_le hfee₀).trans_lt hlt⟩

/-! ### A transfer by the special relayer -/

/-- Reads a byte that is zero or one. -/
def readBool (encoded : Bytes) (offset : ℕ) : Except Error (Bool × ℕ) := do
  let (x, offset) := BytesParsing.reference.asUint8Unchecked encoded offset
  throwIf (x > 1) .external
  return (x == 1, offset)

/-- The transceivers of the sample manager. -/
def sampleTransceiver (a : Address) : WormholeTransceiver where
  this := a
  nttManager := 0x1000
  nttManagerToken := 0x2000
  consistencyLevel := 1
  wormholeRelayer := 0x81
  evmChainId := 1
  gasLimit := 500000
  bytes := .reference
  asBoolUnchecked := readBool
  toWormholeFormat := padAddress
  fromWormholeFormat := unpadAddress

/-- The state of a transceiver with a peer on chain 4 that the special relayer delivers to. -/
def sampleRelaying : WormholeTransceiver.State where
  storage := { WormholeTransceiver.Storage.initial 0xA with
    peers := Function.update (fun _ => 0) 4 0x99
    specialRelayingEnabledChains := Function.update (fun _ => false) 4 true }
  log := []

/-- The answers of core, whose fee is given, and of relayers that ask for 5. -/
def channelReplies (fee : ℕ) : (x : TransceiverExt) → WormholeTransceiver.State → Unit →
    Except Error (x.Reply × WormholeTransceiver.State × Unit)
  | .messageFee, s, _ => .ok (fee, s, ())
  | .quoteEVMDeliveryPrice .., s, _ => .ok ((5 : ℕ), s, ())
  | .quoteSpecialDeliveryPrice .., s, _ => .ok ((5 : ℕ), s, ())
  | .getDefaultDeliveryProvider, s, _ => .ok ((0 : Address), s, ())
  | .publishMessage .., s, _ => .ok ((), s, ())
  | .sendToEvm .., s, _ => .ok ((), s, ())
  | .requestExecution .., s, _ => .ok ((), s, ())
  | _, _, _ => .error .external

/-- Runs a call of a transceiver, which leaves the manager alone. -/
def channelRun {α : Type} (fee : ℕ) (m : WormholeTransceiver.TransceiverProg α) (s : State)
    (k : List ℕ) : Except Error (α × State × (List ℕ × ℕ)) :=
  match (m.run sampleRelaying).drive (channelReplies fee) () with
  | .ok (a, _, _) => .ok (a, s, (k, fee))
  | .error e => .error e

/-- The answers to a manager whose transceivers run, and whose caller changes the fee of core
when it is refunded. The memory holds the balances to report and the fee. -/
def deedReplies (onRefund : ℕ → ℕ) : (x : Ext) → State → List ℕ × ℕ →
    Except Error (x.Reply × State × (List ℕ × ℕ))
  | .quoteDeliveryPrice a chain instruction, s, (k, fee) =>
      channelRun fee ((sampleTransceiver a).quoteDeliveryPrice chain instruction) s k
  | .sendMessage a value chain instruction message manager refundAddress, s, (k, fee) =>
      channelRun fee ((sampleTransceiver a).sendMessage ⟨0x1000, value, 1000, 1⟩ chain instruction
        message manager refundAddress) s k
  | .sendValue _ _, s, (k, fee) => .ok ((), s, (k, onRefund fee))
  | x, s, (k, fee) =>
      match respond 18 x s k with
      | .ok (r, s', k') => .ok (r, s', (k', fee))
      | .error e => .error e

/-- A transfer to chain 4 that comes with a native value of 7. -/
def samplePaid : Context × Call :=
  (⟨0x5000, 7, 1000, 1⟩, .transfer 50000000000 4 0x6000 0x7000 false [0])

/-- The state of the sample manager with one transceiver and a peer on chain 4. -/
def sampleReady : Except Error State :=
  (sample fun _ => sampleDigest).runCalls 18 [(sampleContext 0xA, .setTransceiver 0x71),
    (sampleContext 0xA, .setPeer 4 0x1234 18 (10 ^ 18)),
    (sampleContext 0xA, .setOutboundLimit (10 ^ 18))] sampleState []

/-- Makes that transfer in that state, with a fee of 1 that the refund may change. -/
def sampleDeliver (onRefund : ℕ → ℕ) : Except Error (Unit × State × (List ℕ × ℕ)) :=
  match sampleReady with
  | .ok s => (((sample fun _ => sampleDigest).body samplePaid.1 samplePaid.2).run s).drive
      (deedReplies onRefund) ([0, 50000000000], 1)
  | .error e => .error e

/-- A run of a transceiver that is answered so is one of its runs. -/
theorem ends_of_channelRun {α : Type} {fee : ℕ} {m : WormholeTransceiver.TransceiverProg α}
    {s s' : State} {k : List ℕ} {k' : List ℕ × ℕ} {a : α}
    (h : channelRun fee m s k = .ok (a, s', k')) :
    ∃ calls t, (m.run sampleRelaying).Ends anyAnswer calls (.returned a t) := by
  rw [channelRun] at h
  split at h
  · rename_i b t u hdrive
    cases h
    obtain ⟨calls, hcalls⟩ := Res.ends_of_drive (L := anyAnswer)
      (fun _ _ _ _ _ _ _ => ⟨_, rfl⟩) hdrive
    exact ⟨calls, t, hcalls⟩
  · cases h

/-- The sample answers are deeds. -/
theorem deeds_of_deedReplies {M : NttManager} (hM : M.this = 0x1000) {onRefund : ℕ → ℕ} {x : Ext}
    {s s' : State} {k k' : List ℕ × ℕ} {r : x.Reply}
    (h : deedReplies onRefund x s k = .ok (r, s', k')) :
    ∃ d, M.deeds sampleTransceiver samplePaid.1 x s r s' d := by
  cases x with
  | quoteDeliveryPrice =>
      obtain ⟨calls, t, hcalls⟩ := ends_of_channelRun h
      exact ⟨_, calls, _, t, hcalls, rfl⟩
  | sendMessage =>
      obtain ⟨calls, t, hcalls⟩ := ends_of_channelRun h
      rw [← hM] at hcalls
      exact ⟨_, calls, _, t, hcalls, rfl⟩
  | _ => exact ⟨_, rfl⟩

/-- The transfer goes through, and settles its value. -/
theorem sample_native_value_conserved : ∃ s ds t,
    (((sample fun _ => sampleDigest).body samplePaid.1 samplePaid.2).run s).Ends
      ((sample fun _ => sampleDigest).deeds sampleTransceiver samplePaid.1) ds (.returned () t) ∧
    managerChange samplePaid.1 ds = 0 ∧ (∀ a, transceiverChange a ds = 0) ∧
    7 = (ds.map Deed.passedOn).sum + total (refunds ds) := by
  have hok : (sampleDeliver id).toOption.isSome = true := by decide +kernel
  obtain ⟨⟨u, t, k⟩, hdeliver⟩ := Option.isSome_iff_exists.mp hok
  rw [sampleDeliver] at hdeliver
  cases hready : sampleReady with
  | error e =>
      rw [hready] at hdeliver
      cases hdeliver
  | ok s =>
      rw [hready] at hdeliver
      cases hdrive : (((sample fun _ => sampleDigest).body samplePaid.1 samplePaid.2).run s).drive
          (deedReplies id) ([0, 50000000000], 1) with
      | error e =>
          simp only [hdrive] at hdeliver
          cases hdeliver
      | ok p =>
          obtain ⟨ds, hds⟩ := Res.ends_of_drive
            (L := (sample fun _ => sampleDigest).deeds sampleTransceiver samplePaid.1)
            (fun _ _ _ _ _ _ h => deeds_of_deedReplies rfl h) hdrive
          obtain ⟨hmanager, htransceivers, hvalue, -⟩ :=
            (native_value_conserved (sample fun _ => sampleDigest) sampleTransceiver rfl).1 _ _ _ hds
          exact ⟨s, ds, p.2.1, hds, hmanager, htransceivers, hvalue⟩

/-- When the refunded caller has the fee of core raised to 10, between the quote of 6 and the
delivery, the subtraction overflows. -/
theorem raised_fee_reverts :
    (sampleDeliver fun _ => 10).map (fun r => r.2.2) = .error .arithmeticOverflow ∧
      (sampleDeliver id).map (fun r => r.2.2) = .ok ([], 1) := by
  constructor <;> decide +kernel

end NttManager

end Ntt
