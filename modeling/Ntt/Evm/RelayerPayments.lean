import Mathlib.Algebra.BigOperators.Group.Multiset.Basic
import Mathlib.Tactic.Abel
import Ntt.Evm.SpecialRelay
import Ntt.Lib.History

/-!
# Payments of the Special Relayer

The relayer takes the value of a request and pays it out again within the request: what the quote
asks for to the payee, and the rest to the caller. Both are calls that hand control out, and
`withdraw` and `receive` are not under the lock. The calls that came to their end are recorded
(`Ntt.Lib.History`), each with the state in which it was made. What the log of the relayer holds is
what they took and paid, beside what is in flight: a request that has paid some of its value, and
withdrawals (`Books`).

Any call may be made at any time, in the middle of others included. The owners change by calls of a
library that is not part of the repository, and may become any. Of the registry of the quoters it
is only given for whom it may answer with yes while the relayer is in a state.

## Main results

* `Books.start`, `Books.pay`, `Books.finish`: a request, from its value to its event.
* `wp_requestExecution`, `wp_withdraw`: the calls that hand control out keep the books.
* `payments_conserved`: the books of every configuration of every run.
-/

namespace Ntt.SpecialRelayer

open Reentrant

/-! ### The contract -/

/-- The entry points of the relayer; `ownership` is a call of the library. -/
inductive Entry where
  | requestExecution (ctx : Context) (dstChain : UInt16) (dstAddr : Bytes32)
      (refundAddr : Address) (signedQuoteBytes requestBytes relayInstructions : Bytes)
  | quoteDeliveryPrice (targetChain : UInt16) (additionalValue : ℕ) (dstAddr : Bytes32)
      (relayInstructions : Bytes)
  | setExecutionQuoter (ctx : Context) (executionQuoter : Address)
  | setSourceChainId (ctx : Context) (chainId : UInt16)
  | withdraw (ctx : Context)
  | receive (ctx : Context)
  | ownership (owner pendingOwner : Address)
deriving DecidableEq

/-- The relayer as a contract. -/
def contract (R : SpecialRelayer) : Contract relayerInterface State RelayerError where
  Entry := Entry
  body
    | .requestExecution ctx dstChain dstAddr refundAddr signedQuoteBytes requestBytes
        relayInstructions =>
        R.requestExecution ctx dstChain dstAddr refundAddr signedQuoteBytes requestBytes
          relayInstructions
    | .quoteDeliveryPrice targetChain additionalValue dstAddr relayInstructions => do
        let _ ← quoteDeliveryPrice targetChain additionalValue dstAddr relayInstructions
    | .setExecutionQuoter ctx executionQuoter => setExecutionQuoter ctx executionQuoter
    | .setSourceChainId ctx chainId => setSourceChainId ctx chainId
    | .withdraw ctx => withdraw ctx
    | .receive ctx => receive ctx
    | .ownership owner pendingOwner =>
        modify (·.update fun st => { st with owner, pendingOwner })

instance (R : SpecialRelayer) : DecidableEq R.contract.Entry := inferInstanceAs (DecidableEq Entry)

/-- For whom the registry of the quoters answers with yes at some time while the relayer is in a
state. -/
abbrev Registry : Type := State → Address → Address → Bool

/-- The registry and the prices are only read. A payment hands control out. -/
def world (authorised : Registry) : World relayerInterface State where
  closed
    | .call .. => false
    | _ => true
  effect
    | .requestQuote .., s, _, s' => s' = s
    | .isAuthorizedQuoter quoter signer, s, r, s' =>
        s' = s ∧ ((r : Bool) = true → authorised s quoter signer = true)
    | .call .., _, _, _ => False
  answers _ _ := True

/-- Everyone may make any call at any time. -/
def environment (R : SpecialRelayer) (authorised : Registry) :
    Environment relayerInterface State R.contract.Entry where
  toWorld := world authorised
  admits _ _ := True

/-! ### What the calls did -/

/-- What came in. -/
def receiptsOf : List LogEntry → Multiset (Address × ℕ)
  | [] => 0
  | .received sender amount :: log => (sender, amount) ::ₘ receiptsOf log
  | _ :: log => receiptsOf log

/-- What was paid. -/
def payoutsOf : List LogEntry → Multiset (Address × ℕ)
  | [] => 0
  | .paid recipient amount :: log => (recipient, amount) ::ₘ payoutsOf log
  | _ :: log => payoutsOf log

/-- The events, newest first. -/
def eventsOf : List LogEntry → List (UInt16 × Bytes32 × Bytes × Bytes)
  | [] => []
  | .executionRequested dstChain dstAddr requestBytes relayInstructions :: log =>
      (dstChain, dstAddr, requestBytes, relayInstructions) :: eventsOf log
  | _ :: log => eventsOf log

/-- The payments of a request: what its quote asks for to the payee, which is the owner where the
quote names none, and the rest to the caller, if there is one. -/
def requestPayments (st : Storage) (ctx : Context) (q : ParsedQuote) : Multiset (Address × ℕ) :=
  (payeeOf st q, q.requiredPayment) ::ₘ
    if ctx.value - q.requiredPayment > 0 then {(ctx.sender, ctx.value - q.requiredPayment)} else 0

/-- A call that came to its end, with the state in which it was made. -/
abbrev Call : Type := Completed State Entry

namespace Call

variable (c : Call)

/-- What came in with a call. -/
def received : Multiset (Address × ℕ) :=
  match c.entry with
  | .requestExecution ctx .. => {(ctx.sender, ctx.value)}
  | .receive ctx => {(ctx.sender, ctx.value)}
  | _ => 0

/-- What a call paid. A withdrawal pays the owner the whole balance. -/
def paid : Multiset (Address × ℕ) :=
  match c.entry with
  | .requestExecution ctx _ _ _ signedQuoteBytes _ _ =>
      match parseSignedQuote signedQuoteBytes with
      | .ok q => requestPayments c.before.storage ctx q
      | .error _ => 0
  | .withdraw _ => {(c.before.storage.owner, c.before.balance)}
  | _ => 0

/-- The events of a call. -/
def events : List (UInt16 × Bytes32 × Bytes × Bytes) :=
  match c.entry with
  | .requestExecution _ dstChain dstAddr _ _ requestBytes relayInstructions =>
      [(dstChain, dstAddr, requestBytes, relayInstructions)]
  | _ => []

/-- What a plain receive adds to the balance. -/
def deposit : ℕ :=
  match c.entry with
  | .receive ctx => ctx.value
  | _ => 0

/-- What a withdrawal takes from the balance. -/
def withdrawal : ℕ :=
  match c.entry with
  | .withdraw _ => c.before.balance
  | _ => 0

end Call

/-- The amounts of payments. -/
def total (payments : Multiset (Address × ℕ)) : ℕ := (payments.map Prod.snd).sum

@[simp] theorem total_zero : total 0 = 0 := rfl

@[simp] theorem total_cons (p : Address × ℕ) (ps : Multiset (Address × ℕ)) :
    total (p ::ₘ ps) = p.2 + total ps := by
  rw [total, Multiset.map_cons, Multiset.sum_cons, total]

@[simp] theorem total_singleton (p : Address × ℕ) : total {p} = p.2 := by
  rw [total, Multiset.map_singleton, Multiset.sum_singleton]

/-- A request pays out its value. -/
theorem total_requestPayments {st : Storage} {ctx : Context} {q : ParsedQuote}
    (h : q.requiredPayment ≤ ctx.value) : total (requestPayments st ctx q) = ctx.value := by
  rw [requestPayments, total_cons]
  split <;> simp <;> omega

/-- A request was in order: made under a quote that was good for its destination and its gas limit
when it was made, which its value covers. It paid what the quote asks for and the rest, which is
its value. -/
structure Settled (R : SpecialRelayer) (authorised : Registry) (c : Call) (ctx : Context)
    (dstChain : UInt16) (signedQuoteBytes relayInstructions : Bytes) (gasLimit : ℕ)
    (q : ParsedQuote) : Prop where
  decoded : abiDecodeUint256 relayInstructions = .ok gasLimit
  quote : R.GoodQuote (authorised (c.before.requested ctx)) c.before.storage ctx.timestamp dstChain
    gasLimit signedQuoteBytes q
  covered : q.requiredPayment ≤ ctx.value
  payments : c.paid = requestPayments c.before.storage ctx q
  total : total c.paid = ctx.value

/-- What is required of a call: a request has to be in order. -/
def Call.Valid (R : SpecialRelayer) (authorised : Registry) (c : Call) : Prop :=
  match c.entry with
  | .requestExecution ctx dstChain _ _ signedQuoteBytes _ relayInstructions =>
      ∃ gasLimit q,
        Settled R authorised c ctx dstChain signedQuoteBytes relayInstructions gasLimit q
  | _ => True

/-- Calls that move no value. -/
def Entry.quiet : Entry → Bool
  | .requestExecution .. | .withdraw _ | .receive _ => false
  | _ => true

theorem Call.of_quiet {R : SpecialRelayer} {authorised : Registry} {c : Call}
    (hc : c.entry.quiet = true) :
    c.received = 0 ∧ c.paid = 0 ∧ c.events = [] ∧ c.deposit = 0 ∧ c.withdrawal = 0 ∧
      c.Valid R authorised := by
  obtain ⟨e, before⟩ := c
  cases e with
  | requestExecution | withdraw | receive => cases hc
  | quoteDeliveryPrice | setExecutionQuoter | setSourceChainId | ownership =>
      exact ⟨rfl, rfl, rfl, rfl, rfl, trivial⟩

/-! ### The books -/

/-- A request in flight: its context, and what it has paid. -/
structure Flight where
  ctx : Context
  paid : Multiset (Address × ℕ)

/-- What came in with a request in flight. -/
def Flight.received : Option Flight → Multiset (Address × ℕ)
  | some f => {(f.ctx.sender, f.ctx.value)}
  | none => 0

/-- What a request in flight has paid. -/
def Flight.payments : Option Flight → Multiset (Address × ℕ)
  | some f => f.paid
  | none => 0

/-- **The books.** Since an initial state, what came in and what was paid is what the calls took and
paid, beside at most one request in flight, which has paid no more than its value, and withdrawals
in flight. The balance changed by the plain receives and the withdrawals. The events are those of
the requests, and every request was in order. -/
structure Books (R : SpecialRelayer) (authorised : Registry) (init : State)
    (p : Recorded State Entry) (f : Option Flight) (w : Multiset (Address × ℕ)) : Prop where
  lock : p.1.storage.entered = f.isSome
  receipts : receiptsOf p.1.log =
    receiptsOf init.log + (p.2.map Call.received).sum + Flight.received f
  payouts : payoutsOf p.1.log =
    payoutsOf init.log + (p.2.map Call.paid).sum + Flight.payments f + w
  covered : total (Flight.payments f) ≤ total (Flight.received f)
  balance : p.1.balance + (p.2.map Call.withdrawal).sum + total (Flight.payments f) + total w =
    init.balance + (p.2.map Call.deposit).sum + total (Flight.received f)
  events : eventsOf p.1.log = p.2.flatMap Call.events ++ eventsOf init.log
  valid : ∀ c ∈ p.2, Call.Valid R authorised c

/-- The environment keeps the books: nested calls leave what is in flight as it is. -/
def bookkeeping (R : SpecialRelayer) (authorised : Registry) (init : State) :
    Rely relayerInterface (Recorded State Entry) where
  toWorld := (world authorised).lift _
  inv p := ∃ f w, Books R authorised init p f w
  rely p p' := ∀ f w, Books R authorised init p f w → Books R authorised init p' f w

theorem bookkeeping_closed {R : SpecialRelayer} {authorised : Registry} {init : State} :
    (bookkeeping R authorised init).Closed where
  refl _ _ _ h := h
  trans h h' f w hf := h' f w (h f w hf)

namespace Books

variable {R : SpecialRelayer} {authorised : Registry} {init : State} {p p' : Recorded State Entry}
  {f : Option Flight} {w : Multiset (Address × ℕ)}

/-- Nothing happened yet. -/
theorem initial (h : init.storage.entered = false) :
    Books R authorised init (init, []) none 0 where
  lock := h
  receipts := by simp [Flight.received]
  payouts := by simp [Flight.payments]
  covered := le_rfl
  balance := rfl
  events := rfl
  valid := List.forall_mem_nil _

/-- A request starts: its value comes in, under the lock. -/
theorem start (h : Books R authorised init p none w) (ctx : Context) :
    Books R authorised init (p.1.requested ctx, p.2) (some ⟨ctx, 0⟩) w where
  lock := rfl
  receipts := by
    change (ctx.sender, ctx.value) ::ₘ receiptsOf p.1.log = _
    rw [h.receipts, ← Multiset.singleton_add, Flight.received, Flight.received]
    abel
  payouts := h.payouts
  covered := Nat.zero_le _
  balance := by
    have hbalance := h.balance
    simp only [Flight.received, Flight.payments, total_zero, total_singleton, State.requested,
      State.update, State.receive] at hbalance ⊢
    omega
  events := h.events
  valid := h.valid

/-- A request in flight pays. -/
theorem pay {ctx : Context} {paid : Multiset (Address × ℕ)}
    (h : Books R authorised init p (some ⟨ctx, paid⟩) w) (recipient : Address) {amount : ℕ}
    (hle : amount ≤ p.1.balance) (hcovered : amount + total paid ≤ ctx.value) :
    Books R authorised init (p.1.pay recipient amount, p.2)
      (some ⟨ctx, (recipient, amount) ::ₘ paid⟩) w where
  lock := h.lock
  receipts := h.receipts
  payouts := by
    change (recipient, amount) ::ₘ payoutsOf p.1.log = _
    rw [h.payouts, Flight.payments, Flight.payments, Multiset.add_cons, Multiset.cons_add]
  covered := by
    simpa only [Flight.payments, Flight.received, total_cons, total_singleton] using hcovered
  balance := by
    have hbalance := h.balance
    simp only [Flight.payments, Flight.received, total_cons, State.pay] at hbalance ⊢
    omega
  events := h.events
  valid := h.valid

/-- A call that moves no value comes to its end. -/
theorem quiet (h : Books R authorised init p f w) {c : Call} (hc : c.entry.quiet = true)
    {g : Storage → Storage} (hg : (g p.1.storage).entered = p.1.storage.entered) :
    Books R authorised init (p.1.update g, c :: p.2) f w := by
  obtain ⟨hreceived, hpaid, hevents, hdeposit, hwithdrawal, hvalid⟩ := Call.of_quiet hc
  constructor
  case lock => exact hg.trans h.lock
  case receipts => rw [List.map_cons, List.sum_cons, hreceived, zero_add]; exact h.receipts
  case payouts => rw [List.map_cons, List.sum_cons, hpaid, zero_add]; exact h.payouts
  case covered => exact h.covered
  case balance =>
    rw [List.map_cons, List.map_cons, List.sum_cons, List.sum_cons, hdeposit, hwithdrawal,
      zero_add, zero_add]
    exact h.balance
  case events => rw [List.flatMap_cons, hevents, List.nil_append]; exact h.events
  case valid => exact List.forall_mem_cons.mpr ⟨hvalid, h.valid⟩

/-- A withdrawal pays the owner. -/
theorem withdraw (h : Books R authorised init p f w) :
    Books R authorised init (p.1.pay p.1.storage.owner p.1.balance, p.2) f
      ((p.1.storage.owner, p.1.balance) ::ₘ w) where
  lock := h.lock
  receipts := h.receipts
  payouts := by
    change (p.1.storage.owner, p.1.balance) ::ₘ payoutsOf p.1.log = _
    rw [h.payouts, Multiset.add_cons]
  covered := h.covered
  balance := by
    have hbalance := h.balance
    simp only [total_cons, State.pay] at hbalance ⊢
    omega
  events := h.events
  valid := h.valid

/-- A withdrawal comes to its end. -/
theorem withdrawn {before : State} (h : Books R authorised init p f
      ((before.storage.owner, before.balance) ::ₘ w)) (ctx : Context) :
    Books R authorised init (p.1, ⟨.withdraw ctx, before⟩ :: p.2) f w where
  lock := h.lock
  receipts := by
    change receiptsOf p.1.log = receiptsOf init.log + (0 + (p.2.map Call.received).sum) + _
    rw [zero_add]
    exact h.receipts
  payouts := by
    change payoutsOf p.1.log = payoutsOf init.log +
      ({(before.storage.owner, before.balance)} + (p.2.map Call.paid).sum) + Flight.payments f + w
    rw [h.payouts, ← Multiset.singleton_add]
    abel
  covered := h.covered
  balance := by
    have hbalance := h.balance
    change p.1.balance + (before.balance + (p.2.map Call.withdrawal).sum) + _ + _ =
      init.balance + (0 + (p.2.map Call.deposit).sum) + _
    rw [total_cons] at hbalance
    omega
  events := h.events
  valid := List.forall_mem_cons.mpr ⟨trivial, h.valid⟩

/-- A plain receive. -/
theorem receive (h : Books R authorised init p f w) (ctx : Context) :
    Books R authorised init (p.1.receive ctx.sender ctx.value, ⟨.receive ctx, p.1⟩ :: p.2) f w where
  lock := h.lock
  receipts := by
    change (ctx.sender, ctx.value) ::ₘ receiptsOf p.1.log = receiptsOf init.log +
      ({(ctx.sender, ctx.value)} + (p.2.map Call.received).sum) + Flight.received f
    rw [h.receipts, ← Multiset.singleton_add]
    abel
  payouts := by
    change payoutsOf p.1.log = payoutsOf init.log + (0 + (p.2.map Call.paid).sum) + _ + _
    rw [zero_add]
    exact h.payouts
  covered := h.covered
  balance := by
    have hbalance := h.balance
    change p.1.balance + ctx.value + (0 + (p.2.map Call.withdrawal).sum) + _ + _ =
      init.balance + (ctx.value + (p.2.map Call.deposit).sum) + _
    omega
  events := h.events
  valid := List.forall_mem_cons.mpr ⟨trivial, h.valid⟩

/-- A request comes to its end: its payments are made, there is its event, and the lock is free. -/
theorem finish {before : State} {ctx : Context} {dstChain : UInt16} {dstAddr : Bytes32}
    {refundAddr : Address} {signedQuoteBytes requestBytes relayInstructions : Bytes} {c : Call}
    {gasLimit : ℕ} {q : ParsedQuote}
    (hc : c = ⟨.requestExecution ctx dstChain dstAddr refundAddr signedQuoteBytes requestBytes
      relayInstructions, before⟩)
    (hsettled : Settled R authorised c ctx dstChain signedQuoteBytes relayInstructions gasLimit q)
    (h : Books R authorised init p (some ⟨ctx, c.paid⟩) w) :
    Books R authorised init (State.update { p.1 with
        log := .executionRequested dstChain dstAddr requestBytes relayInstructions :: p.1.log }
      fun st => { st with entered := false }, c :: p.2) none w where
  lock := rfl
  receipts := by
    have hreceived : c.received = {(ctx.sender, ctx.value)} := by rw [hc]; rfl
    change receiptsOf p.1.log = _
    rw [h.receipts, List.map_cons, List.sum_cons, hreceived, Flight.received, Flight.received]
    abel
  payouts := by
    change payoutsOf p.1.log = _
    rw [h.payouts, List.map_cons, List.sum_cons, Flight.payments, Flight.payments]
    abel
  covered := le_rfl
  balance := by
    have hbalance := h.balance
    have hdeposit : c.deposit = 0 := by rw [hc]; rfl
    have hwithdrawal : c.withdrawal = 0 := by rw [hc]; rfl
    have htotal := hsettled.total
    rw [List.map_cons, List.map_cons, List.sum_cons, List.sum_cons, hdeposit, hwithdrawal]
    simp only [Flight.payments, Flight.received, total_singleton, total_zero, htotal,
      State.update] at hbalance ⊢
    omega
  events := by
    have hevents : c.events = [(dstChain, dstAddr, requestBytes, relayInstructions)] := by
      rw [hc]
      rfl
    change (dstChain, dstAddr, requestBytes, relayInstructions) :: eventsOf p.1.log = _
    rw [h.events, List.flatMap_cons, hevents]
    rfl
  valid := by
    refine List.forall_mem_cons.mpr ⟨?_, h.valid⟩
    rw [hc] at hsettled ⊢
    exact ⟨gasLimit, q, hsettled⟩

end Books

/-! ### The programs -/

variable {R : SpecialRelayer} {authorised : Registry} {init : State} {p : Recorded State Entry}
  {w : Multiset (Address × ℕ)}

@[simp] theorem wp_lift_load {E : Rely relayerInterface (State × List Call)}
    {Q : Storage → State × List Call → Prop} :
    ((load.lift (List Call)).run p).wp E Q ↔ Q p.1.storage p := Iff.rfl

/-- A payment that has to be accepted: control leaves with the books and comes back with them. -/
theorem wp_callValue {recipient : Address} {amount : ℕ}
    {Q : Bool → Recorded State Entry → Prop}
    (hbooks : amount ≤ p.1.balance →
      (bookkeeping R authorised init).inv (p.1.pay recipient amount, p.2))
    (hfalse : ∀ p', Q false p')
    (htrue : amount ≤ p.1.balance → ∀ p', (bookkeeping R authorised init).rely
      (p.1.pay recipient amount, p.2) p' → Q true p') :
    (((callValue recipient amount).lift (List Call)).run p).wp
      (bookkeeping R authorised init) Q := by
  rw [callValue, wp_lift_bind, wp_lift_get, wp_lift_ite]
  refine ⟨fun _ => hfalse p, fun hle => ?_⟩
  rw [wp_lift_bind, wp_lift_modify]
  refine (wp_lift_bind (m := (call (X := relayerInterface) (.call recipient amount) :
    RelayerProg Bool))).mpr ?_
  rw [wp_lift_call, wp_call_open rfl]
  refine ⟨hbooks (not_lt.mp hle), fun (accepted : Bool) p' _ _ hrely => ?_⟩
  rw [wp_lift_ite]
  exact ⟨fun _ => htrue (not_lt.mp hle) p' hrely, fun _ => hfalse _⟩

/-- The payments of a request in flight. -/
theorem wp_payQuote {st : Storage} {ctx : Context} {q : ParsedQuote}
    (hcovered : q.requiredPayment ≤ ctx.value)
    (h : Books R authorised init p (some ⟨ctx, 0⟩) w) :
    (((payQuote ctx (payeeOf st q) q.requiredPayment).lift (List Call)).run p).wp
      (bookkeeping R authorised init) fun _ p' =>
        Books R authorised init p' (some ⟨ctx, requestPayments st ctx q⟩) w := by
  have hpaid (hle : q.requiredPayment ≤ p.1.balance) :=
    h.pay (payeeOf st q) hle (by simpa using hcovered)
  rw [payQuote, wp_lift_bind]
  refine wp_callValue (fun hle => ⟨_, _, hpaid hle⟩) (fun p' => ?_) fun hle p' hrely => ?_
  · rw [wp_lift_bind, wp_lift_revertIf]
    exact fun hne => absurd rfl hne
  have hbooks := hrely _ _ (hpaid hle)
  rw [wp_lift_bind, wp_lift_revertIf, requestPayments]
  intro _
  by_cases hrefund : ctx.value - q.requiredPayment > 0
  · rw [if_pos hrefund, if_pos hrefund, wp_lift_bind]
    have hrefunded (hle : ctx.value - q.requiredPayment ≤ p'.1.balance) :=
      hbooks.pay ctx.sender hle (by simp; omega)
    refine wp_callValue (fun hle => ⟨_, _, hrefunded hle⟩) (fun p'' => ?_) fun hle p'' hrely => ?_
    · rw [wp_lift_revertIf]
      exact fun hne => absurd rfl hne
    rw [wp_lift_revertIf]
    intro _
    have hboth := hrely _ _ (hrefunded hle)
    rwa [Multiset.cons_swap, Multiset.cons_zero] at hboth
  · rw [if_neg hrefund, if_neg hrefund, wp_lift_pure]
    exact hbooks

/-- What is left of a request after its checks: the second reading of the storage, and the
payments. -/
theorem wp_validateAndPay (before : State) {ctx : Context} {dstChain : UInt16}
    {signedQuoteBytes relayInstructions : Bytes} {Q : Unit → Recorded State Entry → Prop}
    (hp : p.1 = before.requested ctx)
    (h : ∀ gasLimit q, abiDecodeUint256 relayInstructions = .ok gasLimit →
      R.GoodQuote (authorised p.1) before.storage ctx.timestamp dstChain gasLimit signedQuoteBytes
        q → q.requiredPayment ≤ ctx.value →
      (((payQuote ctx (payeeOf before.storage q) q.requiredPayment).lift (List Call)).run p).wp
        (bookkeeping R authorised init) Q) :
    (((R.validateAndPay ctx dstChain signedQuoteBytes relayInstructions).lift
      (List Call)).run p).wp (bookkeeping R authorised init) Q := by
  have hstorage : p.1.storage = { before.storage with entered := true } := by rw [hp]; rfl
  simp only [validateAndPay, wp_lift_bind, wp_lift_load, wp_lift_revertIf,
    monadLift_eq_liftExcept, wp_lift_liftExcept]
  intro hquoter hsource q hparsed hpre hsrc hdst hexpiry hvalue gasLimit hdecode hgas signer
    hrecover hsigner
  rw [isAuthorizedQuoter]
  refine wp_lift_call.mpr ((wp_call_closed rfl p).mpr ?_)
  rintro authorized p' ⟨⟨hsame, hauthorized⟩, hhistory⟩ hyes hpayee
  obtain rfl : p' = p := Prod.ext hsame hhistory
  rw [hstorage] at hquoter hsource hsrc hauthorized
  rw [show payeeOf p'.1.storage q = payeeOf before.storage q by rw [hstorage]; rfl]
  obtain rfl : signer = q.quotedQuoter := not_not.mp hsigner
  exact h gasLimit q hdecode
    { quoter := hquoter
      sourceChain := hsource
      parsed := hparsed
      pre := not_not.mp hpre
      signedSourceChain := not_not.mp hsrc
      signedTargetChain := not_not.mp hdst
      unexpired := UInt64.not_lt.mp hexpiry
      gasLimit := (not_not.mp hgas).symm
      signed := hrecover
      authorised := hauthorized (Bool.eq_true_of_not_eq_false hyes)
      payeeAddress := not_le.mp hpayee } (not_lt.mp hvalue)

/-- **A request**, made while none is in flight. -/
theorem wp_requestExecution {ctx : Context} {dstChain : UInt16} {dstAddr : Bytes32}
    {refundAddr : Address} {signedQuoteBytes requestBytes relayInstructions : Bytes} {c : Call}
    (hc : c = ⟨.requestExecution ctx dstChain dstAddr refundAddr signedQuoteBytes requestBytes
      relayInstructions, p.1⟩) (h : Books R authorised init p none w) :
    (((R.requestExecution ctx dstChain dstAddr refundAddr signedQuoteBytes requestBytes
      relayInstructions).lift (List Call)).run p).wp (bookkeeping R authorised init)
        fun _ p' => Books R authorised init (p'.1, c :: p'.2) none w := by
  simp only [requestExecution, nonReentrant, wp_lift_bind, wp_lift_load, wp_lift_revertIf,
    wp_lift_modify]
  intro _
  refine wp_validateAndPay p.1 rfl fun gasLimit q hdecode hquote hcovered => ?_
  refine Res.wp_mono (fun _ p' hp' => ?_) (wp_payQuote hcovered (h.start ctx))
  have hpaid : c.paid = requestPayments p.1.storage ctx q := by
    rw [hc, Call.paid]
    simp only [hquote.parsed]
  have hsettled : Settled R authorised c ctx dstChain signedQuoteBytes relayInstructions gasLimit
      q := by
    refine ⟨hdecode, ?_, hcovered, ?_, ?_⟩
    · rw [hc]
      exact hquote
    · rw [hpaid, hc]
    · rw [hpaid, total_requestPayments hcovered]
  refine Books.finish hc hsettled ?_
  rw [hpaid]
  exact hp'

/-- A request made while another is in flight reverts. -/
theorem wp_requestExecution_of_entered {ctx : Context} {dstChain : UInt16} {dstAddr : Bytes32}
    (refundAddr : Address) {signedQuoteBytes requestBytes relayInstructions : Bytes}
    {Q : Unit → Recorded State Entry → Prop} (h : p.1.storage.entered = true) :
    (((R.requestExecution ctx dstChain dstAddr refundAddr signedQuoteBytes requestBytes
      relayInstructions).lift (List Call)).run p).wp (bookkeeping R authorised init) Q := by
  simp only [requestExecution, nonReentrant, wp_lift_bind, wp_lift_load, wp_lift_revertIf,
    wp_lift_modify]
  exact fun hfree => absurd h hfree

/-- A call keeps the books if it does so for whatever is in flight. -/
theorem guarantee_of_books {e : Entry} (hp : (bookkeeping R authorised init).inv p)
    (h : ∀ f w, Books R authorised init p f w → (((R.contract.body e).lift (List Call)).run p).wp
      (bookkeeping R authorised init) fun _ p' =>
        Books R authorised init (p'.1, ⟨e, p.1⟩ :: p'.2) f w) :
    Guarantee (bookkeeping R authorised init) p ((R.contract.recorded.body e).run p) := by
  obtain ⟨f, w, hbooks⟩ := hp
  have hall : (((R.contract.body e).lift (List Call)).run p).wp (bookkeeping R authorised init)
      fun _ p' => ∀ i : {i : Option Flight × Multiset (Address × ℕ) //
        Books R authorised init p i.1 i.2},
          Books R authorised init (p'.1, ⟨e, p.1⟩ :: p'.2) i.1.1 i.1.2 :=
    have : Nonempty {i : Option Flight × Multiset (Address × ℕ) //
      Books R authorised init p i.1 i.2} := ⟨⟨(f, w), hbooks⟩⟩
    Res.wp_forall fun i => h i.1.1 i.1.2 i.2
  refine (wp_recorded (C := R.contract) e p).mpr ?_
  refine Res.wp_mono (fun _ p' hp' => ?_) hall
  exact ⟨⟨f, w, hp' ⟨(f, w), hbooks⟩⟩, fun f' w' h' => hp' ⟨(f', w'), h'⟩⟩

/-- A withdrawal. -/
theorem wp_withdraw {f : Option Flight} {ctx : Context} (h : Books R authorised init p f w) :
    (((withdraw ctx).lift (List Call)).run p).wp (bookkeeping R authorised init) fun _ p' =>
      Books R authorised init (p'.1, ⟨.withdraw ctx, p.1⟩ :: p'.2) f w := by
  rw [withdraw, wp_lift_bind, wp_lift_revertIf]
  intro _
  rw [wp_lift_bind, wp_lift_get, wp_lift_bind]
  refine wp_callValue (fun _ => ⟨_, _, h.withdraw⟩) (fun p' => ?_) fun _ p' hrely => ?_
  · rw [wp_lift_revertIf]
    exact fun hne => absurd rfl hne
  rw [wp_lift_revertIf]
  exact fun _ => (hrely _ _ h.withdraw).withdrawn ctx

/-- A price is only asked for. -/
theorem wp_quoteDeliveryPrice {f : Option Flight} {targetChain : UInt16} {additionalValue : ℕ}
    {dstAddr : Bytes32} {relayInstructions : Bytes} (h : Books R authorised init p f w) :
    (((do
      let _ ← quoteDeliveryPrice targetChain additionalValue dstAddr relayInstructions :
        RelayerProg Unit).lift (List Call)).run p).wp (bookkeeping R authorised init) fun _ p' =>
          Books R authorised init (p'.1, ⟨.quoteDeliveryPrice targetChain additionalValue dstAddr
            relayInstructions, p.1⟩ :: p'.2) f w := by
  rw [wp_lift_bind, quoteDeliveryPrice]
  refine wp_lift_bind.mpr (wp_lift_load.mpr (wp_lift_bind.mpr (wp_lift_revertIf.mpr fun _ => ?_)))
  refine wp_lift_call.mpr ((wp_call_closed rfl p).mpr ?_)
  rintro price p' ⟨hsame, hhistory⟩
  obtain rfl : p' = p := Prod.ext hsame hhistory
  exact h.quiet (g := id) rfl rfl

/-- A setter of the owner. -/
theorem wp_setter {f : Option Flight} {ctx : Context} {e : Entry} {g : Storage → Storage}
    (he : e.quiet = true) (hg : ∀ st, (g st).entered = st.entered)
    (h : Books R authorised init p f w) :
    (((do
      revertIf (ctx.value ≠ 0) .nonPayable
      onlyOwner ctx
      Reentrant.modify (·.update g) : RelayerProg Unit).lift (List Call)).run p).wp
        (bookkeeping R authorised init) fun _ p' =>
          Books R authorised init (p'.1, ⟨e, p.1⟩ :: p'.2) f w := by
  simp only [onlyOwner, wp_lift_bind, wp_lift_load, wp_lift_revertIf, wp_lift_modify]
  exact fun _ _ => h.quiet he (hg _)

/-- Every call keeps the books. -/
theorem sound : Sound R.contract.recorded (environment R authorised).recorded
    (bookkeeping R authorised init) := by
  refine ⟨rfl, fun e p _ hp => guarantee_of_books hp fun f w h => ?_⟩
  cases e with
  | requestExecution ctx dstChain dstAddr refundAddr signedQuoteBytes requestBytes
      relayInstructions =>
      cases f with
      | none => exact wp_requestExecution rfl h
      | some f => exact wp_requestExecution_of_entered refundAddr h.lock
  | quoteDeliveryPrice => exact wp_quoteDeliveryPrice h
  | setExecutionQuoter => exact wp_setter rfl (fun _ => rfl) h
  | setSourceChainId => exact wp_setter rfl (fun _ => rfl) h
  | withdraw => exact wp_withdraw h
  | receive ctx => exact h.receive ctx
  | ownership owner pendingOwner =>
      exact h.quiet (g := fun st => { st with owner, pendingOwner }) rfl rfl

/-! ### Every run -/

/-- The books of every configuration of every run. -/
theorem books_of_recorded (hinit : init.storage.entered = false)
    {c : Config relayerInterface (Recorded State Entry) RelayerError}
    (h : Reachable R.contract.recorded (environment R authorised).recorded (init, []) c) :
    ∃ f w, Books R authorised init c.st f w :=
  h.inv bookkeeping_closed sound ⟨_, _, Books.initial hinit⟩

/-- The relayer itself has the books of such runs. -/
theorem books_of_reachable (hinit : init.storage.entered = false)
    {c : Config relayerInterface State RelayerError}
    (h : Reachable R.contract (environment R authorised) init c) :
    ∃ history f w, Books R authorised init (c.st, history) f w := by
  obtain ⟨⟨⟨s, history⟩, stack⟩, hreach, rfl, -⟩ := h.recorded
  obtain ⟨f, w, hbooks⟩ := books_of_recorded hinit hreach
  exact ⟨history, f, w, hbooks⟩

/-- **Payments are conserved**: there are books for every configuration of every run, and between
transactions nothing is in flight. -/
theorem payments_conserved (hinit : init.storage.entered = false)
    {c : Config relayerInterface (Recorded State Entry) RelayerError}
    (h : Reachable R.contract.recorded (environment R authorised).recorded (init, []) c) :
    (∃ f w, Books R authorised init c.st f w) ∧
      (c.stack = [] → Books R authorised init c.st none 0) := by
  have hbooks : Books R authorised init (init, []) none 0 := .initial hinit
  refine ⟨books_of_recorded hinit h, fun hidle => ?_⟩
  exact h.rely_of_idle bookkeeping_closed sound ⟨_, _, hbooks⟩ hidle _ _ hbooks

/-! ### A request with a rest -/

/-- The quotes of `0x51` are good ones, and payments are accepted. -/
def accepting (x : RelayerExt) (p : Recorded State Entry) (_ : Unit) :
    Except RelayerError (RelayerExt.Reply x × Recorded State Entry × Unit) :=
  match x with
  | .requestQuote .. => .ok ((0 : ℕ), p, ())
  | .isAuthorizedQuoter _ signer => .ok (signer == 0x51, p, ())
  | .call .. => .ok (true, p, ())

/-- A request of the account `0x5000` for 5, with the value 6. -/
def sampleRequest : Entry :=
  .requestExecution ⟨0x5000, 6, 1000, 1⟩ 4 0x99 0 (sampleQuote 5) [] (abiEncodeUint256 500000)

def sampleSettled : Recorded State Entry :=
  ({ sampleIdle with
      log := [.executionRequested 4 0x99 [] (abiEncodeUint256 500000), .paid 0x5000 1,
        .paid 0xFEE 5, .received 0x5000 6] }, [⟨sampleRequest, sampleIdle⟩])

theorem drive_sampleRequest :
    sampleRelayer.contract.recorded.drive accepting [sampleRequest] (sampleIdle, []) () =
      .ok sampleSettled := by
  decide +kernel

/-- The account is returned the rest, and the payee has its payment. -/
theorem sample_payments_conserved :
    ∃ c, Reachable sampleRelayer.contract.recorded
        (environment sampleRelayer fun _ _ signer => signer == 0x51).recorded (sampleIdle, []) c ∧
      c.stack = [] ∧
      Books sampleRelayer (fun _ _ signer => signer == 0x51) sampleIdle c.st none 0 ∧
      payoutsOf c.st.1.log = {(0x5000, 1), (0xFEE, 5)} := by
  have hanswers : Answers
      (environment sampleRelayer fun _ _ signer => signer == 0x51).recorded.toWorld accepting := by
    intro x p _ r p' _ h
    cases x with
    | requestQuote =>
        obtain ⟨rfl, rfl, -⟩ := Except.ok.inj h
        exact ⟨rfl, rfl⟩
    | isAuthorizedQuoter quoter signer =>
        obtain ⟨rfl, rfl, -⟩ := Except.ok.inj h
        exact ⟨⟨rfl, id⟩, rfl⟩
    | call =>
        obtain ⟨rfl, rfl, -⟩ := Except.ok.inj h
        exact ⟨trivial, rfl⟩
  have hreach : Reachable sampleRelayer.contract.recorded
      (environment sampleRelayer fun _ _ signer => signer == 0x51).recorded (sampleIdle, [])
      ⟨sampleSettled, []⟩ := Reachable.drive_call hanswers .refl trivial drive_sampleRequest
  exact ⟨_, hreach, rfl, (payments_conserved rfl hreach).2 rfl, rfl⟩

end Ntt.SpecialRelayer
