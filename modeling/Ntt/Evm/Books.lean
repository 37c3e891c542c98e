import Ntt.Evm.Refinement

/-!
# The Books of a Manager and of its Token

A manager beside the ledger of its token. The token is one that takes no fee and does not call
back: its calls have their effect on the ledger at once (`NttManager.TokenCall`), while the
transceivers and the callers can still do anything. Its other users spend what they have, and mint
where the manager does not (`TokenOp.Allowed`), whenever control is outside the manager.

The **books** agree when the tokens that the ledger saw the manager pull in and give out are those
that the log accounts for, and when what the manager holds, or what has been burned, backs them
(`NttManager.Books`). A program puts them out of order between a call of the token and the action
that accounts for it, and between the execution of a message and what is done for it; the sets in
`NttManager.Books` say for which digests and sequences. They are in order wherever control leaves
the manager.

## Main results

* `books_sound`: every call meets its guarantee for the books.
* `chain_sound`: and for the history, in the same environment.
-/

namespace Ntt

open Reentrant

/-! ### The token and its users -/

/-- The state with another ledger of the token. -/
def State.withToken (s : State) (l : Ledger) : State := { s with token := l }

@[simp] theorem State.withToken_storage (s : State) (l : Ledger) :
    (s.withToken l).storage = s.storage := rfl

@[simp] theorem State.withToken_token (s : State) (l : Ledger) : (s.withToken l).token = l := rfl

@[simp] theorem State.withToken_log (s : State) (l : Ledger) : (s.withToken l).log = s.log := rfl

@[simp] theorem State.withToken_self (s : State) : s.withToken s.token = s := rfl

/-- What a user of a token does to it, other than through the manager. -/
inductive TokenOp where
  | move (sender recipient : Address) (amount : ℕ)
  | burn (account : Address) (amount : ℕ)
  | mint (account : Address) (amount : ℕ)
deriving DecidableEq, Repr

/-- The ledger after that. -/
def TokenOp.apply (l : Ledger) : TokenOp → Ledger
  | .move sender recipient amount => l.move sender recipient amount
  | .burn account amount => l.burn account amount
  | .mint account amount => l.mint account amount

/-- The calls that a token answers without calling back, and those that change nothing. -/
def Ext.isPlain : Ext → Bool
  | .sendMessage .. | .transferTransceiverOwnership .. | .sendValue .. => false
  | _ => true

/-! ### What the log accounts for -/

/-- The tokens that an action accounts for as pulled in. -/
def Action.takes : Action → ℕ
  | .useMessageSequence _ t => t.received
  | _ => 0

/-- The tokens that an action accounts for as given out. -/
def Action.pays : Action → ℕ
  | .transferRedeemed _ _ _ untrimmed | .outboundTransferCancelled _ _ _ untrimmed => untrimmed
  | _ => 0

/-- The tokens pulled in by transfers, after a log. -/
def takenIn (log : List LogEntry) : ℕ := (log.map fun e => e.act.takes).sum

/-- The tokens given out for redemptions and cancellations, after a log. -/
def paidOut (log : List LogEntry) : ℕ := (log.map fun e => e.act.pays).sum

@[simp] theorem takenIn_cons (e : LogEntry) (log : List LogEntry) :
    takenIn (e :: log) = e.act.takes + takenIn log := List.sum_cons

@[simp] theorem paidOut_cons (e : LogEntry) (log : List LogEntry) :
    paidOut (e :: log) = e.act.pays + paidOut log := List.sum_cons

/-- Something was begun for a digest and is not done yet. -/
def InStatus.isOpen : InStatus → Bool
  | .executing _ | .released .. => true
  | _ => false

/-- A transfer has its sequence, and is neither queued nor finalised. -/
def OutStatus.isInFlight : OutStatus → Bool
  | .inFlight .. => true
  | _ => false

/-- A transfer has left the queue to be refunded. -/
def OutStatus.isWithdrawn : OutStatus → Bool
  | .withdrawn .. => true
  | _ => false

/-- The digest that an action begins something for. -/
def Action.opens : Action → Option Bytes32
  | .execute _ _ _ d | .dequeueInbound d => some d
  | _ => none

/-- The digest that an action is done with. -/
def Action.closes : Action → Option Bytes32
  | .enqueueInbound d _ | .transferRedeemed d .. => some d
  | _ => none

/-- The sequence that an action puts in flight. -/
def Action.launches : Action → Option UInt64
  | .useMessageSequence n _ | .releaseOutbound n => some n
  | _ => none

/-- The sequence that an action takes out of the air. -/
def Action.lands : Action → Option UInt64
  | .enqueueOutbound n _ | .send n .. => some n
  | _ => none

/-- The sequence that an action takes out of the queue to be refunded. -/
def Action.withdraws : Action → Option UInt64
  | .withdrawOutbound n => some n
  | _ => none

/-- The sequence that an action refunds. -/
def Action.refunds : Action → Option UInt64
  | .outboundTransferCancelled n .. => some n
  | _ => none

/-- A digest is open after an action that opens it, or when it was open and is not closed. -/
theorem InStatus.isOpen_step {d : Bytes32} {old : InStatus} {a : Action}
    (h : (old.step d a).isOpen = true) :
    a.opens = some d ∨ old.isOpen = true ∧ a.closes ≠ some d := by
  cases a with
  | execute _ _ _ d' | enqueueInbound d' _ | dequeueInbound d' | transferRedeemed d' _ _ _ =>
      by_cases hd : d' = d <;> simp_all [step, Action.opens, Action.closes, isOpen]
  | _ => exact .inr ⟨h, by simp [Action.closes]⟩

/-- A sequence is in flight after an action that puts it there, or when it was. -/
theorem OutStatus.isInFlight_step {n : UInt64} {old : OutStatus} {a : Action}
    (h : (old.step n a).isInFlight = true) :
    a.launches = some n ∨ old.isInFlight = true ∧ a.lands ≠ some n := by
  cases a with
  | useMessageSequence n' _ | enqueueOutbound n' _ | releaseOutbound n' | withdrawOutbound n'
    | send n' _ _ _ _ | outboundTransferCancelled n' _ _ _ =>
      by_cases hn : n' = n <;> cases old <;>
        simp_all [step, Action.launches, Action.lands, isInFlight]
  | _ => exact .inr ⟨h, by simp [Action.lands]⟩

/-- A sequence is withdrawn after an action that withdraws it, or when it was. -/
theorem OutStatus.isWithdrawn_step {n : UInt64} {old : OutStatus} {a : Action}
    (h : (old.step n a).isWithdrawn = true) :
    a.withdraws = some n ∨ old.isWithdrawn = true ∧ a.refunds ≠ some n := by
  cases a with
  | useMessageSequence n' _ | enqueueOutbound n' _ | releaseOutbound n' | withdrawOutbound n'
    | send n' _ _ _ _ | outboundTransferCancelled n' _ _ _ =>
      by_cases hn : n' = n <;> cases old <;>
        simp_all [step, Action.withdraws, Action.refunds, isWithdrawn]
  | _ => exact .inr ⟨h, by simp [Action.refunds]⟩

/-- The actions that account for no tokens, and begin and finish nothing. -/
def Action.isQuiet : Action → Bool
  | .quorum .. | .setPeer .. | .outboundLimit .. | .inboundLimit .. | .setPaused _ | .setPauser _
  | .setOwner _ | .setEntered _ | .attest .. => true
  | _ => false

namespace NttManager

variable (M : NttManager)

/-- What the users of the token may do: they spend what they have, and a token that the manager
mints and burns has no other minter. -/
def Allows (l : Ledger) : TokenOp → Prop
  | .move sender _ amount => sender ≠ M.this ∧ amount ≤ l.balance sender
  | .burn account amount => account ≠ M.this ∧ amount ≤ l.balance account
  | .mint .. => M.mode = .locking

/-- What a call from the manager does to the ledger of a token with these decimals. A call that
needs more than there is fails. -/
def TokenCall (decimals : UInt8) : (x : Ext) → Ledger → x.Reply → Ledger → Prop
  | .tokenDecimals, l, r, l' => r = decimals ∧ l' = l
  | .balanceOf account, l, r, l' => r = l.balance account ∧ l' = l
  | .safeTransferFrom sender recipient amount, l, _, l' => amount ≤ l.balance sender ∧
      l' = { l.move sender recipient amount with taken := l.taken + amount }
  | .burn amount, l, _, l' => amount ≤ l.balance M.this ∧ l' = l.burn M.this amount
  | .mint recipient amount, l, _, l' =>
      l' = { l.mint recipient amount with given := l.given + amount }
  | .safeTransfer recipient amount, l, _, l' => amount ≤ l.balance M.this ∧
      l' = { l.move M.this recipient amount with given := l.given + amount }
  | _, l, _, l' => l' = l

/-- The contracts around a manager whose token is such a token: any other call that can change
something hands control away. -/
def tokenWorld (decimals : UInt8) : World managerInterface State where
  closed := Ext.isPlain
  effect x s r s' := ∃ l, M.TokenCall decimals x s.token r l ∧ s' = s.withToken l
  answers _ _ := True

/-- Simple answers beside such a token: transceivers ask no price, and nobody calls back. -/
def respondToken (decimals : UInt8) :
    (x : Ext) → State → Unit → Except Error (x.Reply × State × Unit)
  | .tokenDecimals, s, _ => .ok (decimals, s, ())
  | .balanceOf account, s, _ => .ok (s.token.balance account, s, ())
  | .safeTransferFrom sender recipient amount, s, _ =>
      if amount ≤ s.token.balance sender then
        .ok ((), s.withToken { s.token.move sender recipient amount with
          taken := s.token.taken + amount }, ())
      else .error .external
  | .burn amount, s, _ =>
      if amount ≤ s.token.balance M.this then
        .ok ((), s.withToken (s.token.burn M.this amount), ())
      else .error .external
  | .mint recipient amount, s, _ =>
      .ok ((), s.withToken { s.token.mint recipient amount with
        given := s.token.given + amount }, ())
  | .safeTransfer recipient amount, s, _ =>
      if amount ≤ s.token.balance M.this then
        .ok ((), s.withToken { s.token.move M.this recipient amount with
          given := s.token.given + amount }, ())
      else .error .external
  | .quoteDeliveryPrice .., s, _ => .ok ((0 : ℕ), s, ())
  | .sendMessage .., s, _ => .ok ((), s, ())
  | .transferTransceiverOwnership .., s, _ => .ok ((), s, ())
  | .sendValue .., s, _ => .ok ((), s, ())

/-- They are answers of the world. -/
theorem answers_respondToken (decimals : UInt8) :
    Answers (X := managerInterface) (M.tokenWorld decimals) (M.respondToken decimals) := by
  intro x s u r s' u' h
  cases x with
  | tokenDecimals | balanceOf => cases h; exact ⟨_, ⟨rfl, rfl⟩, rfl⟩
  | quoteDeliveryPrice | mint => cases h; exact ⟨_, rfl, rfl⟩
  | sendMessage | transferTransceiverOwnership | sendValue => cases h; exact ⟨trivial, rfl⟩
  | safeTransferFrom _ _ amount | burn amount | safeTransfer _ amount =>
      simp only [respondToken] at h
      split at h
      · rename_i hle
        cases h
        exact ⟨_, ⟨hle, rfl⟩, rfl⟩
      · cases h

/-- A move on a chain: a call of the manager, or of a user of the token. -/
inductive Entry where
  | call (ctx : Context) (call : Call)
  | user (op : TokenOp)
deriving DecidableEq, Repr

/-- A manager and the users of its token, as a machine. -/
def chain : Contract managerInterface State Error where
  Entry := Entry
  body
    | .call ctx call => M.body ctx call
    | .user op => modify fun s => s.withToken (op.apply s.token)

/-- Its environment: calls that the rules allow, made by others than the manager itself. -/
def chainEnvironment (R : Rules) (decimals : UInt8) :
    Environment managerInterface State Entry where
  toWorld := M.tokenWorld decimals
  admits s
    | .call ctx call => R.calls s.storage s.log ctx call ∧ ctx.sender ≠ M.this
    | .user op => M.Allows s.token op

/-- What the manager holds, or what was burned, covers what it took and did not give out. Before
the manager did anything, this much of the token had been issued. -/
def Backed (issued : ℕ) (l : Ledger) : Prop :=
  match M.mode with
  | .locking => l.taken ≤ l.balance M.this + l.given
  | .burning => l.supply + l.taken ≤ issued + l.given

/-- The books agree, and only these digests are open, only these sequences in flight, and only
these withdrawn. -/
structure Books (issued : ℕ) (digests : Set Bytes32) (flying withdrawn : Set UInt64)
    (s : State) : Prop where
  taken : s.token.taken = takenIn s.log
  given : s.token.given = paidOut s.log
  consistent : s.token.Consistent
  backed : M.Backed issued s.token
  inbound : ∀ d, (inStatus d s.log).isOpen = true → d ∈ digests
  inFlight : ∀ n, (outStatus n s.log).isInFlight = true → n ∈ flying
  isWithdrawn : ∀ n, (outStatus n s.log).isWithdrawn = true → n ∈ withdrawn

/-- Where control changes hands the books are in order, and sequences are in flight under the
guard only. Calls restore the guard, and while it is taken no sequence changes its status. -/
def books (decimals : UInt8) (issued : ℕ) : Rely managerInterface State where
  toWorld := M.tokenWorld decimals
  inv s := M.Books issued ∅ {_n | s.storage.entered = true} ∅ s
  rely s s' := s'.storage.entered = s.storage.entered ∧
    (s.storage.entered = true → ∀ n, outStatus n s'.log = outStatus n s.log)

theorem books_closed (decimals : UInt8) (issued : ℕ) : (M.books decimals issued).Closed where
  refl _ := ⟨rfl, fun _ _ => rfl⟩
  trans h h' := ⟨h'.1.trans h.1, fun he n => (h'.2 (h.1.trans he) n).trans (h.2 he n)⟩

variable {M} {issued : ℕ} {digests : Set Bytes32} {flying withdrawn : Set UInt64} {s : State}
  {ctx : Context} {a : Action} {decimals : UInt8}

/-! ### Actions and calls of the token, on the books -/

namespace Books

variable (h : M.Books issued digests flying withdrawn s)
include h

theorem mono {digests' : Set Bytes32} {flying' withdrawn' : Set UInt64}
    (hd : digests ⊆ digests') (hf : flying ⊆ flying') (hw : withdrawn ⊆ withdrawn') :
    M.Books issued digests' flying' withdrawn' s :=
  ⟨h.taken, h.given, h.consistent, h.backed, fun d hs => hd (h.inbound d hs),
    fun n hs => hf (h.inFlight n hs), fun n hs => hw (h.isWithdrawn n hs)⟩

/-- An action, together with the call of the token that it accounts for. -/
theorem act {l : Ledger} (ht : l.taken = a.takes + s.token.taken)
    (hg : l.given = a.pays + s.token.given) (hc : l.Consistent) (hb : M.Backed issued l) :
    M.Books issued {d | a.opens = some d ∨ d ∈ digests ∧ a.closes ≠ some d}
      {n | a.launches = some n ∨ n ∈ flying ∧ a.lands ≠ some n}
      {n | a.withdraws = some n ∨ n ∈ withdrawn ∧ a.refunds ≠ some n}
      ((s.perform ctx a).withToken l) where
  taken := by simp [ht, h.taken]
  given := by simp [hg, h.given]
  consistent := hc
  backed := hb
  inbound d hd := (InStatus.isOpen_step hd).imp_right (.imp_left (h.inbound d))
  inFlight n hn := (OutStatus.isInFlight_step hn).imp_right (.imp_left (h.inFlight n))
  isWithdrawn n hn := (OutStatus.isWithdrawn_step hn).imp_right (.imp_left (h.isWithdrawn n))

/-- An action that accounts for no tokens. -/
theorem act_same (ht : a.takes = 0) (hg : a.pays = 0) :
    M.Books issued {d | a.opens = some d ∨ d ∈ digests ∧ a.closes ≠ some d}
      {n | a.launches = some n ∨ n ∈ flying ∧ a.lands ≠ some n}
      {n | a.withdraws = some n ∨ n ∈ withdrawn ∧ a.refunds ≠ some n} (s.perform ctx a) := by
  exact (h.act (by simp [ht]) (by simp [hg]) h.consistent h.backed :
    M.Books issued _ _ _ ((s.perform ctx a).withToken s.token))

theorem quiet (ha : a.isQuiet = true) :
    M.Books issued digests flying withdrawn (s.perform ctx a) := by
  cases a with
  | quorum | setPeer | outboundLimit | inboundLimit | setPaused | setPauser | setOwner | setEntered
  | attest =>
      exact (h.act_same rfl rfl).mono (by simp [Action.opens, Action.closes])
        (by simp [Action.launches, Action.lands]) (by simp [Action.withdraws, Action.refunds])
  | _ => cases ha

end Books

/-- A quiet action keeps the books in order within the rely, unless it is on the guard. -/
theorem quiet_ok {s₀ : State} (hs : (M.books decimals issued).inv s)
    (hr : (M.books decimals issued).rely s₀ s) (ha : a.isQuiet = true)
    (he : (a.apply s.storage).entered = s.storage.entered) :
    (M.books decimals issued).inv (s.perform ctx a) ∧
      (M.books decimals issued).rely s₀ (s.perform ctx a) := by
  refine ⟨(hs.quiet ha).mono subset_rfl (fun n hn => ?_) subset_rfl, ?_⟩
  · exact he.trans hn
  · refine (M.books_closed decimals issued).trans hr ⟨he, fun _ n => ?_⟩
    cases a <;> first | rfl | cases ha

/-! ### External calls -/

theorem wp_plain {x : Ext} (hx : x.isPlain = true) {Q : x.Reply → State → Prop} :
    ((external x).run s).wp (M.books decimals issued) Q ↔
      ∀ r l, M.TokenCall decimals x s.token r l → Q r (s.withToken l) := by
  refine (wp_call_closed (X := managerInterface) (x := x) hx s).trans ⟨?_, ?_⟩
  · exact fun h r l hl => h r _ ⟨l, hl, rfl⟩
  · rintro h r _ ⟨l, hl, rfl⟩
    exact h r l hl

@[simp] theorem wp_books_tokenDecimals {Q : UInt8 → State → Prop} :
    (tokenDecimals.run s).wp (M.books decimals issued) Q ↔ Q decimals s := by
  refine (wp_plain (x := .tokenDecimals) rfl).trans ⟨fun h => h _ _ ⟨rfl, rfl⟩, ?_⟩
  rintro h _ _ ⟨rfl, rfl⟩
  exact h

@[simp] theorem wp_books_getTokenBalanceOf {account : Address} {Q : ℕ → State → Prop} :
    ((getTokenBalanceOf account).run s).wp (M.books decimals issued) Q ↔
      Q (s.token.balance account) s := by
  refine (wp_plain (x := .balanceOf account) rfl).trans ⟨fun h => h _ _ ⟨rfl, rfl⟩, ?_⟩
  rintro h _ _ ⟨rfl, rfl⟩
  exact h

@[simp] theorem wp_books_quoteTransceiver {transceiver : Address} {chain : UInt16}
    {instruction : TransceiverInstruction} {Q : ℕ → State → Prop} :
    ((quoteTransceiver transceiver chain instruction).run s).wp (M.books decimals issued) Q ↔
      ∀ price, Q price s := by
  refine (wp_plain (x := .quoteDeliveryPrice transceiver chain instruction) rfl).trans
    ⟨fun h r => h r _ rfl, ?_⟩
  rintro h r _ rfl
  exact h r

@[simp] theorem wp_safeTransferFrom {sender recipient : Address} {amount : ℕ}
    {Q : Ext.Reply (.safeTransferFrom sender recipient amount) → State → Prop} :
    ((external (.safeTransferFrom sender recipient amount)).run s).wp
      (M.books decimals issued) Q ↔ (amount ≤ s.token.balance sender →
        Q () (s.withToken { s.token.move sender recipient amount with
          taken := s.token.taken + amount })) := by
  refine (wp_plain (x := .safeTransferFrom sender recipient amount) rfl).trans
    ⟨fun h hle => h () _ ⟨hle, rfl⟩, ?_⟩
  rintro h _ _ ⟨hle, rfl⟩
  exact h hle

@[simp] theorem wp_burn {amount : ℕ} {Q : Ext.Reply (.burn amount) → State → Prop} :
    ((external (.burn amount)).run s).wp (M.books decimals issued) Q ↔
      (amount ≤ s.token.balance M.this → Q () (s.withToken (s.token.burn M.this amount))) := by
  refine (wp_plain (x := .burn amount) rfl).trans ⟨fun h hle => h () _ ⟨hle, rfl⟩, ?_⟩
  rintro h _ _ ⟨hle, rfl⟩
  exact h hle

@[simp] theorem wp_mint {recipient : Address} {amount : ℕ}
    {Q : Ext.Reply (.mint recipient amount) → State → Prop} :
    ((external (.mint recipient amount)).run s).wp (M.books decimals issued) Q ↔
      Q () (s.withToken { s.token.mint recipient amount with
        given := s.token.given + amount }) := by
  refine (wp_plain (x := .mint recipient amount) rfl).trans ⟨fun h => h () _ rfl, ?_⟩
  rintro h _ _ rfl
  exact h

@[simp] theorem wp_safeTransfer {recipient : Address} {amount : ℕ}
    {Q : Ext.Reply (.safeTransfer recipient amount) → State → Prop} :
    ((external (.safeTransfer recipient amount)).run s).wp (M.books decimals issued) Q ↔
      (amount ≤ s.token.balance M.this →
        Q () (s.withToken { s.token.move M.this recipient amount with
          given := s.token.given + amount })) := by
  refine (wp_plain (x := .safeTransfer recipient amount) rfl).trans
    ⟨fun h hle => h () _ ⟨hle, rfl⟩, ?_⟩
  rintro h _ _ ⟨hle, rfl⟩
  exact h hle

/-! ### Programs that begin and finish nothing -/

theorem perform_within (ha : a.isQuiet = true) (he : ∀ st, (a.apply st).entered = st.entered) :
    Within (M.books decimals issued) (perform ctx a) :=
  fun s hs => quiet_ok hs ((M.books_closed decimals issued).refl s) ha (he s.storage)

theorem load_within : Within (M.books decimals issued) load :=
  .bind (M.books_closed decimals issued) (.get (M.books_closed decimals issued))
    fun _ => .pure (M.books_closed decimals issued) _

theorem tokenDecimals_within : Within (M.books decimals issued) tokenDecimals :=
  fun s hs => wp_books_tokenDecimals.mpr ⟨hs, (M.books_closed decimals issued).refl s⟩

theorem quoteTransceiver_within {transceiver : Address} {chain : UInt16}
    {instruction : TransceiverInstruction} :
    Within (M.books decimals issued) (quoteTransceiver transceiver chain instruction) :=
  fun s hs => wp_books_quoteTransceiver.mpr fun _ => ⟨hs, (M.books_closed decimals issued).refl s⟩

/-- A call that hands control away. -/
theorem open_within {x : Ext} (hx : x.isPlain = false) :
    Within (M.books decimals issued) (external x) :=
  Within.call_open hx

theorem nonPayable_within : Within (M.books decimals issued) (nonPayable ctx) :=
  .revertIf (M.books_closed decimals issued) _ _

theorem onlyOwner_within : Within (M.books decimals issued) (onlyOwner ctx) :=
  .bind (M.books_closed decimals issued) load_within
    fun _ => .revertIf (M.books_closed decimals issued) _ _

theorem whenNotPaused_within : Within (M.books decimals issued) whenNotPaused :=
  .bind (M.books_closed decimals issued) load_within
    fun _ => .revertIf (M.books_closed decimals issued) _ _

theorem onlyOwnerOrPauser_within : Within (M.books decimals issued) (onlyOwnerOrPauser ctx) :=
  .bind (M.books_closed decimals issued) load_within
    fun _ => .revertIf (M.books_closed decimals issued) _ _

theorem updateQuorum_within {op : RegistryOp} :
    Within (M.books decimals issued) (updateQuorum ctx op) := by
  have hE := M.books_closed decimals issued
  exact .bind hE load_within fun _ => .bind hE (.liftExcept hE _) fun _ =>
    perform_within rfl fun _ => rfl

theorem updateOutboundLimit_within {op : RateLimitOp} :
    Within (M.books decimals issued) (M.updateOutboundLimit ctx op) := by
  have hE := M.books_closed decimals issued
  exact .bind hE load_within fun _ => .bind hE (.liftExcept hE _) fun _ =>
    perform_within rfl fun _ => rfl

theorem updateInboundLimit_within {chain : UInt16} {op : RateLimitOp} :
    Within (M.books decimals issued) (M.updateInboundLimit ctx chain op) := by
  have hE := M.books_closed decimals issued
  exact .bind hE load_within fun _ => .bind hE (.liftExcept hE _) fun _ =>
    perform_within rfl fun _ => rfl

theorem setOutboundLimitTrimmed_books {limit : TrimmedAmount} :
    Within (M.books decimals issued) (M.setOutboundLimitTrimmed ctx limit) := by
  have hE := M.books_closed decimals issued
  exact .bind hE load_within fun _ => .bind hE tokenDecimals_within fun _ =>
    .bind hE updateOutboundLimit_within fun _ => .bind hE (.liftExcept hE _) fun _ =>
      .bind hE (.liftExcept hE _) fun _ => .pure hE _

theorem setInboundLimitTrimmed_books {limit : TrimmedAmount} {chain : UInt16} :
    Within (M.books decimals issued) (M.setInboundLimitTrimmed ctx limit chain) := by
  have hE := M.books_closed decimals issued
  exact .bind hE load_within fun _ => .bind hE tokenDecimals_within fun _ =>
    .bind hE updateInboundLimit_within fun _ => .bind hE (.liftExcept hE _) fun _ =>
      .bind hE (.liftExcept hE _) fun _ => .pure hE _

theorem setPeer_books {chain : UInt16} {peer : Bytes32} {peerDecimals : UInt8} {limit : ℕ} :
    Within (M.books decimals issued) (M.setPeer ctx chain peer peerDecimals limit) := by
  have hE := M.books_closed decimals issued
  exact .bind hE nonPayable_within fun _ => .bind hE onlyOwner_within fun _ =>
    .bind hE (.revertIf hE _ _) fun _ => .bind hE (.revertIf hE _ _) fun _ =>
    .bind hE (.revertIf hE _ _) fun _ => .bind hE (.revertIf hE _ _) fun _ =>
    .bind hE (perform_within rfl fun _ => rfl) fun _ => .bind hE tokenDecimals_within fun _ =>
    .bind hE (.liftExcept hE _) fun _ => setInboundLimitTrimmed_books

theorem setOutboundLimit_books {limit : ℕ} :
    Within (M.books decimals issued) (M.setOutboundLimit ctx limit) := by
  have hE := M.books_closed decimals issued
  exact .bind hE nonPayable_within fun _ => .bind hE onlyOwner_within fun _ =>
    .bind hE tokenDecimals_within fun _ => .bind hE (.liftExcept hE _) fun _ =>
      setOutboundLimitTrimmed_books

theorem setInboundLimit_books {limit : ℕ} {chain : UInt16} :
    Within (M.books decimals issued) (M.setInboundLimit ctx limit chain) := by
  have hE := M.books_closed decimals issued
  exact .bind hE nonPayable_within fun _ => .bind hE onlyOwner_within fun _ =>
    .bind hE tokenDecimals_within fun _ => .bind hE (.liftExcept hE _) fun _ =>
      setInboundLimitTrimmed_books

/-- The three operations on the registry and the threshold. -/
theorem quorum_books (op : RegistryOp) :
    Within (M.books decimals issued) (M.body ctx (callOf op)) := by
  have hE := M.books_closed decimals issued
  cases op <;> exact .bind hE nonPayable_within fun _ => .bind hE onlyOwner_within fun _ =>
    updateQuorum_within

theorem pause_books : Within (M.books decimals issued) (pause ctx) := by
  have hE := M.books_closed decimals issued
  exact .bind hE nonPayable_within fun _ => .bind hE onlyOwnerOrPauser_within fun _ =>
    .bind hE whenNotPaused_within fun _ => perform_within rfl fun _ => rfl

theorem unpause_books : Within (M.books decimals issued) (unpause ctx) := by
  have hE := M.books_closed decimals issued
  exact .bind hE nonPayable_within fun _ => .bind hE onlyOwner_within fun _ =>
    .bind hE load_within fun _ => .bind hE (.revertIf hE _ _) fun _ =>
      perform_within rfl fun _ => rfl

theorem transferPauserCapability_books {newPauser : Address} :
    Within (M.books decimals issued) (transferPauserCapability ctx newPauser) := by
  have hE := M.books_closed decimals issued
  exact .bind hE nonPayable_within fun _ => .bind hE onlyOwnerOrPauser_within fun _ =>
    perform_within rfl fun _ => rfl

theorem transferTransceiversLoop_books {newOwner : Address} (rounds i : ℕ) :
    Within (M.books decimals issued) (transferTransceiversLoop newOwner rounds i) := by
  have hE := M.books_closed decimals issued
  induction rounds generalizing i with
  | zero => exact .pure hE ()
  | succ rounds ih =>
      refine .bind hE load_within fun st => ?_
      cases st.registry.registeredTransceivers[i]? with
      | none => exact .pure hE ()
      | some transceiver => exact .bind hE (open_within rfl) fun _ => ih (i + 1)

theorem transferOwnership_books {newOwner : Address} :
    Within (M.books decimals issued) (transferOwnership ctx newOwner) := by
  have hE := M.books_closed decimals issued
  exact .bind hE nonPayable_within fun _ => .bind hE onlyOwner_within fun _ =>
    .bind hE (.revertIf hE _ _) fun _ => .bind hE (perform_within rfl fun _ => rfl) fun _ =>
    .bind hE load_within fun _ => .bind hE (.revertIf hE _ _) fun _ =>
      transferTransceiversLoop_books _ _

theorem refundToSender_books {amount : ℕ} :
    Within (M.books decimals issued) (refundToSender ctx amount) :=
  .bind (M.books_closed decimals issued) (open_within rfl)
    fun _ => .pure (M.books_closed decimals issued) _

theorem quoteLoop_books {chain : UInt16} {instructions : List TransceiverInstruction}
    (transceivers : List Address) (quotes : List ℕ) (total : ℕ) :
    Within (M.books decimals issued) (quoteLoop chain instructions transceivers quotes total) := by
  have hE := M.books_closed decimals issued
  induction transceivers generalizing quotes total with
  | nil => exact .pure hE _
  | cons transceiver rest ih =>
      exact .bind hE load_within fun _ => .bind hE (.liftExcept hE _) fun _ =>
        .bind hE quoteTransceiver_within fun _ => .bind hE (.liftExcept hE _) fun _ => ih _ _

theorem prepareForTransfer_books {chain : UInt16} {instructions : Bytes} :
    Within (M.books decimals issued) (M.prepareForTransfer ctx chain instructions) := by
  have hE := M.books_closed decimals issued
  exact .bind hE load_within fun _ => .bind hE (.revertIf hE _ _) fun _ =>
    .bind hE (.liftExcept hE _) fun _ => .bind hE (quoteLoop_books _ _ _) fun _ =>
    .bind hE (.revertIf hE _ _) fun _ =>
      .ite (.bind hE refundToSender_books fun _ => .pure hE _) (.pure hE _)

theorem sendLoop_books {chain : UInt16} {refund peer : Bytes32}
    {instructions : List TransceiverInstruction} {payload : Bytes}
    (transceivers : List (Address × ℕ)) :
    Within (M.books decimals issued)
      (sendLoop chain refund peer instructions payload transceivers) := by
  have hE := M.books_closed decimals issued
  induction transceivers with
  | nil => exact .pure hE ()
  | cons t rest ih =>
      exact .bind hE load_within fun _ => .bind hE (.liftExcept hE _) fun _ =>
        .bind hE (open_within rfl) fun _ => ih

/-! ### Payouts and the receipt of messages -/

/-- Between two states the guard stands as it did, and so does every sequence. -/
def Still (s s' : State) : Prop :=
  s'.storage.entered = s.storage.entered ∧ ∀ n, outStatus n s'.log = outStatus n s.log

/-- An action that accounts for a payout, and the payout. -/
theorem payout_books {recipient : Address} {amount : ℕ}
    (h : M.Books issued digests flying withdrawn s) (ht : a.takes = 0) (hp : a.pays = amount) :
    ((match M.mode with
      | .locking => do let _ ← external (.safeTransfer recipient amount)
      | .burning => do let _ ← external (.mint recipient amount) : ManagerProg Unit).run
        (s.perform ctx a)).wp (M.books decimals issued) fun _ s' =>
      (∃ l, s' = (s.perform ctx a).withToken l) ∧
      M.Books issued {d | a.opens = some d ∨ d ∈ digests ∧ a.closes ≠ some d}
        {n | a.launches = some n ∨ n ∈ flying ∧ a.lands ≠ some n}
        {n | a.withdraws = some n ∨ n ∈ withdrawn ∧ a.refunds ≠ some n} s' := by
  have hbacked := h.backed
  unfold Backed at hbacked
  cases hmode : M.mode with
  | locking =>
      rw [hmode] at hbacked
      refine wp_safeTransfer.mpr fun hle => ⟨⟨_, rfl⟩, h.act (by simp [ht])
        (by simp [hp, Nat.add_comm]) (h.consistent.move hle) ?_⟩
      have : s.token.balance M.this ≤
          (s.token.move M.this recipient amount).balance M.this + amount :=
        Ledger.le_balance_move_add
      simp only [Backed, hmode, Ledger.taken_move, State.perform_token] at hbacked ⊢
      omega
  | burning =>
      rw [hmode] at hbacked
      refine wp_mint.mpr ⟨⟨_, rfl⟩, h.act (by simp [ht, Ledger.mint]) (by simp [hp, Nat.add_comm])
        h.consistent.mint ?_⟩
      simp only [Backed, hmode, Ledger.mint, State.perform_token] at hbacked ⊢
      omega

/-- A redemption closes its digest. -/
theorem mintOrUnlockToRecipient_books {d : Bytes32} {recipient : Address}
    {amount : TrimmedAmount} (h : M.Books issued (insert d digests) flying withdrawn s) :
    ((M.mintOrUnlockToRecipient ctx d recipient amount false).run s).wp
      (M.books decimals issued) fun _ s' =>
        M.Books issued digests flying withdrawn s' ∧ Still s s' := by
  simp only [mintOrUnlockToRecipient, checkFork, run_bind, Res.wp_bind, wp_revertIf,
    wp_books_tokenDecimals, monadLift_eq_liftExcept, wp_liftExcept, Bool.false_eq_true, if_false,
    wp_perform]
  intro _ n _
  refine Res.wp_mono ?_ (payout_books (a := .transferRedeemed d recipient amount n) h rfl rfl)
  rintro _ _ ⟨⟨l, rfl⟩, hbooks⟩
  refine ⟨hbooks.mono ?_ (by simp [Action.launches, Action.lands])
    (by simp [Action.withdraws, Action.refunds]), rfl, fun _ => rfl⟩
  rintro d' (hd | ⟨rfl | hd, hne⟩)
  · cases hd
  · exact absurd rfl hne
  · exact hd

/-- Executing a transfer queues it or redeems it. -/
theorem handleTransfer_books {chain : UInt16} {source d : Bytes32} {m : NttManagerMessage}
    (h : M.Books issued (insert d digests) flying withdrawn s) :
    ((M.handleTransfer ctx chain source m d).run s).wp (M.books decimals issued) fun _ s' =>
      M.Books issued digests flying withdrawn s' ∧ Still s s' := by
  simp only [handleTransfer, enqueueOrConsumeInboundRateLimit, run_bind, Res.wp_bind, wp_revertIf,
    wp_books_tokenDecimals, monadLift_eq_liftExcept, wp_liftExcept, wp_load, run_ite, Res.wp_ite,
    wp_perform, wp_updateInboundLimit, wp_updateOutboundLimit, run_pure, wp_ret]
  intro t _ _ n _ amount _ recipient _ limited _
  refine ⟨fun _ => ⟨fun _ => ?_, fun h => absurd trivial h⟩, fun _ p _ q _ =>
    ⟨fun h => absurd h Bool.false_ne_true, fun _ => ?_⟩⟩
  · refine ⟨(h.act_same rfl rfl).mono ?_ (by simp [Action.launches, Action.lands])
      (by simp [Action.withdraws, Action.refunds]), rfl, fun _ => rfl⟩
    rintro d' (hd | ⟨rfl | hd, hne⟩)
    · cases hd
    · exact absurd rfl hne
    · exact hd
  · have h' : M.Books issued _ _ _ ((s.perform ctx (.inboundLimit chain (.consume amount) p)).perform
        ctx (.outboundLimit (.backfill amount) q)) := (h.quiet rfl).quiet rfl
    exact mintOrUnlockToRecipient_books h'

/-- The execution of a message leaves nothing open. -/
theorem executeMsg_books {chain : UInt16} {source : Bytes32} {m : NttManagerMessage}
    (h : M.Books issued digests flying withdrawn s) :
    ((M.executeMsg ctx chain source m).run s).wp (M.books decimals issued) fun _ s' =>
      M.Books issued digests flying withdrawn s' ∧ Still s s' := by
  simp only [executeMsg, isMessageExecuted, run_bind, Res.wp_bind, wp_whenNotPaused, wp_load,
    monadLift_eq_liftExcept, wp_liftExcept, wp_revertIf, run_ite, Res.wp_ite, run_pure, wp_ret,
    wp_perform]
  intro _ d _ _
  refine ⟨fun _ => ⟨fun _ => ⟨h, rfl, fun _ => rfl⟩, fun h => absurd trivial h⟩, fun _ =>
    ⟨fun h => absurd h Bool.false_ne_true, fun _ => ?_⟩⟩
  have h' : M.Books issued (insert d digests) flying withdrawn
      (s.perform ctx (.execute chain source m d)) := by
    refine (h.act_same rfl rfl).mono ?_ (by simp [Action.launches, Action.lands])
      (by simp [Action.withdraws, Action.refunds])
    rintro d' (hd | ⟨hd, -⟩)
    · exact .inl (Option.some.inj hd).symm
    · exact .inr hd
  exact handleTransfer_books h'

/-- What stands still is within the rely, and in order if it was. -/
theorem Still.ok {s₀ s' : State} (hr : (M.books decimals issued).rely s₀ s) (hs : Still s s')
    (h : M.Books issued ∅ {_n | s.storage.entered = true} ∅ s') :
    (M.books decimals issued).inv s' ∧ (M.books decimals issued).rely s₀ s' :=
  ⟨h.mono subset_rfl (fun _ hn => hs.1.trans hn) subset_rfl,
    (M.books_closed decimals issued).trans hr ⟨hs.1, fun _ => hs.2⟩⟩

theorem executeMsg_within {chain : UInt16} {source : Bytes32} {m : NttManagerMessage} :
    Within (M.books decimals issued) (M.executeMsg ctx chain source m) := fun s hs =>
  Res.wp_mono (fun _ _ h => h.2.ok ((M.books_closed decimals issued).refl s) h.1)
    (executeMsg_books hs)

theorem attestationReceived_books {chain : UInt16} {source : Bytes32} {m : NttManagerMessage} :
    Within (M.books decimals issued) (M.attestationReceived ctx chain source m) := by
  have hE := M.books_closed decimals issued
  refine .bind hE (.bind hE load_within fun _ => .revertIf hE _ _) fun _ =>
    .bind hE whenNotPaused_within fun _ =>
    .bind hE (.bind hE load_within fun _ => .revertIf hE _ _) fun _ =>
    .bind hE ?_ fun _ => .bind hE load_within fun _ => .ite executeMsg_within (.pure hE _)
  exact .bind hE (.liftExcept hE _) fun _ => .bind hE load_within fun _ =>
    .bind hE (.revertIf hE _ _) fun _ => .bind hE (perform_within rfl fun _ => rfl)
      fun _ => .pure hE _

/-! ### The guard -/

/-- Under the guard, with these sequences in flight and nothing else begun. -/
def Busy (M : NttManager) (issued : ℕ) (flying : Set UInt64) (s : State) : Prop :=
  M.Books issued ∅ flying ∅ s ∧ s.storage.entered = true

/-- A program that stays within the rely leaves the sequences in flight. -/
theorem Busy.wp {α : Type} {m : ManagerProg α} (h : M.Busy issued flying s)
    (hm : Within (M.books decimals issued) m) :
    (m.run s).wp (M.books decimals issued) fun _ s' => M.Busy issued flying s' := by
  refine Res.wp_mono (fun _ s' hs' => ?_) (hm s (h.1.mono subset_rfl (fun _ _ => h.2) subset_rfl))
  obtain ⟨hi, he, hstatus⟩ := hs'
  refine ⟨⟨hi.taken, hi.given, hi.consistent, hi.backed, hi.inbound, fun n hn => ?_,
    hi.isWithdrawn⟩, he.trans h.2⟩
  rw [hstatus h.2 n] at hn
  exact h.1.inFlight n hn

/-- A body under the guard, with the guard around it. -/
theorem nonReentrant_books {body : ManagerProg Unit}
    (hbody : ∀ s, M.Busy issued ∅ s →
      (body.run s).wp (M.books decimals issued) fun _ s' => M.Busy issued ∅ s') :
    Within (M.books decimals issued) (nonReentrant ctx body) := by
  intro s hs
  simp only [nonReentrant, run_bind, Res.wp_bind, wp_load, wp_revertIf, wp_perform,
    Bool.not_eq_true]
  intro he
  have hidle : M.Books issued ∅ ∅ ∅ s := by
    refine hs.mono subset_rfl (fun n hn => ?_) subset_rfl
    rw [Set.mem_ofPred_eq, he] at hn
    cases hn
  refine Res.wp_mono (fun _ s' h => ?_) (hbody _ ⟨hidle.quiet rfl, rfl⟩)
  refine ⟨(h.1.quiet rfl).mono subset_rfl (Set.empty_subset _) subset_rfl, he.symm, fun h => ?_⟩
  rw [he] at h
  cases h

theorem completeInboundQueuedTransfer_books {d : Bytes32} :
    Within (M.books decimals issued) (M.completeInboundQueuedTransfer ctx d) := by
  refine nonReentrant_books fun s h => ?_
  simp only [run_bind, Res.wp_bind, wp_whenNotPaused, wp_load, wp_revertIf, wp_perform,
    monadLift_eq_liftExcept, wp_liftExcept]
  intro _ _ waited _ _
  have hopen : M.Books issued (insert d ∅) ∅ ∅ (s.perform ctx (.dequeueInbound d)) := by
    refine (h.1.act_same rfl rfl).mono ?_ (by simp [Action.launches]) (by simp [Action.withdraws])
    rintro d' (hd | ⟨hd, -⟩)
    · exact .inl (Option.some.inj hd).symm
    · exact .inr hd
  exact Res.wp_mono (fun _ s' hs' => ⟨hs'.1, hs'.2.1.trans h.2⟩)
    (mintOrUnlockToRecipient_books hopen)

/-! ### Outbound -/

/-- What is pulled in is what the ledger counts as taken, and it is held or burned. -/
theorem pullTokens_books {amount : ℕ} (hne : ctx.sender ≠ M.this)
    (hc : s.token.Consistent) (hb : M.Backed issued s.token) :
    ((M.pullTokens ctx amount).run s).wp (M.books decimals issued) fun received s' =>
      ∃ l, s' = s.withToken l ∧ l.taken = received + s.token.taken ∧
        l.given = s.token.given ∧ l.Consistent ∧ M.Backed issued l := by
  simp only [pullTokens, run_bind, Res.wp_bind, wp_books_getTokenBalanceOf, wp_safeTransferFrom,
    monadLift_eq_liftExcept, wp_liftExcept, checkedSub_eq_ok, and_imp]
  rintro hle received - rfl
  have hin : (s.token.move _ M.this amount).balance M.this = s.token.balance M.this + amount :=
    Ledger.balance_move_of_ne (Ne.symm hne)
  have hmove : (s.token.move _ M.this amount).Consistent := hc.move hle
  simp only [State.withToken_token]
  rw [hin]
  unfold Backed at hb
  cases hmode : M.mode with
  | locking =>
      rw [hmode] at hb
      refine ⟨_, rfl, by simp; omega, rfl, hmove, ?_⟩
      simp only [Backed, hmode]
      rw [hin, Ledger.given_move]
      omega
  | burning =>
      rw [hmode] at hb
      simp only [run_bind, Res.wp_bind, wp_burn, wp_books_getTokenBalanceOf, wp_revertIf, run_pure,
        wp_ret, State.withToken_token]
      intro hle' _
      have hsupply := hmove.balance_le M.this
      rw [hin] at hle' hsupply
      refine ⟨_, rfl, by simp [Ledger.burn]; omega, rfl, ?_, ?_⟩
      · refine Ledger.Consistent.burn (l := { s.token.move ctx.sender M.this amount with
          taken := s.token.taken + amount }) hmove ?_
        rw [hin]
        exact hle'
      · simp only [Backed, hmode, Ledger.burn, Ledger.supply_move, Ledger.given_move] at hsupply ⊢
        omega

/-- A transfer in flight is sent. -/
theorem sendTransfer_books {n : UInt64} {amount : TrimmedAmount} {chain : UInt16}
    {recipient refund : Bytes32} {sender : Address} {instructions : Bytes}
    (h : M.Busy issued {n} s) :
    ((M.sendTransfer ctx n amount chain recipient refund sender instructions).run s).wp
      (M.books decimals issued) fun _ s' => M.Busy issued ∅ s' := by
  have hE := M.books_closed decimals issued
  simp only [sendTransfer, checkFork, run_bind, Res.wp_bind, wp_revertIf]
  intro _
  refine Res.wp_mono (fun r s₁ h₁ => ?_) (h.wp prepareForTransfer_books)
  simp only [monadLift_eq_liftExcept, wp_liftExcept, wp_load, wp_perform]
  intro message _ payload _
  have hsent : M.Busy issued ∅ (s₁.perform ctx (.send n chain message
      (s₁.storage.peers chain).peerAddress r.1)) := by
    refine ⟨(h₁.1.act_same rfl rfl).mono (by simp [Action.opens]) ?_ (by simp [Action.withdraws]),
      h₁.2⟩
    rintro n' (hn | ⟨rfl, hne⟩)
    · cases hn
    · exact absurd rfl hne
  refine Res.wp_mono (fun _ s₂ h₂ => ?_) (hsent.wp
    (.bind hE (.revertIf hE _ _) fun _ => sendLoop_books _))
  simp only [wp_books_tokenDecimals, run_pure, wp_ret]
  exact fun _ _ => h₂

/-- An outbound transfer is queued, or stays in flight. -/
theorem enqueueOrConsumeOutboundRateLimit_books {t : Transfer} {shouldQueue : Bool} {n : UInt64}
    (h : M.Busy issued {n} s) :
    ((M.enqueueOrConsumeOutboundRateLimit ctx t shouldQueue n).run s).wp
      (M.books decimals issued) fun enqueued s' =>
        M.Busy issued (if enqueued then ∅ else {n}) s' := by
  simp only [enqueueOrConsumeOutboundRateLimit, getCurrentOutboundCapacity, checkFork, run_bind,
    Res.wp_bind, wp_books_tokenDecimals, monadLift_eq_liftExcept, wp_liftExcept, wp_load, run_ite,
    Res.wp_ite, wp_revertIf, wp_perform, wp_updateOutboundLimit, wp_updateInboundLimit, run_pure,
    wp_ret, wp_revert]
  intro internal _ limited _
  refine ⟨fun _ => ⟨fun _ _ _ _ _ _ => ?_, fun _ _ _ _ _ => trivial⟩, fun _ p _ q _ => ?_⟩
  · have hqueued : M.Busy issued ∅ (s.perform ctx (.enqueueOutbound n (t.queued ctx.timestamp))) := by
      refine ⟨(h.1.act_same rfl rfl).mono (by simp [Action.opens]) ?_
        (by simp [Action.withdraws]), h.2⟩
      rintro n' (hn | ⟨rfl, hne⟩)
      · cases hn
      · exact absurd rfl hne
    exact hqueued.wp refundToSender_books
  · exact ⟨(h.1.quiet (a := .outboundLimit (.consume internal) p) rfl).quiet
      (a := .inboundLimit t.recipientChain (.backfill internal) q) rfl, h.2⟩

/-- Both forms of `transfer`. -/
theorem transfer_books {amount : ℕ} {chain : UInt16} {recipient refund : Bytes32}
    {shouldQueue : Bool} {instructions : Bytes} (hne : ctx.sender ≠ M.this) :
    Within (M.books decimals issued)
      (M.transfer ctx amount chain recipient refund shouldQueue instructions) := by
  refine nonReentrant_books fun s h => ?_
  simp only [transferEntryPoint, trimTransferAmount, useMessageSequence, run_bind, Res.wp_bind,
    wp_whenNotPaused, wp_revertIf]
  intro _ _ _ _
  refine Res.wp_mono ?_ (pullTokens_books hne h.1.consistent h.1.backed)
  rintro received _ ⟨l, rfl, htaken, hgiven, hc, hb⟩
  simp only [wp_load, wp_books_tokenDecimals, monadLift_eq_liftExcept, wp_liftExcept, run_pure,
    wp_ret, wp_perform]
  intro _ trimmed _ untrimmed _ _ _
  let t : Transfer :=
    ⟨amount, received, trimmed, chain, recipient, refund, ctx.sender, instructions⟩
  have hflying : M.Busy issued {s.storage.messageSequence} ((s.withToken l).perform ctx
      (.useMessageSequence s.storage.messageSequence t)) := by
    have : M.Books issued _ _ _ ((s.perform ctx (.useMessageSequence s.storage.messageSequence
        t)).withToken l) :=
      h.1.act htaken (by rw [hgiven]; exact (Nat.zero_add _).symm) hc hb
    refine ⟨this.mono (by simp [Action.opens]) ?_ (by simp [Action.withdraws]), h.2⟩
    rintro n (hn | ⟨hn, -⟩)
    · exact (Option.some.inj hn).symm
    · cases hn
  refine Res.wp_mono (fun enqueued s₂ h₂ => ?_) (enqueueOrConsumeOutboundRateLimit_books hflying)
  simp only [run_ite, Res.wp_ite, run_pure, wp_ret, Bool.not_eq_true]
  refine ⟨fun he => ?_, fun he => sendTransfer_books ?_⟩
  · rwa [he, if_pos rfl] at h₂
  · rwa [he, if_neg Bool.false_ne_true] at h₂

/-- A queued transfer is put in flight again, and sent. -/
theorem completeOutboundQueuedTransfer_books {n : UInt64} :
    Within (M.books decimals issued) (M.completeOutboundQueuedTransfer ctx n) := by
  refine nonReentrant_books fun s h => ?_
  simp only [run_bind, Res.wp_bind, wp_whenNotPaused, wp_load, wp_revertIf, wp_perform,
    monadLift_eq_liftExcept, wp_liftExcept]
  intro _ _ waited _ _
  refine sendTransfer_books ⟨(h.1.act_same rfl rfl).mono (by simp [Action.opens]) ?_
    (by simp [Action.withdraws]), h.2⟩
  rintro n' (hn | ⟨hn, -⟩)
  · exact (Option.some.inj hn).symm
  · cases hn

/-- A queued transfer is withdrawn, and its tokens returned. -/
theorem cancelOutboundQueuedTransfer_books {n : UInt64} :
    Within (M.books decimals issued) (M.cancelOutboundQueuedTransfer ctx n) := by
  refine .bind (M.books_closed decimals issued) nonPayable_within fun _ =>
    nonReentrant_books fun s h => ?_
  simp only [mintOrUnlockToRecipient, checkFork, run_bind, Res.wp_bind, wp_whenNotPaused, wp_load,
    wp_revertIf, wp_perform, monadLift_eq_liftExcept, wp_liftExcept, wp_books_tokenDecimals,
    if_true]
  intro _ _ _ _ untrimmed _
  have hseq : UInt64.ofNat (BitVec.ofNat 256 n.toNat).toNat = n := by
    rw [BitVec.toNat_ofNat, Nat.mod_eq_of_lt (by have := n.toNat_lt; omega), UInt64.ofNat_toNat]
  rw [hseq]
  have hout : M.Books issued ∅ ∅ {n} (s.perform ctx (.withdrawOutbound n)) := by
    refine (h.1.act_same rfl rfl).mono (by simp [Action.opens]) (by simp [Action.launches]) ?_
    rintro n' (hn | ⟨hn, -⟩)
    · exact (Option.some.inj hn).symm
    · cases hn
  refine Res.wp_mono ?_ (payout_books (a := .outboundTransferCancelled n ctx.sender
    (s.storage.outboundQueue n).amount untrimmed) hout rfl rfl)
  rintro _ _ ⟨⟨l, rfl⟩, hbooks⟩
  refine ⟨hbooks.mono (by simp [Action.opens]) (by simp [Action.launches]) ?_, h.2⟩
  rintro n' (hn | ⟨rfl, hne⟩)
  · cases hn
  · exact absurd rfl hne

/-! ### Soundness -/

/-- What a user of the token does keeps the books. -/
theorem user_books {op : TokenOp} (ha : M.Allows s.token op)
    (h : M.Books issued digests flying withdrawn s) :
    M.Books issued digests flying withdrawn (s.withToken (op.apply s.token)) := by
  have hb := h.backed
  unfold Backed at hb
  have hsupply := h.consistent.balance_le
  cases op with
  | move sender recipient amount =>
      refine ⟨h.taken, h.given, h.consistent.move ha.2, ?_, h.inbound, h.inFlight, h.isWithdrawn⟩
      have : s.token.balance M.this ≤ (s.token.move sender recipient amount).balance M.this :=
        Ledger.le_balance_move (Ne.symm ha.1)
      simp only [Backed, TokenOp.apply, State.withToken_token, Ledger.taken_move,
        Ledger.given_move, Ledger.supply_move]
      cases hmode : M.mode <;> simp only [hmode] at hb ⊢ <;> omega
  | burn account amount =>
      refine ⟨h.taken, h.given, h.consistent.burn ha.2, ?_, h.inbound, h.inFlight, h.isWithdrawn⟩
      simp only [Backed, TokenOp.apply, State.withToken_token, Ledger.burn,
        Function.update_of_ne (Ne.symm ha.1)]
      cases hmode : M.mode <;> simp only [hmode] at hb ⊢ <;> omega
  | mint account amount =>
      refine ⟨h.taken, h.given, h.consistent.mint, ?_, h.inbound, h.inFlight, h.isWithdrawn⟩
      have hmode : M.mode = .locking := ha
      simp only [hmode] at hb
      simp only [Backed, hmode, TokenOp.apply, State.withToken_token, Ledger.mint]
      by_cases hthis : account = M.this
      · subst hthis
        simp only [Function.update_self]
        omega
      · rw [Function.update_of_ne (Ne.symm hthis)]
        exact hb

/-- Every call, and every user of the token, meets its guarantee for the books. -/
theorem books_sound {R : Rules} :
    Sound M.chain (M.chainEnvironment R decimals) (M.books decimals issued) := by
  refine ⟨rfl, fun e s hadm hs => ?_⟩
  have hE := M.books_closed decimals issued
  cases e with
  | user op => exact ⟨user_books hadm hs, rfl, fun _ _ => rfl⟩
  | call ctx e =>
      have hne : ctx.sender ≠ M.this := hadm.2
      suffices h : Within (M.books decimals issued) (M.body ctx e) from h s hs
      cases e with
      | transfer | transferSimple => exact transfer_books hne
      | attestationReceived =>
          exact .bind hE nonPayable_within fun _ => attestationReceived_books
      | executeMsg => exact .bind hE nonPayable_within fun _ => executeMsg_within
      | completeInboundQueuedTransfer =>
          exact .bind hE nonPayable_within fun _ => completeInboundQueuedTransfer_books
      | completeOutboundQueuedTransfer => exact completeOutboundQueuedTransfer_books
      | cancelOutboundQueuedTransfer => exact cancelOutboundQueuedTransfer_books
      | setPeer => exact setPeer_books
      | setOutboundLimit => exact setOutboundLimit_books
      | setInboundLimit => exact setInboundLimit_books
      | setTransceiver transceiver => exact quorum_books (.setTransceiver transceiver)
      | removeTransceiver transceiver => exact quorum_books (.removeTransceiver transceiver)
      | setThreshold threshold => exact quorum_books (.setThreshold threshold)
      | pause => exact pause_books
      | unpause => exact unpause_books
      | transferOwnership => exact transferOwnership_books
      | transferPauserCapability => exact transferPauserCapability_books

/-- The token that does not call back is one of those that the safety of a manager is shown for:
its calls leave the storage and the log alone. -/
theorem tokenWorld_closes {R : Rules} {init : Storage} (hR : R.decimals decimals) :
    Closes (M.tokenWorld decimals) (M.safety R init) where
  closed x hx := by
    cases x with
    | tokenDecimals | balanceOf | quoteDeliveryPrice =>
        refine ⟨rfl, fun s r s' => ?_⟩
        rintro ⟨l, hl, rfl⟩
        obtain ⟨rfl, rfl⟩ := hl
        first | exact ⟨rfl, hR⟩ | exact ⟨rfl, trivial⟩
    | _ => cases hx
  open_closed x _ _ s r s' hi := by
    rintro ⟨l, -, rfl⟩
    exact ⟨trivial, hi, List.suffix_rfl, fun he => ⟨he, fun _ => rfl⟩⟩
  open_open _ _ _ _ _ := trivial

/-- The state is a history, and the books are in order, wherever control changes hands. -/
def accounts (M : NttManager) (R : Rules) (init : Storage) (decimals : UInt8) (issued : ℕ) :
    Rely managerInterface State :=
  Rely.and { M.safety R init with toWorld := M.tokenWorld decimals } (M.books decimals issued)

variable {R : Rules} {owner : Address} {limit : RateLimitParams}

theorem accounts_closed {init : Storage} : (M.accounts R init decimals issued).Closed where
  refl s := ⟨(M.safety_closed R init).refl s, (M.books_closed decimals issued).refl s⟩
  trans h h' := ⟨(M.safety_closed R init).trans h.1 h'.1,
    (M.books_closed decimals issued).trans h.2 h'.2⟩

/-- Every call, and every user of the token, meets both guarantees. -/
theorem chain_sound (hR : R.decimals decimals) :
    Sound M.chain (M.chainEnvironment R decimals)
      (M.accounts R (.initial owner limit) decimals issued) := by
  refine ⟨rfl, fun e s hadm hs => ?_⟩
  let E : Rely managerInterface State :=
    { M.safety R (.initial owner limit) with toWorld := M.tokenWorld decimals }
  have hsafety : Guarantee E s ((M.chain.body e).run s) := by
    cases e with
    | user op => exact ⟨hs.1, List.suffix_rfl, fun he => ⟨he, fun _ => rfl⟩⟩
    | call ctx e => exact Res.wp_close (tokenWorld_closes hR) (sound.2 (ctx, e) s hadm.1 hs.1)
  exact Res.wp_mono (fun _ s' h => ⟨⟨h.1.1, h.2.1⟩, h.1.2, h.2.2⟩)
    (Res.wp_and (E := E) (F := M.books decimals issued) rfl hsafety (books_sound.2 e s hadm hs.2))

end NttManager

end Ntt
