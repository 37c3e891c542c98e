import Ntt.Evm.NttManager
import Ntt.Lib.Writes

/-!
# What the Calls of a Manager Do

Which calls to others each program of a manager makes, and which actions it does by itself,
whatever nested calls do while it waits. Actions come in kinds: the owner's, and the pauser's, set
something up or end a pause, transceivers vote, and the rest gets on with transfers. So do calls,
and each does actions of its kind (`acts_body`).
-/

namespace Ntt

open Reentrant

/-- Kinds of actions and of calls. -/
inductive Kind where
  /-- The owner or the pauser sets something up. -/
  | admin
  /-- The owner ends a pause. -/
  | resume
  /-- A transceiver votes. -/
  | vote
  /-- A transfer gets on. -/
  | transfer
deriving DecidableEq, Repr

/-- The kind of an action. -/
def Action.kind : Action → Kind
  | .quorum .. | .setPeer .. | .setPauser _ | .setOwner _ | .setPaused true => .admin
  | .outboundLimit (.setLimit _) _ | .inboundLimit _ (.setLimit _) _ => .admin
  | .setPaused false => .resume
  | .attest .. => .vote
  | _ => .transfer

/-- The calls to other contracts that setting up makes. -/
def Ext.isAdmin : Ext → Bool
  | .tokenDecimals | .transferTransceiverOwnership .. => true
  | _ => false

/-- A program that only makes certain calls and only does certain actions, in the context of its
call. -/
abbrev Acts (ctx : Context) (P : Ext → Prop) (A : Action → Prop) {α : Type} (m : ManagerProg α) :
    Prop :=
  Writes P (fun s s' => ∃ a, A a ∧ s' = s.perform ctx a) m

/-- A program that only sets up. -/
abbrev Administers (ctx : Context) {α : Type} (m : ManagerProg α) : Prop :=
  Acts ctx (fun x => x.isAdmin = true) (fun a => a.kind = .admin) m

/-- A program that only gets on with transfers. -/
abbrev Transfers (ctx : Context) {α : Type} (m : ManagerProg α) : Prop :=
  Acts ctx (fun _ => True) (fun a => a.kind = .transfer) m

section

variable {P : Ext → Prop} {A : Action → Prop} {ctx : Context} {α : Type}

/-! ### Primitives and modifiers -/

theorem acts_perform {a : Action} (h : A a) : Acts ctx P A (perform ctx a) :=
  Writes.modify fun _ => ⟨a, h, rfl⟩

theorem acts_load : Acts ctx P A load := Writes.bind Writes.get fun _ => Writes.pure _

theorem acts_mono {Q : Ext → Prop} {B : Action → Prop} {m : ManagerProg α} (hm : Acts ctx P A m)
    (hP : ∀ x, P x → Q x) (hA : ∀ a, A a → B a) : Acts ctx Q B m :=
  hm.mono hP fun _ _ ⟨a, ha, hs⟩ => ⟨a, hA a ha, hs⟩

theorem acts_external {x : Ext} (hx : P x) : Acts ctx P A (external x) :=
  Writes.call (X := managerInterface) hx

theorem acts_call {x : Ext} (hx : P x) :
    Acts ctx P A (do let _ ← external x : ManagerProg Unit) :=
  Writes.bind (acts_external hx) fun _ => Writes.pure _

theorem acts_nonPayable : Acts ctx P A (nonPayable ctx) := Writes.revertIf _ _

theorem acts_whenNotPaused : Acts ctx P A whenNotPaused :=
  Writes.bind acts_load fun _ => Writes.revertIf _ _

theorem acts_onlyOwner : Acts ctx P A (onlyOwner ctx) :=
  Writes.bind acts_load fun _ => Writes.revertIf _ _

theorem acts_onlyOwnerOrPauser : Acts ctx P A (onlyOwnerOrPauser ctx) :=
  Writes.bind acts_load fun _ => Writes.revertIf _ _

theorem acts_onlyTransceiver : Acts ctx P A (onlyTransceiver ctx) :=
  Writes.bind acts_load fun _ => Writes.revertIf _ _

theorem acts_nonReentrant {m : ManagerProg α} (hm : Transfers ctx m) :
    Transfers ctx (nonReentrant ctx m) := by
  refine Writes.bind acts_load fun st => ?_
  refine Writes.bind (Writes.revertIf _ _) fun _ => ?_
  refine Writes.bind (acts_perform rfl) fun _ => ?_
  refine Writes.bind hm fun r => ?_
  exact Writes.bind (acts_perform rfl) fun _ => Writes.pure _

/-! ### Operations of the owner -/

theorem acts_updateQuorum (op : RegistryOp) : Administers ctx (updateQuorum ctx op) := by
  refine Writes.bind acts_load fun st => ?_
  exact Writes.bind (Writes.liftExcept _) fun q => acts_perform rfl

/-- A program of the owner. -/
theorem acts_owned {m : ManagerProg α} (hm : Acts ctx P A m) :
    Acts ctx P A (do nonPayable ctx; onlyOwner ctx; m : ManagerProg α) :=
  Writes.bind acts_nonPayable fun _ => Writes.bind acts_onlyOwner fun _ => hm

theorem acts_transferTransceiversLoop (newOwner : Address) (rounds i : ℕ) :
    Administers ctx (transferTransceiversLoop newOwner rounds i) := by
  induction rounds generalizing i with
  | zero => exact Writes.pure _
  | succ rounds ih =>
      refine Writes.bind acts_load fun st => ?_
      cases st.registry.registeredTransceivers[i]? with
      | none => exact Writes.pure _
      | some transceiver => exact Writes.bind (acts_external rfl) fun _ => ih (i + 1)

theorem acts_transferOwnership (newOwner : Address) :
    Administers ctx (transferOwnership ctx newOwner) := by
  refine acts_owned ?_
  refine Writes.bind (Writes.revertIf _ _) fun _ => ?_
  refine Writes.bind (acts_perform rfl) fun _ => ?_
  refine Writes.bind acts_load fun st => ?_
  exact Writes.bind (Writes.revertIf _ _) fun _ => acts_transferTransceiversLoop _ _ _

theorem acts_pause : Administers ctx (pause ctx) := by
  refine Writes.bind acts_nonPayable fun _ => ?_
  refine Writes.bind acts_onlyOwnerOrPauser fun _ => ?_
  exact Writes.bind acts_whenNotPaused fun _ => acts_perform rfl

theorem acts_unpause :
    Acts ctx (fun x => x.isAdmin = true) (fun a => a.kind = .resume) (unpause ctx) := by
  refine acts_owned (Writes.bind acts_load fun st => ?_)
  exact Writes.bind (Writes.revertIf _ _) fun _ => acts_perform rfl

theorem acts_transferPauserCapability (newPauser : Address) :
    Administers ctx (transferPauserCapability ctx newPauser) := by
  refine Writes.bind acts_nonPayable fun _ => ?_
  exact Writes.bind acts_onlyOwnerOrPauser fun _ => acts_perform rfl

end

namespace NttManager

variable {M : NttManager} {P : Ext → Prop} {A : Action → Prop} {ctx : Context}

theorem acts_updateOutboundLimit {op : RateLimitOp} (h : ∀ p, A (.outboundLimit op p)) :
    Acts ctx P A (M.updateOutboundLimit ctx op) := by
  refine Writes.bind acts_load fun st => ?_
  exact Writes.bind (Writes.liftExcept _) fun p => acts_perform (h p)

theorem acts_updateInboundLimit {chain : UInt16} {op : RateLimitOp}
    (h : ∀ p, A (.inboundLimit chain op p)) :
    Acts ctx P A (M.updateInboundLimit ctx chain op) := by
  refine Writes.bind acts_load fun st => ?_
  exact Writes.bind (Writes.liftExcept _) fun p => acts_perform (h p)

theorem acts_setOutboundLimitTrimmed (limit : TrimmedAmount) :
    Administers ctx (M.setOutboundLimitTrimmed ctx limit) := by
  refine Writes.bind acts_load fun st => ?_
  refine Writes.bind (acts_external rfl) fun decimals => ?_
  refine Writes.bind (acts_updateOutboundLimit fun _ => rfl) fun _ => ?_
  refine Writes.bind (Writes.liftExcept _) fun _ => ?_
  exact Writes.bind (Writes.liftExcept _) fun _ => Writes.pure _

theorem acts_setInboundLimitTrimmed (limit : TrimmedAmount) (chain : UInt16) :
    Administers ctx (M.setInboundLimitTrimmed ctx limit chain) := by
  refine Writes.bind acts_load fun st => ?_
  refine Writes.bind (acts_external rfl) fun decimals => ?_
  refine Writes.bind (acts_updateInboundLimit fun _ => rfl) fun _ => ?_
  refine Writes.bind (Writes.liftExcept _) fun _ => ?_
  exact Writes.bind (Writes.liftExcept _) fun _ => Writes.pure _

theorem acts_setPeer (chain : UInt16) (peer : Bytes32) (decimals : UInt8) (limit : ℕ) :
    Administers ctx (M.setPeer ctx chain peer decimals limit) := by
  refine acts_owned (Writes.bind (Writes.revertIf _ _) fun _ => ?_)
  refine Writes.bind (Writes.revertIf _ _) fun _ => ?_
  refine Writes.bind (Writes.revertIf _ _) fun _ => ?_
  refine Writes.bind (Writes.revertIf _ _) fun _ => ?_
  refine Writes.bind (acts_perform rfl) fun _ => ?_
  refine Writes.bind (acts_external rfl) fun toDecimals => ?_
  exact Writes.bind (Writes.liftExcept _) fun limit => acts_setInboundLimitTrimmed _ _

theorem acts_setOutboundLimit (limit : ℕ) : Administers ctx (M.setOutboundLimit ctx limit) := by
  refine acts_owned (Writes.bind (acts_external rfl) fun toDecimals => ?_)
  exact Writes.bind (Writes.liftExcept _) fun limit => acts_setOutboundLimitTrimmed _

theorem acts_setInboundLimit (limit : ℕ) (chain : UInt16) :
    Administers ctx (M.setInboundLimit ctx limit chain) := by
  refine acts_owned (Writes.bind (acts_external rfl) fun toDecimals => ?_)
  exact Writes.bind (Writes.liftExcept _) fun limit => acts_setInboundLimitTrimmed _ _

/-! ### Inbound -/

theorem acts_mintOrUnlockToRecipient (digest : Bytes32) (recipient : Address)
    (amount : TrimmedAmount) (cancelled : Bool) :
    Transfers ctx (M.mintOrUnlockToRecipient ctx digest recipient amount cancelled) := by
  refine Writes.bind (Writes.revertIf _ _) fun _ => ?_
  refine Writes.bind (acts_external trivial) fun decimals => ?_
  refine Writes.bind (Writes.liftExcept _) fun untrimmed => ?_
  cases cancelled with
  | true =>
      refine Writes.bind (acts_perform rfl) fun _ => ?_
      cases M.mode <;> exact acts_call trivial
  | false =>
      refine Writes.bind (acts_perform rfl) fun _ => ?_
      cases M.mode <;> exact acts_call trivial

theorem acts_enqueueOrConsumeInboundRateLimit (digest : Bytes32) (chain : UInt16)
    (amount : TrimmedAmount) (recipient : Address) :
    Transfers ctx (M.enqueueOrConsumeInboundRateLimit ctx digest chain amount recipient) := by
  refine Writes.bind acts_load fun st => ?_
  refine Writes.bind (Writes.liftExcept _) fun limited => Writes.ite ?_ ?_
  · exact Writes.bind (acts_perform rfl) fun _ => Writes.pure _
  · refine Writes.bind (acts_updateInboundLimit fun _ => rfl) fun _ => ?_
    exact Writes.bind (acts_updateOutboundLimit fun _ => rfl) fun _ => Writes.pure _

theorem acts_handleTransfer (chain : UInt16) (source : Bytes32) (m : NttManagerMessage)
    (digest : Bytes32) : Transfers ctx (M.handleTransfer ctx chain source m digest) := by
  refine Writes.bind (Writes.liftExcept _) fun transfer => ?_
  refine Writes.bind (Writes.revertIf _ _) fun _ => ?_
  refine Writes.bind (acts_external trivial) fun toDecimals => ?_
  refine Writes.bind (Writes.liftExcept _) fun untrimmed => ?_
  refine Writes.bind (Writes.liftExcept _) fun amount => ?_
  refine Writes.bind (Writes.liftExcept _) fun recipient => ?_
  refine Writes.bind (acts_enqueueOrConsumeInboundRateLimit _ _ _ _) fun enqueued => ?_
  exact Writes.ite (Writes.pure _) (acts_mintOrUnlockToRecipient _ _ _ _)

theorem acts_isMessageExecuted (chain : UInt16) (source : Bytes32) (m : NttManagerMessage) :
    Transfers ctx (M.isMessageExecuted ctx chain source m) := by
  refine Writes.bind (Writes.liftExcept _) fun digest => ?_
  refine Writes.bind acts_load fun st => ?_
  refine Writes.bind (Writes.revertIf _ _) fun _ => ?_
  exact Writes.ite (Writes.pure _) (Writes.bind (acts_perform rfl) fun _ => Writes.pure _)

theorem acts_executeMsg (chain : UInt16) (source : Bytes32) (m : NttManagerMessage) :
    Transfers ctx (M.executeMsg ctx chain source m) := by
  refine Writes.bind acts_whenNotPaused fun _ => ?_
  refine Writes.bind (acts_isMessageExecuted _ _ _) fun ⟨digest, already⟩ => ?_
  exact Writes.ite (Writes.pure _) (acts_handleTransfer _ _ _ _)

theorem acts_attestationReceived (chain : UInt16) (source : Bytes32) (m : NttManagerMessage) :
    Acts ctx (fun _ => True) (fun a => a.kind = .vote ∨ a.kind = .transfer)
      (M.attestationReceived ctx chain source m) := by
  have hrecord : Acts ctx (fun _ => True) (fun a => a.kind = .vote ∨ a.kind = .transfer)
      (M.recordTransceiverAttestation ctx chain source m) := by
    refine Writes.bind (Writes.liftExcept _) fun digest => ?_
    refine Writes.bind acts_load fun st => ?_
    refine Writes.bind (Writes.revertIf _ _) fun _ => ?_
    exact Writes.bind (acts_perform (.inl rfl)) fun _ => Writes.pure _
  refine Writes.bind acts_onlyTransceiver fun _ => ?_
  refine Writes.bind acts_whenNotPaused fun _ => ?_
  refine Writes.bind (Writes.bind acts_load fun _ => Writes.revertIf _ _) fun _ => ?_
  refine Writes.bind hrecord fun digest => ?_
  refine Writes.bind acts_load fun st => ?_
  exact Writes.ite (acts_mono (acts_executeMsg _ _ _) (fun _ h => h) fun _ => .inr) (Writes.pure _)

theorem acts_completeInboundQueuedTransfer (digest : Bytes32) :
    Transfers ctx (M.completeInboundQueuedTransfer ctx digest) := by
  refine acts_nonReentrant (Writes.bind acts_whenNotPaused fun _ => ?_)
  refine Writes.bind acts_load fun st => ?_
  refine Writes.bind (Writes.revertIf _ _) fun _ => ?_
  refine Writes.bind (Writes.liftExcept _) fun waited => ?_
  refine Writes.bind (Writes.revertIf _ _) fun _ => ?_
  exact Writes.bind (acts_perform rfl) fun _ => acts_mintOrUnlockToRecipient _ _ _ _

/-! ### Outbound -/

theorem acts_quoteLoop (chain : UInt16) (instructions : List TransceiverInstruction)
    (transceivers : List Address) (quotes : List ℕ) (total : ℕ) :
    Transfers ctx (quoteLoop chain instructions transceivers quotes total) := by
  induction transceivers generalizing quotes total with
  | nil => exact Writes.pure _
  | cons transceiver rest ih =>
      refine Writes.bind acts_load fun st => ?_
      refine Writes.bind (Writes.liftExcept _) fun instruction => ?_
      refine Writes.bind (acts_external trivial) fun price => ?_
      exact Writes.bind (Writes.liftExcept _) fun total => ih _ total

theorem acts_sendLoop (chain : UInt16) (refund peer : Bytes32)
    (instructions : List TransceiverInstruction) (message : Bytes)
    (transceivers : List (Address × ℕ)) :
    Transfers ctx (sendLoop chain refund peer instructions message transceivers) := by
  induction transceivers with
  | nil => exact Writes.pure _
  | cons transceiver rest ih =>
      refine Writes.bind acts_load fun st => ?_
      refine Writes.bind (Writes.liftExcept _) fun instruction => ?_
      exact Writes.bind (acts_external trivial) fun _ => ih

theorem acts_prepareForTransfer (chain : UInt16) (instructions : Bytes) :
    Transfers ctx (M.prepareForTransfer ctx chain instructions) := by
  refine Writes.bind acts_load fun st => ?_
  refine Writes.bind (Writes.revertIf _ _) fun _ => ?_
  refine Writes.bind (Writes.liftExcept _) fun parsed => ?_
  refine Writes.bind (acts_quoteLoop _ _ _ _ _) fun ⟨quotes, total⟩ => ?_
  refine Writes.bind (Writes.revertIf _ _) fun _ => ?_
  exact Writes.ite (Writes.bind (acts_call trivial) fun _ => Writes.pure _) (Writes.pure _)

theorem acts_sendMessageToTransceivers (chain : UInt16) (refund peer : Bytes32) (quotes : List ℕ)
    (instructions : List TransceiverInstruction) (transceivers : List Address) (message : Bytes) :
    Transfers ctx (sendMessageToTransceivers chain refund peer quotes instructions transceivers
      message) :=
  Writes.bind (Writes.revertIf _ _) fun _ => acts_sendLoop _ _ _ _ _ _

theorem acts_sendTransfer (sequence : UInt64) (amount : TrimmedAmount) (chain : UInt16)
    (recipient refund : Bytes32) (sender : Address) (instructions : Bytes) :
    Transfers ctx (M.sendTransfer ctx sequence amount chain recipient refund sender instructions) := by
  refine Writes.bind (Writes.revertIf _ _) fun _ => ?_
  refine Writes.bind (acts_prepareForTransfer _ _) fun prepared => ?_
  obtain ⟨enabled, parsed, quotes, total⟩ := prepared
  refine Writes.bind (Writes.liftExcept _) fun message => ?_
  refine Writes.bind (Writes.liftExcept _) fun encoded => ?_
  refine Writes.bind acts_load fun st => ?_
  refine Writes.bind (acts_perform rfl) fun _ => ?_
  refine Writes.bind (acts_sendMessageToTransceivers _ _ _ _ _ _ _) fun _ => ?_
  refine Writes.bind (acts_external trivial) fun decimals => ?_
  exact Writes.bind (Writes.liftExcept _) fun _ => Writes.pure _

theorem acts_getCurrentOutboundCapacity : Transfers ctx (M.getCurrentOutboundCapacity ctx) := by
  refine Writes.bind acts_load fun st => ?_
  refine Writes.bind (Writes.liftExcept _) fun capacity => ?_
  exact Writes.bind (acts_external trivial) fun decimals => Writes.liftExcept _

theorem acts_trimTransferAmount (amount : ℕ) (chain : UInt16) :
    Transfers ctx (trimTransferAmount amount chain) := by
  refine Writes.bind acts_load fun st => ?_
  refine Writes.bind (Writes.revertIf _ _) fun _ => ?_
  refine Writes.bind (acts_external trivial) fun decimals => ?_
  refine Writes.bind (Writes.liftExcept _) fun trimmed => ?_
  refine Writes.bind (Writes.liftExcept _) fun untrimmed => ?_
  exact Writes.bind (Writes.revertIf _ _) fun _ => Writes.pure _

theorem acts_enqueueOrConsumeOutboundRateLimit (transfer : Transfer) (shouldQueue : Bool)
    (sequence : UInt64) :
    Transfers ctx (M.enqueueOrConsumeOutboundRateLimit ctx transfer shouldQueue sequence) := by
  refine Writes.bind (acts_external trivial) fun decimals => ?_
  refine Writes.bind (Writes.liftExcept _) fun amount => ?_
  refine Writes.bind acts_load fun st => ?_
  refine Writes.bind (Writes.liftExcept _) fun limited => Writes.ite (Writes.ite ?_ ?_) ?_
  · refine Writes.bind (Writes.revertIf _ _) fun _ => ?_
    refine Writes.bind acts_getCurrentOutboundCapacity fun _ => ?_
    refine Writes.bind (acts_perform rfl) fun _ => ?_
    exact Writes.bind (acts_call trivial) fun _ => Writes.pure _
  · exact Writes.bind acts_getCurrentOutboundCapacity fun _ => Writes.revert _
  · refine Writes.bind (acts_updateOutboundLimit fun _ => rfl) fun _ => ?_
    exact Writes.bind (acts_updateInboundLimit fun _ => rfl) fun _ => Writes.pure _

theorem acts_pullTokens (amount : ℕ) : Transfers ctx (M.pullTokens ctx amount) := by
  refine Writes.bind (acts_external trivial) fun before => ?_
  refine Writes.bind (acts_external trivial) fun _ => ?_
  refine Writes.bind (acts_external trivial) fun after => ?_
  refine Writes.bind (Writes.liftExcept _) fun amount => ?_
  cases M.mode with
  | locking => exact Writes.pure _
  | burning =>
      refine Writes.bind (acts_external trivial) fun _ => ?_
      refine Writes.bind (acts_external trivial) fun afterBurn => ?_
      exact Writes.bind (Writes.revertIf _ _) fun _ => Writes.pure _

theorem acts_useMessageSequence (transfer : Transfer) :
    Transfers ctx (useMessageSequence ctx transfer) := by
  refine Writes.bind acts_load fun st => ?_
  refine Writes.bind (Writes.revertIf _ _) fun _ => ?_
  exact Writes.bind (acts_perform rfl) fun _ => Writes.pure _

theorem acts_transfer (amount : ℕ) (chain : UInt16) (recipient refund : Bytes32)
    (shouldQueue : Bool) (instructions : Bytes) :
    Transfers ctx (M.transfer ctx amount chain recipient refund shouldQueue instructions) := by
  refine acts_nonReentrant (Writes.bind acts_whenNotPaused fun _ => ?_)
  refine Writes.bind (Writes.revertIf _ _) fun _ => ?_
  refine Writes.bind (Writes.revertIf _ _) fun _ => ?_
  refine Writes.bind (Writes.revertIf _ _) fun _ => ?_
  refine Writes.bind (acts_pullTokens _) fun received => ?_
  refine Writes.bind (acts_trimTransferAmount _ _) fun trimmed => ?_
  refine Writes.bind (acts_useMessageSequence _) fun sequence => ?_
  refine Writes.bind (acts_enqueueOrConsumeOutboundRateLimit _ _ _) fun enqueued => ?_
  exact Writes.ite (Writes.pure _) (acts_sendTransfer _ _ _ _ _ _ _)

theorem acts_completeOutboundQueuedTransfer (sequence : UInt64) :
    Transfers ctx (M.completeOutboundQueuedTransfer ctx sequence) := by
  refine acts_nonReentrant (Writes.bind acts_whenNotPaused fun _ => ?_)
  refine Writes.bind acts_load fun st => ?_
  refine Writes.bind (Writes.revertIf _ _) fun _ => ?_
  refine Writes.bind (Writes.liftExcept _) fun waited => ?_
  refine Writes.bind (Writes.revertIf _ _) fun _ => ?_
  exact Writes.bind (acts_perform rfl) fun _ => acts_sendTransfer _ _ _ _ _ _ _

theorem acts_cancelOutboundQueuedTransfer (sequence : UInt64) :
    Transfers ctx (M.cancelOutboundQueuedTransfer ctx sequence) := by
  refine Writes.bind acts_nonPayable fun _ => acts_nonReentrant ?_
  refine Writes.bind acts_whenNotPaused fun _ => ?_
  refine Writes.bind acts_load fun st => ?_
  refine Writes.bind (Writes.revertIf _ _) fun _ => ?_
  refine Writes.bind (Writes.revertIf _ _) fun _ => ?_
  exact Writes.bind (acts_perform rfl) fun _ => acts_mintOrUnlockToRecipient _ _ _ _

/-- The kind of a call. -/
def Call.kind : Call → Kind
  | .transfer .. | .transferSimple .. | .executeMsg .. => .transfer
  | .completeInboundQueuedTransfer _ | .completeOutboundQueuedTransfer _
  | .cancelOutboundQueuedTransfer _ => .transfer
  | .attestationReceived .. => .vote
  | .unpause => .resume
  | _ => .admin

/-- The actions of a call: those of its kind, and a vote can get on with a transfer. -/
def Call.Does (call : Call) (a : Action) : Prop :=
  a.kind = call.kind ∨ call.kind = .vote ∧ a.kind = .transfer

/-- **A call only does actions of its kind.** -/
theorem acts_body (call : Call) :
    Acts ctx (fun x => call.kind = .admin → x.isAdmin = true) call.Does (M.body ctx call) := by
  have admin {call : Call} (hcall : call.kind = .admin) (h : Administers ctx (M.body ctx call)) :
      Acts ctx (fun x => call.kind = .admin → x.isAdmin = true) call.Does (M.body ctx call) :=
    acts_mono h (fun _ hx _ => hx) fun _ ha => .inl (ha.trans hcall.symm)
  have transfer {call : Call} (hcall : call.kind = .transfer)
      (h : Transfers ctx (M.body ctx call)) :
      Acts ctx (fun x => call.kind = .admin → x.isAdmin = true) call.Does (M.body ctx call) :=
    acts_mono h (fun _ _ hadmin => Kind.noConfusion (hcall.symm.trans hadmin))
      fun _ ha => .inl (ha.trans hcall.symm)
  cases call with
  | transfer => exact transfer rfl (acts_transfer _ _ _ _ _ _)
  | transferSimple => exact transfer rfl (acts_transfer _ _ _ _ _ _)
  | executeMsg => exact transfer rfl (Writes.bind acts_nonPayable fun _ => acts_executeMsg _ _ _)
  | completeInboundQueuedTransfer =>
      exact transfer rfl
        (Writes.bind acts_nonPayable fun _ => acts_completeInboundQueuedTransfer _)
  | completeOutboundQueuedTransfer =>
      exact transfer rfl (acts_completeOutboundQueuedTransfer _)
  | cancelOutboundQueuedTransfer => exact transfer rfl (acts_cancelOutboundQueuedTransfer _)
  | attestationReceived =>
      exact acts_mono (Writes.bind acts_nonPayable fun _ => acts_attestationReceived _ _ _)
        (fun _ _ h => Kind.noConfusion h) fun _ ha => ha.imp id fun ha => ⟨rfl, ha⟩
  | unpause => exact acts_mono acts_unpause (fun _ hx _ => hx) fun _ ha => .inl ha
  | setPeer => exact admin rfl (acts_setPeer _ _ _ _)
  | setOutboundLimit => exact admin rfl (acts_setOutboundLimit _)
  | setInboundLimit => exact admin rfl (acts_setInboundLimit _ _)
  | setTransceiver => exact admin rfl (acts_owned (acts_updateQuorum _))
  | removeTransceiver => exact admin rfl (acts_owned (acts_updateQuorum _))
  | setThreshold => exact admin rfl (acts_owned (acts_updateQuorum _))
  | pause => exact admin rfl acts_pause
  | transferOwnership => exact admin rfl (acts_transferOwnership _)
  | transferPauserCapability => exact admin rfl (acts_transferPauserCapability _)

end NttManager

end Ntt
