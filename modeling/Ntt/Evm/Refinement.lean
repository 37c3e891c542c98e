import Ntt.Evm.Protocol

/-!
# The Programs Refine the Transition System

Whatever the token, the transceivers and the callers do while control is with them, nested calls
included, every call of a manager only does actions that are permitted, one after another: in
every reachable configuration of the call machine, the log and the storage are a `History`.

The proof goes program by program with the weakest precondition of `Ntt.Lib.Resumption`. The
rely says what a suspended call may count on: the log only grows, and while the re-entrancy
guard is taken it stays taken and no sequence changes its status.

## Main results

* `sound`: every call meets its guarantee.
* `history_of_reachable`: every reachable configuration is a history, also while calls are
  suspended.
-/

namespace Ntt

open Reentrant

/-! ### Weakest preconditions of the primitives -/

section

variable {E : Rely managerInterface State} {ctx : Context} {s : State}

@[simp] theorem wp_perform {a : Action} {Q : Unit → State → Prop} :
    ((perform ctx a).run s).wp E Q ↔ Q () (s.perform ctx a) := Iff.rfl

@[simp] theorem wp_load {Q : Storage → State → Prop} :
    (load.run s).wp E Q ↔ Q s.storage s := Iff.rfl

@[simp] theorem wp_nonPayable {Q : Unit → State → Prop} :
    ((nonPayable ctx).run s).wp E Q ↔ (ctx.value = 0 → Q () s) := by
  simp [nonPayable]

@[simp] theorem wp_whenNotPaused {Q : Unit → State → Prop} :
    (whenNotPaused.run s).wp E Q ↔ (s.storage.paused = false → Q () s) := by
  simp [whenNotPaused]

@[simp] theorem wp_onlyOwner {Q : Unit → State → Prop} :
    ((onlyOwner ctx).run s).wp E Q ↔ (s.storage.owner = ctx.sender → Q () s) := by
  simp [onlyOwner]

@[simp] theorem wp_onlyOwnerOrPauser {Q : Unit → State → Prop} :
    ((onlyOwnerOrPauser ctx).run s).wp E Q ↔
      (s.storage.pauser = ctx.sender ∨ s.storage.owner = ctx.sender → Q () s) := by
  simp only [onlyOwnerOrPauser, run_bind, Res.wp_bind, wp_load, wp_revertIf, not_and_or, not_not]

@[simp] theorem wp_onlyTransceiver {Q : Unit → State → Prop} :
    ((onlyTransceiver ctx).run s).wp E Q ↔
      ((s.storage.registry.transceiverInfos ctx.sender).enabled = true → Q () s) := by
  simp [onlyTransceiver]

@[simp] theorem wp_updateQuorum {op : RegistryOp} {Q : Unit → State → Prop} :
    ((updateQuorum ctx op).run s).wp E Q ↔
      ∀ q, op.apply s.storage.quorum = .ok q → Q () (s.perform ctx (.quorum op q)) := by
  simp [updateQuorum]

end

/-! ### The environment -/

/-- The replies that a static call can give. -/
def NttManager.Rules.replies (R : NttManager.Rules) : (x : Ext) → x.Reply → Prop
  | .tokenDecimals, decimals => R.decimals decimals
  | _, _ => True

/-- The contracts around a manager: a static call changes nothing, any other call hands control
away. -/
def NttManager.Rules.world (R : NttManager.Rules) : World managerInterface State where
  closed := Ext.isStatic
  effect x s r s' := s' = s ∧ R.replies x r
  answers _ _ := True

namespace NttManager

/-- The environment of a manager: any call that the rules allow, at any time. -/
def Rules.environment (R : Rules) : Environment managerInterface State (Context × Call) where
  toWorld := R.world
  admits s e := R.calls s.storage s.log e.1 e.2

variable (M : NttManager) (R : Rules) (init : Storage)

/-- The log only grows; while the guard is taken it stays taken, and no sequence changes its
status. -/
def Later (s s' : State) : Prop :=
  s.log <:+ s'.log ∧ (s.storage.entered = true →
    s'.storage.entered = true ∧ ∀ n, outStatus n s'.log = outStatus n s.log)

/-- The state is a history wherever control changes hands. -/
def safety : Rely managerInterface State where
  toWorld := R.world
  inv s := M.History R init s.log s.storage
  rely := Later

theorem safety_closed : (M.safety R init).Closed where
  refl _ := ⟨List.suffix_rfl, fun h => ⟨h, fun _ => rfl⟩⟩
  trans h h' := ⟨h.1.trans h'.1, fun he =>
    ⟨(h'.2 (h.2 he).1).1, fun n => ((h'.2 (h.2 he).1).2 n).trans ((h.2 he).2 n)⟩⟩

/-- The actions on the guard and on sequences. -/
def isOutbound : Action → Bool
  | .setEntered _ | .useMessageSequence .. | .enqueueOutbound .. | .releaseOutbound ..
  | .withdrawOutbound .. | .send .. | .outboundTransferCancelled .. => true
  | _ => false

variable {M R init} {ctx : Context} {s s₀ : State} {owner : Address} {limit : RateLimitParams}

/-- A permitted action continues the history. -/
theorem inv_perform {a : Action} (hs : (M.safety R init).inv s)
    (ha : M.Permitted R ctx s.storage s.log a) : (M.safety R init).inv (s.perform ctx a) :=
  .cons hs ha

/-- An action that is neither on the guard nor on a sequence is within the rely. -/
theorem later_perform {a : Action} (ha : isOutbound a = false) : Later s (s.perform ctx a) := by
  refine ⟨List.suffix_cons _ _, fun he => ?_⟩
  cases a <;> first | exact ⟨he, fun _ => rfl⟩ | cases ha

/-- A permitted action of this kind is within the rely, and restores the invariant. -/
theorem perform_ok {a : Action} (hs : (M.safety R init).inv s) (hr : Later s₀ s)
    (ha : M.Permitted R ctx s.storage s.log a) (hout : isOutbound a = false) :
    (M.safety R init).inv (s.perform ctx a) ∧ (M.safety R init).rely s₀ (s.perform ctx a) :=
  ⟨inv_perform hs ha, (M.safety_closed R init).trans hr (later_perform hout)⟩

/-! ### External calls -/

theorem wp_static {x : Ext} (hx : x.isStatic = true) {Q : x.Reply → State → Prop} :
    ((external x).run s).wp (M.safety R init) Q ↔ ∀ r, R.replies x r → Q r s := by
  refine (wp_call_closed (X := managerInterface) (x := x) hx s).trans ⟨?_, ?_⟩
  · exact fun h r hr => h r s ⟨rfl, hr⟩
  · rintro h r s' ⟨rfl, hr⟩
    exact h r hr

@[simp] theorem wp_tokenDecimals {Q : UInt8 → State → Prop} :
    (tokenDecimals.run s).wp (M.safety R init) Q ↔ ∀ d, R.decimals d → Q d s :=
  wp_static (x := .tokenDecimals) rfl

@[simp] theorem wp_getTokenBalanceOf {account : Address} {Q : ℕ → State → Prop} :
    ((getTokenBalanceOf account).run s).wp (M.safety R init) Q ↔ ∀ n, Q n s :=
  (wp_static (x := .balanceOf account) rfl).trans
    ⟨fun h n => h n trivial, fun h n _ => h n⟩

@[simp] theorem wp_quoteTransceiver {transceiver : Address} {chain : UInt16}
    {instruction : TransceiverInstruction} {Q : ℕ → State → Prop} :
    ((quoteTransceiver transceiver chain instruction).run s).wp (M.safety R init) Q ↔
      ∀ price, Q price s :=
  (wp_static (x := .quoteDeliveryPrice transceiver chain instruction) rfl).trans
    ⟨fun h n => h n trivial, fun h n _ => h n⟩

/-- A program that only hands control away is within the rely. -/
theorem within_external (x : Ext) : Within (M.safety R init) (external x) := by
  cases hx : x.isStatic with
  | true => exact fun s hs => (wp_static hx).mpr fun _ _ => ⟨hs, (M.safety_closed R init).refl s⟩
  | false => exact Within.call_open hx

/-- A call out that ends a program. -/
theorem wp_external_last {x : Ext} (hs : (M.safety R init).inv s) (hr : Later s₀ s) :
    ((external x).run s).wp (M.safety R init) fun _ s' =>
      (M.safety R init).inv s' ∧ (M.safety R init).rely s₀ s' :=
  (within_external x).wp (M.safety_closed R init) hs hr

/-! ### Operations of the owner -/

theorem transferTransceiversLoop_within (newOwner : Address) (rounds i : ℕ) :
    Within (M.safety R init) (transferTransceiversLoop newOwner rounds i) := by
  induction rounds generalizing i with
  | zero => exact Within.pure (M.safety_closed R init) ()
  | succ rounds ih =>
      intro s hs
      simp only [transferTransceiversLoop, run_bind, Res.wp_bind, wp_load]
      cases hi : s.storage.registry.registeredTransceivers[i]? with
      | none => exact ⟨hs, (M.safety_closed R init).refl s⟩
      | some transceiver =>
          exact (Within.bind (M.safety_closed R init) (within_external _)
            fun _ => ih (i + 1)) s hs

/-- A limit operation on the outbound limit. -/
@[simp] theorem wp_updateOutboundLimit {E : Rely managerInterface State} {op : RateLimitOp}
    {Q : Unit → State → Prop} :
    ((M.updateOutboundLimit ctx op).run s).wp E Q ↔
      ∀ p, op.apply M.rateLimitDuration ctx.timestamp s.storage.outboundLimit = .ok p →
        Q () (s.perform ctx (.outboundLimit op p)) := by
  simp [updateOutboundLimit]

/-- A limit operation on an inbound limit. -/
@[simp] theorem wp_updateInboundLimit {E : Rely managerInterface State} {chain : UInt16}
    {op : RateLimitOp} {Q : Unit → State → Prop} :
    ((M.updateInboundLimit ctx chain op).run s).wp E Q ↔
      ∀ p, op.apply M.rateLimitDuration ctx.timestamp (s.storage.inboundLimits chain) = .ok p →
        Q () (s.perform ctx (.inboundLimit chain op p)) := by
  simp [updateInboundLimit]

theorem setOutboundLimitTrimmed_within (limit : TrimmedAmount) :
    Within (M.safety R init) (M.setOutboundLimitTrimmed ctx limit) := by
  intro s hs
  simp only [setOutboundLimitTrimmed, run_bind, Res.wp_bind, wp_load, wp_tokenDecimals,
    wp_updateOutboundLimit, monadLift_eq_liftExcept, wp_liftExcept]
  intro d _ p hp _ _ _ _
  exact perform_ok hs ((M.safety_closed R init).refl s) hp rfl

theorem setInboundLimitTrimmed_within (limit : TrimmedAmount) (chain : UInt16) :
    Within (M.safety R init) (M.setInboundLimitTrimmed ctx limit chain) := by
  intro s hs
  simp only [setInboundLimitTrimmed, run_bind, Res.wp_bind, wp_load, wp_tokenDecimals,
    wp_updateInboundLimit, monadLift_eq_liftExcept, wp_liftExcept]
  intro d _ p hp _ _ _ _
  exact perform_ok hs ((M.safety_closed R init).refl s) hp rfl

/-- Every operation of the owner meets its guarantee. -/
theorem setPeer_guarantee {chain : UInt16} {peer : Bytes32} {decimals : UInt8} {limit : ℕ}
    (hs : (M.safety R init).inv s)
    (hc : R.calls s.storage s.log ctx (.setPeer chain peer decimals limit)) :
    Guarantee (M.safety R init) s ((M.setPeer ctx chain peer decimals limit).run s) := by
  simp only [Guarantee, setPeer, run_bind, Res.wp_bind, wp_nonPayable, wp_onlyOwner, wp_revertIf,
    wp_perform, wp_tokenDecimals, monadLift_eq_liftExcept, wp_liftExcept]
  intro _ howner h0 hpeer hd hchain d _ trimmed _
  have ha : M.Permitted R ctx s.storage s.log (.setPeer chain ⟨peer, decimals⟩) :=
    ⟨⟨limit, hc⟩, howner, h0, hchain, hpeer, hd⟩
  obtain ⟨hi, hr⟩ := perform_ok hs ((M.safety_closed R init).refl s) ha rfl
  exact (setInboundLimitTrimmed_within trimmed chain).wp (M.safety_closed R init) hi hr

theorem setOutboundLimit_guarantee {limit : ℕ} (hs : (M.safety R init).inv s) :
    Guarantee (M.safety R init) s ((M.setOutboundLimit ctx limit).run s) := by
  simp only [Guarantee, setOutboundLimit, run_bind, Res.wp_bind, wp_nonPayable, wp_onlyOwner,
    wp_tokenDecimals, monadLift_eq_liftExcept, wp_liftExcept]
  intro _ _ d _ trimmed _
  exact setOutboundLimitTrimmed_within trimmed s hs

theorem setInboundLimit_guarantee {limit : ℕ} {chain : UInt16} (hs : (M.safety R init).inv s) :
    Guarantee (M.safety R init) s ((M.setInboundLimit ctx limit chain).run s) := by
  simp only [Guarantee, setInboundLimit, run_bind, Res.wp_bind, wp_nonPayable, wp_onlyOwner,
    wp_tokenDecimals, monadLift_eq_liftExcept, wp_liftExcept]
  intro _ _ d _ trimmed _
  exact setInboundLimitTrimmed_within trimmed chain s hs

/-- The three operations on the registry and the threshold. -/
theorem quorum_guarantee (op : RegistryOp) (hs : (M.safety R init).inv s)
    (hc : R.calls s.storage s.log ctx (callOf op)) :
    Guarantee (M.safety R init) s ((M.body ctx (callOf op)).run s) := by
  have h : Guarantee (M.safety R init) s
      ((do nonPayable ctx; onlyOwner ctx; updateQuorum ctx op : ManagerProg Unit).run s) := by
    simp only [Guarantee, run_bind, Res.wp_bind, wp_nonPayable, wp_onlyOwner, wp_updateQuorum]
    intro _ howner q hq
    exact perform_ok hs ((M.safety_closed R init).refl s) ⟨hc, howner, hq⟩ rfl
  cases op <;> exact h

theorem pause_guarantee (hs : (M.safety R init).inv s) :
    Guarantee (M.safety R init) s ((pause ctx).run s) := by
  simp only [Guarantee, pause, run_bind, Res.wp_bind, wp_nonPayable, wp_onlyOwnerOrPauser,
    wp_whenNotPaused, wp_perform]
  intro _ _ hp
  exact perform_ok hs ((M.safety_closed R init).refl s) hp rfl

theorem unpause_guarantee (hs : (M.safety R init).inv s) :
    Guarantee (M.safety R init) s ((unpause ctx).run s) := by
  simp only [Guarantee, unpause, run_bind, Res.wp_bind, wp_nonPayable, wp_onlyOwner, wp_load,
    wp_revertIf, wp_perform, Bool.not_eq_false]
  intro _ _ hp
  exact perform_ok hs ((M.safety_closed R init).refl s) hp rfl

theorem transferPauserCapability_guarantee {newPauser : Address}
    (hs : (M.safety R init).inv s) :
    Guarantee (M.safety R init) s ((transferPauserCapability ctx newPauser).run s) := by
  simp only [Guarantee, transferPauserCapability, run_bind, Res.wp_bind, wp_nonPayable,
    wp_onlyOwnerOrPauser, wp_perform]
  intro _ hp
  exact perform_ok hs ((M.safety_closed R init).refl s) hp rfl

theorem transferOwnership_guarantee {newOwner : Address} (hs : (M.safety R init).inv s) :
    Guarantee (M.safety R init) s ((transferOwnership ctx newOwner).run s) := by
  simp only [Guarantee, transferOwnership, run_bind, Res.wp_bind, wp_nonPayable, wp_onlyOwner,
    wp_revertIf, wp_perform, wp_load]
  intro _ howner hnew _
  have ha : M.Permitted R ctx s.storage s.log (.setOwner newOwner) := ⟨howner, hnew⟩
  obtain ⟨hi, hr⟩ := perform_ok hs ((M.safety_closed R init).refl s) ha rfl
  exact (transferTransceiversLoop_within newOwner _ 0).wp (M.safety_closed R init) hi hr

/-! ### Payouts and the receipt of messages -/

/-- The end of a payout: the tokens are minted or unlocked. -/
theorem wp_payout {recipient : Address} {amount : ℕ} (hs : (M.safety R init).inv s)
    (hr : Later s₀ s) :
    ((match M.mode with
      | .locking => do let _ ← external (.safeTransfer recipient amount)
      | .burning => do let _ ← external (.mint recipient amount) : ManagerProg Unit).run s).wp
      (M.safety R init) fun _ s' => (M.safety R init).inv s' ∧ (M.safety R init).rely s₀ s' := by
  cases M.mode <;> exact wp_external_last hs hr

/-- A redemption is permitted for a message that is being executed, or was released. -/
theorem mintOrUnlockToRecipient_redeem {digest : Bytes32} {recipient : Address}
    {amount : TrimmedAmount} (hs : (M.safety R init).inv s) (hr : Later s₀ s)
    (hd : inStatus digest s.log = .released amount recipient ∨
      ∃ m decimals, R.decimals decimals ∧ inStatus digest s.log = .executing m ∧
        M.parseTransfer m decimals = .ok (amount, recipient)) :
    ((M.mintOrUnlockToRecipient ctx digest recipient amount false).run s).wp
      (M.safety R init) fun _ s' => (M.safety R init).inv s' ∧ (M.safety R init).rely s₀ s' := by
  simp only [mintOrUnlockToRecipient, checkFork, run_bind, Res.wp_bind, wp_revertIf,
    wp_tokenDecimals, monadLift_eq_liftExcept, wp_liftExcept, Bool.false_eq_true, if_false,
    wp_perform]
  intro _ decimals hdec n hn
  have ha : M.Permitted R ctx s.storage s.log (.transferRedeemed digest recipient amount n) :=
    ⟨decimals, hdec, hn, hd⟩
  obtain ⟨hi, hr'⟩ := perform_ok hs hr ha rfl
  exact wp_payout hi hr'

/-- Executing a transfer queues it or redeems it, once it is marked as executed. -/
theorem handleTransfer_ok {chain : UInt16} {source : Bytes32} {m : NttManagerMessage}
    {digest : Bytes32} (hs : (M.safety R init).inv s) (hr : Later s₀ s)
    (hd : inStatus digest s.log = .executing m) :
    ((M.handleTransfer ctx chain source m digest).run s).wp (M.safety R init) fun _ s' =>
      (M.safety R init).inv s' ∧ (M.safety R init).rely s₀ s' := by
  simp only [handleTransfer, enqueueOrConsumeInboundRateLimit, run_bind, Res.wp_bind, wp_revertIf,
    wp_tokenDecimals, monadLift_eq_liftExcept, wp_liftExcept, wp_load, run_ite, Res.wp_ite,
    wp_perform, wp_updateInboundLimit, wp_updateOutboundLimit, run_pure, wp_ret, not_not]
  intro transfer htransfer hchain decimals hdec untrimmed huntrimmed amount hamount recipient
    hrecipient limited hlimited
  have hparse : M.parseTransfer m decimals = .ok (amount, recipient) := by
    simp [parseTransfer, htransfer, hchain, huntrimmed, hamount, hrecipient, throwIf]
  refine ⟨fun _ => ⟨fun _ => ?_, fun h => absurd trivial h⟩, fun _ p hp q hq =>
    ⟨fun h => absurd h Bool.false_ne_true, fun _ => ?_⟩⟩
  · have ha : M.Permitted R ctx s.storage s.log
        (.enqueueInbound digest ⟨amount, ctx.timestamp, recipient⟩) :=
      ⟨m, decimals, hdec, hd, hparse, rfl⟩
    exact perform_ok hs hr ha rfl
  · obtain ⟨hi, hr'⟩ := perform_ok (a := .inboundLimit chain (.consume amount) p) hs hr hp rfl
    obtain ⟨hi', hr''⟩ := perform_ok (a := .outboundLimit (.backfill amount) q) hi hr' hq rfl
    exact mintOrUnlockToRecipient_redeem hi' hr'' (.inr ⟨m, decimals, hdec, hd, hparse⟩)

/-- A message that is approved and not yet executed is executed, on the call itself or right
after its last vote. -/
theorem executeMsg_ok {chain : UInt16} {source : Bytes32} {m : NttManagerMessage}
    (hs : (M.safety R init).inv s) (hr : Later s₀ s)
    (hc : ∀ digest, M.digest chain m = .ok digest →
      R.calls s.storage s.log ctx (.executeMsg chain source m) ∨
        ∃ index st log, s.log = ⟨.attest chain source m digest index, ctx, st⟩ :: log) :
    ((M.executeMsg ctx chain source m).run s).wp (M.safety R init) fun _ s' =>
      (M.safety R init).inv s' ∧ (M.safety R init).rely s₀ s' := by
  simp only [executeMsg, isMessageExecuted, run_bind, Res.wp_bind, wp_whenNotPaused, wp_load,
    monadLift_eq_liftExcept, wp_liftExcept, wp_revertIf, run_ite, Res.wp_ite, run_pure, wp_ret,
    wp_perform, Bool.not_eq_false]
  intro hp digest hdigest happroved
  refine ⟨fun _ => ⟨fun _ => ⟨hs, hr⟩, fun h => absurd trivial h⟩, fun he =>
    ⟨fun h => absurd h Bool.false_ne_true, fun _ => ?_⟩⟩
  have ha : M.Permitted R ctx s.storage s.log (.execute chain source m digest) :=
    ⟨hdigest, happroved, Bool.not_eq_true _ ▸ he, hp, hc digest hdigest⟩
  obtain ⟨hi, hr'⟩ := perform_ok hs hr ha rfl
  exact handleTransfer_ok hi hr' (by simp [InStatus.step])

theorem attestationReceived_guarantee {chain : UInt16} {source : Bytes32} {m : NttManagerMessage}
    (hs : (M.safety R init).inv s)
    (hc : R.calls s.storage s.log ctx (.attestationReceived chain source m)) :
    Guarantee (M.safety R init) s ((M.attestationReceived ctx chain source m).run s) := by
  simp only [Guarantee, attestationReceived, verifyPeer, recordTransceiverAttestation, run_bind,
    Res.wp_bind, wp_onlyTransceiver, wp_whenNotPaused, wp_load, wp_revertIf, not_not,
    monadLift_eq_liftExcept, wp_liftExcept, wp_perform, run_pure, wp_ret, run_ite, Res.wp_ite]
  intro henabled hp hpeer digest hdigest hvote
  have ha : M.Permitted R ctx s.storage s.log
      (.attest chain source m digest (s.storage.registry.index ctx.sender)) :=
    ⟨hc, henabled, rfl, hp, hpeer, hdigest, fun h => Bitmap.and_bit_ne_zero.mpr h hvote⟩
  obtain ⟨hi, hr⟩ := perform_ok hs ((M.safety_closed R init).refl s) ha rfl
  refine ⟨fun _ => executeMsg_ok hi hr fun d hd => .inr ?_, fun _ => ⟨hi, hr⟩⟩
  rw [hdigest] at hd
  cases hd
  exact ⟨_, _, _, rfl⟩

/-! ### The guard -/

/-- What a body under the guard owes: the guard is still taken, and the log has only grown. -/
def Locked (M : NttManager) (R : Rules) (init : Storage) (s s' : State) : Prop :=
  (M.safety R init).inv s' ∧ s.log <:+ s'.log ∧ s'.storage.entered = true

namespace Locked

theorem refl (hs : (M.safety R init).inv s) (he : s.storage.entered = true) :
    M.Locked R init s s := ⟨hs, List.suffix_rfl, he⟩

/-- Nested calls cannot take the guard away. -/
theorem later (h : M.Locked R init s₀ s) {s' : State} (hi : (M.safety R init).inv s')
    (hr : Later s s') : M.Locked R init s₀ s' :=
  ⟨hi, h.2.1.trans hr.1, (hr.2 h.2.2).1⟩

/-- A permitted action that leaves the guard alone. -/
theorem perform {a : Action} (h : M.Locked R init s₀ s)
    (ha : M.Permitted R ctx s.storage s.log a)
    (he : (a.apply s.storage).entered = s.storage.entered) :
    M.Locked R init s₀ (s.perform ctx a) :=
  ⟨inv_perform h.1 ha, h.2.1.trans (List.suffix_cons _ _), he.trans h.2.2⟩

/-- A program that stays within the rely. -/
theorem wp {α : Type} {m : ManagerProg α} (h : M.Locked R init s₀ s)
    (hm : Within (M.safety R init) m) :
    (m.run s).wp (M.safety R init) fun _ s' => M.Locked R init s₀ s' :=
  Res.wp_mono (fun _ _ hs' => h.later hs'.1 hs'.2) (hm s h.1)

end Locked

/-- A body under the guard, with the guard around it. -/
theorem nonReentrant_guarantee {body : ManagerProg Unit} (hs : (M.safety R init).inv s)
    (hbody : ∀ s₁, (M.safety R init).inv s₁ → s₁.storage.entered = true →
      (body.run s₁).wp (M.safety R init) fun _ s' => M.Locked R init s₁ s') :
    Guarantee (M.safety R init) s ((nonReentrant ctx body).run s) := by
  simp only [Guarantee, nonReentrant, run_bind, Res.wp_bind, wp_load, wp_revertIf, wp_perform,
    Bool.not_eq_true]
  intro he
  have hi : (M.safety R init).inv (s.perform ctx (.setEntered true)) :=
    inv_perform hs (by simp [Permitted, he])
  refine Res.wp_mono (fun _ s' h => ?_) (hbody _ hi rfl)
  obtain ⟨hi', hlog, he'⟩ := h
  refine ⟨inv_perform hi' (by simp [Permitted, he']), ?_, ?_⟩
  · exact (List.suffix_cons _ _).trans (hlog.trans (List.suffix_cons _ _))
  · intro h
    rw [he] at h
    cases h

theorem completeInboundQueuedTransfer_guarantee {digest : Bytes32}
    (hs : (M.safety R (.initial owner limit)).inv s) :
    Guarantee (M.safety R (.initial owner limit)) s
      ((M.completeInboundQueuedTransfer ctx digest).run s) := by
  refine nonReentrant_guarantee hs fun s₁ hs₁ he => ?_
  simp only [run_bind, Res.wp_bind, wp_whenNotPaused, wp_load, wp_revertIf, wp_perform,
    monadLift_eq_liftExcept, wp_liftExcept, checkedSub_eq_ok, and_imp, not_lt]
  rintro _ hq waited hle rfl hwait
  have ha : M.Permitted R ctx s₁.storage s₁.log (.dequeueInbound digest) := ⟨hq, by omega⟩
  obtain ⟨hi, hr⟩ := perform_ok hs₁ ((M.safety_closed R (.initial owner limit)).refl s₁) ha rfl
  refine Res.wp_mono (fun _ s' h => (Locked.refl hs₁ he).later h.1 h.2)
    (mintOrUnlockToRecipient_redeem hi hr (.inl ?_))
  simp [InStatus.step, hs₁.inbound_queued hq]

/-! ### Outbound -/

theorem quoteLoop_wp {chain : UInt16} {instructions : List TransceiverInstruction}
    (transceivers : List Address) (quotes : List ℕ) (total : ℕ) :
    ((quoteLoop chain instructions transceivers quotes total).run s).wp (M.safety R init)
      fun _ s' => s' = s := by
  induction transceivers generalizing quotes total with
  | nil => rfl
  | cons transceiver rest ih =>
      simp only [quoteLoop, run_bind, Res.wp_bind, wp_load, monadLift_eq_liftExcept,
        wp_liftExcept, wp_quoteTransceiver]
      exact fun _ _ price total' _ => ih _ total'

theorem sendLoop_within {chain : UInt16} {refund peer : Bytes32}
    {instructions : List TransceiverInstruction} {payload : Bytes}
    (transceivers : List (Address × ℕ)) :
    Within (M.safety R init) (sendLoop chain refund peer instructions payload transceivers) := by
  induction transceivers with
  | nil => exact Within.pure (M.safety_closed R init) ()
  | cons t rest ih =>
      intro s hs
      simp only [sendLoop, run_bind, Res.wp_bind, wp_load, monadLift_eq_liftExcept, wp_liftExcept]
      intro instruction _
      refine Res.wp_mono (fun _ s' h => ?_) (within_external _ s hs)
      exact ih.wp (M.safety_closed R init) h.1 h.2

theorem refundToSender_within {amount : ℕ} :
    Within (M.safety R init) (refundToSender ctx amount) :=
  Within.bind (M.safety_closed R init) (within_external _)
    fun _ => Within.pure (M.safety_closed R init) ()

/-- The transceivers that a transfer is sent through are those enabled when it asks for the
prices; there is one at least. -/
theorem prepareForTransfer_wp {chain : UInt16} {instructions : Bytes}
    (hs : (M.safety R init).inv s) :
    ((M.prepareForTransfer ctx chain instructions).run s).wp (M.safety R init) fun r s' =>
      ((M.safety R init).inv s' ∧ Later s s') ∧
        r.1 = s.storage.registry.enabledTransceivers ∧ r.1 ≠ [] := by
  simp only [prepareForTransfer, run_bind, Res.wp_bind, wp_load, wp_revertIf,
    monadLift_eq_liftExcept, wp_liftExcept, List.length_eq_zero_iff]
  intro hne instructions _
  refine Res.wp_mono ?_ (quoteLoop_wp _ _ _)
  rintro ⟨quotes, total⟩ _ rfl
  simp only [run_bind, Res.wp_bind, run_ite, Res.wp_ite, run_pure, wp_ret]
  refine fun _ => ⟨fun _ => ?_, fun _ => ⟨⟨hs, (M.safety_closed R init).refl _⟩, trivial, hne⟩⟩
  exact Res.wp_mono (fun _ s' h => ⟨h, trivial, hne⟩) (refundToSender_within _ hs)

theorem sendMessageToTransceivers_within {chain : UInt16} {refund peer : Bytes32}
    {quotes : List ℕ} {instructions : List TransceiverInstruction} {transceivers : List Address}
    {payload : Bytes} :
    Within (M.safety R init) (sendMessageToTransceivers chain refund peer quotes instructions
      transceivers payload) :=
  Within.bind (M.safety_closed R init) (Within.revertIf (M.safety_closed R init) _ _)
    fun _ => sendLoop_within _

/-- A transfer in flight is sent, late enough if it was queued. -/
theorem sendTransfer_ok {sequence : UInt64} {t : Transfer} {instructions : Bytes}
    {queuedAt : Option UInt64} (h : M.Locked R (.initial owner limit) s₀ s)
    (ht : outStatus sequence s.log = .inFlight t queuedAt)
    (hwait : ∀ txTimestamp ∈ queuedAt,
      txTimestamp.toNat + M.rateLimitDuration.toNat ≤ ctx.timestamp.toNat) :
    ((M.sendTransfer ctx sequence t.amount t.recipientChain t.recipient t.refundAddress t.sender
      instructions).run s).wp (M.safety R (.initial owner limit)) fun _ s' =>
        M.Locked R (.initial owner limit) s₀ s' := by
  simp only [sendTransfer, checkFork, run_bind, Res.wp_bind, wp_revertIf]
  intro _
  refine Res.wp_mono ?_ (prepareForTransfer_wp h.1)
  intro r s' hpost
  simp only [monadLift_eq_liftExcept, wp_liftExcept, wp_load, wp_perform]
  intro message hmessage payload hpayload
  have h' := h.later hpost.1.1 hpost.1.2
  have ha : M.Permitted R ctx s'.storage s'.log (.send sequence t.recipientChain message
      (s'.storage.peers t.recipientChain).peerAddress r.1) :=
    ⟨h'.2.2, hpost.2.2, hpost.2.1 ▸ h.1.quorum_inv.registry.enabled_nodup, rfl, t, queuedAt,
      ((hpost.1.2.2 h.2.2).2 sequence).trans ht, hwait, rfl, hmessage, payload, hpayload⟩
  refine Res.wp_mono (fun _ s'' h'' => ?_)
    ((h'.perform ha rfl).wp sendMessageToTransceivers_within)
  simp only [wp_tokenDecimals, run_pure, wp_ret]
  exact fun _ _ _ _ => h''

/-- An outbound transfer is queued or consumes its amount, once it has its sequence. -/
theorem enqueueOrConsumeOutboundRateLimit_ok {t : Transfer} {shouldQueue : Bool}
    {sequence : UInt64} (h : M.Locked R init s₀ s)
    (ht : outStatus sequence s.log = .inFlight t none) :
    ((M.enqueueOrConsumeOutboundRateLimit ctx t shouldQueue sequence).run s).wp
      (M.safety R init) fun enqueued s' => M.Locked R init s₀ s' ∧
        (enqueued = false → outStatus sequence s'.log = .inFlight t none) := by
  simp only [enqueueOrConsumeOutboundRateLimit, getCurrentOutboundCapacity, checkFork, run_bind,
    Res.wp_bind, wp_tokenDecimals, monadLift_eq_liftExcept, wp_liftExcept, wp_load, run_ite,
    Res.wp_ite, wp_revertIf, wp_perform, wp_updateOutboundLimit, wp_updateInboundLimit, run_pure,
    wp_ret, wp_revert]
  intro decimals hdec internal hinternal limited hlimited
  refine ⟨fun _ => ⟨fun _ _ _ _ _ _ _ _ => ?_, fun _ _ _ _ _ _ _ => trivial⟩,
    fun _ p hp q hq => ?_⟩
  · have ha : M.Permitted R ctx s.storage s.log
        (.enqueueOutbound sequence (t.queued ctx.timestamp)) := ⟨h.2.2, rfl, t, ht, rfl⟩
    exact Res.wp_mono (fun _ s' h' => ⟨h', fun he => Bool.noConfusion he⟩)
      ((h.perform ha rfl).wp refundToSender_within)
  · have h₁ := h.perform (a := .outboundLimit (.consume internal) p) hp rfl
    have h₂ := h₁.perform (a := .inboundLimit t.recipientChain (.backfill internal) q) hq rfl
    exact ⟨h₂, fun _ => ht⟩

/-- Tokens are pulled in by calls only. -/
theorem pullTokens_within {amount : ℕ} : Within (M.safety R init) (M.pullTokens ctx amount) := by
  have hE := M.safety_closed R init
  refine .bind hE (within_external _) fun before => .bind hE (within_external _) fun _ =>
    .bind hE (within_external _) fun after => .bind hE (.liftExcept hE _) fun received => ?_
  cases M.mode with
  | locking => exact .pure hE _
  | burning =>
      exact .bind hE (within_external _) fun _ => .bind hE (within_external _) fun _ =>
        .bind hE (.revertIf hE _ _) fun _ => .pure hE _

/-- A transfer, under the guard. -/
theorem transferEntryPoint_ok {amount : ℕ} {chain : UInt16} {recipient refund : Bytes32}
    {shouldQueue : Bool} {instructions : Bytes} {e : Call} {st : Storage} {log : List LogEntry}
    (hc : R.calls st log ctx e)
    (he : ∀ received trimmed, e.Asks ⟨amount, received, trimmed, chain, recipient, refund,
      ctx.sender, instructions⟩)
    (h : M.Locked R (.initial owner limit) s₀ s) :
    ((M.transferEntryPoint ctx amount chain recipient refund shouldQueue instructions).run s).wp
      (M.safety R (.initial owner limit)) fun _ s' => M.Locked R (.initial owner limit) s₀ s' := by
  simp only [transferEntryPoint, run_bind, Res.wp_bind, wp_revertIf]
  intro _ _ _
  refine Res.wp_mono (fun received s₁ h₁ => ?_) (h.wp pullTokens_within)
  simp only [trimTransferAmount, useMessageSequence, run_bind, Res.wp_bind, wp_load, wp_revertIf,
    wp_tokenDecimals, monadLift_eq_liftExcept, wp_liftExcept, run_pure, wp_ret, wp_perform,
    not_le, not_not, ge_iff_le]
  intro hpeer decimals hdec trimmed htrim untrimmed huntrim hdust hseq
  subst hdust
  let t : Transfer :=
    ⟨amount, received, trimmed, chain, recipient, refund, ctx.sender, instructions⟩
  have ha : M.Permitted R ctx s₁.storage s₁.log
      (.useMessageSequence s₁.storage.messageSequence t) :=
    ⟨h₁.2.2, rfl, hseq, rfl, ⟨st, log, e, hc, he _ _⟩, decimals, hdec, hpeer, htrim, huntrim⟩
  have ht : outStatus s₁.storage.messageSequence (s₁.perform ctx
      (.useMessageSequence s₁.storage.messageSequence t)).log = .inFlight t none := by
    simp [OutStatus.step]
  refine Res.wp_mono (fun enqueued s₂ h₂ => ?_)
    (enqueueOrConsumeOutboundRateLimit_ok (h₁.perform ha rfl) ht)
  simp only [run_ite, Res.wp_ite, run_pure, wp_ret, Bool.not_eq_true]
  exact ⟨fun _ => h₂.1, fun he =>
    sendTransfer_ok (t := t) h₂.1 (h₂.2 he) (by simp)⟩

/-- Both forms of `transfer`. -/
theorem transfer_guarantee {amount : ℕ} {chain : UInt16} {recipient refund : Bytes32}
    {shouldQueue : Bool} {instructions : Bytes} {e : Call} {st : Storage} {log : List LogEntry}
    (hc : R.calls st log ctx e)
    (he : ∀ received trimmed, e.Asks ⟨amount, received, trimmed, chain, recipient, refund,
      ctx.sender, instructions⟩)
    (hs : (M.safety R (.initial owner limit)).inv s) :
    Guarantee (M.safety R (.initial owner limit)) s
      ((M.transfer ctx amount chain recipient refund shouldQueue instructions).run s) := by
  refine nonReentrant_guarantee hs fun s₁ hs₁ hentered => ?_
  simp only [run_bind, Res.wp_bind, wp_whenNotPaused]
  exact fun _ => transferEntryPoint_ok hc he (.refl hs₁ hentered)

/-- A queued transfer is released, and its message sent. -/
theorem completeOutboundQueuedTransfer_guarantee {sequence : UInt64}
    (hs : (M.safety R (.initial owner limit)).inv s) :
    Guarantee (M.safety R (.initial owner limit)) s
      ((M.completeOutboundQueuedTransfer ctx sequence).run s) := by
  refine nonReentrant_guarantee hs fun s₁ hs₁ he => ?_
  simp only [run_bind, Res.wp_bind, wp_whenNotPaused, wp_load, wp_revertIf, wp_perform,
    monadLift_eq_liftExcept, wp_liftExcept, checkedSub_eq_ok, and_imp, not_lt]
  rintro _ hq waited hle rfl hwait
  obtain ⟨t, ht, hqueued⟩ := hs₁.outbound_queued hq
  have ha : M.Permitted R ctx s₁.storage s₁.log (.releaseOutbound sequence) :=
    ⟨he, hq, by omega⟩
  have hlocked := (Locked.refl hs₁ he).perform ha rfl
  have ht' : outStatus sequence (s₁.perform ctx (.releaseOutbound sequence)).log =
      .inFlight t (some (s₁.storage.outboundQueue sequence).txTimestamp) := by
    simp [OutStatus.step, ht]
  rw [hqueued] at ht' ⊢
  exact sendTransfer_ok (t := t) hlocked ht' (by simpa [Transfer.queued] using ha.2.2)

/-- A queued transfer is withdrawn, and its tokens returned. -/
theorem cancelOutboundQueuedTransfer_guarantee {sequence : UInt64}
    (hs : (M.safety R (.initial owner limit)).inv s) :
    Guarantee (M.safety R (.initial owner limit)) s
      ((M.cancelOutboundQueuedTransfer ctx sequence).run s) := by
  simp only [cancelOutboundQueuedTransfer, run_bind, Guarantee, Res.wp_bind, wp_nonPayable]
  intro _
  refine nonReentrant_guarantee hs fun s₁ hs₁ he => ?_
  simp only [mintOrUnlockToRecipient, checkFork, run_bind, Res.wp_bind, wp_whenNotPaused, wp_load,
    wp_revertIf, wp_perform, monadLift_eq_liftExcept, wp_liftExcept, wp_tokenDecimals, if_true,
    not_not]
  intro _ hq hsender _ decimals hdec n hn
  obtain ⟨t, ht, hqueued⟩ := hs₁.outbound_queued hq
  have ha : M.Permitted R ctx s₁.storage s₁.log (.withdrawOutbound sequence) :=
    ⟨he, hq, hsender⟩
  have hlocked := (Locked.refl hs₁ he).perform ha rfl
  have hseq : UInt64.ofNat (BitVec.ofNat 256 sequence.toNat).toNat = sequence := by
    rw [BitVec.toNat_ofNat, Nat.mod_eq_of_lt (by have := sequence.toNat_lt; omega),
      UInt64.ofNat_toNat]
  rw [hseq]
  have ha' : M.Permitted R ctx (s₁.perform ctx (.withdrawOutbound sequence)).storage
      (s₁.perform ctx (.withdrawOutbound sequence)).log (.outboundTransferCancelled sequence
        ctx.sender (s₁.storage.outboundQueue sequence).amount n) :=
    ⟨he, rfl, t, _, decimals, hdec, by simp [OutStatus.step, ht]; rfl, by rw [← hsender, hqueued]; rfl,
      by rw [hqueued]; rfl, hn⟩
  have hlocked' := hlocked.perform ha' rfl
  exact Res.wp_mono (fun _ s' h => hlocked'.later h.1 h.2)
    (wp_payout hlocked'.1 ((M.safety_closed R (.initial owner limit)).refl _))

/-! ### Soundness -/

/-- Every call meets its guarantee. -/
theorem sound :
    Sound M.contract R.environment (M.safety R (.initial owner limit)) := by
  refine ⟨rfl, fun ⟨ctx, e⟩ s hc hs => ?_⟩
  change R.calls s.storage s.log ctx e at hc
  change Guarantee _ s ((M.body ctx e).run s)
  have payable : ∀ {p : ManagerProg Unit},
      Guarantee (M.safety R (.initial owner limit)) s (p.run s) →
      Guarantee (M.safety R (.initial owner limit)) s
        ((do nonPayable ctx; p : ManagerProg Unit).run s) := by
    intro p hp
    simp only [Guarantee, run_bind, Res.wp_bind, wp_nonPayable]
    exact fun _ => hp
  cases e with
  | transfer amount chain recipient refund shouldQueue instructions =>
      exact transfer_guarantee hc (fun _ _ => ⟨rfl, rfl, rfl, rfl, rfl⟩) hs
  | transferSimple amount chain recipient =>
      exact transfer_guarantee hc (fun _ _ => ⟨rfl, rfl, rfl, rfl, rfl⟩) hs
  | attestationReceived chain source m => exact payable (attestationReceived_guarantee hs hc)
  | executeMsg chain source m =>
      exact payable (executeMsg_ok hs ((M.safety_closed R (.initial owner limit)).refl s)
        fun _ _ => .inl hc)
  | completeInboundQueuedTransfer digest =>
      exact payable (completeInboundQueuedTransfer_guarantee hs)
  | completeOutboundQueuedTransfer sequence => exact completeOutboundQueuedTransfer_guarantee hs
  | cancelOutboundQueuedTransfer sequence => exact cancelOutboundQueuedTransfer_guarantee hs
  | setPeer chain peer decimals n => exact setPeer_guarantee hs hc
  | setOutboundLimit n => exact setOutboundLimit_guarantee hs
  | setInboundLimit n chain => exact setInboundLimit_guarantee hs
  | setTransceiver a => exact quorum_guarantee (.setTransceiver a) hs hc
  | removeTransceiver a => exact quorum_guarantee (.removeTransceiver a) hs hc
  | setThreshold n => exact quorum_guarantee (.setThreshold n) hs hc
  | pause => exact pause_guarantee hs
  | unpause => exact unpause_guarantee hs
  | transferOwnership newOwner => exact transferOwnership_guarantee hs
  | transferPauserCapability newPauser => exact transferPauserCapability_guarantee hs

/-- Every reachable configuration is a history, also while calls are suspended. -/
theorem history_of_reachable {token : Ledger} {c : Config managerInterface State Error}
    (h : Reachable M.contract R.environment ⟨.initial owner limit, token, []⟩ c) :
    M.History R (.initial owner limit) c.st.log c.st.storage :=
  have hinit : (M.safety R (.initial owner limit)).inv ⟨.initial owner limit, token, []⟩ := .nil
  h.inv (M.safety_closed R (.initial owner limit)) sound hinit

end NttManager

end Ntt
