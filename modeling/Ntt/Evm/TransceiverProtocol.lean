import Ntt.Evm.WormholeTransceiver
import Ntt.Lib.Machine
import Ntt.Lib.Writes

/-!
# The Wormhole Transceiver as a Transition System

What a Wormhole transceiver does, without how, as `Ntt.Evm.Protocol` says it of the manager:
`Permitted` says when each write of its storage may happen, and a `History` is a log of permitted
writes. Its programs only produce histories, whatever is called back into it while it waits for
core or a relayer. The two that receive a message wait for the manager too, and are in
`Ntt.Evm.Endpoint`.

## Main results

* `History.consumed_iff`, `History.receipts_nodup`: the flags of the hashes are the receipts of the
  log, and no hash is received twice.
* `History.peer_iff`: the peer of a chain is the one that was ever registered for it.
* `History.fromPeer`: every receipt is from that peer.
* `body_guarantee`, `leaves_body`: calls that receive nothing keep to the transition system, leave
  the receipts alone and do not call the manager.
-/

namespace Ntt

open Reentrant BigEndian

/-- The calls that cannot change any storage. -/
def TransceiverExt.isStatic : TransceiverExt → Bool
  | .messageFee | .quoteEVMDeliveryPrice .. | .quoteSpecialDeliveryPrice ..
  | .getDefaultDeliveryProvider | .parseAndVerifyVM _ => true
  | _ => false

namespace WormholeTransceiver

variable (W : WormholeTransceiver)

/-! ### The external interface -/

/-- A call of an external function that can change the state. -/
inductive Call where
  | sendMessage (recipientChain : UInt16) (instruction : TransceiverInstruction)
      (nttManagerMessage : Bytes) (recipientNttManagerAddress refundAddress : Bytes32)
  | receiveMessage (encodedMessage : Bytes)
  | receiveWormholeMessages (payload : Bytes) (additionalMessages : List Bytes)
      (sourceAddress : Bytes32) (sourceChain : UInt16) (deliveryHash : Bytes32)
  | setWormholePeer (peerChainId : UInt16) (peerContract : Bytes32)
  | setIsWormholeEvmChain (chainId : UInt16) (isEvm : Bool)
  | setIsWormholeRelayingEnabled (chainId : UInt16) (isEnabled : Bool)
  | setIsSpecialRelayingEnabled (chainId : UInt16) (isEnabled : Bool)
  | transferTransceiverOwnership (newOwner : Address)
  | transferOwnership (newOwner : Address)
deriving DecidableEq, Repr

/-- The program of a call. -/
def body (ctx : Context) : Call → TransceiverProg Unit
  | .sendMessage recipientChain instruction nttManagerMessage recipientNttManagerAddress
      refundAddress =>
      W.sendMessage ctx recipientChain instruction nttManagerMessage recipientNttManagerAddress
        refundAddress
  | .receiveMessage encodedMessage => do
      nonPayable ctx
      W.receiveMessage ctx encodedMessage
  | .receiveWormholeMessages payload additionalMessages sourceAddress sourceChain deliveryHash =>
      W.receiveWormholeMessages ctx payload additionalMessages sourceAddress sourceChain
        deliveryHash
  | .setWormholePeer peerChainId peerContract => W.setWormholePeer ctx peerChainId peerContract
  | .setIsWormholeEvmChain chainId isEvm => setIsWormholeEvmChain ctx chainId isEvm
  | .setIsWormholeRelayingEnabled chainId isEnabled =>
      setIsWormholeRelayingEnabled ctx chainId isEnabled
  | .setIsSpecialRelayingEnabled chainId isEnabled =>
      setIsSpecialRelayingEnabled ctx chainId isEnabled
  | .transferTransceiverOwnership newOwner => W.transferTransceiverOwnership ctx newOwner
  | .transferOwnership newOwner => transferOwnership ctx newOwner

/-- A transceiver as a machine. -/
def contract : Contract transceiverInterface State Error where
  Entry := Context × Call
  body e := W.body e.1 e.2

/-! ### Receipts -/

/-- What was received: a payload from an emitter on a chain, under a hash. -/
structure Receipt where
  hash : Bytes32
  chain : UInt16
  emitter : Bytes32
  payload : Bytes
deriving DecidableEq, Repr

/-- The receipt that an action is. -/
def Action.receipt : Action → Option Receipt
  | .consumeVaa vm => some ⟨vm.hash, vm.emitterChainId, vm.emitterAddress, vm.payload⟩
  | .consumeDelivery payload sourceAddress sourceChain hash =>
      some ⟨hash, sourceChain, sourceAddress, payload⟩
  | _ => none

/-- All that was received, newest first. -/
def receipts (log : List LogEntry) : List Receipt := log.filterMap (·.act.receipt)

/-- A receipt carries a message, which a source manager sent to the manager. -/
def Receipt.Carries (r : Receipt) (sourceChainId : UInt16) (sourceNttManagerAddress : Bytes32)
    (m : NttManagerMessage) : Prop :=
  r.chain = sourceChainId ∧ ∃ t,
    parseTransceiverAndNttManagerMessage W.bytes WH_TRANSCEIVER_PAYLOAD_PREFIX r.payload =
      .ok (t, m) ∧
    t.sourceNttManagerAddress = sourceNttManagerAddress ∧
    t.recipientNttManagerAddress = W.toWormholeFormat W.nttManager

/-! ### The transition system -/

/-- When an action may happen, where core verifies these VAAs. -/
def Permitted (verified : Bytes → VM → Prop) (ctx : Context) (st : Storage) : Action → Prop
  | .setWormholePeer chain peer =>
      st.owner = ctx.sender ∧ chain ≠ 0 ∧ peer ≠ 0 ∧ st.peers chain = 0
  | .setIsWormholeEvmChain chain _ | .setIsWormholeRelayingEnabled chain _
  | .setIsSpecialRelayingEnabled chain _ => st.owner = ctx.sender ∧ chain ≠ 0
  | .setOwner owner => ctx.sender = W.nttManager ∨ st.owner = ctx.sender ∧ owner ≠ 0
  | .setEntered entered => st.entered = !entered
  | .consumeVaa vm => (∃ encodedVM, verified encodedVM vm) ∧ W.evmChainId = ctx.chainid ∧
      st.peers vm.emitterChainId = vm.emitterAddress ∧ st.consumedVAAs vm.hash = false
  | .consumeDelivery _ sourceAddress sourceChain hash => ctx.sender = W.wormholeRelayer ∧
      st.peers sourceChain = sourceAddress ∧ st.consumedVAAs hash = false

/-- A receipt is from the one peer that the owner has registered for its chain, by a VAA that core
verifies on the chain of the deployment, or by a delivery of the relayer. -/
def FromPeer (verified : Bytes → VM → Prop) (log : List LogEntry) (r : Receipt) : Prop :=
  ∃ newer e older, log = newer ++ e :: older ∧
    ((∃ vm encodedVM, e.act = .consumeVaa vm ∧ verified encodedVM vm ∧
        W.evmChainId = e.ctx.chainid ∧
        r = ⟨vm.hash, vm.emitterChainId, vm.emitterAddress, vm.payload⟩) ∨
      (e.act = .consumeDelivery r.payload r.emitter r.chain r.hash ∧
        e.ctx.sender = W.wormholeRelayer)) ∧
    ∀ peer ≠ 0, peer = r.emitter ↔
      ∃ e' ∈ older, e'.act = .setWormholePeer r.chain peer ∧ e'.pre.owner = e'.ctx.sender

/-- A log of permitted actions from an initial storage, with the storage it leaves. -/
inductive History (verified : Bytes → VM → Prop) (init : Storage) :
    List LogEntry → Storage → Prop
  | nil : History verified init [] init
  | cons {log : List LogEntry} {st : Storage} {ctx : Context} {a : Action} :
      History verified init log st → W.Permitted verified ctx st a →
      History verified init (⟨a, ctx, st⟩ :: log) (a.apply st)

section

variable {W} {verified : Bytes → VM → Prop} {owner : Address} {log newer older : List LogEntry}
  {st : Storage} {e : LogEntry}

/-- A history before one of its actions is a history, in which the action was permitted. -/
theorem History.before {init : Storage}
    (h : W.History verified init (newer ++ e :: older) st) :
    W.History verified init older e.pre ∧ W.Permitted verified e.ctx e.pre e.act := by
  induction newer generalizing st with
  | nil =>
      cases h with
      | cons h ha => exact ⟨h, ha⟩
  | cons e' newer ih =>
      cases h with
      | cons h _ => exact ih h

/-- The flags of the hashes are the receipts. -/
theorem History.consumed_iff (h : W.History verified (.initial owner) log st) (hash : Bytes32) :
    st.consumedVAAs hash = true ↔ ∃ r ∈ receipts log, r.hash = hash := by
  induction h with
  | nil => simp [Storage.initial, receipts]
  | @cons log st ctx a _ ha ih =>
      cases a with
      | consumeVaa vm =>
          by_cases hh : hash = vm.hash
          · simp [receipts, Action.receipt, Action.apply, hh]
          · simpa [receipts, Action.receipt, Action.apply, hh, Ne.symm hh] using ih
      | consumeDelivery payload source chain hash' =>
          by_cases hh : hash = hash'
          · simp [receipts, Action.receipt, Action.apply, hh]
          · simpa [receipts, Action.receipt, Action.apply, hh, Ne.symm hh] using ih
      | _ => exact ih

/-- No hash is received twice. -/
theorem History.receipts_nodup (h : W.History verified (.initial owner) log st) :
    ((receipts log).map Receipt.hash).Nodup := by
  induction h with
  | nil => exact List.nodup_nil
  | @cons log st ctx a hlog ha ih =>
      -- a hash is received where its flag is not set
      have hnew : ∀ hash, st.consumedVAAs hash = false →
          hash ∉ (receipts log).map Receipt.hash := by
        intro hash hfalse hmem
        have := (hlog.consumed_iff hash).mpr (by simpa using hmem)
        rw [hfalse] at this
        exact absurd this Bool.false_ne_true
      cases a with
      | consumeVaa vm => exact List.nodup_cons.mpr ⟨hnew _ ha.2.2.2, ih⟩
      | consumeDelivery payload source chain hash => exact List.nodup_cons.mpr ⟨hnew _ ha.2.2, ih⟩
      | _ => exact ih

/-- The peer of a chain is what was ever registered for it. -/
theorem History.peer_iff (h : W.History verified (.initial owner) log st) (chain : UInt16)
    {peer : Bytes32} (hpeer : peer ≠ 0) :
    st.peers chain = peer ↔ ∃ e ∈ log, e.act = .setWormholePeer chain peer := by
  induction h with
  | nil => simpa [Storage.initial] using Ne.symm hpeer
  | @cons log st ctx a _ ha ih =>
      cases a with
      | setWormholePeer chain' peer' =>
          by_cases hc : chain = chain'
          · subst hc
            -- nothing was registered for the chain before
            have hnone : ¬ ∃ e ∈ log, e.act = .setWormholePeer chain peer := by
              rw [← ih, ha.2.2.2]
              exact Ne.symm hpeer
            simpa [Action.apply] using fun e he hact => absurd ⟨e, he, hact⟩ hnone
          · simpa [Action.apply, hc, Ne.symm hc] using ih
      | _ => simpa [Action.apply] using ih

/-- A peer is registered by the owner. -/
theorem History.registered_by_owner (h : W.History verified (.initial owner) log st)
    (he : e ∈ log) {chain : UInt16} {peer : Bytes32} (hact : e.act = .setWormholePeer chain peer) :
    e.pre.owner = e.ctx.sender := by
  obtain ⟨newer, older, rfl⟩ := List.append_of_mem he
  have := h.before.2
  rw [hact] at this
  exact this.1

/-- Every receipt is from the peer. -/
theorem History.fromPeer (h : W.History verified (.initial owner) log st) {r : Receipt}
    (hr : r ∈ receipts log) : W.FromPeer verified log r := by
  obtain ⟨e, he, hact⟩ := List.mem_filterMap.mp hr
  obtain ⟨newer, older, rfl⟩ := List.append_of_mem he
  obtain ⟨hbefore, ha⟩ := h.before
  -- where the emitter was the peer, the peer is what was registered
  have hregistered : e.pre.peers r.chain = r.emitter → ∀ peer ≠ 0, peer = r.emitter ↔
      ∃ e' ∈ older, e'.act = .setWormholePeer r.chain peer ∧ e'.pre.owner = e'.ctx.sender := by
    intro hemitter peer hpeer
    rw [← hemitter, eq_comm, hbefore.peer_iff r.chain hpeer]
    refine exists_congr fun e' => and_congr_right fun he' => ⟨fun hact' => ?_, And.left⟩
    exact ⟨hact', hbefore.registered_by_owner he' hact'⟩
  refine ⟨newer, e, older, rfl, ?_⟩
  cases ha' : e.act with
  | consumeVaa vm =>
      rw [ha'] at ha hact
      obtain ⟨⟨encodedVM, hverified⟩, hfork, hemitter, -⟩ := ha
      obtain rfl := Option.some.inj hact
      exact ⟨.inl ⟨vm, encodedVM, rfl, hverified, hfork, rfl⟩, hregistered hemitter⟩
  | consumeDelivery payload source chain hash =>
      rw [ha'] at ha hact
      obtain ⟨hsender, hemitter, -⟩ := ha
      obtain rfl := Option.some.inj hact
      exact ⟨.inr ⟨rfl, hsender⟩, hregistered hemitter⟩
  | _ =>
      rw [ha'] at hact
      cases hact

end

/-! ### The environment -/

/-- The replies that a static call can give: what core verifies. -/
def replies (verified : Bytes → VM → Prop) : (x : TransceiverExt) → x.Reply → Prop
  | .parseAndVerifyVM encodedVM, (vm, valid, _) => valid = true → verified encodedVM vm
  | _, _ => True

/-- The contracts around a transceiver: a static call changes nothing, any other call hands
control away. -/
def world (verified : Bytes → VM → Prop) : World transceiverInterface State where
  closed := TransceiverExt.isStatic
  effect x s r s' := s' = s ∧ replies verified x r
  answers _ _ := True

/-- The environment of a transceiver: any call, at any time. -/
def environment (verified : Bytes → VM → Prop) :
    Environment transceiverInterface State (Context × Call) where
  toWorld := world verified
  admits _ _ := True

/-- The log only grows, and the guard stays taken while it is. -/
def Later (s s' : State) : Prop :=
  s.log <:+ s'.log ∧ (s.storage.entered = true → s'.storage.entered = true)

/-- The state is a history wherever control changes hands. -/
def safety (verified : Bytes → VM → Prop) (init : Storage) : Rely transceiverInterface State where
  toWorld := world verified
  inv s := W.History verified init s.log s.storage
  rely := Later

theorem safety_closed (verified : Bytes → VM → Prop) (init : Storage) :
    (W.safety verified init).Closed where
  refl _ := ⟨List.suffix_rfl, id⟩
  trans h h' := ⟨h.1.trans h'.1, h'.2 ∘ h.2⟩

/-! ### Weakest preconditions of the primitives -/

section

variable {E : Rely transceiverInterface State} {ctx : Context} {s : State}

@[simp] theorem wp_perform {a : Action} {Q : Unit → State → Prop} :
    ((perform ctx a).run s).wp E Q ↔ Q () (s.perform ctx a) := Iff.rfl

@[simp] theorem wp_load {Q : Storage → State → Prop} :
    (load.run s).wp E Q ↔ Q s.storage s := Iff.rfl

@[simp] theorem wp_nonPayable {Q : Unit → State → Prop} :
    ((nonPayable ctx).run s).wp E Q ↔ (ctx.value = 0 → Q () s) := by
  simp [nonPayable]

@[simp] theorem wp_onlyOwner {Q : Unit → State → Prop} :
    ((onlyOwner ctx).run s).wp E Q ↔ (s.storage.owner = ctx.sender → Q () s) := by
  simp [onlyOwner]

@[simp] theorem wp_onlyNttManager {Q : Unit → State → Prop} :
    ((W.onlyNttManager ctx).run s).wp E Q ↔ (ctx.sender = W.nttManager → Q () s) := by
  simp [onlyNttManager]

@[simp] theorem wp_onlyRelayer {Q : Unit → State → Prop} :
    ((W.onlyRelayer ctx).run s).wp E Q ↔ (ctx.sender = W.wormholeRelayer → Q () s) := by
  simp [onlyRelayer]

end

/-! ### Programs that write nothing -/

/-- The call of a transceiver that its manager answers. -/
def toManager : TransceiverExt → Bool
  | .attestationReceived .. => true
  | _ => false

/-- The calls to core and the relayers. -/
abbrev Abroad (x : TransceiverExt) : Prop := toManager x = false

section

variable {step : State → State → Prop}

theorem writes_load : Writes Abroad step load :=
  Writes.bind Writes.get fun _ => Writes.pure _

theorem writes_external {x : TransceiverExt} (hx : Abroad x) : Writes Abroad step (external x) :=
  Writes.call (X := transceiverInterface) hx

/-- The branches of a delivery write nothing. -/
theorem writes_sendViaStandardRelaying (chain : UInt16) (payment : ℕ) (refund : Bytes32)
    (payload : Bytes) :
    Writes Abroad step (W.sendViaStandardRelaying chain payment refund payload) := by
  refine Writes.bind writes_load fun st => ?_
  refine Writes.bind (Writes.liftExcept _) fun target => ?_
  refine Writes.bind (Writes.liftExcept _) fun refundRecipient => ?_
  refine Writes.bind (writes_external rfl) fun provider => ?_
  exact Writes.bind (writes_external rfl) fun _ => Writes.pure _

theorem writes_sendViaSpecialRelaying (chain : UInt16) (payment : ℕ) (quote payload : Bytes) :
    Writes Abroad step (W.sendViaSpecialRelaying chain payment quote payload) := by
  refine Writes.bind (writes_external rfl) fun fee => ?_
  refine Writes.bind (writes_external rfl) fun _ => ?_
  refine Writes.bind (Writes.liftExcept _) fun relayerPayment => ?_
  refine Writes.bind writes_load fun st => ?_
  exact Writes.bind (writes_external rfl) fun _ => Writes.pure _

theorem writes_sendManually (payment : ℕ) (payload : Bytes) :
    Writes Abroad step (W.sendManually payment payload) :=
  Writes.bind (writes_external rfl) fun _ => Writes.pure _

theorem writes_sendMessage (chain : UInt16) (payment : ℕ) (caller : Address)
    (recipient refund : Bytes32) (instruction : TransceiverInstruction) (message : Bytes) :
    Writes Abroad step
      (W._sendMessage chain payment caller recipient refund instruction message) := by
  refine Writes.bind (Writes.liftExcept _) fun payload => ?_
  refine Writes.bind (Writes.liftExcept _) fun weIns => ?_
  refine Writes.bind writes_load fun st => ?_
  refine Writes.ite (W.writes_sendViaStandardRelaying _ _ _ _) ?_
  exact Writes.ite (W.writes_sendViaSpecialRelaying _ _ _ _) (W.writes_sendManually _ _)

end

/-! ### Programs that leave the receipts alone -/

/-- The receipts of a state. -/
def State.receipts (s : State) : List Receipt := WormholeTransceiver.receipts s.log

section

variable {ctx : Context}

theorem leaves_perform {a : Action} (ha : a.receipt = none) :
    Leaves Abroad State.receipts (perform ctx a) := by
  refine Writes.modify fun s => ?_
  simp only [State.receipts, receipts, State.perform_log, List.filterMap_cons, ha]

theorem leaves_onlyOwner : Leaves Abroad State.receipts (onlyOwner ctx) :=
  Writes.bind writes_load fun _ => Writes.revertIf _ _

/-- The calls of a transceiver that receive a message. -/
def Call.receives : Call → Bool
  | .receiveMessage _ | .receiveWormholeMessages .. => true
  | _ => false

theorem leaves_setFlag {chain : UInt16} {a : Action} (ha : a.receipt = none) :
    Leaves Abroad State.receipts (setFlag ctx chain a) := by
  refine Writes.bind (Writes.revertIf _ _) fun _ => ?_
  refine Writes.bind leaves_onlyOwner fun _ => ?_
  exact Writes.bind (Writes.revertIf _ _) fun _ => leaves_perform ha

/-- Only a receipt adds to the receipts, or calls the manager. -/
theorem leaves_body {call : Call} (hcall : call.receives = false) :
    Leaves Abroad State.receipts (W.body ctx call) := by
  cases call with
  | receiveMessage | receiveWormholeMessages => cases hcall
  | sendMessage chain instruction message recipient refund =>
      refine Writes.bind writes_load fun st => ?_
      refine Writes.bind (Writes.revertIf _ _) fun _ => ?_
      refine Writes.bind (leaves_perform rfl) fun _ => ?_
      refine Writes.bind (Writes.bind (Writes.revertIf _ _) fun _ => ?_) fun _ => leaves_perform rfl
      exact W.writes_sendMessage _ _ _ _ _ _ _
  | setWormholePeer chain peer =>
      refine Writes.bind leaves_onlyOwner fun _ => ?_
      refine Writes.bind (Writes.revertIf _ _) fun _ => ?_
      refine Writes.bind (Writes.revertIf _ _) fun _ => ?_
      refine Writes.bind writes_load fun st => ?_
      refine Writes.bind (Writes.revertIf _ _) fun _ => ?_
      refine Writes.bind (leaves_perform rfl) fun _ => ?_
      exact Writes.bind (writes_external rfl) fun _ => Writes.pure _
  | setIsWormholeEvmChain chain isEvm => exact leaves_setFlag rfl
  | setIsWormholeRelayingEnabled chain isEnabled => exact leaves_setFlag rfl
  | setIsSpecialRelayingEnabled chain isEnabled => exact leaves_setFlag rfl
  | transferTransceiverOwnership newOwner =>
      refine Writes.bind (Writes.revertIf _ _) fun _ => ?_
      exact Writes.bind (Writes.revertIf _ _) fun _ => leaves_perform rfl
  | transferOwnership newOwner =>
      refine Writes.bind (Writes.revertIf _ _) fun _ => ?_
      refine Writes.bind leaves_onlyOwner fun _ => ?_
      exact Writes.bind (Writes.revertIf _ _) fun _ => leaves_perform rfl

end

/-! ### Soundness of what receives nothing -/

section

variable {W} {verified : Bytes → VM → Prop} {init : Storage} {ctx : Context} {s s₀ : State}

/-- A permitted action that does not give the guard back is within the rely, and restores the
invariant. -/
theorem perform_ok {a : Action} (hs : (W.safety verified init).inv s) (hr : Later s₀ s)
    (ha : W.Permitted verified ctx s.storage a) (he : a ≠ .setEntered false) :
    (W.safety verified init).inv (s.perform ctx a) ∧
      (W.safety verified init).rely s₀ (s.perform ctx a) := by
  refine ⟨.cons hs ha, hr.1.trans (List.suffix_cons _ _), fun h₀ => ?_⟩
  have h := hr.2 h₀
  cases a with
  | setEntered entered =>
      cases entered with
      | true => rfl
      | false => exact absurd rfl he
  | _ => exact h

/-- A closed call stays within the rely. -/
theorem within_effect {x : TransceiverExt} {s s' : State} {r : x.Reply}
    (hs : (W.safety verified init).inv s) (he : (W.safety verified init).effect x s r s') :
    (W.safety verified init).inv s' ∧ (W.safety verified init).rely s s' := by
  obtain ⟨rfl, -⟩ := he
  exact ⟨hs, (W.safety_closed verified init).refl _⟩

/-- A program that writes nothing is within the rely. -/
theorem within_of_writes {α : Type} {m : TransceiverProg α}
    (hm : Writes Abroad (fun _ _ => False) m) : Within (W.safety verified init) m :=
  hm.within (W.safety_closed verified init) (fun _ _ h => h.elim)
    fun _ _ _ _ _ _ hs he => within_effect hs he

theorem setFlag_guarantee {chain : UInt16} {a : Action} (hs : (W.safety verified init).inv s)
    (ha : s.storage.owner = ctx.sender → chain ≠ 0 → W.Permitted verified ctx s.storage a)
    (he : a ≠ .setEntered false) :
    Guarantee (W.safety verified init) s ((setFlag ctx chain a).run s) := by
  simp only [Guarantee, setFlag, run_bind, Res.wp_bind, wp_nonPayable, wp_onlyOwner, wp_revertIf,
    wp_perform]
  intro _ howner hchain
  exact perform_ok hs ((W.safety_closed verified init).refl s) (ha howner hchain) he

theorem setWormholePeer_guarantee {chain : UInt16} {peer : Bytes32}
    (hs : (W.safety verified init).inv s) :
    Guarantee (W.safety verified init) s ((W.setWormholePeer ctx chain peer).run s) := by
  simp only [Guarantee, setWormholePeer, run_bind, Res.wp_bind, wp_onlyOwner, wp_revertIf, wp_load,
    wp_perform, not_not]
  intro howner hchain hpeer hnone
  have ha : W.Permitted verified ctx s.storage (.setWormholePeer chain peer) :=
    ⟨howner, hchain, hpeer, hnone⟩
  obtain ⟨hi, hr⟩ := perform_ok hs ((W.safety_closed verified init).refl s) ha (by simp)
  have hcall : Writes Abroad (fun _ _ => False) (external (.publishMessage ctx.value 0
    (encodeTransceiverRegistration ⟨WH_PEER_REGISTRATION_PREFIX, chain, peer⟩)
    W.consistencyLevel)) := writes_external rfl
  exact (within_of_writes hcall).wp (W.safety_closed verified init) hi hr

/-- A message is sent under the guard. -/
theorem sendMessage_guarantee {chain : UInt16} {instruction : TransceiverInstruction}
    {message : Bytes} {recipient refund : Bytes32} (hs : (W.safety verified init).inv s) :
    Guarantee (W.safety verified init) s
      ((W.sendMessage ctx chain instruction message recipient refund).run s) := by
  simp only [Guarantee, sendMessage, nonReentrant, run_bind, Res.wp_bind, wp_load, wp_revertIf,
    wp_perform, wp_onlyNttManager, Bool.not_eq_true]
  intro hfree _
  have ha : W.Permitted verified ctx s.storage (.setEntered true) := hfree
  obtain ⟨hi, hr⟩ := perform_ok hs ((W.safety_closed verified init).refl s) ha (by simp)
  refine Res.wp_mono (fun _ s' h => ?_)
    (within_of_writes (W.writes_sendMessage chain ctx.value ctx.sender recipient refund instruction
      message) _ hi)
  -- nested calls leave the guard taken
  have htaken : s'.storage.entered = true := h.2.2 rfl
  refine ⟨.cons h.1 htaken, (hr.1.trans h.2.1).trans (List.suffix_cons _ _), fun he => ?_⟩
  rw [hfree] at he
  exact absurd he Bool.false_ne_true

/-- Every call that receives nothing meets its guarantee. -/
theorem body_guarantee {call : Call} (hcall : call.receives = false)
    (hs : (W.safety verified init).inv s) :
    Guarantee (W.safety verified init) s ((W.body ctx call).run s) := by
  cases call with
  | receiveMessage | receiveWormholeMessages => cases hcall
  | sendMessage => exact sendMessage_guarantee hs
  | setWormholePeer => exact setWormholePeer_guarantee hs
  | setIsWormholeEvmChain => exact setFlag_guarantee hs (fun h h' => ⟨h, h'⟩) (by simp)
  | setIsWormholeRelayingEnabled => exact setFlag_guarantee hs (fun h h' => ⟨h, h'⟩) (by simp)
  | setIsSpecialRelayingEnabled => exact setFlag_guarantee hs (fun h h' => ⟨h, h'⟩) (by simp)
  | transferTransceiverOwnership newOwner =>
      simp only [Guarantee, body, transferTransceiverOwnership, run_bind, Res.wp_bind, wp_nonPayable,
        wp_onlyNttManager, wp_perform]
      intro _ hsender
      exact perform_ok hs ((W.safety_closed verified init).refl s) (.inl hsender) (by simp)
  | transferOwnership newOwner =>
      simp only [Guarantee, body, transferOwnership, run_bind, Res.wp_bind, wp_nonPayable,
        wp_onlyOwner, wp_revertIf, wp_perform]
      intro _ howner hnew
      exact perform_ok hs ((W.safety_closed verified init).refl s) (.inr ⟨howner, hnew⟩) (by simp)

end

end WormholeTransceiver

end Ntt
