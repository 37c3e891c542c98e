import Ntt.Evm.Approval
import Ntt.Evm.TransceiverProtocol
import Ntt.Evm.Votes
import Ntt.Lib.Linking

/-!
# A Manager with its Wormhole Transceiver

A Wormhole transceiver and the manager that it was deployed for, as one system (`Ntt.Lib.Linking`):
when the transceiver has received a message and calls `attestationReceived`, the manager's program
runs, on the manager's storage, with the transceiver as the caller. Everybody else may call both
contracts at any time, from inside any of their calls; nobody else calls the manager as the
transceiver. The calls of the manager to its transceivers are part of this freedom.

The two contracts are correct by themselves, but neither knows where a vote comes from: the manager
takes the transceiver's word, and the transceiver keeps no votes. Together, the votes of the
transceiver are its receipts, one for one and in order, also while calls are suspended.

## Main results

* `Endpoint.sound`: the invariant of the system, with the two histories and the agreement of votes
  and receipts.
* `Endpoint.votes_authentic`: where the votes of the transceiver come from.
-/

namespace Ntt

open Reentrant

/-- A manager and a transceiver that was deployed for it. -/
structure Endpoint where
  manager : NttManager
  transceiver : WormholeTransceiver
  nttManager_eq : transceiver.nttManager = manager.this

namespace Endpoint

variable (P : Endpoint)

/-- The storages of both. -/
abbrev State : Type := Ntt.State × WormholeTransceiver.State

/-- The calls of the transceiver that the manager answers, in the block of a call. -/
def callee (ctx : Context) :
    (y : TransceiverExt) → Option (Prog managerInterface Ntt.State Error y.Reply)
  | .attestationReceived chain source m =>
      some (P.manager.body ⟨P.transceiver.this, 0, ctx.timestamp, ctx.chainid⟩
        (.attestationReceived chain source m))
  | _ => none

/-- Both contracts as one machine. -/
def contract : Contract (managerInterface.sum transceiverInterface) State Error :=
  P.manager.contract.link P.transceiver.contract fun e => P.callee e.1

/-- Anybody calls both at any time; only the transceiver calls the manager as the transceiver. -/
def environment (verified : Bytes → VM → Prop) :
    Environment (managerInterface.sum transceiverInterface) State P.contract.Entry where
  toWorld := NttManager.Rules.any.world.sum (WormholeTransceiver.world verified)
  admits _ := Sum.elim (fun e => e.1.sender ≠ P.transceiver.this) fun _ => True

/-- The receipts of the transceiver are its votes at the manager. -/
def Agree (p : State) : Prop :=
  List.Forall₂ (fun r v => WormholeTransceiver.Receipt.Carries P.transceiver r v.sourceChainId
    v.sourceNttManagerAddress v.message) p.2.receipts (p.1.votesBy P.transceiver.this)

/-- The system is in order wherever control changes hands. -/
def safety (verified : Bytes → VM → Prop) (owner : Address) (limit : RateLimitParams)
    (owner' : Address) : Rely (managerInterface.sum transceiverInterface) State :=
  (P.manager.safety NttManager.Rules.any (.initial owner limit)).joint
    (P.transceiver.safety verified (.initial owner')) P.Agree

/-! ### Weakest preconditions of the primitives -/

section

variable {Z : Interface} {ρ : Type} {J : Rely Z ρ} {p : ρ} {ctx : Context}

section

variable {L : Part ρ Ntt.State} {h : (x : Ext) → Prog Z ρ Error x.Reply}

@[simp] theorem wp_inside_load {Q : Storage → ρ → Prop} :
    ((load.inside L h).run p).wp J Q ↔ Q (L.get p).storage p := by
  simp [load]

@[simp] theorem wp_inside_perform {a : Action} {Q : Unit → ρ → Prop} :
    (((perform ctx a).inside L h).run p).wp J Q ↔ Q () (L.set p ((L.get p).perform ctx a)) :=
  wp_inside_modify

end

variable {L : Part ρ WormholeTransceiver.State}
  {h : (y : TransceiverExt) → Prog Z ρ Error y.Reply}

@[simp] theorem wp_inside_transceiver_load {Q : WormholeTransceiver.Storage → ρ → Prop} :
    ((WormholeTransceiver.load.inside L h).run p).wp J Q ↔ Q (L.get p).storage p := by
  simp [WormholeTransceiver.load]

@[simp] theorem wp_inside_transceiver_perform {a : WormholeTransceiver.Action}
    {Q : Unit → ρ → Prop} :
    (((WormholeTransceiver.perform ctx a).inside L h).run p).wp J Q ↔
      Q () (L.set p ((L.get p).perform ctx a)) :=
  wp_inside_modify

theorem wp_inside_transceiver_external {y : TransceiverExt} {Q : y.Reply → ρ → Prop} :
    (((WormholeTransceiver.external y).inside L h).run p).wp J Q ↔ ((h y).run p).wp J Q :=
  wp_inside_call (X := transceiverInterface) (x := y)

end

variable {P} {verified : Bytes → VM → Prop} {owner owner' : Address} {limit : RateLimitParams}
  {ctx : Context} {p p₀ : State}

/-! ### The manager's part -/

theorem agree_of_votes {s s' : Ntt.State} {t : WormholeTransceiver.State}
    (h : s'.votesBy P.transceiver.this = s.votesBy P.transceiver.this) (ha : P.Agree (s, t)) :
    P.Agree (s', t) := by
  rwa [Agree, h]

theorem agree_of_receipts {s : Ntt.State} {t t' : WormholeTransceiver.State}
    (h : t'.receipts = t.receipts) (ha : P.Agree (s, t)) : P.Agree (s, t') := by
  rwa [Agree, h]

variable (p₀) in
/-- A program of the manager that does not vote for the transceiver. -/
theorem wp_toLeft {α : Type} {m : ManagerProg α} {Q : α → Ntt.State → Prop}
    (hm : NoVote P.transceiver.this m)
    (hwp : (m.run p.1).wp (P.manager.safety NttManager.Rules.any (.initial owner limit)) Q)
    (ht : (P.transceiver.safety verified (.initial owner')).inv p.2)
    (hr : (P.transceiver.safety verified (.initial owner')).rely p₀.2 p.2) (ha : P.Agree p) :
    (m.toLeft.run p).wp (P.safety verified owner limit owner') fun a p' =>
      Q a p'.1 ∧ (P.transceiver.safety verified (.initial owner')).inv p'.2 ∧
        (P.transceiver.safety verified (.initial owner')).rely p₀.2 p'.2 ∧ P.Agree p' := by
  refine Res.wp_inside (handles_toLeft (P.transceiver.safety_closed verified (.initial owner'))
    (fun _ _ _ => agree_of_votes) ?_ p₀.2) hwp (hm.run p.1) ⟨ht, hr, ha⟩
  rintro x s r s' - ⟨rfl, -⟩
  rfl

variable (p₀) in
/-- The transceiver hands over a message whose receipt is still without a vote. -/
theorem wp_vote {chain : UInt16} {source : Bytes32} {m : NttManagerMessage}
    (hs : (P.manager.safety NttManager.Rules.any (.initial owner limit)).inv p.1)
    (hrs : (P.manager.safety NttManager.Rules.any (.initial owner limit)).rely p₀.1 p.1)
    (ht : (P.transceiver.safety verified (.initial owner')).inv p.2)
    (hrt : (P.transceiver.safety verified (.initial owner')).rely p₀.2 p.2)
    (hpending : List.Forall₂ (fun r v => WormholeTransceiver.Receipt.Carries P.transceiver r
      v.sourceChainId v.sourceNttManagerAddress v.message) p.2.receipts
        (⟨chain, source, m⟩ :: p.1.votesBy P.transceiver.this)) :
    ((P.manager.body ⟨P.transceiver.this, 0, ctx.timestamp, ctx.chainid⟩
      (.attestationReceived chain source m)).toLeft.run p).wp (P.safety verified owner limit owner')
      fun _ p' => (P.safety verified owner limit owner').inv p' ∧
        (P.safety verified owner limit owner').rely p₀ p' := by
  let ctx' : Context := ⟨P.transceiver.this, 0, ctx.timestamp, ctx.chainid⟩
  simp only [NttManager.body, NttManager.attestationReceived, NttManager.verifyPeer,
    NttManager.recordTransceiverAttestation, onlyTransceiver, whenNotPaused, nonPayable,
    Prog.toLeft, wp_inside_bind, wp_inside_load, wp_inside_revertIf, wp_inside_perform,
    monadLift_eq_liftExcept, wp_inside_liftExcept, wp_inside_pure, wp_inside_ite, not_not,
    Bool.not_eq_false, Part.fst_get, Part.fst_set]
  intro _ henabled hp hpeer digest hdigest hvote
  have ha : P.manager.Permitted NttManager.Rules.any ctx' p.1.storage p.1.log
      (.attest chain source m digest (p.1.storage.registry.index ctx'.sender)) :=
    ⟨trivial, henabled, rfl, Bool.not_eq_true _ ▸ hp, hpeer, hdigest,
      fun h => Bitmap.and_bit_ne_zero.mpr h hvote⟩
  obtain ⟨hi, hr⟩ := NttManager.perform_ok hs hrs ha rfl
  have hvotes : (p.1.perform ctx' (.attest chain source m digest
      (p.1.storage.registry.index ctx'.sender))).votesBy P.transceiver.this =
      ⟨chain, source, m⟩ :: p.1.votesBy P.transceiver.this := State.votesBy_attest
  have hagree : P.Agree (p.1.perform ctx' (.attest chain source m digest
      (p.1.storage.registry.index ctx'.sender)), p.2) := by
    rw [← hvotes] at hpending
    exact hpending
  refine ⟨fun _ => ?_, fun _ => ⟨⟨hi, ht, hagree⟩, hr, hrt⟩⟩
  -- the message is executed, which votes for nothing
  have hexecute : ((P.manager.executeMsg ctx' chain source m).run (p.1.perform ctx'
      (.attest chain source m digest (p.1.storage.registry.index ctx'.sender)))).wp
        (P.manager.safety NttManager.Rules.any (.initial owner limit)) _ :=
    NttManager.executeMsg_ok hi hr fun _ _ => .inl trivial
  exact Res.wp_mono (fun _ p' h => ⟨⟨h.1.1, h.2.1, h.2.2.2⟩, h.1.2, h.2.2.1⟩)
    (wp_toLeft p₀ (NttManager.noVote_executeMsg _ _ _) hexecute ht hrt hagree)

/-! ### The transceiver's part -/

variable (p₀) in
/-- The transceiver parses what it has received, and hands it to the manager. -/
theorem wp_deliverPayload {chain : UInt16} {payload : Bytes} {r : WormholeTransceiver.Receipt}
    {rs : List WormholeTransceiver.Receipt}
    (hs : (P.manager.safety NttManager.Rules.any (.initial owner limit)).inv p.1)
    (hrs : (P.manager.safety NttManager.Rules.any (.initial owner limit)).rely p₀.1 p.1)
    (ht : (P.transceiver.safety verified (.initial owner')).inv p.2)
    (hrt : (P.transceiver.safety verified (.initial owner')).rely p₀.2 p.2)
    (hreceipts : p.2.receipts = r :: rs) (hchain : r.chain = chain) (hpayload : r.payload = payload)
    (hbefore : List.Forall₂ (fun r v => WormholeTransceiver.Receipt.Carries P.transceiver r
      v.sourceChainId v.sourceNttManagerAddress v.message) rs (p.1.votesBy P.transceiver.this)) :
    (((P.transceiver.deliverPayload chain payload).linked (P.callee ctx)).run p).wp
      (P.safety verified owner limit owner') fun _ p' =>
        (P.safety verified owner limit owner').inv p' ∧
          (P.safety verified owner limit owner').rely p₀ p' := by
  simp only [WormholeTransceiver.deliverPayload, WormholeTransceiver.deliverToNttManager,
    Prog.linked, wp_inside_bind, monadLift_eq_liftExcept, wp_inside_liftExcept,
    wp_inside_revertIf, wp_inside_transceiver_external, wp_inside_pure, not_not]
  rintro ⟨t, m⟩ hparse hrecipient
  have hcarries : WormholeTransceiver.Receipt.Carries P.transceiver r chain
      t.sourceNttManagerAddress m := ⟨hchain, t, hpayload ▸ hparse, rfl, hrecipient⟩
  exact wp_vote p₀ hs hrs ht hrt (hreceipts ▸ .cons hcarries hbefore)

theorem receiveMessage_guarantee {encoded : Bytes} (hp : (P.safety verified owner limit owner').inv p) :
    Guarantee (P.safety verified owner limit owner') p
      (((P.transceiver.body ctx (.receiveMessage encoded)).linked (P.callee ctx)).run p) := by
  obtain ⟨hs, ht, hagree⟩ := hp
  simp only [Guarantee, WormholeTransceiver.body, WormholeTransceiver.receiveMessage,
    WormholeTransceiver.verifyMessage, WormholeTransceiver.nonPayable, Prog.linked, wp_inside_bind,
    wp_inside_revertIf, wp_inside_transceiver_external, not_not]
  intro _
  -- core answers at once
  refine (wp_callRight_closed rfl).mpr ?_
  rintro ⟨vm, valid, reason⟩ ⟨s, t⟩ ⟨⟨rfl, hverified⟩, rfl⟩
  simp only [wp_inside_bind, wp_inside_revertIf, wp_inside_transceiver_load,
    wp_inside_transceiver_perform, wp_inside_pure, not_not]
  intro hvalid hfork hpeer hnew
  have ha : P.transceiver.Permitted verified ctx p.2.storage (.consumeVaa vm) :=
    ⟨⟨encoded, hverified (Bool.not_eq_false _ ▸ hvalid)⟩, hfork, hpeer, Bool.not_eq_true _ ▸ hnew⟩
  obtain ⟨ht', hrt⟩ := WormholeTransceiver.perform_ok ht
    ((P.transceiver.safety_closed verified (.initial owner')).refl _) ha (by simp)
  exact wp_deliverPayload p hs
    ((P.manager.safety_closed NttManager.Rules.any (.initial owner limit)).refl _) ht' hrt rfl rfl rfl
    hagree

theorem receiveWormholeMessages_guarantee {payload : Bytes} {additional : List Bytes}
    {source : Bytes32} {chain : UInt16} {hash : Bytes32}
    (hp : (P.safety verified owner limit owner').inv p) :
    Guarantee (P.safety verified owner limit owner') p
      (((P.transceiver.body ctx (.receiveWormholeMessages payload additional source chain
        hash)).linked (P.callee ctx)).run p) := by
  obtain ⟨hs, ht, hagree⟩ := hp
  simp only [Guarantee, WormholeTransceiver.body, WormholeTransceiver.receiveWormholeMessages,
    WormholeTransceiver.onlyRelayer, Prog.linked, wp_inside_bind, wp_inside_revertIf,
    wp_inside_transceiver_load, wp_inside_transceiver_perform, not_not, not_lt]
  intro hsender hpeer hnew _
  have ha : P.transceiver.Permitted verified ctx p.2.storage
      (.consumeDelivery payload source chain hash) :=
    ⟨hsender, hpeer, Bool.not_eq_true _ ▸ hnew⟩
  obtain ⟨ht', hrt⟩ := WormholeTransceiver.perform_ok ht
    ((P.transceiver.safety_closed verified (.initial owner')).refl _) ha (by simp)
  exact wp_deliverPayload p hs
    ((P.manager.safety_closed NttManager.Rules.any (.initial owner limit)).refl _) ht' hrt rfl rfl rfl
    hagree

/-! ### Soundness -/

/-- A call that is not to the manager is answered outside of the system. -/
theorem callee_of_abroad {y : TransceiverExt} (h : WormholeTransceiver.Abroad y) :
    P.callee ctx y = none := by
  cases y <;> first | rfl | cases h

/-- Every call of either contract meets its guarantee. -/
theorem sound : Sound P.contract (P.environment verified)
    (P.safety verified owner limit owner') := by
  refine ⟨rfl, ?_⟩
  rintro (⟨ctx, call⟩ | ⟨ctx, call⟩) p hadm hp
  · have hsound : Sound P.manager.contract NttManager.Rules.any.environment
        (P.manager.safety .any (.initial owner limit)) := NttManager.sound
    have hmanager := hsound.2 (ctx, call) p.1 trivial hp.1
    refine guarantee_toLeft (P.transceiver.safety_closed verified (.initial owner'))
      (fun _ _ _ => agree_of_votes) ?_ (NttManager.leaves_body hadm call) hp hmanager
    rintro x s r s' - ⟨rfl, -⟩
    rfl
  · cases hcall : call.receives with
    | true =>
        cases call with
        | receiveMessage encoded => exact receiveMessage_guarantee hp
        | receiveWormholeMessages => exact receiveWormholeMessages_guarantee hp
        | _ => cases hcall
    | false =>
        refine guarantee_linked (P.manager.safety_closed .any (.initial owner limit))
          (fun _ _ _ => agree_of_receipts) ?_
          ((P.transceiver.leaves_body hcall).mono (fun _ => callee_of_abroad) fun _ _ h => h) hp
          (WormholeTransceiver.body_guarantee hcall hp.2.1)
        rintro y t r t' - ⟨rfl, -⟩
        rfl

/-! ### A deployment -/

/-- The sample manager with its transceiver. -/
def sample : Endpoint where
  manager := .sample fun _ => NttManager.sampleDigest
  transceiver :=
    { this := 0x71, nttManager := 0x1000, nttManagerToken := 0x2000, consistencyLevel := 1
      wormholeRelayer := 0x81, evmChainId := 1, gasLimit := 500000, bytes := .reference
      asBoolUnchecked := fun _ offset => .ok (false, offset + 1)
      toWormholeFormat := NttManager.padAddress, fromWormholeFormat := NttManager.unpadAddress }
  nttManager_eq := rfl

/-- The payload of the sample message, from the manager `0x1234`. -/
def samplePayload : Except Error Bytes := do
  let encoded ← encodeNttManagerMessage NttManager.sampleMessage
  encodeTransceiverMessage WH_TRANSCEIVER_PAYLOAD_PREFIX
    ⟨0x1234, NttManager.padAddress 0x1000, encoded, []⟩

/-- A VAA with this payload, from the emitter `0x99` on chain 4. -/
def sampleVm : VM := ⟨4, 0x99, 0, (samplePayload.toOption).getD [], 0x77⟩

/-- Simple answers: core takes everything for this VAA. -/
def respond : (x : (managerInterface.sum transceiverInterface).Ext) → State → Unit →
    Except Error ((managerInterface.sum transceiverInterface).Reply x × State × Unit)
  | .inl .tokenDecimals, p, _ => .ok ((18 : UInt8), p, ())
  | .inl (.safeTransfer _ _), p, _ => .ok ((), p, ())
  | .inr (.publishMessage ..), p, _ => .ok ((), p, ())
  | .inr (.parseAndVerifyVM _), p, _ => .ok ((sampleVm, true, ""), p, ())
  | _, _, _ => .error .external

/-- The owner registers the transceiver and the peers, and the VAA is received. -/
def sampleCalls : List (Context × NttManager.Call ⊕ Context × WormholeTransceiver.Call) :=
  [.inl (NttManager.sampleContext 0xA, .setTransceiver 0x71),
    .inl (NttManager.sampleContext 0xA, .setPeer 4 0x1234 18 (10 ^ 18)),
    .inr (NttManager.sampleContext 0xA, .setWormholePeer 4 0x99),
    .inr (NttManager.sampleContext 0xB, .receiveMessage [])]

/-- The sample before any call. -/
def sampleStart : State := (NttManager.sampleState, ⟨.initial 0xA, []⟩)

theorem answers_respond : Answers (X := managerInterface.sum transceiverInterface)
    (sample.environment fun _ vm => vm = sampleVm).toWorld respond := by
  rintro (x | y) p k r p' k' h
  · cases x with
    | tokenDecimals =>
        cases h
        exact ⟨⟨rfl, trivial⟩, rfl⟩
    | safeTransfer =>
        cases h
        exact ⟨trivial, rfl⟩
    | _ => cases h
  · cases y with
    | parseAndVerifyVM =>
        cases h
        exact ⟨⟨rfl, fun _ => rfl⟩, rfl⟩
    | publishMessage =>
        cases h
        exact ⟨trivial, rfl⟩
    | _ => cases h

/-- The sample message is received, voted for and executed. -/
theorem sample_run : ∃ p : State,
    Reachable sample.contract (sample.environment fun _ vm => vm = sampleVm) sampleStart ⟨p, []⟩ ∧
    (p.1.log.any (fun e => e.act.executes 4 0x1234 NttManager.sampleMessage
        NttManager.sampleDigest &&
        decide ((e.pre.registry.enabledTransceivers.erase 0x71).length <
          e.pre.quorum.threshold.toNat)) &&
      (p.1.log.all fun e => e.act.about == none || e.act.about ==
        some (4, NttManager.sampleMessage)) && p.2.receipts.length == 1) = true := by
  obtain ⟨p, hp, hcheck⟩ := exists_of_any
    (x := sample.contract.drive respond sampleCalls sampleStart ()) (p := fun p : State =>
      p.1.log.any (fun e => e.act.executes 4 0x1234 NttManager.sampleMessage
        NttManager.sampleDigest &&
        decide ((e.pre.registry.enabledTransceivers.erase 0x71).length <
          e.pre.quorum.threshold.toNat)) &&
      (p.1.log.all fun e => e.act.about == none || e.act.about ==
        some (4, NttManager.sampleMessage)) && p.2.receipts.length == 1) (by decide +kernel)
  have hadm : ∀ q, ∀ e ∈ sampleCalls, (sample.environment fun _ vm => vm = sampleVm).admits q e := by
    intro q e he
    simp only [sampleCalls, List.mem_cons, List.not_mem_nil, or_false] at he
    rcases he with rfl | rfl | rfl | rfl
    · exact (by decide : (0xA : Address) ≠ 0x71)
    · exact (by decide : (0xA : Address) ≠ 0x71)
    · trivial
    · trivial
  exact ⟨p, Reachable.drive answers_respond hadm .refl hp, hcheck⟩

/-! ### Where votes come from -/

section

variable {token : Ledger} {c : Config (managerInterface.sum transceiverInterface) State Error}

/-- The system is in order in every reachable configuration. -/
theorem inv_of_reachable (h : Reachable P.contract (P.environment verified)
    (⟨.initial owner limit, token, []⟩, ⟨.initial owner', []⟩) c) :
    (P.safety verified owner limit owner').inv c.st := by
  have hclosed : (P.safety verified owner limit owner').Closed :=
    Rely.joint_closed (P.manager.safety_closed .any (.initial owner limit))
      (P.transceiver.safety_closed verified (.initial owner')) P.Agree
  have hinit : (P.safety verified owner limit owner').inv
      (⟨.initial owner limit, token, []⟩, ⟨.initial owner', []⟩) := ⟨.nil, .nil, .nil⟩
  exact h.inv hclosed sound hinit

/-- The vote of a transceiver is one of its votes. -/
theorem mem_votesBy {log : List LogEntry} {e : LogEntry} (he : e ∈ log) {chain : UInt16}
    {source digest : Bytes32} {m : NttManagerMessage} {index : UInt8}
    (hact : e.act = .attest chain source m digest index) :
    ⟨chain, source, m⟩ ∈ votesBy e.ctx.sender log :=
  List.mem_filterMap.mpr ⟨e, he, by simp [hact, Action.vote]⟩

/-- In a list of receipts that agrees with votes, every vote has its receipt. -/
theorem exists_receipt {rs : List WormholeTransceiver.Receipt} {vs : List Vote}
    {R : WormholeTransceiver.Receipt → Vote → Prop} (h : List.Forall₂ R rs vs) {v : Vote}
    (hv : v ∈ vs) : ∃ r ∈ rs, R r v := by
  induction h with
  | nil => cases hv
  | @cons r v' rs vs hr _ ih =>
      rcases List.mem_cons.mp hv with rfl | hv
      · exact ⟨r, List.mem_cons_self, hr⟩
      · obtain ⟨r', hr', h'⟩ := ih hv
        exact ⟨r', List.mem_cons_of_mem _ hr', h'⟩

end

end Endpoint

end Ntt
