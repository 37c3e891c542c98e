import Ntt.Evm.Governance

/-!
# Governance Calls Are Made Once

A governance call may go anywhere, the governance contract included, while the call that made it
waits. The hash of the VAA is consumed before, in the same step, so no nested call gets past the
replay protection; and when the call fails, the mark goes with everything else that happened since.

## Main results

* `Governed`: the calls that were made have distinct hashes, which are the consumed ones, and each
  was authorised.
* `wp_performGovernance`: a call keeps this, whatever happens in the meantime.
* `WaitsForCall`: what a suspended call waits for, and that it is undone when that fails.
* `governance_executes_once`: every run, and the format of the messages.
-/

namespace Ntt.Governance

open Reentrant

/-! ### What is authorised -/

/-- A governance call was authorised: its VAA verified, was emitted by the governance emitter of
core, and its message names the call, this chain and this contract. -/
structure Execution.Authorised (G : Governance) (core : Core) (e : Execution) : Prop where
  verified : ∃ encodedVM, core.verifies encodedVM e.vm
  emitterChain : e.vm.emitterChainId = core.governanceChainId
  emitter : e.vm.emitterAddress = core.governanceContract
  parsed : parseGeneralPurposeGovernanceMessage G.bytes e.vm.payload = .ok e.message
  action : e.message.action = GovernanceAction.EVM_CALL.toUInt8
  chain : e.message.chain = core.chainId
  contract : e.message.governanceContract = G.this

/-- Since an initial state, every hash was executed at most once and only if it was not consumed
yet; exactly those are consumed now that were so before or were executed; and what was executed was
authorised. -/
structure Governed (G : Governance) (core : Core) (init s : State) : Prop where
  once : (s.executed.map fun e => e.vm.hash).Nodup
  fresh : ∀ e ∈ s.executed, init.consumedGovernanceActions e.vm.hash = false
  consumed : ∀ digest, s.consumedGovernanceActions digest = true ↔
    init.consumedGovernanceActions digest = true ∨ digest ∈ s.executed.map fun e => e.vm.hash
  authorised : ∀ e ∈ s.executed, e.Authorised G core

variable {G : Governance} {core : Core} {init s : State}

theorem Governed.initial (h : init.executed = []) : Governed G core init init where
  once := by rw [h]; exact List.nodup_nil
  fresh := by rw [h]; exact List.forall_mem_nil _
  consumed digest := by simp [h]
  authorised := by rw [h]; exact List.forall_mem_nil _

/-- A hash that is not consumed yet is consumed and executed. -/
theorem Governed.execute (h : Governed G core init s) {e : Execution} (he : e.Authorised G core)
    (hfresh : s.consumedGovernanceActions e.vm.hash ≠ true) :
    Governed G core init ((s.consume e.vm.hash).execute e) where
  once := by
    refine List.nodup_cons.mpr ⟨fun hmem => ?_, h.once⟩
    exact hfresh ((h.consumed _).mpr (.inr hmem))
  fresh := by
    refine List.forall_mem_cons.mpr ⟨?_, h.fresh⟩
    exact Bool.eq_false_iff.mpr fun hinit => hfresh ((h.consumed _).mpr (.inl hinit))
  consumed digest := by
    change Function.update s.consumedGovernanceActions e.vm.hash true digest = true ↔
      init.consumedGovernanceActions digest = true ∨
        digest ∈ e.vm.hash :: s.executed.map fun e => e.vm.hash
    by_cases hd : digest = e.vm.hash
    · simp [hd]
    · rw [Function.update_of_ne hd, h.consumed, List.mem_cons]
      simp [hd]
  authorised := List.forall_mem_cons.mpr ⟨he, h.authorised⟩

/-! ### Nested calls -/

/-- Nested calls add to the calls that were made. -/
def governing (G : Governance) (core : Core) (init : State) : Rely governanceInterface State where
  toWorld := core.world
  inv s := Governed G core init s
  rely s s' := s.executed <:+ s'.executed

theorem governing_closed : (governing G core init).Closed where
  refl _ := List.suffix_rfl
  trans h h' := h.trans h'

/-- What core verifies is a VAA. -/
theorem wp_parseAndVerifyVM {encodedVM : Bytes} {Q : VM × Bool × String → State → Prop}
    (h : ∀ vm valid reason, (valid = true → core.verifies encodedVM vm) →
      Q (vm, valid, reason) s) :
    ((parseAndVerifyVM encodedVM).run s).wp (governing G core init) Q := by
  refine (wp_call_closed rfl s).mpr ?_
  rintro ⟨vm, valid, reason⟩ s' ⟨rfl, hverifies⟩
  exact h vm valid reason hverifies

@[simp] theorem wp_governanceChainId {Q : UInt16 → State → Prop} :
    (governanceChainId.run s).wp (governing G core init) Q ↔ Q core.governanceChainId s :=
  (wp_call_closed rfl s).trans ⟨fun h => h _ _ ⟨rfl, rfl⟩, fun h _ _ ⟨hs, hr⟩ => hs ▸ hr ▸ h⟩

@[simp] theorem wp_governanceContract {Q : Bytes32 → State → Prop} :
    (governanceContract.run s).wp (governing G core init) Q ↔ Q core.governanceContract s :=
  (wp_call_closed rfl s).trans ⟨fun h => h _ _ ⟨rfl, rfl⟩, fun h _ _ ⟨hs, hr⟩ => hs ▸ hr ▸ h⟩

@[simp] theorem wp_chainId {Q : UInt16 → State → Prop} :
    (chainId.run s).wp (governing G core init) Q ↔ Q core.chainId s :=
  (wp_call_closed rfl s).trans ⟨fun h => h _ _ ⟨rfl, rfl⟩, fun h _ _ ⟨hs, hr⟩ => hs ▸ hr ▸ h⟩

/-- What a verified VAA is. -/
theorem wp_verifyGovernanceVAA {encodedVM : Bytes} {Q : VM → State → Prop}
    (h : ∀ vm, core.verifies encodedVM vm → vm.emitterChainId = core.governanceChainId →
      vm.emitterAddress = core.governanceContract →
      s.consumedGovernanceActions vm.hash ≠ true → Q vm (s.consume vm.hash)) :
    ((_verifyGovernanceVAA encodedVM).run s).wp (governing G core init) Q := by
  rw [_verifyGovernanceVAA, run_bind, Res.wp_bind]
  refine wp_parseAndVerifyVM fun vm valid reason hverifies => ?_
  simp only [_replayProtect, run_bind, Res.wp_bind, wp_revertIf, wp_governanceChainId,
    wp_governanceContract, wp_get, wp_modify, run_pure, wp_ret]
  intro hvalid hchain hemitter hfresh
  exact h vm (hverifies (Bool.eq_true_of_not_eq_false hvalid)) (not_not.mp hchain)
    (not_not.mp hemitter) hfresh

/-- **One call.** -/
theorem wp_performGovernance (ctx : Context) (vaa : Bytes) (h : Governed G core init s) :
    ((G.performGovernance ctx vaa).run s).wp (governing G core init) fun _ s' =>
      Governed G core init s' ∧ s.executed <:+ s'.executed := by
  rw [performGovernance, run_bind, Res.wp_bind, wp_revertIf]
  intro _
  rw [run_bind, Res.wp_bind]
  refine wp_verifyGovernanceVAA fun vm hverifies hchain hemitter hfresh => ?_
  simp only [run_bind, Res.wp_bind, wp_revertIf, wp_chainId, wp_modify, monadLift_eq_liftExcept,
    wp_liftExcept]
  intro message hparsed haction hmessage hthis
  have hauthorised : Execution.Authorised G core ⟨vm, message⟩ :=
    ⟨⟨vaa, hverifies⟩, hchain, hemitter, hparsed, not_not.mp haction, not_not.mp hmessage,
      not_not.mp hthis⟩
  have hgoverned := h.execute hauthorised hfresh
  refine (wp_call_open rfl _).mpr ⟨hgoverned, ?_⟩
  rintro ⟨success, returnData⟩ s' - hs' hsuffix
  exact fun _ => ⟨hs', (List.suffix_cons _ _).trans hsuffix⟩

theorem sound : Sound G.contract (core.environment G) (governing G core init) :=
  ⟨rfl, fun e _ _ h => wp_performGovernance e.1 e.2 h⟩

/-! ### What suspended calls wait for -/

/-- A suspended call waits for a governance call. It reverts when that fails, and has nothing left
to do when it succeeds. -/
def AwaitsCall : (x : GovernanceExt) →
    (x.Reply → State → Res governanceInterface State GovernanceError Unit) → Prop
  | .call .., k => ∀ (success : Bool) (returnData : Bytes) s,
      k (success, returnData) s =
        if success = false then .revert (.callFailed returnData) else .ret () s
  | _, _ => False

theorem stopsIn_performGovernance (ctx : Context) (vaa : Bytes) :
    StopsIn core.world AwaitsCall ((G.performGovernance ctx vaa).run s) := by
  rw [performGovernance, run_bind]
  refine .bind_revertIf fun _ => ?_
  simp only [_verifyGovernanceVAA, _replayProtect, run_bind, Res.bind_assoc, run_get, run_modify,
    run_pure, Res.bind_ret, monadLift_eq_liftExcept]
  refine .call_closed rfl fun r _ => ?_
  obtain ⟨vm, valid, reason⟩ := r
  refine .bind_revertIf fun _ => ?_
  refine .call_closed rfl fun (governanceChainId : UInt16) _ => .bind_revertIf fun _ => ?_
  refine .call_closed rfl fun (governanceContract : Bytes32) _ => .bind_revertIf fun _ => ?_
  refine .bind_revertIf fun _ => .bind_liftExcept fun message => .bind_revertIf fun _ => ?_
  refine .call_closed rfl fun (chainId : UInt16) _ => .bind_revertIf fun _ => ?_
  refine .bind_revertIf fun _ => ?_
  exact .call_open rfl fun success returnData s => rfl

/-- What is left of a suspended call makes no further calls. -/
theorem AwaitsCall.stopsIn {x : GovernanceExt}
    {k : x.Reply → State → Res governanceInterface State GovernanceError Unit}
    (h : AwaitsCall x k) (r : x.Reply) : StopsIn core.world AwaitsCall (k r s) := by
  cases x with
  | call =>
      obtain ⟨success, returnData⟩ := r
      rw [h success returnData s]
      split
      · exact .revert _
      · exact .ret
  | parseAndVerifyVM | governanceChainId | governanceContract | chainId => exact h.elim

/-! ### Every run -/

/-- **Governance calls are made once.** In every configuration of every run the calls that were made
are in order, and suspended calls wait for a governance call. When that fails, the call leaves what
was before it. Between transactions, what was executed stays so. The parser of the messages accepts
exactly the encodings, and of an encoding neither a part nor more. -/
theorem governance_executes_once (hP : G.bytes.Advancing) (hinit : init.executed = []) :
    (∀ c, Reachable G.contract (core.environment G) init c →
      Governed G core init c.st ∧ (∀ f ∈ c.stack, AwaitsCall f.ext f.resume) ∧
      (∀ saved governedContract callData k fs s,
        c = ⟨s, ⟨saved, .call governedContract callData, k⟩ :: fs⟩ → ∀ returnData o,
        Runs core.world (k (false, returnData) s) o → settle saved fs o = ⟨saved, fs⟩) ∧
      (c.stack = [] → ∀ d, Relation.ReflTransGen (Step G.contract (core.environment G)) c d →
        d.stack = [] → c.st.executed <:+ d.st.executed)) ∧
    (∀ m b, parseGeneralPurposeGovernanceMessage G.bytes b = .ok m ↔
      encodeGeneralPurposeGovernanceMessage m = .ok b) ∧
    (∀ m, m.callData.length > 65535 →
      encodeGeneralPurposeGovernanceMessage m = .error (.payloadTooLong m.callData.length)) ∧
    (∀ m m' b b', encodeGeneralPurposeGovernanceMessage m = .ok b → b <+: b' ∨ b' <+: b → b ≠ b' →
      parseGeneralPurposeGovernanceMessage G.bytes b' ≠ .ok m') := by
  refine ⟨fun c h => ?_, fun m b => parseGeneralPurposeGovernanceMessage_eq_ok hP, fun m hm => ?_,
    fun m m' b b' => parse_prefix_error hP⟩
  · have hgoverned : Governed G core init c.st := h.inv governing_closed sound (.initial hinit)
    have hframes : ∀ f ∈ c.stack, AwaitsCall f.ext f.resume :=
      h.forall_frames (fun (e : Context × Bytes) _ => stopsIn_performGovernance e.1 e.2)
        fun _ _ hk r _ => hk.stopsIn r
    refine ⟨hgoverned, hframes, ?_, fun hidle d hd hidle' => ?_⟩
    · rintro saved governedContract callData k fs s rfl returnData o hrun
      have hk := (List.forall_mem_cons.mp hframes).1 false returnData s
      rw [show k (false, returnData) s = .revert (.callFailed returnData) from hk] at hrun
      cases hrun
      rfl
    · obtain ⟨s, stack⟩ := c
      obtain rfl : stack = [] := hidle
      exact Reachable.rely_of_idle governing_closed sound hgoverned hd hidle'
  · exact if_pos hm

/-! ### A governance call -/

/-- A VAA for a call of the contract `0x600D`, on chain 2. -/
def sampleMessage : GeneralPurposeGovernanceMessage where
  action := 1
  chain := 2
  governanceContract := 0x60F
  governedContract := 0x600D
  callData := [0xBE, 0xEF]

def samplePayload : Bytes :=
  packBytes32 MODULE ++ packUint8 1 ++ packUint16 2 ++ packAddress 0x60F ++ packAddress 0x600D ++
    packUint16 2 ++ [0xBE, 0xEF]

def sampleVM : VM := ⟨1, 4, 0, samplePayload, 0xD1⟩

/-- Core verifies one VAA. -/
def sampleCore : Core where
  verifies encodedVM vm := encodedVM = [1] ∧ vm = sampleVM
  chainId := 2
  governanceChainId := 1
  governanceContract := 4

def sampleGovernance : Governance := ⟨0x60F, .reference⟩

def sampleState : State := ⟨fun _ => false, []⟩

/-- Core answers, and governance calls succeed. -/
def succeeding (x : GovernanceExt) (s : State) (_ : Unit) :
    Except GovernanceError (x.Reply × State × Unit) :=
  match x with
  | .parseAndVerifyVM encodedVM => .ok ((sampleVM, encodedVM == [1], "unknown"), s, ())
  | .governanceChainId => .ok ((1 : UInt16), s, ())
  | .governanceContract => .ok ((4 : Bytes32), s, ())
  | .chainId => .ok ((2 : UInt16), s, ())
  | .call .. => .ok ((true, []), s, ())

theorem answers_succeeding :
    Answers (sampleCore.environment sampleGovernance).toWorld succeeding := by
  intro x s _ r s' _ h
  cases x with
  | parseAndVerifyVM encodedVM =>
      obtain ⟨rfl, rfl, -⟩ := Except.ok.inj h
      exact ⟨rfl, fun hvalid => ⟨eq_of_beq hvalid, rfl⟩⟩
  | governanceChainId | governanceContract | chainId =>
      obtain ⟨rfl, rfl, -⟩ := Except.ok.inj h
      exact ⟨rfl, rfl⟩
  | call =>
      obtain ⟨rfl, rfl, -⟩ := Except.ok.inj h
      exact ⟨trivial, rfl⟩

/-- It is executed once, and its hash is consumed. -/
theorem sample_executes_once :
    ∃ c, Reachable sampleGovernance.contract (sampleCore.environment sampleGovernance)
        sampleState c ∧
      Governed sampleGovernance sampleCore sampleState c.st ∧
      c.st.executed = [⟨sampleVM, sampleMessage⟩] := by
  obtain ⟨s, hs, hp⟩ := exists_of_any (x := sampleGovernance.contract.drive succeeding
    [(⟨0x5000, 0, 1000, 1⟩, [1])] sampleState ())
    (p := fun s => s.executed == [⟨sampleVM, sampleMessage⟩]) (by decide +kernel)
  have hreach : Reachable sampleGovernance.contract (sampleCore.environment sampleGovernance)
      sampleState ⟨s, []⟩ := Reachable.drive_call answers_succeeding .refl trivial hs
  have hgoverned := ((governance_executes_once AddressParsing.reference_advancing rfl).1 _ hreach).1
  exact ⟨_, hreach, hgoverned, eq_of_beq hp⟩

end Ntt.Governance
