import Ntt.Evm.Actions
import Ntt.Evm.Books
import Ntt.Evm.Runs

/-!
# What a Pause Stops

Every entry point for transfers and votes starts with `whenNotPaused`; those of the owner and the
pauser do not. So once a manager is paused with no call pending, and until its owner ends the pause,
nothing goes on: no vote counts, nothing is sent, queued, executed, cancelled or paid out, however
calls are nested (`pause_holds`). A call that was pending when the manager was paused is not
stopped, which is why the theorem starts from a state with none.

## Main results

* `Halted`: what is the same since a manager was paused.
* `paused_sound`: every call keeps it so, or ends the pause as the owner.
* `pause_holds`: over whole runs.
-/

namespace Ntt

open Reentrant

namespace NttManager

variable (M : NttManager)

/-- A manager that was paused still is, and only set things up since. -/
structure Halted (s₀ s : State) (newer : List LogEntry) : Prop where
  paused : s.storage.paused = true
  admin : ∀ e ∈ newer, e.act.kind = .admin
  attestations : s.storage.messageAttestations = s₀.storage.messageAttestations
  sequence : s.storage.messageSequence = s₀.storage.messageSequence
  inbound : s.storage.inboundQueue = s₀.storage.inboundQueue
  outbound : s.storage.outboundQueue = s₀.storage.outboundQueue
  taken : s.token.taken = s₀.token.taken
  given : s.token.given = s₀.token.given
  held : s₀.token.balance M.this ≤ s.token.balance M.this

/-- The owner ended a pause. -/
def Resumed (newer : List LogEntry) : Prop :=
  ∃ e ∈ newer, e.act = .setPaused false ∧ e.pre.owner = e.ctx.sender

/-- Since a state, a manager is halted, or its owner ended the pause. -/
def StillPaused (s₀ s : State) : Prop :=
  ∃ newer, s.log = newer ++ s₀.log ∧ (Resumed newer ∨ M.Halted s₀ s newer)

/-- Since a state, its owner ended the pause. -/
def ResumedSince (s₀ s : State) : Prop := ∃ newer, s.log = newer ++ s₀.log ∧ Resumed newer

/-- The invariant of a pause. The log only gets longer. -/
def pausing (decimals : UInt8) (s₀ : State) : Rely managerInterface State where
  toWorld := M.tokenWorld decimals
  inv := M.StillPaused s₀
  rely s s' := s.log <:+ s'.log

theorem pausing_closed (decimals : UInt8) (s₀ : State) : (M.pausing decimals s₀).Closed where
  refl _ := List.suffix_rfl
  trans h h' := h.trans h'

variable {M} {decimals : UInt8} {s₀ s s' : State} {ctx : Context} {R : Rules}

/-! ### Once the pause has ended -/

theorem ResumedSince.mono (h : ResumedSince s₀ s) (hlog : s.log <:+ s'.log) :
    ResumedSince s₀ s' := by
  obtain ⟨newer, hs, e, he, hact⟩ := h
  obtain ⟨more, hmore⟩ := hlog
  refine ⟨more ++ newer, ?_, e, List.mem_append_right more he, hact⟩
  rw [← hmore, hs, List.append_assoc]

theorem ResumedSince.stillPaused (h : ResumedSince s₀ s) : M.StillPaused s₀ s := by
  obtain ⟨newer, hs, hresumed⟩ := h
  exact ⟨newer, hs, .inl hresumed⟩

/-- Calls do as they like. -/
theorem resumed_guarantee {call : Call} (h : ResumedSince s₀ s) :
    Guarantee (M.pausing decimals s₀) s ((M.body ctx call).run s) := by
  refine Res.wp_mono (fun _ _ h => ⟨h.1.stillPaused, h.2⟩)
    (((acts_body call).run s).wp (M.pausing_closed decimals s₀) (fun _ h => h.stillPaused)
      (fun _ _ h _ hlog => h.mono hlog) ?_ ?_ h List.suffix_rfl)
  · rintro s _ ⟨a, -, rfl⟩ h
    have hlog : s.log <:+ (s.perform ctx a).log := List.suffix_cons _ _
    exact ⟨h.mono hlog, hlog⟩
  · rintro x s r _ - - h ⟨l, -, rfl⟩
    exact ⟨h, List.suffix_rfl⟩

/-! ### While the pause lasts -/

/-- Setting something up keeps a manager halted. -/
theorem Halted.perform {newer : List LogEntry} (h : M.Halted s₀ s newer) {a : Action}
    (ha : a.kind = .admin) :
    M.Halted s₀ (s.perform ctx a) (⟨a, ctx, s.storage⟩ :: newer) := by
  have hadmin : ∀ e ∈ (⟨a, ctx, s.storage⟩ :: newer : List LogEntry), e.act.kind = .admin :=
    List.forall_mem_cons.mpr ⟨ha, h.admin⟩
  obtain ⟨hpaused, -, hattestations, hsequence, hin, hout, htaken, hgiven, hheld⟩ := h
  cases a with
  | setPaused paused =>
      cases paused with
      | true => exact ⟨rfl, hadmin, hattestations, hsequence, hin, hout, htaken, hgiven, hheld⟩
      | false => cases ha
  | quorum | setPeer | outboundLimit | inboundLimit | setPauser | setOwner =>
      exact ⟨hpaused, hadmin, hattestations, hsequence, hin, hout, htaken, hgiven, hheld⟩
  | _ => cases ha

theorem StillPaused.perform (h : M.StillPaused s₀ s) {a : Action} (ha : a.kind = .admin) :
    M.StillPaused s₀ (s.perform ctx a) := by
  obtain ⟨newer, hs, hresumed | hhalted⟩ := h
  · exact (ResumedSince.mono ⟨newer, hs, hresumed⟩ (List.suffix_cons _ _)).stillPaused
  · exact ⟨_ :: newer, congrArg (_ :: ·) hs, .inr (hhalted.perform ha)⟩

/-- Calls that set things up. -/
theorem admin_guarantee {call : Call} (hcall : call.kind = .admin) (h : M.StillPaused s₀ s) :
    Guarantee (M.pausing decimals s₀) s ((M.body ctx call).run s) := by
  refine (acts_body call).within (M.pausing_closed decimals s₀) ?_ ?_ s h
  · rintro s _ ⟨a, ha | ⟨hvote, -⟩, rfl⟩ h
    · exact ⟨h.perform (ha.trans hcall), List.suffix_cons _ _⟩
    · exact Kind.noConfusion (hcall.symm.trans hvote)
  · rintro x s r _ hx hclosed h ⟨l, heff, rfl⟩
    cases x with
    | tokenDecimals =>
        obtain ⟨-, rfl⟩ := heff
        exact ⟨h, List.suffix_rfl⟩
    | transferTransceiverOwnership => cases hclosed
    | _ => cases hx hcall

/-- The owner ends the pause. -/
theorem unpause_resumes (h : M.StillPaused s₀ s) :
    Guarantee (M.pausing decimals s₀) s ((unpause ctx).run s) := by
  simp only [Guarantee, unpause, run_bind, Res.wp_bind, wp_nonPayable, wp_onlyOwner, wp_load,
    wp_revertIf, wp_perform]
  intro _ howner _
  obtain ⟨newer, hs, -⟩ := h
  refine ⟨⟨_ :: newer, congrArg (_ :: ·) hs, .inl ?_⟩, List.suffix_cons _ _⟩
  exact ⟨_, List.mem_cons_self, rfl, howner⟩

/-- Everything else reverts. -/
theorem halted_guarantee {call : Call} (hcall : call.kind = .transfer ∨ call.kind = .vote)
    (hpaused : s.storage.paused = true) {E : Rely managerInterface State}
    {Q : Unit → State → Prop} : ((M.body ctx call).run s).wp E Q := by
  have hset : ((Action.setEntered true).apply s.storage).paused = true := hpaused
  cases call with
  | transfer | transferSimple | completeOutboundQueuedTransfer | completeInboundQueuedTransfer
  | cancelOutboundQueuedTransfer | executeMsg | attestationReceived =>
      simp [body, transfer, transferSimple, completeOutboundQueuedTransfer,
        completeInboundQueuedTransfer, cancelOutboundQueuedTransfer, executeMsg,
        attestationReceived, nonReentrant, hset, hpaused]
  | _ => obtain hkind | hkind := hcall <;> cases hkind

/-! ### Runs -/

/-- What the users of the token do leaves the manager's books alone, and what it holds. -/
theorem Halted.user {newer : List LogEntry} (h : M.Halted s₀ s newer) {op : TokenOp}
    (hop : M.Allows s.token op) : M.Halted s₀ (s.withToken (op.apply s.token)) newer := by
  obtain ⟨hpaused, hadmin, hattestations, hsequence, hin, hout, htaken, hgiven, hheld⟩ := h
  refine ⟨hpaused, hadmin, hattestations, hsequence, hin, hout, ?_, ?_, hheld.trans ?_⟩
  · cases op <;> exact htaken
  · cases op <;> exact hgiven
  · cases op with
    | move sender recipient amount => exact Ledger.le_balance_move hop.1.symm
    | burn account amount => simp [TokenOp.apply, Ledger.burn, hop.1.symm]
    | mint account amount =>
        by_cases h : M.this = account <;> simp [TokenOp.apply, Ledger.mint, h]

/-- Every call, and every user of the token, keeps the pause, or the owner ends it. -/
theorem paused_sound : Sound M.chain (M.chainEnvironment R decimals) (M.pausing decimals s₀) := by
  refine ⟨rfl, fun e s hadm hs => ?_⟩
  cases e with
  | user op =>
      obtain ⟨newer, hlog, hresumed | hhalted⟩ := hs
      · exact ⟨⟨newer, hlog, .inl hresumed⟩, List.suffix_rfl⟩
      · exact ⟨⟨newer, hlog, .inr (hhalted.user hadm)⟩, List.suffix_rfl⟩
  | call ctx call =>
      have hbody : Guarantee (M.pausing decimals s₀) s ((M.body ctx call).run s) := by
        cases hkind : call.kind with
        | admin => exact admin_guarantee hkind hs
        | resume =>
            cases call with
            | unpause => exact unpause_resumes hs
            | _ => cases hkind
        | transfer | vote =>
            obtain ⟨newer, hlog, hresumed | hhalted⟩ := hs
            · exact resumed_guarantee ⟨newer, hlog, hresumed⟩
            · exact halted_guarantee (by simp [hkind]) hhalted.paused
      exact hbody

/-- **A pause holds until the owner ends it**: in every run of a paused manager, with any calls,
nested or not, and any use of the token, either the log shows that the owner ended the pause, or
all that happened since is that things were set up. Then no vote was counted, no sequence handed
out and no queue touched, the manager pulled in and gave out no tokens, and it has no less than it
had. -/
theorem pause_holds (hpaused : s₀.storage.paused = true) {c : Config managerInterface State Error}
    (h : Reachable M.chain (M.chainEnvironment R decimals) s₀ c) :
    ∃ newer, c.st.log = newer ++ s₀.log ∧
      ((∃ e ∈ newer, e.act = .setPaused false ∧ e.pre.owner = e.ctx.sender) ∨
        M.Halted s₀ c.st newer) := by
  have hinit : M.StillPaused s₀ s₀ :=
    ⟨[], rfl, .inr ⟨hpaused, by simp, rfl, rfl, rfl, rfl, rfl, rfl, le_rfl⟩⟩
  exact Reachable.inv (M.pausing_closed decimals s₀) paused_sound hinit h

/-! ### A deployment -/

/-- The sample manager, paused. -/
def samplePaused : State := ⟨{ sampleState.storage with paused := true }, .empty, []⟩

/-- Calls to it: its owner registers a transceiver and a peer, and hands over the capability to
pause. -/
def sampleSetup : List Entry :=
  [.call (sampleContext 0xA) (.setTransceiver 0x71),
    .call (sampleContext 0xA) (.setPeer 4 (padAddress 0x1001) 6 1000000000000000000),
    .call (sampleContext 0xA) (.transferPauserCapability 0xB)]

/-- While the sample manager is paused, nothing but the setup is in its log. -/
theorem sample_pause_holds : ∃ s : State, s.log.length = 4 ∧ s.storage.pauser = 0xB ∧
    ∃ newer, s.log = newer ++ samplePaused.log ∧
      ((∃ e ∈ newer, e.act = .setPaused false ∧ e.pre.owner = e.ctx.sender) ∨
        (sample fun _ => sampleDigest).Halted samplePaused s newer) := by
  obtain ⟨s, hs, hp⟩ := exists_of_any (x := (sample fun _ => sampleDigest).chain.drive
    ((sample fun _ => sampleDigest).respondToken 18) sampleSetup samplePaused ())
    (p := fun s => s.log.length == 4 && s.storage.pauser == 0xB) (by decide +kernel)
  simp only [Bool.and_eq_true, beq_iff_eq] at hp
  have hadm : ∀ u, ∀ e ∈ sampleSetup,
      ((sample fun _ => sampleDigest).chainEnvironment Rules.any 18).admits u e := by
    intro u e he
    simp only [sampleSetup, List.mem_cons, List.not_mem_nil, or_false] at he
    rcases he with rfl | rfl | rfl <;> exact ⟨trivial, by decide⟩
  exact ⟨s, hp.1, hp.2, pause_holds rfl
    (Reachable.drive (answers_respondToken _ 18) hadm .refl hs)⟩

end NttManager

end Ntt
