import Mathlib.Data.Set.Function
import Ntt.Evm.Runs

/-!
# Approval Safety

A message is only executed on the votes of enough transceivers, each cast while the transceiver
was enabled, the manager not paused and the reported source manager the registered peer.

Votes are bits of a word kept for each digest, and outlive the enabling of their voters. What
ties a bit to a voter is that the registered list only grows: the transceiver at a position when
a vote was cast is the transceiver at that position ever after (`History.registered_prefix`,
`History.vote_of_bit`).

## Main results

* `executed_on_quorum`: the claim, for every reachable configuration.
-/

namespace Ntt

open Reentrant

/-- The message of a vote or an execution, with its source chain. -/
def Action.about : Action → Option (UInt16 × NttManagerMessage)
  | .attest chain _ m _ _ => some (chain, m)
  | .execute chain _ m _ => some (chain, m)
  | _ => none

/-- Whether an action executes a message for a source manager. -/
def Action.executes (chain : UInt16) (source : Bytes32) (m : NttManagerMessage)
    (digest : Bytes32) : Action → Bool
  | .execute chain' source' m' digest' =>
      chain' == chain && source' == source && m' == m && digest' == digest
  | _ => false

theorem Action.eq_of_executes {chain : UInt16} {source digest : Bytes32} {m : NttManagerMessage}
    {a : Action} (h : a.executes chain source m digest = true) :
    a = .execute chain source m digest := by
  cases a <;> simp_all [Action.executes]

/-- What was hashed for the votes and executions of a log. -/
def hashed (log : List LogEntry) : Set Bytes :=
  {b | ∃ e ∈ log, ∃ chain m encoded, e.act.about = some (chain, m) ∧
    encodeNttManagerMessage m = .ok encoded ∧ b = digestBytes chain encoded}

/-- No hash collides on a single message. -/
theorem injOn_hashed {log : List LogEntry} {chain : UInt16} {m : NttManagerMessage}
    {keccak256 : Bytes → Bytes32}
    (h : (log.all fun e => e.act.about == none || e.act.about == some (chain, m)) = true) :
    Set.InjOn keccak256 (hashed log) := by
  rw [List.all_eq_true] at h
  rintro _ ⟨e₁, he₁, c₁, m₁, b₁, ha₁, hb₁, rfl⟩ _ ⟨e₂, he₂, c₂, m₂, b₂, ha₂, hb₂, rfl⟩ -
  have h₁ := h e₁ he₁
  have h₂ := h e₂ he₂
  simp only [ha₁, ha₂, Bool.or_eq_true, beq_iff_eq, reduceCtorEq, Option.some.injEq,
    Prod.mk.injEq, false_or] at h₁ h₂
  obtain ⟨rfl, rfl⟩ := h₁
  obtain ⟨rfl, rfl⟩ := h₂
  rw [Except.ok.inj (hb₁.symm.trans hb₂)]

/-- The log entry is a vote of a transceiver for a message: the transceiver called
`attestationReceived` with it, while it was enabled and the manager not paused, and reported the
manager that was the peer on the source chain. -/
def LogEntry.IsVote (e : LogEntry) (voter : Address) (chain : UInt16) (m : NttManagerMessage) :
    Prop :=
  e.ctx.sender = voter ∧ (e.pre.registry.transceiverInfos voter).enabled = true ∧
    e.pre.paused = false ∧
    ∃ digest index, e.act = .attest chain (e.pre.peers chain).peerAddress m digest index

namespace NttManager

variable {M : NttManager} {R : Rules} {owner : Address} {limit : RateLimitParams}
  {log newer older : List LogEntry} {st : Storage} {e : LogEntry}

/-- The last action of a history was permitted. -/
theorem History.last {init : Storage} (h : M.History R init (e :: log) st) :
    M.History R init log e.pre ∧ M.Permitted R e.ctx e.pre log e.act := by
  cases h with
  | cons hlog ha => exact ⟨hlog, ha⟩

/-- A history before one of its actions is a history, in which the action was permitted. -/
theorem History.before {init : Storage} (h : M.History R init (newer ++ e :: older) st) :
    M.History R init older e.pre ∧ M.Permitted R e.ctx e.pre older e.act := by
  induction newer generalizing st with
  | nil => exact h.last
  | cons e' newer ih => exact ih h.last.1

/-- The transceivers that were registered at an action are registered since, at their
positions. -/
theorem History.registered_prefix (h : M.History R (.initial owner limit) log st) (he : e ∈ log) :
    e.pre.registry.registeredTransceivers <+: st.registry.registeredTransceivers := by
  induction h with
  | nil => cases he
  | @cons log st ctx a hlog ha ih =>
      have hstep : st.registry.registeredTransceivers <+:
          (a.apply st).registry.registeredTransceivers := by
        cases a with
        | quorum op q =>
            have hspec := op.apply_spec hlog.quorum_inv
            rw [ha.2.2, RegistryOp.Spec] at hspec
            exact hspec.2
        | _ => exact List.prefix_rfl
      rcases List.mem_cons.mp he with rfl | he
      · exact hstep
      · exact (ih he).trans hstep

/-- The index of an enabled transceiver is its position in the registered list. -/
theorem registered_get_index {r : TransceiverRegistry} (h : r.Inv) {a : Address}
    (ha : (r.transceiverInfos a).enabled = true) :
    r.registeredTransceivers[(r.index a).toNat]? = some a := by
  refine (h.registered_get _ a).mpr ⟨?_, rfl⟩
  by_contra hreg
  rw [h.unregistered a (Bool.not_eq_true _ ▸ hreg)] at ha
  cases ha

/-- Every vote in the word of a digest is in the log, cast by the transceiver at its position. -/
theorem History.vote_of_bit (h : M.History R (.initial owner limit) log st) {d : Bytes32} {i : ℕ}
    (hi : i ∈ Bitmap.members (st.messageAttestations d).attestedTransceivers) :
    ∃ e ∈ log, ∃ chain m index, e.IsVote e.ctx.sender chain m ∧
      e.act = .attest chain (e.pre.peers chain).peerAddress m d index ∧
      M.digest chain m = .ok d ∧
      e.pre.registry.registeredTransceivers[i]? = some e.ctx.sender := by
  induction h with
  | nil => exact absurd hi Bitmap.mem_zero
  | @cons log st ctx a hlog ha ih =>
      have older : i ∈ Bitmap.members (st.messageAttestations d).attestedTransceivers →
          ∃ e ∈ (⟨a, ctx, st⟩ :: log : List LogEntry), ∃ chain m index,
            e.IsVote e.ctx.sender chain m ∧
            e.act = .attest chain (e.pre.peers chain).peerAddress m d index ∧
            M.digest chain m = .ok d ∧
            e.pre.registry.registeredTransceivers[i]? = some e.ctx.sender := by
        intro hold
        obtain ⟨e, he, h⟩ := ih hold
        exact ⟨e, List.mem_cons_of_mem _ he, h⟩
      cases a with
      | attest chain source m d' index =>
          obtain ⟨-, henabled, rfl, hp, rfl, hdigest, -⟩ := ha
          have hget := registered_get_index hlog.quorum_inv.registry henabled
          by_cases hd : d = d'
          · subst hd
            simp only [Action.apply, Function.update_self] at hi
            have hlt : (st.registry.index ctx.sender).toNat < 64 :=
              (List.getElem?_eq_some_iff.mp hget).1.trans_le
                hlog.quorum_inv.registry.registered_le
            rcases (Bitmap.mem_or_bit hlt).mp hi with hold | rfl
            · exact older hold
            · exact ⟨_, List.mem_cons_self, chain, m, _,
                ⟨rfl, henabled, hp, d, _, rfl⟩, rfl, hdigest, hget⟩
          · simp only [Action.apply, Function.update_of_ne hd] at hi
            exact older hi
      | execute chain source m d' =>
          by_cases hd : d = d'
          · subst hd
            simp only [Action.apply, Function.update_self] at hi
            exact older hi
          · simp only [Action.apply, Function.update_of_ne hd] at hi
            exact older hi
      | _ => exact older hi

/-- Messages with one digest are one message, where the hash does not collide. -/
theorem digest_inj {bytes : Set Bytes} (hinj : Set.InjOn M.keccak256 bytes)
    {chain chain' : UInt16} {m m' : NttManagerMessage} {d : Bytes32}
    (hd : M.digest chain m = .ok d) (hd' : M.digest chain' m' = .ok d)
    (hb : ∀ encoded, encodeNttManagerMessage m = .ok encoded → digestBytes chain encoded ∈ bytes)
    (hb' : ∀ encoded, encodeNttManagerMessage m' = .ok encoded →
      digestBytes chain' encoded ∈ bytes) : chain = chain' ∧ m = m' := by
  simp only [digest, nttManagerMessageDigest, Except.bind_eq_ok, Except.pure_eq_ok] at hd hd'
  obtain ⟨b, henc, hh⟩ := hd
  obtain ⟨b', henc', hh'⟩ := hd'
  obtain ⟨hchain, hbytes⟩ :=
    digestBytes_inj (hinj (hb b henc) (hb' b' henc') (hh.trans hh'.symm))
  subst hbytes
  exact ⟨hchain, encodeNttManagerMessage_inj henc henc'⟩

/-- An approved digest has the votes of enough transceivers that are enabled now. -/
theorem History.voters_of_approved (h : M.History R (.initial owner limit) log st) {d : Bytes32}
    (ha : st.isMessageApproved d = true) :
    1 ≤ st.quorum.threshold.toNat ∧ ∃ voters : List Address, voters.Nodup ∧
      st.quorum.threshold.toNat ≤ voters.length ∧
      ∀ v ∈ voters, v ∈ st.registry.enabledTransceivers ∧
        ∃ e ∈ log, ∃ chain m index, e.IsVote v chain m ∧
          e.act = .attest chain (e.pre.peers chain).peerAddress m d index ∧
          M.digest chain m = .ok d := by
  have hinv := h.quorum_inv.registry
  simp only [Storage.isMessageApproved, Storage.messageAttestationsCount, ge_iff_le,
    Bool.and_eq_true, decide_eq_true_eq, UInt8.le_iff_toNat_le, UInt8.lt_iff_toNat_lt,
    toNat_countSetBits, gt_iff_lt] at ha
  obtain ⟨hcount, hpos⟩ := ha
  set votes := Bitmap.members (st.getMessageAttestations d)
  -- a counted bit is the position of an enabled transceiver
  have hget : ∀ i ∈ votes, ∃ v, st.registry.registeredTransceivers[i]? = some v ∧
      v ∈ st.registry.enabledTransceivers := by
    intro i hi
    obtain ⟨v, hv, hen⟩ := (hinv.mem_bitmap i).mp (Bitmap.mem_and.mp hi).2
    exact ⟨v, hv, (hinv.mem_enabled v).mpr ⟨((hinv.registered_get i v).mp hv).1, hen⟩⟩
  have hnodup : (votes.map fun i => st.registry.registeredTransceivers.getD i 0).Nodup := by
    refine List.Nodup.map_on (fun i hi j hj hij => ?_) (Bitmap.members_nodup _)
    obtain ⟨v, hv, -⟩ := hget i hi
    obtain ⟨w, hw, -⟩ := hget j hj
    simp only [List.getD_eq_getElem?_getD, hv, hw, Option.getD_some] at hij
    subst hij
    exact ((hinv.registered_get i v).mp hv).2.symm.trans ((hinv.registered_get j v).mp hw).2
  refine ⟨hpos, _, hnodup, by rwa [List.length_map], fun v hv => ?_⟩
  obtain ⟨i, hi, rfl⟩ := List.mem_map.mp hv
  obtain ⟨w, hw, hen⟩ := hget i hi
  simp only [List.getD_eq_getElem?_getD, hw, Option.getD_some]
  refine ⟨hen, ?_⟩
  obtain ⟨e, he, chain, m, index, hvote, hact, hdigest, hpos⟩ :=
    h.vote_of_bit (Bitmap.mem_and.mp hi).1
  -- the voter held this position when it voted, and still does
  have : w = e.ctx.sender := by
    obtain ⟨rest, hrest⟩ := h.registered_prefix he
    rw [← hrest, List.getElem?_append_left (List.getElem?_eq_some_iff.mp hpos).1, hpos] at hw
    exact (Option.some.inj hw).symm
  subst this
  exact ⟨e, he, chain, m, index, hvote, hact, hdigest⟩

/-- **Approval safety.** Wherever a run of the manager is, for every message that was executed:
at that moment the threshold was positive, and as many distinct transceivers, registered and
enabled at that moment, had each voted before for exactly that message from that chain, while it
was enabled, the manager was not paused, and the manager it reported was the registered peer.
The hash is assumed not to collide on what was hashed. -/
theorem executed_on_quorum {token : Ledger} {c : Config managerInterface State Error}
    (h : Reachable M.contract Rules.any.environment ⟨.initial owner limit, token, []⟩ c)
    (hhash : Set.InjOn M.keccak256 (hashed c.st.log)) {chain : UInt16} {source d : Bytes32}
    {m : NttManagerMessage} (hlog : c.st.log = newer ++ e :: older)
    (he : e.act = .execute chain source m d) :
    1 ≤ e.pre.quorum.threshold.toNat ∧ ∃ voters : List Address, voters.Nodup ∧
      e.pre.quorum.threshold.toNat ≤ voters.length ∧
      ∀ v ∈ voters, v ∈ e.pre.registry.registeredTransceivers ∧
        (e.pre.registry.transceiverInfos v).enabled = true ∧
        ∃ vote ∈ older, vote.IsVote v chain m := by
  have hist := history_of_reachable h
  rw [hlog] at hist hhash
  obtain ⟨hbefore, ha⟩ := hist.before
  rw [he] at ha
  obtain ⟨hdigest, happroved, -⟩ := ha
  obtain ⟨hpos, voters, hnodup, hlen, hvoters⟩ := hbefore.voters_of_approved happroved
  refine ⟨hpos, voters, hnodup, hlen, fun v hv => ?_⟩
  obtain ⟨hen, vote, hvote, chain', m', index, hisvote, hact, hdigest'⟩ := hvoters v hv
  obtain ⟨hreg, henabled⟩ := (hbefore.quorum_inv.registry.mem_enabled v).mp hen
  have hmem := (hbefore.quorum_inv.registry.registered_get _ v).mpr ⟨hreg, rfl⟩
  refine ⟨List.mem_of_getElem? hmem, henabled, vote, hvote, ?_⟩
  obtain ⟨rfl, rfl⟩ := digest_inj hhash hdigest hdigest'
    (fun b hb => ⟨e, by simp, chain, m, b, by rw [he]; rfl, hb, rfl⟩)
    (fun b hb => ⟨vote, by simp [hvote], chain', m', b, by rw [hact]; rfl, hb, rfl⟩)
  exact hisvote

/-- The sample message is executed on two votes. -/
theorem sample_executed_on_quorum : ∃ s, (sample fun _ => sampleDigest).runCalls 18 (sampleVote ++
      [(sampleContext 0x72, .attestationReceived 4 0x1234 sampleMessage)]) sampleState [] = .ok s ∧
    ∃ e newer older, s.log = newer ++ e :: older ∧
      e.act = .execute 4 0x1234 sampleMessage sampleDigest ∧
      ∃ voters : List Address, voters.Nodup ∧ 2 ≤ voters.length ∧
        ∀ v ∈ voters, ∃ vote ∈ older, vote.IsVote v 4 sampleMessage := by
  obtain ⟨s, hs, hp⟩ := exists_of_any (x := (sample fun _ => sampleDigest).runCalls 18
    (sampleVote ++ [(sampleContext 0x72, .attestationReceived 4 0x1234 sampleMessage)])
    sampleState [])
    (p := fun s => (s.log.any fun e => e.act.executes 4 0x1234 sampleMessage sampleDigest &&
        e.pre.quorum.threshold == 2) &&
      s.log.all fun e => e.act.about == none || e.act.about == some (4, sampleMessage))
    (by decide +kernel)
  rw [Bool.and_eq_true, List.any_eq_true] at hp
  obtain ⟨⟨e, he, hexec⟩, habout⟩ := hp
  rw [Bool.and_eq_true, beq_iff_eq] at hexec
  obtain ⟨newer, older, hlog⟩ := List.append_of_mem he
  have hact := Action.eq_of_executes hexec.1
  obtain ⟨-, voters, hnodup, hlen, hvoters⟩ :=
    executed_on_quorum (reachable_of_runCalls hs) (injOn_hashed habout) hlog hact
  rw [hexec.2] at hlen
  exact ⟨s, hs, e, newer, older, hlog, hact, voters, hnodup, hlen,
    fun v hv => (hvoters v hv).2.2⟩

end NttManager

end Ntt
