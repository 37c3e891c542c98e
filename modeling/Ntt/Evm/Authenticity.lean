import Ntt.Evm.Approval

/-!
# The Source Manager of an Executed Message

The source manager that a message is executed for is not part of its digest. A vote checks it
against the registered peer, and a message executed by its last vote is handed the manager that
this vote reported. A direct call of `executeMsg` checks nothing: once a digest is approved
without being executed, because the threshold was lowered or a voter enabled again, anyone can
have it executed for any source manager (`executed_for_any_manager`).

Where direct calls are made as the votes are, with the registered peer, and the peer is still
the one that the votes were checked against, the source manager is one that was voted for
(`executed_for_peer`).
-/

namespace Ntt

open Reentrant

/-- Every message of a log was executed for a source manager that a vote for it reported, and
that was the registered peer at that vote. -/
def Authentic (log : List LogEntry) : Prop :=
  ∀ newer e older chain source m d, log = newer ++ e :: older →
    e.act = .execute chain source m d →
    ∃ vote ∈ older, (∃ index, vote.act = .attest chain source m d index) ∧
      (vote.pre.peers chain).peerAddress = source

namespace NttManager

/-- Any call, but a direct call of `executeMsg` on a digest that is approved and not executed
names the registered peer, which is the one that the votes for the digest were checked
against. -/
def Rules.peerChecked (M : NttManager) : Rules where
  decimals _ := True
  calls st log _
    | .executeMsg chain source m => ∀ d, M.digest chain m = .ok d →
        st.isMessageApproved d = true → (st.messageAttestations d).executed = false →
        (st.peers chain).peerAddress = source ∧
          ∀ vote ∈ log, ∀ source' m' index, vote.act = .attest chain source' m' d index →
            (vote.pre.peers chain).peerAddress = (st.peers chain).peerAddress
    | _ => True

variable {M : NttManager} {owner : Address} {limit : RateLimitParams}

/-- In every run in which direct calls of `executeMsg` on approved digests name the registered
peer, which was the peer at the votes too, messages are executed for managers that were voted
for. -/
theorem executed_for_peer {token : Ledger} {c : Config managerInterface State Error}
    (h : Reachable M.contract (Rules.peerChecked M).environment
      ⟨.initial owner limit, token, []⟩ c)
    (hhash : Set.InjOn M.keccak256 (hashed c.st.log)) : Authentic c.st.log := by
  intro newer e older chain source m d hlog he
  have hist := history_of_reachable h
  rw [hlog] at hist hhash
  obtain ⟨hbefore, ha⟩ := hist.before
  rw [he] at ha
  obtain ⟨hdigest, happroved, hnot, -, hcall⟩ := ha
  rcases hcall with hcall | ⟨index, st', older', hvote⟩
  · -- a direct call: the votes that approve the digest were for the registered peer
    obtain ⟨hpeer, hsame⟩ := hcall d hdigest happroved hnot
    obtain ⟨hpos, voters, -, hlen, hvoters⟩ := hbefore.voters_of_approved happroved
    obtain ⟨v, hv⟩ := List.exists_mem_of_length_pos (hpos.trans hlen)
    obtain ⟨-, vote, hmem, chain', m', index, -, hact, hdigest'⟩ := hvoters v hv
    obtain ⟨rfl, rfl⟩ := digest_inj hhash hdigest hdigest'
      (fun b hb => ⟨e, by simp, chain, m, b, by rw [he]; rfl, hb, rfl⟩)
      (fun b hb => ⟨vote, by simp [hmem], chain', m', b, by rw [hact]; rfl, hb, rfl⟩)
    have := (hsame vote hmem _ _ _ hact).trans hpeer
    exact ⟨vote, hmem, ⟨index, by rw [hact, this]⟩, this⟩
  · -- executed by its last vote
    refine ⟨_, hvote ▸ List.mem_cons_self, ⟨index, rfl⟩, ?_⟩
    rw [hvote] at hbefore
    exact hbefore.last.2.2.2.2.2.1

/-- One vote for the sample message, which is enough once the threshold is lowered. -/
def sampleApproved : List (Context × Call) :=
  sampleVote ++ [(sampleContext 0xA, .setThreshold 1)]

/-- A direct call for the registered peer, which is the one that the vote was checked against. -/
theorem sample_executed_for_peer : ∃ s : State, Authentic s.log ∧
    (s.log.any fun e => e.act.executes 4 0x1234 sampleMessage sampleDigest) = true := by
  let M := sample fun _ => sampleDigest
  obtain ⟨s, hs, hp⟩ := exists_of_any (x := M.runCalls 18 sampleApproved sampleState [])
    (p := fun s => ((s.storage.peers 4).peerAddress == 0x1234) &&
      (s.log.all fun e => e.act.about == none || (e.pre.peers 4).peerAddress == 0x1234) &&
      (M.runCalls 18 [(sampleContext 0xB, .executeMsg 4 0x1234 sampleMessage)] s []).toOption.any
        fun s' => (s'.log.all fun e => e.act.about == none || e.act.about ==
          some (4, sampleMessage)) &&
          s'.log.any fun e => e.act.executes 4 0x1234 sampleMessage sampleDigest)
    (by decide +kernel)
  rw [Bool.and_eq_true, Bool.and_eq_true, beq_iff_eq, List.all_eq_true] at hp
  obtain ⟨⟨hpeer, hvotes⟩, hp'⟩ := hp
  obtain ⟨s', hs', hp'⟩ := exists_of_any hp'
  rw [Bool.and_eq_true] at hp'
  have hreach : Reachable M.contract (Rules.peerChecked M).environment sampleState ⟨s, []⟩ := by
    refine reachable_of_runCalls_rules trivial (fun st log c hc => ?_) hs
    simp only [sampleApproved, sampleVote, List.cons_append, List.nil_append, List.mem_cons,
      List.not_mem_nil, or_false] at hc
    rcases hc with rfl | rfl | rfl | rfl | rfl | rfl <;> trivial
  have hreach' : Reachable M.contract (Rules.peerChecked M).environment sampleState ⟨s', []⟩ := by
    refine reachable_of_runCall (e := .executeMsg 4 0x1234 sampleMessage) trivial hreach ?_ hs'
    refine fun d _ _ _ => ⟨hpeer, fun vote hvote source' m' index hact => ?_⟩
    have := hvotes vote hvote
    rw [hact] at this
    rw [hpeer]
    simpa [Action.about] using this
  exact ⟨s', executed_for_peer hreach' (injOn_hashed hp'.1), hp'.2⟩

/-- The sample message is executed for a manager that nobody voted for. -/
theorem executed_for_any_manager : ∃ s : State,
    Reachable (sample fun _ => sampleDigest).contract Rules.any.environment sampleState ⟨s, []⟩ ∧
    Set.InjOn (sample fun _ => sampleDigest).keccak256 (hashed s.log) ∧ ¬ Authentic s.log := by
  obtain ⟨s, hs, hp⟩ := exists_of_any (x := (sample fun _ => sampleDigest).runCalls 18
    (sampleApproved ++ [(sampleContext 0xB, .executeMsg 4 0xBAD sampleMessage)]) sampleState [])
    (p := fun s => (s.log.any fun e => e.act.executes 4 0xBAD sampleMessage sampleDigest) &&
      (s.log.all fun e => (e.pre.peers 4).peerAddress != 0xBAD) &&
      s.log.all fun e => e.act.about == none || e.act.about == some (4, sampleMessage))
    (by decide +kernel)
  rw [Bool.and_eq_true, Bool.and_eq_true, List.any_eq_true, List.all_eq_true] at hp
  obtain ⟨⟨⟨e, he, hexec⟩, hpeer⟩, habout⟩ := hp
  obtain ⟨newer, older, hlog⟩ := List.append_of_mem he
  refine ⟨s, reachable_of_runCalls hs, injOn_hashed habout, fun hauth => ?_⟩
  obtain ⟨vote, hmem, -, hsource⟩ :=
    hauth newer e older 4 0xBAD sampleMessage sampleDigest hlog (Action.eq_of_executes hexec)
  have := hpeer vote (by rw [hlog]; simp [hmem])
  rw [hsource] at this
  exact absurd this (by decide)

end NttManager

end Ntt
