import Ntt.Evm.Actions

/-!
# Where Votes Come From

A manager counts as a vote what a transceiver reports by `attestationReceived`, and nothing else:
every other program leaves the votes of every transceiver as they are, and so does an
`attestationReceived` of somebody else (`leaves_body`). Nested calls may vote; that a program itself
does not is read off the actions that it does.
-/

namespace Ntt

open Reentrant

/-- What a transceiver reports: a message, its chain and its source manager. -/
structure Vote where
  sourceChainId : UInt16
  sourceNttManagerAddress : Bytes32
  message : NttManagerMessage
deriving DecidableEq, Repr

/-- The vote that an action is. -/
def Action.vote : Action → Option Vote
  | .attest sourceChainId sourceNttManagerAddress message _ _ =>
      some ⟨sourceChainId, sourceNttManagerAddress, message⟩
  | _ => none

/-- The votes of a transceiver, newest first. -/
def votesBy (transceiver : Address) (log : List LogEntry) : List Vote :=
  log.filterMap fun e => if e.ctx.sender = transceiver then e.act.vote else none

/-- The votes of a transceiver in a state. -/
def State.votesBy (transceiver : Address) (s : State) : List Vote := Ntt.votesBy transceiver s.log

theorem State.votesBy_perform_none {transceiver : Address} {s : State} {ctx : Context} {a : Action}
    (h : ctx.sender = transceiver → a.vote = none) :
    (s.perform ctx a).votesBy transceiver = s.votesBy transceiver := by
  have h' : (if ctx.sender = transceiver then a.vote else none) = none := by
    split
    · exact h ‹_›
    · rfl
  simp only [State.votesBy, Ntt.votesBy, State.perform_log, List.filterMap_cons, h']

theorem State.votesBy_attest {s : State} {ctx : Context} {chain : UInt16} {source digest : Bytes32}
    {m : NttManagerMessage} {index : UInt8} :
    (s.perform ctx (.attest chain source m digest index)).votesBy ctx.sender =
      ⟨chain, source, m⟩ :: s.votesBy ctx.sender := by
  simp [State.votesBy, Ntt.votesBy, Action.vote]

/-- A program that does not vote for a transceiver. -/
abbrev NoVote (transceiver : Address) {α : Type} (m : ManagerProg α) : Prop :=
  Leaves (fun _ => True) (State.votesBy transceiver) m

theorem Action.vote_eq_none {a : Action} (h : a.kind ≠ .vote) : a.vote = none := by
  cases a <;> first | rfl | exact absurd rfl h

/-- What does no vote of a transceiver leaves its votes alone. -/
theorem noVote_of_acts {transceiver : Address} {ctx : Context} {P : Ext → Prop}
    {A : Action → Prop} {α : Type} {m : ManagerProg α} (hm : Acts ctx P A m)
    (h : ∀ a, A a → ctx.sender = transceiver → a.kind ≠ .vote) : NoVote transceiver m := by
  refine hm.mono (fun _ _ => trivial) ?_
  rintro s s' ⟨a, ha, rfl⟩
  exact State.votesBy_perform_none fun hsender => Action.vote_eq_none (h a ha hsender)

namespace NttManager

variable {M : NttManager} {ctx : Context} {transceiver : Address}

theorem noVote_executeMsg (chain : UInt16) (source : Bytes32) (m : NttManagerMessage) :
    NoVote transceiver (M.executeMsg ctx chain source m) :=
  noVote_of_acts (acts_executeMsg chain source m) fun _ ha _ hv => Kind.noConfusion (ha.symm.trans hv)

/-- Nobody but a transceiver itself votes for it. -/
theorem leaves_body (h : ctx.sender ≠ transceiver) (call : Call) :
    NoVote transceiver (M.body ctx call) :=
  noVote_of_acts (acts_body call) fun _ _ hsender => absurd hsender h

end NttManager

end Ntt
