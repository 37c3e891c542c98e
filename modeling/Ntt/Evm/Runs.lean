import Ntt.Evm.Refinement

/-!
# Runs of a Manager

`runCalls` makes calls one after another, with simple answers to their external calls: the token
reports given decimals, balances come from a list, transceivers ask no price, and everything
else succeeds without calling back. Such a run is one of the runs of the call machine, so it
can show that something is reachable.

## Main results

* `reachable_of_runCalls`: what `runCalls` computes is reachable, for every manager.
-/

namespace Ntt

open Reentrant

namespace NttManager

/-- Any call, any decimals. -/
def Rules.any : Rules := ⟨fun _ => True, fun _ _ _ _ => True⟩

/-- Simple answers: the decimals, and the balances to report, one for each question. -/
def respond (decimals : UInt8) :
    (x : Ext) → State → List ℕ → Except Error (x.Reply × State × List ℕ)
  | .tokenDecimals, s, balances => .ok (decimals, s, balances)
  | .balanceOf _, s, balances => .ok (balances.headD 0, s, balances.tail)
  | .quoteDeliveryPrice .., s, balances => .ok ((0 : ℕ), s, balances)
  | .safeTransferFrom .., s, balances => .ok ((), s, balances)
  | .burn _, s, balances => .ok ((), s, balances)
  | .mint .., s, balances => .ok ((), s, balances)
  | .safeTransfer .., s, balances => .ok ((), s, balances)
  | .sendMessage .., s, balances => .ok ((), s, balances)
  | .transferTransceiverOwnership .., s, balances => .ok ((), s, balances)
  | .sendValue .., s, balances => .ok ((), s, balances)

/-- The simple answers are answers of the world, when its token can have these decimals. -/
theorem answers_respond {R : Rules} {decimals : UInt8} (hd : R.decimals decimals) :
    Answers (X := managerInterface) R.world (respond decimals) := by
  intro x s balances r s' balances' h
  cases x <;> cases h
  case tokenDecimals => exact ⟨rfl, hd⟩
  case balanceOf => exact ⟨rfl, trivial⟩
  case quoteDeliveryPrice => exact ⟨rfl, trivial⟩
  all_goals exact ⟨trivial, rfl⟩

variable (M : NttManager)

/-- Makes calls one after another. -/
def runCalls (decimals : UInt8) (calls : List (Context × Call)) (s : State) (balances : List ℕ) :
    Except Error State :=
  M.contract.drive (respond decimals) calls s balances

/-- What `runCalls` computes is reachable, if the rules allow the calls. -/
theorem reachable_of_runCalls_rules {M : NttManager} {R : Rules} {decimals : UInt8}
    {calls : List (Context × Call)} {s s' : State} {balances : List ℕ}
    (hd : R.decimals decimals) (hc : ∀ st log, ∀ c ∈ calls, R.calls st log c.1 c.2)
    (h : M.runCalls decimals calls s balances = .ok s') :
    Reachable M.contract R.environment s ⟨s', []⟩ :=
  Reachable.drive (answers_respond hd) (fun s c hm => hc s.storage s.log c hm) .refl h

/-- One more call, that the rules allow where it is made. -/
theorem reachable_of_runCall {M : NttManager} {R : Rules} {decimals : UInt8} {ctx : Context}
    {e : Call} {init s s' : State} {balances : List ℕ} (hd : R.decimals decimals)
    (hs : Reachable M.contract R.environment init ⟨s, []⟩)
    (hc : R.calls s.storage s.log ctx e)
    (h : M.runCalls decimals [(ctx, e)] s balances = .ok s') :
    Reachable M.contract R.environment init ⟨s', []⟩ :=
  Reachable.drive_call (C := M.contract) (V := R.environment) (e := (ctx, e))
    (answers_respond hd) hs hc h

/-- What `runCalls` computes is reachable. -/
theorem reachable_of_runCalls {M : NttManager} {decimals : UInt8}
    {calls : List (Context × Call)} {s s' : State} {balances : List ℕ}
    (h : M.runCalls decimals calls s balances = .ok s') :
    Reachable M.contract Rules.any.environment s ⟨s', []⟩ :=
  reachable_of_runCalls_rules trivial (fun _ _ _ _ => trivial) h

/-! ### A deployment -/

/-- An address in the format of the messages: twelve zero bytes, then the address. -/
def padAddress (a : Address) : Bytes32 := a.setWidth 256

/-- And back, when the twelve bytes are zero. -/
def unpadAddress (b : Bytes32) : Except Error Address :=
  if b.toNat < 2 ^ 160 then .ok (b.setWidth 160) else .error .external

/-- A locking manager on chain 2, as deployed, with a hash function. -/
def sample (keccak256 : Bytes → Bytes32) : NttManager where
  this := 0x1000
  token := 0x2000
  mode := .locking
  chainId := 2
  evmChainId := 1
  rateLimitDuration := 86400
  keccak256 := keccak256
  bytes := .reference
  toWormholeFormat := padAddress
  fromWormholeFormat := unpadAddress

/-- Its state after the initialiser of a token with 18 decimals, owned by `0xA`. -/
def sampleState : State where
  storage := .initial 0xA ⟨.max 18, .max 18, 0⟩
  token := .empty
  log := []

/-- A message of 5 units at 8 decimals to the account `0x4000` on that chain. -/
def sampleMessage : NttManagerMessage where
  id := 0
  sender := 0x5000
  payload := packBytes4 NTT_PREFIX ++ packUint8 8 ++ packUint64 5 ++ packBytes32 0x3000 ++
    packBytes32 0x4000 ++ packUint16 2

/-- The hash of that message, sent from chain 4. -/
def sampleDigest : Bytes32 := 0xd373d5b03577c599ed4aaf5556a4171542b296799fcb31b0f6d8bea9b7b19a74

/-- Context of a call without value, at time 1000. -/
def sampleContext (sender : Address) : Context := ⟨sender, 0, 1000, 1⟩

/-- The owner registers two transceivers and the peer on chain 4, and asks for two votes; one
transceiver votes for the message. -/
def sampleVote : List (Context × Call) :=
  [(sampleContext 0xA, .setTransceiver 0x71), (sampleContext 0xA, .setTransceiver 0x72),
    (sampleContext 0xA, .setThreshold 2), (sampleContext 0xA, .setPeer 4 0x1234 18 (10 ^ 18)),
    (sampleContext 0x71, .attestationReceived 4 0x1234 sampleMessage)]

/-- The manager of the sample, without a duration. -/
def sampleUnlimited : NttManager := { sample fun _ => sampleDigest with rateLimitDuration := 0 }

end NttManager

end Ntt
