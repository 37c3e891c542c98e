import Ntt.Evm.Outbound
import Ntt.Lib.Lockstep

/-!
# The Manager Without Rate Limiting

`NttManagerNoRateLimiting` of the contracts, which overrides most of what a manager does about
limits and queues, beside a manager that is built with a duration of zero. Both are run in
lockstep (`Ntt.Lib.Lockstep`), on the calls that transfer, attest and execute.

The two differ at one place. Before the manager finds that its limits are off, it shifts the
amount of a transfer to the decimals of the token, and the result has to fit in 64 bits. The
amount of the message may have fewer decimals, those of the recipient chain, and then what fits
there need not fit here: the manager reverts, and the other one sends.

## Main results

* `noRateLimiting_aligned`: as long as what arrives fits, the two stay aligned, in every run.
* `noRateLimiting_differs`: a transfer that only one of the two accepts.
-/

namespace Ntt

open Reentrant

namespace NttManagerNoRateLimiting

variable (M : NttManager)

/-! ### The overridden functions -/

/-- `_setOutboundLimit`: the setting is ignored. -/
def setOutboundLimitTrimmed (_limit : TrimmedAmount) : ManagerProg Unit := pure ()

/-- `_setInboundLimit`: the setting is ignored. -/
def setInboundLimitTrimmed (_limit : TrimmedAmount) (_chain : UInt16) : ManagerProg Unit :=
  pure ()

/-- `_enqueueOrConsumeOutboundRateLimit`. -/
def enqueueOrConsumeOutboundRateLimit (_transfer : Transfer) (_shouldQueue : Bool)
    (_sequence : UInt64) : ManagerProg Bool :=
  return false

/-- `_enqueueOrConsumeInboundRateLimit`. -/
def enqueueOrConsumeInboundRateLimit (_digest : Bytes32) (_sourceChainId : UInt16)
    (_nativeTransferAmount : TrimmedAmount) (_transferRecipient : Address) : ManagerProg Bool :=
  return false

/-- `completeOutboundQueuedTransfer`. -/
def completeOutboundQueuedTransfer (_messageSequence : UInt64) : ManagerProg Unit := do
  whenNotPaused
  revert .notImplemented

/-- `cancelOutboundQueuedTransfer`. -/
def cancelOutboundQueuedTransfer (ctx : Context) (_messageSequence : UInt64) :
    ManagerProg Unit := do
  nonPayable ctx
  whenNotPaused
  revert .notImplemented

/-- `completeInboundQueuedTransfer`. -/
def completeInboundQueuedTransfer (_digest : Bytes32) : ManagerProg Unit := do
  whenNotPaused
  revert .notImplemented

/-! ### The inherited functions that call them -/

/-- `setPeer`. -/
def setPeer (ctx : Context) (peerChainId : UInt16) (peerContract : Bytes32) (decimals : UInt8)
    (inboundLimit : ℕ) : ManagerProg Unit := do
  nonPayable ctx
  onlyOwner ctx
  revertIf (peerChainId = 0) .invalidPeerChainIdZero
  revertIf (peerContract = 0) .invalidPeerZeroAddress
  revertIf (decimals = 0) .invalidPeerDecimals
  revertIf (peerChainId = M.chainId) .invalidPeerSameChainId
  perform ctx (.setPeer peerChainId ⟨peerContract, decimals⟩)
  let toDecimals ← NttManager.tokenDecimals
  let limit ← trim inboundLimit toDecimals toDecimals
  setInboundLimitTrimmed limit peerChainId

/-- `setOutboundLimit`. -/
def setOutboundLimit (ctx : Context) (limit : ℕ) : ManagerProg Unit := do
  nonPayable ctx
  onlyOwner ctx
  let toDecimals ← NttManager.tokenDecimals
  let limit ← trim limit toDecimals toDecimals
  setOutboundLimitTrimmed limit

/-- `setInboundLimit`. -/
def setInboundLimit (ctx : Context) (limit : ℕ) (chain : UInt16) : ManagerProg Unit := do
  nonPayable ctx
  onlyOwner ctx
  let toDecimals ← NttManager.tokenDecimals
  let limit ← trim limit toDecimals toDecimals
  setInboundLimitTrimmed limit chain

/-- Executes a transfer. -/
def handleTransfer (ctx : Context) (sourceChainId : UInt16) (_sourceNttManagerAddress : Bytes32)
    (message : NttManagerMessage) (digest : Bytes32) : ManagerProg Unit := do
  let nativeTokenTransfer ← parseNativeTokenTransfer M.bytes message.payload
  revertIf (nativeTokenTransfer.toChain ≠ M.chainId)
    (.invalidTargetChain nativeTokenTransfer.toChain M.chainId)
  let toDecimals ← NttManager.tokenDecimals
  let untrimmed ← nativeTokenTransfer.amount.untrim toDecimals
  let nativeTransferAmount ← trim untrimmed toDecimals toDecimals
  let transferRecipient ← M.fromWormholeFormat nativeTokenTransfer.recipient
  let enqueued ← enqueueOrConsumeInboundRateLimit digest sourceChainId nativeTransferAmount
    transferRecipient
  if enqueued then
    return ()
  else
    M.mintOrUnlockToRecipient ctx digest transferRecipient nativeTransferAmount false

/-- `executeMsg`. -/
def executeMsg (ctx : Context) (sourceChainId : UInt16) (sourceNttManagerAddress : Bytes32)
    (message : NttManagerMessage) : ManagerProg Unit := do
  whenNotPaused
  let (digest, alreadyExecuted) ←
    M.isMessageExecuted ctx sourceChainId sourceNttManagerAddress message
  if alreadyExecuted then
    return ()
  else
    handleTransfer M ctx sourceChainId sourceNttManagerAddress message digest

/-- `attestationReceived`. -/
def attestationReceived (ctx : Context) (sourceChainId : UInt16)
    (sourceNttManagerAddress : Bytes32) (payload : NttManagerMessage) : ManagerProg Unit := do
  onlyTransceiver ctx
  whenNotPaused
  NttManager.verifyPeer sourceChainId sourceNttManagerAddress
  let nttManagerMessageHash ←
    M.recordTransceiverAttestation ctx sourceChainId sourceNttManagerAddress payload
  let st ← load
  if st.isMessageApproved nttManagerMessageHash then
    executeMsg M ctx sourceChainId sourceNttManagerAddress payload

/-- What both forms of `transfer` do. -/
def transferEntryPoint (ctx : Context) (amount : ℕ) (recipientChain : UInt16)
    (recipient refundAddress : Bytes32) (shouldQueue : Bool) (transceiverInstructions : Bytes) :
    ManagerProg Unit := do
  revertIf (amount = 0) .zeroAmount
  revertIf (recipient = 0) .invalidRecipient
  revertIf (refundAddress = 0) .invalidRefundAddress
  let received ← M.pullTokens ctx amount
  let trimmedAmount ← NttManager.trimTransferAmount received recipientChain
  let transfer : Transfer := ⟨amount, received, trimmedAmount, recipientChain, recipient,
    refundAddress, ctx.sender, transceiverInstructions⟩
  let sequence ← NttManager.useMessageSequence ctx transfer
  let enqueued ← enqueueOrConsumeOutboundRateLimit transfer shouldQueue sequence
  if enqueued then
    return ()
  else
    M.sendTransfer ctx sequence trimmedAmount recipientChain recipient refundAddress ctx.sender
      transceiverInstructions

/-- `transfer` with all its arguments. -/
def transfer (ctx : Context) (amount : ℕ) (recipientChain : UInt16)
    (recipient refundAddress : Bytes32) (shouldQueue : Bool) (transceiverInstructions : Bytes) :
    ManagerProg Unit := do
  nonReentrant ctx do
    whenNotPaused
    transferEntryPoint M ctx amount recipientChain recipient refundAddress shouldQueue
      transceiverInstructions

/-- `transfer` without instructions. -/
def transferSimple (ctx : Context) (amount : ℕ) (recipientChain : UInt16)
    (recipient : Bytes32) : ManagerProg Unit :=
  transfer M ctx amount recipientChain recipient recipient false [0]

/-- The program of a call. -/
def body (ctx : Context) : NttManager.Call → ManagerProg Unit
  | .transfer amount recipientChain recipient refundAddress shouldQueue instructions =>
      transfer M ctx amount recipientChain recipient refundAddress shouldQueue instructions
  | .transferSimple amount recipientChain recipient =>
      transferSimple M ctx amount recipientChain recipient
  | .attestationReceived sourceChainId source payload => do
      nonPayable ctx
      attestationReceived M ctx sourceChainId source payload
  | .executeMsg sourceChainId source message => do
      nonPayable ctx
      executeMsg M ctx sourceChainId source message
  | .completeInboundQueuedTransfer digest => do
      nonPayable ctx
      completeInboundQueuedTransfer digest
  | .completeOutboundQueuedTransfer messageSequence =>
      completeOutboundQueuedTransfer messageSequence
  | .cancelOutboundQueuedTransfer messageSequence =>
      cancelOutboundQueuedTransfer ctx messageSequence
  | .setPeer peerChainId peerContract decimals inboundLimit =>
      setPeer M ctx peerChainId peerContract decimals inboundLimit
  | .setOutboundLimit limit => setOutboundLimit ctx limit
  | .setInboundLimit limit chain => setInboundLimit ctx limit chain
  | .setTransceiver transceiver => setTransceiver ctx transceiver
  | .removeTransceiver transceiver => removeTransceiver ctx transceiver
  | .setThreshold threshold => setThreshold ctx threshold
  | .pause => pause ctx
  | .unpause => unpause ctx
  | .transferOwnership newOwner => transferOwnership ctx newOwner
  | .transferPauserCapability newPauser => transferPauserCapability ctx newPauser

/-- The manager without rate limiting as a machine. -/
def contract : Contract managerInterface State Error where
  Entry := Context × NttManager.Call
  body e := body M e.1 e.2

end NttManagerNoRateLimiting

/-! ### States side by side -/

/-- Two states agree on transceivers and threshold, attestations, the sequence, peers, the pause,
the guard and the balances of the token; neither has changed a queue since two given states. -/
structure Matching (s₀ t₀ s t : State) : Prop where
  quorum : s.storage.quorum = t.storage.quorum
  messageAttestations : s.storage.messageAttestations = t.storage.messageAttestations
  messageSequence : s.storage.messageSequence = t.storage.messageSequence
  peers : s.storage.peers = t.storage.peers
  paused : s.storage.paused = t.storage.paused
  entered : s.storage.entered = t.storage.entered
  token : s.token = t.token
  outboundQueue : s.storage.outboundQueue = s₀.storage.outboundQueue ∧
    t.storage.outboundQueue = t₀.storage.outboundQueue
  inboundQueue : s.storage.inboundQueue = s₀.storage.inboundQueue ∧
    t.storage.inboundQueue = t₀.storage.inboundQueue

/-- The decimals of the token are known. -/
def knownDecimals (decimals : UInt8) : (x : Ext) → Option x.Reply
  | .tokenDecimals => some decimals
  | _ => none

/-- A transfer got a sequence whose amount leaves 64 bits in the trimmed decimals of the token. -/
def Overflows (decimals : UInt8) (t : State) : Prop :=
  ∃ e ∈ t.log, ∃ n transfer, e.act = .useMessageSequence n transfer ∧
    2 ^ 64 ≤ transfer.received / 10 ^ (decimals.toNat - 8)

/-- Two states match, and no transfer overflows in the second. -/
structure Fitting (decimals : UInt8) (s₀ t₀ s t : State) : Prop extends Matching s₀ t₀ s t where
  fits : ¬ Overflows decimals t

/-- The actions on neither limits nor queues. -/
def isShared : Action → Bool
  | .outboundLimit .. | .inboundLimit .. | .enqueueInbound .. | .dequeueInbound ..
  | .enqueueOutbound .. | .releaseOutbound .. | .withdrawOutbound .. => false
  | _ => true

variable {s₀ t₀ s t : State} {ctx : Context} {dec : UInt8}

theorem Matching.perform {a : Action} (h : Matching s₀ t₀ s t) (ha : isShared a = true) :
    Matching s₀ t₀ (s.perform ctx a) (t.perform ctx a) := by
  obtain ⟨hquorum, hvotes, hseq, hpeers, hpaused, hentered, htoken, hout, hin⟩ := h
  cases a with
  | outboundLimit | inboundLimit | enqueueInbound | dequeueInbound | enqueueOutbound
  | releaseOutbound | withdrawOutbound => cases ha
  | _ =>
      refine ⟨?_, ?_, ?_, ?_, ?_, ?_, htoken, hout, hin⟩ <;>
        simp only [State.perform_storage, Action.apply, hquorum, hvotes, hseq, hpeers, hpaused,
          hentered]

/-- Only handing out a sequence can overflow. -/
theorem overflows_perform {a : Action} (ha : ∀ n transfer, a ≠ .useMessageSequence n transfer) :
    Overflows dec (t.perform ctx a) ↔ Overflows dec t := by
  constructor
  · rintro ⟨e, he, n, transfer, hact, hfit⟩
    rcases List.mem_cons.mp he with rfl | he
    · exact absurd hact (ha n transfer)
    · exact ⟨e, he, n, transfer, hact, hfit⟩
  · rintro ⟨e, he, hoverflow⟩
    exact ⟨e, List.mem_cons_of_mem _ he, hoverflow⟩

theorem Fitting.perform {a : Action} (h : Fitting dec s₀ t₀ s t) (ha : isShared a = true)
    (hne : ∀ n transfer, a ≠ .useMessageSequence n transfer) :
    Fitting dec s₀ t₀ (s.perform ctx a) (t.perform ctx a) :=
  ⟨h.toMatching.perform ha, fun ho => h.fits ((overflows_perform hne).mp ho)⟩

/-- Writing back the limits that are there already is not noticed. -/
theorem Matching.limits_left {op op' : RateLimitOp} {chain : UInt16} (h : Matching s₀ t₀ s t)
    (p q : RateLimitParams) :
    Matching s₀ t₀ ((s.perform ctx (.outboundLimit op p)).perform ctx (.inboundLimit chain op' q))
      t ∧
    Matching s₀ t₀ ((s.perform ctx (.inboundLimit chain op' q)).perform ctx (.outboundLimit op p))
      t :=
  ⟨⟨h.quorum, h.messageAttestations, h.messageSequence, h.peers, h.paused, h.entered, h.token,
      h.outboundQueue, h.inboundQueue⟩,
    ⟨h.quorum, h.messageAttestations, h.messageSequence, h.peers, h.paused, h.entered, h.token,
      h.outboundQueue, h.inboundQueue⟩⟩

theorem Matching.registry (h : Matching s₀ t₀ s t) :
    s.storage.registry = t.storage.registry :=
  congrArg Quorum.registry h.quorum

theorem Matching.isMessageApproved (h : Matching s₀ t₀ s t) (digest : Bytes32) :
    s.storage.isMessageApproved digest = t.storage.isMessageApproved digest := by
  unfold Storage.isMessageApproved Storage.messageAttestationsCount Storage.getMessageAttestations
  rw [h.registry, h.quorum, h.messageAttestations]

/-! ### Programs side by side -/

/-- From matching states, two programs agree, with related results, unless it is excused. -/
def Pairs (dec : UInt8) (s₀ t₀ : State) (U : State → Prop) {α β : Type} (V : α → β → Prop)
    (m : ManagerProg α) (m' : ManagerProg β) : Prop :=
  ∀ s t, Fitting dec s₀ t₀ s t →
    (m.run s).Agrees (knownDecimals dec) (Fitting dec s₀ t₀) U V (m'.run t)

/-- Two programs that agree without an excuse, on results too. -/
abbrev Alike (dec : UInt8) (s₀ t₀ : State) {α : Type} (m m' : ManagerProg α) : Prop :=
  Pairs dec s₀ t₀ (fun _ => False) Eq m m'

namespace Alike

variable {α β : Type} {m m' : ManagerProg α} {f g : α → ManagerProg β}

theorem bind (hm : Alike dec s₀ t₀ m m') (hf : ∀ a, Alike dec s₀ t₀ (f a) (g a)) :
    Alike dec s₀ t₀ (m >>= f) (m' >>= g) := by
  intro s t h
  refine (hm s t h).bind (fun _ h => h) ?_ fun _ _ h => h.elim
  rintro a _ s' t' rfl h'
  exact hf a s' t' h'

theorem pure (a : α) : Alike dec s₀ t₀ (pure a : ManagerProg α) (Pure.pure a) :=
  fun _ _ h => .ret rfl h

theorem revertIf (c : Prop) [Decidable c] (e : Error) :
    Alike dec s₀ t₀ (Reentrant.revertIf c e : ManagerProg Unit) (Reentrant.revertIf c e) := by
  intro s t h
  rw [run_revertIf, run_revertIf]
  split
  · exact .revert e e
  · exact .ret rfl h

theorem liftExcept (x : Except Error α) :
    Alike dec s₀ t₀ (Reentrant.liftExcept x : ManagerProg α) (Reentrant.liftExcept x) := by
  intro s t h
  cases x with
  | ok a => exact .ret rfl h
  | error e => exact .revert e e

theorem perform {a : Action} (ha : isShared a = true)
    (hne : ∀ n transfer, a ≠ .useMessageSequence n transfer) :
    Alike dec s₀ t₀ (perform ctx a) (perform ctx a) :=
  fun _ _ h => .ret rfl (h.perform ha hne)

/-- What is read may differ where the states do. -/
theorem bind_load {f g : Storage → ManagerProg β}
    (hf : ∀ s t, Fitting dec s₀ t₀ s t → Alike dec s₀ t₀ (f s.storage) (g t.storage)) :
    Alike dec s₀ t₀ (load >>= f) (load >>= g) :=
  fun s t h => hf s t h s t h

/-- The decimals are answered at once, any other call is made on both sides. -/
theorem external (x : Ext) : Alike dec s₀ t₀ (external x) (external x) := by
  intro s t h
  cases hx : knownDecimals dec x with
  | some r => exact .silent_left hx (.silent_right hx (.ret rfl h))
  | none => exact .call hx h fun r s' t' h' => .ret rfl h'

/-! ### The programs that both share -/

theorem nonPayable : Alike dec s₀ t₀ (nonPayable ctx) (nonPayable ctx) := revertIf _ _

theorem whenNotPaused : Alike dec s₀ t₀ whenNotPaused whenNotPaused := by
  refine bind_load fun s t h => ?_
  rw [h.paused]
  exact revertIf _ _

theorem onlyTransceiver : Alike dec s₀ t₀ (onlyTransceiver ctx) (onlyTransceiver ctx) := by
  refine bind_load fun s t h => ?_
  rw [h.registry]
  exact revertIf _ _

theorem refundToSender (amount : ℕ) :
    Alike dec s₀ t₀ (NttManager.refundToSender ctx amount) (NttManager.refundToSender ctx amount) :=
  bind (external _) fun _ => pure _

variable {M : NttManager}

theorem mintOrUnlockToRecipient (digest : Bytes32) (recipient : Address)
    (amount : TrimmedAmount) :
    Alike dec s₀ t₀ (M.mintOrUnlockToRecipient ctx digest recipient amount false)
      (M.mintOrUnlockToRecipient ctx digest recipient amount false) := by
  refine bind (revertIf _ _) fun _ => bind (external _) fun _ => bind (liftExcept _) fun n =>
    bind (perform rfl nofun) fun _ => ?_
  cases M.mode <;> exact bind (external _) fun _ => pure _

theorem isMessageExecuted (chain : UInt16) (source : Bytes32) (message : NttManagerMessage) :
    Alike dec s₀ t₀ (M.isMessageExecuted ctx chain source message)
      (M.isMessageExecuted ctx chain source message) := by
  refine bind (liftExcept _) fun digest => bind_load fun s t h => ?_
  rw [h.isMessageApproved, h.messageAttestations]
  refine bind (revertIf _ _) fun _ => ?_
  cases (t.storage.messageAttestations digest).executed with
  | true => exact pure _
  | false => exact bind (perform rfl nofun) fun _ => pure _

theorem recordTransceiverAttestation (chain : UInt16) (source : Bytes32)
    (message : NttManagerMessage) :
    Alike dec s₀ t₀ (M.recordTransceiverAttestation ctx chain source message)
      (M.recordTransceiverAttestation ctx chain source message) := by
  refine bind (liftExcept _) fun digest => bind_load fun s t h => ?_
  rw [h.registry, h.messageAttestations]
  exact bind (revertIf _ _) fun _ => bind (perform rfl nofun) fun _ => pure _

theorem quoteLoop {chain : UInt16} {instructions : List TransceiverInstruction}
    (transceivers : List Address) (quotes : List ℕ) (total : ℕ) :
    Alike dec s₀ t₀ (NttManager.quoteLoop chain instructions transceivers quotes total)
      (NttManager.quoteLoop chain instructions transceivers quotes total) := by
  induction transceivers generalizing quotes total with
  | nil => exact pure _
  | cons transceiver rest ih =>
      refine bind_load fun s t h => ?_
      rw [h.registry]
      exact bind (liftExcept _) fun _ => bind (external _) fun _ => bind (liftExcept _) fun _ =>
        ih _ _

theorem sendLoop {chain : UInt16} {refund peer : Bytes32}
    {instructions : List TransceiverInstruction} {payload : Bytes}
    (transceivers : List (Address × ℕ)) :
    Alike dec s₀ t₀
      (NttManager.sendLoop chain refund peer instructions payload transceivers)
      (NttManager.sendLoop chain refund peer instructions payload transceivers) := by
  induction transceivers with
  | nil => exact pure _
  | cons transceiver rest ih =>
      refine bind_load fun s t h => ?_
      rw [h.registry]
      exact bind (liftExcept _) fun _ => bind (external _) fun _ => ih

theorem prepareForTransfer (chain : UInt16) (instructions : Bytes) :
    Alike dec s₀ t₀ (M.prepareForTransfer ctx chain instructions)
      (M.prepareForTransfer ctx chain instructions) := by
  refine bind_load fun s t h => ?_
  rw [h.registry]
  refine bind (revertIf _ _) fun _ => bind (liftExcept _) fun _ => bind (quoteLoop _ _ _) fun r =>
    bind (revertIf _ _) fun _ => ?_
  by_cases hexcess : ctx.value - r.2 > 0
  · rw [if_pos hexcess]
    exact bind (refundToSender _) fun _ => pure _
  · rw [if_neg hexcess]
    exact bind (pure _) fun _ => pure _

theorem sendTransfer (sequence : UInt64) (amount : TrimmedAmount) (chain : UInt16)
    (recipient refund : Bytes32) (sender : Address) (instructions : Bytes) :
    Alike dec s₀ t₀
      (M.sendTransfer ctx sequence amount chain recipient refund sender instructions)
      (M.sendTransfer ctx sequence amount chain recipient refund sender instructions) := by
  rw [NttManager.sendTransfer]
  generalize M.encodeTransfer sequence amount chain recipient sender = encoded
  refine bind (revertIf _ _) fun _ => bind (prepareForTransfer _ _) fun r => ?_
  obtain ⟨transceivers, instructions, quotes, total⟩ := r
  refine bind (liftExcept _) fun message => bind (liftExcept _) fun payload =>
    bind_load fun s t h => ?_
  rw [h.peers]
  refine bind (perform rfl fun _ _ h => by cases h) fun _ => bind ?_ fun _ => ?_
  · exact bind (revertIf _ _) fun _ => sendLoop _
  · exact bind (external _) fun _ => bind (liftExcept _) fun _ => pure _

theorem pullTokens (amount : ℕ) :
    Alike dec s₀ t₀ (M.pullTokens ctx amount) (M.pullTokens ctx amount) := by
  refine bind (external _) fun _ => bind (external _) fun _ => bind (external _) fun _ =>
    bind (liftExcept _) fun _ => ?_
  cases M.mode with
  | locking => exact pure _
  | burning =>
      exact bind (external _) fun _ => bind (external _) fun _ => bind (revertIf _ _) fun _ =>
        pure _

end Alike

/-! ### The amount of a transfer -/

/-- What arrives was trimmed to an amount without loss. -/
def TrimsTo (dec : UInt8) (received : ℕ) (amount : TrimmedAmount) : Prop :=
  (∃ toDecimals, trim received dec toDecimals = .ok amount) ∧ amount.untrim dec = .ok received

/-- The amount of a transfer can be shifted to the decimals of the token if and only if what
arrived fits there. -/
theorem TrimsTo.shift_ok_iff {received : ℕ} {amount : TrimmedAmount}
    (h : TrimsTo dec received amount) :
    (∃ shifted, amount.shift dec = .ok shifted) ↔ received / 10 ^ (dec.toNat - 8) < 2 ^ 64 := by
  obtain ⟨⟨toDecimals, htrim⟩, huntrim⟩ := h
  have hwire : amount.getDecimals.toNat = min (min 8 dec.toNat) toDecimals.toNat := by
    rw [(trim_eq_ok.mp htrim).1, toNat_wireDecimals]
  have hactual : (minUint8 TRIMMED_DECIMALS dec).toNat = min 8 dec.toNat := by simp
  have hback : Decimal.rescale amount.amount amount.getDecimals.toNat dec.toNat = received :=
    (untrim_eq_ok.mp huntrim).1
  have hscaled : Decimal.rescale amount.amount amount.getDecimals.toNat
      (minUint8 TRIMMED_DECIMALS dec).toNat = received / 10 ^ (dec.toNat - 8) := by
    rw [← Decimal.rescale_rescale (e := dec.toNat) (by omega) (by omega), hback,
      Decimal.rescale_of_ge (by omega)]
    congr 2
    omega
  have hpow : ∀ n ≤ 8, 10 ^ n < 2 ^ 256 := fun n hn =>
    lt_of_le_of_lt (Nat.pow_le_pow_right (by norm_num) hn) (by norm_num)
  have hscale : scale amount.getAmount.toNat amount.getDecimals (minUint8 TRIMMED_DECIMALS dec) =
      .ok (received / 10 ^ (dec.toNat - 8)) := by
    refine scale_eq_ok.mpr ⟨hscaled, fun _ => ⟨hpow _ (by omega), hpow _ (by omega)⟩, fun _ => ?_⟩
    calc amount.getAmount.toNat * 10 ^ _
        ≤ 2 ^ 64 * 10 ^ 8 := Nat.mul_le_mul amount.amount_lt.le
          (Nat.pow_le_pow_right (by norm_num) (by omega))
      _ < 2 ^ 256 := by norm_num
  simp only [TrimmedAmount.shift, hscale, bind, Except.bind]
  constructor
  · rintro ⟨shifted, hs⟩
    by_contra hlt
    rw [SafeCast.toUint64, if_neg hlt] at hs
    cases hs
  · intro hlt
    rw [SafeCast.toUint64_of_lt hlt]
    exact ⟨_, rfl⟩

/-! ### The two managers, call by call -/

section

variable {M : NttManager} {α β γ : Type} {U : State → Prop} {V : β → γ → Prop}

theorem quoteLoop_stops {chain : UInt16} {instructions : List TransceiverInstruction}
    {transceivers : List Address} {quotes : List ℕ} {total : ℕ} (hne : transceivers ≠ [])
    (ht : U t) :
    ((NttManager.quoteLoop chain instructions transceivers quotes total).run t).Stops
      (knownDecimals dec) U := by
  obtain ⟨transceiver, rest, rfl⟩ := List.exists_cons_of_ne_nil hne
  simp only [NttManager.quoteLoop, run_bind, run_load, Res.bind_ret, monadLift_eq_liftExcept]
  cases readAt instructions (t.storage.registry.index transceiver).toNat with
  | error e => exact Res.stops_revert e
  | ok instruction =>
      rw [run_liftExcept_ok, Res.bind_ret]
      exact Res.Stops.bind (Res.stops_call (X := managerInterface)
        (x := Ext.quoteDeliveryPrice transceiver chain instruction) rfl ht)

/-- To send a transfer, a transceiver is asked for its price first. -/
theorem sendTransfer_stops {sequence : UInt64} {amount : TrimmedAmount} {chain : UInt16}
    {recipient refund : Bytes32} {sender : Address} {instructions : Bytes} (ht : U t) :
    ((M.sendTransfer ctx sequence amount chain recipient refund sender instructions).run t).Stops
      (knownDecimals dec) U := by
  rw [NttManager.sendTransfer, NttManager.checkFork, run_bind, run_revertIf]
  split
  · exact Res.stops_revert _
  rw [Res.bind_ret, run_bind]
  refine Res.Stops.bind ?_
  rw [NttManager.prepareForTransfer, run_bind, run_load, Res.bind_ret, run_bind, run_revertIf]
  split
  · exact Res.stops_revert _
  rename_i hne
  rw [Res.bind_ret, run_bind]
  simp only [monadLift_eq_liftExcept]
  cases parseTransceiverInstructions M.bytes instructions
      t.storage.registry.registeredTransceivers.length with
  | error e => exact Res.stops_revert e
  | ok parsed =>
      rw [run_liftExcept_ok, Res.bind_ret, run_bind]
      exact (quoteLoop_stops (fun h => hne (List.length_eq_zero_iff.mpr h)) ht).bind

/-- What is alike is paired, whatever the excuse. -/
theorem Alike.pairs {m m' : ManagerProg α} (h : Alike dec s₀ t₀ m m') :
    Pairs dec s₀ t₀ U (fun _ _ => True) m m' :=
  fun s t hst => (h s t hst).weaken (fun _ h => h.elim) fun _ _ _ => trivial

namespace Pairs

variable {W : α → α → Prop} {m m' : ManagerProg α} {f : α → ManagerProg β}
  {g : α → ManagerProg γ}

/-- A part without an excuse comes first. -/
theorem bind (hm : Pairs dec s₀ t₀ (fun _ => False) W m m')
    (hf : ∀ a b, W a b → Pairs dec s₀ t₀ U V (f a) (g b)) :
    Pairs dec s₀ t₀ U V (m >>= f) (m' >>= g) :=
  fun s t h => (hm s t h).bind (fun _ h => h.elim) (fun a b s' t' hw h' => hf a b hw s' t' h')
    fun _ _ h => h.elim

/-- A part that is alike comes first. -/
theorem bind_alike (hm : Alike dec s₀ t₀ m m')
    (hf : ∀ a, Pairs dec s₀ t₀ U V (f a) (g a)) :
    Pairs dec s₀ t₀ U V (m >>= f) (m' >>= g) :=
  bind hm fun a _ hab => hab ▸ hf a

theorem bind_revertIf {c : Prop} [Decidable c] {e : Error} {f : Unit → ManagerProg β}
    {g : Unit → ManagerProg γ} (hf : ¬ c → Pairs dec s₀ t₀ U V (f ()) (g ())) :
    Pairs dec s₀ t₀ U V (revertIf c e >>= f) (revertIf c e >>= g) := by
  intro s t h
  rw [run_bind, run_bind, run_revertIf, run_revertIf]
  split
  · exact .revert e e
  · rename_i hc
    exact hf hc s t h

theorem bind_liftExcept {x : Except Error α} (hf : ∀ a, x = .ok a →
    Pairs dec s₀ t₀ U V (f a) (g a)) :
    Pairs dec s₀ t₀ U V (liftExcept x >>= f) (liftExcept x >>= g) := by
  intro s t h
  cases x with
  | ok a => exact hf a rfl s t h
  | error e => exact .revert e e

theorem bind_load {f : Storage → ManagerProg β} {g : Storage → ManagerProg γ}
    (hf : ∀ s t, Fitting dec s₀ t₀ s t → Pairs dec s₀ t₀ U V (f s.storage) (g t.storage)) :
    Pairs dec s₀ t₀ U V (load >>= f) (load >>= g) :=
  fun s t h => hf s t h s t h

theorem bind_tokenDecimals {f : UInt8 → ManagerProg β} {g : UInt8 → ManagerProg γ}
    (hf : Pairs dec s₀ t₀ U V (f dec) (g dec)) :
    Pairs dec s₀ t₀ U V (NttManager.tokenDecimals >>= f) (NttManager.tokenDecimals >>= g) := by
  intro s t h
  refine .silent_left (r := dec) rfl (.silent_right (r := dec) rfl ?_)
  exact hf s t h

theorem pure {b : β} {c : γ} (hv : V b c) :
    Pairs dec s₀ t₀ U V (pure b : ManagerProg β) (Pure.pure c) :=
  fun _ _ h => .ret hv h

end Pairs

/-- Both send the same amount. -/
theorem trimTransferAmount_pairs (received : ℕ) (chain : UInt16) :
    Pairs dec s₀ t₀ (fun _ => False) (fun a b => a = b ∧ TrimsTo dec received a)
      (NttManager.trimTransferAmount received chain)
      (NttManager.trimTransferAmount received chain) := by
  refine .bind_load fun s t h => ?_
  rw [h.peers]
  refine .bind_revertIf fun _ => .bind_tokenDecimals <| .bind_liftExcept fun amount htrim =>
    .bind_liftExcept fun back huntrim => .bind_revertIf fun hdust => .pure ⟨rfl, ⟨_, htrim⟩, ?_⟩
  rw [not_ne_iff] at hdust
  rw [hdust]
  exact huntrim

/-- The guard, around bodies that are paired. -/
theorem nonReentrant_pairs {body body' : ManagerProg Unit}
    (hbody : Pairs dec s₀ t₀ (Overflows dec) (fun _ _ => True) body body') :
    Pairs dec s₀ t₀ (Overflows dec) (fun _ _ => True) (nonReentrant ctx body)
      (nonReentrant ctx body') := by
  refine .bind_load fun s t h => ?_
  rw [h.entered]
  refine .bind_revertIf fun _ => .bind_alike (.perform rfl nofun) fun _ => fun s t h => ?_
  refine (hbody s t h).bind (fun _ h => h)
    (fun _ _ s' t' _ h' => .ret trivial (h'.perform rfl nofun)) ?_
  rintro _ t' ⟨e, he, hoverflow⟩ u hu
  cases hu
  exact ⟨e, List.mem_cons_of_mem _ he, hoverflow⟩

variable (hD : M.rateLimitDuration = 0)
include hD

/-- Without a duration no limit applies. -/
theorem isAmountRateLimited_off {a : TrimmedAmount} {p : RateLimitParams} :
    RateLimiter.isAmountRateLimited M.rateLimitDuration ctx.timestamp a p = .ok false := by
  rw [hD]
  rfl

/-- And none is consumed or refilled. -/
theorem apply_off (op : RateLimitOp) {p : RateLimitParams} (hop : ∀ l, op ≠ .setLimit l) :
    op.apply M.rateLimitDuration ctx.timestamp p = .ok p := by
  rw [hD]
  cases op with
  | setLimit l => exact absurd rfl (hop l)
  | consume a => rfl
  | backfill a => rfl

theorem enqueueOrConsumeInboundRateLimit_alike (digest : Bytes32) (chain : UInt16)
    (amount : TrimmedAmount) (recipient : Address) :
    Alike dec s₀ t₀ (M.enqueueOrConsumeInboundRateLimit ctx digest chain amount recipient)
      (NttManagerNoRateLimiting.enqueueOrConsumeInboundRateLimit digest chain amount
        recipient) := by
  intro s t h
  simp only [NttManager.enqueueOrConsumeInboundRateLimit, NttManager.updateInboundLimit,
    NttManager.updateOutboundLimit, run_bind, run_load, Res.bind_ret, monadLift_eq_liftExcept,
    isAmountRateLimited_off hD, apply_off hD (.consume amount) (by intro _ h; cases h),
    apply_off hD (.backfill amount) (by intro _ h; cases h), run_liftExcept_ok,
    Bool.false_eq_true, if_false, run_perform]
  exact .ret rfl ⟨(h.limits_left _ _).2, h.fits⟩

theorem handleTransfer_alike (chain : UInt16) (source : Bytes32) (message : NttManagerMessage)
    (digest : Bytes32) :
    Alike dec s₀ t₀ (M.handleTransfer ctx chain source message digest)
      (NttManagerNoRateLimiting.handleTransfer M ctx chain source message digest) := by
  refine .bind (.liftExcept _) fun _ => .bind (.revertIf _ _) fun _ => .bind (.external _) fun _ =>
    .bind (.liftExcept _) fun _ => .bind (.liftExcept _) fun _ => .bind (.liftExcept _) fun _ =>
    .bind (enqueueOrConsumeInboundRateLimit_alike hD _ _ _ _) fun enqueued => ?_
  cases enqueued with
  | true => exact .pure _
  | false => exact .mintOrUnlockToRecipient _ _ _

theorem executeMsg_alike (chain : UInt16) (source : Bytes32) (message : NttManagerMessage) :
    Alike dec s₀ t₀ (M.executeMsg ctx chain source message)
      (NttManagerNoRateLimiting.executeMsg M ctx chain source message) := by
  refine .bind .whenNotPaused fun _ => .bind (.isMessageExecuted _ _ _) fun r => ?_
  obtain ⟨digest, executed⟩ := r
  cases executed with
  | true => exact .pure _
  | false => exact handleTransfer_alike hD chain source message digest

theorem attestationReceived_alike (chain : UInt16) (source : Bytes32)
    (message : NttManagerMessage) :
    Alike dec s₀ t₀ (M.attestationReceived ctx chain source message)
      (NttManagerNoRateLimiting.attestationReceived M ctx chain source message) := by
  refine .bind .onlyTransceiver fun _ => .bind .whenNotPaused fun _ => .bind ?_ fun _ =>
    .bind (.recordTransceiverAttestation _ _ _) fun digest => .bind_load fun s t h => ?_
  · refine .bind_load fun s t h => ?_
    rw [h.peers]
    exact .revertIf _ _
  · rw [h.isMessageApproved]
    cases t.storage.isMessageApproved digest with
    | true => exact executeMsg_alike hD _ _ _
    | false => exact .pure _

/-- Once a transfer has its sequence, both send its message, or the amount overflows. -/
theorem send_agrees (transfer : Transfer) {shouldQueue : Bool} {n sequence : UInt64}
    (h : Fitting dec s₀ t₀ s t) (htrim : TrimsTo dec transfer.received transfer.amount) :
    ((do
      let enqueued ← M.enqueueOrConsumeOutboundRateLimit ctx transfer shouldQueue sequence
      if enqueued then
        return ()
      else
        M.sendTransfer ctx sequence transfer.amount transfer.recipientChain transfer.recipient
          transfer.refundAddress transfer.sender transfer.transceiverInstructions :
        ManagerProg Unit).run (s.perform ctx (.useMessageSequence n transfer))).Agrees
      (knownDecimals dec) (Fitting dec s₀ t₀) (Overflows dec) (fun _ _ => True)
      ((M.sendTransfer ctx sequence transfer.amount transfer.recipientChain transfer.recipient
          transfer.refundAddress transfer.sender transfer.transceiverInstructions).run
        (t.perform ctx (.useMessageSequence n transfer))) := by
  have hm : Matching s₀ t₀ (s.perform ctx (.useMessageSequence n transfer))
      (t.perform ctx (.useMessageSequence n transfer)) := h.toMatching.perform rfl
  refine .silent_left (r := dec) rfl ?_
  change Res.Agrees _ _ _ _ ((Prog.run (liftExcept (transfer.amount.shift dec) >>= _) _).bind _) _
  cases hshift : transfer.amount.shift dec with
  | error e =>
      refine .excused (sendTransfer_stops ?_).shows
      refine ⟨_, List.mem_cons_self, n, transfer, rfl, ?_⟩
      by_contra hlt
      obtain ⟨shifted, hs⟩ := htrim.shift_ok_iff.mpr (Nat.not_le.mp hlt)
      rw [hshift] at hs
      cases hs
  | ok shifted =>
      have hfits : ¬ Overflows dec (t.perform ctx (.useMessageSequence n transfer)) := by
        rintro ⟨e, he, n', transfer', hact, hge⟩
        rcases List.mem_cons.mp he with rfl | he
        · cases hact
          exact absurd (htrim.shift_ok_iff.mp ⟨shifted, hshift⟩) (Nat.not_lt.mpr hge)
        · exact h.fits ⟨e, he, n', transfer', hact, hge⟩
      simp only [NttManager.updateInboundLimit, NttManager.updateOutboundLimit, run_bind, run_load,
        Res.bind_ret, monadLift_eq_liftExcept, isAmountRateLimited_off hD,
        apply_off hD (.consume shifted) (by intro _ h; cases h),
        apply_off hD (.backfill shifted) (by intro _ h; cases h), run_liftExcept_ok,
        Bool.false_eq_true, if_false, run_perform, run_pure]
      exact (Alike.sendTransfer _ _ _ _ _ _ _).pairs _ _ ⟨(hm.limits_left _ _).1, hfits⟩

theorem transfer_pairs (amount : ℕ) (chain : UInt16) (recipient refund : Bytes32)
    (shouldQueue : Bool) (instructions : Bytes) :
    Pairs dec s₀ t₀ (Overflows dec) (fun _ _ => True)
      (M.transfer ctx amount chain recipient refund shouldQueue instructions)
      (NttManagerNoRateLimiting.transfer M ctx amount chain recipient refund shouldQueue
        instructions) := by
  refine nonReentrant_pairs <| .bind_alike .whenNotPaused fun _ => .bind_revertIf fun _ =>
    .bind_revertIf fun _ => .bind_revertIf fun _ => .bind_alike (.pullTokens _) fun received =>
    .bind (trimTransferAmount_pairs received chain) ?_
  rintro trimmed _ ⟨rfl, htrim⟩ s t h
  simp only [NttManager.useMessageSequence, run_bind, run_load, Res.bind_ret, run_revertIf,
    h.messageSequence]
  split
  · exact .revert _ _
  · exact send_agrees hD ⟨amount, received, trimmed, chain, recipient, refund, ctx.sender,
      instructions⟩ h htrim

/-- The calls that transfer, attest and execute. -/
def isTransferCall : NttManager.Call → Bool
  | .transfer .. | .transferSimple .. | .attestationReceived .. | .executeMsg .. => true
  | _ => false

theorem body_agrees {e : NttManager.Call} (he : isTransferCall e = true)
    (h : Fitting dec s₀ t₀ s t) :
    ((M.body ctx e).run s).Agrees (knownDecimals dec) (Fitting dec s₀ t₀) (Overflows dec)
      (fun _ _ => True) ((NttManagerNoRateLimiting.body M ctx e).run t) := by
  cases e with
  | transfer | transferSimple => exact transfer_pairs hD _ _ _ _ _ _ s t h
  | attestationReceived =>
      exact (Alike.bind .nonPayable fun _ => attestationReceived_alike hD _ _ _).pairs s t h
  | executeMsg => exact (Alike.bind .nonPayable fun _ => executeMsg_alike hD _ _ _).pairs s t h
  | _ => cases he

/-- One move of the environment on a manager and on one without rate limiting, with the same
token and immutables. The calls are those that transfer, attest and execute. -/
abbrev SideBySide (M : NttManager) (dec : UInt8) :
    Side managerInterface State Error × Side managerInterface State Error →
      Side managerInterface State Error × Side managerInterface State Error → Prop :=
  JointStep (knownDecimals dec) (fun e : Context × NttManager.Call => isTransferCall e.2 = true)
    M.contract.body
    (NttManagerNoRateLimiting.contract M).body

/-- The same calls have succeeded and failed, the same external calls are in progress with the
same arguments, and the states match. -/
def SameCourse (s₀ t₀ : State)
    (p : Side managerInterface State Error × Side managerInterface State Error) : Prop :=
  p.1.outcomes = p.2.outcomes ∧ p.1.stack.map (·.ext) = p.2.stack.map (·.ext) ∧
    Matching s₀ t₀ p.1.st p.2.st

end

/-- A transfer of `2 ^ 63` units at the six decimals of its chain, of a token with 18 decimals. -/
def sampleLarge : Context × NttManager.Call :=
  (NttManager.sampleContext 0x5000, .transferSimple (2 ^ 63 * 10 ^ 12) 4 0x4000)

end Ntt
