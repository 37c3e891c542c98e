import Ntt.Evm.State
import Ntt.Lib.Trace

/-!
# The Special Relayer

`SpecialRelayer` of the contracts, as programs over its state. An execution is requested with a
quote that an authorised quoter signed off chain. The relayer checks the quote, pays the payee
what the quote asks for, and returns the rest of the value to its caller.

Payments are low-level calls: the callee gets control with the value, and the caller learns
whether it accepted. What happens in a call that fails is undone (`callValue`).

The signature check is a parameter, as are the hash function and, behind a call, the registry of
the quoters.
-/

namespace Ntt

open Reentrant

/-- The reasons for which a call of the relayer reverts; `external` is whatever a library or
another contract raises. -/
inductive RelayerError where
  | insufficientPayment (required received : ℕ)
  | refundFailed (recipient : Address) (amount : ℕ)
  | invalidQuoteLength (length : ℕ)
  | invalidQuotePrefix (pre : BitVec 32)
  | invalidQuoteSourceChain (expected actual : UInt16)
  | invalidQuoteTargetChain (expected actual : UInt16)
  | quoteExpired (expiryTime : UInt64)
  | invalidQuoteSigner (signer : Address)
  | invalidPayeeAddress (payeeAddress : Bytes32)
  | quotePaymentFailed (payee : Address) (payment : ℕ)
  | relayInstructionsGasLimitMismatch (expected actual : ℕ)
  | sourceChainIdNotSet
  | executionQuoterNotSet
  | withdrawFailed
  | callerIsNotTheOwner
  | reentrantCall
  | nonPayable
  | abiDecoding
  | external
deriving DecidableEq, Repr

/-! ### Signed quotes -/

/-- The fields of a signed quote. -/
structure ParsedQuote where
  /-- The prefix. -/
  pre : BitVec 32
  quotedQuoter : Address
  universalPayeeAddress : Bytes32
  signedSourceChain : UInt16
  signedTargetChain : UInt16
  expiryTime : UInt64
  gasLimit : ℕ
  requiredPayment : ℕ
deriving DecidableEq, Repr

/-- The prefix of signed quotes, `PQ01`. -/
def SIGNED_QUOTE_PREFIX : BitVec 32 := 0x50513031

/-- The length of what is signed. -/
def SIGNED_QUOTE_BODY_LENGTH : ℕ := 132

/-- The length with the signature. -/
def SIGNED_QUOTE_LENGTH : ℕ := SIGNED_QUOTE_BODY_LENGTH + 65

/-- Reads the fields of a quote at their offsets. -/
def parseSignedQuote (signedQuoteBytes : Bytes) : Except RelayerError ParsedQuote :=
  if signedQuoteBytes.length ≠ SIGNED_QUOTE_LENGTH then
    .error (.invalidQuoteLength signedQuoteBytes.length)
  else
    .ok
      { pre := BitVec.ofNat 32 (numberAt signedQuoteBytes 0 4)
        quotedQuoter := BitVec.ofNat 160 (numberAt signedQuoteBytes 4 20)
        universalPayeeAddress := BitVec.ofNat 256 (numberAt signedQuoteBytes 24 32)
        signedSourceChain := UInt16.ofNat (numberAt signedQuoteBytes 56 2)
        signedTargetChain := UInt16.ofNat (numberAt signedQuoteBytes 58 2)
        expiryTime := UInt64.ofNat (numberAt signedQuoteBytes 60 8)
        gasLimit := numberAt signedQuoteBytes 68 32
        requiredPayment := numberAt signedQuoteBytes 100 32 }

/-- `abi.decode` of a `uint256`; bytes after the word are ignored. -/
def abiDecodeUint256 (b : Bytes) : Except RelayerError ℕ :=
  if b.length < 32 then .error .abiDecoding else .ok (numberAt b 0 32)

/-! ### State and calls -/

/-- The calls of the relayer: to the quoter, and with native value to anyone. -/
inductive RelayerExt where
  | requestQuote (quoter : Address) (dstChain : UInt16) (dstAddr : Bytes32) (refundAddr : Address)
      (requestBytes relayInstructions : Bytes)
  | isAuthorizedQuoter (quoter signer : Address)
  | call (recipient : Address) (amount : ℕ)
deriving DecidableEq, Repr

/-- The replies to them; that of a payment says whether it was accepted. -/
def RelayerExt.Reply : RelayerExt → Type
  | .requestQuote .. => ℕ
  | _ => Bool

/-- The external calls of the relayer. -/
abbrev relayerInterface : Interface := ⟨RelayerExt, RelayerExt.Reply⟩

/-- A deployed relayer: its address, and the functions it uses that are not part of the
repository. -/
structure SpecialRelayer where
  /-- The address of the relayer. -/
  this : Address
  keccak256 : Bytes → Bytes32
  /-- The signer of a hash, from a signature given by `v`, `r` and `s`. -/
  recover : Bytes32 → UInt8 → Bytes32 → Bytes32 → Except RelayerError Address

namespace SpecialRelayer

/-- The storage of the relayer. -/
structure Storage where
  owner : Address
  pendingOwner : Address
  penguinBridgeExecutionQuoter : Address
  sourceChainId : UInt16
  /-- The status of the re-entrancy guard. -/
  entered : Bool
deriving DecidableEq, Repr

/-- What the log of the relayer holds. -/
inductive LogEntry where
  /-- Native value came in. -/
  | received (sender : Address) (amount : ℕ)
  /-- Native value went out. -/
  | paid (recipient : Address) (amount : ℕ)
  /-- The event that the backend waits for. -/
  | executionRequested (dstChain : UInt16) (dstAddr : Bytes32)
      (requestBytes relayInstructions : Bytes)
deriving DecidableEq, Repr

/-- The state of the relayer: its storage, its native balance and the log, newest first. -/
structure State where
  storage : Storage
  balance : ℕ
  log : List LogEntry
deriving DecidableEq, Repr

/-- Native value comes in. -/
def State.receive (s : State) (sender : Address) (amount : ℕ) : State :=
  { s with balance := s.balance + amount, log := .received sender amount :: s.log }

/-- Native value goes out. -/
def State.pay (s : State) (recipient : Address) (amount : ℕ) : State :=
  { s with balance := s.balance - amount, log := .paid recipient amount :: s.log }

/-- Writes the storage. -/
def State.update (s : State) (f : Storage → Storage) : State := { s with storage := f s.storage }

/-- A program of the relayer. -/
abbrev RelayerProg (α : Type) : Type := Prog relayerInterface State RelayerError α

/-- Reads the storage. -/
def load : RelayerProg Storage := do
  return (← get).storage

theorem run_load (s : State) : load.run s = .ret s.storage s := rfl

/-- Pays by a low-level call; the reply says whether the recipient accepted. A call that is not
funded fails, and all that happens in a call that fails is undone. -/
def callValue (recipient : Address) (amount : ℕ) : RelayerProg Bool := do
  let s ← get
  if s.balance < amount then
    return false
  else
    modify (·.pay recipient amount)
    let accepted : Bool ← call (X := relayerInterface) (.call recipient amount)
    if accepted then
      return true
    else
      modify fun _ => s
      return false

/-- Asks the registry of the quoters. -/
def isAuthorizedQuoter (quoter signer : Address) : RelayerProg Bool :=
  call (X := relayerInterface) (.isAuthorizedQuoter quoter signer)

/-- The modifier `nonReentrant`. -/
def nonReentrant (body : RelayerProg Unit) : RelayerProg Unit := do
  let st ← load
  revertIf (st.entered = true) .reentrantCall
  modify (·.update fun st => { st with entered := true })
  body
  modify (·.update fun st => { st with entered := false })

/-- The modifier `onlyOwner`. -/
def onlyOwner (ctx : Context) : RelayerProg Unit := do
  let st ← load
  revertIf (st.owner ≠ ctx.sender) .callerIsNotTheOwner

variable (R : SpecialRelayer)

/-- The signer of a quote: of the hash of its body, by the signature after it. -/
def recoverQuoteSigner (signedQuoteBytes : Bytes) : Except RelayerError Address :=
  R.recover (R.keccak256 (signedQuoteBytes.take SIGNED_QUOTE_BODY_LENGTH))
    (UInt8.ofNat (numberAt signedQuoteBytes (SIGNED_QUOTE_BODY_LENGTH + 64) 1))
    (BitVec.ofNat 256 (numberAt signedQuoteBytes SIGNED_QUOTE_BODY_LENGTH 32))
    (BitVec.ofNat 256 (numberAt signedQuoteBytes (SIGNED_QUOTE_BODY_LENGTH + 32) 32))

/-- Whom a quote pays: the owner, where the signer leaves the payee unset. -/
def payeeOf (st : Storage) (q : ParsedQuote) : Address :=
  let payee : Address := q.universalPayeeAddress.setWidth 160
  if payee = 0 then st.owner else payee

/-- The payments of an execution: exactly the quoted amount to the payee, any excess back to the
caller. -/
def payQuote (ctx : Context) (payee : Address) (requiredPayment : ℕ) : RelayerProg Unit := do
  let paid ← callValue payee requiredPayment
  revertIf (paid = false) (.quotePaymentFailed payee requiredPayment)
  let refund := ctx.value - requiredPayment
  if refund > 0 then
    let refunded ← callValue ctx.sender refund
    revertIf (refunded = false) (.refundFailed ctx.sender refund)

/-- Checks a quote, and pays what it asks for. -/
def validateAndPay (ctx : Context) (dstChain : UInt16)
    (signedQuoteBytes relayInstructions : Bytes) : RelayerProg Unit := do
  let st ← load
  let executionQuoter := st.penguinBridgeExecutionQuoter
  revertIf (executionQuoter = 0) .executionQuoterNotSet
  let expectedSrcChain := st.sourceChainId
  revertIf (expectedSrcChain = 0) .sourceChainIdNotSet
  let q ← parseSignedQuote signedQuoteBytes
  revertIf (q.pre ≠ SIGNED_QUOTE_PREFIX) (.invalidQuotePrefix q.pre)
  revertIf (q.signedSourceChain ≠ expectedSrcChain)
    (.invalidQuoteSourceChain expectedSrcChain q.signedSourceChain)
  revertIf (q.signedTargetChain ≠ dstChain) (.invalidQuoteTargetChain dstChain q.signedTargetChain)
  revertIf (ctx.timestamp > q.expiryTime) (.quoteExpired q.expiryTime)
  revertIf (ctx.value < q.requiredPayment) (.insufficientPayment q.requiredPayment ctx.value)
  -- the relayer cannot give less gas than the quoter signed
  let instructedGasLimit ← abiDecodeUint256 relayInstructions
  revertIf (instructedGasLimit ≠ q.gasLimit)
    (.relayInstructionsGasLimitMismatch q.gasLimit instructedGasLimit)
  let signer ← R.recoverQuoteSigner signedQuoteBytes
  revertIf (signer ≠ q.quotedQuoter) (.invalidQuoteSigner signer)
  let authorized ← isAuthorizedQuoter executionQuoter signer
  revertIf (authorized = false) (.invalidQuoteSigner signer)
  revertIf (q.universalPayeeAddress.toNat ≥ 2 ^ 160) (.invalidPayeeAddress q.universalPayeeAddress)
  let st ← load
  payQuote ctx (payeeOf st q) q.requiredPayment

/-- `requestExecution`; the refund address is not used. -/
def requestExecution (ctx : Context) (dstChain : UInt16) (dstAddr : Bytes32)
    (_refundAddr : Address) (signedQuoteBytes requestBytes relayInstructions : Bytes) :
    RelayerProg Unit := do
  modify (·.receive ctx.sender ctx.value)
  nonReentrant do
    R.validateAndPay ctx dstChain signedQuoteBytes relayInstructions
    modify fun s => { s with
      log := .executionRequested dstChain dstAddr requestBytes relayInstructions :: s.log }

/-! ### The other functions -/

/-- `quoteDeliveryPrice`. -/
def quoteDeliveryPrice (targetChain : UInt16) (additionalValue : ℕ) (dstAddr : Bytes32)
    (relayInstructions : Bytes) : RelayerProg ℕ := do
  let st ← load
  revertIf (st.penguinBridgeExecutionQuoter = 0) .executionQuoterNotSet
  call (X := relayerInterface) (.requestQuote st.penguinBridgeExecutionQuoter targetChain dstAddr 0
    (BigEndian.beBytes 32 additionalValue) relayInstructions)

/-- `setExecutionQuoter`. -/
def setExecutionQuoter (ctx : Context) (executionQuoter : Address) : RelayerProg Unit := do
  revertIf (ctx.value ≠ 0) .nonPayable
  onlyOwner ctx
  modify (·.update fun st => { st with penguinBridgeExecutionQuoter := executionQuoter })

/-- `setSourceChainId`. -/
def setSourceChainId (ctx : Context) (chainId : UInt16) : RelayerProg Unit := do
  revertIf (ctx.value ≠ 0) .nonPayable
  onlyOwner ctx
  modify (·.update fun st => { st with sourceChainId := chainId })

/-- `withdraw`, which anyone may call: the whole balance goes to the owner. -/
def withdraw (ctx : Context) : RelayerProg Unit := do
  revertIf (ctx.value ≠ 0) .nonPayable
  let s ← get
  let ok ← callValue s.storage.owner s.balance
  revertIf (ok = false) .withdrawFailed

/-- `receive`. -/
def receive (ctx : Context) : RelayerProg Unit := modify (·.receive ctx.sender ctx.value)

end SpecialRelayer

end Ntt
