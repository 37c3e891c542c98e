import Mathlib.Data.Nat.Bitwise
import Mathlib.Tactic.Common

/-!
# Words, Trimmed Amounts and Errors of the EVM Contracts

The value types that the contracts share. Addresses and 32-byte words are bit vectors, the
64-, 16- and 8-bit integers are Lean's fixed-width ones, and a `uint256` is a natural number
whose operations check the bound (`checkedAdd`, `checkedSub`, `checkedMul`, `pow10`), as
Solidity's do outside `unchecked` blocks; the operations of an `unchecked` block wrap
(`wrappingAdd`, `wrappingSub`, `wrappingMul`).

A `TrimmedAmount` packs a 64-bit amount and 8 bits of decimals into a `uint72`. The packing is
modelled as the source has it; `getAmount_pack`, `getDecimals_pack` and `TrimmedAmount.ext_iff`
say that it is a faithful pair, and nothing below looks at the bits again.
-/

namespace Ntt

/-- A byte string: Solidity's `bytes`. -/
abbrev Bytes := List UInt8

/-- An account address. -/
abbrev Address := BitVec 160

/-- A 32-byte word: Solidity's `bytes32`. -/
abbrev Bytes32 := BitVec 256

/-! ### Trimmed amounts -/

/-- A bit-packed token amount with its decimals: bits 8 to 71 hold the amount, bits 0 to 7 the
decimals. -/
structure TrimmedAmount where
  /-- The raw `uint72`. -/
  unwrap : BitVec 72
deriving DecidableEq, Repr

/-- Packs an amount and its decimals. -/
def packTrimmedAmount (amt : UInt64) (decimals : UInt8) : TrimmedAmount :=
  ⟨(amt.toBitVec.setWidth 72 <<< 8) ||| decimals.toBitVec.setWidth 72⟩

namespace TrimmedAmount

/-- The amount, without its decimals. -/
def getAmount (a : TrimmedAmount) : UInt64 := ⟨(a.unwrap >>> 8).setWidth 64⟩

/-- The decimals. -/
def getDecimals (a : TrimmedAmount) : UInt8 := ⟨(a.unwrap &&& 0xFF).setWidth 8⟩

/-- The amount and the decimals are both zero. -/
def isNull (a : TrimmedAmount) : Bool := a.getAmount == 0 && a.getDecimals == 0

/-- Packing, in numbers. -/
theorem toNat_unwrap_pack (amt : UInt64) (decimals : UInt8) :
    (packTrimmedAmount amt decimals).unwrap.toNat = amt.toNat * 256 + decimals.toNat := by
  have ha : amt.toNat < 2 ^ 64 := amt.toNat_lt
  have hd : decimals.toNat < 2 ^ 8 := decimals.toNat_lt
  simp only [packTrimmedAmount, BitVec.toNat_or, BitVec.toNat_shiftLeft, BitVec.toNat_setWidth,
    UInt64.toNat_toBitVec, UInt8.toNat_toBitVec]
  rw [Nat.mod_eq_of_lt (show amt.toNat < 2 ^ 72 by omega),
    Nat.mod_eq_of_lt (show decimals.toNat < 2 ^ 72 by omega), Nat.shiftLeft_eq,
    Nat.mod_eq_of_lt (show amt.toNat * 2 ^ 8 < 2 ^ 72 by omega), ← Nat.shiftLeft_eq,
    ← Nat.shiftLeft_add_eq_or_of_lt hd, Nat.shiftLeft_eq]

/-- Unpacking the amount, in numbers. -/
theorem toNat_getAmount (a : TrimmedAmount) : a.getAmount.toNat = a.unwrap.toNat / 256 := by
  have h : a.unwrap.toNat < 2 ^ 72 := a.unwrap.isLt
  change ((a.unwrap >>> 8).setWidth 64).toNat = _
  rw [BitVec.toNat_setWidth, BitVec.toNat_ushiftRight, Nat.shiftRight_eq_div_pow,
    Nat.mod_eq_of_lt (by omega)]

/-- Unpacking the decimals, in numbers. -/
theorem toNat_getDecimals (a : TrimmedAmount) :
    a.getDecimals.toNat = a.unwrap.toNat % 256 := by
  change ((a.unwrap &&& 0xFF).setWidth 8).toNat = _
  rw [BitVec.toNat_setWidth, BitVec.toNat_and]
  have : (0xFF : BitVec 72).toNat = 2 ^ 8 - 1 := rfl
  rw [this, Nat.and_two_pow_sub_one_eq_mod]
  omega

@[simp] theorem getAmount_pack (amt : UInt64) (decimals : UInt8) :
    (packTrimmedAmount amt decimals).getAmount = amt := by
  have hd : decimals.toNat < 256 := decimals.toNat_lt
  apply UInt64.toNat_inj.mp
  rw [toNat_getAmount, toNat_unwrap_pack]
  omega

@[simp] theorem getDecimals_pack (amt : UInt64) (decimals : UInt8) :
    (packTrimmedAmount amt decimals).getDecimals = decimals := by
  have hd : decimals.toNat < 256 := decimals.toNat_lt
  apply UInt8.toNat_inj.mp
  rw [toNat_getDecimals, toNat_unwrap_pack]
  omega

/-- A trimmed amount is its amount and its decimals, and nothing else. -/
theorem eq_of_getAmount_getDecimals {a b : TrimmedAmount} (ha : a.getAmount = b.getAmount)
    (hd : a.getDecimals = b.getDecimals) : a = b := by
  have ha' : a.unwrap.toNat / 256 = b.unwrap.toNat / 256 := by
    rw [← toNat_getAmount, ← toNat_getAmount, ha]
  have hd' : a.unwrap.toNat % 256 = b.unwrap.toNat % 256 := by
    rw [← toNat_getDecimals, ← toNat_getDecimals, hd]
  have : a.unwrap = b.unwrap := BitVec.eq_of_toNat_eq (by omega)
  cases a
  cases b
  simp_all

@[simp] theorem pack_getAmount_getDecimals (a : TrimmedAmount) :
    packTrimmedAmount a.getAmount a.getDecimals = a :=
  eq_of_getAmount_getDecimals (getAmount_pack _ _) (getDecimals_pack _ _)

end TrimmedAmount

/-! ### Errors -/

/-- The reasons for which a call reverts: the custom errors of the contracts with their
arguments, the panics of the language, and `external` for whatever a library or another
contract raises. -/
inductive Error where
  -- `TrimmedAmount`
  | numberOfDecimalsNotEqual (decimals decimalsOther : UInt8)
  | safeCastDoesNotFit
  -- `TransceiverStructs`
  | payloadTooLong (size : ℕ)
  | incorrectPrefix (pre : BitVec 32)
  | unorderedInstructions (lastIndex instructionIndex : ℕ)
  | invalidInstructionIndex (providedIndex numTransceivers : ℕ)
  -- `TransceiverRegistry`
  | callerNotTransceiver (caller : Address)
  | invalidTransceiverZeroAddress
  | disabledTransceiver (transceiver : Address)
  | tooManyTransceivers
  | nonRegisteredTransceiver (transceiver : Address)
  | transceiverAlreadyEnabled (transceiver : Address)
  -- `RateLimiter`
  | notEnoughCapacity (currentCapacity amount : ℕ)
  | outboundQueuedTransferNotFound (queueSequence : UInt64)
  | outboundQueuedTransferStillQueued (queueSequence transferTimestamp : UInt64)
  | inboundQueuedTransferNotFound (digest : Bytes32)
  | inboundQueuedTransferStillQueued (digest : Bytes32) (transferTimestamp : UInt64)
  | capacityCannotExceedLimit (newCurrentCapacity newLimit : TrimmedAmount)
  -- `ManagerBase`
  | deliveryPaymentTooLow (requiredPayment providedPayment : ℕ)
  | retrievedIncorrectRegisteredTransceivers (retrieved registered : ℕ)
  | thresholdTooHigh (threshold transceivers : UInt8)
  | zeroThreshold
  | transceiverAlreadyAttestedToMessage (nttManagerMessageHash : Bytes32)
  | messageNotApproved (msgHash : Bytes32)
  | noEnabledTransceivers
  | peerNotRegistered (chainId : UInt16)
  -- `NttManager`
  | transferAmountHasDust (amount dust : ℕ)
  | invalidTargetChain (targetChain thisChain : UInt16)
  | zeroAmount
  | invalidRecipient
  | invalidRefundAddress
  | burnAmountDifferentThanBalanceDiff (burnAmount balanceDiff : ℕ)
  | invalidPeer (chainId : UInt16) (peerAddress : Bytes32)
  | invalidPeerChainIdZero
  | invalidPeerZeroAddress
  | invalidPeerDecimals
  | invalidPeerSameChainId
  | notImplemented
  | cancellerNotSender (canceller sender : Address)
  | invalidFork (evmChainId blockChainId : ℕ)
  -- `PausableOwnable` and `ReentrancyGuardUpgradeable`
  | requireContractIsNotPaused
  | requireContractIsPaused
  | invalidPauser (account : Address)
  | ownableUnauthorizedAccount (account : Address)
  | ownableInvalidOwner (owner : Address)
  | reentrancyGuardReentrantCall
  -- `WormholeTransceiver`
  | unexpectedRecipientNttManagerAddress (recipient expected : Bytes32)
  | callerNotRelayer (caller : Address)
  | invalidVaa (reason : String)
  | invalidWormholePeer (chainId : UInt16) (peerAddress : Bytes32)
  | transferAlreadyCompleted (vaaHash : Bytes32)
  | unexpectedAdditionalMessages
  | invalidWormholeChainIdZero
  | invalidWormholePeerZeroAddress
  | peerAlreadySet (chainId : UInt16) (peerAddress : Bytes32)
  | callerNotNttManager (caller : Address)
  | invalidRelayingConfig (chainId : UInt16)
  -- the language and code outside the contracts
  | assertFailed
  | arithmeticOverflow
  | indexOutOfBounds
  | nonPayable
  | external
deriving DecidableEq, Repr

/-! ### Arithmetic of `uint256` -/

/-- `uint256` addition, which reverts on overflow. -/
def checkedAdd (a b : ℕ) : Except Error ℕ :=
  if a + b < 2 ^ 256 then .ok (a + b) else .error .arithmeticOverflow

/-- `uint256` subtraction, which reverts on underflow. -/
def checkedSub (a b : ℕ) : Except Error ℕ :=
  if b ≤ a then .ok (a - b) else .error .arithmeticOverflow

/-- `uint256` multiplication, which reverts on overflow. -/
def checkedMul (a b : ℕ) : Except Error ℕ :=
  if a * b < 2 ^ 256 then .ok (a * b) else .error .arithmeticOverflow

/-- The power of ten `10 ** e`, which reverts on overflow. -/
def pow10 (e : UInt8) : Except Error ℕ :=
  if 10 ^ e.toNat < 2 ^ 256 then .ok (10 ^ e.toNat) else .error .arithmeticOverflow

/-- `uint256` addition in an `unchecked` block. -/
def wrappingAdd (a b : ℕ) : ℕ := (a + b) % 2 ^ 256

/-- `uint256` subtraction in an `unchecked` block. -/
def wrappingSub (a b : ℕ) : ℕ := (a + 2 ^ 256 - b) % 2 ^ 256

/-- `uint256` multiplication in an `unchecked` block. -/
def wrappingMul (a b : ℕ) : ℕ := a * b % 2 ^ 256

/-- A cast to 64 bits that reverts when the value does not fit. -/
def SafeCast.toUint64 (value : ℕ) : Except Error UInt64 :=
  if value < 2 ^ 64 then .ok (UInt64.ofNat value) else .error .safeCastDoesNotFit

/-- An `assert` of the source. -/
def assert (c : Prop) [Decidable c] : Except Error Unit :=
  if c then .ok () else .error .assertFailed

/-- An `if (c) revert e;` of the source, in a computation without effects. -/
def throwIf (c : Prop) [Decidable c] (e : Error) : Except Error Unit :=
  if c then .error e else .ok ()

@[simp] theorem checkedAdd_eq_ok {a b c : ℕ} :
    checkedAdd a b = .ok c ↔ a + b < 2 ^ 256 ∧ a + b = c := by
  unfold checkedAdd
  split <;> simp_all

@[simp] theorem checkedSub_eq_ok {a b c : ℕ} :
    checkedSub a b = .ok c ↔ b ≤ a ∧ a - b = c := by
  unfold checkedSub
  split <;> simp_all

@[simp] theorem checkedMul_eq_ok {a b c : ℕ} :
    checkedMul a b = .ok c ↔ a * b < 2 ^ 256 ∧ a * b = c := by
  unfold checkedMul
  split <;> simp_all

@[simp] theorem pow10_eq_ok {e : UInt8} {c : ℕ} :
    pow10 e = .ok c ↔ 10 ^ e.toNat < 2 ^ 256 ∧ 10 ^ e.toNat = c := by
  unfold pow10
  split <;> simp_all

@[simp] theorem SafeCast.toUint64_eq_ok {value : ℕ} {c : UInt64} :
    SafeCast.toUint64 value = .ok c ↔ c.toNat = value := by
  unfold SafeCast.toUint64
  split
  · rename_i h
    rw [Except.ok.injEq, ← UInt64.toNat_inj, UInt64.toNat_ofNat', Nat.mod_eq_of_lt h]
    exact eq_comm
  · rename_i h
    have : c.toNat < 2 ^ 64 := c.toNat_lt
    simp only [reduceCtorEq, false_iff]
    omega

theorem SafeCast.toUint64_of_lt {value : ℕ} (h : value < 2 ^ 64) :
    SafeCast.toUint64 value = .ok (UInt64.ofNat value) := by
  rw [SafeCast.toUint64, if_pos h]

@[simp] theorem assert_eq_ok {c : Prop} [Decidable c] {u : Unit} :
    assert c = .ok u ↔ c := by
  unfold assert
  split <;> simp_all

@[simp] theorem throwIf_eq_ok {c : Prop} [Decidable c] {e : Error} {u : Unit} :
    throwIf c e = .ok u ↔ ¬ c := by
  unfold throwIf
  split <;> simp_all

/-- Success of a sequence of computations. -/
@[simp] theorem Except.bind_eq_ok {ε α β : Type} {x : Except ε α} {f : α → Except ε β} {b : β} :
    (x >>= f) = .ok b ↔ ∃ a, x = .ok a ∧ f a = .ok b := by
  cases x <;> simp [bind, Except.bind]

/-- Success of a computation whose result is mapped. -/
@[simp] theorem Except.map_eq_ok {ε α β : Type} {x : Except ε α} {f : α → β} {b : β} :
    f <$> x = .ok b ↔ ∃ a, x = .ok a ∧ f a = b := by
  cases x <;> simp [Functor.map, Except.map]

@[simp] theorem Except.pure_eq_ok {ε α : Type} {a b : α} :
    (pure a : Except ε α) = .ok b ↔ a = b := by
  simp [pure, Except.pure]

/-- A computation that answers with a constant. -/
theorem Except.return_eq_ok {ε α β : Type} {x : Except ε α} {a : α} {b b' : β} :
    (do return (← x, b) : Except ε (α × β)) = .ok (a, b') ↔ x = .ok a ∧ b = b' := by
  simp only [Except.bind_eq_ok, Except.pure_eq_ok, Prod.mk.injEq]
  constructor
  · rintro ⟨_, hx, rfl, hb⟩
    exact ⟨hx, hb⟩
  · rintro ⟨hx, hb⟩
    exact ⟨a, hx, rfl, hb⟩

end Ntt
