import Ntt.Lib.BitSet
import Ntt.Lib.Decimal
import Ntt.Solana.Messages
import Ntt.Solana.RateLimit

/-!
# The Accounts of the Solana Program

The data that the program keeps in its accounts, with the methods of each type: bitmaps, the
config, registered transceivers, peers, and the items of the two queues. An account that does not
exist is nothing, and one that an instruction creates starts out with zero bytes.

A bitmap is the set of the positions of its bits (`Bitmap.positions`).
-/

namespace Ntt.Solana

/-- An address. -/
abbrev Pubkey := Bytes32

/-- `Pubkey::default()`. -/
def Pubkey.default : Pubkey := 0

/-! ### Errors -/

/-- The errors of the program. -/
inductive NTTError where
  | cantReleaseYet
  | invalidPendingOwner
  | invalidChainId
  | invalidNttManagerPeer
  | invalidRecipientNttManager
  | transferAlreadyRedeemed
  | transferCannotBeRedeemed
  | transferNotApproved
  | messageAlreadySent
  | invalidMode
  | invalidMintAuthority
  | transferExceedsRateLimit
  | paused
  | disabledTransceiver
  | badAmountAfterTransfer
  | badAmountAfterBurn
  | zeroThreshold
  | overflowExponent
  | overflowScaledAmount
  | bitmapIndexOutOfBounds
  | noRegisteredTransceivers
  | notPaused
  | invalidPendingTokenAuthority
  | incorrectRentPayer
  | invalidMultisig
  | thresholdTooHigh
  | invalidTransceiverProgram
deriving DecidableEq, Repr

/-- How an instruction fails: an error of the program, a check of the framework, a panic, a message
that cannot be written, or an error of another program. -/
inductive Error where
  | ntt (e : NTTError)
  | accountNotInitialized
  | constraintHasOne
  | constraintAddress
  | constraintOwner
  | constraintExecutable
  | accountAlreadyInUse
  | panic (p : Panic)
  | io (e : IoError)
  | external
deriving DecidableEq, Repr

/-- A check that fails with an error. -/
def require (c : Prop) [Decidable c] (e : Error) : Except Error Unit :=
  if c then .ok () else .error e

/-- An account that has to exist. -/
def loadAccount {α : Type} : Option α → Except Error α
  | some account => .ok account
  | none => .error .accountNotInitialized

theorem require_eq_ok {c : Prop} [Decidable c] {e : Error} {u : Unit} :
    require c e = .ok u ↔ c := by
  rw [require]
  by_cases h : c <;> simp [h]

theorem loadAccount_eq_ok {α : Type} {x : Option α} {a : α} :
    loadAccount x = .ok a ↔ x = some a := by
  cases x <;> simp [loadAccount]

theorem mapError_eq_ok {ε ε' α : Type} {f : ε → ε'} {x : Except ε α} {a : α} :
    x.mapError f = .ok a ↔ x = .ok a := by
  cases x <;> simp [Except.mapError]

/-! ### Bitmaps -/

structure Bitmap where
  map : BitVec 128
deriving DecidableEq, Repr

namespace Bitmap

def BITS : UInt8 := 128

def new : Bitmap := ⟨0⟩

variable (self : Bitmap) (index : UInt8)

def set (value : Bool) : Except NTTError Bitmap :=
  if index ≥ BITS then .error .bitmapIndexOutOfBounds
  else if value then .ok ⟨self.map ||| BitVec.twoPow 128 index.toNat⟩
  else .ok ⟨self.map &&& ~~~ BitVec.twoPow 128 index.toNat⟩

def get : Except NTTError Bool :=
  if index ≥ BITS then .error .bitmapIndexOutOfBounds
  else .ok (self.map.getLsbD index.toNat)

/-- The indices of the bits that are set. -/
def positions : Finset ℕ := BitSet.positions self.map

def len : UInt8 := UInt8.ofNat self.positions.card

def countEnabledVotes (enabled : Bitmap) : UInt8 := len ⟨self.map &&& enabled.map⟩

def isEmpty : Bool := self.map = 0

variable {self index} {bitmap : Bitmap}

theorem lt_of_mem {i : ℕ} (h : i ∈ self.positions) : i < 128 := BitSet.lt_of_mem h

theorem toNat_len : self.len.toNat = self.positions.card := by
  have hle : self.positions.card ≤ 128 := BitSet.card_positions_le self.map
  rw [len, UInt8.toNat_ofNat']
  omega

theorem toNat_countEnabledVotes {enabled : Bitmap} :
    (self.countEnabledVotes enabled).toNat = (self.positions ∩ enabled.positions).card := by
  rw [countEnabledVotes, toNat_len, positions, BitSet.positions_and]
  rfl

theorem index_lt (h : ¬ index ≥ BITS) : index.toNat < 128 := by
  have hlt := UInt8.lt_iff_toNat_lt.mp (UInt8.not_le.mp h)
  exact hlt

theorem positions_set_true (h : self.set index true = .ok bitmap) :
    index.toNat < 128 ∧ bitmap.positions = insert index.toNat self.positions := by
  rw [set] at h
  split at h
  · cases h
  · rename_i hlt
    obtain rfl := Except.ok.inj h
    exact ⟨index_lt hlt, BitSet.positions_or_twoPow (index_lt hlt)⟩

theorem positions_set_false (h : self.set index false = .ok bitmap) :
    bitmap.positions = self.positions.erase index.toNat := by
  rw [set] at h
  split at h
  · cases h
  · obtain rfl := Except.ok.inj h
    exact BitSet.positions_and_not_twoPow

theorem get_eq_ok_true : self.get index = .ok true ↔ index.toNat ∈ self.positions := by
  rw [get, positions, BitSet.mem_positions]
  split
  · rename_i hge
    have hle : 128 ≤ index.toNat := UInt8.le_iff_toNat_le.mp hge
    simp [BitVec.getLsbD_of_ge self.map index.toNat hle]
  · simp

theorem positions_new : new.positions = ∅ := BitSet.positions_zero

end Bitmap

/-! ### Amounts -/

namespace TrimmedAmount

def TRIMMED_DECIMALS : UInt8 := 8

/-- `10u64.checked_pow(power)`. -/
def checkedPow10 (power : ℕ) : Except NTTError ℕ :=
  if 10 ^ power < 2 ^ 64 then .ok (10 ^ power) else .error .overflowExponent

/-- `checked_mul`. -/
def checkedMul (a b : ℕ) : Except NTTError UInt64 :=
  if a * b < 2 ^ 64 then .ok (UInt64.ofNat (a * b)) else .error .overflowScaledAmount

/-- An amount in other decimals. -/
def scale (amount : UInt64) (fromDecimals toDecimals : UInt8) : Except NTTError UInt64 :=
  if fromDecimals = toDecimals then return amount
  else if fromDecimals > toDecimals then do
    let scalingFactor ← checkedPow10 (fromDecimals - toDecimals).toNat
    return UInt64.ofNat (amount.toNat / scalingFactor)
  else do
    let scalingFactor ← checkedPow10 (toDecimals - fromDecimals).toNat
    checkedMul amount.toNat scalingFactor

def trim (amount : UInt64) (fromDecimals toDecimals : UInt8) : Except NTTError TrimmedAmount := do
  let toDecimals := min (min TRIMMED_DECIMALS fromDecimals) toDecimals
  let amount ← scale amount fromDecimals toDecimals
  return { amount, decimals := toDecimals }

def untrim (self : TrimmedAmount) (toDecimals : UInt8) : Except NTTError UInt64 :=
  scale self.amount self.decimals toDecimals

/-- The trimmed amount, and the amount without dust. -/
def removeDust (amount : UInt64) (fromDecimals toDecimals : UInt8) :
    Except NTTError (TrimmedAmount × UInt64) := do
  let trimmed ← trim amount fromDecimals toDecimals
  let amount ← trimmed.untrim fromDecimals
  return (trimmed, amount)

theorem checkedPow10_eq_ok {power n : ℕ} :
    checkedPow10 power = .ok n ↔ 10 ^ power < 2 ^ 64 ∧ 10 ^ power = n := by
  rw [checkedPow10]
  split
  · rename_i h
    rw [Except.ok.injEq, and_iff_right h]
  · rename_i h
    exact iff_of_false (fun hok => by cases hok) fun hpow => h hpow.1

theorem checkedMul_eq_ok {a b : ℕ} {x : UInt64} : checkedMul a b = .ok x ↔ x.toNat = a * b := by
  have hx := x.toNat_lt
  rw [checkedMul]
  split
  · rename_i hlt
    rw [Except.ok.injEq, UInt64.ofNat_eq_iff_mod_eq_toNat, Nat.mod_eq_of_lt hlt, eq_comm]
  · refine iff_of_false (fun hok => by cases hok) fun hmul => ?_
    omega

/-- Scaling fails only when a power of ten or the product leaves 64 bits. -/
theorem scale_eq_ok {a c : UInt64} {f t : UInt8} :
    scale a f t = .ok c ↔ c.toNat = Decimal.rescale a.toNat f.toNat t.toNat ∧
      (f ≠ t → 10 ^ (f.toNat - t.toNat) < 2 ^ 64 ∧ 10 ^ (t.toNat - f.toNat) < 2 ^ 64) := by
  rw [scale]
  rcases Decimal.order f t with rfl | ⟨hne, hgt, hlt, hsub⟩ | ⟨hne, hgt, hlt, hsub⟩
  · rw [if_pos rfl, Decimal.rescale_self, UInt64.toNat_inj, and_iff_left fun h => absurd rfl h]
    exact Except.pure_eq_ok.trans eq_comm
  · have hzero : t.toNat - f.toNat = 0 := by omega
    have hdiv : ∀ n, (UInt64.ofNat (a.toNat / n)).toNat = a.toNat / n := fun n =>
      UInt64.toNat_ofNat_of_lt ((Nat.div_le_self _ _).trans_lt a.toNat_lt)
    rw [if_neg hne, if_pos hgt, hsub, Decimal.rescale_of_ge hlt.le, hzero]
    simp only [Except.bind_eq_ok, checkedPow10_eq_ok, Except.pure_eq_ok]
    constructor
    · rintro ⟨_, ⟨hpow, rfl⟩, rfl⟩
      exact ⟨hdiv _, fun _ => ⟨hpow, by norm_num⟩⟩
    · rintro ⟨hc, hpow⟩
      exact ⟨_, ⟨(hpow hne).1, rfl⟩, UInt64.toNat_inj.mp ((hdiv _).trans hc.symm)⟩
  · have hzero : f.toNat - t.toNat = 0 := by omega
    rw [if_neg hne, if_neg hgt, hsub, Decimal.rescale_of_le hlt.le, hzero]
    simp only [Except.bind_eq_ok, checkedPow10_eq_ok, checkedMul_eq_ok]
    constructor
    · rintro ⟨_, ⟨hpow, rfl⟩, hc⟩
      exact ⟨hc, fun _ => ⟨by norm_num, hpow⟩⟩
    · rintro ⟨hc, hpow⟩
      exact ⟨_, ⟨(hpow hne).2, rfl⟩, hc⟩

end TrimmedAmount

/-! ### Config, transceivers and peers -/

inductive Mode where
  | locking
  | burning
deriving DecidableEq, Repr

structure Config where
  /-- Owner of the program. -/
  owner : Pubkey
  /-- Pending next owner, before claiming ownership. -/
  pendingOwner : Option Pubkey
  /-- The mint of the token. -/
  mint : Pubkey
  mode : Mode
  chainId : ChainId
  /-- The next transceiver id to use when registering a transceiver. -/
  nextTransceiverId : UInt8
  /-- The number of transceivers that must attest to a transfer. -/
  threshold : UInt8
  enabledTransceivers : Bitmap
  paused : Bool
  /-- The account that holds tokens in locking mode. -/
  custody : Pubkey
deriving DecidableEq

structure RegisteredTransceiver where
  id : UInt8
  transceiverAddress : Pubkey
deriving DecidableEq, Repr

/-- The account of a transceiver before it is set. -/
def RegisteredTransceiver.zeroed : RegisteredTransceiver := ⟨0, Pubkey.default⟩

structure NttManagerPeer where
  address : Bytes32
  tokenDecimals : UInt8
deriving DecidableEq, Repr

/-! ### The inbox -/

inductive ReleaseStatus where
  | notApproved
  | releaseAfter (timestamp : Int64)
  | released
deriving DecidableEq, Repr

structure InboxItem where
  /-- Whether the item has been initialized. -/
  init : Bool
  amount : UInt64
  recipientAddress : Pubkey
  votes : Bitmap
  releaseStatus : ReleaseStatus
deriving DecidableEq, Repr

namespace InboxItem

/-- The account of an item before it is set. -/
def zeroed : InboxItem := ⟨false, 0, Pubkey.default, .new, .notApproved⟩

/-- Releases an item whose time has come, and says whether it did. -/
def tryRelease (self : InboxItem) (now : Int64) : Except NTTError (InboxItem × Bool) :=
  match self.releaseStatus with
  | .notApproved => return (self, false)
  | .releaseAfter releaseTimestamp =>
      if releaseTimestamp > now then return (self, false)
      else return ({ self with releaseStatus := .released }, true)
  | .released => .error .transferAlreadyRedeemed

def releaseAfter (self : InboxItem) (releaseTimestamp : Int64) : Except NTTError InboxItem :=
  if self.releaseStatus ≠ .notApproved then .error .transferCannotBeRedeemed
  else return { self with releaseStatus := .releaseAfter releaseTimestamp }

end InboxItem

/-! ### The outbox -/

structure OutboxItem where
  amount : TrimmedAmount
  sender : Pubkey
  recipientChain : ChainId
  recipientNttManager : Bytes32
  recipientAddress : Bytes32
  releaseTimestamp : Int64
  released : Bitmap
deriving DecidableEq, Repr

/-- Marks an item as released by a transceiver if its time has come, and says whether it has. -/
def OutboxItem.tryRelease (self : OutboxItem) (now : Int64) (transceiverIndex : UInt8) :
    Except NTTError (OutboxItem × Bool) :=
  if self.releaseTimestamp > now then return (self, false)
  else do
    if (← self.released.get transceiverIndex) then
      throw .messageAlreadySent
    let released ← self.released.set transceiverIndex true
    return ({ self with released }, true)

end Ntt.Solana
