import Ntt.Evm.Basic
import Ntt.Lib.Decimal

/-!
# The Trimmed Amount Library

`TrimmedAmountLib` of the contracts: comparison and arithmetic at equal decimals, and the
conversions `scale`, `shift`, `trim` and `untrim` between decimals. Trimming expresses an
amount in the fewest of 8, the source decimals and the destination decimals, and has to fit in
64 bits; untrimming takes it back to the decimals of a token.

## Main results

* `scale_eq_ok`, `trim_eq_ok`, `untrim_eq_ok`: when each conversion succeeds and what it
  returns, in terms of `Decimal.rescale`.
* `gt_of_eq`, `lt_of_eq`, `sub_of_eq`, `add_of_lt`, `min_of_eq`, `saturatingAdd_of_eq`: the
  operators at equal decimals, in numbers.
-/

namespace Ntt

open Decimal

/-- The most decimals that a trimmed amount is expressed in. -/
def TRIMMED_DECIMALS : UInt8 := 8

/-- The smaller of two `uint8`. -/
def minUint8 (a b : UInt8) : UInt8 := if a < b then a else b

@[simp] theorem toNat_minUint8 (a b : UInt8) :
    (minUint8 a b).toNat = min a.toNat b.toNat := by
  unfold minUint8
  split <;> rename_i h <;> rw [UInt8.lt_iff_toNat_lt] at h <;> omega

@[simp] theorem toNat_TRIMMED_DECIMALS : TRIMMED_DECIMALS.toNat = 8 := rfl

namespace TrimmedAmount

/-! ### Operators -/

/-- Two trimmed amounts can be compared and added only at equal decimals. -/
def checkDecimals (a b : TrimmedAmount) : Except Error Unit :=
  throwIf (a.getDecimals ≠ b.getDecimals)
    (.numberOfDecimalsNotEqual a.getDecimals b.getDecimals)

/-- The operator `>`. -/
def gt (a b : TrimmedAmount) : Except Error Bool := do
  checkDecimals a b
  return a.getAmount > b.getAmount

/-- The operator `<`. -/
def lt (a b : TrimmedAmount) : Except Error Bool := do
  checkDecimals a b
  return a.getAmount < b.getAmount

/-- The operator `-`, whose 64-bit subtraction is checked. -/
def sub (a b : TrimmedAmount) : Except Error TrimmedAmount := do
  checkDecimals a b
  if b.getAmount ≤ a.getAmount then
    return packTrimmedAmount (a.getAmount - b.getAmount) a.getDecimals
  else
    .error .arithmeticOverflow

/-- The operator `+`, whose 64-bit addition is checked. -/
def add (a b : TrimmedAmount) : Except Error TrimmedAmount := do
  checkDecimals a b
  if a.getAmount.toNat + b.getAmount.toNat < 2 ^ 64 then
    return packTrimmedAmount (a.getAmount + b.getAmount) b.getDecimals
  else
    .error .arithmeticOverflow

/-- The smaller of two trimmed amounts. -/
def min (a b : TrimmedAmount) : Except Error TrimmedAmount := do
  checkDecimals a b
  return if a.getAmount < b.getAmount then a else b

/-- Addition that stops at the largest 64-bit amount. -/
def saturatingAdd (a b : TrimmedAmount) : Except Error TrimmedAmount := do
  checkDecimals a b
  let saturatedSum := wrappingAdd a.getAmount.toNat b.getAmount.toNat
  let saturatedSum := if saturatedSum > 2 ^ 64 - 1 then 2 ^ 64 - 1 else saturatedSum
  return packTrimmedAmount (← SafeCast.toUint64 saturatedSum) a.getDecimals

@[simp] theorem checkDecimals_eq_ok {a b : TrimmedAmount} {u : Unit} :
    checkDecimals a b = .ok u ↔ a.getDecimals = b.getDecimals := by
  simp [checkDecimals]

/-- The check passes at equal decimals. -/
theorem checkDecimals_of_eq {a b : TrimmedAmount} (h : a.getDecimals = b.getDecimals) :
    checkDecimals a b = .ok () :=
  checkDecimals_eq_ok.mpr h

/-- The amount as a number. -/
abbrev amount (a : TrimmedAmount) : ℕ := a.getAmount.toNat

/-- The trimmed amount of a number that fits. -/
abbrev ofNat (n : ℕ) (decimals : UInt8) : TrimmedAmount :=
  packTrimmedAmount (UInt64.ofNat n) decimals

theorem amount_lt (a : TrimmedAmount) : a.amount < 2 ^ 64 := a.getAmount.toNat_lt

theorem amount_ofNat {n : ℕ} (h : n < 2 ^ 64) (decimals : UInt8) :
    (ofNat n decimals).amount = n := by
  rw [amount, getAmount_pack, UInt64.toNat_ofNat', Nat.mod_eq_of_lt h]

/-- A trimmed amount is determined by its number and its decimals. -/
theorem eq_ofNat {a : TrimmedAmount} {n : ℕ} {decimals : UInt8} (ha : a.amount = n)
    (hd : a.getDecimals = decimals) : a = ofNat n decimals := by
  refine eq_of_getAmount_getDecimals ?_ (by simpa using hd)
  apply UInt64.toNat_inj.mp
  rw [← ha]
  exact (amount_ofNat a.amount_lt decimals).symm

section

variable {a b : TrimmedAmount} (h : a.getDecimals = b.getDecimals)
include h

theorem gt_of_eq : a.gt b = .ok (decide (b.amount < a.amount)) := by
  simp only [gt, checkDecimals_of_eq h]
  exact congrArg Except.ok (decide_eq_decide.mpr UInt64.lt_iff_toNat_lt)

theorem lt_of_eq : a.lt b = .ok (decide (a.amount < b.amount)) := by
  simp only [lt, checkDecimals_of_eq h]
  exact congrArg Except.ok (decide_eq_decide.mpr UInt64.lt_iff_toNat_lt)

/-- Subtraction fails only on underflow. -/
theorem sub_of_eq : a.sub b = if b.amount ≤ a.amount
    then .ok (ofNat (a.amount - b.amount) a.getDecimals) else .error .arithmeticOverflow := by
  simp only [sub, checkDecimals_of_eq h, UInt64.le_iff_toNat_le]
  by_cases hle : b.amount ≤ a.amount
  · have hsub : a.getAmount - b.getAmount = UInt64.ofNat (a.amount - b.amount) := by
      apply UInt64.toNat_inj.mp
      rw [UInt64.toNat_sub_of_le _ _ (UInt64.le_iff_toNat_le.mpr hle), UInt64.toNat_ofNat',
        Nat.mod_eq_of_lt (lt_of_le_of_lt (Nat.sub_le _ _) a.amount_lt)]
    rw [if_pos hle, if_pos hle, hsub]
    rfl
  · rw [if_neg hle, if_neg hle]
    rfl

/-- Addition fails only on overflow. -/
theorem add_of_lt (hlt : a.amount + b.amount < 2 ^ 64) :
    a.add b = .ok (ofNat (a.amount + b.amount) a.getDecimals) := by
  have hadd : a.getAmount + b.getAmount = UInt64.ofNat (a.amount + b.amount) := by
    apply UInt64.toNat_inj.mp
    rw [UInt64.toNat_add, UInt64.toNat_ofNat']
  simp only [add, checkDecimals_of_eq h, hadd, ← h]
  exact if_pos hlt

theorem min_of_eq : a.min b = .ok (ofNat (Min.min a.amount b.amount) a.getDecimals) := by
  simp only [min, checkDecimals_of_eq h]
  refine congrArg Except.ok ?_
  by_cases hlt : a.amount < b.amount
  · rw [if_pos (UInt64.lt_iff_toNat_lt.mpr hlt)]
    exact eq_ofNat (by omega) rfl
  · rw [if_neg (fun hc => hlt (UInt64.lt_iff_toNat_lt.mp hc))]
    exact eq_ofNat (by omega) h.symm

/-- Saturating addition never fails. -/
theorem saturatingAdd_of_eq :
    a.saturatingAdd b = .ok (ofNat (Min.min (a.amount + b.amount) (2 ^ 64 - 1)) a.getDecimals) := by
  have ha := a.amount_lt
  have hb := b.amount_lt
  have hsum : (if wrappingAdd a.amount b.amount > 2 ^ 64 - 1 then 2 ^ 64 - 1
      else wrappingAdd a.amount b.amount) = Min.min (a.amount + b.amount) (2 ^ 64 - 1) := by
    unfold wrappingAdd
    split <;> omega
  have hfit : Min.min (a.amount + b.amount) (2 ^ 64 - 1) < 2 ^ 64 := by omega
  simp only [saturatingAdd, checkDecimals_of_eq h, hsum, SafeCast.toUint64_of_lt hfit]
  rfl

end

end TrimmedAmount

/-! ### Conversions -/

/-- Scales an amount from its decimals to other decimals. -/
def scale (amount : ℕ) (fromDecimals toDecimals : UInt8) : Except Error ℕ :=
  if fromDecimals = toDecimals then
    .ok amount
  else if fromDecimals > toDecimals then do
    return amount / (← pow10 (fromDecimals - toDecimals))
  else do
    checkedMul amount (← pow10 (toDecimals - fromDecimals))

namespace TrimmedAmount

/-- Re-expresses a trimmed amount in the trimmed decimals of a token. -/
def shift (amount : TrimmedAmount) (toDecimals : UInt8) : Except Error TrimmedAmount := do
  let actualToDecimals := minUint8 TRIMMED_DECIMALS toDecimals
  let scaled ← scale amount.getAmount.toNat amount.getDecimals actualToDecimals
  return packTrimmedAmount (← SafeCast.toUint64 scaled) actualToDecimals

/-- The largest trimmed amount of a token. -/
def max (decimals : UInt8) : TrimmedAmount :=
  packTrimmedAmount (UInt64.ofNat (2 ^ 64 - 1)) (minUint8 TRIMMED_DECIMALS decimals)

/-- Back to an amount in the decimals of a token. -/
def untrim (amt : TrimmedAmount) (toDecimals : UInt8) : Except Error ℕ :=
  scale amt.getAmount.toNat amt.getDecimals toDecimals

end TrimmedAmount

/-- Trims an amount to the fewest of 8, its own and the target decimals. -/
def trim (amt : ℕ) (fromDecimals toDecimals : UInt8) : Except Error TrimmedAmount := do
  let actualToDecimals := minUint8 (minUint8 TRIMMED_DECIMALS fromDecimals) toDecimals
  let amountScaled ← scale amt fromDecimals actualToDecimals
  return packTrimmedAmount (← SafeCast.toUint64 amountScaled) actualToDecimals

/-- Scaling fails only when a power of ten or the product leaves 256 bits. -/
theorem scale_eq_ok {a c : ℕ} {f t : UInt8} :
    scale a f t = .ok c ↔ rescale a f.toNat t.toNat = c ∧
      (f ≠ t → 10 ^ (f.toNat - t.toNat) < 2 ^ 256 ∧ 10 ^ (t.toNat - f.toNat) < 2 ^ 256) ∧
      (f < t → a * 10 ^ (t.toNat - f.toNat) < 2 ^ 256) := by
  rw [scale]
  rcases order f t with rfl | ⟨hne, hgt, hlt, hsub⟩ | ⟨hne, hgt, hlt, hsub⟩
  · simp
  · have hzero : t.toNat - f.toNat = 0 := by omega
    have hnlt : ¬ f < t := UInt8.not_lt.mpr (UInt8.le_iff_toNat_le.mpr hlt.le)
    rw [if_neg hne, if_pos hgt, rescale_of_ge hlt.le, hzero]
    simp only [Except.bind_eq_ok, pow10_eq_ok, hsub, Except.pure_eq_ok]
    constructor
    · rintro ⟨_, ⟨hpow, rfl⟩, rfl⟩
      exact ⟨rfl, fun _ => ⟨hpow, by norm_num⟩, fun h => absurd h hnlt⟩
    · rintro ⟨rfl, hpow, -⟩
      exact ⟨_, ⟨(hpow hne).1, rfl⟩, rfl⟩
  · have hzero : f.toNat - t.toNat = 0 := by omega
    rw [if_neg hne, if_neg hgt, rescale_of_le hlt.le, hzero]
    simp only [Except.bind_eq_ok, pow10_eq_ok, hsub, checkedMul_eq_ok]
    constructor
    · rintro ⟨_, ⟨hpow, rfl⟩, hmul, rfl⟩
      exact ⟨rfl, fun _ => ⟨by norm_num, hpow⟩, fun _ => hmul⟩
    · rintro ⟨rfl, hpow, hmul⟩
      exact ⟨_, ⟨(hpow hne).2, rfl⟩, hmul (UInt8.lt_iff_toNat_lt.mpr hlt), rfl⟩

/-- The decimals that `trim` chooses. -/
abbrev wireDecimals (f t : UInt8) : UInt8 := minUint8 (minUint8 TRIMMED_DECIMALS f) t

theorem toNat_wireDecimals (f t : UInt8) :
    (wireDecimals f t).toNat = min (min 8 f.toNat) t.toNat := by
  simp

/-- Trimming scales down, so it fails only when the power of ten leaves 256 bits or the result
leaves 64 bits. -/
theorem trim_eq_ok {a : ℕ} {f t : UInt8} {r : TrimmedAmount} :
    trim a f t = .ok r ↔ r.getDecimals = wireDecimals f t ∧
      r.getAmount.toNat = rescale a f.toNat (wireDecimals f t).toNat ∧
      10 ^ (f.toNat - (wireDecimals f t).toNat) < 2 ^ 256 := by
  have hle : (wireDecimals f t).toNat ≤ f.toNat := by
    rw [toNat_wireDecimals]
    omega
  have hnlt : ¬ f < wireDecimals f t := by
    rw [UInt8.lt_iff_toNat_lt]
    omega
  have hz : (wireDecimals f t).toNat - f.toNat = 0 := by omega
  simp only [trim, Except.bind_eq_ok, scale_eq_ok, SafeCast.toUint64_eq_ok, Except.pure_eq_ok,
    hnlt, hz, false_implies, and_true]
  constructor
  · rintro ⟨_, ⟨rfl, hpow⟩, v, hv, rfl⟩
    refine ⟨by simp, by simpa using hv, ?_⟩
    by_cases hf : f = wireDecimals f t
    · rw [← hf]
      norm_num
    · exact (hpow hf).1
  · rintro ⟨hd, ha, hpow⟩
    exact ⟨_, ⟨rfl, fun _ => ⟨hpow, by norm_num⟩⟩, r.getAmount, ha,
      (congrArg (packTrimmedAmount r.getAmount) hd.symm).trans
        r.pack_getAmount_getDecimals⟩

/-- Untrimming is scaling. -/
theorem untrim_eq_ok {a : TrimmedAmount} {t : UInt8} {c : ℕ} :
    a.untrim t = .ok c ↔ rescale a.getAmount.toNat a.getDecimals.toNat t.toNat = c ∧
      (a.getDecimals ≠ t → 10 ^ (a.getDecimals.toNat - t.toNat) < 2 ^ 256 ∧
        10 ^ (t.toNat - a.getDecimals.toNat) < 2 ^ 256) ∧
      (a.getDecimals < t →
        a.getAmount.toNat * 10 ^ (t.toNat - a.getDecimals.toNat) < 2 ^ 256) :=
  scale_eq_ok

end Ntt
