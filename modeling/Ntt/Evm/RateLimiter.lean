import Ntt.Evm.TrimmedAmount
import Ntt.Lib.TokenBucket

/-!
# The Rate Limiter

`RateLimiter` of the contracts, as functions of one `RateLimitParams`: the outbound limit and
every inbound limit are stored that way and share this code. Capacities are trimmed amounts,
refill by one limit in every `rateLimitDuration`, and the arithmetic of the refill is
`unchecked`; a block timestamp is a 64-bit number, as the stored one is.

`RateLimitParams.bucket` reads the parameters as a `Bucket`. At the decimals of the token
(`RateLimitParams.Ok`), every operation is the bucket's, and nothing but a consumption beyond
the capacity reverts.

## Main results

* `getCurrentCapacity_eq`: the unchecked arithmetic computes `Bucket.level`.
* `setLimit_eq`, `consumeAmount_eq`, `backfillAmount_eq`: what each operation leaves.
* `RateLimitOp.apply_eq`: each operation is `Bucket.apply`.
-/

namespace Ntt

open TrimmedAmount

/-- What is stored for a rate limit: the limit, the capacity after the last operation and the
time of that. -/
structure RateLimitParams where
  /-- The largest capacity. -/
  limit : TrimmedAmount
  /-- The capacity after the last operation. -/
  currentCapacity : TrimmedAmount
  /-- The time of the last operation. -/
  lastTxTimestamp : UInt64
deriving DecidableEq, Repr

/-- Storage that was never written. -/
def RateLimitParams.zero : RateLimitParams := ⟨⟨0⟩, ⟨0⟩, 0⟩

namespace RateLimiter

/-- The capacity at a block's time; without a duration the limiter is off. -/
def getCurrentCapacity (rateLimitDuration blockTimestamp : UInt64) (p : RateLimitParams) :
    Except Error TrimmedAmount :=
  if rateLimitDuration = 0 then
    return packTrimmedAmount (UInt64.ofNat (2 ^ 64 - 1)) p.currentCapacity.getDecimals
  else do
    let timePassed := wrappingSub blockTimestamp.toNat p.lastTxTimestamp.toNat
    let calculatedCapacity := wrappingAdd p.currentCapacity.getAmount.toNat
      (wrappingMul p.limit.getAmount.toNat timePassed / rateLimitDuration.toNat)
    let result := Min.min calculatedCapacity p.limit.getAmount.toNat
    return packTrimmedAmount (← SafeCast.toUint64 result) p.currentCapacity.getDecimals

/-- The capacity moved by the difference of two limits, and not below zero. -/
def movedCapacity (newLimit oldLimit currentCapacity : TrimmedAmount) :
    Except Error TrimmedAmount := do
  if ← oldLimit.gt newLimit then
    let difference ← oldLimit.sub newLimit
    if ← currentCapacity.gt difference then
      currentCapacity.sub difference
    else
      return packTrimmedAmount 0 currentCapacity.getDecimals
  else
    let difference ← newLimit.sub oldLimit
    currentCapacity.add difference

/-- The capacity under a new limit. -/
def calculateNewCurrentCapacity (newLimit oldLimit currentCapacity : TrimmedAmount) :
    Except Error TrimmedAmount := do
  let newCurrentCapacity ← movedCapacity newLimit oldLimit currentCapacity
  throwIf (← newCurrentCapacity.gt newLimit)
    (.capacityCannotExceedLimit newCurrentCapacity newLimit)
  return newCurrentCapacity

/-- Sets the limit. The capacity starts full, and moves with the limit from then on. -/
def setLimit (rateLimitDuration blockTimestamp : UInt64) (limit : TrimmedAmount)
    (p : RateLimitParams) : Except Error RateLimitParams := do
  let currentCapacity ←
    if p.limit.isNull then pure limit
    else do
      let currentCapacity ← getCurrentCapacity rateLimitDuration blockTimestamp p
      calculateNewCurrentCapacity limit p.limit currentCapacity
  return { limit, currentCapacity, lastTxTimestamp := blockTimestamp }

/-- Takes an amount from the capacity. -/
def consumeRateLimitAmount (blockTimestamp : UInt64) (amount capacity : TrimmedAmount)
    (p : RateLimitParams) : Except Error RateLimitParams := do
  return { p with lastTxTimestamp := blockTimestamp, currentCapacity := ← capacity.sub amount }

/-- Refills the capacity by an amount, up to the limit. -/
def backfillRateLimitAmount (blockTimestamp : UInt64) (amount capacity : TrimmedAmount)
    (p : RateLimitParams) : Except Error RateLimitParams := do
  return { p with
    lastTxTimestamp := blockTimestamp
    currentCapacity := ← (← capacity.saturatingAdd amount).min p.limit }

/-- Consumes an amount, if the limiter is on. -/
def consumeAmount (rateLimitDuration blockTimestamp : UInt64) (amount : TrimmedAmount)
    (p : RateLimitParams) : Except Error RateLimitParams :=
  if rateLimitDuration = 0 then return p
  else do
    consumeRateLimitAmount blockTimestamp amount
      (← getCurrentCapacity rateLimitDuration blockTimestamp p) p

/-- Refills by an amount, if the limiter is on. -/
def backfillAmount (rateLimitDuration blockTimestamp : UInt64) (amount : TrimmedAmount)
    (p : RateLimitParams) : Except Error RateLimitParams :=
  if rateLimitDuration = 0 then return p
  else do
    backfillRateLimitAmount blockTimestamp amount
      (← getCurrentCapacity rateLimitDuration blockTimestamp p) p

/-- An amount is limited when the capacity is below it. -/
def isAmountRateLimited (rateLimitDuration blockTimestamp : UInt64) (amount : TrimmedAmount)
    (p : RateLimitParams) : Except Error Bool :=
  if rateLimitDuration = 0 then return false
  else do
    (← getCurrentCapacity rateLimitDuration blockTimestamp p).lt amount

end RateLimiter

/-- The parameters as a bucket. -/
def RateLimitParams.bucket (p : RateLimitParams) : Bucket :=
  ⟨p.limit.amount, p.currentCapacity.amount, p.lastTxTimestamp.toNat⟩

/-- The parameters are in order: limit and capacity carry the same decimals, and the capacity
does not exceed the limit. -/
structure RateLimitParams.Ok (decimals : UInt8) (p : RateLimitParams) : Prop where
  limit_decimals : p.limit.getDecimals = decimals
  capacity_decimals : p.currentCapacity.getDecimals = decimals
  capacity_le : p.bucket.Valid

/-- Limit and capacity carry the same decimals; the capacity may be above the limit. -/
structure RateLimitParams.Aligned (decimals : UInt8) (p : RateLimitParams) : Prop where
  limit_decimals : p.limit.getDecimals = decimals
  capacity_decimals : p.currentCapacity.getDecimals = decimals

theorem RateLimitParams.Ok.aligned {decimals : UInt8} {p : RateLimitParams}
    (h : p.Ok decimals) : p.Aligned decimals :=
  ⟨h.limit_decimals, h.capacity_decimals⟩

/-- The parameters of a bucket. -/
def RateLimitParams.ofBucket (decimals : UInt8) (b : Bucket) : RateLimitParams :=
  ⟨ofNat b.limit decimals, ofNat b.capacity decimals, UInt64.ofNat b.last⟩

namespace RateLimiter

variable {D t : UInt64} {d : UInt8} {p : RateLimitParams}

theorem level_lt (D t : UInt64) (p : RateLimitParams) :
    p.bucket.level D.toNat t.toNat < 2 ^ 64 :=
  lt_of_le_of_lt (Bucket.level_le_limit _ _ _) p.limit.amount_lt

/-- The unchecked arithmetic does not wrap: it computes the level of the bucket. -/
theorem getCurrentCapacity_eq (hD : D ≠ 0) (ht : p.lastTxTimestamp ≤ t) :
    getCurrentCapacity D t p =
      .ok (ofNat (p.bucket.level D.toNat t.toNat) p.currentCapacity.getDecimals) := by
  have hlast : p.lastTxTimestamp.toNat ≤ t.toNat := UInt64.le_iff_toNat_le.mp ht
  have htime : t.toNat < 2 ^ 64 := t.toNat_lt
  have hcap := p.currentCapacity.amount_lt
  have hlim := p.limit.amount_lt
  have hsub : wrappingSub t.toNat p.lastTxTimestamp.toNat =
      t.toNat - p.lastTxTimestamp.toNat := by
    rw [wrappingSub]
    omega
  have hprod : p.limit.amount * (t.toNat - p.lastTxTimestamp.toNat) ≤ 2 ^ 64 * 2 ^ 64 :=
    Nat.mul_le_mul hlim.le (by omega)
  have hmul : wrappingMul p.limit.amount (t.toNat - p.lastTxTimestamp.toNat) =
      p.limit.amount * (t.toNat - p.lastTxTimestamp.toNat) := by
    rw [wrappingMul, Nat.mod_eq_of_lt (by omega)]
  have hdiv := Nat.div_le_self (p.limit.amount * (t.toNat - p.lastTxTimestamp.toNat)) D.toNat
  have hadd : wrappingAdd p.currentCapacity.amount
      (p.limit.amount * (t.toNat - p.lastTxTimestamp.toNat) / D.toNat) =
      p.currentCapacity.amount +
        p.limit.amount * (t.toNat - p.lastTxTimestamp.toNat) / D.toNat := by
    rw [wrappingAdd, Nat.mod_eq_of_lt (by omega)]
  have hfit := level_lt D t p
  rw [Bucket.level, RateLimitParams.bucket] at hfit
  simp only [getCurrentCapacity, if_neg hD, hsub, hmul, hadd, SafeCast.toUint64_of_lt hfit]
  rfl

/-- The difference of the limits moves the capacity, which stays in 64 bits since it was at
most the old limit. -/
theorem movedCapacity_eq {newLimit oldLimit capacity : TrimmedAmount}
    (hold : oldLimit.getDecimals = newLimit.getDecimals)
    (hcap : capacity.getDecimals = newLimit.getDecimals)
    (hle : capacity.amount ≤ oldLimit.amount) :
    movedCapacity newLimit oldLimit capacity =
      .ok (ofNat (if newLimit.amount < oldLimit.amount
        then capacity.amount - (oldLimit.amount - newLimit.amount)
        else capacity.amount + (newLimit.amount - oldLimit.amount))
        newLimit.getDecimals) := by
  have hnew := newLimit.amount_lt
  have holdlt := oldLimit.amount_lt
  by_cases hlt : newLimit.amount < oldLimit.amount
  · have hdiff := sub_of_eq hold
    rw [if_pos hlt.le] at hdiff
    have hdec : capacity.getDecimals =
        (ofNat (oldLimit.amount - newLimit.amount) oldLimit.getDecimals).getDecimals := by
      rw [getDecimals_pack, hcap, hold]
    have hgt := gt_of_eq hdec
    have hsub := sub_of_eq hdec
    rw [amount_ofNat (by omega)] at hgt hsub
    simp only [movedCapacity, gt_of_eq hold, hlt, decide_true, hdiff, hgt, hsub, bind,
      Except.bind, if_true]
    by_cases hc : oldLimit.amount - newLimit.amount < capacity.amount
    · simp only [hc, hc.le, decide_true, if_true, hcap]
    · simp only [hc, decide_false, Bool.false_eq_true, if_false, hcap,
        Nat.sub_eq_zero_of_le (Nat.not_lt.mp hc)]
      rfl
  · have hdiff := sub_of_eq hold.symm
    rw [if_pos (Nat.not_lt.mp hlt)] at hdiff
    have hdec : capacity.getDecimals =
        (ofNat (newLimit.amount - oldLimit.amount) newLimit.getDecimals).getDecimals := by
      rw [getDecimals_pack, hcap]
    have hadd := add_of_lt hdec
    rw [amount_ofNat (by omega)] at hadd
    simp only [movedCapacity, gt_of_eq hold, hlt, decide_false, hdiff, bind, Except.bind,
      Bool.false_eq_true, if_false, hadd (by omega), hcap]

/-- The moved capacity never exceeds the new limit, so the check passes. -/
theorem calculateNewCurrentCapacity_eq {newLimit oldLimit capacity : TrimmedAmount}
    (hold : oldLimit.getDecimals = newLimit.getDecimals)
    (hcap : capacity.getDecimals = newLimit.getDecimals)
    (hle : capacity.amount ≤ oldLimit.amount) :
    calculateNewCurrentCapacity newLimit oldLimit capacity =
      movedCapacity newLimit oldLimit capacity := by
  have hnew := newLimit.amount_lt
  have hmoved := movedCapacity_eq hold hcap hle
  generalize hn : (if newLimit.amount < oldLimit.amount
    then capacity.amount - (oldLimit.amount - newLimit.amount)
    else capacity.amount + (newLimit.amount - oldLimit.amount)) = n at hmoved
  have hle' : n ≤ newLimit.amount := by
    split at hn <;> omega
  have hgt := gt_of_eq (a := ofNat n newLimit.getDecimals) (b := newLimit)
    (getDecimals_pack _ _)
  rw [amount_ofNat (lt_of_le_of_lt hle' hnew)] at hgt
  rw [calculateNewCurrentCapacity, hmoved]
  simp only [bind, Except.bind, hgt, throwIf, decide_eq_true_eq, if_neg (Nat.not_lt.mpr hle')]
  rfl

/-- Without a limit so far, the capacity starts full. -/
theorem setLimit_of_isNull (hnull : p.limit.isNull) (limit : TrimmedAmount) :
    setLimit D t limit p = .ok ⟨limit, limit, t⟩ := by
  simp only [setLimit, hnull, if_true]
  rfl

section

variable (hp : p.Aligned d) (hD : D ≠ 0) (ht : p.lastTxTimestamp ≤ t)
include hp hD ht

/-- The capacity of parameters in the same decimals. -/
theorem getCurrentCapacity_of_aligned :
    getCurrentCapacity D t p = .ok (ofNat (p.bucket.level D.toNat t.toNat) d) := by
  rw [getCurrentCapacity_eq hD ht, hp.capacity_decimals]

theorem setLimit_eq {limit : TrimmedAmount} (hl : limit.getDecimals = d) :
    setLimit D t limit p = .ok ⟨limit, ofNat (if limit.amount < p.limit.amount
      then p.bucket.level D.toNat t.toNat - (p.limit.amount - limit.amount)
      else p.bucket.level D.toNat t.toNat + (limit.amount - p.limit.amount)) d, t⟩ := by
  have hlevel := Bucket.level_le_limit D.toNat p.bucket t.toNat
  by_cases hnull : p.limit.isNull
  · -- a limit of zero: the capacity was zero, and moves by all of the new limit
    have hzero : p.limit.amount = 0 := by
      simp only [isNull, Bool.and_eq_true, beq_iff_eq] at hnull
      rw [amount, hnull.1]
      rfl
    have hlevel0 : p.bucket.level D.toNat t.toNat = 0 := Nat.le_zero.mp (hzero ▸ hlevel)
    rw [setLimit_of_isNull hnull, hlevel0, hzero, if_neg (Nat.not_lt_zero _)]
    congr 2
    exact eq_ofNat (by omega) hl
  · have hfit := level_lt D t p
    have hold : p.limit.getDecimals = limit.getDecimals := hp.limit_decimals.trans hl.symm
    have hdec : (ofNat (p.bucket.level D.toNat t.toNat) d).getDecimals = limit.getDecimals :=
      (getDecimals_pack _ _).trans hl.symm
    have hcap : (ofNat (p.bucket.level D.toNat t.toNat) d).amount ≤ p.limit.amount := by
      rw [amount_ofNat hfit]
      exact hlevel
    have hcalc := calculateNewCurrentCapacity_eq hold hdec hcap
    rw [movedCapacity_eq hold hdec hcap, amount_ofNat hfit, hl] at hcalc
    simp only [setLimit, hnull, getCurrentCapacity_of_aligned hp hD ht, bind, Except.bind, hcalc,
      Bool.false_eq_true, if_false]
    rfl

theorem consumeAmount_eq {a : TrimmedAmount} (ha : a.getDecimals = d) :
    consumeAmount D t a p = if a.amount ≤ p.bucket.level D.toNat t.toNat
      then .ok { p with
        currentCapacity := ofNat (p.bucket.level D.toNat t.toNat - a.amount) d
        lastTxTimestamp := t }
      else .error .arithmeticOverflow := by
  have hsub := sub_of_eq (a := ofNat (p.bucket.level D.toNat t.toNat) d) (b := a)
    ((getDecimals_pack _ _).trans ha.symm)
  rw [amount_ofNat (level_lt D t p), getDecimals_pack] at hsub
  simp only [consumeAmount, if_neg hD, getCurrentCapacity_of_aligned hp hD ht, bind, Except.bind,
    consumeRateLimitAmount, hsub]
  by_cases hle : a.amount ≤ p.bucket.level D.toNat t.toNat
  · rw [if_pos hle, if_pos hle]
    rfl
  · rw [if_neg hle, if_neg hle]

theorem backfillAmount_eq {a : TrimmedAmount} (ha : a.getDecimals = d) :
    backfillAmount D t a p = .ok { p with
      currentCapacity :=
        ofNat (Min.min (p.bucket.level D.toNat t.toNat + a.amount) p.limit.amount) d
      lastTxTimestamp := t } := by
  have hlim := p.limit.amount_lt
  have hadd := saturatingAdd_of_eq (a := ofNat (p.bucket.level D.toNat t.toNat) d) (b := a)
    ((getDecimals_pack _ _).trans ha.symm)
  rw [amount_ofNat (level_lt D t p), getDecimals_pack] at hadd
  have hmin := min_of_eq (b := p.limit)
    (a := ofNat (Min.min (p.bucket.level D.toNat t.toNat + a.amount) (2 ^ 64 - 1)) d)
    ((getDecimals_pack _ _).trans hp.limit_decimals.symm)
  rw [amount_ofNat (by omega), getDecimals_pack] at hmin
  -- what saturation cuts off is above the limit
  have hcut : Min.min (Min.min (p.bucket.level D.toNat t.toNat + a.amount) (2 ^ 64 - 1))
      p.limit.amount = Min.min (p.bucket.level D.toNat t.toNat + a.amount) p.limit.amount := by
    omega
  simp only [backfillAmount, if_neg hD, getCurrentCapacity_of_aligned hp hD ht, bind, Except.bind,
    backfillRateLimitAmount, hadd, hmin, hcut]
  rfl

/-- The limiter compares with the level. -/
theorem isAmountRateLimited_eq {a : TrimmedAmount} (ha : a.getDecimals = d) :
    isAmountRateLimited D t a p =
      .ok (decide (p.bucket.level D.toNat t.toNat < a.amount)) := by
  have hlt := lt_of_eq (a := ofNat (p.bucket.level D.toNat t.toNat) d) (b := a)
    ((getDecimals_pack _ _).trans ha.symm)
  rw [amount_ofNat (level_lt D t p)] at hlt
  simp only [isAmountRateLimited, if_neg hD, getCurrentCapacity_of_aligned hp hD ht, bind,
    Except.bind, hlt]

end

end RateLimiter

/-! ### The operations as one -/

/-- An operation on one `RateLimitParams`. -/
inductive RateLimitOp where
  | setLimit (limit : TrimmedAmount)
  | consume (amount : TrimmedAmount)
  | backfill (amount : TrimmedAmount)
deriving DecidableEq, Repr

namespace RateLimitOp

/-- The limit or amount of an operation. -/
def arg : RateLimitOp → TrimmedAmount
  | .setLimit a | .consume a | .backfill a => a

/-- What the contract does. -/
def apply (D t : UInt64) (p : RateLimitParams) : RateLimitOp → Except Error RateLimitParams
  | .setLimit limit => RateLimiter.setLimit D t limit p
  | .consume amount => RateLimiter.consumeAmount D t amount p
  | .backfill amount => RateLimiter.backfillAmount D t amount p

/-- What the bucket does. -/
def bucketOp : RateLimitOp → Bucket.Op
  | .setLimit limit => .setLimit limit.amount
  | .consume amount => .consume amount.amount
  | .backfill amount => .refill amount.amount

variable {D t : UInt64} {d : UInt8} {p : RateLimitParams}

/-- Every operation is the bucket's; it fails where the bucket's fails, on underflow. -/
theorem apply_eq (hp : p.Aligned d) (hD : D ≠ 0) (ht : p.lastTxTimestamp ≤ t) (op : RateLimitOp)
    (hop : op.arg.getDecimals = d) :
    op.apply D t p = match p.bucket.apply D.toNat t.toNat op.bucketOp with
      | some b => .ok (RateLimitParams.ofBucket d b)
      | none => .error .arithmeticOverflow := by
  have hlimit : p.limit = ofNat p.limit.amount d := eq_ofNat rfl hp.limit_decimals
  cases op with
  | setLimit limit =>
      replace hop : limit.getDecimals = d := hop
      have hl : limit = ofNat limit.amount d := eq_ofNat rfl hop
      rw [apply, RateLimiter.setLimit_eq hp hD ht hop]
      simp only [bucketOp, Bucket.apply, RateLimitParams.ofBucket, ← hl, UInt64.ofNat_toNat]
      rfl
  | consume a =>
      replace hop : a.getDecimals = d := hop
      rw [apply, RateLimiter.consumeAmount_eq hp hD ht hop]
      simp only [bucketOp, Bucket.apply]
      by_cases hle : a.amount ≤ p.bucket.level D.toNat t.toNat
      · simp only [hle, if_true, RateLimitParams.ofBucket, UInt64.ofNat_toNat]
        rw [RateLimitParams.bucket, ← hlimit]
      · simp only [hle, if_false]
  | backfill a =>
      replace hop : a.getDecimals = d := hop
      rw [apply, RateLimiter.backfillAmount_eq hp hD ht hop]
      simp only [bucketOp, Bucket.apply, RateLimitParams.ofBucket, UInt64.ofNat_toNat]
      rw [RateLimitParams.bucket, ← hlimit]

end RateLimitOp

end Ntt
