import Ntt.Evm.RateLimiter
import Ntt.Lib.Limiter

/-!
# The Rate Limiter of the Solana Program

`RateLimitState` of the program: a limit, the capacity after the last operation and the time of
that. The build checks overflows, so an addition or a subtraction of timestamps that does not fit
64 bits panics, and so does a clock that runs backwards; a panic undoes the transaction. The
duration is a parameter, `RATE_LIMIT_DURATION` in the program.

The state is a token bucket (`RateLimitState.bucket`), and on timestamps that are not negative
every operation is the bucket's.

## Main results

* `capacityAt_eq`: the 128-bit arithmetic does not overflow, and computes the level of the bucket.
* `RateLimitState.refines`: the limiter refines the bucket.
-/

namespace Ntt.Solana

/-! ### Checked arithmetic -/

/-- Why an operation panics. -/
inductive Panic where
  | assertion
  | overflow
deriving DecidableEq, Repr

/-- `assert!`. -/
def assert (c : Prop) [Decidable c] : Except Panic Unit := if c then .ok () else .error .assertion

/-- A result that has to fit `i64`. -/
def checkedI64 (x : ℤ) : Except Panic Int64 :=
  if -2 ^ 63 ≤ x ∧ x < 2 ^ 63 then .ok (Int64.ofInt x) else .error .overflow

/-- A result that has to fit `u128`. -/
def checkedU128 (n : ℕ) : Except Panic ℕ := if n < 2 ^ 128 then .ok n else .error .overflow

/-- The cast of `i64` to `u128`, which extends the sign. -/
def asU128 (x : Int64) : ℕ := (x.toInt % 2 ^ 128).toNat

/-- `saturating_add` of `u64`. -/
def saturatingAdd (a b : UInt64) : UInt64 := UInt64.ofNat (min (a.toNat + b.toNat) (2 ^ 64 - 1))

/-- `saturating_sub` of `u64`. -/
def saturatingSub (a b : UInt64) : UInt64 := UInt64.ofNat (a.toNat - b.toNat)

/-! ### The state -/

structure RateLimitState where
  /-- The maximum capacity. -/
  limit : UInt64
  /-- The capacity at `lastTxTimestamp`. -/
  capacityAtLastTx : UInt64
  /-- The timestamp of the last transaction that counted towards the capacity. -/
  lastTxTimestamp : Int64
deriving DecidableEq, Repr

/-- The result of attempting to consume. -/
inductive RateLimitResult where
  | consumed (timestamp : Int64)
  | delayed (timestamp : Int64)
deriving DecidableEq, Repr

/-- One day. -/
def RATE_LIMIT_DURATION : Int64 := 60 * 60 * 24

namespace RateLimitState

def new (limit : UInt64) : RateLimitState := ⟨limit, limit, 0⟩

variable (duration : Int64) (self : RateLimitState) (now : Int64)

/-- The capacity at a time. -/
def capacityAt : Except Panic UInt64 := do
  assert (self.lastTxTimestamp ≤ now)
  let limit := self.limit.toNat
  let capacityAtLastTx := self.capacityAtLastTx.toNat
  let timePassed ← checkedI64 (now.toInt - self.lastTxTimestamp.toInt)
  let product ← checkedU128 (asU128 timePassed * limit)
  let calculatedCapacity ← checkedU128 (capacityAtLastTx + product / asU128 duration)
  return UInt64.ofNat (min calculatedCapacity limit)

/-- Consumes an amount that fits within the capacity, or says until when it is delayed. -/
def consumeOrDelay (amount : UInt64) : Except Panic (RateLimitState × RateLimitResult) := do
  let capacity ← capacityAt duration self now
  if capacity ≥ amount then
    return ({ self with capacityAtLastTx := capacity - amount, lastTxTimestamp := now },
      .consumed now)
  else
    let timestamp ← checkedI64 (now.toInt + duration.toInt)
    return (self, .delayed timestamp)

/-- Refills the capacity via backflows. -/
def refill (amount : UInt64) : Except Panic RateLimitState := do
  let capacity ← capacityAt duration self now
  return { self with
    capacityAtLastTx := min (saturatingAdd capacity amount) self.limit
    lastTxTimestamp := now }

def setLimit (limit : UInt64) : Except Panic RateLimitState := do
  let oldLimit := self.limit
  let currentCapacity ← capacityAt duration self now
  let newCapacity :=
    if oldLimit > limit then saturatingSub currentCapacity (oldLimit - limit)
    else saturatingAdd currentCapacity (limit - oldLimit)
  return { limit, capacityAtLastTx := min newCapacity limit, lastTxTimestamp := now }

end RateLimitState

/-! ### The operations as one -/

/-- An operation on one `RateLimitState`. -/
inductive RateLimitOp where
  | consume (amount : UInt64)
  | refill (amount : UInt64)
  | setLimit (limit : UInt64)
deriving DecidableEq, Repr

/-- The answer to an operation that is not delayed. -/
def RateLimitOp.answer (now : Int64) : RateLimitOp → Option RateLimitResult
  | .consume _ => some (.consumed now)
  | _ => none

/-- An operation as a bucket sees it. -/
def RateLimitOp.bucketOp : RateLimitOp → Bucket.Op
  | .consume amount => .consume amount.toNat
  | .refill amount => .refill amount.toNat
  | .setLimit limit => .setLimit limit.toNat

namespace RateLimitState

/-- What the program does: the new state, and the result of a consumption. -/
def apply (duration : Int64) (s : RateLimitState) (now : Int64) :
    RateLimitOp → Except Panic (RateLimitState × Option RateLimitResult)
  | .consume amount => do
      let (s', result) ← s.consumeOrDelay duration now amount
      return (s', some result)
  | .refill amount => do return (← s.refill duration now amount, none)
  | .setLimit limit => do return (← s.setLimit duration now limit, none)

/-- The capacity, or nothing when the program panics. -/
def capacity (duration : Int64) (s : RateLimitState) (now : Int64) : ℕ :=
  ((s.capacityAt duration now).map UInt64.toNat).toOption.getD 0

/-- The program as a machine of timed operations: a panic undoes the transaction. -/
def machine (duration : Int64) :
    Transducer RateLimitState (Int64 × RateLimitOp) (Except Panic (Option RateLimitResult)) :=
  .ofExcept fun s o => s.apply duration o.1 o.2

/-- The program as a limiter. A refill refills the capacity that it leaves beyond the one that it
finds. -/
def limiter (duration : Int64) :
    Limiter RateLimitState (Int64 × RateLimitOp) (Except Panic (Option RateLimitResult)) where
  toTransducer := machine duration
  spent s o :=
    match o.2, (machine duration).out s o with
    | .consume amount, .ok (some (.consumed _)) => amount.toNat
    | _, _ => 0
  gained s o :=
    match o.2 with
    | .refill _ =>
        ((machine duration).next s o).capacityAtLastTx.toNat - s.capacity duration o.1
    | _ => 0

/-! ### The state as a bucket -/

/-- A timestamp that is not negative, as a number. -/
def time (t : Int64) : ℕ := t.toInt.toNat

/-- The state as a bucket. -/
def bucket (s : RateLimitState) : Bucket :=
  ⟨s.limit.toNat, s.capacityAtLastTx.toNat, time s.lastTxTimestamp⟩

/-- A timed operation as the bucket sees it. -/
def timed (o : Int64 × RateLimitOp) : ℕ × Bucket.Op :=
  (time o.1, o.2.bucketOp)

theorem toNat_ofNat {n : ℕ} (h : n < 2 ^ 64) : (UInt64.ofNat n).toNat = n :=
  UInt64.toNat_ofNat_of_lt h

theorem assert_of {c : Prop} [Decidable c] (h : c) : assert c = .ok () := if_pos h

theorem asU128_of_nonneg {x : Int64} (h : 0 ≤ x.toInt) : asU128 x = x.toInt.toNat := by
  have hlt := x.toInt_lt
  rw [asU128, Int.emod_eq_of_lt h (by omega)]

/-- A difference that fits, as the cast sees it. -/
theorem asU128_ofInt {x : ℤ} (h : 0 ≤ x) (hlt : x < 2 ^ 63) :
    asU128 (Int64.ofInt x) = x.toNat := by
  have htoInt : (Int64.ofInt x).toInt = x := Int64.toInt_ofInt_of_le (by omega) hlt
  rw [asU128_of_nonneg (by rwa [htoInt]), htoInt]

variable {duration now : Int64} {s : RateLimitState} (hD : 0 < duration)

section

include hD

/-- While the elapsed time fits 63 bits, nothing overflows 128 bits. -/
theorem capacityAt_of_elapsed (hle : s.lastTxTimestamp ≤ now)
    (hfit : now.toInt - s.lastTxTimestamp.toInt < 2 ^ 63) :
    s.capacityAt duration now = .ok (UInt64.ofNat (min (s.capacityAtLastTx.toNat +
      (now.toInt - s.lastTxTimestamp.toInt).toNat * s.limit.toNat / duration.toInt.toNat)
        s.limit.toNat)) := by
  have hle' := Int64.le_iff_toInt_le.mp hle
  have hD' : 0 ≤ duration.toInt := (Int64.lt_iff_toInt_lt.mp hD).le
  have hlimit := s.limit.toNat_lt
  have hcapacity := s.capacityAtLastTx.toNat_lt
  set elapsed := now.toInt - s.lastTxTimestamp.toInt with helapsed
  have hproduct : elapsed.toNat * s.limit.toNat ≤ 2 ^ 63 * 2 ^ 64 :=
    Nat.mul_le_mul (by omega) hlimit.le
  have hdiv := Nat.div_le_self (elapsed.toNat * s.limit.toNat) duration.toInt.toNat
  have hsub : checkedI64 elapsed = .ok (Int64.ofInt elapsed) := if_pos (by omega)
  have hmul : checkedU128 (elapsed.toNat * s.limit.toNat) =
      .ok (elapsed.toNat * s.limit.toNat) := if_pos (by omega)
  have hadd : checkedU128 (s.capacityAtLastTx.toNat +
      elapsed.toNat * s.limit.toNat / duration.toInt.toNat) = .ok (s.capacityAtLastTx.toNat +
        elapsed.toNat * s.limit.toNat / duration.toInt.toNat) := if_pos (by omega)
  simp only [capacityAt, assert_of hle, ← helapsed, hsub, bind, Except.bind,
    asU128_ofInt (show 0 ≤ elapsed by omega) hfit, hmul, asU128_of_nonneg hD', hadd]
  rfl

variable (hs : 0 ≤ s.lastTxTimestamp) (hle : s.lastTxTimestamp ≤ now)
include hs hle

/-- From a timestamp that is not negative on, the capacity is the level of the bucket. -/
theorem capacityAt_eq :
    s.capacityAt duration now = .ok (UInt64.ofNat (s.bucket.level (time duration) (time now))) := by
  have hs' : 0 ≤ s.lastTxTimestamp.toInt := Int64.le_iff_toInt_le.mp hs
  have hle' := Int64.le_iff_toInt_le.mp hle
  have hnow := now.toInt_lt
  have htime : (now.toInt - s.lastTxTimestamp.toInt).toNat =
      time now - time s.lastTxTimestamp := by
    rw [time, time]
    omega
  rw [capacityAt_of_elapsed hD hle (by omega), htime, Nat.mul_comm]
  rfl

end

/-- The capacity never exceeds the limit. -/
theorem capacityAt_le {capacity : UInt64} (h : s.capacityAt duration now = .ok capacity) :
    capacity ≤ s.limit := by
  simp only [capacityAt, Except.bind_eq_ok, Except.pure_eq_ok] at h
  obtain ⟨_, _, _, _, _, _, calculated, _, rfl⟩ := h
  rw [UInt64.le_iff_toNat_le, toNat_ofNat ((min_le_right _ _).trans_lt s.limit.toNat_lt)]
  exact min_le_right _ _

theorem level_lt (D t : ℕ) (s : RateLimitState) : s.bucket.level D t < 2 ^ 64 :=
  (Bucket.level_le_limit D s.bucket t).trans_lt s.limit.toNat_lt

/-- The level as a machine integer. -/
theorem toNat_level (D t : ℕ) (s : RateLimitState) :
    (UInt64.ofNat (s.bucket.level D t)).toNat = s.bucket.level D t :=
  UInt64.toNat_ofNat_of_lt (level_lt D t s)

/-- The capacity as a number. -/
theorem capacity_eq (hD : 0 < duration) (hs : 0 ≤ s.lastTxTimestamp)
    (hle : s.lastTxTimestamp ≤ now) :
    s.capacity duration now = s.bucket.level (time duration) (time now) := by
  rw [capacity, capacityAt_eq hD hs hle]
  exact toNat_level _ _ s

/-- A timestamp that is not negative is the same number in 64 bits. -/
theorem toNat_time {now : Int64} (h : 0 ≤ now) :
    (UInt64.ofNat (time now)).toNat = time now ∧ (time now : ℤ) = now.toInt := by
  have h' : 0 ≤ now.toInt := Int64.le_iff_toInt_le.mp h
  have hlt := now.toInt_lt
  refine ⟨toNat_ofNat ?_, ?_⟩ <;> rw [time] <;> omega

theorem toNat_min (a b : UInt64) : (min a b).toNat = min a.toNat b.toNat := by
  rw [Nat.min_def]
  change (if a ≤ b then a else b).toNat = _
  by_cases h : a ≤ b
  · rw [if_pos h, if_pos (UInt64.le_iff_toNat_le.mp h)]
  · rw [if_neg h, if_neg (mt UInt64.le_iff_toNat_le.mpr h)]

theorem toNat_saturatingAdd (a b : UInt64) :
    (saturatingAdd a b).toNat = min (a.toNat + b.toNat) (2 ^ 64 - 1) :=
  UInt64.toNat_ofNat_of_lt (show _ < 2 ^ 64 by omega)

theorem toNat_saturatingSub (a b : UInt64) : (saturatingSub a b).toNat = a.toNat - b.toNat :=
  UInt64.toNat_ofNat_of_lt ((Nat.sub_le _ _).trans_lt a.toNat_lt)

/-- The state of a bucket, at the time of its last operation. -/
def ofBucket (b : Bucket) (now : Int64) : RateLimitState :=
  ⟨UInt64.ofNat b.limit, UInt64.ofNat b.capacity, now⟩

include hD in
/-- **Every operation is the bucket's.** A consumption that fails there is delayed by the duration,
or panics when that time does not fit. -/
theorem apply_eq (hs : 0 ≤ s.lastTxTimestamp) (hle : s.lastTxTimestamp ≤ now) (op : RateLimitOp) :
    s.apply duration now op =
      match s.bucket.apply (time duration) (time now) op.bucketOp with
      | some b => .ok (ofBucket b now, op.answer now)
      | none => (checkedI64 (now.toInt + duration.toInt)).map fun t => (s, some (.delayed t)) := by
  have hcap := capacityAt_eq hD hs hle
  have hlevel := toNat_level (time duration) (time now) s
  have hlt := level_lt (time duration) (time now) s
  have hlim : s.bucket.level (time duration) (time now) ≤ s.limit.toNat :=
    s.bucket.level_le_limit (time duration) (time now)
  have hlimit := s.limit.toNat_lt
  have hback : UInt64.ofNat s.bucket.limit = s.limit := UInt64.ofNat_toNat
  cases op with
  | consume amount =>
      simp only [apply, consumeOrDelay, hcap, bind, Except.bind, RateLimitOp.bucketOp, Bucket.apply, ge_iff_le,
        UInt64.le_iff_toNat_le, hlevel]
      by_cases h : amount.toNat ≤ s.bucket.level (time duration) (time now)
      · have hsub : UInt64.ofNat (s.bucket.level (time duration) (time now)) - amount =
            UInt64.ofNat (s.bucket.level (time duration) (time now) - amount.toNat) := by
          apply UInt64.toNat_inj.mp
          rw [UInt64.toNat_sub_of_le _ _ (UInt64.le_iff_toNat_le.mpr (by rwa [hlevel])), hlevel,
            toNat_ofNat (show _ < 2 ^ 64 by omega)]
        simp only [h, if_true, hsub, ofBucket, hback]
        rfl
      · simp only [h, if_false]
        cases checkedI64 (now.toInt + duration.toInt) <;> rfl
  | refill amount =>
      have hmin : min (saturatingAdd (UInt64.ofNat (s.bucket.level (time duration) (time now)))
          amount) s.limit = UInt64.ofNat (min (s.bucket.level (time duration) (time now) +
            amount.toNat) s.bucket.limit) := by
        apply UInt64.toNat_inj.mp
        rw [toNat_min, toNat_saturatingAdd, hlevel]
        change _ = (UInt64.ofNat (min _ s.limit.toNat)).toNat
        rw [toNat_ofNat ((min_le_right _ _).trans_lt hlimit)]
        omega
      simp only [apply, refill, hcap, bind, Except.bind, RateLimitOp.bucketOp, Bucket.apply, ofBucket, hback,
        pure, Except.pure, hmin]
      rfl
  | setLimit limit =>
      have hlimit' := limit.toNat_lt
      simp only [apply, setLimit, hcap, bind, Except.bind, RateLimitOp.bucketOp, Bucket.apply, ofBucket,
        UInt64.ofNat_toNat, pure, Except.pure]
      congr 4
      apply UInt64.toNat_inj.mp
      rw [toNat_min]
      change _ = (UInt64.ofNat (if limit.toNat < s.limit.toNat then _ - (s.limit.toNat - _)
        else _ + (_ - s.limit.toNat))).toNat
      by_cases h : s.limit > limit
      · have h' := UInt64.lt_iff_toNat_lt.mp h
        rw [if_pos h, if_pos h', toNat_saturatingSub, hlevel,
          UInt64.toNat_sub_of_le _ _ (UInt64.le_iff_toNat_le.mpr h'.le),
          toNat_ofNat (show _ < 2 ^ 64 by omega)]
        omega
      · have h' : ¬ limit.toNat < s.limit.toNat := mt UInt64.lt_iff_toNat_lt.mpr h
        rw [if_neg h, if_neg h', toNat_saturatingAdd, hlevel,
          UInt64.toNat_sub_of_le _ _ (UInt64.le_iff_toNat_le.mpr (Nat.not_lt.mp h')),
          toNat_ofNat (show _ < 2 ^ 64 by omega)]
        omega

/-! ### The limiter is a bucket -/

/-- A state on the way from a timestamp that is not negative. -/
def Started (s : RateLimitState) : Prop := 0 ≤ s.lastTxTimestamp

theorem bucket_last (s : RateLimitState) : s.bucket.last = time s.lastTxTimestamp := rfl

/-- Timestamps that are not negative are ordered as their numbers. -/
theorem le_of_time_le {t u : Int64} (hu : 0 ≤ u) (h : time t ≤ time u) : t ≤ u := by
  have hu' : 0 ≤ u.toInt := Int64.le_iff_toInt_le.mp hu
  simp only [time] at h
  exact Int64.le_iff_toInt_le.mpr (by omega)

/-- A bucket that fits is read back from its state. -/
theorem bucket_ofBucket {b : Bucket} (hlimit : b.limit < 2 ^ 64) (hcap : b.capacity < 2 ^ 64)
    (hlast : b.last = time now) : (ofBucket b now).bucket = b := by
  rw [ofBucket, bucket, toNat_ofNat hlimit, toNat_ofNat hcap, ← hlast]

/-- What an operation leaves fits. -/
theorem limit_lt_of_apply {D t : ℕ} {o : Int64 × RateLimitOp} {b : Bucket}
    (h : s.bucket.apply D t (timed o).2 = some b) : b.limit < 2 ^ 64 := by
  cases Bucket.limit_of_apply h with
  | inl heq => exact heq ▸ s.limit.toNat_lt
  | inr heq =>
      obtain ⟨_, op⟩ := o
      cases op with
      | setLimit limit => exact (Bucket.Op.setLimit.inj heq) ▸ limit.toNat_lt
      | consume amount => cases heq
      | refill amount => cases heq

section

include hD
variable {o : Int64 × RateLimitOp} (hs : s.Started) (ho : 0 ≤ o.1) (hle : s.bucket.last ≤ (timed o).1)
include hs ho hle

/-- The machine does what the bucket does. -/
theorem machine_eq :
    match s.bucket.apply (time duration) (timed o).1 (timed o).2 with
    | some b => (machine duration).next s o = ofBucket b o.1 ∧
        (machine duration).out s o = .ok (o.2.answer o.1)
    | none => (machine duration).next s o = s ∧ (machine duration).out s o =
        (checkedI64 (o.1.toInt + duration.toInt)).map fun t => some (.delayed t) := by
  have happ := apply_eq hD hs (le_of_time_le ho hle) o.2
  change s.apply duration o.1 o.2 =
    match s.bucket.apply (time duration) (timed o).1 (timed o).2 with
    | some b => _
    | none => _ at happ
  cases hb : s.bucket.apply (time duration) (timed o).1 (timed o).2 with
  | some b =>
      rw [hb] at happ
      exact Transducer.ofExcept_of_ok happ
  | none =>
      rw [hb] at happ
      cases hc : checkedI64 (o.1.toInt + duration.toInt) with
      | error e =>
          rw [hc] at happ
          exact Transducer.ofExcept_of_error happ
      | ok release =>
          rw [hc] at happ
          exact Transducer.ofExcept_of_ok happ

/-- After an operation the state is that of the bucket after it. -/
theorem bucket_next : ((machine duration).next s o).bucket =
    s.bucket.next (time duration) (timed o).1 (timed o).2 := by
  have hmachine := machine_eq hD hs ho hle
  rw [Bucket.next]
  cases hb : s.bucket.apply (time duration) (timed o).1 (timed o).2 with
  | none =>
      rw [hb] at hmachine
      rw [hmachine.1]
      rfl
  | some b =>
      have hlimit := limit_lt_of_apply hb
      rw [hb] at hmachine
      rw [hmachine.1]
      exact bucket_ofBucket hlimit ((Bucket.valid_of_apply hb).trans_lt hlimit)
        (Bucket.last_of_apply hb)

/-- An operation leaves the timestamp as it is, or moves it to its own. -/
theorem started_next : ((machine duration).next s o).Started := by
  have hmachine := machine_eq hD hs ho hle
  cases hb : s.bucket.apply (time duration) (timed o).1 (timed o).2 with
  | none =>
      rw [hb] at hmachine
      rw [hmachine.1]
      exact hs
  | some b =>
      rw [hb] at hmachine
      rw [hmachine.1]
      exact ho

theorem spent_eq : (limiter duration).spent s o =
    s.bucket.spent (time duration) (timed o).1 (timed o).2 := by
  obtain ⟨now, op⟩ := o
  cases op with
  | refill amount => rfl
  | setLimit limit => rfl
  | consume amount =>
      simp only [limiter, machine, Transducer.ofExcept, apply_eq hD hs (le_of_time_le ho hle)]
      simp only [timed, RateLimitOp.bucketOp, Bucket.apply, Bucket.spent]
      by_cases h : amount.toNat ≤ s.bucket.level (time duration) (time now)
      · simp only [h, if_true]
        rfl
      · simp only [h, if_false]
        cases checkedI64 (now.toInt + duration.toInt) <;> rfl

theorem gained_eq : (limiter duration).gained s o =
    s.bucket.gained (time duration) (timed o).1 (timed o).2 := by
  have hnext := bucket_next hD hs ho hle
  obtain ⟨now, op⟩ := o
  cases op with
  | consume amount => rfl
  | setLimit limit => rfl
  | refill amount =>
      change ((machine duration).next s (now, .refill amount)).bucket.capacity -
        s.capacity duration now = _
      rw [hnext, capacity_eq hD hs (le_of_time_le ho hle)]
      rfl

end

/-- **The limiter is a bucket**, on timestamps that are not negative. -/
theorem refines (hD : 0 < duration) : (limiter duration).Refines (time duration) timed
    (fun s b => s.Started ∧ s.bucket = b) (fun _ o => 0 ≤ o.1) where
  next _ _ _ hr ho hle := by
    obtain ⟨hs, rfl⟩ := hr
    exact ⟨started_next hD hs ho hle, bucket_next hD hs ho hle⟩
  spent _ _ _ hr ho hle := by
    obtain ⟨hs, rfl⟩ := hr
    exact spent_eq hD hs ho hle
  gained _ _ _ hr ho hle := by
    obtain ⟨hs, rfl⟩ := hr
    exact gained_eq hD hs ho hle

/-! ### Runs -/

/-- Timestamps that do not decrease, from a time on. -/
def InOrder (start : Int64) (ops : List (Int64 × RateLimitOp)) : Prop :=
  (start :: ops.map Prod.fst).Pairwise (· ≤ ·)

variable {o : Int64 × RateLimitOp}

theorem InOrder.head {start : Int64} {ops : List (Int64 × RateLimitOp)}
    (h : InOrder start (o :: ops)) : start ≤ o.1 ∧ InOrder o.1 ops := by
  obtain ⟨hstart, hops⟩ := List.pairwise_cons.mp h
  exact ⟨hstart o.1 (List.mem_cons_self ..), hops⟩

theorem InOrder.of_le {start start' : Int64} {ops : List (Int64 × RateLimitOp)}
    (h : InOrder start ops) (hle : start' ≤ start) : InOrder start' ops := by
  obtain ⟨hstart, hops⟩ := List.pairwise_cons.mp h
  exact List.pairwise_cons.mpr ⟨fun t ht => Int64.le_trans hle (hstart t ht), hops⟩

theorem time_le_time {t u : Int64} (h : t ≤ u) : time t ≤ time u := by
  have := Int64.le_iff_toInt_le.mp h
  rw [time, time]
  omega

/-- An operation leaves a state from where its own timestamp does not run backwards. -/
theorem last_next_le (hD : 0 < duration) (hs : s.Started) (hle : s.lastTxTimestamp ≤ o.1) :
    ((machine duration).next s o).Started ∧
      ((machine duration).next s o).lastTxTimestamp ≤ o.1 := by
  have hnow : 0 ≤ o.1 := Int64.le_trans hs hle
  have hlast : s.bucket.last ≤ (timed o).1 := time_le_time hle
  refine ⟨started_next hD hs hnow hlast, le_of_time_le hnow ?_⟩
  rw [← bucket_last, bucket_next hD hs hnow hlast]
  exact Bucket.last_next_le hlast _

/-- What follows on operations in order is in order from the state that they leave. -/
theorem inOrder_run (hD : 0 < duration) {before ops : List (Int64 × RateLimitOp)}
    (hs : s.Started) (h : InOrder s.lastTxTimestamp (before ++ ops)) :
    ((machine duration).run s before).Started ∧
      InOrder ((machine duration).run s before).lastTxTimestamp ops := by
  induction before generalizing s with
  | nil => exact ⟨hs, h⟩
  | cons o before ih =>
      obtain ⟨hle, hrest⟩ := h.head
      obtain ⟨hstarted, hnext⟩ := last_next_le hD hs hle
      exact ih hstarted (hrest.of_le hnext)

/-- Operations in order find, each of them, a state that is not ahead of them. -/
theorem along_of_inOrder (hD : 0 < duration) {ops : List (Int64 × RateLimitOp)} (hs : s.Started)
    (h : InOrder s.lastTxTimestamp ops) :
    (machine duration).Along (fun s o => s.Started ∧ s.lastTxTimestamp ≤ o.1) s ops := by
  induction ops generalizing s with
  | nil => trivial
  | cons o ops ih =>
      obtain ⟨hle, hrest⟩ := h.head
      obtain ⟨hstarted, hnext⟩ := last_next_le hD hs hle
      exact ⟨⟨hs, hle⟩, ih hstarted (hrest.of_le hnext)⟩

/-- The capacity at a time, before it is rounded down to whole units. -/
def exactCapacity (duration : Int64) (s : RateLimitState) (now : Int64) : ℚ :=
  s.bucket.exactLevel (time duration) (time now)

/-- The rounding loses less than one unit, and nothing at the time of the last operation. -/
theorem exactCapacity_spec (hD : 0 < duration) (hs : s.Started) (hle : s.lastTxTimestamp ≤ now) :
    ∃ capacity, s.capacityAt duration now = .ok capacity ∧
      capacity.toNat ≤ s.exactCapacity duration now ∧
      s.exactCapacity duration now < capacity.toNat + 1 ∧
      (now = s.lastTxTimestamp → s.capacityAtLastTx ≤ s.limit →
        s.exactCapacity duration now = capacity.toNat) := by
  refine ⟨_, capacityAt_eq hD hs hle, ?_⟩
  rw [toNat_level, exactCapacity]
  have hpos : 0 < duration.toInt := Int64.lt_iff_toInt_lt.mp hD
  have hpos' : 0 < time duration := by
    rw [time]
    omega
  refine ⟨Bucket.level_le_exactLevel _ _ _, Bucket.exactLevel_lt_level_add_one hpos' _ _, ?_⟩
  rintro rfl hcap
  exact Bucket.exactLevel_last (UInt64.le_iff_toNat_le.mp hcap)

/-- What refills linearly between two times, at a limit. -/
def accrued (duration t₁ t₂ : Int64) (limit : UInt64) : ℚ :=
  limit.toNat * (time t₂ - time t₁ : ℕ) / time duration

/-- Operations between two times, from a state on, along which the limit stays. -/
structure Window (s : RateLimitState) (t₁ t₂ : Int64) (ops : List (Int64 × RateLimitOp)) :
    Prop where
  after : s.lastTxTimestamp ≤ t₁
  le : t₁ ≤ t₂
  inside : ∀ o ∈ ops, t₁ ≤ o.1 ∧ o.1 ≤ t₂
  limit : ∀ o ∈ ops, ∀ limit, o.2 = .setLimit limit → limit = s.limit

/-- Operations in order, between two times, are timed as the bucket wants them. -/
theorem InOrder.timed {start : Int64} {ops : List (Int64 × RateLimitOp)} (h : InOrder start ops)
    {t₁ t₂ : ℕ} (hin : ∀ o ∈ ops, t₁ ≤ time o.1 ∧ time o.1 ≤ t₂) (hle : t₁ ≤ t₂) :
    Bucket.Timed t₁ t₂ (ops.map RateLimitState.timed) := by
  have hord := List.pairwise_map.mp (List.pairwise_cons.mp h).2
  refine Bucket.timed_of_pairwise (List.pairwise_map.mpr (hord.imp time_le_time)) ?_ hle
  intro o ho
  obtain ⟨o', ho', rfl⟩ := List.mem_map.mp ho
  exact hin o' ho'

/-- Operations in order from a started state do not have negative timestamps. -/
theorem InOrder.nonneg {ops : List (Int64 × RateLimitOp)} (hs : s.Started)
    (h : InOrder s.lastTxTimestamp ops) : ∀ o ∈ ops, 0 ≤ o.1 := fun _ ho =>
  Int64.le_trans hs ((List.pairwise_cons.mp h).1 _ (List.mem_map_of_mem ho))

theorem Window.keepsLimit {t₁ t₂ : Int64} {ops : List (Int64 × RateLimitOp)}
    (h : Window s t₁ t₂ ops) :
    Bucket.KeepsLimit s.bucket.limit (ops.map RateLimitState.timed) := by
  intro o ho l hl
  obtain ⟨⟨now, op⟩, ho', rfl⟩ := List.mem_map.mp ho
  cases op with
  | consume amount => cases hl
  | refill amount => cases hl
  | setLimit limit =>
      rw [← Bucket.Op.setLimit.inj hl, h.limit _ ho' limit rfl]
      rfl

section

variable {ops : List (Int64 × RateLimitOp)} (hD : 0 < duration) (hs : s.Started)
  (h : InOrder s.lastTxTimestamp ops)
include hD hs h

/-- A run in order is one of the bucket. -/
theorem run_eq : ((machine duration).run s ops).Started ∧
    ((machine duration).run s ops).bucket = s.bucket.run (time duration) (ops.map timed) := by
  have hlt : ∀ now : Int64, time now ≤ 2 ^ 63 := fun now => by
    have := now.toInt_lt
    rw [time]
    omega
  have htimed := h.timed (fun o ho =>
    ⟨time_le_time ((List.pairwise_cons.mp h).1 _ (List.mem_map_of_mem ho)), hlt o.1⟩) (hlt _)
  exact ((refines hD).run_eq ⟨hs, rfl⟩ (Transducer.along_of_forall (h.nonneg hs)) le_rfl
    htimed).1

/-- A capacity within the limit stays within the limit. -/
theorem capacityAtLastTx_le (hcap : s.capacityAtLastTx ≤ s.limit) :
    ((machine duration).run s ops).capacityAtLastTx ≤ ((machine duration).run s ops).limit := by
  have hvalid : s.bucket.Valid := UInt64.le_iff_toNat_le.mp hcap
  have hrun := hvalid.run (D := time duration) (ops.map timed)
  rw [← (run_eq hD hs h).2] at hrun
  exact UInt64.le_iff_toNat_le.mpr hrun

/-- **The window bound.** What is consumed between two times is at most the unrounded capacity at
the first, the linear refill, and the backflow. -/
theorem consumed_le {t₁ t₂ : Int64} (hw : Window s t₁ t₂ ops) :
    ((limiter duration).consumed s ops : ℚ) ≤ s.exactCapacity duration t₁ +
      accrued duration t₁ t₂ s.limit + (limiter duration).refilled s ops := by
  have htimed := h.timed (fun o ho =>
    ⟨time_le_time (hw.inside o ho).1, time_le_time (hw.inside o ho).2⟩) (time_le_time hw.le)
  exact (refines hD).consumed_le ⟨hs, rfl⟩ (Transducer.along_of_forall (h.nonneg hs))
    (time_le_time hw.after) htimed hw.keepsLimit

end

end RateLimitState

end Ntt.Solana
