import Ntt.Solana.RateLimit
import Ntt.Sui.Basic

/-!
# The Rate Limiter of the Sui Packages

`RateLimitState` of the package: a limit, the capacity after the last operation and the time of
that, in milliseconds. The operations are those of the Solana program, and so is the arithmetic,
but that an addition of timestamps has 64 bits to fit. The duration is a parameter,
`RATE_LIMIT_DURATION` in the package.

A refill stores the capacity and leaves the timestamp as it is, so the time since then counts
again. It makes no difference where no time has passed, and where the refill fills the capacity
(`RefillsInPlace`). Along operations that refill so, the limiter is a token bucket
(`RateLimitState.refines`), and decides as the program of Solana does with the same duration.

## Main results

* `capacityAt_eq`: the 128-bit arithmetic does not overflow, and computes the level of the bucket.
* `RateLimitState.limiter_safe`: the capacity never exceeds the limit; consumption between two
  times is bounded, and decided as on Solana.
-/

namespace Ntt.Sui

open Solana.RateLimitState (toNat_ofNat toNat_min)

/-- A result that has to fit `u64`. -/
def checkedU64 (n : ℕ) : Except Abort UInt64 :=
  if n < 2 ^ 64 then .ok (UInt64.ofNat n) else .error .arithmetic

theorem checkedU64_eq_ok {n : ℕ} {x : UInt64} : checkedU64 n = .ok x ↔ x.toNat = n := by
  have hx := x.toNat_lt
  rw [checkedU64]
  split
  · rename_i hlt
    rw [Except.ok.injEq, UInt64.ofNat_eq_iff_mod_eq_toNat, Nat.mod_eq_of_lt hlt, eq_comm]
  · refine iff_of_false (fun hok => by cases hok) fun hfits => ?_
    omega

/-- A result that has to fit `u128`. -/
def checkedU128 (n : ℕ) : Except Abort ℕ := fitting (2 ^ 128 - 1) n

/-- The result of attempting to consume. -/
inductive RateLimitResult where
  | consumed
  | delayed (timestamp : UInt64)
deriving DecidableEq, Repr

structure RateLimitState where
  /-- The maximum capacity. -/
  limit : UInt64
  /-- The capacity at `lastTxTimestamp`. -/
  capacityAtLastTx : UInt64
  /-- The timestamp, in milliseconds, of the last transaction that counted towards the
  capacity. -/
  lastTxTimestamp : UInt64
deriving DecidableEq, Repr

/-- One day in milliseconds. -/
def RATE_LIMIT_DURATION : UInt64 := 24 * 60 * 60 * 1000

namespace RateLimitState

def new (limit : UInt64) : RateLimitState := ⟨limit, limit, 0⟩

variable (duration : UInt64) (self : RateLimitState) (now : UInt64)

/-- The capacity at a time. -/
def capacityAt : Except Abort UInt64 := do
  assert (self.lastTxTimestamp ≤ now) .assertion
  let limit := self.limit.toNat
  let capacityAtLastTx := self.capacityAtLastTx.toNat
  let timePassed ← sub now.toNat self.lastTxTimestamp.toNat
  let product ← checkedU128 (timePassed * limit)
  let calculatedCapacity ← checkedU128 (capacityAtLastTx + product / duration.toNat)
  checkedU64 (min calculatedCapacity limit)

/-- Consumes an amount that fits within the capacity, or says until when it is delayed. -/
def consumeOrDelay (amount : UInt64) : Except Abort (RateLimitState × RateLimitResult) := do
  let capacity ← capacityAt duration self now
  if capacity ≥ amount then
    return ({ self with capacityAtLastTx := capacity - amount, lastTxTimestamp := now }, .consumed)
  else
    let timestamp ← checkedU64 (now.toNat + duration.toNat)
    return (self, .delayed timestamp)

/-- Refills the capacity via backflows. -/
def refill (amount : UInt64) : Except Abort RateLimitState := do
  let capacity ← capacityAt duration self now
  let newAmount ← checkedU128 (capacity.toNat + amount.toNat)
  let newAmount ← checkedU64 (min newAmount 0xFFFF_FFFF_FFFF_FFFF)
  -- the timestamp stays
  return { self with capacityAtLastTx := min newAmount self.limit }

/-- The capacity moved by the difference of two limits: not below zero, and saturating. -/
def movedCapacity (oldLimit limit currentCapacity : UInt64) : Except Abort UInt64 :=
  if oldLimit > limit then
    let diff := oldLimit - limit
    if diff > currentCapacity then return 0 else return currentCapacity - diff
  else do
    let diff := limit - oldLimit
    let newCapacity ← checkedU128 (currentCapacity.toNat + diff.toNat)
    checkedU64 (min newCapacity 0xFFFF_FFFF_FFFF_FFFF)

def setLimit (limit : UInt64) : Except Abort RateLimitState := do
  let currentCapacity ← capacityAt duration self now
  let newCapacity ← movedCapacity self.limit limit currentCapacity
  return { limit, capacityAtLastTx := min newCapacity limit, lastTxTimestamp := now }

end RateLimitState

/-! ### The operations as one -/

/-- The operations are those of the program of Solana. -/
abbrev RateLimitOp := Solana.RateLimitOp

/-- The answer to an operation that is not delayed. -/
def answer : RateLimitOp → Option RateLimitResult
  | .consume _ => some .consumed
  | _ => none

namespace RateLimitState

/-- What the package does: the new state, and the result of a consumption. -/
def apply (duration : UInt64) (s : RateLimitState) (now : UInt64) :
    RateLimitOp → Except Abort (RateLimitState × Option RateLimitResult)
  | .consume amount => do
      let (s', result) ← s.consumeOrDelay duration now amount
      return (s', some result)
  | .refill amount => do return (← s.refill duration now amount, none)
  | .setLimit limit => do return (← s.setLimit duration now limit, none)

/-- The package as a machine of timed operations: an abort undoes the transaction. -/
def machine (duration : UInt64) :
    Transducer RateLimitState (UInt64 × RateLimitOp) (Except Abort (Option RateLimitResult)) :=
  .ofExcept fun s o => s.apply duration o.1 o.2

/-- The capacity, or nothing when the package aborts. -/
def capacity (duration : UInt64) (s : RateLimitState) (now : UInt64) : ℕ :=
  ((s.capacityAt duration now).map UInt64.toNat).toOption.getD 0

/-- The package as a limiter. A refill refills the capacity that it leaves beyond the one that it
finds. -/
def limiter (duration : UInt64) :
    Limiter RateLimitState (UInt64 × RateLimitOp) (Except Abort (Option RateLimitResult)) where
  toTransducer := machine duration
  spent s o :=
    match o.2, (machine duration).out s o with
    | .consume amount, .ok (some .consumed) => amount.toNat
    | _, _ => 0
  gained s o :=
    match o.2 with
    | .refill _ => ((machine duration).next s o).capacityAtLastTx.toNat - s.capacity duration o.1
    | _ => 0

/-- A refill at the time of the last transaction, or one that fills the capacity. -/
def RefillsInPlace (duration : UInt64) (s : RateLimitState) (o : UInt64 × RateLimitOp) : Prop :=
  match o.2 with
  | .refill amount => s.lastTxTimestamp = o.1 ∨ s.limit.toNat ≤ s.capacity duration o.1 + amount.toNat
  | _ => True

/-! ### The state as a bucket -/

/-- The state as a bucket. -/
def bucket (s : RateLimitState) : Bucket :=
  ⟨s.limit.toNat, s.capacityAtLastTx.toNat, s.lastTxTimestamp.toNat⟩

/-- A timed operation as the bucket sees it. -/
def timed (o : UInt64 × RateLimitOp) : ℕ × Bucket.Op :=
  (o.1.toNat, o.2.bucketOp)

variable {duration now : UInt64} {s : RateLimitState}

theorem checkedU64_of_lt {n : ℕ} (h : n < 2 ^ 64) : checkedU64 n = .ok (UInt64.ofNat n) := if_pos h

theorem checkedU128_of_lt {n : ℕ} (h : n < 2 ^ 128) : checkedU128 n = .ok n :=
  if_pos (by omega)

/-- While the clock does not run backwards, nothing overflows 128 bits. -/
theorem capacityAt_eq (hle : s.lastTxTimestamp ≤ now) : s.capacityAt duration now =
    .ok (UInt64.ofNat (s.bucket.level duration.toNat now.toNat)) := by
  have hle' := UInt64.le_iff_toNat_le.mp hle
  have hnow := now.toNat_lt
  have hlimit := s.limit.toNat_lt
  have hcapacity := s.capacityAtLastTx.toNat_lt
  set elapsed := now.toNat - s.lastTxTimestamp.toNat with helapsed
  have hproduct : elapsed * s.limit.toNat ≤ (2 ^ 64 - 1) * (2 ^ 64 - 1) :=
    Nat.mul_le_mul (by omega) (by omega)
  have hdiv := Nat.div_le_self (elapsed * s.limit.toNat) duration.toNat
  have hsub : sub now.toNat s.lastTxTimestamp.toNat = .ok elapsed := if_pos hle'
  have hmul : checkedU128 (elapsed * s.limit.toNat) = .ok (elapsed * s.limit.toNat) :=
    checkedU128_of_lt (by omega)
  have hadd : checkedU128 (s.capacityAtLastTx.toNat +
      elapsed * s.limit.toNat / duration.toNat) = .ok (s.capacityAtLastTx.toNat +
        elapsed * s.limit.toNat / duration.toNat) := checkedU128_of_lt (by omega)
  simp only [capacityAt, assert, hle, if_true, hsub, hmul, hadd, bind, Except.bind]
  rw [checkedU64_of_lt ((min_le_right _ _).trans_lt hlimit), Bucket.level, bucket, ← helapsed,
    Nat.mul_comm]

theorem level_lt (D t : ℕ) (s : RateLimitState) : s.bucket.level D t < 2 ^ 64 :=
  (Bucket.level_le_limit D s.bucket t).trans_lt s.limit.toNat_lt

/-- The state of a bucket, with a timestamp. -/
def ofBucket (b : Bucket) (last : UInt64) : RateLimitState :=
  ⟨UInt64.ofNat b.limit, UInt64.ofNat b.capacity, last⟩

/-- The timestamp that an operation leaves when it is not delayed: a refill keeps it. -/
def lastAfter (s : RateLimitState) (now : UInt64) : RateLimitOp → UInt64
  | .refill _ => s.lastTxTimestamp
  | _ => now

/-- The difference of the limits moves a capacity within the old limit, and what saturates is
above the new one. -/
theorem movedCapacity_eq {oldLimit limit capacity : UInt64}
    (hle : capacity.toNat ≤ oldLimit.toNat) :
    movedCapacity oldLimit limit capacity = .ok (UInt64.ofNat (if limit.toNat < oldLimit.toNat
      then capacity.toNat - (oldLimit.toNat - limit.toNat)
      else capacity.toNat + (limit.toNat - oldLimit.toNat))) := by
  have hlimit := limit.toNat_lt
  have hcapacity := capacity.toNat_lt
  by_cases h : limit.toNat < oldLimit.toNat
  · have h' : oldLimit > limit := UInt64.lt_iff_toNat_lt.mpr h
    have hdiff : (oldLimit - limit).toNat = oldLimit.toNat - limit.toNat :=
      UInt64.toNat_sub_of_le _ _ (UInt64.le_iff_toNat_le.mpr h.le)
    rw [movedCapacity, if_pos h', if_pos h]
    by_cases hc : oldLimit - limit > capacity
    · have hc' := UInt64.lt_iff_toNat_lt.mp hc
      rw [if_pos hc, Nat.sub_eq_zero_of_le (by omega)]
      rfl
    · have hc' : oldLimit - limit ≤ capacity := UInt64.not_lt.mp hc
      have hsub := UInt64.toNat_sub_of_le _ _ hc'
      rw [if_neg hc, ← hdiff, ← hsub, UInt64.ofNat_toNat]
      rfl
  · have h' : ¬ oldLimit > limit := mt UInt64.lt_iff_toNat_lt.mp h
    have hdiff : (limit - oldLimit).toNat = limit.toNat - oldLimit.toNat :=
      UInt64.toNat_sub_of_le _ _ (UInt64.le_iff_toNat_le.mpr (Nat.not_lt.mp h))
    simp only [movedCapacity, if_neg h', if_neg h, hdiff, bind, Except.bind,
      checkedU128_of_lt (show capacity.toNat + (limit.toNat - oldLimit.toNat) < 2 ^ 128 by omega)]
    rw [checkedU64_of_lt (by omega), min_eq_left (by omega)]

/-- **Every operation moves limit and capacity as the bucket's does.** A consumption that fails
there is delayed by the duration, or aborts when that time does not fit. -/
theorem apply_eq (hle : s.lastTxTimestamp ≤ now) (op : RateLimitOp) :
    s.apply duration now op =
      match s.bucket.apply duration.toNat now.toNat op.bucketOp with
      | some b => .ok (ofBucket b (s.lastAfter now op), answer op)
      | none => (checkedU64 (now.toNat + duration.toNat)).map
          fun t => (s, some (.delayed t)) := by
  have hcap : s.capacityAt duration now = _ := capacityAt_eq hle
  have hlt := level_lt duration.toNat now.toNat s
  have hlim : s.bucket.level duration.toNat now.toNat ≤ s.limit.toNat :=
    s.bucket.level_le_limit _ _
  have hlimit := s.limit.toNat_lt
  have hback : UInt64.ofNat s.bucket.limit = s.limit := UInt64.ofNat_toNat
  generalize hlevel : s.bucket.level duration.toNat now.toNat = level at *
  have hnat : (UInt64.ofNat level).toNat = level := toNat_ofNat hlt
  cases op with
  | consume amount =>
      simp only [apply, consumeOrDelay, hcap, bind, Except.bind, Solana.RateLimitOp.bucketOp,
        Bucket.apply, hlevel, ge_iff_le, UInt64.le_iff_toNat_le, hnat]
      by_cases h : amount.toNat ≤ level
      · have hsub : UInt64.ofNat level - amount = UInt64.ofNat (level - amount.toNat) := by
          apply UInt64.toNat_inj.mp
          rw [UInt64.toNat_sub_of_le _ _ (UInt64.le_iff_toNat_le.mpr (by rwa [hnat])), hnat,
            toNat_ofNat (show _ < 2 ^ 64 by omega)]
        simp only [h, if_true, hsub, ofBucket, hback]
        rfl
      · simp only [h, if_false]
        cases checkedU64 (now.toNat + duration.toNat) <;> rfl
  | refill amount =>
      have hamount := amount.toNat_lt
      have hadd : checkedU128 (level + amount.toNat) = .ok (level + amount.toNat) :=
        checkedU128_of_lt (by omega)
      have hcast : checkedU64 (min (level + amount.toNat) 0xFFFF_FFFF_FFFF_FFFF) =
          .ok (UInt64.ofNat (min (level + amount.toNat) 0xFFFF_FFFF_FFFF_FFFF)) :=
        checkedU64_of_lt (by omega)
      have hmin : min (UInt64.ofNat (min (level + amount.toNat) 0xFFFF_FFFF_FFFF_FFFF)) s.limit =
          UInt64.ofNat (min (level + amount.toNat) s.limit.toNat) := by
        apply UInt64.toNat_inj.mp
        rw [toNat_min, toNat_ofNat (show _ < 2 ^ 64 by omega),
          toNat_ofNat ((min_le_right _ _).trans_lt hlimit)]
        omega
      simp only [apply, refill, hcap, hnat, hadd, hcast, hmin, bind, Except.bind,
        Solana.RateLimitOp.bucketOp, Bucket.apply, hlevel]
      rw [ofBucket, hback]
      rfl
  | setLimit limit =>
      have hlimit' := limit.toNat_lt
      have hmoved : movedCapacity s.limit limit (UInt64.ofNat level) = _ :=
        movedCapacity_eq (hnat.trans_le hlim)
      rw [hnat] at hmoved
      have hmin : min (UInt64.ofNat (if limit.toNat < s.limit.toNat
          then level - (s.limit.toNat - limit.toNat)
          else level + (limit.toNat - s.limit.toNat))) limit =
          UInt64.ofNat (if limit.toNat < s.limit.toNat
            then level - (s.limit.toNat - limit.toNat)
            else level + (limit.toNat - s.limit.toNat)) := by
        generalize hn : (if limit.toNat < s.limit.toNat
          then level - (s.limit.toNat - limit.toNat)
          else level + (limit.toNat - s.limit.toNat)) = n
        have hle : n ≤ limit.toNat := by split at hn <;> omega
        apply UInt64.toNat_inj.mp
        rw [toNat_min, toNat_ofNat (hle.trans_lt hlimit'), min_eq_left hle]
      simp only [apply, setLimit, hcap, hmoved, hmin, bind, Except.bind,
        Solana.RateLimitOp.bucketOp, Bucket.apply, hlevel]
      rw [ofBucket, UInt64.ofNat_toNat]
      rfl

theorem capacity_eq (hle : s.lastTxTimestamp ≤ now) :
    s.capacity duration now = s.bucket.level duration.toNat now.toNat := by
  rw [capacity, capacityAt_eq hle]
  exact toNat_ofNat (level_lt _ _ s)

variable {o : UInt64 × RateLimitOp} {b : Bucket}

/-- The machine does what the bucket does, but for the timestamp. -/
theorem machine_eq (duration : UInt64) (hle : s.lastTxTimestamp ≤ o.1) :
    match s.bucket.apply duration.toNat (timed o).1 (timed o).2 with
    | some b => (machine duration).next s o = ofBucket b (s.lastAfter o.1 o.2) ∧
        (machine duration).out s o = .ok (answer o.2)
    | none => (machine duration).next s o = s ∧ (machine duration).out s o =
        (checkedU64 (o.1.toNat + duration.toNat)).map fun t => some (.delayed t) := by
  have happ : s.apply duration o.1 o.2 =
      match s.bucket.apply duration.toNat (timed o).1 (timed o).2 with
      | some b => _
      | none => _ := apply_eq hle o.2
  cases hb : s.bucket.apply duration.toNat (timed o).1 (timed o).2 with
  | some b =>
      rw [hb] at happ
      exact Transducer.ofExcept_of_ok happ
  | none =>
      rw [hb] at happ
      cases hc : checkedU64 (o.1.toNat + duration.toNat) with
      | error e =>
          rw [hc] at happ
          exact Transducer.ofExcept_of_error happ
      | ok release =>
          rw [hc] at happ
          exact Transducer.ofExcept_of_ok happ

/-- What an operation leaves fits. -/
theorem fits_of_apply (h : s.bucket.apply duration.toNat (timed o).1 (timed o).2 = some b) :
    b.limit < 2 ^ 64 ∧ b.capacity < 2 ^ 64 := by
  have hlimit : b.limit < 2 ^ 64 := by
    cases Bucket.limit_of_apply h with
    | inl heq => exact heq ▸ s.limit.toNat_lt
    | inr heq =>
        obtain ⟨_, op⟩ := o
        cases op with
        | setLimit limit => exact (Bucket.Op.setLimit.inj heq) ▸ limit.toNat_lt
        | consume amount => cases heq
        | refill amount => cases heq
  exact ⟨hlimit, (Bucket.valid_of_apply h).trans_lt hlimit⟩

/-! ### The limiter is a bucket -/

/-- The state behaves as a bucket that is not behind it. -/
def Follows (s : RateLimitState) (b : Bucket) : Prop :=
  s.bucket.Alike b ∧ s.bucket.last ≤ b.last

section

variable (hr : s.Follows b) (hle : b.last ≤ (timed o).1)
include hr hle

theorem Follows.last_le : s.lastTxTimestamp ≤ o.1 :=
  UInt64.le_iff_toNat_le.mpr (hr.2.trans hle)

/-- A timestamp that an operation in place leaves is its own, unless the capacity is full. -/
theorem Follows.lastAfter (ho : RefillsInPlace duration s o) {b' : Bucket}
    (hb : s.bucket.apply duration.toNat (timed o).1 (timed o).2 = some b') :
    ((s.lastAfter o.1 o.2).toNat = b'.last ∨ b'.limit ≤ b'.capacity) ∧
      (s.lastAfter o.1 o.2).toNat ≤ b'.last := by
  have hlast : b'.last = o.1.toNat := Bucket.last_of_apply hb
  have hslast := hr.last_le hle
  obtain ⟨now, op⟩ := o
  cases op with
  | consume amount => exact ⟨.inl hlast.symm, hlast.ge⟩
  | setLimit limit => exact ⟨.inl hlast.symm, hlast.ge⟩
  | refill amount =>
      refine ⟨?_, (UInt64.le_iff_toNat_le.mp hslast).trans hlast.ge⟩
      have ho : s.lastTxTimestamp = now ∨ s.limit.toNat ≤ s.capacity duration now + amount.toNat :=
        ho
      obtain hnow | hfull := ho
      · exact .inl ((congrArg UInt64.toNat hnow).trans hlast.symm)
      · obtain rfl := Option.some.inj hb
        rw [capacity_eq hslast] at hfull
        exact .inr (le_min hfull le_rfl)

/-- An operation that refills in place leaves a state that behaves as the bucket after it. -/
theorem Follows.next (ho : RefillsInPlace duration s o) :
    ((machine duration).next s o).Follows (b.next duration.toNat (timed o).1 (timed o).2) := by
  have hmachine := machine_eq duration (hr.last_le hle)
  rw [Bucket.next, ← hr.1.apply]
  cases hb : s.bucket.apply duration.toNat (timed o).1 (timed o).2 with
  | none =>
      rw [hb] at hmachine
      rw [hmachine.1]
      exact hr
  | some b' =>
      rw [hb] at hmachine
      obtain ⟨hlimit, hcap⟩ := fits_of_apply hb
      obtain ⟨hsame, hlast⟩ := hr.lastAfter hle ho hb
      have hbucket : (ofBucket b' (s.lastAfter o.1 o.2)).bucket =
          { b' with last := (s.lastAfter o.1 o.2).toNat } := by
        rw [ofBucket, bucket, toNat_ofNat hlimit, toNat_ofNat hcap]
      rw [hmachine.1, Follows, hbucket, Option.getD_some]
      refine ⟨?_, hlast⟩
      obtain heq | hfull := hsame
      · rw [heq]
        exact .inl rfl
      · exact .inr ⟨rfl, hfull, hfull⟩

theorem Follows.spent : (limiter duration).spent s o =
    b.spent duration.toNat (timed o).1 (timed o).2 := by
  have hslast := hr.last_le hle
  rw [← hr.1.spent]
  obtain ⟨now, op⟩ := o
  cases op with
  | refill amount => rfl
  | setLimit limit => rfl
  | consume amount =>
      simp only [limiter, machine, Transducer.ofExcept, apply_eq hslast]
      simp only [timed, Solana.RateLimitOp.bucketOp, Bucket.apply, Bucket.spent]
      by_cases h : amount.toNat ≤ s.bucket.level duration.toNat now.toNat
      · simp only [h, if_true]
        rfl
      · simp only [h, if_false]
        cases checkedU64 (now.toNat + duration.toNat) <;> rfl

theorem Follows.gained : (limiter duration).gained s o =
    b.gained duration.toNat (timed o).1 (timed o).2 := by
  have hslast := hr.last_le hle
  have hmachine := machine_eq duration hslast
  rw [← hr.1.gained]
  obtain ⟨now, op⟩ := o
  cases op with
  | consume amount => rfl
  | setLimit limit => rfl
  | refill amount =>
      have hcap := (fits_of_apply (s := s) (o := (now, .refill amount))
        (rfl : s.bucket.apply duration.toNat now.toNat (.refill amount.toNat) = _)).2
      change ((machine duration).next s (now, .refill amount)).capacityAtLastTx.toNat -
        s.capacity duration now = _
      rw [hmachine.1, capacity_eq hslast]
      exact congrArg (· - _) (toNat_ofNat hcap)

end

/-- **Along refills in place, the limiter is a bucket.** -/
theorem refines (duration : UInt64) : (limiter duration).Refines duration.toNat timed Follows
    (RefillsInPlace duration) where
  next _ _ _ hr ho hle := hr.next hle ho
  spent _ _ _ hr _ hle := hr.spent hle
  gained _ _ _ hr _ hle := hr.gained hle

/-- The capacity never exceeds the limit. -/
theorem capacityAt_le {capacity : UInt64} (h : s.capacityAt duration now = .ok capacity) :
    capacity ≤ s.limit := by
  simp only [capacityAt, Except.bind_eq_ok] at h
  obtain ⟨_, _, _, _, _, _, calculated, _, hcast⟩ := h
  have hlimit := s.limit.toNat_lt
  rw [checkedU64_of_lt ((min_le_right _ _).trans_lt hlimit), Except.ok.injEq] at hcast
  rw [UInt64.le_iff_toNat_le, ← hcast, toNat_ofNat ((min_le_right _ _).trans_lt hlimit)]
  exact min_le_right _ _

/-! ### Runs -/

/-- Timestamps that do not decrease, from a time on. -/
def InOrder (start : UInt64) (ops : List (UInt64 × RateLimitOp)) : Prop :=
  (start :: ops.map Prod.fst).Pairwise (· ≤ ·)

theorem InOrder.head {start : UInt64} {ops : List (UInt64 × RateLimitOp)}
    (h : InOrder start (o :: ops)) : start ≤ o.1 ∧ InOrder o.1 ops := by
  obtain ⟨hstart, hops⟩ := List.pairwise_cons.mp h
  exact ⟨hstart o.1 (List.mem_cons_self ..), hops⟩

theorem InOrder.of_le {start start' : UInt64} {ops : List (UInt64 × RateLimitOp)}
    (h : InOrder start ops) (hle : start' ≤ start) : InOrder start' ops := by
  obtain ⟨hstart, hops⟩ := List.pairwise_cons.mp h
  exact List.pairwise_cons.mpr ⟨fun t ht => UInt64.le_trans hle (hstart t ht), hops⟩

/-- Operations in order, between two times, are timed as the bucket wants them. -/
theorem InOrder.timed {start : UInt64} {ops : List (UInt64 × RateLimitOp)} (h : InOrder start ops)
    {t₁ t₂ : ℕ} (hin : ∀ o ∈ ops, t₁ ≤ o.1.toNat ∧ o.1.toNat ≤ t₂) (hle : t₁ ≤ t₂) :
    Bucket.Timed t₁ t₂ (ops.map RateLimitState.timed) := by
  have hord := List.pairwise_map.mp (List.pairwise_cons.mp h).2
  refine Bucket.timed_of_pairwise
    (List.pairwise_map.mpr (hord.imp UInt64.le_iff_toNat_le.mp)) ?_ hle
  intro o ho
  obtain ⟨o', ho', rfl⟩ := List.mem_map.mp ho
  exact hin o' ho'

/-- An operation leaves a state from where its own timestamp does not run backwards. -/
theorem last_next_le (hle : s.lastTxTimestamp ≤ o.1) :
    ((machine duration).next s o).lastTxTimestamp ≤ o.1 := by
  have hmachine := machine_eq duration hle
  cases hb : s.bucket.apply duration.toNat (timed o).1 (timed o).2 with
  | none =>
      rw [hb] at hmachine
      rw [hmachine.1]
      exact hle
  | some b =>
      rw [hb] at hmachine
      rw [hmachine.1]
      obtain ⟨now, op⟩ := o
      cases op with
      | refill amount => exact hle
      | consume amount => exact UInt64.le_refl _
      | setLimit limit => exact UInt64.le_refl _

/-- What follows on operations in order is in order from the state that they leave. -/
theorem inOrder_run {before ops : List (UInt64 × RateLimitOp)}
    (h : InOrder s.lastTxTimestamp (before ++ ops)) :
    InOrder ((machine duration).run s before).lastTxTimestamp ops := by
  induction before generalizing s with
  | nil => exact h
  | cons o before ih =>
      obtain ⟨hle, hrest⟩ := h.head
      exact ih (hrest.of_le (last_next_le hle))

/-- The capacity at a time, before it is rounded down to whole units. -/
def exactCapacity (duration : UInt64) (s : RateLimitState) (now : UInt64) : ℚ :=
  s.bucket.exactLevel duration.toNat now.toNat

/-- The rounding loses less than one unit. -/
theorem exactCapacity_spec (hD : 0 < duration.toNat) (hle : s.lastTxTimestamp ≤ now) :
    ∃ capacity, s.capacityAt duration now = .ok capacity ∧
      capacity.toNat ≤ s.exactCapacity duration now ∧
      s.exactCapacity duration now < capacity.toNat + 1 := by
  refine ⟨_, capacityAt_eq hle, ?_⟩
  rw [toNat_ofNat (level_lt _ _ s), exactCapacity]
  exact ⟨Bucket.level_le_exactLevel _ _ _, Bucket.exactLevel_lt_level_add_one hD _ _⟩

/-- What refills linearly between two times, at a limit. -/
def accrued (duration t₁ t₂ : UInt64) (limit : UInt64) : ℚ :=
  limit.toNat * (t₂.toNat - t₁.toNat : ℕ) / duration.toNat

/-- Operations between two times, from a state on, along which the limit stays. -/
structure Window (s : RateLimitState) (t₁ t₂ : UInt64) (ops : List (UInt64 × RateLimitOp)) :
    Prop where
  after : s.lastTxTimestamp ≤ t₁
  le : t₁ ≤ t₂
  inside : ∀ o ∈ ops, t₁ ≤ o.1 ∧ o.1 ≤ t₂
  limit : ∀ o ∈ ops, ∀ limit, o.2 = .setLimit limit → limit = s.limit

theorem Window.keepsLimit {t₁ t₂ : UInt64} {ops : List (UInt64 × RateLimitOp)}
    (h : Window s t₁ t₂ ops) :
    Bucket.KeepsLimit s.bucket.limit (ops.map RateLimitState.timed) := by
  intro o ho l hl
  obtain ⟨⟨now, op⟩, ho', rfl⟩ := List.mem_map.mp ho
  cases op with
  | consume amount => cases hl
  | refill amount => cases hl
  | setLimit limit =>
      rw [← Bucket.Op.setLimit.inj hl, h.limit _ ho' limit rfl]
      rfl

/-- **The window bound.** Where refills are in place, what is consumed between two times is at
most the unrounded capacity at the first, the linear refill, and the backflow. -/
theorem consumed_le {ops : List (UInt64 × RateLimitOp)} (h : InOrder s.lastTxTimestamp ops)
    (hops : (machine duration).Along (RefillsInPlace duration) s ops) {t₁ t₂ : UInt64}
    (hw : Window s t₁ t₂ ops) :
    ((limiter duration).consumed s ops : ℚ) ≤ s.exactCapacity duration t₁ +
      accrued duration t₁ t₂ s.limit + (limiter duration).refilled s ops := by
  have htimed := h.timed (fun o ho => ⟨UInt64.le_iff_toNat_le.mp (hw.inside o ho).1,
    UInt64.le_iff_toNat_le.mp (hw.inside o ho).2⟩) (UInt64.le_iff_toNat_le.mp hw.le)
  exact (refines duration).consumed_le ⟨.inl rfl, le_rfl⟩ hops
    (UInt64.le_iff_toNat_le.mp hw.after) htimed hw.keepsLimit

/-! ### The same operations on Solana -/

/-- A timed operation of Solana, on a timestamp that is not negative. -/
def toSui (o : Int64 × RateLimitOp) : UInt64 × RateLimitOp :=
  (UInt64.ofNat (Solana.RateLimitState.time o.1), o.2)

/-- Two answers to one operation that agree, or a release time that does not fit the timestamps of
Solana. -/
inductive SameDecision : Except Solana.Panic (Option Solana.RateLimitResult) →
    Except Abort (Option RateLimitResult) → Prop
  | applied : SameDecision (.ok none) (.ok none)
  | consumed (now : Int64) : SameDecision (.ok (some (.consumed now))) (.ok (some .consumed))
  | delayed {release : Int64} {release' : UInt64} (h : release.toInt = release'.toNat) :
      SameDecision (.ok (some (.delayed release))) (.ok (some (.delayed release')))
  | panicked {release : UInt64} (h : 2 ^ 63 ≤ release.toNat) :
      SameDecision (.error .overflow) (.ok (some (.delayed release)))

/-- A state of the program of Solana that is the bucket followed. -/
def Agrees (s' : Solana.RateLimitState) (s : RateLimitState) : Prop :=
  s'.Started ∧ s.Follows s'.bucket

open Solana.RateLimitState (time toNat_time)

/-- A release time is the same number, unless it does not fit on Solana. -/
theorem sameDecision_delayed {duration now : Int64} (hD : 0 < duration) (hnow : 0 ≤ now) :
    SameDecision
      ((Solana.checkedI64 (now.toInt + duration.toInt)).map fun t => some (.delayed t))
      ((checkedU64 ((UInt64.ofNat (time now)).toNat + (UInt64.ofNat (time duration)).toNat)).map
        fun t => some (.delayed t)) := by
  have hpos : 0 < duration.toInt := Int64.lt_iff_toInt_lt.mp hD
  have hnow' : 0 ≤ now.toInt := Int64.le_iff_toInt_le.mp hnow
  have hltD := duration.toInt_lt
  have hlt := now.toInt_lt
  obtain ⟨htime, hcast⟩ := toNat_time hnow
  obtain ⟨htimeD, hcastD⟩ := toNat_time (Int64.le_of_lt hD)
  have hfits : time now + time duration < 2 ^ 64 := by omega
  rw [htime, htimeD, checkedU64_of_lt hfits, Solana.checkedI64]
  by_cases hfit : now.toInt + duration.toInt < 2 ^ 63
  · rw [if_pos ⟨by omega, hfit⟩]
    refine .delayed ?_
    rw [Int64.toInt_ofInt_of_le (by omega) hfit, toNat_ofNat hfits]
    omega
  · rw [if_neg fun h => hfit h.2]
    refine .panicked ?_
    rw [toNat_ofNat hfits]
    omega

/-- **One operation in lockstep with Solana**, when it refills in place. -/
theorem agrees_step {duration : Int64} (hD : 0 < duration) {s' : Solana.RateLimitState}
    {o : Int64 × RateLimitOp} (hr : Agrees s' s) (hle : s'.lastTxTimestamp ≤ o.1)
    (ho : RefillsInPlace (UInt64.ofNat (time duration)) s (toSui o)) :
    SameDecision ((Solana.RateLimitState.machine duration).out s' o)
      ((machine (UInt64.ofNat (time duration))).out s (toSui o)) ∧
    Agrees ((Solana.RateLimitState.machine duration).next s' o)
      ((machine (UInt64.ofNat (time duration))).next s (toSui o)) := by
  obtain ⟨hs', hf⟩ := hr
  have hnow : 0 ≤ o.1 := Int64.le_trans hs' hle
  have hlast : s'.bucket.last ≤ (Solana.RateLimitState.timed o).1 :=
    Solana.RateLimitState.time_le_time hle
  have htimed : timed (toSui o) = Solana.RateLimitState.timed o :=
    congrArg (·, o.2.bucketOp) (toNat_time hnow).1
  have hdur := (toNat_time (Int64.le_of_lt hD)).1
  have hsui := machine_eq (UInt64.ofNat (time duration)) (hf.last_le (htimed ▸ hlast))
  have hsolana := Solana.RateLimitState.machine_eq hD hs' hnow hlast
  have hnext := hf.next (htimed ▸ hlast) ho
  rw [htimed, hdur] at hnext hsui
  refine ⟨?_, Solana.RateLimitState.started_next hD hs' hnow hlast, ?_⟩
  · rw [hf.1.apply] at hsui
    cases hb : s'.bucket.apply (time duration) (Solana.RateLimitState.timed o).1
        (Solana.RateLimitState.timed o).2 with
    | none =>
        rw [hb] at hsui hsolana
        rw [hsui.2, hsolana.2, ← hdur]
        exact sameDecision_delayed hD hnow
    | some b =>
        rw [hb] at hsui hsolana
        rw [hsui.2, hsolana.2]
        obtain ⟨now, op⟩ := o
        cases op with
        | consume amount => exact .consumed now
        | refill amount => exact .applied
        | setLimit limit => exact .applied
  · rwa [Solana.RateLimitState.bucket_next hD hs' hnow hlast]

/-- The same limit, capacity and timestamp. -/
structure Related (s' : Solana.RateLimitState) (s : RateLimitState) : Prop where
  limit : s.limit = s'.limit
  capacity : s.capacityAtLastTx = s'.capacityAtLastTx
  timestamp : (s.lastTxTimestamp.toNat : ℤ) = s'.lastTxTimestamp.toInt

theorem Related.agrees {s' : Solana.RateLimitState} (h : Related s' s) : Agrees s' s := by
  have htimestamp := h.timestamp
  have hlast : s.lastTxTimestamp.toNat = time s'.lastTxTimestamp := by
    rw [time]
    omega
  have hbucket : s.bucket = s'.bucket := by
    rw [bucket, Solana.RateLimitState.bucket, h.limit, h.capacity, hlast]
  refine ⟨Int64.le_iff_toInt_le.mpr (show (0 : ℤ) ≤ _ by omega), .inl hbucket, ?_⟩
  rw [hbucket]

/-- **Lockstep with Solana**, along refills in place. -/
theorem agrees_run {duration : Int64} (hD : 0 < duration) {s' : Solana.RateLimitState}
    {ops : List (Int64 × RateLimitOp)} (hr : Agrees s' s)
    (h : Solana.RateLimitState.InOrder s'.lastTxTimestamp ops)
    (hops : (machine (UInt64.ofNat (time duration))).Along
      (RefillsInPlace (UInt64.ofNat (time duration))) s (ops.map toSui)) :
    List.Forall₂ SameDecision ((Solana.RateLimitState.machine duration).outs s' ops)
        ((machine (UInt64.ofNat (time duration))).outs s (ops.map toSui)) ∧
      Agrees ((Solana.RateLimitState.machine duration).run s' ops)
        ((machine (UInt64.ofNat (time duration))).run s (ops.map toSui)) :=
  Transducer.lockstep (fun _ _ _ hr ho ho' => agrees_step hD hr ho.2 ho') hr
    (Solana.RateLimitState.along_of_inOrder hD hr.1 h) hops

/-- **Rate limiter safety.** Along any operations with a clock that does not run backwards, the
capacity never exceeds the limit. While refills are in place and the limit stays, consumption
between two times is at most the unrounded capacity at the first, the linear refill, and the
backflow; and while refills are in place, the decisions are those of Solana on the same
operations with the same duration, but that a release time beyond 63 bits panics there. -/
theorem limiter_safe (s : RateLimitState) (ops : List (UInt64 × RateLimitOp))
    (h : InOrder s.lastTxTimestamp ops) :
    (∀ now, ((machine RATE_LIMIT_DURATION).run s ops).lastTxTimestamp ≤ now →
      ∃ capacity, ((machine RATE_LIMIT_DURATION).run s ops).capacityAt RATE_LIMIT_DURATION now =
        .ok capacity ∧ capacity ≤ ((machine RATE_LIMIT_DURATION).run s ops).limit) ∧
    (∀ before window t₁ t₂, ops = before ++ window →
      let s₁ := (machine RATE_LIMIT_DURATION).run s before
      (machine RATE_LIMIT_DURATION).Along (RefillsInPlace RATE_LIMIT_DURATION) s₁ window →
      Window s₁ t₁ t₂ window →
      ((limiter RATE_LIMIT_DURATION).consumed s₁ window : ℚ) ≤
        s₁.exactCapacity RATE_LIMIT_DURATION t₁ + accrued RATE_LIMIT_DURATION t₁ t₂ s₁.limit +
          (limiter RATE_LIMIT_DURATION).refilled s₁ window ∧
      ∃ capacity, s₁.capacityAt RATE_LIMIT_DURATION t₁ = .ok capacity ∧
        capacity.toNat ≤ s₁.exactCapacity RATE_LIMIT_DURATION t₁ ∧
        s₁.exactCapacity RATE_LIMIT_DURATION t₁ < capacity.toNat + 1) ∧
    ∀ s' ops', Related s' s → ops = ops'.map toSui →
      Solana.RateLimitState.InOrder s'.lastTxTimestamp ops' →
      (machine RATE_LIMIT_DURATION).Along (RefillsInPlace RATE_LIMIT_DURATION) s ops →
      List.Forall₂ SameDecision ((Solana.RateLimitState.machine 86400000).outs s' ops')
        ((machine RATE_LIMIT_DURATION).outs s ops) := by
  refine ⟨fun now hnow => ⟨_, capacityAt_eq hnow, capacityAt_le (capacityAt_eq hnow)⟩, ?_, ?_⟩
  · rintro before window t₁ t₂ rfl s₁ hops hw
    have hD : 0 < RATE_LIMIT_DURATION.toNat := by decide
    obtain ⟨capacity, hcap, hle, hlt⟩ := exactCapacity_spec hD hw.after
    exact ⟨consumed_le (inOrder_run h) hops hw, capacity, hcap, hle, hlt⟩
  · rintro s' ops' hr rfl h' hops
    have hD : (0 : Int64) < 86400000 := by decide
    exact (agrees_run hD hr.agrees h' hops).1

/-- A limit of one unit in a millisecond, all of it consumed at the start. -/
def drained : RateLimitState := ⟨86400000, 0, 0⟩

/-- Half a day later, a refill of nothing and a consumption of the whole limit. -/
def refillAndConsume : List (UInt64 × RateLimitOp) :=
  [(43200000, .refill 0), (43200000, .consume 86400000)]

/-- The bound and the lockstep, a day after the whole limit was consumed. -/
theorem drained_safe :
    ((limiter RATE_LIMIT_DURATION).consumed drained [(86400000, .consume 86400000)] : ℚ) ≤
        drained.exactCapacity RATE_LIMIT_DURATION 0 +
          accrued RATE_LIMIT_DURATION 0 86400000 drained.limit +
          (limiter RATE_LIMIT_DURATION).refilled drained [(86400000, .consume 86400000)] ∧
      List.Forall₂ SameDecision
        ((Solana.RateLimitState.machine 86400000).outs ⟨86400000, 0, 0⟩
          [(86400000, .consume 86400000)])
        ((machine RATE_LIMIT_DURATION).outs drained [(86400000, .consume 86400000)]) := by
  have hin : InOrder drained.lastTxTimestamp [(86400000, .consume 86400000)] := by
    simp [InOrder, drained]
  obtain ⟨-, hbound, hlockstep⟩ := limiter_safe drained [(86400000, .consume 86400000)] hin
  refine ⟨(hbound [] _ 0 86400000 rfl ⟨trivial, trivial⟩ ?_).1,
    hlockstep ⟨86400000, 0, 0⟩ [(86400000, .consume 86400000)] ⟨rfl, rfl, rfl⟩ rfl ?_
      ⟨trivial, trivial⟩⟩
  · exact ⟨by decide, by decide, by simp, by simp⟩
  · simp [Solana.RateLimitState.InOrder]

/-- A refill of nothing counts half a day twice: the consumption that follows is beyond the bound,
and delayed on Solana. And without any refill, the capacity at the first time is one unit short
when it is rounded down. -/
theorem bound_fails :
    (machine RATE_LIMIT_DURATION).run (new 86400000) [(0, .consume 86400000)] = drained ∧
      InOrder 0 refillAndConsume ∧ Window drained 0 43200000 refillAndConsume ∧
      drained.capacityAt RATE_LIMIT_DURATION 0 = .ok 0 ∧
      ¬ ((limiter RATE_LIMIT_DURATION).consumed drained refillAndConsume : ℚ) ≤
        (0 : UInt64).toNat + accrued RATE_LIMIT_DURATION 0 43200000 drained.limit +
          (limiter RATE_LIMIT_DURATION).refilled drained refillAndConsume ∧
      (machine RATE_LIMIT_DURATION).outs drained refillAndConsume =
        [.ok none, .ok (some .consumed)] ∧
      (Solana.RateLimitState.machine 86400000).outs ⟨86400000, 0, 0⟩
        [(43200000, .refill 0), (43200000, .consume 86400000)] =
          [.ok none, .ok (some (.delayed 129600000))] ∧
      Window ⟨1, 0, 0⟩ 86399999 86400000 [(86400000, .consume 1)] ∧
      RateLimitState.capacityAt RATE_LIMIT_DURATION ⟨1, 0, 0⟩ 86399999 = .ok 0 ∧
      ¬ ((limiter RATE_LIMIT_DURATION).consumed ⟨1, 0, 0⟩ [(86400000, .consume 1)] : ℚ) ≤
        (0 : UInt64).toNat + accrued RATE_LIMIT_DURATION 86399999 86400000 1 +
          (limiter RATE_LIMIT_DURATION).refilled ⟨1, 0, 0⟩ [(86400000, .consume 1)] := by
  have hspent : (limiter RATE_LIMIT_DURATION).consumed drained refillAndConsume = 86400000 := by
    decide +kernel
  have hrefilled : (limiter RATE_LIMIT_DURATION).refilled drained refillAndConsume = 0 := by
    decide +kernel
  have hspent' : (limiter RATE_LIMIT_DURATION).consumed ⟨1, 0, 0⟩ [(86400000, .consume 1)] = 1 := by
    decide +kernel
  have hrefilled' : (limiter RATE_LIMIT_DURATION).refilled ⟨1, 0, 0⟩ [(86400000, .consume 1)] = 0 :=
    by decide +kernel
  have hday : RATE_LIMIT_DURATION.toNat = 86400000 := by decide
  refine ⟨by decide +kernel, by simp [InOrder, refillAndConsume], ?_, by decide +kernel, ?_,
    by decide +kernel, by decide +kernel, ?_, by decide +kernel, ?_⟩
  · exact ⟨by decide, by decide, by simp [refillAndConsume], by simp [refillAndConsume]⟩
  · have haccrued : accrued RATE_LIMIT_DURATION 0 43200000 drained.limit = 43200000 := by
      rw [accrued, hday, show drained.limit.toNat = 86400000 by decide,
        show (43200000 : UInt64).toNat - (0 : UInt64).toNat = 43200000 by decide]
      norm_num
    rw [hspent, hrefilled, haccrued]
    norm_num
  · exact ⟨by decide, by decide, by simp, by simp⟩
  · have haccrued : accrued RATE_LIMIT_DURATION 86399999 86400000 1 = 1 / 86400000 := by
      rw [accrued, hday, show (1 : UInt64).toNat = 1 by decide,
        show (86400000 : UInt64).toNat - (86399999 : UInt64).toNat = 1 by decide]
      norm_num
    rw [hspent', hrefilled', haccrued]
    norm_num

end RateLimitState

end Ntt.Sui
