import Ntt.Evm.RateLimiter
import Ntt.Solana.RateLimit
import Mathlib.Data.UInt

/-!
# The Rate Limiters of EVM and Solana in Lockstep

The manager of the contracts asks its rate limiter whether an amount is limited: one that is goes
to a queue, from where it is released one duration later, any other is consumed. The program of
Solana does both in `consume_or_delay`, and says when a delayed amount is released. Their states
are related when limit, capacity and timestamp are equal, with the amounts of the contracts all in
one number of decimals.

Both are the same token bucket, so related states stay related, and each decision is the same.
There is one exception: a release time that does not fit the timestamps of Solana makes the
program panic where the contracts queue.

## Main results

* `attempt_eq`: what the manager does with an operation is the bucket's.
* `related_step`: one operation, on related states.
* `solana_refines_evm`: any operations, and what follows for the capacity and the consumption.
-/

namespace Ntt

open TrimmedAmount

/-- What the manager does with an amount: it goes through, or is queued at a time. -/
inductive Attempt where
  | consumed
  | queued (txTimestamp : UInt64)
deriving DecidableEq, Repr

namespace RateLimitOp

/-- What the manager does with an operation: it queues an amount that is limited, and consumes
any other. -/
def attempt (D t : UInt64) (p : RateLimitParams) :
    RateLimitOp → Except Error (RateLimitParams × Option Attempt)
  | .consume amount => do
      if ← RateLimiter.isAmountRateLimited D t amount p then
        return (p, some (.queued t))
      return (← RateLimiter.consumeAmount D t amount p, some .consumed)
  | .backfill amount => do return (← RateLimiter.backfillAmount D t amount p, none)
  | .setLimit limit => do return (← RateLimiter.setLimit D t limit p, none)

/-- The answer to an operation that is not queued. -/
def answer : RateLimitOp → Option Attempt
  | .consume _ => some .consumed
  | _ => none

/-- The manager as a machine of timed operations. -/
def machine (D : UInt64) :
    Transducer RateLimitParams (UInt64 × RateLimitOp) (Except Error (Option Attempt)) :=
  .ofExcept fun p o => o.2.attempt D o.1 p

variable {D t : UInt64} {d : UInt8} {p : RateLimitParams}

theorem machine_of_ok {o : UInt64 × RateLimitOp} {p' : RateLimitParams} {answer : Option Attempt}
    (h : o.2.attempt D o.1 p = .ok (p', answer)) :
    (machine D).next p o = p' ∧ (machine D).out p o = .ok answer :=
  Transducer.ofExcept_of_ok h

/-- Every operation is the bucket's: an amount that fails there is queued. -/
theorem attempt_eq (hp : p.Aligned d) (hD : D ≠ 0) (ht : p.lastTxTimestamp ≤ t) (op : RateLimitOp)
    (hop : op.arg.getDecimals = d) :
    op.attempt D t p = match p.bucket.apply D.toNat t.toNat op.bucketOp with
      | some b => .ok (RateLimitParams.ofBucket d b, op.answer)
      | none => .ok (p, some (.queued t)) := by
  have happly := apply_eq hp hD ht op hop
  cases op with
  | consume a =>
      replace hop : a.getDecimals = d := hop
      rw [apply] at happly
      simp only [attempt, RateLimiter.isAmountRateLimited_eq hp hD ht hop, bind, Except.bind]
      by_cases hle : a.amount ≤ p.bucket.level D.toNat t.toNat
      · have hlt : ¬ p.bucket.level D.toNat t.toNat < a.amount := Nat.not_lt.mpr hle
        simp only [bucketOp, Bucket.apply, hle, if_true] at happly ⊢
        simp only [hlt, decide_false, Bool.false_eq_true, if_false, happly]
        rfl
      · have hlt : p.bucket.level D.toNat t.toNat < a.amount := Nat.not_le.mp hle
        simp only [bucketOp, Bucket.apply, hle, hlt, decide_true, if_true, if_false]
        rfl
  | backfill a =>
      rw [apply] at happly
      simp only [attempt, happly]
      rfl
  | setLimit l =>
      rw [apply] at happly
      simp only [attempt, happly]
      rfl

end RateLimitOp

namespace Solana.RateLimitState

/-- Equal limit, capacity and timestamp. -/
structure Related (d : UInt8) (s : RateLimitState) (p : RateLimitParams) : Prop where
  limit : p.limit = packTrimmedAmount s.limit d
  capacity : p.currentCapacity = packTrimmedAmount s.capacityAtLastTx d
  timestamp : (p.lastTxTimestamp.toNat : ℤ) = s.lastTxTimestamp.toInt

/-- The same operation on the contracts. -/
def toEvm (d : UInt8) (o : Int64 × RateLimitOp) : UInt64 × Ntt.RateLimitOp :=
  (UInt64.ofNat (time o.1), match o.2 with
    | .consume amount => .consume (packTrimmedAmount amount d)
    | .refill amount => .backfill (packTrimmedAmount amount d)
    | .setLimit limit => .setLimit (packTrimmedAmount limit d))

/-- Two answers to one operation that agree, or a release time that does not fit. -/
inductive SameDecision (duration : Int64) :
    Except Panic (Option RateLimitResult) → Except Error (Option Attempt) → Prop
  | applied : SameDecision duration (.ok none) (.ok none)
  | consumed (now : Int64) :
      SameDecision duration (.ok (some (.consumed now))) (.ok (some .consumed))
  | delayed {release : Int64} {queued : UInt64}
      (hrelease : release.toInt = queued.toNat + duration.toInt) :
      SameDecision duration (.ok (some (.delayed release))) (.ok (some (.queued queued)))
  | panicked {queued : UInt64} (hrelease : 2 ^ 63 ≤ queued.toNat + duration.toInt) :
      SameDecision duration (.error .overflow) (.ok (some (.queued queued)))

variable {duration : Int64} {d : UInt8} {s : RateLimitState} {p : RateLimitParams}
  {o : Int64 × RateLimitOp}

theorem Related.aligned (hr : Related d s p) : p.Aligned d :=
  ⟨hr.limit ▸ getDecimals_pack _ _, hr.capacity ▸ getDecimals_pack _ _⟩

theorem Related.started (hr : Related d s p) : s.Started := by
  have := hr.timestamp
  exact Int64.le_iff_toInt_le.mpr (show (0 : ℤ) ≤ _ by omega)

/-- Related states are one bucket. -/
theorem Related.bucket_eq (hr : Related d s p) : p.bucket = s.bucket := by
  have htime := hr.timestamp
  have hlast : p.lastTxTimestamp.toNat = time s.lastTxTimestamp := by
    rw [time]
    omega
  rw [RateLimitParams.bucket, bucket, hr.limit, hr.capacity, hlast, amount, amount,
    getAmount_pack, getAmount_pack]

/-- One bucket, as the state of both. -/
theorem related_ofBucket {b : Bucket} {now : Int64} (h : 0 ≤ now) (hlast : b.last = time now) :
    Related d (ofBucket b now) (RateLimitParams.ofBucket d b) := by
  refine ⟨rfl, rfl, ?_⟩
  rw [RateLimitParams.ofBucket, ofBucket, hlast, (toNat_time h).1, (toNat_time h).2]

/-- A positive duration is positive to the contracts. -/
theorem duration_ne_zero (hD : 0 < duration) : UInt64.ofNat (time duration) ≠ 0 := by
  intro h
  have hpos : 0 < duration.toInt := Int64.lt_iff_toInt_lt.mp hD
  obtain ⟨htime, hcast⟩ := toNat_time (Int64.le_of_lt hD)
  have hzero : time duration = 0 := htime ▸ congrArg UInt64.toNat h
  omega

/-- The same operation, as the bucket sees it. -/
theorem toEvm_bucketOp (d : UInt8) (o : Int64 × RateLimitOp) :
    (toEvm d o).2.bucketOp = (timed o).2 ∧ (toEvm d o).2.arg.getDecimals = d := by
  obtain ⟨now, op⟩ := o
  cases op <;>
    simp only [toEvm, RateLimitOp.bucketOp, Ntt.RateLimitOp.bucketOp, RateLimitOp.arg, timed,
      amount, getAmount_pack, getDecimals_pack, and_self]

/-- A release time that fits is the answer, and one that does not panics. -/
theorem sameDecision_delayed (hD : 0 < duration) {now : Int64} (hnow : 0 ≤ now) :
    SameDecision duration
      ((checkedI64 (now.toInt + duration.toInt)).map fun t => some (.delayed t))
      (.ok (some (.queued (UInt64.ofNat (time now))))) := by
  have hpos : 0 < duration.toInt := Int64.lt_iff_toInt_lt.mp hD
  have hnow' : 0 ≤ now.toInt := Int64.le_iff_toInt_le.mp hnow
  obtain ⟨htime, hcast⟩ := toNat_time hnow
  have hqueued : ((UInt64.ofNat (time now)).toNat : ℤ) = now.toInt := by rw [htime, hcast]
  rw [checkedI64]
  by_cases hfit : now.toInt + duration.toInt < 2 ^ 63
  · rw [if_pos ⟨by omega, hfit⟩]
    exact .delayed (by rw [Int64.toInt_ofInt_of_le (by omega) hfit, hqueued])
  · rw [if_neg (fun h => hfit h.2)]
    exact .panicked (by rw [hqueued]; omega)

/-- **One operation in lockstep.** Both are the operation of one bucket. -/
theorem related_step (hD : 0 < duration) (hr : Related d s p) (hle : s.lastTxTimestamp ≤ o.1) :
    SameDecision duration ((machine duration).out s o)
      ((RateLimitOp.machine (UInt64.ofNat (time duration))).out p (toEvm d o)) ∧
    Related d ((machine duration).next s o)
      ((RateLimitOp.machine (UInt64.ofNat (time duration))).next p (toEvm d o)) := by
  have hnow : 0 ≤ o.1 := Int64.le_trans hr.started hle
  have hlast : s.bucket.last ≤ (timed o).1 := by
    have hle' := Int64.le_iff_toInt_le.mp hle
    change time s.lastTxTimestamp ≤ time o.1
    rw [time, time]
    omega
  have ht : p.lastTxTimestamp ≤ (toEvm d o).1 := by
    rw [UInt64.le_iff_toNat_le, toEvm, (toNat_time hnow).1]
    exact (congrArg Bucket.last hr.bucket_eq).trans_le hlast
  obtain ⟨hop, hdec⟩ := toEvm_bucketOp d o
  have hsolana := machine_eq hD hr.started hnow hlast
  have hevm := RateLimitOp.attempt_eq hr.aligned (duration_ne_zero hD) ht _ hdec
  have hfst : (toEvm d o).1.toNat = (timed o).1 := (toNat_time hnow).1
  rw [hr.bucket_eq, hop, hfst, (toNat_time (Int64.le_of_lt hD)).1] at hevm
  cases hb : s.bucket.apply (time duration) (timed o).1 (timed o).2 with
  | none =>
      rw [hb] at hsolana hevm
      obtain ⟨hnext, hout⟩ := hsolana
      obtain ⟨hnext', hout'⟩ := RateLimitOp.machine_of_ok hevm
      rw [hnext, hout, hnext', hout']
      exact ⟨sameDecision_delayed hD hnow, hr⟩
  | some b =>
      rw [hb] at hsolana hevm
      obtain ⟨hnext, hout⟩ := hsolana
      obtain ⟨hnext', hout'⟩ := RateLimitOp.machine_of_ok hevm
      rw [hnext, hout, hnext', hout']
      refine ⟨?_, related_ofBucket hnow (Bucket.last_of_apply hb)⟩
      obtain ⟨now, op⟩ := o
      cases op with
      | consume amount => exact .consumed now
      | refill amount => exact .applied
      | setLimit limit => exact .applied

/-! ### Runs -/

/-- **Lockstep.** On related states, operations in order are answered alike, and leave related
states. -/
theorem lockstep (hD : 0 < duration) {ops : List (Int64 × RateLimitOp)} (hr : Related d s p)
    (h : InOrder s.lastTxTimestamp ops) :
    List.Forall₂ (SameDecision duration) ((machine duration).outs s ops)
      ((RateLimitOp.machine (UInt64.ofNat (time duration))).outs p (ops.map (toEvm d))) ∧
    Related d ((machine duration).run s ops)
      ((RateLimitOp.machine (UInt64.ofNat (time duration))).run p (ops.map (toEvm d))) :=
  Transducer.lockstep (fun _ _ _ hr ho _ => related_step hD hr ho.2) hr
    (along_of_inOrder hD hr.started h) Transducer.along_true

/-- **The rate limiter of Solana refines the one of EVM.** On related states, operations in order
are decided alike and leave related states, but that a release time beyond 63 bits panics. The
capacity never exceeds the limit, no product overflows while the elapsed time fits 63 bits, and
consumption between two times is at most the unrounded capacity at the first, the linear refill,
and the backflow. -/
theorem solana_refines_evm (hr : Related d s p) (ops : List (Int64 × RateLimitOp))
    (h : InOrder s.lastTxTimestamp ops) :
    (List.Forall₂ (SameDecision RATE_LIMIT_DURATION) ((machine RATE_LIMIT_DURATION).outs s ops)
      ((RateLimitOp.machine 86400).outs p (ops.map (toEvm d))) ∧
    Related d ((machine RATE_LIMIT_DURATION).run s ops)
      ((RateLimitOp.machine 86400).run p (ops.map (toEvm d)))) ∧
    ((∀ now capacity, ((machine RATE_LIMIT_DURATION).run s ops).capacityAt
        RATE_LIMIT_DURATION now = .ok capacity →
          capacity ≤ ((machine RATE_LIMIT_DURATION).run s ops).limit) ∧
      (s.capacityAtLastTx ≤ s.limit → ((machine RATE_LIMIT_DURATION).run s ops).capacityAtLastTx ≤
        ((machine RATE_LIMIT_DURATION).run s ops).limit)) ∧
    (∀ (s : RateLimitState) now, s.lastTxTimestamp ≤ now →
      now.toInt - s.lastTxTimestamp.toInt < 2 ^ 63 →
        ∃ capacity, s.capacityAt RATE_LIMIT_DURATION now = .ok capacity) ∧
    ∀ before window t₁ t₂, ops = before ++ window →
      Window ((machine RATE_LIMIT_DURATION).run s before) t₁ t₂ window →
      let s₁ := (machine RATE_LIMIT_DURATION).run s before
      ((limiter RATE_LIMIT_DURATION).consumed s₁ window : ℚ) ≤
        s₁.exactCapacity RATE_LIMIT_DURATION t₁ + accrued RATE_LIMIT_DURATION t₁ t₂ s₁.limit +
          (limiter RATE_LIMIT_DURATION).refilled s₁ window ∧
      ∃ capacity, s₁.capacityAt RATE_LIMIT_DURATION t₁ = .ok capacity ∧
        capacity.toNat ≤ s₁.exactCapacity RATE_LIMIT_DURATION t₁ ∧
        s₁.exactCapacity RATE_LIMIT_DURATION t₁ < capacity.toNat + 1 := by
  have hD : 0 < RATE_LIMIT_DURATION := by decide
  refine ⟨lockstep hD hr h, ⟨fun _ _ => capacityAt_le, capacityAtLastTx_le hD hr.started h⟩,
    fun _ _ hle hfit => ⟨_, capacityAt_of_elapsed hD hle hfit⟩, ?_⟩
  rintro before window t₁ t₂ rfl hw
  obtain ⟨hstarted, hwindow⟩ := inOrder_run hD hr.started h
  obtain ⟨capacity, hcap, hle, hlt, -⟩ := exactCapacity_spec hD hstarted hw.after
  exact ⟨consumed_le hD hstarted hwindow hw, capacity, hcap, hle, hlt⟩

/-- A limit of one unit in a day, with a capacity of one unit. -/
def fullDay : RateLimitState := ⟨1, 1, 0⟩

/-- The refinement of three consumptions of one unit, the last of them a day after the first. -/
theorem solana_refines_evm_day :
    Related 8 fullDay ⟨packTrimmedAmount 1 8, packTrimmedAmount 1 8, 0⟩ ∧
      List.Forall₂ (SameDecision RATE_LIMIT_DURATION)
        ((machine RATE_LIMIT_DURATION).outs fullDay
          [(1, .consume 1), (2, .consume 1), (86401, .consume 1)])
        ((RateLimitOp.machine 86400).outs ⟨packTrimmedAmount 1 8, packTrimmedAmount 1 8, 0⟩
          ([(1, .consume 1), (2, .consume 1), (86401, .consume 1)].map (toEvm 8))) := by
  have hr : Related 8 fullDay ⟨packTrimmedAmount 1 8, packTrimmedAmount 1 8, 0⟩ :=
    ⟨rfl, rfl, rfl⟩
  exact ⟨hr, (solana_refines_evm hr _ (by simp [InOrder, fullDay])).1.1⟩

/-- At the last second of 63 bits the contracts queue an amount beyond the capacity, and the
program panics. -/
theorem consume_panics_at_end_of_time :
    Related 8 ⟨0, 0, 0⟩ ⟨packTrimmedAmount 0 8, packTrimmedAmount 0 8, 0⟩ ∧
      InOrder 0 [(Int64.maxValue, .consume 1)] ∧
      (machine RATE_LIMIT_DURATION).outs ⟨0, 0, 0⟩ [(Int64.maxValue, .consume 1)] =
        [.error .overflow] ∧
      (RateLimitOp.machine 86400).outs ⟨packTrimmedAmount 0 8, packTrimmedAmount 0 8, 0⟩
        ([(Int64.maxValue, .consume 1)].map (toEvm 8)) =
          [.ok (some (.queued (2 ^ 63 - 1)))] := by
  have hfirst : (0 : Int64) ≤ Int64.maxValue := by decide
  refine ⟨⟨rfl, rfl, rfl⟩, by simp [InOrder, hfirst], ?_, ?_⟩ <;> decide +kernel

end Solana.RateLimitState

end Ntt
