import Mathlib.Algebra.Order.Field.Rat
import Mathlib.Data.Nat.Cast.Order.Field
import Mathlib.Tactic.FieldSimp
import Mathlib.Tactic.Linarith
import Mathlib.Tactic.Positivity
import Mathlib.Tactic.Ring

/-!
# Token Buckets with Rounded Refill

A token bucket holds a capacity of at most its limit and refills linearly, by one limit in
every `D` units of time. Real implementations keep integers: they store the capacity of the
last operation with its time, and round the refill since then down. `Bucket.level` is the
capacity they compute at a time `t`. Three operations act on it: consuming an amount, which
fails when the level is too low, refilling by an amount, and changing the limit, which moves
the capacity by the same difference.

## Main results

* `Bucket.Valid.next` and `Bucket.Valid.run`: the capacity never exceeds the limit, after any
  sequence of operations.
* `Bucket.consumed_le`: **the window bound**. While the limit stays `L`, what a sequence of
  operations consumes up to `t₂` is at most `exactLevel` at `t₁`, plus `L * (t₂ - t₁) / D`,
  plus what was refilled.

The bound is stated with `exactLevel`, the level before rounding. With `level` in its place it
fails by less than one unit: a fraction that has accrued before `t₁` is not in the level at
`t₁`, yet can be consumed after it. The two agree at the time of an operation
(`Bucket.exactLevel_last`), and `exactLevel` never exceeds the limit (`exactLevel_le_limit`).
-/

/-- A bucket: its limit, the capacity after the last operation, and the time of that. -/
structure Bucket where
  /-- The most that the bucket holds, and what it gains in one duration. -/
  limit : ℕ
  /-- The capacity after the last operation. -/
  capacity : ℕ
  /-- The time of the last operation. -/
  last : ℕ
deriving DecidableEq, Repr

namespace Bucket

/-- An operation on a bucket. -/
inductive Op where
  | setLimit (limit : ℕ)
  | consume (amount : ℕ)
  | refill (amount : ℕ)
deriving DecidableEq, Repr

/-- The capacity at a time, with the refill since the last operation rounded down. -/
def level (D : ℕ) (b : Bucket) (t : ℕ) : ℕ :=
  min (b.capacity + b.limit * (t - b.last) / D) b.limit

/-- The capacity at a time, before rounding. -/
def exactLevel (D : ℕ) (b : Bucket) (t : ℕ) : ℚ :=
  min (b.capacity + b.limit * (t - b.last : ℕ) / D) b.limit

/-- What an operation at a time does; `none` when it fails. -/
def apply (D : ℕ) (b : Bucket) (t : ℕ) : Op → Option Bucket
  | .consume a =>
      if a ≤ b.level D t then some { b with capacity := b.level D t - a, last := t } else none
  | .refill a =>
      some { b with capacity := min (b.level D t + a) b.limit, last := t }
  | .setLimit l =>
      let capacity :=
        if l < b.limit then b.level D t - (b.limit - l) else b.level D t + (l - b.limit)
      some { limit := l, capacity, last := t }

/-- The bucket after an operation; one that fails changes nothing. -/
def next (D : ℕ) (b : Bucket) (t : ℕ) (op : Op) : Bucket := (b.apply D t op).getD b

/-- The bucket after a sequence of timed operations. -/
def run (D : ℕ) (b : Bucket) : List (ℕ × Op) → Bucket
  | [] => b
  | (t, op) :: ops => run D (b.next D t op) ops

/-- What one operation consumes: nothing when it fails. -/
def spent (D : ℕ) (b : Bucket) (t : ℕ) : Op → ℕ
  | .consume a => if a ≤ b.level D t then a else 0
  | _ => 0

/-- What a sequence of timed operations consumes. -/
def consumed (D : ℕ) (b : Bucket) : List (ℕ × Op) → ℕ
  | [] => 0
  | (t, op) :: ops => b.spent D t op + consumed D (b.next D t op) ops

/-- What one operation refills: as much of what is offered as fits under the limit. -/
def gained (D : ℕ) (b : Bucket) (t : ℕ) : Op → ℕ
  | .refill a => min (b.level D t + a) b.limit - b.level D t
  | _ => 0

/-- What a sequence of timed operations refills. -/
def refilled (D : ℕ) (b : Bucket) : List (ℕ × Op) → ℕ
  | [] => 0
  | (t, op) :: ops => b.gained D t op + refilled D (b.next D t op) ops

/-- The capacity does not exceed the limit. -/
def Valid (b : Bucket) : Prop := b.capacity ≤ b.limit

theorem level_le_limit (D : ℕ) (b : Bucket) (t : ℕ) : b.level D t ≤ b.limit := min_le_right _ _

theorem exactLevel_le_limit (D : ℕ) (b : Bucket) (t : ℕ) : b.exactLevel D t ≤ b.limit :=
  min_le_right _ _

/-- At the time of the last operation, the level is the stored capacity. -/
theorem level_last {D : ℕ} {b : Bucket} (hb : b.Valid) : b.level D b.last = b.capacity := by
  simpa [level, Valid] using hb

/-- At the time of the last operation, nothing has been rounded. -/
theorem exactLevel_last {D : ℕ} {b : Bucket} (hb : b.Valid) :
    b.exactLevel D b.last = b.level D b.last := by
  have : (b.capacity : ℚ) ≤ b.limit := by exact_mod_cast hb
  simp [level_last hb, exactLevel, this]

/-- Rounding loses, and loses less than one unit. -/
theorem level_le_exactLevel (D : ℕ) (b : Bucket) (t : ℕ) :
    (b.level D t : ℚ) ≤ b.exactLevel D t := by
  rw [level, exactLevel, Nat.cast_min]
  refine min_le_min ?_ le_rfl
  rw [Nat.cast_add, ← Nat.cast_mul]
  gcongr
  exact Nat.cast_div_le

theorem exactLevel_lt_level_add_one {D : ℕ} (hD : 0 < D) (b : Bucket) (t : ℕ) :
    b.exactLevel D t < b.level D t + 1 := by
  have hD' : (0 : ℚ) < D := by exact_mod_cast hD
  rw [level, exactLevel, Nat.cast_min, ← min_add_add_right]
  refine lt_min ?_ ?_
  · refine lt_of_le_of_lt (min_le_left _ _) ?_
    have hlt := Nat.lt_div_mul_add (a := b.limit * (t - b.last)) hD
    have hcast : (b.limit * (t - b.last : ℕ) : ℚ) <
        ((b.limit * (t - b.last) / D : ℕ) + 1) * D := by
      calc (b.limit * (t - b.last : ℕ) : ℚ)
          = ((b.limit * (t - b.last) : ℕ) : ℚ) := by push_cast; ring
        _ < ((b.limit * (t - b.last) / D * D + D : ℕ) : ℚ) := by exact_mod_cast hlt
        _ = ((b.limit * (t - b.last) / D : ℕ) + 1) * D := by push_cast; ring
    have hdiv := (div_lt_iff₀ hD').mpr hcast
    push_cast at hdiv ⊢
    linarith
  · exact lt_of_le_of_lt (min_le_right _ _) (lt_add_one _)

/-- The unrounded level gains at most one limit in every duration. -/
theorem exactLevel_growth {D : ℕ} (b : Bucket) {t u : ℕ} (ht : b.last ≤ t) (hu : t ≤ u) :
    b.exactLevel D u ≤ b.exactLevel D t + b.limit * (u - t : ℕ) / D := by
  have hsplit : ((u - b.last : ℕ) : ℚ) = (t - b.last : ℕ) + (u - t : ℕ) := by
    rw [← Nat.cast_add]
    congr 1
    omega
  have hgain : (0 : ℚ) ≤ b.limit * (u - t : ℕ) / D := by positivity
  rw [exactLevel, exactLevel, ← min_add_add_right, hsplit, mul_add, add_div, ← add_assoc]
  exact min_le_min le_rfl (by linarith)

/-! ### Buckets that behave alike -/

/-- Equal, or both full with one limit: what is full stays full, whenever it was filled. -/
def Alike (b b' : Bucket) : Prop :=
  b = b' ∨ b.limit = b'.limit ∧ b.limit ≤ b.capacity ∧ b'.limit ≤ b'.capacity

namespace Alike

variable {D t : ℕ} {b b' : Bucket}

theorem limit (h : Alike b b') : b.limit = b'.limit := by
  obtain rfl | ⟨hlimit, -, -⟩ := h
  · rfl
  · exact hlimit

theorem level (h : Alike b b') : b.level D t = b'.level D t := by
  obtain rfl | ⟨hlimit, hfull, hfull'⟩ := h
  · rfl
  · have hlevel : ∀ c : Bucket, c.limit ≤ c.capacity → c.level D t = c.limit := fun c hc =>
      min_eq_right (hc.trans (Nat.le_add_right _ _))
    rw [hlevel b hfull, hlevel b' hfull', hlimit]

theorem exactLevel (h : Alike b b') : b.exactLevel D t = b'.exactLevel D t := by
  obtain rfl | ⟨hlimit, hfull, hfull'⟩ := h
  · rfl
  · have hlevel : ∀ c : Bucket, c.limit ≤ c.capacity → c.exactLevel D t = c.limit := fun c hc => by
      have hc' : (c.limit : ℚ) ≤ c.capacity := by exact_mod_cast hc
      have : (0 : ℚ) ≤ c.limit * (t - c.last : ℕ) / D := by positivity
      exact min_eq_right (by linarith)
    rw [hlevel b hfull, hlevel b' hfull', hlimit]

/-- An operation only depends on the level and the limit. -/
theorem apply (h : Alike b b') (op : Op) : b.apply D t op = b'.apply D t op := by
  cases op <;> simp only [Bucket.apply, h.level (D := D) (t := t), h.limit]

theorem spent (h : Alike b b') (op : Op) : b.spent D t op = b'.spent D t op := by
  cases op <;> simp only [Bucket.spent, h.level (D := D) (t := t)]

theorem gained (h : Alike b b') (op : Op) : b.gained D t op = b'.gained D t op := by
  cases op <;> simp only [Bucket.gained, h.level (D := D) (t := t), h.limit]

end Alike

/-! ### One operation -/

/-- An operation leaves a capacity within the limit, whatever it finds. -/
theorem valid_of_apply {D : ℕ} {b b' : Bucket} {t : ℕ} {op : Op}
    (h : b.apply D t op = some b') : b'.Valid := by
  have hl := b.level_le_limit D t
  cases op with
  | consume a =>
      simp only [apply, Option.ite_none_right_eq_some, Option.some.injEq] at h
      rw [← h.2, Valid]
      dsimp only
      omega
  | refill a =>
      obtain rfl := Option.some.inj h
      exact min_le_right _ _
  | setLimit l =>
      obtain rfl := Option.some.inj h
      simp only [Valid]
      split <;> omega

/-- An operation that does not fail is remembered with its time. -/
theorem last_of_apply {D : ℕ} {b b' : Bucket} {t : ℕ} {op : Op}
    (h : b.apply D t op = some b') : b'.last = t := by
  cases op with
  | consume a =>
      simp only [apply, Option.ite_none_right_eq_some, Option.some.injEq] at h
      rw [← h.2]
  | refill a => exact (Option.some.inj h) ▸ rfl
  | setLimit l => exact (Option.some.inj h) ▸ rfl

/-- The limit after an operation: the one it sets, or the one before it. -/
theorem limit_of_apply {D : ℕ} {b b' : Bucket} {t : ℕ} {op : Op}
    (h : b.apply D t op = some b') : b'.limit = b.limit ∨ op = .setLimit b'.limit := by
  cases op with
  | consume a =>
      simp only [apply, Option.ite_none_right_eq_some, Option.some.injEq] at h
      exact .inl (h.2 ▸ rfl)
  | refill a => exact .inl ((Option.some.inj h) ▸ rfl)
  | setLimit l => exact .inr ((Option.some.inj h) ▸ rfl)

/-- One operation keeps the capacity within the limit. -/
theorem Valid.next {D : ℕ} {b : Bucket} (hb : b.Valid) (t : ℕ) (op : Op) :
    (b.next D t op).Valid := by
  rw [Bucket.next]
  cases h : b.apply D t op with
  | none => exact hb
  | some b' => exact valid_of_apply h

/-- An operation is remembered with its time, unless it failed. -/
theorem last_next_le {D : ℕ} {b : Bucket} {t : ℕ} (ht : b.last ≤ t) (op : Op) :
    (b.next D t op).last ≤ t := by
  cases op with
  | consume a => by_cases h : a ≤ b.level D t <;> simp [Bucket.next, apply, h, ht]
  | refill a => exact le_rfl
  | setLimit l => exact le_rfl

/-- What an operation consumes, with the unrounded level that it leaves, was there before it or
came with it. An operation on the limit counts as long as it does not change it. -/
theorem spent_add_exactLevel_le {D : ℕ} {b : Bucket} {t : ℕ} (op : Op)
    (hop : ∀ l, op = .setLimit l → l = b.limit) :
    (b.spent D t op : ℚ) + (b.next D t op).exactLevel D t ≤
      b.exactLevel D t + b.gained D t op := by
  have hle := b.level_le_exactLevel D t
  have hdone : ∀ {b'}, b.apply D t op = some b' → b'.last = t → b'.exactLevel D t = b'.capacity := by
    intro b' h ht
    have hv := valid_of_apply h
    have hlast := exactLevel_last (D := D) hv
    rwa [level_last hv, ht] at hlast
  cases op with
  | consume a =>
      by_cases h : a ≤ b.level D t
      · have happ : b.apply D t (.consume a) =
            some { b with capacity := b.level D t - a, last := t } := if_pos h
        have hlast := hdone happ rfl
        simp only [Bucket.next, happ, Option.getD_some, hlast, spent, h, if_true, gained,
          Nat.cast_sub h, Nat.cast_zero]
        linarith
      · simp [Bucket.next, apply, spent, gained, h]
  | refill a =>
      have hlast := hdone (rfl : b.apply D t (.refill a) = some _) rfl
      have hcap : min (b.level D t + a) b.limit = b.level D t + b.gained D t (.refill a) := by
        have hlim := b.level_le_limit D t
        simp only [gained]
        omega
      have hspent : b.spent D t (.refill a) = 0 := rfl
      rw [hspent, Nat.cast_zero, zero_add]
      calc (b.next D t (.refill a)).exactLevel D t
          = (min (b.level D t + a) b.limit : ℕ) := hlast
        _ = b.level D t + b.gained D t (.refill a) := by rw [hcap, Nat.cast_add]
        _ ≤ b.exactLevel D t + b.gained D t (.refill a) := by linarith
  | setLimit l =>
      obtain rfl := hop l rfl
      have hlast := hdone (rfl : b.apply D t (.setLimit b.limit) = some _) rfl
      simp only [spent, gained, Nat.cast_zero, zero_add, add_zero]
      calc (b.next D t (.setLimit b.limit)).exactLevel D t
          = (if b.limit < b.limit then b.level D t - (b.limit - b.limit)
              else b.level D t + (b.limit - b.limit) : ℕ) := hlast
        _ = b.level D t := by simp
        _ ≤ b.exactLevel D t := hle

/-- An operation that does not change the limit does not change the limit. -/
theorem limit_next {D : ℕ} (b : Bucket) (t : ℕ) (op : Op)
    (hop : ∀ l, op = .setLimit l → l = b.limit) : (b.next D t op).limit = b.limit := by
  cases op with
  | consume a => by_cases h : a ≤ b.level D t <;> simp [Bucket.next, apply, h]
  | refill a => rfl
  | setLimit l => exact hop l rfl

/-! ### Sequences of operations -/

/-- Any sequence of operations keeps the capacity within the limit. -/
theorem Valid.run {D : ℕ} {b : Bucket} (hb : b.Valid) (ops : List (ℕ × Op)) :
    (b.run D ops).Valid := by
  induction ops generalizing b with
  | nil => exact hb
  | cons o ops ih => exact ih (hb.next o.1 o.2)

/-- The operations happen between two times, in order. -/
def Timed (t₁ t₂ : ℕ) : List (ℕ × Op) → Prop
  | [] => t₁ ≤ t₂
  | (t, _) :: ops => t₁ ≤ t ∧ Timed t t₂ ops

/-- Time does not run backwards along a timed sequence. -/
theorem Timed.le {t₁ t₂ : ℕ} {ops : List (ℕ × Op)} (h : Timed t₁ t₂ ops) : t₁ ≤ t₂ := by
  induction ops generalizing t₁ with
  | nil => exact h
  | cons o ops ih => exact h.1.trans (ih h.2)

/-- Operations between two times, in the order of their times, are timed. -/
theorem timed_of_pairwise {t₁ t₂ : ℕ} {ops : List (ℕ × Op)}
    (hord : ops.Pairwise fun a b => a.1 ≤ b.1) (hin : ∀ o ∈ ops, t₁ ≤ o.1 ∧ o.1 ≤ t₂)
    (hle : t₁ ≤ t₂) : Timed t₁ t₂ ops := by
  induction ops generalizing t₁ with
  | nil => exact hle
  | cons o ops ih =>
      obtain ⟨h₁, h₂⟩ := hin o (List.mem_cons_self ..)
      obtain ⟨hhead, htail⟩ := List.pairwise_cons.mp hord
      exact ⟨h₁, ih htail (fun o' ho' => ⟨hhead o' ho', (hin o' (List.mem_cons_of_mem _ ho')).2⟩) h₂⟩

/-- No operation changes the limit `L`. -/
def KeepsLimit (L : ℕ) (ops : List (ℕ × Op)) : Prop :=
  ∀ o ∈ ops, ∀ l, o.2 = .setLimit l → l = L

/-- **The window bound.** Induction on the operations: each hands its successor a bucket whose
unrounded level accounts for what it consumed, and between operations that level grows by at
most one limit in every duration. -/
theorem consumed_le {D : ℕ} {b : Bucket} {t₁ t₂ : ℕ} (hlast : b.last ≤ t₁)
    {ops : List (ℕ × Op)} (ht : Timed t₁ t₂ ops) (hL : KeepsLimit b.limit ops) :
    (b.consumed D ops : ℚ) ≤
      b.exactLevel D t₁ + b.limit * (t₂ - t₁ : ℕ) / D + b.refilled D ops := by
  induction ops generalizing b t₁ with
  | nil =>
      have : (0 : ℚ) ≤ b.exactLevel D t₁ := le_trans (Nat.cast_nonneg _) (b.level_le_exactLevel D t₁)
      have : (0 : ℚ) ≤ b.limit * (t₂ - t₁ : ℕ) / D := by positivity
      simp only [consumed, refilled, Nat.cast_zero]
      linarith
  | cons o ops ih =>
      obtain ⟨t, op⟩ := o
      obtain ⟨h₁, ht⟩ := ht
      have h₂ : t ≤ t₂ := ht.le
      have hop : ∀ l, op = .setLimit l → l = b.limit := hL (t, op) (List.mem_cons_self ..)
      have hlim := b.limit_next (D := D) t op hop
      have hrest := ih (last_next_le (hlast.trans h₁) op) ht
        (by rw [hlim]; exact fun o ho => hL o (List.mem_cons_of_mem _ ho))
      have hone := spent_add_exactLevel_le (b := b) (D := D) (t := t) op hop
      have hgrow := b.exactLevel_growth (D := D) hlast h₁
      have hsplit : ((t₂ - t₁ : ℕ) : ℚ) = (t - t₁ : ℕ) + (t₂ - t : ℕ) := by
        rw [← Nat.cast_add]
        congr 1
        omega
      have hgain : (b.limit * (t₂ - t₁ : ℕ) / D : ℚ) =
          b.limit * (t - t₁ : ℕ) / D + b.limit * (t₂ - t : ℕ) / D := by
        rw [hsplit, mul_add, add_div]
      rw [hlim] at hrest
      rw [refilled, consumed, hgain]
      push_cast
      linarith

end Bucket
