import Ntt.Evm.RateLimiter

/-!
# Rate Limiter Safety over Any Run

A history is a sequence of limit settings, consumptions and refills on one `RateLimitParams`,
each with the timestamp of its block. It begins with a limit setting on storage that was never
written, its timestamps do not decrease, and its amounts are in the decimals of the token. An
operation that reverts leaves the parameters as they were.

A history refines the run of a token bucket (`run_bucket`, `consumed_eq`, `refilled_eq`), and
inherits the bucket's window bound.

## Main results

* `RateLimitOp.history_safe`: along every history the parameters are in order and only a
  consumption beyond the capacity reverts; while the limit stays, what is consumed between two
  times is bounded by the capacity at the first, the refill in between and the backflow.
* `RateLimitOp.rounded_capacity_not_enough`: with the capacity at the first time rounded down
  to whole units, the bound fails.
-/

namespace Ntt

open TrimmedAmount

namespace RateLimitOp

/-! ### Histories -/

/-- The parameters after an operation at a time; a reverting one changes nothing. -/
def next (D t : UInt64) (p : RateLimitParams) (op : RateLimitOp) : RateLimitParams :=
  (op.apply D t p).toOption.getD p

/-- The parameters after a sequence of operations. -/
def run (D : UInt64) (p : RateLimitParams) : List (UInt64 × RateLimitOp) → RateLimitParams
  | [] => p
  | (t, op) :: ops => run D (op.next D t p) ops

/-- What an operation consumes: its amount, unless it reverts. -/
def spent (D t : UInt64) (p : RateLimitParams) : RateLimitOp → ℕ
  | .consume a => ((RateLimiter.consumeAmount D t a p).map fun _ => a.amount).toOption.getD 0
  | _ => 0

/-- What an operation refills: the capacity it leaves beyond the one it finds. -/
def gained (D t : UInt64) (p : RateLimitParams) : RateLimitOp → ℕ
  | .backfill a =>
      ((do
        let capacity ← RateLimiter.getCurrentCapacity D t p
        let p' ← RateLimiter.backfillAmount D t a p
        return p'.currentCapacity.amount - capacity.amount : Except Error ℕ)).toOption.getD 0
  | _ => 0

/-- What a sequence of operations consumes. -/
def consumed (D : UInt64) (p : RateLimitParams) : List (UInt64 × RateLimitOp) → ℕ
  | [] => 0
  | (t, op) :: ops => op.spent D t p + consumed D (op.next D t p) ops

/-- What a sequence of operations refills. -/
def refilled (D : UInt64) (p : RateLimitParams) : List (UInt64 × RateLimitOp) → ℕ
  | [] => 0
  | (t, op) :: ops => op.gained D t p + refilled D (op.next D t p) ops

/-- The timestamps do not decrease, from a time on. -/
def Ordered (t₀ : UInt64) (ops : List (UInt64 × RateLimitOp)) : Prop :=
  (∀ o ∈ ops, t₀ ≤ o.1) ∧ ops.Pairwise fun a b => a.1 ≤ b.1

/-- Every limit and amount is in the same decimals. -/
def InDecimals (d : UInt8) (ops : List (UInt64 × RateLimitOp)) : Prop :=
  ∀ o ∈ ops, o.2.arg.getDecimals = d

/-- A history: a limit setting and then any operations, in one token's decimals, with block
timestamps that do not decrease. -/
structure History (d : UInt8) (ops : List (UInt64 × RateLimitOp)) : Prop where
  starts : ∃ t limit rest, ops = (t, .setLimit limit) :: rest
  decimals : InDecimals d ops
  ordered : Ordered 0 ops

/-- An operation as the bucket sees it. -/
def toBucket (o : UInt64 × RateLimitOp) : ℕ × Bucket.Op := (o.1.toNat, o.2.bucketOp)

variable {D t : UInt64} {d : UInt8} {p : RateLimitParams} {ops : List (UInt64 × RateLimitOp)}

theorem Ordered.tail {t₀ : UInt64} {o : UInt64 × RateLimitOp} (h : Ordered t₀ (o :: ops)) :
    Ordered o.1 ops :=
  List.pairwise_cons.mp h.2

theorem Ordered.append_right {t₀ : UInt64} {pre : List (UInt64 × RateLimitOp)}
    (h : Ordered t₀ (pre ++ ops)) : Ordered t₀ ops :=
  ⟨fun o ho => h.1 o (List.mem_append_right _ ho), (List.pairwise_append.mp h.2).2.1⟩

theorem Ordered.append_left {t₀ : UInt64} {rest : List (UInt64 × RateLimitOp)}
    (h : Ordered t₀ (ops ++ rest)) : Ordered t₀ ops :=
  ⟨fun o ho => h.1 o (List.mem_append_left _ ho), (List.pairwise_append.mp h.2).1⟩

theorem InDecimals.append_left {rest : List (UInt64 × RateLimitOp)}
    (h : InDecimals d (ops ++ rest)) : InDecimals d ops :=
  fun o ho => h o (List.mem_append_left _ ho)

theorem InDecimals.append_right {pre : List (UInt64 × RateLimitOp)}
    (h : InDecimals d (pre ++ ops)) : InDecimals d ops :=
  fun o ho => h o (List.mem_append_right _ ho)

theorem run_append (pre : List (UInt64 × RateLimitOp)) :
    run D p (pre ++ ops) = run D (run D p pre) ops := by
  induction pre generalizing p with
  | nil => rfl
  | cons o pre ih => exact ih

/-- Ordered operations between two times are timed as the bucket wants them. -/
theorem timed_map {t₀ t₁ t₂ : UInt64} (h : Ordered t₀ ops)
    (hin : ∀ o ∈ ops, t₁ ≤ o.1 ∧ o.1 ≤ t₂) (hle : t₁ ≤ t₂) :
    Bucket.Timed t₁.toNat t₂.toNat (ops.map toBucket) := by
  induction ops generalizing t₀ t₁ with
  | nil => exact UInt64.le_iff_toNat_le.mp hle
  | cons o ops ih =>
      have ho := hin o (List.mem_cons_self ..)
      refine ⟨UInt64.le_iff_toNat_le.mp ho.1, ih h.tail (fun o' ho' => ?_) ho.2⟩
      exact ⟨h.tail.1 o' ho', (hin o' (List.mem_cons_of_mem _ ho')).2⟩

/-! ### One operation refines one operation of the bucket -/

/-- A bucket whose fields fit is read back from its parameters. -/
theorem bucket_ofBucket {b : Bucket} (hlim : b.limit < 2 ^ 64) (hcap : b.capacity < 2 ^ 64)
    (hlast : b.last < 2 ^ 64) : (RateLimitParams.ofBucket d b).bucket = b := by
  rw [RateLimitParams.ofBucket, RateLimitParams.bucket, amount_ofNat hlim, amount_ofNat hcap,
    UInt64.toNat_ofNat', Nat.mod_eq_of_lt hlast]

section

variable (hp : p.Ok d) (hD : D ≠ 0) (ht : p.lastTxTimestamp ≤ t)
include hp hD ht

/-- After an operation the parameters are those of the bucket after it. -/
theorem bucket_next {op : RateLimitOp} (hop : op.arg.getDecimals = d) :
    (op.next D t p).bucket = p.bucket.next D.toNat t.toNat op.bucketOp := by
  rw [next, apply_eq hp.aligned hD ht op hop]
  have hv := hp.capacity_le.next (D := D.toNat) t.toNat op.bucketOp
  rw [Bucket.next] at hv ⊢
  cases hb : p.bucket.apply D.toNat t.toNat op.bucketOp with
  | none => rfl
  | some b =>
      rw [hb] at hv
      have hfit : b.limit < 2 ^ 64 ∧ b.last < 2 ^ 64 := by
        have hlim := p.limit.amount_lt
        have htime := t.toNat_lt
        cases op <;> simp only [bucketOp, Bucket.apply, Option.ite_none_right_eq_some,
          Option.some.injEq] at hb
        · exact hb ▸ ⟨TrimmedAmount.amount_lt _, htime⟩
        · exact hb.2 ▸ ⟨hlim, htime⟩
        · exact hb ▸ ⟨hlim, htime⟩
      exact bucket_ofBucket hfit.1 (lt_of_le_of_lt hv hfit.1) hfit.2

/-- One operation keeps the parameters in order. -/
theorem ok_next {op : RateLimitOp} (hop : op.arg.getDecimals = d) : (op.next D t p).Ok d := by
  have hv := bucket_next hp hD ht hop ▸ hp.capacity_le.next (D := D.toNat) t.toNat op.bucketOp
  refine ⟨?_, ?_, hv⟩ <;> rw [next, apply_eq hp.aligned hD ht op hop] <;>
    cases p.bucket.apply D.toNat t.toNat op.bucketOp
  · exact hp.limit_decimals
  · exact getDecimals_pack _ _
  · exact hp.capacity_decimals
  · exact getDecimals_pack _ _

theorem last_next_le {op : RateLimitOp} (hop : op.arg.getDecimals = d) :
    (op.next D t p).lastTxTimestamp ≤ t := by
  have hlast := Bucket.last_next_le (D := D.toNat) (b := p.bucket)
    (UInt64.le_iff_toNat_le.mp ht) op.bucketOp
  rw [← bucket_next hp hD ht hop] at hlast
  exact UInt64.le_iff_toNat_le.mpr hlast

theorem spent_eq {op : RateLimitOp} (hop : op.arg.getDecimals = d) :
    op.spent D t p = p.bucket.spent D.toNat t.toNat op.bucketOp := by
  cases op with
  | setLimit l => rfl
  | backfill a => rfl
  | consume a =>
      replace hop : a.getDecimals = d := hop
      rw [spent, RateLimiter.consumeAmount_eq hp.aligned hD ht hop, bucketOp, Bucket.spent]
      split <;> rfl

theorem gained_eq {op : RateLimitOp} (hop : op.arg.getDecimals = d) :
    op.gained D t p = p.bucket.gained D.toNat t.toNat op.bucketOp := by
  cases op with
  | setLimit l => rfl
  | consume a => rfl
  | backfill a =>
      replace hop : a.getDecimals = d := hop
      have hlim := p.limit.amount_lt
      have hfit : min (p.bucket.level D.toNat t.toNat + a.amount) p.limit.amount < 2 ^ 64 := by
        omega
      simp only [gained, RateLimiter.getCurrentCapacity_of_aligned hp.aligned hD ht,
        RateLimiter.backfillAmount_eq hp.aligned hD ht hop, bind, Except.bind, pure, Except.pure,
        Except.toOption, Option.getD_some, amount_ofNat hfit,
        amount_ofNat (RateLimiter.level_lt D t p)]
      rfl

/-- Only a consumption beyond the capacity reverts, and it reverts on underflow. -/
theorem apply_ok_or_underflow {op : RateLimitOp} (hop : op.arg.getDecimals = d) :
    (∃ p', op.apply D t p = .ok p') ∨
      (op.apply D t p = .error .arithmeticOverflow ∧
        ∃ a c, op = .consume a ∧ RateLimiter.getCurrentCapacity D t p = .ok c ∧
          c.amount < a.amount) := by
  rw [apply_eq hp.aligned hD ht op hop]
  cases op with
  | setLimit l => exact .inl ⟨_, rfl⟩
  | backfill a => exact .inl ⟨_, rfl⟩
  | consume a =>
      simp only [bucketOp, Bucket.apply]
      by_cases hle : a.amount ≤ p.bucket.level D.toNat t.toNat
      · rw [if_pos hle]
        exact .inl ⟨_, rfl⟩
      · rw [if_neg hle]
        refine .inr ⟨rfl, a, _, rfl, RateLimiter.getCurrentCapacity_of_aligned hp.aligned hD ht, ?_⟩
        rw [amount_ofNat (RateLimiter.level_lt D t p)]
        omega

end

/-! ### Sequences of operations -/

/-- A sequence of operations runs as the bucket's does, keeps the parameters in order, and is
remembered with a timestamp no later than its own. Induction on the sequence. -/
theorem run_spec (hD : D ≠ 0) (hp : p.Ok d) (hdec : InDecimals d ops)
    (hord : Ordered p.lastTxTimestamp ops) :
    (run D p ops).Ok d ∧
      consumed D p ops = p.bucket.consumed D.toNat (ops.map toBucket) ∧
      refilled D p ops = p.bucket.refilled D.toNat (ops.map toBucket) ∧
      ∀ t₁, p.lastTxTimestamp ≤ t₁ → (∀ o ∈ ops, o.1 ≤ t₁) →
        (run D p ops).lastTxTimestamp ≤ t₁ := by
  induction ops generalizing p with
  | nil => exact ⟨hp, rfl, rfl, fun _ h _ => h⟩
  | cons o ops ih =>
      obtain ⟨t, op⟩ := o
      have ht : p.lastTxTimestamp ≤ t := hord.1 _ (List.mem_cons_self ..)
      have hop : op.arg.getDecimals = d := hdec _ (List.mem_cons_self ..)
      have hlast := last_next_le hp hD ht hop
      obtain ⟨hok, hcons, href, hrun⟩ := ih (ok_next hp hD ht hop)
        (fun o ho => hdec o (List.mem_cons_of_mem _ ho))
        ⟨fun o ho => UInt64.le_trans hlast (hord.tail.1 o ho), hord.tail.2⟩
      refine ⟨hok, ?_, ?_, ?_⟩
      · rw [consumed, hcons, spent_eq hp hD ht hop, bucket_next hp hD ht hop]
        rfl
      · rw [refilled, href, gained_eq hp hD ht hop, bucket_next hp hD ht hop]
        rfl
      · intro t₁ _ h
        exact hrun t₁ (UInt64.le_trans hlast (h _ (List.mem_cons_self ..)))
          (fun o ho => h o (List.mem_cons_of_mem _ ho))

/-- After any non-empty beginning of a history the parameters are in order, and what follows
is ordered from there. -/
theorem History.ok {pre rest : List (UInt64 × RateLimitOp)} (h : History d (pre ++ rest))
    (hD : D ≠ 0) (hpre : pre ≠ []) :
    (run D .zero pre).Ok d ∧ Ordered (run D .zero pre).lastTxTimestamp rest ∧
      ∀ t₁, (∀ o ∈ pre, o.1 ≤ t₁) → (run D .zero pre).lastTxTimestamp ≤ t₁ := by
  obtain ⟨t, limit, tail, hst⟩ := h.starts
  obtain ⟨o, pre, rfl⟩ := List.exists_cons_of_ne_nil hpre
  obtain ⟨rfl, rfl⟩ := List.cons.inj hst
  have hl : limit.getDecimals = d := h.decimals (t, .setLimit limit) (List.mem_cons_self ..)
  -- the first limit setting fills the capacity
  have hfirst : (RateLimitOp.setLimit limit).next D t .zero = ⟨limit, limit, t⟩ := by
    rw [next, apply, RateLimiter.setLimit_of_isNull rfl]
    rfl
  have hok : RateLimitParams.Ok d ⟨limit, limit, t⟩ := ⟨hl, hl, le_refl limit.amount⟩
  have hord : Ordered t (pre ++ rest) := h.ordered.tail
  have hdec : InDecimals d (pre ++ rest) :=
    fun o ho => h.decimals o (List.mem_cons_of_mem _ ho)
  obtain ⟨hrun, -, -, hlast⟩ := run_spec hD hok hdec.append_left hord.append_left
  rw [run, hfirst]
  refine ⟨hrun, ⟨fun o ho => ?_, hord.append_right.2⟩, fun t₁ h₁ => ?_⟩
  · exact hlast o.1 (hord.1 o (List.mem_append_right _ ho))
      (fun o' ho' => (List.pairwise_append.mp hord.2).2.2 o' ho' o ho)
  · exact hlast t₁ (h₁ _ (List.mem_cons_self ..)) (fun o ho => h₁ o (List.mem_cons_of_mem _ ho))

/-! ### The window bound -/

/-- Two times, the operations `pre` of a history up to the first, and the operations `window`
between them, along which the limit stays what it is after `pre`. -/
structure Window (D : UInt64) (ops pre window : List (UInt64 × RateLimitOp))
    (t₁ t₂ : UInt64) : Prop where
  split : pre ++ window <+: ops
  started : pre ≠ []
  before : ∀ o ∈ pre, o.1 ≤ t₁
  inside : ∀ o ∈ window, t₁ ≤ o.1 ∧ o.1 ≤ t₂
  le : t₁ ≤ t₂
  limit : ∀ w, w <+: window → (run D (run D .zero pre) w).limit = (run D .zero pre).limit

/-- The capacity at a time, before it is rounded down to whole units. -/
def exactCapacity (D t : UInt64) (p : RateLimitParams) : ℚ :=
  p.bucket.exactLevel D.toNat t.toNat

/-- What refills linearly between two times, at a limit. -/
def accrued (D t₁ t₂ : UInt64) (limit : TrimmedAmount) : ℚ :=
  limit.amount * (t₂.toNat - t₁.toNat : ℕ) / D.toNat

/-- The rounding loses less than one unit, and nothing at the time of the last operation. -/
theorem exactCapacity_spec (hp : p.Ok d) (hD : D ≠ 0) (ht : p.lastTxTimestamp ≤ t) :
    ∃ c, RateLimiter.getCurrentCapacity D t p = .ok c ∧ c.amount ≤ exactCapacity D t p ∧
      exactCapacity D t p < c.amount + 1 ∧
      (t = p.lastTxTimestamp → exactCapacity D t p = c.amount) := by
  refine ⟨_, RateLimiter.getCurrentCapacity_of_aligned hp.aligned hD ht, ?_⟩
  rw [amount_ofNat (RateLimiter.level_lt D t p), exactCapacity]
  have hpos : 0 < D.toNat := Nat.pos_of_ne_zero fun h => hD (UInt64.toNat_inj.mp h)
  refine ⟨Bucket.level_le_exactLevel _ _ _, Bucket.exactLevel_lt_level_add_one hpos _ _, ?_⟩
  rintro rfl
  exact Bucket.exactLevel_last hp.capacity_le

/-- While the limit stays, every limit setting in the window sets that limit. -/
theorem Window.keepsLimit {pre window : List (UInt64 × RateLimitOp)} {t₁ t₂ : UInt64}
    (hw : Window D ops pre window t₁ t₂) (hD : D ≠ 0) (hp : (run D .zero pre).Ok d)
    (hdec : InDecimals d window) (hord : Ordered (run D .zero pre).lastTxTimestamp window) :
    Bucket.KeepsLimit (run D .zero pre).bucket.limit (window.map toBucket) := by
  intro o ho l hl
  obtain ⟨⟨t, op⟩, hmem, rfl⟩ := List.mem_map.mp ho
  obtain ⟨w, rest, rfl⟩ := List.append_of_mem hmem
  cases op with
  | consume a => cases hl
  | backfill a => cases hl
  | setLimit limit =>
      obtain rfl : limit.amount = l := Bucket.Op.setLimit.inj hl
      have hdec' : limit.getDecimals = d := hdec _ hmem
      obtain ⟨hok, -, -, hlast⟩ := run_spec hD hp hdec.append_left hord.append_left
      have ht := hlast t (hord.1 _ hmem) fun o ho =>
        (List.pairwise_append.mp hord.2).2.2 o ho _ (List.mem_cons_self ..)
      have hstay := hw.limit (w ++ [(t, .setLimit limit)]) ⟨rest, by simp⟩
      rw [run_append, run, run, next, apply, RateLimiter.setLimit_eq hok.aligned hD ht hdec'] at hstay
      exact congrArg TrimmedAmount.amount hstay

/-- **Rate limiter safety.** Along every history the capacity stays within the limit, both in
the same decimals, and only a consumption beyond the capacity reverts. While the limit stays,
consumption between two times is at most the unrounded capacity at the first, plus the linear
refill, plus the backflow; so it is at most the limit plus both. -/
theorem history_safe (hD : D ≠ 0) (h : History d ops) :
    (∀ pre t op post, ops = pre ++ (t, op) :: post →
      (run D .zero (pre ++ [(t, op)])).currentCapacity.amount ≤
        (run D .zero (pre ++ [(t, op)])).limit.amount ∧
      (run D .zero (pre ++ [(t, op)])).currentCapacity.getDecimals =
        (run D .zero (pre ++ [(t, op)])).limit.getDecimals ∧
      ((∃ p', op.apply D t (run D .zero pre) = .ok p') ∨
        (op.apply D t (run D .zero pre) = .error .arithmeticOverflow ∧
          ∃ a c, op = .consume a ∧
            RateLimiter.getCurrentCapacity D t (run D .zero pre) = .ok c ∧
            c.amount < a.amount))) ∧
    ∀ pre window t₁ t₂, Window D ops pre window t₁ t₂ →
      let p := run D .zero pre
      (consumed D p window : ℚ) ≤
        exactCapacity D t₁ p + accrued D t₁ t₂ p.limit + refilled D p window ∧
      (consumed D p window : ℚ) ≤
        p.limit.amount + accrued D t₁ t₂ p.limit + refilled D p window ∧
      ∃ c, RateLimiter.getCurrentCapacity D t₁ p = .ok c ∧ c.amount ≤ exactCapacity D t₁ p ∧
        exactCapacity D t₁ p < c.amount + 1 ∧
        (t₁ = p.lastTxTimestamp → exactCapacity D t₁ p = c.amount) := by
  constructor
  · rintro pre t op post rfl
    have h' : History d ((pre ++ [(t, op)]) ++ post) := by simpa using h
    obtain ⟨hok, -, -⟩ := h'.ok hD (by simp)
    refine ⟨hok.capacity_le, hok.capacity_decimals.trans hok.limit_decimals.symm, ?_⟩
    rcases eq_or_ne pre [] with rfl | hpre
    · obtain ⟨t', limit, rest, hst⟩ := h.starts
      obtain ⟨hop, -⟩ := List.cons.inj hst
      obtain ⟨rfl, rfl⟩ := Prod.mk.inj hop
      exact .inl ⟨_, by rw [run, apply, RateLimiter.setLimit_of_isNull rfl]⟩
    · obtain ⟨hok, hord, -⟩ := h.ok hD hpre
      exact apply_ok_or_underflow hok hD (hord.1 _ (List.mem_cons_self ..))
        (h.decimals _ (List.mem_append_right _ (List.mem_cons_self ..)))
  · intro pre window t₁ t₂ hw p
    obtain ⟨post, hsplit⟩ := hw.split
    rw [List.append_assoc] at hsplit
    subst hsplit
    obtain ⟨hok, hord, hlast⟩ := h.ok hD hw.started
    have hlast₁ := hlast t₁ hw.before
    have hdec : InDecimals d window := h.decimals.append_right.append_left
    have hordw : Ordered p.lastTxTimestamp window := hord.append_left
    obtain ⟨-, hcons, href, -⟩ := run_spec hD hok hdec hordw
    have hbound : (consumed D p window : ℚ) ≤
        exactCapacity D t₁ p + accrued D t₁ t₂ p.limit + refilled D p window := by
      rw [hcons, href]
      exact Bucket.consumed_le (UInt64.le_iff_toNat_le.mp hlast₁)
        (timed_map hordw hw.inside hw.le) (hw.keepsLimit hD hok hdec hordw)
    have hcap : exactCapacity D t₁ p ≤ p.limit.amount := Bucket.exactLevel_le_limit _ _ _
    exact ⟨hbound, by linarith, exactCapacity_spec hok hD hlast₁⟩

/-- A limit of one unit in two seconds: consumed at once, and again two seconds later. -/
def oneUnitHistory : List (UInt64 × RateLimitOp) :=
  [(0, .setLimit (packTrimmedAmount 1 8)), (0, .consume (packTrimmedAmount 1 8)),
    (2, .consume (packTrimmedAmount 1 8))]

/-- The parameters after the first consumption. -/
def oneUnitSpent : RateLimitParams := ⟨packTrimmedAmount 1 8, packTrimmedAmount 0 8, 0⟩

theorem oneUnit_history : History 8 oneUnitHistory := by
  refine ⟨⟨0, _, _, rfl⟩, ?_, ?_⟩
  · simp [InDecimals, oneUnitHistory, arg]
  · simp [Ordered, oneUnitHistory]

theorem oneUnit_run : run 2 .zero (oneUnitHistory.take 2) = oneUnitSpent := by decide +kernel

theorem oneUnit_window :
    Window 2 oneUnitHistory (oneUnitHistory.take 2) (oneUnitHistory.drop 2) 1 2 := by
  refine ⟨List.prefix_rfl, by simp [oneUnitHistory], by simp [oneUnitHistory],
    by simp [oneUnitHistory], by decide, fun w hw => ?_⟩
  rw [oneUnit_run]
  rcases List.prefix_cons_iff.mp hw with rfl | ⟨w', rfl, hw'⟩
  · rfl
  · obtain rfl := List.prefix_nil.mp hw'
    decide +kernel

/-- With the rounded capacity the bound fails: the half unit that has accrued by the first
second is not in the capacity at that time, and is part of what is consumed at the second. -/
theorem rounded_capacity_not_enough :
    History 8 oneUnitHistory ∧
      Window 2 oneUnitHistory (oneUnitHistory.take 2) (oneUnitHistory.drop 2) 1 2 ∧
      RateLimiter.getCurrentCapacity 2 1 (run 2 .zero (oneUnitHistory.take 2)) =
        .ok (packTrimmedAmount 0 8) ∧
      ¬ (consumed 2 (run 2 .zero (oneUnitHistory.take 2)) (oneUnitHistory.drop 2) : ℚ) ≤
        (packTrimmedAmount 0 8).amount +
          accrued 2 1 2 (run 2 .zero (oneUnitHistory.take 2)).limit +
          refilled 2 (run 2 .zero (oneUnitHistory.take 2)) (oneUnitHistory.drop 2) := by
  have hcons : consumed 2 oneUnitSpent (oneUnitHistory.drop 2) = 1 := by decide +kernel
  have href : refilled 2 oneUnitSpent (oneUnitHistory.drop 2) = 0 := by decide +kernel
  have hzero : (packTrimmedAmount 0 8).amount = 0 := by decide +kernel
  have hacc : accrued 2 1 2 oneUnitSpent.limit = 1 / 2 := by
    have hone : (packTrimmedAmount 1 8).amount = 1 := by decide +kernel
    simp [accrued, oneUnitSpent, hone]
  refine ⟨oneUnit_history, oneUnit_window, by decide +kernel, ?_⟩
  rw [oneUnit_run, hcons, href, hzero, hacc]
  norm_num

/-- The history of one unit meets the bound with the capacity before rounding. -/
theorem oneUnit_safe :
    (consumed 2 (run 2 .zero (oneUnitHistory.take 2)) (oneUnitHistory.drop 2) : ℚ) ≤
      exactCapacity 2 1 (run 2 .zero (oneUnitHistory.take 2)) +
        accrued 2 1 2 (run 2 .zero (oneUnitHistory.take 2)).limit +
        refilled 2 (run 2 .zero (oneUnitHistory.take 2)) (oneUnitHistory.drop 2) :=
  ((history_safe (by decide) oneUnit_history).2 _ _ _ _ oneUnit_window).1

end RateLimitOp

end Ntt
