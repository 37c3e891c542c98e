import Ntt.Lib.TokenBucket
import Ntt.Lib.Transducer

/-!
# Limiters

A `Limiter` is an implementation of a rate limit: its operations move its states, consume and
refill. It *refines* a token bucket when a relation of its states to buckets survives every
operation that is in order, and the operation consumes and refills what the bucket's does. Then a
whole run is one of the bucket (`Limiter.Refines.run_eq`), and the window bound of the bucket
holds of the implementation (`Limiter.Refines.consumed_le`).
-/

/-- A rate limit: a machine whose inputs are operations, each of which consumes and refills
something. -/
structure Limiter (σ ι ω : Type*) extends Transducer σ ι ω where
  spent : σ → ι → ℕ
  gained : σ → ι → ℕ

namespace Limiter

variable {σ ι ω : Type*} {L : Limiter σ ι ω}

/-- What a list of operations consumes. -/
def consumed (L : Limiter σ ι ω) (s : σ) : List ι → ℕ
  | [] => 0
  | i :: is => L.spent s i + L.consumed (L.next s i) is

/-- What a list of operations refills. -/
def refilled (L : Limiter σ ι ω) (s : σ) : List ι → ℕ
  | [] => 0
  | i :: is => L.gained s i + L.refilled (L.next s i) is

/-- The limiter follows a bucket: on related states, an operation that is in order does what the
bucket does. -/
structure Refines (L : Limiter σ ι ω) (D : ℕ) (timed : ι → ℕ × Bucket.Op)
    (R : σ → Bucket → Prop) (ok : σ → ι → Prop) : Prop where
  next : ∀ s b i, R s b → ok s i → b.last ≤ (timed i).1 →
    R (L.next s i) (b.next D (timed i).1 (timed i).2)
  spent : ∀ s b i, R s b → ok s i → b.last ≤ (timed i).1 →
    L.spent s i = b.spent D (timed i).1 (timed i).2
  gained : ∀ s b i, R s b → ok s i → b.last ≤ (timed i).1 →
    L.gained s i = b.gained D (timed i).1 (timed i).2

namespace Refines

variable {D : ℕ} {timed : ι → ℕ × Bucket.Op} {R : σ → Bucket → Prop} {ok : σ → ι → Prop}

/-- A run of the limiter is one of the bucket. Induction on the operations. -/
theorem run_eq (h : L.Refines D timed R ok) {s : σ} {b : Bucket} {is : List ι} {t₁ t₂ : ℕ}
    (hr : R s b) (hok : L.Along ok s is) (hlast : b.last ≤ t₁)
    (ht : Bucket.Timed t₁ t₂ (is.map timed)) :
    R (L.run s is) (b.run D (is.map timed)) ∧
      L.consumed s is = b.consumed D (is.map timed) ∧
        L.refilled s is = b.refilled D (is.map timed) := by
  induction is generalizing s b t₁ with
  | nil => exact ⟨hr, rfl, rfl⟩
  | cons i is ih =>
      have hle : b.last ≤ (timed i).1 := hlast.trans ht.1
      obtain ⟨hrun, hcons, href⟩ := ih (h.next s b i hr hok.1 hle) hok.2
        (Bucket.last_next_le hle _) ht.2
      refine ⟨hrun, ?_, ?_⟩
      · rw [consumed, hcons, h.spent s b i hr hok.1 hle]
        rfl
      · rw [refilled, href, h.gained s b i hr hok.1 hle]
        rfl

/-- The window bound: while the limit stays, what is consumed between two times is at most the
unrounded level at the first, one limit for every duration in between, and what is refilled. -/
theorem consumed_le (h : L.Refines D timed R ok) {s : σ} {b : Bucket} {is : List ι} {t₁ t₂ : ℕ}
    (hr : R s b) (hok : L.Along ok s is) (hlast : b.last ≤ t₁)
    (ht : Bucket.Timed t₁ t₂ (is.map timed)) (hL : Bucket.KeepsLimit b.limit (is.map timed)) :
    (L.consumed s is : ℚ) ≤
      b.exactLevel D t₁ + b.limit * (t₂ - t₁ : ℕ) / D + L.refilled s is := by
  obtain ⟨-, hcons, href⟩ := h.run_eq hr hok hlast ht
  rw [hcons, href]
  exact Bucket.consumed_le hlast ht hL

end Refines

end Limiter
