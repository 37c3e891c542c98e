import Mathlib.Algebra.Order.Field.Rat
import Mathlib.Data.Nat.Cast.Order.Field
import Mathlib.Tactic.FieldSimp
import Mathlib.Tactic.Linarith
import Mathlib.Tactic.Positivity

/-!
# Decimal Amounts

An amount of a token with `d` decimals is an integer number of units worth `10 ^ (-d)` each.
`value a d` is what such an amount is worth, in the one unit that does not depend on `d`.
Moving an amount to more decimals multiplies it by a power of ten, moving it to fewer divides
it and rounds down; `rescale` is either. Scaling up never changes the value
(`value_rescale_up`); scaling down never raises it, and keeps it exactly when scaling back
gives the amount again (`value_rescale_of_exact`). What it loses is a remainder
(`rescale_down_up`).
-/

namespace Decimal

/-- What `a` units of `d` decimals are worth. -/
def value (a d : ℕ) : ℚ := a / 10 ^ d

/-- An amount of `d` decimals in units of `e` decimals, rounded down. -/
def rescale (a d e : ℕ) : ℕ := if e ≤ d then a / 10 ^ (d - e) else a * 10 ^ (e - d)

@[simp] theorem value_zero (d : ℕ) : value 0 d = 0 := by simp [value]

theorem value_nonneg (a d : ℕ) : 0 ≤ value a d := by
  unfold value
  positivity

theorem value_add (a b d : ℕ) : value (a + b) d = value a d + value b d := by
  simp [value, add_div]

/-- Values at equal decimals are ordered as the amounts are. -/
theorem value_le_iff {a b d : ℕ} : value a d ≤ value b d ↔ a ≤ b := by
  unfold value
  rw [div_le_div_iff_of_pos_right (by positivity)]
  exact Nat.cast_le

@[simp] theorem rescale_self (a d : ℕ) : rescale a d d = a := by simp [rescale]

theorem rescale_of_le {a d e : ℕ} (h : d ≤ e) : rescale a d e = a * 10 ^ (e - d) := by
  rcases Nat.eq_or_lt_of_le h with rfl | h
  · simp
  · simp [rescale, Nat.not_le.mpr h]

theorem rescale_of_ge {a d e : ℕ} (h : e ≤ d) : rescale a d e = a / 10 ^ (d - e) := by
  simp [rescale, h]

/-- Scaling up keeps the value. -/
theorem value_rescale_up {a d e : ℕ} (h : d ≤ e) : value (rescale a d e) e = value a d := by
  obtain ⟨k, rfl⟩ := Nat.exists_eq_add_of_le h
  rw [rescale_of_le h, Nat.add_sub_cancel_left, value, value]
  push_cast
  rw [pow_add]
  field_simp

/-- Scaling back up from a scaling down gives the amount again exactly when nothing was cut
off; then the value is kept. -/
theorem value_rescale_of_exact {a d e : ℕ} (h : rescale (rescale a d e) e d = a)
    (hle : e ≤ d) : value (rescale a d e) e = value a d := by
  rw [← value_rescale_up hle, h]

/-- Scaling up and then down again, no further than where one started, is exact. -/
theorem rescale_rescale {a d e f : ℕ} (hde : d ≤ e) (hdf : d ≤ f) :
    rescale (rescale a d e) e f = rescale a d f := by
  obtain ⟨k, rfl⟩ := Nat.exists_eq_add_of_le hde
  obtain ⟨l, rfl⟩ := Nat.exists_eq_add_of_le hdf
  rw [rescale_of_le hde, rescale_of_le hdf]
  simp only [Nat.add_sub_cancel_left]
  rcases Nat.le_total k l with hkl | hkl
  · rw [rescale_of_le (by omega), mul_assoc, ← pow_add]
    congr 2
    omega
  · have hk : 10 ^ k = 10 ^ l * 10 ^ (k - l) := by rw [← pow_add]; congr 1; omega
    rw [rescale_of_ge (by omega), show d + k - (d + l) = k - l by omega, hk, ← mul_assoc,
      Nat.mul_div_cancel _ (by positivity)]

theorem rescale_mono {a b : ℕ} (h : a ≤ b) (d e : ℕ) : rescale a d e ≤ rescale b d e := by
  unfold rescale
  split
  · exact Nat.div_le_div_right h
  · exact Nat.mul_le_mul_right _ h

/-- What a scaling down and up again loses is the remainder. -/
theorem rescale_down_up {a d e : ℕ} (h : e ≤ d) :
    rescale (rescale a d e) e d + a % 10 ^ (d - e) = a := by
  rw [rescale_of_ge h, rescale_of_le h]
  exact Nat.div_add_mod' a _

/-- Scaling up and down again is exact. -/
theorem rescale_up_down {a d e : ℕ} (h : d ≤ e) : rescale (rescale a d e) e d = a := by
  rw [rescale_rescale h le_rfl, rescale_self]

/-! ### Numbers of decimals -/

theorem toNat_min (f t : UInt8) : (min f t).toNat = min f.toNat t.toNat := by
  change (if f ≤ t then f else t).toNat = _
  split <;> rename_i h <;> rw [UInt8.le_iff_toNat_le] at h <;> omega

/-- Two numbers of decimals, and how far they are apart. -/
theorem order (f t : UInt8) : f = t ∨
    (f ≠ t ∧ f > t ∧ t.toNat < f.toNat ∧ (f - t).toNat = f.toNat - t.toNat) ∨
      (f ≠ t ∧ ¬ f > t ∧ f.toNat < t.toNat ∧ (t - f).toNat = t.toNat - f.toNat) := by
  rcases lt_trichotomy f.toNat t.toNat with h | h | h
  · have hne : f ≠ t := fun heq => h.ne (congrArg UInt8.toNat heq)
    have hle : f ≤ t := UInt8.le_iff_toNat_le.mpr h.le
    exact .inr (.inr ⟨hne, UInt8.not_lt.mpr hle, h, UInt8.toNat_sub_of_le _ _ hle⟩)
  · exact .inl (UInt8.toNat_inj.mp h)
  · have hne : f ≠ t := fun heq => h.ne' (congrArg UInt8.toNat heq)
    have hle : t ≤ f := UInt8.le_iff_toNat_le.mpr h.le
    exact .inr (.inl ⟨hne, UInt8.lt_iff_toNat_lt.mpr h, h, UInt8.toNat_sub_of_le _ _ hle⟩)

end Decimal
