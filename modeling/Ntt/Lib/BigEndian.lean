import Mathlib.Data.List.Induction
import Mathlib.Tactic.Ring

/-!
# Big-Endian Byte Strings

Fixed-width big-endian encodings of natural numbers, as wire formats use them. `beBytes n v`
writes `v` on exactly `n` bytes, and `beNat` reads a byte string back as a number. The two are
inverse to each other on numbers that fit (`beNat_beBytes`) and on byte strings of the right
length (`beBytes_beNat`), so an encoding is injective on its range (`beBytes_inj`).
-/

namespace BigEndian

/-- The `n` bytes of `v`, most significant first; what does not fit is cut off. -/
def beBytes : ℕ → ℕ → List UInt8
  | 0, _ => []
  | n + 1, v => beBytes n (v / 256) ++ [UInt8.ofNat v]

/-- The number that a byte string denotes, most significant byte first. -/
def beNat (l : List UInt8) : ℕ :=
  l.foldl (fun acc b => acc * 256 + b.toNat) 0

@[simp] theorem length_beBytes (n v : ℕ) : (beBytes n v).length = n := by
  induction n generalizing v with
  | zero => rfl
  | succ n ih => simp [beBytes, ih]

@[simp] theorem beNat_nil : beNat [] = 0 := rfl

@[simp] theorem beNat_append_singleton (l : List UInt8) (b : UInt8) :
    beNat (l ++ [b]) = beNat l * 256 + b.toNat := by
  simp [beNat]

/-- Reading back a number that fits. -/
theorem beNat_beBytes {n v : ℕ} (h : v < 256 ^ n) : beNat (beBytes n v) = v := by
  induction n generalizing v with
  | zero =>
      have : v = 0 := by simpa using h
      simp [beBytes, this]
  | succ n ih =>
      have hdiv : v / 256 < 256 ^ n := by
        rw [Nat.div_lt_iff_lt_mul (by decide), ← pow_succ]
        exact h
      rw [beBytes, beNat_append_singleton, ih hdiv, UInt8.toNat_ofNat']
      exact Nat.div_add_mod' v 256

/-- Writing back the number read off a byte string. -/
theorem beBytes_beNat (l : List UInt8) : beBytes l.length (beNat l) = l := by
  induction l using List.reverseRecOn with
  | nil => rfl
  | append_singleton l b ih =>
      have hb : b.toNat < 256 := b.toNat_lt
      rw [List.length_append, List.length_singleton, beBytes, beNat_append_singleton]
      have hdiv : (beNat l * 256 + b.toNat) / 256 = beNat l := by omega
      have hmod : UInt8.ofNat (beNat l * 256 + b.toNat) = b := by
        apply UInt8.toNat_inj.mp
        rw [UInt8.toNat_ofNat']
        omega
      rw [hdiv, hmod, ih]

/-- A byte string of length `n` denotes a number below `256 ^ n`. -/
theorem beNat_lt (l : List UInt8) : beNat l < 256 ^ l.length := by
  induction l using List.reverseRecOn with
  | nil => simp
  | append_singleton l b ih =>
      have hb : b.toNat < 256 := b.toNat_lt
      rw [List.length_append, List.length_singleton, pow_succ, beNat_append_singleton]
      omega

/-- Numbers that fit have distinct encodings. -/
theorem beBytes_inj {n v w : ℕ} (hv : v < 256 ^ n) (hw : w < 256 ^ n)
    (h : beBytes n v = beBytes n w) : v = w := by
  rw [← beNat_beBytes hv, h, beNat_beBytes hw]

end BigEndian
