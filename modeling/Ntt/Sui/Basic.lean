import Ntt.Evm.Basic

/-!
# Numbers and Aborts of the Sui Packages

A function of the packages aborts with an error constant, with a numbered code, in an assertion
without either, or because an arithmetic operation does not fit its type. Casts and arithmetic are
checked.
-/

namespace Ntt.Sui

/-- How a function aborts. -/
inductive Abort where
  /-- An error constant with its text. -/
  | error (msg : String)
  /-- A numbered code of a module. -/
  | code (module : String) (n : ℕ)
  /-- An assertion without a code of its own. -/
  | assertion
  /-- A cast, an operation or a shift that does not fit. -/
  | arithmetic
  /-- An abort of a package outside the repository. -/
  | external
deriving DecidableEq, Repr

/-- `assert!`. -/
def assert (c : Prop) [Decidable c] (e : Abort) : Except Abort Unit :=
  if c then .ok () else .error e

theorem assert_eq_ok {c : Prop} [Decidable c] {e : Abort} {u : Unit} :
    assert c e = .ok u ↔ c := by
  rw [assert]
  by_cases h : c <;> simp [h]

/-- A result that has to fit a type with a largest number. -/
def fitting (max n : ℕ) : Except Abort ℕ :=
  if n ≤ max then .ok n else .error .arithmetic

theorem fitting_eq_ok {max n m : ℕ} : fitting max n = .ok m ↔ n ≤ max ∧ n = m := by
  rw [fitting]
  by_cases h : n ≤ max <;> simp [h]

/-- The cast `as u16`. -/
def asU16 (n : ℕ) : Except Abort UInt16 :=
  if n ≤ 65535 then .ok (UInt16.ofNat n) else .error .arithmetic

theorem asU16_eq_ok {n : ℕ} {x : UInt16} : asU16 n = .ok x ↔ x.toNat = n := by
  have hx := x.toNat_lt
  rw [asU16]
  split
  · rw [Except.ok.injEq, UInt16.ofNat_eq_iff_mod_eq_toNat, Nat.mod_eq_of_lt (by omega), eq_comm]
  · refine iff_of_false (fun hok => by cases hok) ?_
    omega

/-- A subtraction of unsigned numbers. -/
def sub (a b : ℕ) : Except Abort ℕ :=
  if b ≤ a then .ok (a - b) else .error .arithmetic

theorem sub_eq_ok {a b c : ℕ} : sub a b = .ok c ↔ b ≤ a ∧ a - b = c := by
  rw [sub]
  by_cases h : b ≤ a <;> simp [h]

end Ntt.Sui
