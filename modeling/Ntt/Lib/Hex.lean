import Mathlib.Data.List.Basic
import Mathlib.Tactic.Common

/-!
# Hexadecimal Text

Byte strings written as text, two digits for a byte behind `0x`. A text may use digits of either
case (`bytes?`); what is written has small ones (`ofBytes`). Writing and reading back gives the same
bytes (`bytes?_ofBytes`), so distinct byte strings have distinct texts (`ofBytes_inj`), while a byte
string is denoted by several.
-/

namespace Hex

/-- The value of a digit. -/
def digit? (c : Char) : Option ℕ :=
  if '0' ≤ c ∧ c ≤ '9' then some (c.toNat - '0'.toNat)
  else if 'a' ≤ c ∧ c ≤ 'f' then some (c.toNat - 'a'.toNat + 10)
  else if 'A' ≤ c ∧ c ≤ 'F' then some (c.toNat - 'A'.toNat + 10)
  else none

/-- The bytes that digits denote, two by two. -/
def bytesOfDigits? : List Char → Option (List UInt8)
  | [] => some []
  | [_] => none
  | high :: low :: rest => do
      let high ← digit? high
      let low ← digit? low
      return UInt8.ofNat (16 * high + low) :: (← bytesOfDigits? rest)

/-- The bytes that a text denotes. -/
def bytes? : List Char → Option (List UInt8)
  | '0' :: 'x' :: digits => bytesOfDigits? digits
  | _ => none

/-- The digit of a value. -/
def digit (n : ℕ) : Char :=
  if n < 10 then Char.ofNat ('0'.toNat + n) else Char.ofNat ('a'.toNat + (n - 10))

/-- The two digits of a byte. -/
def digits (x : UInt8) : List Char := [digit (x.toNat / 16), digit (x.toNat % 16)]

/-- The text of a byte string. -/
def ofBytes (b : List UInt8) : List Char := '0' :: 'x' :: b.flatMap digits

theorem digit?_digit : ∀ n < 16, digit? (digit n) = some n := by decide

theorem bytesOfDigits?_flatMap (b : List UInt8) : bytesOfDigits? (b.flatMap digits) = some b := by
  induction b with
  | nil => rfl
  | cons x b ih =>
      have hlt := x.toNat_lt
      have hhigh : digit? (digit (x.toNat / 16)) = some (x.toNat / 16) := digit?_digit _ (by omega)
      have hlow : digit? (digit (x.toNat % 16)) = some (x.toNat % 16) := digit?_digit _ (by omega)
      have hbyte : UInt8.ofNat (16 * (x.toNat / 16) + x.toNat % 16) = x := by
        rw [Nat.div_add_mod, UInt8.ofNat_toNat]
      rw [List.flatMap_cons, digits, List.cons_append, List.cons_append, List.nil_append,
        bytesOfDigits?, hhigh, hlow, ih]
      simp only [Option.bind_eq_bind, Option.bind_some, hbyte]
      rfl

/-- **Round trip.** -/
theorem bytes?_ofBytes (b : List UInt8) : bytes? (ofBytes b) = some b := bytesOfDigits?_flatMap b

theorem ofBytes_inj {b b' : List UInt8} (h : ofBytes b = ofBytes b') : b = b' := by
  have hread := bytes?_ofBytes b
  rw [h, bytes?_ofBytes] at hread
  exact (Option.some.inj hread).symm

end Hex
