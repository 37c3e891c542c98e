import Mathlib.Algebra.Order.BigOperators.Group.Finset
import Mathlib.Data.FinEnum
import Ntt.Evm.Basic
import Ntt.Lib.Tally

/-!
# The Ledger of a Token

A token that takes no fee on transfers, as far as a manager depends on it: the balances of the
accounts, the supply, and two counters that follow the token's calls from the manager, of what
was pulled in by transfers and of what was given out. The manager reads the ledger only by
calling the token.

## Main results

* `Ledger.balance_move_of_ne`: a move into an account adds to its balance what was moved.
* `Ledger.le_balance_move`: only the account that pays can lose by a move.
* `Ledger.le_balance_move_add`: and no more than what was moved.
* `Ledger.Consistent`: the supply is what the accounts have together, and stays so.
-/

namespace Ntt

/-- The ledger of a token. -/
structure Ledger where
  /-- The balance of each account. -/
  balance : Address → ℕ
  /-- The total supply. -/
  supply : ℕ
  /-- What the manager pulled in from the callers of `transfer` so far. -/
  taken : ℕ
  /-- What the manager minted or unlocked so far. -/
  given : ℕ

namespace Ledger

/-- No one has anything. -/
def empty : Ledger := ⟨fun _ => 0, 0, 0, 0⟩

/-- Moves an amount between two accounts. -/
def move (l : Ledger) (sender recipient : Address) (amount : ℕ) : Ledger :=
  let paid := Function.update l.balance sender (l.balance sender - amount)
  { l with balance := Function.update paid recipient (paid recipient + amount) }

/-- Destroys an amount of an account. -/
def burn (l : Ledger) (account : Address) (amount : ℕ) : Ledger :=
  { l with
    balance := Function.update l.balance account (l.balance account - amount)
    supply := l.supply - amount }

/-- Creates an amount for an account. -/
def mint (l : Ledger) (account : Address) (amount : ℕ) : Ledger :=
  { l with
    balance := Function.update l.balance account (l.balance account + amount)
    supply := l.supply + amount }

variable {l : Ledger} {sender recipient account : Address} {amount : ℕ}

@[simp] theorem supply_move : (l.move sender recipient amount).supply = l.supply := rfl

@[simp] theorem taken_move : (l.move sender recipient amount).taken = l.taken := rfl

@[simp] theorem given_move : (l.move sender recipient amount).given = l.given := rfl

/-- A move into an account adds to its balance what was moved. -/
theorem balance_move_of_ne (h : recipient ≠ sender) :
    (l.move sender recipient amount).balance recipient = l.balance recipient + amount := by
  simp [move, h]

/-- Only the account that pays can lose by a move. -/
theorem le_balance_move (h : account ≠ sender) :
    l.balance account ≤ (l.move sender recipient amount).balance account := by
  by_cases hr : account = recipient
  · subst hr
    simp [move, h]
  · simp [move, h, hr]

/-- The account that pays loses no more than what was moved. -/
theorem le_balance_move_add :
    l.balance account ≤ (l.move sender recipient amount).balance account + amount := by
  by_cases hr : account = recipient
  · subst hr
    by_cases hs : account = sender
    · subst hs
      simp only [move, Function.update_self]
      omega
    · simp only [move, Function.update_self, Function.update_of_ne hs]
      omega
  · by_cases hs : account = sender
    · subst hs
      simp only [move, Function.update_of_ne hr, Function.update_self]
      omega
    · simp only [move, Function.update_of_ne hr, Function.update_of_ne hs]
      omega

/-! ### The supply -/

/-- The supply is what the accounts have together. -/
def Consistent (l : Ledger) : Prop := ∑ account, l.balance account = l.supply

namespace Consistent

/-- No account has more than the supply. -/
theorem balance_le (h : l.Consistent) (account : Address) : l.balance account ≤ l.supply := by
  rw [← h]
  exact Finset.single_le_sum (fun _ _ => Nat.zero_le _) (Finset.mem_univ account)

theorem mint (h : l.Consistent) : (l.mint account amount).Consistent := by
  have hsum := Tally.sum_change l.balance (l.mint account amount).balance account
    fun a ha => Function.update_of_ne ha _ _
  unfold Consistent at h ⊢
  simp only [Ledger.mint, Function.update_self] at hsum ⊢
  omega

theorem burn (h : l.Consistent) (hle : amount ≤ l.balance account) :
    (l.burn account amount).Consistent := by
  have hsum := Tally.sum_change l.balance (l.burn account amount).balance account
    fun a ha => Function.update_of_ne ha _ _
  have := h.balance_le account
  unfold Consistent at h ⊢
  simp only [Ledger.burn, Function.update_self] at hsum ⊢
  omega

/-- A move is a payment out of one account and into another one. -/
theorem move (h : l.Consistent) (hle : amount ≤ l.balance sender) :
    (l.move sender recipient amount).Consistent := by
  let paid := Function.update l.balance sender (l.balance sender - amount)
  have hout := Tally.sum_change l.balance paid sender
    fun a ha => Function.update_of_ne ha _ _
  have hin := Tally.sum_change paid (l.move sender recipient amount).balance recipient
    fun a ha => Function.update_of_ne ha _ _
  unfold Consistent at h ⊢
  simp only [paid, Function.update_self] at hout
  simp only [Ledger.move, Function.update_self, paid] at hin ⊢
  omega

end Consistent

end Ledger

end Ntt
