import Mathlib.Data.List.Perm.Subperm
import Mathlib.Tactic.Common

/-!
# Removal by Swapping with the Last

An array entry is removed by writing the last entry over it and dropping the last. The order
changes, the entries that are left do not (`List.cons_swapRemove_perm`).
-/

namespace List

variable {α : Type}

/-- Writes the last entry over the entry at a position, and drops the last. -/
def swapRemove (xs : List α) (i : ℕ) (last : α) : List α := (xs.set i last).dropLast

/-- The entry that was removed and what is left are what there was. -/
theorem cons_swapRemove_perm {xs : List α} {i : ℕ} {a last : α} (hi : xs[i]? = some a)
    (hlast : xs.getLast? = some last) : (a :: xs.swapRemove i last).Perm xs := by
  obtain ⟨ys, rfl⟩ := List.getLast?_eq_some_iff.mp hlast
  obtain ⟨hlt, ha⟩ := List.getElem?_eq_some_iff.mp hi
  rw [List.length_append, List.length_singleton] at hlt
  rcases Nat.lt_or_eq_of_le (Nat.lt_succ_iff.mp hlt) with hlt | rfl
  · rw [List.getElem_append_left hlt] at ha
    rw [swapRemove, List.set_append_left _ _ hlt, List.dropLast_concat,
      List.set_eq_take_append_cons_drop, if_pos hlt]
    calc (a :: (ys.take i ++ last :: ys.drop (i + 1))).Perm
          (a :: last :: (ys.take i ++ ys.drop (i + 1))) := List.perm_middle.cons a
      _ |>.Perm (last :: a :: (ys.take i ++ ys.drop (i + 1))) := List.Perm.swap ..
      _ |>.Perm (last :: (ys.take i ++ a :: ys.drop (i + 1))) := List.perm_middle.symm.cons last
      _ |>.Perm (last :: ys) := by rw [← ha, List.getElem_cons_drop, List.take_append_drop]
      _ |>.Perm (ys ++ [last]) := (List.perm_append_singleton last ys).symm
  · have ha' : last = a := by simpa using ha
    rw [swapRemove, List.set_append_right _ _ (Nat.le_refl _), Nat.sub_self, List.set_cons_zero,
      List.dropLast_concat, ha']
    exact (List.perm_append_singleton a ys).symm

end List
