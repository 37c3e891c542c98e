import Mathlib.Data.List.Sort

/-!
# Pages of a Sorted Set

A page is the first so many of some items in an order, as a keyset query returns it: what is left
for the next page is what comes after the last item of this one.

## Main results

* `mem_page_or`: an item is on the page, or the page is full and comes before it.
* `page_rel_last`: the items of a page come no later than its last one.
* `length_page_add`: what comes after the last item of a page is no more than what is not on it.
-/

namespace Keyset

variable {α : Type*} {r : α → α → Prop} [DecidableRel r] {n : ℕ} {xs : List α} {x y last : α}

/-- The first `n` items in the order `r`. -/
def page (r : α → α → Prop) [DecidableRel r] (n : ℕ) (xs : List α) : List α :=
  (xs.insertionSort r).take n

theorem mem_of_mem_page (h : x ∈ page r n xs) : x ∈ xs :=
  (List.mem_insertionSort r).mp (List.mem_of_mem_take h)

/-- A page of distinct items has distinct items. -/
theorem nodup_map_page {β : Type*} {f : α → β} (h : (xs.map f).Nodup) :
    ((page r n xs).map f).Nodup :=
  List.Nodup.sublist ((List.take_sublist n _).map f)
    ((((List.perm_insertionSort r xs).map f).nodup_iff).mpr h)

theorem page_eq_nil (hn : 0 < n) (h : page r n xs = []) : xs = [] := by
  rw [page, List.take_eq_nil_iff] at h
  have hsort := h.resolve_left (by omega)
  rw [← List.length_eq_zero_iff, List.length_insertionSort] at hsort
  exact List.length_eq_zero_iff.mp hsort

variable [Std.Total r] [IsTrans α r]

theorem pairwise_page : (page r n xs).Pairwise r :=
  (List.pairwise_insertionSort r xs).sublist (List.take_sublist n _)

/-- An item that is not on the page comes after all of a full page. -/
theorem mem_page_or (hx : x ∈ xs) :
    x ∈ page r n xs ∨ (n ≤ (page r n xs).length ∧ ∀ y ∈ page r n xs, r y x) := by
  have hx := (List.mem_insertionSort r).mpr hx
  have hsorted := List.pairwise_insertionSort r xs
  rw [page]
  rw [← List.take_append_drop n (xs.insertionSort r)] at hx hsorted
  rcases List.mem_append.mp hx with hx | hx
  · exact .inl hx
  · refine .inr ⟨?_, fun y hy => (List.pairwise_append.mp hsorted).2.2 y hy x hx⟩
    have hlen := List.length_pos_of_mem hx
    rw [List.length_drop] at hlen
    rw [List.length_take]
    omega

/-- The last item of a page comes after the others. -/
theorem page_rel_last (hlast : (page r n xs).getLast? = some last) (hy : y ∈ page r n xs) :
    r y last := by
  obtain ⟨init, hinit⟩ := List.getLast?_eq_some_iff.mp hlast
  have hpair : (page r n xs).Pairwise r := pairwise_page
  rw [hinit] at hy hpair
  rcases List.mem_append.mp hy with hy | hy
  · exact (List.pairwise_append.mp hpair).2.2 y hy last (List.mem_singleton_self last)
  · obtain rfl := List.mem_singleton.mp hy
    exact (Std.Total.total y y).elim id id

/-- The page, and what comes after its last item, are parts of the whole. -/
theorem length_page_add (hlast : (page r n xs).getLast? = some last) :
    (page r n xs).length + xs.countP (fun x => ¬ r x last) ≤ xs.length := by
  have hperm := List.perm_insertionSort r xs
  have hzero : (page r n xs).countP (fun x => ¬ r x last) = 0 := by
    refine List.countP_eq_zero.mpr fun y hy => ?_
    simpa using page_rel_last hlast hy
  have hrest : ((xs.insertionSort r).drop n).countP (fun x => ¬ r x last) ≤
      ((xs.insertionSort r).drop n).length := List.countP_le_length
  have hsplit : xs.countP (fun x => ¬ r x last) =
      ((xs.insertionSort r).drop n).countP (fun x => ¬ r x last) := by
    rw [← hperm.countP_eq, ← List.take_append_drop n (xs.insertionSort r), List.countP_append,
      List.take_append_drop]
    exact (congrArg (· + _) hzero).trans (Nat.zero_add _)
  have hlen := congrArg List.length (List.take_append_drop n (xs.insertionSort r))
  rw [List.length_append, List.length_insertionSort] at hlen
  rw [page, hsplit]
  omega

end Keyset
