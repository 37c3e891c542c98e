import Ntt.Lib.BitSet

/-!
# Ballots

Voters are enabled and disabled, and vote. A vote stays whatever becomes of its voter, and it
counts while its voter is enabled. What a history of such changes comes to is said without a state:
`Enabled` and `Voted`.

`Bitmaps` is an implementation by two words of `w` bits, one of the enabled voters and one of the
votes. Voters are numbered, and a number has no bit from `w` on: a change there is refused or
changes nothing.

## Main results

* `Bitmaps.mem_enabled_run`, `Bitmaps.mem_votes_run`: the bits after any history.
* `Bitmaps.Lawful.exact`: what an implementation counts.
-/

namespace Ballot

variable {ι κ : Type*}

/-- A change of a ballot. -/
inductive Change (ι : Type*) where
  | enable (voter : ι)
  | disable (voter : ι)
  | vote (voter : ι)
deriving DecidableEq, Repr

/-- The change with another name for the voter. -/
def Change.map (f : ι → κ) : Change ι → Change κ
  | .enable i => .enable (f i)
  | .disable i => .disable (f i)
  | .vote i => .vote (f i)

/-- The voter was enabled, and was not disabled since. -/
def Enabled (changes : List (Change ι)) (i : ι) : Prop :=
  ∃ before after, changes = before ++ .enable i :: after ∧ .disable i ∉ after

/-- The voter has voted. -/
def Voted (changes : List (Change ι)) (i : ι) : Prop := .vote i ∈ changes

variable {changes : List (Change ι)} {c : Change ι} {i : ι}

theorem not_enabled_nil : ¬ Enabled [] i := by
  rintro ⟨before, after, h, -⟩
  simp at h

theorem not_voted_nil : ¬ Voted [] i := List.not_mem_nil

/-- One more change enables a voter, or leaves one enabled that was. -/
theorem enabled_concat : Enabled (changes ++ [c]) i ↔
    c = .enable i ∨ c ≠ .disable i ∧ Enabled changes i := by
  constructor
  · rintro ⟨before, after, h, hnot⟩
    obtain rfl | ⟨after, c', rfl⟩ := List.eq_nil_or_concat after
    · exact .inl (List.singleton_inj.mp (List.append_inj_right' h rfl))
    · rw [List.concat_eq_append] at h hnot
      have happend : changes ++ [c] = (before ++ .enable i :: after) ++ [c'] := by
        rw [h, List.append_assoc, List.cons_append]
      obtain ⟨rfl, hlast⟩ := List.append_inj' happend rfl
      obtain rfl := List.singleton_inj.mp hlast
      rw [List.mem_append, List.mem_singleton, not_or] at hnot
      exact .inr ⟨Ne.symm hnot.2, before, after, rfl, hnot.1⟩
  · rintro (rfl | ⟨hne, before, after, rfl, hnot⟩)
    · exact ⟨changes, [], rfl, List.not_mem_nil⟩
    · refine ⟨before, after ++ [c], by simp, ?_⟩
      rw [List.mem_append, List.mem_singleton, not_or]
      exact ⟨hnot, hne.symm⟩

theorem voted_concat : Voted (changes ++ [c]) i ↔ c = .vote i ∨ Voted changes i := by
  rw [Voted, List.mem_append, List.mem_singleton, or_comm, eq_comm]
  rfl

/-! ### Bitmaps -/

/-- The maps of an implementation, with its operations. A change can be refused, and the count can
fail. -/
structure Bitmaps (κ : Type*) (w : ℕ) where
  Map : Type
  /-- The bits of a map. -/
  bits : Map → BitVec w
  /-- The number of an index, and of a count. -/
  number : κ → ℕ
  empty : Map
  set : Map → κ → Option Map
  clear : Map → κ → Option Map
  /-- The number of votes by enabled voters, from the votes and the enabled voters. -/
  count : Map → Map → Option κ

namespace Bitmaps

/-- The two maps of a ballot. -/
structure Maps {w : ℕ} (B : Bitmaps κ w) where
  enabled : B.Map
  votes : B.Map

variable {w : ℕ} (B : Bitmaps κ w)

/-- The maps after a change; one that is refused changes nothing. -/
def next (m : B.Maps) : Change κ → B.Maps
  | .enable i => { m with enabled := (B.set m.enabled i).getD m.enabled }
  | .disable i => { m with enabled := (B.clear m.enabled i).getD m.enabled }
  | .vote i => { m with votes := (B.set m.votes i).getD m.votes }

/-- The maps after a history of changes, from empty ones. -/
def run (changes : List (Change κ)) : B.Maps := changes.foldl B.next ⟨B.empty, B.empty⟩

/-- The positions of a map. -/
def positions (m : B.Map) : Finset ℕ := BitSet.positions (B.bits m)

/-- The operations are those of sets of numbers below `w`. -/
structure Lawful : Prop where
  positions_empty : B.positions B.empty = ∅
  positions_set : ∀ m i, B.positions ((B.set m i).getD m) =
    if B.number i < w then insert (B.number i) (B.positions m) else B.positions m
  positions_clear : ∀ m i, B.positions ((B.clear m i).getD m) =
    (B.positions m).erase (B.number i)
  count_eq : ∀ votes enabled, ∃ n, B.count votes enabled = some n ∧
    B.number n = (B.positions votes ∩ B.positions enabled).card

/-- The implementation counts the bits that are set in both maps. After any history, these are the
voters with a bit that are enabled and have voted. -/
structure Exact : Prop where
  count : ∀ votes enabled, ∃ n, B.count votes enabled = some n ∧
    B.number n = (B.positions votes ∩ B.positions enabled).card
  run : ∀ changes, ∃ n, ∃ counted : Finset ℕ,
    B.count (B.run changes).votes (B.run changes).enabled = some n ∧
      B.number n = counted.card ∧ ∀ i, i ∈ counted ↔ i < w ∧
        Enabled (changes.map (.map B.number)) i ∧ Voted (changes.map (.map B.number)) i

variable {B} {changes : List (Change κ)} {c : Change κ} {i : ℕ}

theorem run_concat : B.run (changes ++ [c]) = B.next (B.run changes) c := by
  rw [run, List.foldl_append]
  rfl

theorem Lawful.mem_set (h : B.Lawful) (m : B.Map) (j : κ) :
    i ∈ B.positions ((B.set m j).getD m) ↔ (i < w ∧ B.number j = i) ∨ i ∈ B.positions m := by
  rw [h.positions_set]
  split
  · rename_i hlt
    rw [Finset.mem_insert, eq_comm]
    refine or_congr_left (iff_and_self.mpr ?_)
    rintro rfl
    exact hlt
  · rename_i hge
    refine (or_iff_right ?_).symm
    rintro ⟨hlt, rfl⟩
    exact hge hlt

/-- **The enabled voters.** Induction on the changes, from the last. -/
theorem Lawful.mem_enabled_run (h : B.Lawful) : i ∈ B.positions (B.run changes).enabled ↔
    i < w ∧ Enabled (changes.map (.map B.number)) i := by
  induction changes using List.reverseRecOn with
  | nil =>
      refine iff_of_false ?_ fun hi => not_enabled_nil hi.2
      change i ∉ B.positions B.empty
      rw [h.positions_empty]
      exact Finset.notMem_empty i
  | append_singleton changes c ih =>
      rw [run_concat, List.map_append, List.map_singleton, enabled_concat]
      cases c with
      | enable j =>
          simp only [next, Change.map, h.mem_set, ih, Change.enable.injEq, ne_eq, reduceCtorEq,
            not_false_eq_true, true_and, and_or_left]
      | disable j =>
          simp only [next, Change.map, h.positions_clear, Finset.mem_erase, ih, reduceCtorEq,
            Change.disable.injEq, ne_eq, false_or, eq_comm, and_left_comm]
      | vote j =>
          simp only [next, Change.map, ih, reduceCtorEq, ne_eq, not_false_eq_true, true_and,
            false_or]

/-- **The votes.** Induction on the changes, from the last. -/
theorem Lawful.mem_votes_run (h : B.Lawful) : i ∈ B.positions (B.run changes).votes ↔
    i < w ∧ Voted (changes.map (.map B.number)) i := by
  induction changes using List.reverseRecOn with
  | nil =>
      refine iff_of_false ?_ fun hi => not_voted_nil hi.2
      change i ∉ B.positions B.empty
      rw [h.positions_empty]
      exact Finset.notMem_empty i
  | append_singleton changes c ih =>
      rw [run_concat, List.map_append, List.map_singleton, voted_concat]
      cases c with
      | enable j => simp only [next, Change.map, ih, reduceCtorEq, false_or]
      | disable j => simp only [next, Change.map, ih, reduceCtorEq, false_or]
      | vote j => simp only [next, Change.map, h.mem_set, ih, Change.vote.injEq, and_or_left]

/-- An operation that sets a bit, and fails where there is none. -/
theorem positions_getD_set {ε M : Type*} {bits : M → BitVec w} {x : Except ε M} {m : M}
    (hok : ∀ m', x = .ok m' →
      i < w ∧ BitSet.positions (bits m') = insert i (BitSet.positions (bits m)))
    (herror : ∀ e, x = .error e → w ≤ i) :
    BitSet.positions (bits (x.toOption.getD m)) =
      if i < w then insert i (BitSet.positions (bits m)) else BitSet.positions (bits m) := by
  cases x with
  | ok m' =>
      obtain ⟨hlt, hpositions⟩ := hok m' rfl
      rw [if_pos hlt]
      exact hpositions
  | error e =>
      rw [if_neg (herror e rfl).not_gt]
      rfl

/-- An operation that clears a bit, and fails where there is none. -/
theorem positions_getD_clear {ε M : Type*} {bits : M → BitVec w} {x : Except ε M} {m : M}
    (hok : ∀ m', x = .ok m' →
      BitSet.positions (bits m') = (BitSet.positions (bits m)).erase i)
    (herror : ∀ e, x = .error e → w ≤ i) :
    BitSet.positions (bits (x.toOption.getD m)) = (BitSet.positions (bits m)).erase i := by
  cases x with
  | ok m' => exact hok m' rfl
  | error e =>
      exact (Finset.erase_eq_of_notMem fun hmem =>
        (herror e rfl).not_gt (BitSet.lt_of_mem hmem)).symm

/-- **Counting is exact** where the operations are those of sets. -/
theorem Lawful.exact (h : B.Lawful) : B.Exact := by
  refine ⟨h.count_eq, fun changes => ?_⟩
  obtain ⟨n, hn, hcard⟩ := h.count_eq (B.run changes).votes (B.run changes).enabled
  refine ⟨n, _, hn, hcard, fun i => ?_⟩
  rw [Finset.mem_inter, h.mem_votes_run, h.mem_enabled_run]
  exact ⟨fun ⟨⟨hlt, hvoted⟩, _, henabled⟩ => ⟨hlt, henabled, hvoted⟩,
    fun ⟨hlt, henabled, hvoted⟩ => ⟨⟨hlt, hvoted⟩, hlt, henabled⟩⟩

end Bitmaps

end Ballot
