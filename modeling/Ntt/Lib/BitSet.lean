import Mathlib.Algebra.Group.Nat.Defs
import Mathlib.Data.Finset.Card
import Mathlib.Data.Finset.Image
import Mathlib.Data.Finset.Range

/-!
# Words as Finite Sets

A word of any width, read as the set of the positions of its bits (`BitSet.positions`). The
bitwise operations are those of sets. Bits are counted, and their positions handed out, by counters
of fixed width, which count on while there is room.
-/

namespace BitSet

variable {w : ℕ} {x y : BitVec w} {i : ℕ}

/-- The positions of the bits that are set. -/
def positions (x : BitVec w) : Finset ℕ := (Finset.range w).filter fun i => x.getLsbD i = true

theorem mem_positions : i ∈ positions x ↔ x.getLsbD i = true := by
  rw [positions, Finset.mem_filter, Finset.mem_range]
  exact and_iff_right_of_imp BitVec.lt_of_getLsbD

theorem lt_of_mem (h : i ∈ positions x) : i < w := BitVec.lt_of_getLsbD (mem_positions.mp h)

@[simp] theorem positions_zero : positions (0 : BitVec w) = ∅ := by
  ext i
  simp [mem_positions]

theorem positions_and : positions (x &&& y) = positions x ∩ positions y := by
  ext i
  simp [mem_positions]

/-- Setting a bit adds its position. -/
theorem positions_or_twoPow (hi : i < w) :
    positions (x ||| BitVec.twoPow w i) = insert i (positions x) := by
  ext j
  simp only [mem_positions, BitVec.getLsbD_or, BitVec.getLsbD_twoPow, Finset.mem_insert,
    Bool.or_eq_true, Bool.and_eq_true, decide_eq_true_eq]
  rw [or_comm, and_iff_right hi, eq_comm]

/-- Clearing a bit removes its position. -/
theorem positions_and_not_twoPow :
    positions (x &&& ~~~ BitVec.twoPow w i) = (positions x).erase i := by
  ext j
  simp only [mem_positions, BitVec.getLsbD_and, BitVec.getLsbD_not, BitVec.getLsbD_twoPow,
    Finset.mem_erase, Bool.and_eq_true]
  constructor
  · rintro ⟨hx, h⟩
    refine ⟨?_, hx⟩
    rintro rfl
    simp [BitVec.lt_of_getLsbD hx] at h
  · rintro ⟨hne, hx⟩
    simp [BitVec.lt_of_getLsbD hx, hx, hne.symm]

/-- Setting or clearing a bit changes that bit. -/
theorem getLsbD_write {j : ℕ} (value : Bool) (hj : j < w) :
    (if value then x ||| BitVec.twoPow w i else x &&& ~~~ BitVec.twoPow w i).getLsbD j =
      if j = i then value else x.getLsbD j := by
  cases value with
  | true =>
      rw [if_pos rfl, BitVec.getLsbD_or, BitVec.getLsbD_twoPow]
      by_cases h : j = i
      · subst h
        simp [hj]
      · simp [h, Ne.symm h]
  | false =>
      rw [if_neg Bool.false_ne_true, BitVec.getLsbD_and, BitVec.getLsbD_not, BitVec.getLsbD_twoPow]
      by_cases h : j = i
      · subst h
        simp [hj]
      · simp [hj, h, Ne.symm h]

/-- The test of a bit. -/
theorem and_twoPow_ne_zero (hi : i < w) : x &&& BitVec.twoPow w i ≠ 0 ↔ i ∈ positions x := by
  have hne : BitVec.twoPow w i ≠ 0#w := by
    intro h
    have hbit := congrArg (BitVec.getLsbD · i) h
    simp [hi] at hbit
  rw [mem_positions, BitVec.and_twoPow]
  by_cases h : x.getLsbD i
  · simpa [h] using hne
  · simp [h]

/-- As many witnesses as there are positions, one of each, when no two positions share one. -/
theorem exists_voters {τ : Type*} {positions : Finset ℕ} {P : ℕ → τ → Prop}
    (h : ∀ i ∈ positions, ∃ t, P i t) (hinj : ∀ i j t, P i t → P j t → i = j) :
    ∃ voters : Finset τ, voters.card = positions.card ∧
      (∀ t ∈ voters, ∃ i ∈ positions, P i t) ∧ ∀ i ∈ positions, ∃ t ∈ voters, P i t := by
  classical
  choose voter hvoter using h
  refine ⟨positions.attach.image fun i => voter i.1 i.2, ?_, ?_, ?_⟩
  · rw [Finset.card_image_of_injective, Finset.card_attach]
    intro i j hij
    have hj := hvoter j.1 j.2
    rw [← show voter i.1 i.2 = voter j.1 j.2 from hij] at hj
    exact Subtype.ext (hinj _ _ _ (hvoter i.1 i.2) hj)
  · intro t ht
    obtain ⟨i, -, rfl⟩ := Finset.mem_image.mp ht
    exact ⟨i.1, i.2, hvoter i.1 i.2⟩
  · intro i hi
    exact ⟨_, Finset.mem_image_of_mem _ (Finset.mem_attach positions ⟨i, hi⟩), hvoter i hi⟩

/-- The witnesses of the positions are as many, when each position has one and no two share it. -/
theorem exists_voters_iff {τ : Type*} (positions : Finset ℕ) {P : ℕ → τ → Prop}
    (h : ∀ i ∈ positions, ∃ t, P i t) (hinj : ∀ i j t, P i t → P j t → i = j)
    (hunique : ∀ i t t', P i t → P i t' → t = t') :
    ∃ voters : Finset τ, voters.card = positions.card ∧
      ∀ t, t ∈ voters ↔ ∃ i ∈ positions, P i t := by
  obtain ⟨voters, hcard, hvoters, hall⟩ := exists_voters h hinj
  refine ⟨voters, hcard, fun t => ⟨hvoters t, ?_⟩⟩
  rintro ⟨i, hi, ht⟩
  obtain ⟨t', ht', hP⟩ := hall i hi
  rwa [hunique i t t' ht hP]

theorem card_positions_le (x : BitVec w) : (positions x).card ≤ w :=
  (Finset.card_filter_le _ _).trans (Finset.card_range w).le

/-- There are as many positions as the population count says. Induction on the bits counted. -/
theorem card_positions (x : BitVec w) : (positions x).card = x.cpop.toNat := by
  have hbelow : ∀ n, ((Finset.range n).filter fun i => x.getLsbD i = true).card =
      x.cpopNatRec n 0 := by
    intro n
    induction n with
    | zero => rfl
    | succ n ih =>
        rw [Finset.range_add_one, Finset.filter_insert, BitVec.cpopNatRec_succ,
          BitVec.cpopNatRec_add, ← ih]
        cases x.getLsbD n with
        | false => simp
        | true => simp [Nat.add_comm]
  rw [BitVec.toNat_cpop]
  exact hbelow w

end BitSet

/-! ### Counters -/

/-- A counter of eight bits that has room counts on. -/
theorem UInt8.toNat_add_one {x : UInt8} (h : x.toNat + 1 < 2 ^ 8) :
    (x + 1).toNat = x.toNat + 1 := BitVec.toNat_add_of_lt (y := 1) h

/-- A counter of 64 bits that has room counts on. -/
theorem UInt64.toNat_add_one {x : UInt64} (h : x.toNat + 1 < 2 ^ 64) :
    (x + 1).toNat = x.toNat + 1 := BitVec.toNat_add_of_lt (y := 1) h
