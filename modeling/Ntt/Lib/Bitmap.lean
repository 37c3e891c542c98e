import Mathlib.Data.Nat.BitIndices
import Mathlib.Data.Nat.Bitwise
import Mathlib.Tactic.Common
import Ntt.Lib.BitSet

/-!
# 64-bit Bitmaps as Sets

A `UInt64` read as the set of its bit positions. `Bitmap.bit i` is the word with the one bit
`i`, and zero when `i` is not below 64, as the truncation of a shifted one is. Union and
removal are the bitwise operations, and the number of members is what the loop that clears the
lowest bit until nothing is left counts.

## Main results

* `Bitmap.mem_or_bit`, `Bitmap.mem_and_not_bit`, `Bitmap.mem_and`: membership.
* `Bitmap.clear_lowest`: `x & (x - 1)` removes one member.
-/

/-- Clearing the lowest bit drops the head of the list of set bits. Binary induction. -/
theorem Nat.bitIndices_and_pred {n : ℕ} (hn : n ≠ 0) :
    (n &&& (n - 1)).bitIndices = n.bitIndices.tail := by
  induction n using Nat.binaryRec with
  | zero => exact absurd rfl hn
  | bit b m ih =>
      cases b with
      | true =>
          have hpred : Nat.bit true m - 1 = Nat.bit false m := by simp [Nat.bit]
          rw [hpred, Nat.land_bit, Nat.and_self, Bool.true_and, Nat.bitIndices_bit_false,
            Nat.bitIndices_bit_true, List.tail_cons]
      | false =>
          have hm : m ≠ 0 := by rintro rfl; exact hn rfl
          have hpred : Nat.bit false m - 1 = Nat.bit true (m - 1) := by
            simp only [Nat.bit, cond_false, cond_true]
            omega
          rw [hpred, Nat.land_bit, Bool.false_and, Nat.bitIndices_bit_false,
            Nat.bitIndices_bit_false, ih hm, List.map_tail]

namespace Bitmap

/-- The bit `i`, or nothing when the word has no such bit. -/
def bit (i : ℕ) : UInt64 := UInt64.ofNat (2 ^ i)

/-- The positions of the bits that are set, in increasing order. -/
def members (b : UInt64) : List ℕ := b.toNat.bitIndices

theorem mem_members {b : UInt64} {i : ℕ} : i ∈ members b ↔ b.toBitVec.getLsbD i = true := by
  rw [members, Nat.mem_bitIndices, ← UInt64.toNat_toBitVec, BitVec.testBit_toNat]

theorem members_nodup (b : UInt64) : (members b).Nodup := Nat.bitIndices_nodup

theorem lt_of_mem {b : UInt64} {i : ℕ} (h : i ∈ members b) : i < 64 :=
  BitVec.lt_of_getLsbD (mem_members.mp h)

@[simp] theorem mem_zero {i : ℕ} : i ∉ members 0 := by
  simp [mem_members]

theorem toBitVec_bit (i : ℕ) : (bit i).toBitVec = BitVec.twoPow 64 i := by
  apply BitVec.eq_of_toNat_eq
  rw [BitVec.toNat_twoPow, UInt64.toNat_toBitVec, bit, UInt64.toNat_ofNat']

theorem mem_bit {i j : ℕ} : j ∈ members (bit i) ↔ i < 64 ∧ i = j := by
  rw [mem_members, toBitVec_bit, BitVec.getLsbD_twoPow, Bool.and_eq_true, decide_eq_true_eq,
    decide_eq_true_eq]

theorem mem_or {a b : UInt64} {i : ℕ} : i ∈ members (a ||| b) ↔ i ∈ members a ∨ i ∈ members b := by
  simp [mem_members]

theorem mem_and {a b : UInt64} {i : ℕ} : i ∈ members (a &&& b) ↔ i ∈ members a ∧ i ∈ members b := by
  simp [mem_members]

/-- Setting a bit adds it. -/
theorem mem_or_bit {b : UInt64} {i j : ℕ} (hi : i < 64) :
    j ∈ members (b ||| bit i) ↔ j ∈ members b ∨ i = j := by
  rw [mem_or, mem_bit]
  simp [hi]

/-- Clearing a bit removes it. -/
theorem mem_and_not_bit {b : UInt64} {i j : ℕ} :
    j ∈ members (b &&& ~~~ bit i) ↔ j ∈ members b ∧ i ≠ j := by
  simp only [mem_members, UInt64.toBitVec_and, UInt64.toBitVec_not, toBitVec_bit,
    BitVec.getLsbD_and, BitVec.getLsbD_not, BitVec.getLsbD_twoPow, Bool.and_eq_true]
  constructor
  · rintro ⟨hb, h⟩
    refine ⟨hb, ?_⟩
    rintro rfl
    simp [BitVec.lt_of_getLsbD hb] at h
  · rintro ⟨hb, h⟩
    simp [BitVec.lt_of_getLsbD hb, hb, h]

/-- Two words with the same members are the same. -/
theorem ext {a b : UInt64} (h : ∀ i, i ∈ members a ↔ i ∈ members b) : a = b := by
  apply UInt64.toBitVec_inj.mp
  apply BitVec.eq_of_getLsbD_eq
  intro i _
  rw [Bool.eq_iff_iff]
  exact mem_members.symm.trans ((h i).trans mem_members)

/-- The test of a bit. -/
theorem and_bit_ne_zero {b : UInt64} {i : ℕ} : b &&& bit i ≠ 0 ↔ i ∈ members b := by
  constructor
  · intro hne
    by_contra hi
    refine hne (ext fun j => ?_)
    rw [mem_and, mem_bit]
    constructor
    · rintro ⟨hb, -, rfl⟩
      exact absurd hb hi
    · intro h
      exact absurd h mem_zero
  · intro hi h0
    have : i ∈ members (b &&& bit i) := mem_and.mpr ⟨hi, mem_bit.mpr ⟨lt_of_mem hi, rfl⟩⟩
    rw [h0] at this
    exact mem_zero this

/-- Setting a bit that is set changes nothing, and setting another one does. -/
theorem or_bit_eq_self {b : UInt64} {i : ℕ} (hi : i < 64) : b ||| bit i = b ↔ i ∈ members b := by
  constructor
  · intro h
    rw [← h, mem_or_bit hi]
    exact .inr rfl
  · intro h
    refine ext fun j => ?_
    rw [mem_or_bit hi]
    constructor
    · rintro (hj | rfl)
      · exact hj
      · exact h
    · exact .inl

/-- Clearing a bit that is set makes the word smaller. -/
theorem and_not_bit_lt {b : UInt64} {i : ℕ} (hi : i ∈ members b) : b &&& ~~~ bit i < b := by
  rw [UInt64.lt_iff_toNat_lt]
  have hle : (b &&& ~~~ bit i).toNat ≤ b.toNat := by
    rw [UInt64.toNat_and]
    exact Nat.and_le_left
  refine lt_of_le_of_ne hle fun heq => ?_
  have hsame : b &&& ~~~ bit i = b := UInt64.toNat_inj.mp heq
  rw [← hsame, mem_and_not_bit] at hi
  exact hi.2 rfl

/-- Clearing the lowest bit removes one member. -/
theorem clear_lowest {b : UInt64} (hb : b ≠ 0) : members (b &&& (b - 1)) = (members b).tail := by
  have hn : b.toNat ≠ 0 := fun h => hb (UInt64.toNat_inj.mp h)
  have hsub : (b - 1).toNat = b.toNat - 1 :=
    UInt64.toNat_sub_of_le b 1 (UInt64.le_iff_toNat_le.mpr (Nat.one_le_iff_ne_zero.mpr hn))
  rw [members, members, UInt64.toNat_and, hsub, Nat.bitIndices_and_pred hn]

theorem members_eq_nil {b : UInt64} : members b = [] ↔ b = 0 := by
  constructor
  · intro h
    exact ext fun i => by simp [h]
  · rintro rfl
    rfl

/-- The members are the positions of the word. -/
theorem mem_positions {b : UInt64} {i : ℕ} :
    i ∈ BitSet.positions b.toBitVec ↔ i ∈ members b := BitSet.mem_positions.trans mem_members.symm

/-- Setting a bit adds its position, if there is one. -/
theorem positions_or_bit (b : UInt64) (i : ℕ) : BitSet.positions (b ||| bit i).toBitVec =
    if i < 64 then insert i (BitSet.positions b.toBitVec) else BitSet.positions b.toBitVec := by
  ext j
  rw [mem_positions, mem_or, mem_bit]
  split
  · rename_i hlt
    rw [Finset.mem_insert, mem_positions, and_iff_right hlt, or_comm, eq_comm]
  · rename_i hge
    rw [mem_positions]
    exact or_iff_left fun h => hge h.1

/-- Clearing a bit removes its position. -/
theorem positions_and_not_bit (b : UInt64) (i : ℕ) :
    BitSet.positions (b &&& ~~~ bit i).toBitVec = (BitSet.positions b.toBitVec).erase i := by
  ext j
  rw [mem_positions, mem_and_not_bit, Finset.mem_erase, mem_positions, and_comm, ne_comm]

theorem length_members (b : UInt64) :
    (members b).length = (BitSet.positions b.toBitVec).card := by
  rw [← List.toFinset_card_of_nodup (members_nodup b)]
  congr 1
  ext i
  rw [List.mem_toFinset, mem_positions]

/-- At most 64 positions. -/
theorem length_members_le (b : UInt64) : (members b).length ≤ 64 := by
  rw [length_members]
  exact BitSet.card_positions_le _

end Bitmap
