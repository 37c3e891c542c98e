import Ntt.Evm.VoteCount
import Ntt.Solana.VoteCount
import Ntt.Sui.VoteCount

/-!
# Vote Counts on EVM, Solana and Sui

The three runtimes keep the votes and the enabled transceivers in two words, and count what is set
in both. The contracts clear the lowest bit of 64 until none is left, the Sui package shifts a mask
over 128 bits, and the Solana program asks the crate `bitmaps`. All of them take the population
count, so after any enabling, disabling and voting they count the enabled transceivers that voted.

## Main results

* `vote_counts`: the counts of the three runtimes, and the rounds of the two loops.
-/

namespace Ntt

/-- **Vote counts are population counts.** On each runtime, for any two maps, the count is the
number of indices that are set in both, and after any enabling, disabling and voting these are the
indices that are enabled and have voted. On EVM chains that holds of the votes for a digest that
any attestations build, whatever there was before. The loop of the contracts ends, after one round
for each bit that is set; that of Sui ends after one round for each position. -/
theorem vote_counts {B : Solana.BM} (hB : B.Lawful) :
    (maps.Exact ∧ (Solana.maps B).Exact ∧ Sui.maps.Exact) ∧
    (∀ (st : Storage) (digest : Bytes32) (indices : List UInt8), ∃ counted : Finset ℕ,
      ((indices.foldl (Storage.setTransceiverAttestedToMessage · digest ·)
        st).messageAttestationsCount digest).toNat = counted.card ∧
      ∀ i, i ∈ counted ↔ i ∈ Bitmap.members st.registry.bitmap ∧
        (i ∈ Bitmap.members (st.messageAttestations digest).attestedTransceivers ∨
          i < 64 ∧ ∃ index ∈ indices, index.toNat = i)) ∧
    (∀ x : UInt64, (countSetBits x).toNat = x.toBitVec.cpop.toNat ∧
      ∀ n v, countSetBitsWhile.Run ⟨x, 0⟩ n v ↔
        n = x.toBitVec.cpop.toNat ∧ v = ⟨0, countSetBits x⟩) ∧
    (∀ self : Solana.Bitmap, ∃ n, self.lenBy B = some n ∧ n.toNat = self.map.cpop.toNat) ∧
    ∀ self : Sui.Bitmap, self.countOnes.toNat = self.bitmap.cpop.toNat ∧
      ∀ n v, self.countOnesWhile.Run ⟨0, 1, 0⟩ n v ↔ n = 128 ∧ v = ⟨self.countOnes, 0, 128⟩ := by
  refine ⟨⟨maps_lawful.exact, (Solana.maps_lawful hB).exact, Sui.maps_lawful.exact⟩,
    Storage.messageAttestationsCount_foldl, fun x => ?_, fun self => ?_, fun self => ?_⟩
  · have hbits : (Bitmap.members x).length = x.toBitVec.cpop.toNat := by
      rw [Bitmap.length_members, BitSet.card_positions]
    rw [← hbits]
    exact ⟨toNat_countSetBits x, fun n v => countSetBitsWhile_run_iff⟩
  · refine ⟨self.len, Solana.Bitmap.lenBy_eq hB, ?_⟩
    rw [Solana.Bitmap.toNat_len]
    exact BitSet.card_positions self.map
  · refine ⟨?_, fun n v => Sui.Bitmap.countOnesWhile_run_iff⟩
    rw [Sui.Bitmap.toNat_countOnes]
    exact BitSet.card_positions self.bitmap

/-- Two votes and two enabled transceivers, of which one has voted; and a word with three bits. -/
theorem sample_vote_counts :
    (∃ n, (Solana.maps .reference).count ⟨0b101⟩ ⟨0b110⟩ = some n ∧ n.toNat = 1) ∧
      countSetBitsWhile.Run ⟨0b1011, 0⟩ 3 ⟨0, 3⟩ := by
  obtain ⟨⟨-, hsolana, -⟩, -, hevm, -, -⟩ := vote_counts Solana.BM.reference_lawful
  obtain ⟨n, hn, hcard⟩ := hsolana.count ⟨0b101⟩ ⟨0b110⟩
  have hone : (BitSet.positions 0b101#128 ∩ BitSet.positions 0b110#128).card = 1 := by
    decide +kernel
  exact ⟨⟨n, hn, hcard.trans hone⟩, ((hevm 0b1011).2 3 ⟨0, 3⟩).mpr ⟨by decide, by decide⟩⟩

end Ntt
