import Ntt.Evm.Approval
import Ntt.Lib.Ballot

/-!
# Counting Votes on EVM Chains

The enabled transceivers and the votes for a digest are words of 64 bits. An index of eight bits
can be beyond them: `uint64(1 << index)` is zero then, and neither setting nor clearing it does
anything. A registry hands out no such index.

## Main results

* `maps_lawful`: the operations on the words are those of sets.
* `Storage.messageAttestationsCount_foldl`: what is counted of the votes that
  `_setTransceiverAttestedToMessage` builds.
* `NttManager.History.votes_counted`: in a run, the count is the number of enabled transceivers that voted.
-/

namespace Ntt

/-! ### Words -/

/-- The words of enabled transceivers and of votes. -/
def maps : Ballot.Bitmaps UInt8 64 where
  Map := UInt64
  bits := UInt64.toBitVec
  number := UInt8.toNat
  empty := 0
  set m index := some (m ||| Bitmap.bit index.toNat)
  clear m index := some (m &&& ~~~ Bitmap.bit index.toNat)
  count attested enabled := some (countSetBits (attested &&& enabled))

/-- The votes of enabled transceivers, as a number. -/
theorem toNat_countSetBits_and (attested enabled : UInt64) :
    (countSetBits (attested &&& enabled)).toNat =
      (BitSet.positions attested.toBitVec ∩ BitSet.positions enabled.toBitVec).card := by
  rw [toNat_countSetBits, Bitmap.length_members, UInt64.toBitVec_and, BitSet.positions_and]

theorem maps_lawful : maps.Lawful where
  positions_empty := BitSet.positions_zero
  positions_set m index := Bitmap.positions_or_bit m index.toNat
  positions_clear m index := Bitmap.positions_and_not_bit m index.toNat
  count_eq attested enabled := ⟨_, rfl, toNat_countSetBits_and attested enabled⟩

/-! ### Votes for a digest -/

/-- `_setTransceiverAttestedToMessage`, with an index. -/
def Storage.setTransceiverAttestedToMessage (st : Storage) (digest : Bytes32) (index : UInt8) :
    Storage :=
  let info := st.messageAttestations digest
  let attestedTransceivers := info.attestedTransceivers ||| Bitmap.bit index.toNat
  { st with messageAttestations :=
      Function.update st.messageAttestations digest { info with attestedTransceivers } }

/-- A vote of the log is this write. -/
theorem Action.apply_attest (st : Storage) (chain : UInt16) (source : Bytes32)
    (m : NttManagerMessage) (digest : Bytes32) (index : UInt8) :
    (Action.attest chain source m digest index).apply st =
      st.setTransceiverAttestedToMessage digest index := rfl

variable {st : Storage} {digest : Bytes32}

/-- Nothing else changes. -/
theorem Storage.foldl_setTransceiverAttestedToMessage (indices : List UInt8) :
    (indices.foldl (setTransceiverAttestedToMessage · digest ·) st).quorum = st.quorum := by
  induction indices generalizing st with
  | nil => rfl
  | cons index indices ih => exact ih

/-- The votes after any number of attestations: those that there were, and the indices that have
a bit. Induction on the attestations, the first of which is done on `st`. -/
theorem Storage.mem_attested_foldl {indices : List UInt8} {i : ℕ} :
    i ∈ Bitmap.members ((indices.foldl (setTransceiverAttestedToMessage · digest ·)
        st).messageAttestations digest).attestedTransceivers ↔
      i ∈ Bitmap.members (st.messageAttestations digest).attestedTransceivers ∨
        i < 64 ∧ ∃ index ∈ indices, index.toNat = i := by
  induction indices generalizing st with
  | nil => simp
  | cons index indices ih =>
      rw [List.foldl_cons, ih]
      simp only [setTransceiverAttestedToMessage, Function.update_self, Bitmap.mem_or,
        Bitmap.mem_bit, List.exists_mem_cons_iff, and_or_left, or_assoc]
      refine or_congr_right (or_congr_left (and_congr_left ?_))
      rintro rfl
      rfl

/-- The count after any number of attestations. -/
theorem Storage.messageAttestationsCount_foldl (st : Storage) (digest : Bytes32)
    (indices : List UInt8) : ∃ counted : Finset ℕ,
      ((indices.foldl (setTransceiverAttestedToMessage · digest ·)
        st).messageAttestationsCount digest).toNat = counted.card ∧
      ∀ i, i ∈ counted ↔ i ∈ Bitmap.members st.registry.bitmap ∧
        (i ∈ Bitmap.members (st.messageAttestations digest).attestedTransceivers ∨
          i < 64 ∧ ∃ index ∈ indices, index.toNat = i) := by
  refine ⟨_, toNat_countSetBits_and _ _, fun i => ?_⟩
  rw [Finset.mem_inter, Bitmap.mem_positions, Bitmap.mem_positions, mem_attested_foldl, registry,
    foldl_setTransceiverAttestedToMessage, and_comm]

/-! ### Runs -/

/-- An action takes no vote back. -/
theorem Action.attested_subset (a : Action) (st : Storage) (d : Bytes32) {i : ℕ}
    (hi : i ∈ Bitmap.members (st.messageAttestations d).attestedTransceivers) :
    i ∈ Bitmap.members ((a.apply st).messageAttestations d).attestedTransceivers := by
  cases a with
  | attest chain source m d' index =>
      by_cases hd : d = d'
      · subst hd
        simp only [apply, Function.update_self]
        exact Bitmap.mem_or.mpr (.inl hi)
      · simpa only [apply, Function.update_of_ne hd] using hi
  | execute chain source m d' =>
      by_cases hd : d = d'
      · subst hd
        simpa only [apply, Function.update_self] using hi
      · simpa only [apply, Function.update_of_ne hd] using hi
  | _ => exact hi

/-- The log entry is a vote of a transceiver for a digest. -/
def LogEntry.Attests (e : LogEntry) (voter : Address) (digest : Bytes32) : Prop :=
  e.ctx.sender = voter ∧ ∃ chain source m index, e.act = .attest chain source m digest index

namespace NttManager

variable {M : NttManager} {R : Rules} {owner : Address} {limit : RateLimitParams}
  {log : List LogEntry} {st : Storage} {d : Bytes32}

/-- The bit of every vote in the log is set, at the position of its voter. -/
theorem History.bit_of_vote (h : M.History R (.initial owner limit) log st) {e : LogEntry}
    (he : e ∈ log) {v : Address} (hv : e.Attests v d) :
    ∃ i ∈ Bitmap.members (st.messageAttestations d).attestedTransceivers,
      e.pre.registry.registeredTransceivers[i]? = some v := by
  induction h with
  | nil => cases he
  | @cons log st ctx a hlog ha ih =>
      rcases List.mem_cons.mp he with rfl | he
      · obtain ⟨rfl, chain, source, m, index, rfl⟩ := hv
        obtain ⟨-, henabled, rfl, -⟩ := ha
        have hget := registered_get_index hlog.quorum_inv.registry henabled
        have hlt : (st.registry.index ctx.sender).toNat < 64 :=
          (List.getElem?_eq_some_iff.mp hget).1.trans_le hlog.quorum_inv.registry.registered_le
        refine ⟨_, ?_, hget⟩
        simp only [Action.apply, Function.update_self]
        exact (Bitmap.mem_or_bit hlt).mpr (.inr rfl)
      · obtain ⟨i, hi, hget⟩ := ih he
        exact ⟨i, a.attested_subset st d hi, hget⟩

/-- A position that was taken at an action is taken by the same transceiver since. -/
theorem History.registered_get_of_mem (h : M.History R (.initial owner limit) log st)
    {e : LogEntry} (he : e ∈ log) {i : ℕ} {v : Address}
    (hv : e.pre.registry.registeredTransceivers[i]? = some v) :
    st.registry.registeredTransceivers[i]? = some v := by
  obtain ⟨rest, hrest⟩ := h.registered_prefix he
  rw [← hrest, List.getElem?_append_left (List.getElem?_eq_some_iff.mp hv).1, hv]

/-- **The count of a digest is a number of transceivers:** those that are enabled and have voted
for it. -/
theorem History.votes_counted (h : M.History R (.initial owner limit) log st) (d : Bytes32) :
    ∃ voters : Finset Address, (st.messageAttestationsCount d).toNat = voters.card ∧
      ∀ v, v ∈ voters ↔ v ∈ st.registry.enabledTransceivers ∧ ∃ e ∈ log, e.Attests v d := by
  have hinv := h.quorum_inv.registry
  set attested := (st.messageAttestations d).attestedTransceivers
  -- the voter of a bit is the transceiver at its position
  obtain ⟨voters, hcard, hvoters⟩ := BitSet.exists_voters_iff
    (BitSet.positions attested.toBitVec ∩ BitSet.positions st.registry.bitmap.toBitVec)
    (P := fun i v => st.registry.registeredTransceivers[i]? = some v)
    (fun i hi => by
      have henabled := Bitmap.mem_positions.mp (Finset.mem_inter.mp hi).2
      obtain ⟨v, hv, -⟩ := (hinv.mem_bitmap i).mp henabled
      exact ⟨v, hv⟩)
    (fun i j v hi hj =>
      ((hinv.registered_get i v).mp hi).2.symm.trans ((hinv.registered_get j v).mp hj).2)
    (fun i v v' hv hv' => Option.some.inj (hv.symm.trans hv'))
  refine ⟨voters, ?_, fun v => ?_⟩
  · rw [hcard]
    exact toNat_countSetBits_and attested st.registry.bitmap
  rw [hvoters]
  constructor
  · rintro ⟨i, hi, hv⟩
    obtain ⟨hattested, henabled⟩ := Finset.mem_inter.mp hi
    obtain ⟨w, hw, hen⟩ := (hinv.mem_bitmap i).mp (Bitmap.mem_positions.mp henabled)
    obtain rfl : w = v := Option.some.inj (hw.symm.trans hv)
    refine ⟨(hinv.mem_enabled w).mpr ⟨((hinv.registered_get i w).mp hv).1, hen⟩, ?_⟩
    obtain ⟨e, he, chain, m, index, -, hact, -, hpos⟩ :=
      h.vote_of_bit (Bitmap.mem_positions.mp hattested)
    have hsender := Option.some.inj ((h.registered_get_of_mem he hpos).symm.trans hv)
    exact ⟨e, he, hsender, chain, _, m, index, hact⟩
  · rintro ⟨hen, e, he, hvote⟩
    obtain ⟨i, hattested, hpos⟩ := h.bit_of_vote he hvote
    have hv := h.registered_get_of_mem he hpos
    have henabled := (hinv.mem_bitmap i).mpr ⟨v, hv, ((hinv.mem_enabled v).mp hen).2⟩
    exact ⟨i, Finset.mem_inter.mpr
      ⟨Bitmap.mem_positions.mpr hattested, Bitmap.mem_positions.mpr henabled⟩, hv⟩

end NttManager

end Ntt
