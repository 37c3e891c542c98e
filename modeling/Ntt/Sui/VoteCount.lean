import Ntt.Lib.Ballot
import Ntt.Sui.Approval

/-!
# Counting Votes on Sui

An index of eight bits can be beyond the bitmap: the shift that makes its mask aborts then, and the
call with it. A registry hands out no such index, but the admin can try to enable one.

## Main results

* `maps_lawful`: the operations on the bitmaps are those of sets.
* `State.votes_counted`: in a run, the count is the number of enabled transceivers that voted.
-/

namespace Ntt.Sui

namespace Bitmap

variable {self : Bitmap} {index : UInt8}

/-- Only an index beyond the bitmap has no mask. -/
theorem le_of_bitmask_eq_error {e : Abort} (h : bitmask index = .error e) : 128 ≤ index.toNat := by
  by_contra hlt
  rw [bitmask_eq_ok.mpr ⟨not_le.mp hlt, rfl⟩] at h
  cases h

theorem le_of_enable_eq_error {e : Abort} (h : self.enable index = .error e) :
    128 ≤ index.toNat := by
  cases hmask : bitmask index with
  | ok mask =>
      rw [enable, hmask] at h
      cases h
  | error e => exact le_of_bitmask_eq_error hmask

theorem le_of_disable_eq_error {e : Abort} (h : self.disable index = .error e) :
    128 ≤ index.toNat := by
  cases hmask : bitmask index with
  | ok mask =>
      rw [disable, hmask] at h
      cases h
  | error e => exact le_of_bitmask_eq_error hmask

theorem toNat_countOnes_and (a b : Bitmap) :
    (a.and b).countOnes.toNat = (a.positions ∩ b.positions).card := by
  rw [toNat_countOnes, positions_and]

end Bitmap

/-- The bitmaps of enabled transceivers and of votes. -/
def maps : Ballot.Bitmaps UInt8 128 where
  Map := Bitmap
  bits := Bitmap.bitmap
  number := UInt8.toNat
  empty := .empty
  set m index := (m.enable index).toOption
  clear m index := (m.disable index).toOption
  count votes enabled := some (votes.and enabled).countOnes

theorem maps_lawful : maps.Lawful where
  positions_empty := BitSet.positions_zero
  positions_set _ _ := Ballot.Bitmaps.positions_getD_set
    (fun _ h => ⟨(Bitmap.enable_eq_ok.mp h).1, Bitmap.positions_enable h⟩)
    (fun _ h => Bitmap.le_of_enable_eq_error h)
  positions_clear _ _ := Ballot.Bitmaps.positions_getD_clear
    (fun _ h => Bitmap.positions_disable h)
    (fun _ h => Bitmap.le_of_disable_eq_error h)
  count_eq votes enabled := ⟨_, rfl, Bitmap.toNat_countOnes_and votes enabled⟩

/-! ### Runs -/

namespace State

variable {τ : Type} [DecidableEq τ] {F : Framework} {W : Wormhole} {s s' s₀ : State τ}
  {calls : List (UInt64 × Op τ)} {t : τ} {key : InboxKey}

/-- A transceiver is registered, and has its bit in the votes for a message. -/
def HasVote (t : τ) (info : TransceiverInfo) (key : InboxKey) (s : State τ) : Prop :=
  (t, info) ∈ s.transceivers.transceivers ∧ info.id.toNat ∈ (s.itemFor key).votes.positions

/-- A vote stays, and the transceiver keeps its bit. -/
theorem HasVote.next {info : TransceiverInfo} (hs : HasVote t info key s) (o : UInt64 × Op τ) :
    HasVote t info key ((Manager.machine F W).next s o) := by
  refine Transducer.ofExcept_next hs fun s' paid h => ?_
  refine ⟨registered_of_apply h hs.1, ?_⟩
  obtain hsame | ⟨_, _, _, _, -, -, -, hpos, -⟩ | ⟨hsame, -⟩ := inbox_cases h key
  · rw [hsame]
    exact hs.2
  · rw [hpos]
    exact Finset.mem_insert_of_mem hs.2
  · rw [hsame]
    exact hs.2

omit [DecidableEq τ] in
/-- A message is in the form of one item. -/
theorem Redeems.key_unique {validatedMessage : ValidatedTransceiverMessage} {key' : InboxKey}
    (h : Redeems W s validatedMessage key) (h' : Redeems W s validatedMessage key') :
    key = key' := by
  obtain ⟨chainId, message⟩ := key
  obtain ⟨chainId', message'⟩ := key'
  have hchain : chainId = chainId' := h.chain.symm.trans h'.chain
  have hmessage : message = message' := Except.ok.inj (h.message.symm.trans h'.message)
  rw [hchain, hmessage]

/-- A redemption leaves the bit of its transceiver in the votes of its item. -/
theorem votes_redeem {validatedMessage : ValidatedTransceiverMessage} {decimals : UInt8}
    {now : UInt64} (h : s.redeem W now t validatedMessage decimals = .ok s') :
    ∃ key info, Redeems W s validatedMessage key ∧ (t, info) ∈ s.transceivers.transceivers ∧
      info.id.toNat ∈ (s'.itemFor key).votes.positions := by
  obtain ⟨key, s₁, hredeems, hvote, hafter⟩ := redeem_spec h
  obtain ⟨info, votes, hinfo, hvotes, hs₁⟩ := vote_spec hvote
  have hmem : info.id.toNat ∈ (s₁.itemFor key).votes.positions := by
    rw [hs₁, itemFor_setInboxItem, if_pos rfl, Bitmap.positions_enable hvotes]
    exact Finset.mem_insert_self _ _
  refine ⟨key, info, hredeems, hinfo, ?_⟩
  obtain rfl | ⟨s₂, item, _, _, hitem, -, -, -, -, rfl⟩ := hafter
  · exact hmem
  · -- an approval keeps the votes of the item that was voted for
    rw [itemFor, hitem] at hmem
    rwa [itemFor_setInboxItem, if_pos rfl]

/-- Every vote that was cast has its bit. -/
theorem Voted.hasVote (h : Voted F W s₀ calls t key) :
    ∃ info, HasVote t info key ((Manager.machine F W).run s₀ calls) := by
  obtain ⟨before, o, after, rfl, validatedMessage, decimals, s', hop, hredeem, hredeems⟩ := h
  obtain ⟨key', info, hredeems', hinfo, hmem⟩ := votes_redeem hredeem
  obtain rfl := hredeems.key_unique hredeems'
  have hstep : ((Manager.machine F W).run s₀ before).apply F W o.1 o.2 = .ok (s', none) := by
    rw [hop]
    exact Except.return_eq_ok.mpr ⟨hredeem, rfl⟩
  have hvote : HasVote t info key s' := ⟨registered_of_apply hstep hinfo, hmem⟩
  refine ⟨info, Transducer.run_of_next (fun s o hs => hs.next o) ?_⟩
  rw [Manager.machine, (Transducer.ofExcept_of_ok hstep).1]
  exact hvote

/-- **The count of an item is a number of transceivers:** those that are registered and enabled,
and have voted for its message. -/
theorem votes_counted (F : Framework) (W : Wormhole) (hgov : s₀.Governed)
    (h₀ : ∀ key, (s₀.itemFor key).votes.positions = ∅) (calls : List (UInt64 × Op τ))
    (key : InboxKey) :
    let s := (Manager.machine F W).run s₀ calls
    ∃ voters : Finset τ,
      ((s.itemFor key).countEnabledVotes s.transceivers.enabledBitmap).toNat = voters.card ∧
        ∀ t, t ∈ voters ↔
          (∃ info, (t, info) ∈ s.transceivers.transceivers ∧
            info.id.toNat ∈ s.transceivers.enabledBitmap.positions) ∧
          Voted F W s₀ calls t key := by
  intro s
  have hreg := (governed_run F W hgov calls).registry
  have hvotes := votes_accounted F W h₀ calls key
  -- the voter of a bit is the transceiver that has it as its id
  obtain ⟨voters, hcard, hvoters⟩ := BitSet.exists_voters_iff
    ((s.itemFor key).votes.positions ∩ s.transceivers.enabledBitmap.positions)
    (P := fun i t => ∃ info, (t, info) ∈ s.transceivers.transceivers ∧ info.id.toNat = i)
    (fun i hi => by
      obtain ⟨t, info, hinfo, hid, -⟩ := hvotes i (Finset.mem_inter.mp hi).1
      exact ⟨t, info, hinfo, hid⟩)
    (fun i j t hi hj => by
      obtain ⟨info, hinfo, rfl⟩ := hi
      obtain ⟨info', hinfo', rfl⟩ := hj
      rw [hreg.info_unique hinfo hinfo'])
    (fun i t t' ht ht' => by
      obtain ⟨info, hinfo, rfl⟩ := ht
      obtain ⟨info', hinfo', hid⟩ := ht'
      exact hreg.type_unique hinfo hinfo' (UInt8.toNat_inj.mp hid.symm))
  refine ⟨voters, ?_, fun t => ?_⟩
  · rw [hcard]
    exact Bitmap.toNat_countOnes_and _ _
  rw [hvoters]
  constructor
  · rintro ⟨i, hi, info, hinfo, rfl⟩
    obtain ⟨hvote, henabled⟩ := Finset.mem_inter.mp hi
    obtain ⟨t', info', hinfo', hid, hvoted⟩ := hvotes _ hvote
    obtain rfl := hreg.type_unique hinfo' hinfo (UInt8.toNat_inj.mp hid)
    exact ⟨⟨info, hinfo, henabled⟩, hvoted⟩
  · rintro ⟨⟨info, hinfo, henabled⟩, hvoted⟩
    obtain ⟨info', hinfo', hvote⟩ := hvoted.hasVote
    obtain rfl := hreg.info_unique hinfo' hinfo
    exact ⟨_, Finset.mem_inter.mpr ⟨hvote, henabled⟩, info', hinfo, rfl⟩

end State

end Ntt.Sui
