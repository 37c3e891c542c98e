import Ntt.Lib.Ballot
import Ntt.Solana.Inbox

/-!
# Counting Votes on Solana

The bitmaps of the program are made of those of the crate `bitmaps`, which is not part of the
repository. `BM` is what the program uses of `bitmaps::Bitmap<128>`, and `BM.Lawful` what its
documentation says. The functions of the program are here over any such crate; over a lawful one
they are those of `Ntt.Solana.Accounts`.

## Main results

* `Bitmap.setBy_eq`, `Bitmap.getBy_eq`, `Bitmap.lenBy_eq`, `Bitmap.countEnabledVotesBy_eq`: the
  functions over a lawful crate.
* `maps_lawful`: the operations on the maps are those of sets.
* `State.votes_counted`: in a run, the count is the number of enabled transceivers that voted.
-/

namespace Ntt.Solana

/-! ### The crate -/

/-- What the program uses of `bitmaps::Bitmap<128>`. -/
structure BM where
  Bitmap : Type
  fromValue : BitVec 128 → Bitmap
  asValue : Bitmap → BitVec 128
  get : Bitmap → ℕ → Bool
  set : Bitmap → ℕ → Bool → Bitmap
  bitand : Bitmap → Bitmap → Bitmap
  len : Bitmap → ℕ

namespace BM

/-- The documentation of the crate, for indices that it has. -/
structure Lawful (B : BM) : Prop where
  /-- A bitmap that is made from a value has its bits. -/
  get_fromValue : ∀ x i, i < 128 → B.get (B.fromValue x) i = x.getLsbD i
  /-- A bitmap is converted into the value with its bits. -/
  getLsbD_asValue : ∀ b i, i < 128 → (B.asValue b).getLsbD i = B.get b i
  /-- Setting the bit at an index changes that bit. -/
  get_set : ∀ b i value j, i < 128 → j < 128 →
    B.get (B.set b i value) j = if j = i then value else B.get b j
  get_bitand : ∀ a b i, i < 128 → B.get (B.bitand a b) i = (B.get a i && B.get b i)
  /-- The length is the number of bits that are true. -/
  len_eq : ∀ b, B.len b = ((Finset.range 128).filter fun i => B.get b i = true).card

/-- A crate that keeps the value, and takes its population count. -/
def reference : BM where
  Bitmap := BitVec 128
  fromValue x := x
  asValue x := x
  get x i := x.getLsbD i
  set x i value := if value then x ||| BitVec.twoPow 128 i else x &&& ~~~ BitVec.twoPow 128 i
  bitand a b := a &&& b
  len x := x.cpop.toNat

theorem reference_lawful : reference.Lawful where
  get_fromValue _ _ _ := rfl
  getLsbD_asValue _ _ _ := rfl
  get_set _ _ value _ _ hj := BitSet.getLsbD_write value hj
  get_bitand _ _ _ _ := BitVec.getLsbD_and
  len_eq x := (BitSet.card_positions x).symm

end BM

/-! ### The functions of the program -/

namespace Bitmap

variable (B : BM) (self : Bitmap) (index : UInt8)

/-- `set`, by the crate. -/
def setBy (value : Bool) : Except NTTError Bitmap :=
  if index ≥ BITS then .error .bitmapIndexOutOfBounds
  else
    let bm := B.fromValue self.map
    let bm := B.set bm index.toNat value
    .ok ⟨B.asValue bm⟩

/-- `get`, by the crate. -/
def getBy : Except NTTError Bool :=
  if index ≥ BITS then .error .bitmapIndexOutOfBounds
  else .ok (B.get (B.fromValue self.map) index.toNat)

/-- `try_into` of a length, which panics when it does not fit eight bits. -/
def expectU8 (n : ℕ) : Option UInt8 := if n < 2 ^ 8 then some (UInt8.ofNat n) else none

/-- `len`, by the crate. -/
def lenBy : Option UInt8 := expectU8 (B.len (B.fromValue self.map))

/-- `count_enabled_votes`, by the crate. -/
def countEnabledVotesBy (enabled : Bitmap) : Option UInt8 :=
  let bm := B.bitand (B.fromValue self.map) (B.fromValue enabled.map)
  expectU8 (B.len bm)

variable {B self index} (hB : B.Lawful)
include hB

theorem setBy_eq (value : Bool) : self.setBy B index value = self.set index value := by
  rw [setBy, set]
  split
  · rfl
  · rename_i h
    have hindex := index_lt h
    have hmap : B.asValue (B.set (B.fromValue self.map) index.toNat value) =
        if value then self.map ||| BitVec.twoPow 128 index.toNat
        else self.map &&& ~~~ BitVec.twoPow 128 index.toNat := by
      apply BitVec.eq_of_getLsbD_eq
      intro j hj
      rw [hB.getLsbD_asValue _ j hj, hB.get_set _ _ _ j hindex hj, hB.get_fromValue _ j hj,
        BitSet.getLsbD_write value hj]
    simp only [hmap]
    split <;> rfl

theorem getBy_eq : self.getBy B index = self.get index := by
  rw [getBy, get]
  split
  · rfl
  · rename_i h
    rw [hB.get_fromValue _ _ (index_lt h)]

/-- A bitmap of the crate is as long as it has positions that are true. -/
theorem expectU8_len {b : B.Bitmap} {bitmap : Bitmap}
    (h : ∀ i, i < 128 → B.get b i = bitmap.map.getLsbD i) :
    expectU8 (B.len b) = some bitmap.len := by
  have hlen : B.len b = bitmap.positions.card := by
    rw [hB.len_eq]
    congr 1
    exact Finset.filter_congr fun i hi => by rw [h i (Finset.mem_range.mp hi)]
  have hle : bitmap.positions.card ≤ 128 := BitSet.card_positions_le bitmap.map
  rw [hlen, expectU8, if_pos (by omega)]
  rfl

theorem lenBy_eq : self.lenBy B = some self.len := expectU8_len hB (hB.get_fromValue self.map)

theorem countEnabledVotesBy_eq {enabled : Bitmap} :
    self.countEnabledVotesBy B enabled = some (self.countEnabledVotes enabled) := by
  refine expectU8_len hB fun i hi => ?_
  rw [hB.get_bitand _ _ i hi, hB.get_fromValue _ i hi, hB.get_fromValue _ i hi]
  exact BitVec.getLsbD_and.symm

omit hB in
/-- Only an index beyond the bitmap is refused. -/
theorem le_of_set_eq_error {value : Bool} {e : NTTError} (h : self.set index value = .error e) :
    128 ≤ index.toNat := by
  rw [set] at h
  split at h
  · rename_i hge
    exact UInt8.le_iff_toNat_le.mp hge
  · cases value <;> cases h

end Bitmap

/-- The maps of enabled transceivers and of votes. -/
def maps (B : BM) : Ballot.Bitmaps UInt8 128 where
  Map := Bitmap
  bits := Bitmap.map
  number := UInt8.toNat
  empty := .new
  set m index := (m.setBy B index true).toOption
  clear m index := (m.setBy B index false).toOption
  count votes enabled := votes.countEnabledVotesBy B enabled

theorem maps_lawful {B : BM} (hB : B.Lawful) : (maps B).Lawful where
  positions_empty := Bitmap.positions_new
  positions_set _ _ := Ballot.Bitmaps.positions_getD_set
    (fun _ h => Bitmap.positions_set_true (Bitmap.setBy_eq hB true ▸ h))
    (fun _ h => Bitmap.le_of_set_eq_error (Bitmap.setBy_eq hB true ▸ h))
  positions_clear _ _ := Ballot.Bitmaps.positions_getD_clear
    (fun _ h => Bitmap.positions_set_false (Bitmap.setBy_eq hB false ▸ h))
    (fun _ h => Bitmap.le_of_set_eq_error (Bitmap.setBy_eq hB false ▸ h))
  count_eq _ _ := ⟨_, Bitmap.countEnabledVotesBy_eq hB, Bitmap.toNat_countEnabledVotes⟩

/-! ### Runs -/

namespace State

variable {L : Type} {R : Runtime} {T : TokenProgram L} {s s' s₀ : State L} {now : Int64}
  {calls : List (Int64 × Instruction L)} {t : Pubkey} {m : MessageAccount} {key : Bytes32}

/-- A redemption leaves the bit of its transceiver in the votes of its item. -/
theorem AllInit.votes_redeem (hs : s.AllInit) (h : s.redeem R T now t m = .ok s') :
    ∃ account key amount, Redeems R T s t m account key amount ∧
      account.id.toNat ∈ (s'.itemFor key).votes.positions := by
  obtain ⟨account, key, amount, item, votes, hredeems, rfl, hvotes, hafter⟩ := redeem_spec h
  have hmem : account.id.toNat ∈ votes.positions := by
    rw [hs.positions_vote hvotes]
    exact Finset.mem_insert_self _ _
  refine ⟨account, key, amount, hredeems, ?_⟩
  obtain ⟨-, rfl⟩ | ⟨-, -, _, _, _, -, -, rfl⟩ := hafter
  · rwa [itemFor_update rfl, if_pos rfl]
  · rwa [itemFor_update rfl, if_pos rfl]

/-- A transceiver has its account, and its bit in the votes of an item. -/
def HasVote (t : Pubkey) (r : RegisteredTransceiver) (key : Bytes32) (s : State L) : Prop :=
  s.Registry ∧ s.AllInit ∧ s.registeredTransceivers t = some r ∧
    r.id.toNat ∈ (s.itemFor key).votes.positions

/-- A vote stays, and the transceiver keeps its bit. -/
theorem HasVote.next {r : RegisteredTransceiver} (hs : HasVote t r key s)
    (o : Int64 × Instruction L) : HasVote t r key ((Program.machine R T).next s o) := by
  obtain ⟨hreg, hinit, hr, hmem⟩ := hs
  refine Transducer.ofExcept_next ⟨hreg, hinit, hr, hmem⟩ fun s' e h => ?_
  obtain ⟨hreg', hkept⟩ := hreg.apply h
  obtain ⟨hinit', hitem⟩ := (inbox_step h).item hinit
  exact ⟨hreg', hinit', hkept t r hr, (hitem key).1.votes hmem⟩

/-- Every vote that was cast has its bit. -/
theorem Voted.hasVote (h₀ : s₀.Registry) (hnone : ∀ key, s₀.inboxItems key = none)
    (h : Voted R T s₀ calls t m) (hkey : inboxKey R m.data = .ok key) :
    ∃ r, HasVote t r key ((Program.machine R T).run s₀ calls) := by
  obtain ⟨before, o, after, s', rfl, hop, hredeem, -⟩ := h
  obtain ⟨hreg, hinit, -⟩ := votes_accounted R T h₀ hnone before
  obtain ⟨account, key', amount, hredeems, hmem⟩ := hinit.votes_redeem hredeem
  obtain rfl : key' = key := Except.ok.inj (hredeems.key.symm.trans hkey)
  have hstep : ((Program.machine R T).run s₀ before).apply R T o.1 o.2 = .ok (s', none) := by
    rw [hop]
    exact Except.return_eq_ok.mpr ⟨hredeem, rfl⟩
  obtain ⟨hreg', hkept⟩ := hreg.apply hstep
  have hvote : HasVote t account key' s' :=
    ⟨hreg', ((inbox_step hstep).item hinit).1, hkept t account hredeems.registered, hmem⟩
  refine ⟨account, Transducer.run_of_next (fun s o hs => hs.next o) ?_⟩
  rw [Program.machine, (Transducer.ofExcept_of_ok hstep).1]
  exact hvote

/-- **The count of an item is a number of transceivers:** those that are registered and enabled,
and have voted with a message of that item. -/
theorem votes_counted {B : BM} (hB : B.Lawful) (R : Runtime) (T : TokenProgram L)
    (h₀ : s₀.Registry) (hnone : ∀ key, s₀.inboxItems key = none)
    (calls : List (Int64 × Instruction L)) (key : Bytes32) :
    let s := (Program.machine R T).run s₀ calls
    ∃ n, ∃ voters : Finset Pubkey,
      (s.itemFor key).votes.countEnabledVotesBy B s.config.enabledTransceivers = some n ∧
        n.toNat = voters.card ∧ ∀ t, t ∈ voters ↔
          (∃ r, s.registeredTransceivers t = some r ∧
            r.id.toNat ∈ s.config.enabledTransceivers.positions) ∧
          ∃ m, Voted R T s₀ calls t m ∧ inboxKey R m.data = .ok key := by
  intro s
  obtain ⟨hreg, -, hvotes⟩ := votes_accounted R T h₀ hnone calls
  -- the voter of a bit is the transceiver that has it as its id
  obtain ⟨voters, hcard, hvoters⟩ := BitSet.exists_voters_iff
    ((s.itemFor key).votes.positions ∩ s.config.enabledTransceivers.positions)
    (P := fun i t => ∃ r, s.registeredTransceivers t = some r ∧ r.id.toNat = i)
    (fun i hi => hreg.enabled i (Finset.mem_inter.mp hi).2)
    (fun i j t hi hj => by
      obtain ⟨r, hr, rfl⟩ := hi
      obtain ⟨r', hr', rfl⟩ := hj
      rw [Option.some.inj (hr.symm.trans hr')])
    (fun i t t' ht ht' => by
      obtain ⟨r, hr, rfl⟩ := ht
      obtain ⟨r', hr', hid⟩ := ht'
      exact hreg.ids_inj t t' r r' hr hr' (UInt8.toNat_inj.mp hid.symm))
  refine ⟨_, voters, Bitmap.countEnabledVotesBy_eq hB, ?_, fun t => ?_⟩
  · rw [hcard]
    exact Bitmap.toNat_countEnabledVotes
  rw [hvoters]
  constructor
  · rintro ⟨i, hi, r, hr, rfl⟩
    obtain ⟨hvote, henabled⟩ := Finset.mem_inter.mp hi
    obtain ⟨t', r', m, hr', hid, hvoted, hkey⟩ := hvotes key _ hvote
    obtain rfl := hreg.ids_inj t' t r' r hr' hr (UInt8.toNat_inj.mp hid)
    exact ⟨⟨r, hr, henabled⟩, m, hvoted, hkey⟩
  · rintro ⟨⟨r, hr, henabled⟩, m, hvoted, hkey⟩
    obtain ⟨r', -, -, hr', hvote⟩ := hvoted.hasVote h₀ hnone hkey
    obtain rfl : r' = r := Option.some.inj (hr'.symm.trans hr)
    exact ⟨_, Finset.mem_inter.mpr ⟨hvote, henabled⟩, r', hr, rfl⟩

end State

end Ntt.Solana
