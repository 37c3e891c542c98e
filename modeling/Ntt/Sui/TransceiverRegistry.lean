import Ntt.Lib.BitSet
import Ntt.Lib.Loop
import Ntt.Sui.Basic

/-!
# Bitmaps and the Transceiver Registry of the Sui Packages

A bitmap of 128 bits, and the registry of a manager: a counter for ids, the bitmap of the ids that
are enabled, and a dynamic field for every type of transceiver that is registered. Types are the
keys of the fields; here they are of any type `τ`. A field can be added once, and shifting a one
beyond the bitmap aborts.

## Main results

* `Bitmap.toNat_countOnes`: the loop counts the bits that are set.
* `TransceiverRegistry.Ok`: the registered ids are the numbers below the counter, one each. Every
  operation keeps that.
-/

namespace Ntt.Sui

open BitSet

/-! ### Bitmaps -/

structure Bitmap where
  bitmap : BitVec 128
deriving DecidableEq, Repr

def MAX_U128 : BitVec 128 := 0xFFFFFFFFFFFFFFFFFFFFFFFFFFFFFFFF

namespace Bitmap

def empty : Bitmap := ⟨0⟩

def and (a b : Bitmap) : Bitmap := ⟨a.bitmap &&& b.bitmap⟩

/-- `1 << index`, which aborts beyond the width. -/
def bitmask (index : UInt8) : Except Abort (BitVec 128) :=
  if index < 128 then .ok (1 <<< index.toNat) else .error .arithmetic

def enable (self : Bitmap) (index : UInt8) : Except Abort Bitmap := do
  let bitmask ← bitmask index
  return ⟨self.bitmap ||| bitmask⟩

def disable (self : Bitmap) (index : UInt8) : Except Abort Bitmap := do
  let bitmask ← bitmask index
  return ⟨self.bitmap &&& (bitmask ^^^ MAX_U128)⟩

/-- The loop of `countOnes`: the rounds that are left, the mask and the count. -/
def countOnesLoop (self : Bitmap) : ℕ → BitVec 128 → UInt8 → UInt8
  | 0, _, count => count
  | rounds + 1, mask, count =>
      countOnesLoop self rounds (mask <<< 1)
        (if self.bitmap &&& mask > 0 then count + 1 else count)

def countOnes (self : Bitmap) : UInt8 := self.countOnesLoop 128 1 0

/-- The variables of `countOnes`. -/
structure CountOnes where
  count : UInt8
  mask : BitVec 128
  i : UInt64
deriving DecidableEq, Repr

/-- The loop of `countOnes` without a bound on its rounds, and with checked arithmetic. -/
def countOnesWhile (self : Bitmap) : Loop Abort CountOnes where
  condition v := v.i < 128
  body v := do
    let count ←
      if self.bitmap &&& v.mask > 0 then
        pure (UInt8.ofNat (← fitting (2 ^ 8 - 1) (v.count.toNat + 1)))
      else pure v.count
    let mask := v.mask <<< 1
    let i := UInt64.ofNat (← fitting (2 ^ 64 - 1) (v.i.toNat + 1))
    return { count, mask, i }

/-- The positions of the bits that are set. -/
def positions (self : Bitmap) : Finset ℕ := BitSet.positions self.bitmap

variable {self : Bitmap} {index : UInt8}

theorem bitmask_eq_ok {mask : BitVec 128} :
    bitmask index = .ok mask ↔ index.toNat < 128 ∧ BitVec.twoPow 128 index.toNat = mask := by
  rw [bitmask]
  by_cases h : index < 128
  · have h' : index.toNat < 128 := UInt8.lt_iff_toNat_lt.mp h
    rw [if_pos h, Except.ok.injEq, and_iff_right h']
    rfl
  · have h' : ¬ index.toNat < 128 := fun hlt => h (UInt8.lt_iff_toNat_lt.mpr hlt)
    rw [if_neg h]
    exact ⟨fun hc => (by cases hc), fun hc => absurd hc.1 h'⟩

theorem enable_eq_ok {b : Bitmap} : self.enable index = .ok b ↔
    index.toNat < 128 ∧ (⟨self.bitmap ||| BitVec.twoPow 128 index.toNat⟩ : Bitmap) = b := by
  simp only [enable, Except.bind_eq_ok, bitmask_eq_ok, Except.pure_eq_ok]
  constructor
  · rintro ⟨_, ⟨h, rfl⟩, hb⟩
    exact ⟨h, hb⟩
  · rintro ⟨h, hb⟩
    exact ⟨_, ⟨h, rfl⟩, hb⟩

theorem disable_eq_ok {b : Bitmap} : self.disable index = .ok b ↔
    index.toNat < 128 ∧ (⟨self.bitmap &&& ~~~ BitVec.twoPow 128 index.toNat⟩ : Bitmap) = b := by
  have hnot : ∀ x : BitVec 128, x ^^^ MAX_U128 = ~~~ x := fun x => BitVec.xor_allOnes
  simp only [disable, Except.bind_eq_ok, bitmask_eq_ok, Except.pure_eq_ok]
  constructor
  · rintro ⟨_, ⟨h, rfl⟩, hb⟩
    rw [hnot] at hb
    exact ⟨h, hb⟩
  · rintro ⟨h, hb⟩
    refine ⟨_, ⟨h, rfl⟩, ?_⟩
    rwa [hnot]

theorem positions_enable {b : Bitmap} (h : self.enable index = .ok b) :
    b.positions = insert index.toNat self.positions := by
  obtain ⟨hlt, rfl⟩ := enable_eq_ok.mp h
  exact positions_or_twoPow hlt

theorem positions_disable {b : Bitmap} (h : self.disable index = .ok b) :
    b.positions = self.positions.erase index.toNat := by
  obtain ⟨-, rfl⟩ := disable_eq_ok.mp h
  exact positions_and_not_twoPow

theorem positions_and (a b : Bitmap) : (a.and b).positions = a.positions ∩ b.positions :=
  BitSet.positions_and

theorem lt_of_mem {i : ℕ} (h : i ∈ self.positions) : i < 128 := BitSet.lt_of_mem h

/-- A round counts the bit under the mask, if it is set, and moves on. -/
theorem countOnesWhile_body_eq_ok {v v' : CountOnes} : self.countOnesWhile.body v = .ok v' ↔
    (self.bitmap &&& v.mask > 0 → v.count.toNat < 255) ∧ v.i.toNat < 2 ^ 64 - 1 ∧
      ⟨if self.bitmap &&& v.mask > 0 then v.count + 1 else v.count, v.mask <<< 1, v.i + 1⟩ =
        v' := by
  have hcount : UInt8.ofNat (v.count.toNat + 1) = v.count + 1 := by
    rw [UInt8.ofNat_add, UInt8.ofNat_toNat]
    rfl
  have hi : UInt64.ofNat (v.i.toNat + 1) = v.i + 1 := by
    rw [UInt64.ofNat_add, UInt64.ofNat_toNat]
    rfl
  by_cases hbit : self.bitmap &&& v.mask > 0
  · simp only [countOnesWhile, if_pos hbit, Except.bind_eq_ok, fitting_eq_ok, Except.pure_eq_ok]
    constructor
    · rintro ⟨_, ⟨hc, rfl⟩, _, rfl, _, ⟨hlt, rfl⟩, rfl⟩
      exact ⟨fun _ => by omega, by omega, by rw [hcount, hi]⟩
    · rintro ⟨hc, hlt, rfl⟩
      have := hc hbit
      exact ⟨_, ⟨by omega, rfl⟩, _, rfl, _, ⟨by omega, rfl⟩, by rw [hcount, hi]⟩
  · simp only [countOnesWhile, if_neg hbit, Except.bind_eq_ok, fitting_eq_ok, Except.pure_eq_ok]
    constructor
    · rintro ⟨_, rfl, _, ⟨hlt, rfl⟩, rfl⟩
      exact ⟨fun h => absurd h hbit, by omega, by rw [hi]⟩
    · rintro ⟨-, hlt, rfl⟩
      exact ⟨_, rfl, _, ⟨by omega, rfl⟩, by rw [hi]⟩

/-- The loop ends after a round for each position, with the number of those that are set. -/
theorem countOnesWhile_run (self : Bitmap) : ∃ count : UInt8,
    count.toNat = self.positions.card ∧ self.countOnesWhile.Run ⟨0, 1, 0⟩ 128 ⟨count, 0, 128⟩ := by
  -- the mask is at the position `i`, and the positions below are counted
  let I : CountOnes → Prop := fun v => v.i.toNat ≤ 128 ∧ v.mask = BitVec.twoPow 128 v.i.toNat ∧
    v.count.toNat = (self.positions ∩ Finset.range v.i.toNat).card
  have hcondition : ∀ v, I v →
      (self.countOnesWhile.condition v = true ↔ 0 < 128 - v.i.toNat) := by
    intro v _
    rw [Nat.sub_pos_iff_lt]
    exact decide_eq_true_iff.trans UInt64.lt_iff_toNat_lt
  have hbody : ∀ v, I v → self.countOnesWhile.condition v = true →
      ∃ v', self.countOnesWhile.body v = .ok v' ∧ I v' ∧
        128 - v'.i.toNat + 1 = 128 - v.i.toNat := by
    intro v hv hgo
    have hlt : v.i.toNat < 128 := Nat.sub_pos_iff_lt.mp ((hcondition v hv).mp hgo)
    obtain ⟨-, hmask, hcount⟩ := hv
    have hnext : (v.i + 1).toNat = v.i.toNat + 1 := UInt64.toNat_add_one (by omega)
    have hshift : v.mask <<< 1 = BitVec.twoPow 128 (v.i.toNat + 1) := by
      rw [hmask, BitVec.twoPow, BitVec.twoPow, BitVec.shiftLeft_add]
    have hbit : self.bitmap &&& v.mask > 0 ↔ v.i.toNat ∈ self.positions := by
      rw [hmask]
      exact (BitVec.pos_iff_ne_zero _).trans (and_twoPow_ne_zero hlt)
    have hfew : v.count.toNat ≤ v.i.toNat := by
      rw [hcount]
      exact (Finset.card_le_card Finset.inter_subset_right).trans (Finset.card_range _).le
    refine ⟨_, countOnesWhile_body_eq_ok.mpr ⟨fun _ => by omega, by omega, rfl⟩,
      ⟨by simp only [hnext]; omega, by simp only [hnext, hshift], ?_⟩, by simp only [hnext]; omega⟩
    simp only [hnext, Finset.range_add_one]
    by_cases h : v.i.toNat ∈ self.positions
    · have hadd : (v.count + 1).toNat = v.count.toNat + 1 := UInt8.toNat_add_one (by omega)
      rw [if_pos (hbit.mpr h), hadd, hcount, Finset.inter_insert_of_mem h,
        Finset.card_insert_of_notMem (by simp)]
    · rw [if_neg (mt hbit.mp h), hcount, Finset.inter_insert_of_notMem h]
  obtain ⟨⟨count, mask, i⟩, hrun, ⟨hle, hmask, hcount⟩, hend⟩ :=
    Loop.exists_run hcondition hbody (s := ⟨0, 1, 0⟩) ⟨by decide, by decide, by simp⟩
  obtain rfl : i = 128 := UInt64.toNat_inj.mp (le_antisymm hle (Nat.le_of_sub_eq_zero hend))
  obtain rfl : mask = 0 := hmask.trans (show BitVec.twoPow 128 128 = 0 by decide)
  refine ⟨count, ?_, hrun⟩
  have hall : self.positions ⊆ Finset.range 128 := fun j hj => Finset.mem_range.mpr (lt_of_mem hj)
  rw [hcount]
  exact congrArg Finset.card (Finset.inter_eq_left.mpr hall)

/-- `countOnesLoop` counts what the loop counts in as many rounds. Induction on the run. -/
theorem countOnesLoop_of_run {v w : CountOnes} {n : ℕ} (h : self.countOnesWhile.Run v n w) :
    self.countOnesLoop n v.mask v.count = w.count := by
  induction h with
  | exit => rfl
  | round _ hbody _ ih =>
      obtain ⟨-, -, rfl⟩ := countOnesWhile_body_eq_ok.mp hbody
      exact ih

/-- `countOnes` is the number of bits that are set. -/
theorem toNat_countOnes (self : Bitmap) : self.countOnes.toNat = self.positions.card := by
  obtain ⟨count, hcount, hrun⟩ := self.countOnesWhile_run
  rw [← hcount]
  exact congrArg UInt8.toNat (countOnesLoop_of_run hrun)

/-- The only run of the loop: one round for each position, and `countOnes` in the end. -/
theorem countOnesWhile_run_iff {n : ℕ} {v : CountOnes} :
    self.countOnesWhile.Run ⟨0, 1, 0⟩ n v ↔ n = 128 ∧ v = ⟨self.countOnes, 0, 128⟩ := by
  obtain ⟨count, -, hrun⟩ := self.countOnesWhile_run
  have hcount : self.countOnes = count := countOnesLoop_of_run hrun
  rw [hcount]
  exact hrun.iff

end Bitmap

/-! ### The registry -/

/-- What is stored for a type of transceiver. -/
structure TransceiverInfo where
  id : UInt8
  stateObjectId : Bytes32
deriving DecidableEq

structure TransceiverRegistry (τ : Type) where
  nextId : UInt8
  enabledBitmap : Bitmap
  /-- The dynamic fields, one for every type that is registered. -/
  transceivers : List (τ × TransceiverInfo)

namespace TransceiverRegistry

variable {τ : Type}

def new : TransceiverRegistry τ := ⟨0, .empty, []⟩

/-- `next_id`: takes the next id. -/
def takeNextId (registry : TransceiverRegistry τ) :
    Except Abort (UInt8 × TransceiverRegistry τ) := do
  let id := registry.nextId
  if id.toNat + 1 < 2 ^ 8 then
    return (id, { registry with nextId := id + 1 })
  else
    .error .arithmetic

def enableTransceiver (registry : TransceiverRegistry τ) (id : UInt8) :
    Except Abort (TransceiverRegistry τ) := do
  return { registry with enabledBitmap := ← registry.enabledBitmap.enable id }

def disableTransceiver (registry : TransceiverRegistry τ) (id : UInt8) :
    Except Abort (TransceiverRegistry τ) := do
  return { registry with enabledBitmap := ← registry.enabledBitmap.disable id }

section

variable [DecidableEq τ]

/-- Adds the field of a type, which must not be there yet. -/
def add (registry : TransceiverRegistry τ) (transceiver : τ) (id : UInt8)
    (stateObjectId : Bytes32) : Except Abort (TransceiverRegistry τ) :=
  if (registry.transceivers.lookup transceiver).isSome then .error .external
  else .ok { registry with
    transceivers := registry.transceivers ++ [(transceiver, ⟨id, stateObjectId⟩)] }

def borrow (registry : TransceiverRegistry τ) (transceiver : τ) : Except Abort TransceiverInfo :=
  match registry.transceivers.lookup transceiver with
  | some info => .ok info
  | none => .error (.error "Unregistered transceiver")

def transceiverId (registry : TransceiverRegistry τ) (transceiver : τ) : Except Abort UInt8 := do
  return (← registry.borrow transceiver).id

/-- Registers a type under the next id, and enables it. -/
def registerTransceiver (registry : TransceiverRegistry τ) (transceiver : τ)
    (stateObjectId : Bytes32) : Except Abort (TransceiverRegistry τ) := do
  let (id, registry) ← registry.takeNextId
  let registry ← registry.add transceiver id stateObjectId
  registry.enableTransceiver id

end

/-! ### What an operation does -/

section

variable {r r' : TransceiverRegistry τ} {t : τ} {id : UInt8}

/-- Enabling an id moves nothing but its bit. -/
theorem enableTransceiver_spec (h : r.enableTransceiver id = .ok r') :
    id.toNat < 128 ∧ r'.nextId = r.nextId ∧ r'.transceivers = r.transceivers ∧
      r'.enabledBitmap.positions = insert id.toNat r.enabledBitmap.positions := by
  simp only [enableTransceiver, Except.bind_eq_ok, Except.pure_eq_ok] at h
  obtain ⟨b, hb, rfl⟩ := h
  exact ⟨(Bitmap.enable_eq_ok.mp hb).1, rfl, rfl, Bitmap.positions_enable hb⟩

theorem disableTransceiver_spec (h : r.disableTransceiver id = .ok r') :
    r'.nextId = r.nextId ∧ r'.transceivers = r.transceivers ∧
      r'.enabledBitmap.positions = r.enabledBitmap.positions.erase id.toNat := by
  simp only [disableTransceiver, Except.bind_eq_ok, Except.pure_eq_ok] at h
  obtain ⟨b, hb, rfl⟩ := h
  exact ⟨rfl, rfl, Bitmap.positions_disable hb⟩

/-- The registered ids are the numbers below the counter, and every type is registered once. -/
structure Ok (r : TransceiverRegistry τ) : Prop where
  ids_eq : r.transceivers.map (fun e => e.2.id.toNat) = List.range r.nextId.toNat
  keys_nodup : (r.transceivers.map Prod.fst).Nodup
  nextId_le : r.nextId.toNat ≤ 128

theorem Ok.new : (new : TransceiverRegistry τ).Ok := ⟨rfl, List.nodup_nil, Nat.zero_le _⟩

theorem Ok.of_eq (h : r.Ok) (hnext : r'.nextId = r.nextId)
    (htrans : r'.transceivers = r.transceivers) : r'.Ok := by
  refine ⟨?_, ?_, ?_⟩
  · rw [htrans, hnext, h.ids_eq]
  · rw [htrans]
    exact h.keys_nodup
  · rw [hnext]
    exact h.nextId_le

theorem Ok.length_eq (h : r.Ok) : r.transceivers.length = r.nextId.toNat := by
  simpa using congrArg List.length h.ids_eq

/-- An id is registered when it is below the counter. -/
theorem Ok.exists_id_iff (h : r.Ok) {i : ℕ} :
    (∃ e ∈ r.transceivers, e.2.id.toNat = i) ↔ i < r.nextId.toNat := by
  rw [← List.mem_range, ← h.ids_eq, List.mem_map]

/-- Different types have different ids. -/
theorem Ok.ids_nodup (h : r.Ok) : (r.transceivers.map fun e => e.2.id).Nodup := by
  have hnodup : (r.transceivers.map fun e => e.2.id.toNat).Nodup := by
    rw [h.ids_eq]
    exact List.nodup_range
  exact List.Nodup.of_map UInt8.toNat (by rwa [List.map_map])

/-- A type has one entry. -/
theorem Ok.info_unique (h : r.Ok) {info info' : TransceiverInfo} (he : (t, info) ∈ r.transceivers)
    (he' : (t, info') ∈ r.transceivers) : info = info' :=
  (Prod.mk.inj (List.inj_on_of_nodup_map h.keys_nodup he he' rfl)).2

/-- An id has one type. -/
theorem Ok.type_unique (h : r.Ok) {t' : τ} {info info' : TransceiverInfo}
    (he : (t, info) ∈ r.transceivers) (he' : (t', info') ∈ r.transceivers)
    (hid : info.id = info'.id) : t = t' :=
  (Prod.mk.inj (List.inj_on_of_nodup_map h.ids_nodup he he' hid)).1

end

variable {r r' : TransceiverRegistry τ} {t : τ} {stateObjectId : Bytes32} [DecidableEq τ]

/-- Registering takes the next id for a type that is not there, and enables it. -/
theorem registerTransceiver_spec (h : r.registerTransceiver t stateObjectId = .ok r') :
    r.nextId.toNat < 128 ∧ r.transceivers.lookup t = none ∧
      r'.nextId.toNat = r.nextId.toNat + 1 ∧
      r'.transceivers = r.transceivers ++ [(t, ⟨r.nextId, stateObjectId⟩)] ∧
      r'.enabledBitmap.positions = insert r.nextId.toNat r.enabledBitmap.positions := by
  simp only [registerTransceiver, takeNextId, Except.bind_eq_ok, Prod.exists] at h
  obtain ⟨id, r₁, htake, r₂, hadd, henable⟩ := h
  split at htake
  · rename_i hfit
    obtain ⟨rfl, rfl⟩ := Prod.mk.inj (Except.ok.inj htake)
    rw [add] at hadd
    split at hadd
    · cases hadd
    · rename_i hnone
      obtain rfl := Except.ok.inj hadd
      obtain ⟨hlt, hnext, htrans, hpos⟩ := enableTransceiver_spec henable
      refine ⟨hlt, Option.not_isSome_iff_eq_none.mp hnone, ?_, htrans, hpos⟩
      rw [hnext]
      exact UInt8.toNat_add_one hfit
  · cases htake

theorem Ok.registerTransceiver (h : r.Ok) (hr : r.registerTransceiver t stateObjectId = .ok r') :
    r'.Ok := by
  obtain ⟨hlt, hnone, hnext, htrans, -⟩ := registerTransceiver_spec hr
  refine ⟨?_, ?_, by omega⟩
  · rw [htrans, List.map_append, h.ids_eq, hnext, List.range_succ]
    rfl
  · rw [htrans, List.map_append, List.map_singleton]
    refine List.nodup_append.mpr ⟨h.keys_nodup, List.nodup_singleton _, ?_⟩
    rintro a ha b hb rfl
    obtain ⟨e, he, rfl⟩ := List.mem_map.mp ha
    obtain rfl := List.mem_singleton.mp hb
    simpa using List.lookup_eq_none_iff.mp hnone e he

/-- A type that is found is registered. -/
theorem mem_of_borrow {info : TransceiverInfo} (h : r.borrow t = .ok info) :
    (t, info) ∈ r.transceivers := by
  rw [borrow] at h
  split at h
  · rename_i info' hlookup
    obtain rfl := Except.ok.inj h
    obtain ⟨before, after, heq, -⟩ := List.lookup_eq_some_iff.mp hlookup
    rw [heq]
    exact List.mem_append_right _ (List.mem_cons_self ..)
  · cases h

end TransceiverRegistry

end Ntt.Sui
