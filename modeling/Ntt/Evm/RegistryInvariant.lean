import Ntt.Evm.TransceiverRegistry

/-!
# The Registry and Threshold Invariant

`TransceiverRegistry.Inv` says that the info map, the enabled list, the registered list, the
bitmap and the counts are views of the same facts; `Quorum.Inv` adds the threshold. Registering
(`register`), enabling (`enable`) and disabling (`disable`) keep it, and from a registry in the
invariant the operations of the contract are these three with their refusals: the checks that
the code makes after every change pass.

## Main results

* `TransceiverRegistry.Inv.setTransceiver_eq`, `TransceiverRegistry.Inv.removeTransceiver_eq`:
  what the operations return from a registry in the invariant.
* `RegistryOp.run_spec`: after any sequence of operations the invariant holds, registered
  transceivers stay where they are, and the next operation can only refuse its argument.
-/

namespace Ntt

/-- A loop that only checks succeeds when every round does. -/
theorem forEach_eq_ok {α : Type} {xs : List α} {body : α → Except Error Unit} {u : Unit} :
    forEach body xs = .ok u ↔ ∀ x ∈ xs, body x = .ok () := by
  induction xs with
  | nil => simp [forEach]
  | cons x xs ih =>
      simp only [forEach, Except.bind_eq_ok, ih, List.mem_cons, forall_eq_or_imp]
      constructor
      · rintro ⟨_, hx, hxs⟩
        exact ⟨hx, hxs⟩
      · rintro ⟨hx, hxs⟩
        exact ⟨_, hx, hxs⟩

theorem readAt_of_get {α : Type} {xs : List α} {i : ℕ} {x : α} (h : xs[i]? = some x) :
    readAt xs i = .ok x := by
  rw [readAt, h]

theorem increment_of_lt {x : UInt8} (h : x.toNat < 255) : increment x = .ok (x + 1) :=
  if_pos h

namespace TransceiverRegistry

/-- The four views of the registry agree. -/
structure Inv (r : TransceiverRegistry) : Prop where
  /-- The enabled list has no duplicates. -/
  enabled_nodup : r.enabledTransceivers.Nodup
  /-- It holds the registered transceivers whose info says enabled. -/
  mem_enabled : ∀ a, a ∈ r.enabledTransceivers ↔
    (r.transceiverInfos a).registered = true ∧ (r.transceiverInfos a).enabled = true
  /-- Bit `i` is set when the transceiver with index `i` is enabled. -/
  mem_bitmap : ∀ i, i ∈ Bitmap.members r.bitmap ↔
    ∃ a, r.registeredTransceivers[i]? = some a ∧ (r.transceiverInfos a).enabled = true
  /-- The index of a registered transceiver is its position in the registered list. -/
  registered_get : ∀ i a, r.registeredTransceivers[i]? = some a ↔
    (r.transceiverInfos a).registered = true ∧ (r.index a).toNat = i
  /-- A transceiver that is not registered is not enabled and has index zero. -/
  unregistered : ∀ a, (r.transceiverInfos a).registered = false →
    r.transceiverInfos a = ⟨false, false, 0⟩
  length_registered : r.registeredTransceivers.length = r.numRegistered.toNat
  registered_le : r.registeredTransceivers.length ≤ 64
  length_enabled : r.enabledTransceivers.length = r.numEnabled.toNat

/-- Adds a transceiver that was never registered, disabled. -/
def register (r : TransceiverRegistry) (a : Address) : TransceiverRegistry :=
  { r.setInfo a ⟨true, false, r.numRegistered⟩ with
    numRegistered := r.numRegistered + 1
    registeredTransceivers := r.registeredTransceivers ++ [a] }

/-- Writes whether a transceiver is enabled into its info. -/
def setEnabled (r : TransceiverRegistry) (a : Address) (enabled : Bool) : TransceiverRegistry :=
  r.setInfo a { r.transceiverInfos a with enabled }

/-- Enables a registered transceiver. -/
def enable (r : TransceiverRegistry) (a : Address) : TransceiverRegistry :=
  { r.setEnabled a true with
    enabledTransceivers := r.enabledTransceivers ++ [a]
    numEnabled := r.numEnabled + 1
    bitmap := r.bitmap ||| Bitmap.bit (r.index a).toNat }

/-- Disables an enabled transceiver. -/
def disable (r : TransceiverRegistry) (a : Address) : TransceiverRegistry :=
  { r.setEnabled a false with
    enabledTransceivers := (removeEnabled a r.enabledTransceivers).1
    numEnabled := r.numEnabled - 1
    bitmap := r.bitmap &&& ~~~ Bitmap.bit (r.index a).toNat }

section

variable (r : TransceiverRegistry) (a b : Address) (en : Bool)

theorem setEnabled_self : (r.setEnabled a en).transceiverInfos a =
    { r.transceiverInfos a with enabled := en } := Function.update_self ..

theorem setEnabled_of_ne {b : Address} (hb : b ≠ a) :
    (r.setEnabled a en).transceiverInfos b = r.transceiverInfos b := Function.update_of_ne hb ..

theorem setEnabled_registered : ((r.setEnabled a en).transceiverInfos b).registered =
    (r.transceiverInfos b).registered := by
  rcases eq_or_ne b a with rfl | hb
  · rw [setEnabled_self]
  · rw [setEnabled_of_ne r a en hb]

theorem setEnabled_index : (r.setEnabled a en).index b = r.index b := by
  rcases eq_or_ne b a with rfl | hb
  · rw [index, setEnabled_self, index]
  · rw [index, setEnabled_of_ne r a en hb, index]

theorem setEnabled_enabled : ((r.setEnabled a en).transceiverInfos b).enabled =
    if b = a then en else (r.transceiverInfos b).enabled := by
  split
  · rename_i hb
    subst hb
    rw [setEnabled_self]
  · rename_i hb
    rw [setEnabled_of_ne r a en hb]

end

theorem Inv.empty : Inv .empty := by
  refine ⟨List.nodup_nil, fun a => ?_, fun i => ?_, fun i a => ?_, fun a _ => rfl, rfl,
    by decide, rfl⟩
  · simp [TransceiverRegistry.empty]
  · simp [TransceiverRegistry.empty]
  · simp [TransceiverRegistry.empty]

namespace Inv

variable {r : TransceiverRegistry} {a : Address} (h : r.Inv)
include h

/-- An index in use is below 64. -/
theorem index_lt (ha : (r.transceiverInfos a).registered = true) :
    (r.index a).toNat < r.registeredTransceivers.length :=
  (List.getElem?_eq_some_iff.mp ((h.registered_get _ a).mpr ⟨ha, rfl⟩)).1

/-- The bit of a registered transceiver says whether it is enabled. -/
theorem mem_bitmap_index (ha : (r.transceiverInfos a).registered = true) :
    (r.index a).toNat ∈ Bitmap.members r.bitmap ↔ (r.transceiverInfos a).enabled = true := by
  rw [h.mem_bitmap, (h.registered_get _ a).mpr ⟨ha, rfl⟩]
  simp

/-- There are no more enabled than registered transceivers. -/
theorem enabled_le : r.enabledTransceivers.length ≤ r.registeredTransceivers.length := by
  refine (h.enabled_nodup.subperm fun a ha => ?_).length_le
  exact List.mem_of_getElem? ((h.registered_get _ a).mpr ⟨((h.mem_enabled a).mp ha).1, rfl⟩)

theorem numEnabled_le : r.numEnabled.toNat ≤ 64 := by
  rw [← h.length_enabled]
  exact h.enabled_le.trans h.registered_le

/-! ### The checks of the code pass -/

omit h in
theorem findEnabled_eq {rounds i : ℕ} (hi : i + rounds ≤ r.enabledTransceivers.length) :
    r.findEnabled a rounds i =
      .ok (decide (a ∈ (r.enabledTransceivers.drop i).take rounds)) := by
  induction rounds generalizing i with
  | zero => simp [findEnabled]
  | succ rounds ih =>
      have hlt : i < r.enabledTransceivers.length := by omega
      rw [findEnabled, readAt_of_get (List.getElem?_eq_getElem hlt), ih (by omega),
        List.drop_eq_getElem_cons hlt, List.take_succ_cons]
      by_cases heq : r.enabledTransceivers[i] = a
      · simp [bind, Except.bind, heq, pure, Except.pure]
      · simp [bind, Except.bind, heq, Ne.symm heq]

theorem checkTransceiverInvariants_eq (ha : (r.transceiverInfos a).registered = true) :
    r.checkTransceiverInvariants a = .ok () := by
  have hfind : r.findEnabled a r.numEnabled.toNat 0 =
      .ok (decide (a ∈ r.enabledTransceivers)) := by
    rw [findEnabled_eq (by rw [h.length_enabled]; omega), List.drop_zero, ← h.length_enabled,
      List.take_length]
  have hbit : (r.bitmap &&& Bitmap.bit (r.transceiverInfos a).index.toNat ≠ 0) ↔
      (r.transceiverInfos a).enabled = true :=
    Bitmap.and_bit_ne_zero.trans (h.mem_bitmap_index ha)
  have hmem : a ∈ r.enabledTransceivers ↔ (r.transceiverInfos a).enabled = true := by
    rw [h.mem_enabled, ha]
    simp
  have hidx : (r.transceiverInfos a).index < r.numRegistered := by
    rw [UInt8.lt_iff_toNat_lt, ← h.length_registered]
    exact h.index_lt ha
  simp only [checkTransceiverInvariants, hfind, Except.bind_eq_ok, assert_eq_ok, ha, hbit, hmem,
    hidx, true_or, Bool.decide_coe, Except.ok.injEq]
  exact ⟨(), trivial, _, rfl, (), trivial, (), rfl, trivial⟩

theorem checkTransceiversInvariants_eq : r.checkTransceiversInvariants = .ok () := by
  have hread : ∀ i < r.numEnabled.toNat, ∃ b, r.enabledTransceivers[i]? = some b ∧
      b ∈ r.enabledTransceivers := by
    intro i hi
    rw [← h.length_enabled] at hi
    exact ⟨_, List.getElem?_eq_getElem hi, List.getElem_mem hi⟩
  simp only [checkTransceiversInvariants, Except.bind_eq_ok, assert_eq_ok, forEach_eq_ok]
  refine ⟨(), h.length_enabled.symm, (), fun i hi => ?_, (), fun i hi j hj => ?_, ?_⟩
  · obtain ⟨b, hb, hmem⟩ := hread i (List.mem_range.mp hi)
    exact ⟨b, readAt_of_get hb, h.checkTransceiverInvariants_eq ((h.mem_enabled b).mp hmem).1⟩
  · obtain ⟨b, hb, -⟩ := hread i (List.mem_range.mp hi)
    have hij : i < j := by
      have := List.left_le_of_mem_range' hj
      omega
    have hjn : j < r.numEnabled.toNat := by
      have := (List.mem_range'.mp hj)
      obtain ⟨k, hk, rfl⟩ := this
      omega
    obtain ⟨c, hc, -⟩ := hread j hjn
    refine ⟨b, readAt_of_get hb, c, readAt_of_get hc, ?_⟩
    rintro rfl
    have hne := List.nodup_iff_injective_getElem.mp h.enabled_nodup
    obtain ⟨hi', hib⟩ := List.getElem?_eq_some_iff.mp hb
    obtain ⟨hj', hjb⟩ := List.getElem?_eq_some_iff.mp hc
    have := @hne ⟨i, hi'⟩ ⟨j, hj'⟩ (hib.trans hjb.symm)
    exact absurd (congrArg Fin.val this) (by simpa using hij.ne)
  · rw [UInt8.le_iff_toNat_le, ← h.length_registered]
    exact h.registered_le

/-! ### The three changes -/

/-- Registering adds the next index; nothing is enabled by it. -/
theorem register (ha : (r.transceiverInfos a).registered = false)
    (hlt : r.registeredTransceivers.length < 64) : (r.register a).Inv := by
  have hne : ∀ b, (r.transceiverInfos b).registered = true → b ≠ a := by
    rintro b hb rfl
    rw [ha] at hb
    exact Bool.false_ne_true hb
  have hinfo : ∀ b, b ≠ a → (r.register a).transceiverInfos b = r.transceiverInfos b :=
    fun b hb => Function.update_of_ne hb _ _
  have hinfo_a : (r.register a).transceiverInfos a = ⟨true, false, r.numRegistered⟩ :=
    Function.update_self ..
  have hnum : (r.numRegistered + 1).toNat = r.registeredTransceivers.length + 1 := by
    rw [h.length_registered] at hlt ⊢
    exact UInt8.toNat_add_one (by omega)
  have hget : ∀ i b, (r.register a).registeredTransceivers[i]? = some b ↔
      r.registeredTransceivers[i]? = some b ∨ i = r.registeredTransceivers.length ∧ b = a := by
    intro i b
    rw [TransceiverRegistry.register, List.getElem?_append]
    split
    · rename_i hi
      simp [hi.ne]
    · rename_i hi
      rcases Nat.eq_or_lt_of_not_lt hi with heq | hgt
      · simp [heq, eq_comm]
      · rw [List.getElem?_eq_none (by simp; omega), List.getElem?_eq_none (by omega)]
        simp [(show r.registeredTransceivers.length < i from hgt).ne']
  refine ⟨h.enabled_nodup, fun b => ?_, fun i => ?_, fun i b => ?_, fun b hb => ?_, ?_, ?_,
    h.length_enabled⟩
  · rcases eq_or_ne b a with rfl | hb
    · have hmem : b ∉ (r.register b).enabledTransceivers :=
        fun hb => hne b ((h.mem_enabled b).mp hb).1 rfl
      rw [hinfo_a]
      simpa using hmem
    · rw [hinfo b hb]
      exact h.mem_enabled b
  · refine (h.mem_bitmap i).trans (exists_congr fun b => ?_)
    rw [hget]
    constructor
    · rintro ⟨hb, hen⟩
      refine ⟨.inl hb, ?_⟩
      rw [hinfo b (hne b ((h.registered_get i b).mp hb).1)]
      exact hen
    · rintro ⟨hb | ⟨-, rfl⟩, hen⟩
      · rw [hinfo b (hne b ((h.registered_get i b).mp hb).1)] at hen
        exact ⟨hb, hen⟩
      · rw [hinfo_a] at hen
        exact absurd hen Bool.false_ne_true
  · rw [hget, index]
    rcases eq_or_ne b a with rfl | hb
    · have hnot : r.registeredTransceivers[i]? ≠ some b :=
        fun hc => hne b ((h.registered_get i b).mp hc).1 rfl
      rw [hinfo_a, h.length_registered]
      simp [hnot, eq_comm]
    · rw [hinfo b hb, h.registered_get]
      simp [hb, index]
  · rcases eq_or_ne b a with rfl | hba
    · rw [hinfo_a] at hb
      exact absurd hb.symm Bool.false_ne_true
    · rw [hinfo b hba] at hb ⊢
      exact h.unregistered b hb
  · rw [TransceiverRegistry.register, List.length_append, List.length_singleton]
    exact hnum.symm
  · rw [TransceiverRegistry.register, List.length_append, List.length_singleton]
    omega

/-- Changing whether a registered transceiver is enabled keeps the invariant, when the list, the
bitmap and the count change with the info. -/
theorem setEnabled {en : Bool} {xs : List Address} {bitmap : UInt64} {n : UInt8}
    (ha : (r.transceiverInfos a).registered = true) (hnd : xs.Nodup)
    (hmem : ∀ b, b ∈ xs ↔ if b = a then en = true else b ∈ r.enabledTransceivers)
    (hbit : ∀ i, i ∈ Bitmap.members bitmap ↔
      if i = (r.index a).toNat then en = true else i ∈ Bitmap.members r.bitmap)
    (hlen : xs.length = n.toNat) :
    Inv { r.setEnabled a en with enabledTransceivers := xs, bitmap, numEnabled := n } := by
  refine ⟨hnd, fun b => ?_, fun i => ?_, fun i b => ?_, fun b hb => ?_, h.length_registered,
    h.registered_le, hlen⟩
  · rw [hmem, setEnabled_registered, setEnabled_enabled]
    split
    · rename_i hb
      subst hb
      exact (and_iff_right ha).symm
    · exact h.mem_enabled b
  · rw [hbit]
    split
    · rename_i hi
      have hga : r.registeredTransceivers[i]? = some a := (h.registered_get i a).mpr ⟨ha, hi.symm⟩
      constructor
      · intro hen
        refine ⟨a, hga, ?_⟩
        rw [setEnabled_enabled, if_pos rfl, hen]
      · rintro ⟨b, hb, hen⟩
        obtain rfl := Option.some.inj (hga.symm.trans hb)
        rwa [setEnabled_enabled, if_pos rfl] at hen
    · rename_i hi
      refine (h.mem_bitmap i).trans (exists_congr fun b => and_congr_right fun hb => ?_)
      have hba : b ≠ a := by
        rintro rfl
        exact hi ((h.registered_get i b).mp hb).2.symm
      rw [setEnabled_enabled, if_neg hba]
  · rw [index, setEnabled_registered]
    exact (h.registered_get i b).trans (by rw [← setEnabled_index r a b en]; rfl)
  · rw [setEnabled_registered] at hb
    have hba : b ≠ a := by
      rintro rfl
      exact Bool.false_ne_true (hb.symm.trans ha)
    exact (setEnabled_of_ne r a en hba).trans (h.unregistered b hb)

/-- Enabling a registered transceiver that is disabled. -/
theorem enable (ha : (r.transceiverInfos a).registered = true)
    (hen : (r.transceiverInfos a).enabled = false) : (r.enable a).Inv := by
  have hle := h.numEnabled_le
  have hnot : a ∉ r.enabledTransceivers := by
    rw [h.mem_enabled, hen]
    simp
  refine h.setEnabled ha ?_ (fun b => ?_) (fun i => ?_) ?_
  · refine List.nodup_append.mpr ⟨h.enabled_nodup, List.nodup_singleton a, ?_⟩
    rintro b hb c hc rfl
    exact hnot (List.mem_singleton.mp hc ▸ hb)
  · rw [List.mem_append, List.mem_singleton]
    split
    · simp [*]
    · simp [*]
  · rw [Bitmap.mem_or_bit (lt_of_lt_of_le (h.index_lt ha) h.registered_le)]
    split
    · simp [*]
    · simp [*, Ne.symm]
  · rw [List.length_append, List.length_singleton, h.length_enabled]
    exact (UInt8.toNat_add_one (by omega)).symm

omit h in
/-- The removal loop finds an enabled transceiver, and removes just that. -/
theorem removeEnabled_spec (hen : a ∈ r.enabledTransceivers) :
    (removeEnabled a r.enabledTransceivers).2 = true ∧
      (a :: (removeEnabled a r.enabledTransceivers).1).Perm r.enabledTransceivers := by
  cases hfind : r.enabledTransceivers.findIdx? (· == a) with
  | none =>
      have := List.findIdx?_eq_none_iff.mp hfind a hen
      simp at this
  | some i =>
      obtain ⟨hi, heq, -⟩ := List.findIdx?_eq_some_iff_getElem.mp hfind
      have hget : r.enabledTransceivers[i]? = some a := by
        rw [List.getElem?_eq_getElem hi, eq_of_beq heq]
      have hlast : r.enabledTransceivers.getLast? = some (r.enabledTransceivers.getLastD 0) := by
        rw [List.getLast?_eq_some_getLast (List.ne_nil_of_mem hen), List.getLastD_eq_getLast?,
          List.getLast?_eq_some_getLast (List.ne_nil_of_mem hen)]
        rfl
      rw [removeEnabled, hfind]
      exact ⟨rfl, List.cons_swapRemove_perm hget hlast⟩

/-- Disabling a transceiver that is enabled. -/
theorem disable (ha : (r.transceiverInfos a).registered = true)
    (hen : (r.transceiverInfos a).enabled = true) : (r.disable a).Inv := by
  have hmem : a ∈ r.enabledTransceivers := (h.mem_enabled a).mpr ⟨ha, hen⟩
  obtain ⟨-, hperm⟩ := removeEnabled_spec hmem
  have hnd := hperm.nodup_iff.mpr h.enabled_nodup
  have hlen := hperm.length_eq
  rw [List.length_cons, h.length_enabled] at hlen
  refine h.setEnabled ha (List.nodup_cons.mp hnd).2 (fun b => ?_) (fun i => ?_) ?_
  · split
    · rename_i hb
      subst hb
      simpa using (List.nodup_cons.mp hnd).1
    · rename_i hb
      rw [← hperm.mem_iff, List.mem_cons]
      simp [hb]
  · rw [Bitmap.mem_and_not_bit]
    split
    · simp [*]
    · simp [*, Ne.symm]
  · rw [UInt8.toNat_sub_of_le _ _ (UInt8.le_iff_toNat_le.mpr (by simp; omega))]
    simp
    omega

/-! ### The operations of the contract -/

/-- Registration, from a registry in the invariant: the checks at the end pass. -/
theorem setTransceiver_eq : r.setTransceiver a =
    if a = 0 then .error .invalidTransceiverZeroAddress
    else if (r.transceiverInfos a).registered then
      if (r.transceiverInfos a).enabled then .error (.transceiverAlreadyEnabled a)
      else .ok (r.enable a)
    else if 64 ≤ r.registeredTransceivers.length then .error .tooManyTransceivers
    else .ok ((r.register a).enable a) := by
  have hincE := increment_of_lt (lt_of_le_of_lt h.numEnabled_le (by decide))
  by_cases ha0 : a = 0
  · simp only [TransceiverRegistry.setTransceiver, throwIf, ha0, if_true]
    rfl
  by_cases ha : (r.transceiverInfos a).registered = true
  · have hbit := Bitmap.or_bit_eq_self (b := r.bitmap)
      (lt_of_lt_of_le (h.index_lt ha) h.registered_le)
    rw [h.mem_bitmap_index ha, index] at hbit
    simp only [TransceiverRegistry.setTransceiver, throwIf, ha0, ha, if_true, if_false, bind,
      Except.bind, pure, Except.pure, setInfo, hincE, index, Function.update_self, hbit]
    by_cases hen : (r.transceiverInfos a).enabled = true
    · simp only [hen, if_true]
    · have hcheck := (h.enable ha (Bool.not_eq_true _ ▸ hen)).checkTransceiversInvariants_eq
      simp only [TransceiverRegistry.enable, TransceiverRegistry.setEnabled, setInfo,
        index, ha] at hcheck
      simp only [hen, if_false, hcheck, TransceiverRegistry.enable,
        TransceiverRegistry.setEnabled, setInfo, index, ha, Bool.false_eq_true]
  · have hmax : r.numRegistered ≥ MAX_TRANSCEIVERS ↔ 64 ≤ r.registeredTransceivers.length := by
      rw [ge_iff_le, UInt8.le_iff_toNat_le, h.length_registered]
      rfl
    simp only [TransceiverRegistry.setTransceiver, throwIf, ha0, ha, if_false, bind,
      Except.bind, pure, Except.pure, hmax, Bool.false_eq_true]
    by_cases hfull : 64 ≤ r.registeredTransceivers.length
    · simp only [hfull, if_true]
    · have hreg := h.register (Bool.not_eq_true _ ▸ ha) (Nat.not_le.mp hfull)
      have hinfo : (r.register a).transceiverInfos a = ⟨true, false, r.numRegistered⟩ :=
        Function.update_self ..
      have hen := hreg.enable (a := a) (by rw [hinfo]) (by rw [hinfo])
      have hbit := Bitmap.or_bit_eq_self (b := (r.register a).bitmap)
        (lt_of_lt_of_le (hreg.index_lt (a := a) (by rw [hinfo])) hreg.registered_le)
      rw [hreg.mem_bitmap_index (by rw [hinfo]), hinfo, index, hinfo] at hbit
      have hincR : increment r.numRegistered = .ok (r.numRegistered + 1) :=
        increment_of_lt (by rw [← h.length_registered]; omega)
      have hcheck := hen.checkTransceiversInvariants_eq
      simp only [TransceiverRegistry.enable, TransceiverRegistry.register,
        TransceiverRegistry.setEnabled, setInfo, index, Function.update_self,
        Function.update_idem] at hcheck
      simp only [TransceiverRegistry.register, setInfo, Bool.false_eq_true, iff_false] at hbit
      simp only [hfull, if_false, hincR, hincE, setInfo, index, Function.update_self, hbit,
        hcheck, TransceiverRegistry.enable, TransceiverRegistry.register,
        TransceiverRegistry.setEnabled, Function.update_idem]

/-- Removal, from a registry in the invariant: the assertions and the checks pass. -/
theorem removeTransceiver_eq : r.removeTransceiver a =
    if a = 0 then .error .invalidTransceiverZeroAddress
    else if (r.transceiverInfos a).registered = false then .error (.nonRegisteredTransceiver a)
    else if (r.transceiverInfos a).enabled = false then .error (.disabledTransceiver a)
    else .ok (r.disable a) := by
  by_cases ha0 : a = 0
  · simp only [TransceiverRegistry.removeTransceiver, throwIf, ha0, if_true]
    rfl
  by_cases ha : (r.transceiverInfos a).registered = false
  · simp only [TransceiverRegistry.removeTransceiver, throwIf, ha0, ha, if_true, if_false, bind,
      Except.bind]
  rw [Bool.not_eq_false] at ha
  by_cases hen : (r.transceiverInfos a).enabled = false
  · simp only [TransceiverRegistry.removeTransceiver, throwIf, ha0, ha, hen, if_true, if_false,
      bind, Except.bind, Bool.true_eq_false]
  rw [Bool.not_eq_false] at hen
  have hmem : a ∈ r.enabledTransceivers := (h.mem_enabled a).mpr ⟨ha, hen⟩
  have hdec : decrement r.numEnabled = .ok (r.numEnabled - 1) := by
    refine if_neg fun h0 => ?_
    have := h.length_enabled
    rw [h0] at this
    exact List.ne_nil_of_mem hmem (List.eq_nil_of_length_eq_zero this)
  have hbit := Bitmap.and_not_bit_lt ((h.mem_bitmap_index ha).mpr hen)
  have hremoved := (removeEnabled_spec hmem).1
  have hdis := h.disable ha hen
  have hcheck := hdis.checkTransceiversInvariants_eq
  have hcheck' := hdis.checkTransceiverInvariants_eq (a := a)
    ((setEnabled_registered r a a false).trans ha)
  rw [index] at hbit
  simp only [TransceiverRegistry.disable, TransceiverRegistry.setEnabled, setInfo,
    index, ha] at hcheck hcheck'
  simp only [TransceiverRegistry.removeTransceiver, throwIf, assert, ha0, ha, hen, if_true,
    if_false, bind, Except.bind, pure, Except.pure, setInfo, hdec, index, Function.update_self,
    hbit, hremoved, hcheck, hcheck', TransceiverRegistry.disable,
    TransceiverRegistry.setEnabled, Bool.true_eq_false]

end Inv

end TransceiverRegistry

namespace Quorum

/-- The registry is in order, and the threshold fits it. -/
structure Inv (q : Quorum) : Prop where
  registry : q.registry.Inv
  /-- The threshold is at most the number of enabled transceivers. -/
  threshold_le : q.threshold.toNat ≤ q.registry.enabledTransceivers.length
  /-- It is positive as soon as one transceiver is registered. -/
  threshold_pos : q.registry.registeredTransceivers ≠ [] → 0 < q.threshold.toNat

theorem Inv.empty : Inv .empty :=
  ⟨.empty, Nat.le_refl 0, fun h => absurd rfl h⟩

/-- The threshold check in terms of the lists. -/
theorem checkThresholdInvariants_eq {r : TransceiverRegistry} (h : r.Inv) (threshold : UInt8) :
    checkThresholdInvariants ⟨r, threshold⟩ =
      if r.enabledTransceivers.length < threshold.toNat then
        .error (.thresholdTooHigh threshold r.numEnabled)
      else if r.registeredTransceivers ≠ [] ∧ threshold = 0 then .error .zeroThreshold
      else .ok () := by
  have hgt : threshold > r.numEnabled ↔ r.enabledTransceivers.length < threshold.toNat := by
    rw [h.length_enabled]
    exact UInt8.lt_iff_toNat_lt
  have hpos : r.numRegistered > 0 ↔ r.registeredTransceivers ≠ [] := by
    rw [gt_iff_lt, UInt8.lt_iff_toNat_lt, ← h.length_registered]
    exact List.length_pos_iff
  simp only [checkThresholdInvariants, throwIf, hgt, hpos]
  split
  · rfl
  · rfl

theorem toNat_pos {x : UInt8} : 0 < x.toNat ↔ x ≠ 0 := by
  rw [Nat.pos_iff_ne_zero, not_iff_not, ← UInt8.toNat_inj]
  rfl

end Quorum

/-! ### Any sequence of operations -/

namespace RegistryOp

/-- The reasons for which an operation can be refused, all of them about its argument. -/
def Refusal (q : Quorum) : RegistryOp → Error → Prop
  | .setTransceiver a, e =>
      e = .invalidTransceiverZeroAddress ∧ a = 0 ∨
      e = .transceiverAlreadyEnabled a ∧ a ∈ q.registry.enabledTransceivers ∨
      e = .tooManyTransceivers ∧ q.registry.registeredTransceivers.length = 64
  | .removeTransceiver a, e =>
      e = .invalidTransceiverZeroAddress ∧ a = 0 ∨
      e = .nonRegisteredTransceiver a ∧ a ∉ q.registry.registeredTransceivers ∨
      e = .disabledTransceiver a ∧ a ∉ q.registry.enabledTransceivers ∨
      e = .zeroThreshold ∧ q.registry.enabledTransceivers = [a]
  | .setThreshold n, e =>
      e = .zeroThreshold ∧ n = 0 ∨
      e = .thresholdTooHigh n q.registry.numEnabled ∧
        q.registry.enabledTransceivers.length < n.toNat

/-- An operation from a quorum in order: it succeeds in order and drops no registered
transceiver, or it refuses its argument. -/
def Spec (q : Quorum) (op : RegistryOp) : Except Error Quorum → Prop
  | .ok q' => q'.Inv ∧ q.registry.registeredTransceivers <+: q'.registry.registeredTransceivers
  | .error e => op.Refusal q e

theorem run_append (q : Quorum) (pre post : List RegistryOp) :
    run q (pre ++ post) = run (run q pre) post := by
  induction pre generalizing q with
  | nil => rfl
  | cons op pre ih => exact ih (op.next q)

variable {q : Quorum} (h : q.Inv)
include h

/-- What is left of setting a transceiver once it is enabled: the threshold check passes. -/
theorem setTransceiver_tail {a : Address} {r : TransceiverRegistry} (hr : r.Inv)
    (hlen : r.enabledTransceivers.length = q.registry.enabledTransceivers.length + 1)
    (hpre : q.registry.registeredTransceivers <+: r.registeredTransceivers)
    (heq : q.registry.setTransceiver a = .ok r) :
    Spec q (.setTransceiver a) (q.setTransceiver a) := by
  have hle := h.threshold_le
  have hthr : (if q.threshold = 0 then 1 else q.threshold).toNat ≤ r.enabledTransceivers.length ∧
      (if q.threshold = 0 then 1 else q.threshold) ≠ 0 := by
    rw [hlen]
    split
    · exact ⟨by simp, by decide⟩
    · exact ⟨by omega, ‹_›⟩
  simp only [Quorum.setTransceiver, heq, bind, Except.bind,
    Quorum.checkThresholdInvariants_eq hr, if_neg (Nat.not_lt.mpr hthr.1),
    if_neg (fun hc : _ ∧ _ => hthr.2 hc.2), pure, Except.pure, Spec]
  exact ⟨⟨hr, hthr.1, fun _ => Quorum.toNat_pos.mpr hthr.2⟩, hpre⟩

theorem setTransceiver_spec (a : Address) : Spec q (.setTransceiver a) (q.setTransceiver a) := by
  have hr := h.registry
  have heq := hr.setTransceiver_eq (a := a)
  by_cases ha0 : a = 0
  · rw [if_pos ha0] at heq
    rw [Quorum.setTransceiver, heq]
    exact .inl ⟨rfl, ha0⟩
  rw [if_neg ha0] at heq
  by_cases ha : (q.registry.transceiverInfos a).registered = true
  · rw [if_pos ha] at heq
    by_cases hen : (q.registry.transceiverInfos a).enabled = true
    · rw [if_pos hen] at heq
      rw [Quorum.setTransceiver, heq]
      exact .inr (.inl ⟨rfl, (hr.mem_enabled a).mpr ⟨ha, hen⟩⟩)
    · rw [if_neg hen] at heq
      refine setTransceiver_tail h (hr.enable ha (Bool.not_eq_true _ ▸ hen)) ?_ List.prefix_rfl heq
      simp [TransceiverRegistry.enable, TransceiverRegistry.setEnabled,
        TransceiverRegistry.setInfo]
  · rw [if_neg ha] at heq
    have hle := hr.registered_le
    by_cases hfull : 64 ≤ q.registry.registeredTransceivers.length
    · rw [if_pos hfull] at heq
      rw [Quorum.setTransceiver, heq]
      exact .inr (.inr ⟨rfl, by omega⟩)
    · rw [if_neg hfull] at heq
      have hinfo : (q.registry.register a).transceiverInfos a =
          ⟨true, false, q.registry.numRegistered⟩ := Function.update_self ..
      have hreg := hr.register (Bool.not_eq_true _ ▸ ha) (Nat.not_le.mp hfull)
      refine setTransceiver_tail h (hreg.enable (a := a) (by rw [hinfo]) (by rw [hinfo])) ?_
        (List.prefix_append _ [a]) heq
      simp [TransceiverRegistry.enable, TransceiverRegistry.setEnabled,
        TransceiverRegistry.register, TransceiverRegistry.setInfo]

theorem removeTransceiver_spec (a : Address) :
    Spec q (.removeTransceiver a) (q.removeTransceiver a) := by
  have hr := h.registry
  have heq := hr.removeTransceiver_eq (a := a)
  by_cases ha0 : a = 0
  · rw [if_pos ha0] at heq
    rw [Quorum.removeTransceiver, heq]
    exact .inl ⟨rfl, ha0⟩
  rw [if_neg ha0] at heq
  by_cases ha : (q.registry.transceiverInfos a).registered = false
  · rw [if_pos ha] at heq
    rw [Quorum.removeTransceiver, heq]
    refine .inr (.inl ⟨rfl, fun hmem => ?_⟩)
    obtain ⟨i, hi⟩ := List.mem_iff_getElem?.mp hmem
    exact Bool.false_ne_true (ha.symm.trans ((hr.registered_get i a).mp hi).1)
  rw [if_neg ha] at heq
  by_cases hen : (q.registry.transceiverInfos a).enabled = false
  · rw [if_pos hen] at heq
    rw [Quorum.removeTransceiver, heq]
    refine .inr (.inr (.inl ⟨rfl, fun hmem => ?_⟩))
    exact Bool.false_ne_true (hen.symm.trans ((hr.mem_enabled a).mp hmem).2)
  rw [if_neg hen] at heq
  rw [Bool.not_eq_false] at ha hen
  have hmem := (hr.mem_enabled a).mpr ⟨ha, hen⟩
  have hdis := hr.disable ha hen
  have hperm : (a :: (q.registry.disable a).enabledTransceivers).Perm
      q.registry.enabledTransceivers := (TransceiverRegistry.Inv.removeEnabled_spec hmem).2
  have hreg : q.registry.registeredTransceivers ≠ [] :=
    List.ne_nil_of_mem (List.mem_of_getElem? ((hr.registered_get _ a).mpr ⟨ha, rfl⟩))
  have hpos := h.threshold_pos hreg
  -- the threshold after the removal is the smaller of the old one and what is left
  have hmin : (if (q.registry.disable a).numEnabled < q.threshold
      then (q.registry.disable a).numEnabled else q.threshold).toNat =
      min (q.registry.disable a).enabledTransceivers.length q.threshold.toNat := by
    rw [hdis.length_enabled]
    split <;> rename_i hlt <;> rw [UInt8.lt_iff_toNat_lt] at hlt <;> omega
  generalize hthr : (if (q.registry.disable a).numEnabled < q.threshold
      then (q.registry.disable a).numEnabled else q.threshold) = thr at hmin
  simp only [Quorum.removeTransceiver, heq, bind, Except.bind, hthr,
    Quorum.checkThresholdInvariants_eq hdis]
  rw [if_neg (by rw [hmin]; omega)]
  by_cases hzero : thr = 0
  · rw [if_pos ⟨hreg, hzero⟩]
    refine .inr (.inr (.inr ⟨rfl, ?_⟩))
    have hnil : (q.registry.disable a).enabledTransceivers = [] := by
      rw [hzero] at hmin
      exact List.eq_nil_of_length_eq_zero (by simp at hmin; omega)
    rw [hnil] at hperm
    exact (List.singleton_perm.mp hperm).symm
  · rw [if_neg (fun hc => hzero hc.2)]
    refine ⟨⟨hdis, ?_, fun _ => Quorum.toNat_pos.mpr hzero⟩, List.prefix_rfl⟩
    rw [hmin]
    exact min_le_left _ _

theorem setThreshold_spec (n : UInt8) : Spec q (.setThreshold n) (q.setThreshold n) := by
  have hr := h.registry
  by_cases hn : n = 0
  · simp only [Quorum.setThreshold, throwIf, hn, if_true, bind, Except.bind, Spec]
    exact .inl ⟨rfl, rfl⟩
  simp only [Quorum.setThreshold, throwIf, hn, if_false, bind, Except.bind,
    Quorum.checkThresholdInvariants_eq hr]
  by_cases hlt : q.registry.enabledTransceivers.length < n.toNat
  · rw [if_pos hlt]
    exact .inr ⟨rfl, hlt⟩
  · rw [if_neg hlt, if_neg (fun hc => hc.2)]
    exact ⟨⟨hr, Nat.not_lt.mp hlt, fun _ => Quorum.toNat_pos.mpr hn⟩, List.prefix_rfl⟩

/-- Every operation, from a quorum in order. -/
theorem apply_spec (op : RegistryOp) : Spec q op (op.apply q) := by
  cases op with
  | setTransceiver a => exact setTransceiver_spec h a
  | removeTransceiver a => exact removeTransceiver_spec h a
  | setThreshold n => exact setThreshold_spec h n

/-- One operation, reverting or not, keeps the quorum in order and drops nobody. -/
theorem next_spec (op : RegistryOp) : (op.next q).Inv ∧
    q.registry.registeredTransceivers <+: (op.next q).registry.registeredTransceivers := by
  have := apply_spec h op
  rw [next]
  cases hop : op.apply q with
  | error e => exact ⟨h, List.prefix_rfl⟩
  | ok q' => rwa [hop] at this

/-- Any sequence of operations keeps the quorum in order and drops nobody. Induction on the
sequence. -/
theorem run_spec (ops : List RegistryOp) : (run q ops).Inv ∧
    q.registry.registeredTransceivers <+: (run q ops).registry.registeredTransceivers := by
  induction ops generalizing q with
  | nil => exact ⟨h, List.prefix_rfl⟩
  | cons op ops ih =>
      obtain ⟨hi, hp⟩ := next_spec h op
      obtain ⟨hi', hp'⟩ := ih hi
      exact ⟨hi', hp.trans hp'⟩

omit h

/-- **The registry and threshold invariant.** After any sequence of operations the views agree
and the threshold fits; what was registered stays registered at its position; and the next
operation fires no assertion: it succeeds, or refuses its argument. -/
theorem registry_safe (ops : List RegistryOp) :
    (run .empty ops).Inv ∧
    (∀ pre post, ops = pre ++ post → (run .empty pre).registry.registeredTransceivers <+:
      (run .empty ops).registry.registeredTransceivers) ∧
    ∀ op : RegistryOp, op.apply (run .empty ops) ≠ .error .assertFailed ∧
      ∀ e, op.apply (run .empty ops) = .error e → op.Refusal (run .empty ops) e := by
  have hinv := (run_spec .empty ops).1
  refine ⟨hinv, ?_, fun op => ?_⟩
  · rintro pre post rfl
    rw [run_append]
    exact (run_spec (run_spec .empty pre).1 post).2
  · have hspec := apply_spec hinv op
    have hrefuse : ∀ e, op.apply (run .empty ops) = .error e →
        op.Refusal (run .empty ops) e := by
      intro e he
      rwa [he] at hspec
    refine ⟨fun hassert => ?_, hrefuse⟩
    have := hrefuse _ hassert
    cases op <;> simp [Refusal] at this

end RegistryOp

end Ntt
