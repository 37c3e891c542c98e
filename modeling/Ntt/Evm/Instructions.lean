import Ntt.Evm.WireFormat

/-!
# Transceiver Instructions

The caller's instructions to the transceivers, one for each transceiver that needs one, in the
order of the indices. The parser reads the instructions one after the other without checking
bounds, refuses an index that is not above the one before or not that of a registered transceiver,
and checks the length at the end.

`instructionsFrom` is what the reads of the loop return, whatever they are; `Ordered` says which
of these lists the loop goes through with, and `Placed` what array it makes of them. That the list
is what was encoded, and that nothing is left over, is the final check (`instructionsFrom_window`).

## Main results

* `parseTransceiverInstructions_eq_ok`: the parser accepts exactly the encodings of ordered lists.
* `encodeTransceiverInstructions_inj`: distinct lists have distinct encodings.
* `instructions_strict`: both, with the array that is returned.
-/

namespace Ntt

open BigEndian

/-! ### Encoding -/

def encodeTransceiverInstruction (instruction : TransceiverInstruction) : Except Error Bytes := do
  throwIf (instruction.payload.length > 255) (.payloadTooLong instruction.payload.length)
  let payloadLength := UInt8.ofNat instruction.payload.length
  return packUint8 instruction.index ++ packUint8 payloadLength ++ instruction.payload

/-- The loop over the instructions that are left, with what is encoded so far. -/
def encodeInstructionsLoop : List TransceiverInstruction → Bytes → Except Error Bytes
  | [], encoded => .ok encoded
  | instruction :: instructions, encoded => do
      let innerEncoded ← encodeTransceiverInstruction instruction
      encodeInstructionsLoop instructions (encoded ++ innerEncoded)

def encodeTransceiverInstructions (instructions : List TransceiverInstruction) :
    Except Error Bytes := do
  throwIf (instructions.length > 255) (.payloadTooLong instructions.length)
  let encoded ← encodeInstructionsLoop instructions []
  return packUint8 (UInt8.ofNat instructions.length) ++ encoded

/-- An instruction, packed. -/
def instructionBytes (instruction : TransceiverInstruction) : Bytes :=
  packUint8 instruction.index ++ packUint8 (UInt8.ofNat instruction.payload.length) ++
    instruction.payload

theorem length_instructionBytes (x : TransceiverInstruction) :
    (instructionBytes x).length = 2 + x.payload.length := by
  rw [instructionBytes, packUint8, packUint8, List.length_append, List.length_append,
    length_beBytes, length_beBytes]

theorem encodeTransceiverInstruction_eq_ok {x : TransceiverInstruction} {b : Bytes} :
    encodeTransceiverInstruction x = .ok b ↔ x.payload.length ≤ 255 ∧ instructionBytes x = b := by
  simp only [encodeTransceiverInstruction, Except.bind_eq_ok, throwIf_eq_ok, Except.pure_eq_ok,
    gt_iff_lt, not_lt, exists_and_left, exists_const, instructionBytes]

theorem encodeInstructionsLoop_eq_ok {l : List TransceiverInstruction} {encoded b : Bytes} :
    encodeInstructionsLoop l encoded = .ok b ↔
      (∀ x ∈ l, x.payload.length ≤ 255) ∧ encoded ++ l.flatMap instructionBytes = b := by
  induction l generalizing encoded with
  | nil => simp [encodeInstructionsLoop]
  | cons x l ih =>
      simp only [encodeInstructionsLoop, Except.bind_eq_ok, encodeTransceiverInstruction_eq_ok, ih,
        List.forall_mem_cons, List.flatMap_cons, List.append_assoc]
      constructor
      · rintro ⟨_, ⟨hx, rfl⟩, hl, hb⟩
        exact ⟨⟨hx, hl⟩, hb⟩
      · rintro ⟨⟨hx, hl⟩, hb⟩
        exact ⟨_, ⟨hx, rfl⟩, hl, hb⟩

theorem encodeTransceiverInstructions_eq_ok {l : List TransceiverInstruction} {b : Bytes} :
    encodeTransceiverInstructions l = .ok b ↔ l.length ≤ 255 ∧
      (∀ x ∈ l, x.payload.length ≤ 255) ∧
        packUint8 (UInt8.ofNat l.length) ++ l.flatMap instructionBytes = b := by
  simp only [encodeTransceiverInstructions, Except.bind_eq_ok, throwIf_eq_ok,
    encodeInstructionsLoop_eq_ok, Except.pure_eq_ok, gt_iff_lt, not_lt, List.nil_append]
  constructor
  · rintro ⟨_, hlen, _, ⟨hl, rfl⟩, hb⟩
    exact ⟨hlen, hl, hb⟩
  · rintro ⟨hlen, hl, hb⟩
    exact ⟨(), hlen, _, ⟨hl, rfl⟩, hb⟩

/-! ### Lists and arrays -/

/-- The instructions are in the order of their indices, and all for registered transceivers. -/
structure Ordered (numRegisteredTransceivers : ℕ) (instructions : List TransceiverInstruction) :
    Prop where
  increasing : instructions.Pairwise fun x y => x.index.toNat < y.index.toNat
  registered : ∀ x ∈ instructions, x.index.toNat < numRegisteredTransceivers

/-- The array of the transceivers has each instruction in the place of its own index, and is empty
everywhere else. -/
structure Placed (numRegisteredTransceivers : ℕ) (instructions : List TransceiverInstruction)
    (array : List TransceiverInstruction) : Prop where
  length : array.length = numRegisteredTransceivers
  own : ∀ x ∈ instructions, array[x.index.toNat]? = some x
  empty : ∀ j < numRegisteredTransceivers, (∀ x ∈ instructions, x.index.toNat ≠ j) →
    array[j]? = some ⟨0, []⟩

/-- The instructions are put into an array. -/
def place (array instructions : List TransceiverInstruction) : List TransceiverInstruction :=
  instructions.foldl (fun array x => array.set x.index.toNat x) array

theorem length_place {l array : List TransceiverInstruction} :
    (place array l).length = array.length := by
  induction l generalizing array with
  | nil => rfl
  | cons x l ih => exact ih.trans (List.length_set ..)

theorem getElem?_place_of_ne {l array : List TransceiverInstruction} {j : ℕ}
    (hj : ∀ x ∈ l, x.index.toNat ≠ j) : (place array l)[j]? = array[j]? := by
  induction l generalizing array with
  | nil => rfl
  | cons x l ih =>
      have hset := List.getElem?_set_ne (a := x) (l := array) (hj x List.mem_cons_self)
      exact (ih fun y hy => hj y (List.mem_cons_of_mem _ hy)).trans hset

theorem getElem?_place {l array : List TransceiverInstruction} {n : ℕ} (hl : Ordered n l)
    (hlen : array.length = n) : ∀ x ∈ l, (place array l)[x.index.toNat]? = some x := by
  induction l generalizing array with
  | nil => simp
  | cons y l ih =>
      obtain ⟨hlt, hinc⟩ := List.pairwise_cons.mp hl.increasing
      have hrest : Ordered n l := ⟨hinc, fun x hx => hl.registered x (List.mem_cons_of_mem _ hx)⟩
      have hlen' : (array.set y.index.toNat y).length = n := (List.length_set ..).trans hlen
      intro x hx
      rcases List.mem_cons.mp hx with rfl | hx
      · have hne : ∀ y ∈ l, y.index.toNat ≠ x.index.toNat := fun y hy => (hlt y hy).ne'
        have hown : (array.set x.index.toNat x)[x.index.toNat]? = some x :=
          List.getElem?_set_self (by
            rw [hlen]
            exact hl.registered x List.mem_cons_self)
        exact (getElem?_place_of_ne hne).trans hown
      · exact ih hrest hlen' x hx

/-- An ordered list put into an empty array. -/
theorem Ordered.placed {n : ℕ} {l : List TransceiverInstruction} (hl : Ordered n l) :
    Placed n l (place (List.replicate n ⟨0, []⟩) l) where
  length := length_place.trans List.length_replicate
  own := getElem?_place hl List.length_replicate
  empty _ hj hne := (getElem?_place_of_ne hne).trans (List.getElem?_replicate_of_lt hj)

/-- There is one such array. -/
theorem Placed.unique {n : ℕ} {l array array' : List TransceiverInstruction}
    (h : Placed n l array) (h' : Placed n l array') : array = array' := by
  refine List.ext_getElem? fun j => ?_
  by_cases hj : j < n
  · by_cases hown : ∃ x ∈ l, x.index.toNat = j
    · obtain ⟨x, hx, rfl⟩ := hown
      exact (h.own x hx).trans (h'.own x hx).symm
    · have hne : ∀ x ∈ l, x.index.toNat ≠ j := fun x hx hxj => hown ⟨x, hx, hxj⟩
      exact (h.empty j hj hne).trans (h'.empty j hj hne).symm
  · rw [List.getElem?_eq_none (by rw [h.length]; omega),
      List.getElem?_eq_none (by rw [h'.length]; omega)]

/-! ### Reading -/

/-- The instructions that a number of rounds read from an offset on, and the offset after them. -/
def instructionsFrom (P : BytesParsing) (encoded : Bytes) :
    ℕ → ℕ → List TransceiverInstruction × ℕ
  | 0, offset => ([], offset)
  | rounds + 1, offset =>
      let (instruction, offset) := parseTransceiverInstructionUnchecked P encoded offset
      let (instructions, offset) := instructionsFrom P encoded rounds offset
      (instruction :: instructions, offset)

theorem instructionsFrom_succ {P : BytesParsing} {b : Bytes} {rounds o : ℕ} :
    instructionsFrom P b (rounds + 1) o =
      let r := parseTransceiverInstructionUnchecked P b o
      (r.1 :: (instructionsFrom P b rounds r.2).1, (instructionsFrom P b rounds r.2).2) := rfl

/-- The loop goes through with the lists that are ordered, and above the last index. -/
theorem parseInstructionsLoop_eq_ok {P : BytesParsing} {b : Bytes} {n rounds i lastIndex o : ℕ}
    {array : List TransceiverInstruction} {r : List TransceiverInstruction × ℕ} :
    parseInstructionsLoop P b n rounds i lastIndex o array = .ok r ↔
      Ordered n (instructionsFrom P b rounds o).1 ∧
      (i ≠ 0 → ∀ x ∈ (instructionsFrom P b rounds o).1, lastIndex < x.index.toNat) ∧
      r = (place array (instructionsFrom P b rounds o).1, (instructionsFrom P b rounds o).2) := by
  induction rounds generalizing i lastIndex o array with
  | zero =>
      have hnil : Ordered n [] := ⟨.nil, by simp⟩
      simp [parseInstructionsLoop, instructionsFrom, hnil, place, eq_comm]
  | succ rounds ih =>
      rw [instructionsFrom_succ]
      simp only [parseInstructionsLoop, Except.bind_eq_ok, throwIf_eq_ok, ih, not_and, not_le,
        ge_iff_le, ne_eq, Nat.succ_ne_zero, not_false_eq_true, forall_const]
      generalize parseTransceiverInstructionUnchecked P b o = x
      generalize (instructionsFrom P b rounds x.2) = rest
      constructor
      · rintro ⟨_, habove, _, hlt, hrest, hfirst, rfl⟩
        refine ⟨⟨List.pairwise_cons.mpr ⟨hfirst, hrest.increasing⟩,
          List.forall_mem_cons.mpr ⟨hlt, hrest.registered⟩⟩, fun hi => ?_, rfl⟩
        exact List.forall_mem_cons.mpr
          ⟨habove hi, fun y hy => (habove hi).trans (hfirst y hy)⟩
      · rintro ⟨hall, habove, rfl⟩
        obtain ⟨hfirst, hinc⟩ := List.pairwise_cons.mp hall.increasing
        obtain ⟨hlt, hreg⟩ := List.forall_mem_cons.mp hall.registered
        exact ⟨(), fun hi => habove hi _ List.mem_cons_self, (), hlt, ⟨hinc, hreg⟩, hfirst, rfl⟩

section

variable {P : BytesParsing} (hP : P.Advancing) {b : Bytes}
include hP

/-- What one round reads stands there, packed, if it has not passed the end. -/
theorem instruction_window {x : TransceiverInstruction} {o o' : ℕ}
    (h : parseTransceiverInstructionUnchecked P b o = (x, o')) :
    Window b o o' (instructionBytes x) ∧ (o' ≤ b.length → x.payload.length ≤ 255) := by
  rcases hindex : P.asUint8Unchecked b o with ⟨index, o₁⟩
  rcases hn : P.asUint8Unchecked b o₁ with ⟨instructionLength, o₂⟩
  rcases hpayload : P.sliceUnchecked b o₂ instructionLength.toNat with ⟨payload, o₃⟩
  simp only [parseTransceiverInstructionUnchecked, hindex, hn, hpayload, Prod.mk.injEq] at h
  obtain ⟨rfl, rfl⟩ := h
  obtain ⟨hslice, hlen⟩ := hP.window_slice hpayload
  have hwindow := ((hP.window_uint8 hindex).append (hP.window_uint8 hn)).append hslice
  refine ⟨⟨hwindow.1, fun hle => ?_⟩, fun hle => ?_⟩
  · rw [instructionBytes, hlen hle, UInt8.ofNat_toNat]
    exact hwindow.2 hle
  · have hlt := instructionLength.toNat_lt
    rw [hlen hle]
    omega

/-- What the rounds read stands there, packed, if they have not passed the end. -/
theorem instructionsFrom_window (rounds o : ℕ) :
    (instructionsFrom P b rounds o).1.length = rounds ∧
    Window b o (instructionsFrom P b rounds o).2
      ((instructionsFrom P b rounds o).1.flatMap instructionBytes) ∧
    ((instructionsFrom P b rounds o).2 ≤ b.length →
      ∀ x ∈ (instructionsFrom P b rounds o).1, x.payload.length ≤ 255) := by
  induction rounds generalizing o with
  | zero => simp [instructionsFrom, Window, StandsAt]
  | succ rounds ih =>
      rw [instructionsFrom_succ]
      rcases hx : parseTransceiverInstructionUnchecked P b o with ⟨x, o₁⟩
      obtain ⟨hwindow, hshort⟩ := instruction_window hP hx
      obtain ⟨hrounds, hrest, hshorts⟩ := ih o₁
      refine ⟨congrArg Nat.succ hrounds, hwindow.append hrest, fun hle => ?_⟩
      exact List.forall_mem_cons.mpr ⟨hshort (hrest.1.trans hle), hshorts hle⟩

/-- An instruction that stands at an offset is read. -/
theorem parse_instructionBytes {x : TransceiverInstruction} {o : ℕ}
    (h : StandsAt b o (instructionBytes x)) (hx : x.payload.length ≤ 255) :
    parseTransceiverInstructionUnchecked P b o = (x, o + (instructionBytes x).length) := by
  have hlen := length_instructionBytes x
  have hne : instructionBytes x ≠ [] := List.ne_nil_of_length_pos (by omega)
  have hle := h.le hne
  have hpayload : (UInt8.ofNat x.payload.length).toNat = x.payload.length :=
    UInt8.toNat_ofNat_of_lt (by rw [UInt8.size]; omega)
  have hindex := StandsAt.uint8 hP.toLawful h.left.left
  have hn := StandsAt.uint8 hP.toLawful h.left.right
  have hslice := StandsAt.slice hP.toLawful h.right
  simp only [packUint8, List.length_append, length_beBytes] at hn hslice
  simp only [parseTransceiverInstructionUnchecked, hindex, hn, hpayload,
    hslice (by omega), hlen]
  exact Prod.ext rfl (Nat.add_assoc o 2 x.payload.length)

/-- Instructions that stand one after the other are read. -/
theorem instructionsFrom_flatMap {l : List TransceiverInstruction} {o : ℕ}
    (h : StandsAt b o (l.flatMap instructionBytes)) (hl : ∀ x ∈ l, x.payload.length ≤ 255) :
    instructionsFrom P b l.length o = (l, o + (l.flatMap instructionBytes).length) := by
  induction l generalizing o with
  | nil => rfl
  | cons x l ih =>
      rw [List.flatMap_cons] at h
      have hx := parse_instructionBytes hP h.left (hl x List.mem_cons_self)
      have hrest := ih h.right fun y hy => hl y (List.mem_cons_of_mem _ hy)
      rw [List.length_cons, instructionsFrom_succ, hx]
      simp only [hrest, List.flatMap_cons, List.length_append, Nat.add_assoc]

/-- What an encoding is read as. -/
theorem instructionsFrom_encode {l : List TransceiverInstruction}
    (h : encodeTransceiverInstructions l = .ok b) :
    P.asUint8Unchecked b 0 = (UInt8.ofNat l.length, 1) ∧
      (UInt8.ofNat l.length).toNat = l.length ∧
      instructionsFrom P b l.length 1 = (l, b.length) := by
  obtain ⟨hlen, hl, hb⟩ := encodeTransceiverInstructions_eq_ok.mp h
  have h0 := StandsAt.self b
  nth_rewrite 2 [← hb] at h0
  have hn := StandsAt.uint8 hP.toLawful h0.left
  have hstands := h0.right
  simp only [packUint8, length_beBytes, Nat.zero_add] at hstands
  refine ⟨hn, UInt8.toNat_ofNat_of_lt (by rw [UInt8.size]; omega), ?_⟩
  rw [instructionsFrom_flatMap hP hstands hl, ← hb, List.length_append, packUint8, length_beBytes]

/-- **The parser of instructions** accepts exactly the encodings of ordered lists. -/
theorem parseTransceiverInstructions_eq_ok {n : ℕ} {array : List TransceiverInstruction} :
    parseTransceiverInstructions P b n = .ok array ↔
      ∃ l, Ordered n l ∧ encodeTransceiverInstructions l = .ok b ∧ Placed n l array := by
  constructor
  · intro h
    rcases hn : P.asUint8Unchecked b 0 with ⟨instructionsLength, o₁⟩
    simp only [parseTransceiverInstructions, hn, Except.bind_eq_ok, parseInstructionsLoop_eq_ok,
      Except.pure_eq_ok] at h
    obtain ⟨_, ⟨hordered, -, rfl⟩, _, hcheck, rfl⟩ := h
    obtain ⟨hrounds, hwindow, hshort⟩ :=
      instructionsFrom_window hP (b := b) instructionsLength.toNat o₁
    have hwhole := whole_of_checkLength hP ((hP.window_uint8 hn).append hwindow) hcheck
    have hend := (hP.checkLength b _).mp hcheck
    refine ⟨_, hordered, encodeTransceiverInstructions_eq_ok.mpr ⟨?_, hshort hend.le, ?_⟩,
      hordered.placed⟩
    · have hlt := instructionsLength.toNat_lt
      omega
    · rw [hrounds, UInt8.ofNat_toNat]
      exact hwhole.symm
  · rintro ⟨l, hordered, hencode, hplaced⟩
    obtain ⟨hn, hlen, hread⟩ := instructionsFrom_encode hP hencode
    have hloop : parseInstructionsLoop P b n l.length 0 0 1 (List.replicate n ⟨0, []⟩) =
        .ok (array, b.length) := by
      refine parseInstructionsLoop_eq_ok.mpr ?_
      rw [hread, hplaced.unique hordered.placed]
      exact ⟨hordered, fun h => absurd rfl h, rfl⟩
    simp only [parseTransceiverInstructions, hn, hlen, Except.bind_eq_ok, Except.pure_eq_ok]
    exact ⟨_, hloop, (), (hP.checkLength b _).mpr rfl, rfl⟩

end

/-- Distinct lists have distinct encodings. -/
theorem encodeTransceiverInstructions_inj {l l' : List TransceiverInstruction} {b : Bytes}
    (h : encodeTransceiverInstructions l = .ok b) (h' : encodeTransceiverInstructions l' = .ok b) :
    l = l' := by
  obtain ⟨hn, hlen, hread⟩ := instructionsFrom_encode BytesParsing.reference_advancing h
  obtain ⟨hn', hlen', hread'⟩ := instructionsFrom_encode BytesParsing.reference_advancing h'
  have hsame : l.length = l'.length := by
    rw [← hlen, ← hlen', (Prod.mk.inj (hn.symm.trans hn')).1]
  rw [hsame] at hread
  exact (Prod.mk.inj (hread.symm.trans hread')).1

/-- **The parser of instructions.** It succeeds exactly on the encodings of ordered lists. Then the
array has every instruction of the encoded list in the place of its own index and is empty
everywhere else. -/
theorem instructions_strict {P : BytesParsing} (hP : P.Advancing) (n : ℕ) (b : Bytes) :
    ((∃ array, parseTransceiverInstructions P b n = .ok array) ↔
      ∃ l, Ordered n l ∧ encodeTransceiverInstructions l = .ok b) ∧
    ∀ l, encodeTransceiverInstructions l = .ok b →
      (∀ array, parseTransceiverInstructions P b n = .ok array → Ordered n l ∧ Placed n l array) ∧
      (Ordered n l → ∃ array, parseTransceiverInstructions P b n = .ok array ∧
        Placed n l array) := by
  refine ⟨⟨?_, ?_⟩, fun l hencode => ⟨fun array h => ?_, fun hordered => ?_⟩⟩
  · rintro ⟨array, h⟩
    obtain ⟨l, hordered, hencode, -⟩ := (parseTransceiverInstructions_eq_ok hP).mp h
    exact ⟨l, hordered, hencode⟩
  · rintro ⟨l, hordered, hencode⟩
    exact ⟨_, (parseTransceiverInstructions_eq_ok hP).mpr ⟨l, hordered, hencode, hordered.placed⟩⟩
  · obtain ⟨l', hordered, hencode', hplaced⟩ := (parseTransceiverInstructions_eq_ok hP).mp h
    obtain rfl := encodeTransceiverInstructions_inj hencode hencode'
    exact ⟨hordered, hplaced⟩
  · exact ⟨_, (parseTransceiverInstructions_eq_ok hP).mpr ⟨l, hordered, hencode, hordered.placed⟩,
      hordered.placed⟩

/-- Instructions for the first and the third of three transceivers. -/
theorem sample_instructions_strict :
    ∃ array, parseTransceiverInstructions .reference [2, 0, 1, 7, 2, 0] 3 = .ok array ∧
      Placed 3 [⟨0, [7]⟩, ⟨2, []⟩] array := by
  have hencode : encodeTransceiverInstructions [⟨0, [7]⟩, ⟨2, []⟩] = .ok [2, 0, 1, 7, 2, 0] := rfl
  obtain ⟨-, hlist⟩ := instructions_strict BytesParsing.reference_advancing 3 [2, 0, 1, 7, 2, 0]
  exact (hlist _ hencode).2 ⟨by decide, by decide⟩

end Ntt
