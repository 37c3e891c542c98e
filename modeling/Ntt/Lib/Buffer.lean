import Mathlib.Data.List.Basic
import Mathlib.Tactic.Common

/-!
# Buffers

A buffer of fixed size is written at offsets, and a write beyond its end fails. Writers of binary
layouts fill one from the front: when each write starts where the last one ended, what is written so
far is the concatenation, whatever the buffer held before (`write_append`).

A buffer that grows on demand can also be filled out of order. `Assembled` says what then stands in
it at the positions that were written so far; a chunk adds its positions (`Assembled.write`), and
when all are there the buffer is the message (`Assembled.complete`).
-/

namespace Buffer

variable {α : Type*}

/-- Writes a segment at an offset. -/
def write (buffer : List α) (segment : List α) (offset : ℕ) : Option (List α) :=
  if offset + segment.length ≤ buffer.length then
    some (buffer.take offset ++ segment ++ buffer.drop (offset + segment.length))
  else
    none

/-- **The next segment.** A write where the front ends extends the front. -/
theorem write_append {front rest segment : List α} {offset : ℕ} (hoffset : front.length = offset)
    (hfits : segment.length ≤ rest.length) : write (front ++ rest) segment offset =
      some (front ++ segment ++ rest.drop segment.length) := by
  subst hoffset
  rw [write, if_pos (by rw [List.length_append]; omega), List.take_left, ← List.drop_drop,
    List.drop_left]

/-- A write leaves the size as it is. -/
theorem length_write {buffer segment buffer' : List α} {offset : ℕ}
    (h : write buffer segment offset = some buffer') : buffer'.length = buffer.length := by
  rw [write] at h
  split at h
  · obtain rfl := Option.some.inj h
    simp only [List.length_append, List.length_take, List.length_drop]
    omega
  · cases h

/-- What a write changes: the segment stands in its range, and nothing else is touched. -/
theorem getElem?_write {buffer segment buffer' : List α} {offset : ℕ}
    (h : write buffer segment offset = some buffer') (i : ℕ) :
    buffer'[i]? = if offset ≤ i ∧ i < offset + segment.length then segment[i - offset]?
      else buffer[i]? := by
  rw [write] at h
  split at h
  · rename_i hfits
    obtain rfl := Option.some.inj h
    have hlen : (buffer.take offset).length = offset := List.length_take_of_le (by omega)
    rw [List.append_assoc]
    rcases Nat.lt_or_ge i offset with hi | hi
    · rw [if_neg (by omega), List.getElem?_append_left (by omega), List.getElem?_take_of_lt hi]
    · rw [List.getElem?_append_right (by omega), hlen]
      rcases Nat.lt_or_ge i (offset + segment.length) with hi' | hi'
      · rw [if_pos ⟨hi, hi'⟩, List.getElem?_append_left (by omega)]
      · rw [if_neg (by omega), List.getElem?_append_right (by omega), List.getElem?_drop]
        congr 1
        omega
  · cases h

/-- A buffer with a new size; what is new is filled. -/
def resize (buffer : List α) (size : ℕ) (fill : α) : List α :=
  buffer.take size ++ List.replicate (size - buffer.length) fill

theorem length_resize {buffer : List α} {size : ℕ} {fill : α} (h : buffer.length ≤ size) :
    (resize buffer size fill).length = size := by
  rw [resize, List.take_of_length_le h, List.length_append, List.length_replicate]
  omega

theorem getElem?_resize {buffer : List α} {size i : ℕ} {fill : α} (h : buffer.length ≤ size)
    (hi : i < buffer.length) : (resize buffer size fill)[i]? = buffer[i]? := by
  rw [resize, List.take_of_length_le h, List.getElem?_append_left hi]

/-- With the filling beyond its end, a buffer does not change. -/
theorem getD_resize {buffer : List α} {size : ℕ} {fill : α} (h : buffer.length ≤ size) (i : ℕ) :
    (resize buffer size fill)[i]?.getD fill = buffer[i]?.getD fill := by
  rcases Nat.lt_or_ge i buffer.length with hi | hi
  · rw [getElem?_resize h hi]
  · rw [resize, List.take_of_length_le h, List.getElem?_append_right hi,
      List.getElem?_eq_none (l := buffer) hi, List.getElem?_replicate]
    split <;> rfl

/-! ### Filling a buffer out of order -/

/-- The buffer holds what the message has at the positions that were written. -/
structure Assembled (message : List α) (written : ℕ → Prop) (buffer : List α) : Prop where
  length_le : buffer.length ≤ message.length
  lt : ∀ i, written i → i < buffer.length
  holds : ∀ i, written i → buffer[i]? = message[i]?

namespace Assembled

variable {message buffer : List α} {written : ℕ → Prop}

theorem nil : Assembled message (fun _ => False) [] where
  length_le := Nat.zero_le _
  lt _ h := h.elim
  holds _ h := h.elim

theorem congr {written' : ℕ → Prop} (h : Assembled message written buffer)
    (hiff : ∀ i, written' i → written i) : Assembled message written' buffer where
  length_le := h.length_le
  lt i hi := h.lt i (hiff i hi)
  holds i hi := h.holds i (hiff i hi)

/-- **One chunk.** A buffer that is large enough holds the chunk as well, once it is written. -/
theorem write {buffer' chunk grown : List α} {offset : ℕ} (h : Assembled message written buffer)
    (hchunk : chunk <+: message.drop offset) (hne : chunk ≠ [])
    (hgrown : grown.length = max buffer.length (offset + chunk.length))
    (hkeeps : ∀ i < buffer.length, grown[i]? = buffer[i]?)
    (hwrite : Buffer.write grown chunk offset = some buffer') :
    Assembled message (fun i => written i ∨ offset ≤ i ∧ i < offset + chunk.length) buffer' := by
  have hlen := length_write hwrite
  have hle := hchunk.length_le
  rw [List.length_drop] at hle
  have hpos := List.length_pos_iff.mpr hne
  have hmessage := h.length_le
  refine ⟨by omega, ?_, ?_⟩
  · rintro i (hi | hi)
    · have := h.lt i hi
      omega
    · omega
  · intro i hi
    rw [getElem?_write hwrite]
    split
    · rename_i hrange
      obtain ⟨rest, hrest⟩ := hchunk
      have hat : (message.drop offset)[i - offset]? = message[i]? := by
        rw [List.getElem?_drop]
        congr 1
        omega
      rw [← hat, ← hrest, List.getElem?_append_left (by omega)]
    · rename_i hrange
      have hi := hi.resolve_right hrange
      rw [hkeeps i (h.lt i hi), h.holds i hi]

/-- **All chunks.** Once every position was written, the buffer is the message. -/
theorem complete (h : Assembled message written buffer) (hall : ∀ i < message.length, written i) :
    buffer = message := by
  refine List.ext_getElem? fun i => ?_
  rcases Nat.lt_or_ge i message.length with hi | hi
  · exact h.holds i (hall i hi)
  · have := h.length_le
    rw [List.getElem?_eq_none hi, List.getElem?_eq_none (by omega)]

/-- A chunk whose positions were written is there. -/
theorem chunk {chunk : List α} {offset : ℕ} (h : Assembled message written buffer)
    (hchunk : chunk <+: message.drop offset)
    (hall : ∀ i, offset ≤ i → i < offset + chunk.length → written i) :
    chunk <+: buffer.drop offset := by
  obtain ⟨rest, hrest⟩ := hchunk
  refine List.prefix_iff_getElem?.mpr fun i hi => ?_
  have hat : message[offset + i]? = some chunk[i] := by
    rw [← List.getElem?_drop, ← hrest, List.getElem?_append_left hi, List.getElem?_eq_getElem hi]
  rw [List.getElem?_drop, h.holds _ (hall _ (by omega) (by omega)), hat]

end Assembled

end Buffer
