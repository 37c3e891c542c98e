import Ntt.Evm.Basic
import Ntt.Lib.BigEndian

/-!
# The Wire Formats of the Contracts

`TransceiverStructs` of the contracts: the messages, their encodings and their parsers. An
encoding packs its fields without padding, each in its own width, most significant byte first.
The parsers read through a byte-parsing library that is not part of the repository; it is the
parameter `BytesParsing`, and what the contracts rely on is `BytesParsing.Lawful`: a read inside
the byte string returns the bytes there and the offset after them, and `checkLength` accepts
exactly the end of the byte string. `BytesParsing.reference` is one implementation that is
lawful.

## Main results

* `parse_encodeNativeTokenTransfer`, `parse_encodeNttManagerMessage`: parsing what was encoded
  gives the message again.
* `encodeNttManagerMessage_inj`: distinct messages have distinct encodings.
* `digestBytes_inj`: so do distinct pairs of a chain and a message.
-/

namespace Ntt

open BigEndian

/-! ### Reading -/

/-- The byte-parsing library: unchecked reads, which return what they read with the offset
after it, and the check that everything was read. -/
structure BytesParsing where
  asUint8Unchecked : Bytes → ℕ → UInt8 × ℕ
  asUint16Unchecked : Bytes → ℕ → UInt16 × ℕ
  asUint64Unchecked : Bytes → ℕ → UInt64 × ℕ
  asBytes4Unchecked : Bytes → ℕ → BitVec 32 × ℕ
  asBytes32Unchecked : Bytes → ℕ → Bytes32 × ℕ
  sliceUnchecked : Bytes → ℕ → ℕ → Bytes × ℕ
  checkLength : Bytes → ℕ → Except Error Unit

/-- The number that `n` bytes at an offset denote. -/
def numberAt (b : Bytes) (offset n : ℕ) : ℕ := beNat ((b.drop offset).take n)

namespace BytesParsing

/-- What the contracts rely on: reads inside the byte string are big-endian, and only the end
of the byte string passes the length check. -/
structure Lawful (P : BytesParsing) : Prop where
  uint8 : ∀ b offset, offset + 1 ≤ b.length →
    P.asUint8Unchecked b offset = (UInt8.ofNat (numberAt b offset 1), offset + 1)
  uint16 : ∀ b offset, offset + 2 ≤ b.length →
    P.asUint16Unchecked b offset = (UInt16.ofNat (numberAt b offset 2), offset + 2)
  uint64 : ∀ b offset, offset + 8 ≤ b.length →
    P.asUint64Unchecked b offset = (UInt64.ofNat (numberAt b offset 8), offset + 8)
  bytes4 : ∀ b offset, offset + 4 ≤ b.length →
    P.asBytes4Unchecked b offset = (BitVec.ofNat 32 (numberAt b offset 4), offset + 4)
  bytes32 : ∀ b offset, offset + 32 ≤ b.length →
    P.asBytes32Unchecked b offset = (BitVec.ofNat 256 (numberAt b offset 32), offset + 32)
  slice : ∀ b offset n, offset + n ≤ b.length →
    P.sliceUnchecked b offset n = ((b.drop offset).take n, offset + n)
  checkLength : ∀ b offset, P.checkLength b offset = .ok () ↔ offset = b.length

/-- A read also moves the offset by its width past the end of the byte string, where nothing is
known of the bytes it returns. -/
structure Advancing (P : BytesParsing) : Prop extends P.Lawful where
  uint8_next : ∀ b offset, (P.asUint8Unchecked b offset).2 = offset + 1
  uint16_next : ∀ b offset, (P.asUint16Unchecked b offset).2 = offset + 2
  uint64_next : ∀ b offset, (P.asUint64Unchecked b offset).2 = offset + 8
  bytes4_next : ∀ b offset, (P.asBytes4Unchecked b offset).2 = offset + 4
  bytes32_next : ∀ b offset, (P.asBytes32Unchecked b offset).2 = offset + 32
  slice_next : ∀ b offset n, (P.sliceUnchecked b offset n).2 = offset + n

/-- An implementation that reads zeros past the end. -/
def reference : BytesParsing where
  asUint8Unchecked b offset := (UInt8.ofNat (numberAt b offset 1), offset + 1)
  asUint16Unchecked b offset := (UInt16.ofNat (numberAt b offset 2), offset + 2)
  asUint64Unchecked b offset := (UInt64.ofNat (numberAt b offset 8), offset + 8)
  asBytes4Unchecked b offset := (BitVec.ofNat 32 (numberAt b offset 4), offset + 4)
  asBytes32Unchecked b offset := (BitVec.ofNat 256 (numberAt b offset 32), offset + 32)
  sliceUnchecked b offset n := ((b.drop offset).take n, offset + n)
  checkLength b offset := if offset = b.length then .ok () else .error .external

theorem reference_lawful : reference.Lawful := by
  refine ⟨fun _ _ _ => rfl, fun _ _ _ => rfl, fun _ _ _ => rfl, fun _ _ _ => rfl,
    fun _ _ _ => rfl, fun _ _ _ _ => rfl, fun b offset => ?_⟩
  rw [reference]
  by_cases h : offset = b.length <;> simp [h]

theorem reference_advancing : reference.Advancing :=
  ⟨reference_lawful, fun _ _ => rfl, fun _ _ => rfl, fun _ _ => rfl, fun _ _ => rfl,
    fun _ _ => rfl, fun _ _ _ => rfl⟩

end BytesParsing

/-! ### Messages -/

/-- The message of a manager. -/
structure NttManagerMessage where
  /-- Unique message identifier: the sequence. -/
  id : Bytes32
  /-- The original sender. -/
  sender : Bytes32
  /-- The payload, in the format of its type. -/
  payload : Bytes
deriving DecidableEq, Repr

/-- The payload of a transfer. -/
structure NativeTokenTransfer where
  amount : TrimmedAmount
  sourceToken : Bytes32
  /-- The recipient, `to` in the source. -/
  recipient : Bytes32
  /-- The chain of the recipient. -/
  toChain : UInt16
  additionalPayload : Bytes
deriving DecidableEq, Repr

/-- The message of a transceiver, around that of a manager. -/
structure TransceiverMessage where
  sourceNttManagerAddress : Bytes32
  recipientNttManagerAddress : Bytes32
  nttManagerPayload : Bytes
  transceiverPayload : Bytes
deriving DecidableEq, Repr

/-- An instruction of the caller to one transceiver. -/
structure TransceiverInstruction where
  index : UInt8
  payload : Bytes
deriving DecidableEq, Repr

/-- What a transceiver publishes when it is initialised. -/
structure TransceiverInit where
  transceiverIdentifier : BitVec 32
  nttManagerAddress : Bytes32
  nttManagerMode : UInt8
  tokenAddress : Bytes32
  tokenDecimals : UInt8
deriving DecidableEq, Repr

/-- What a transceiver publishes when a peer is registered. -/
structure TransceiverRegistration where
  transceiverIdentifier : BitVec 32
  transceiverChainId : UInt16
  transceiverAddress : Bytes32
deriving DecidableEq, Repr

/-- The prefix of transfers. -/
def NTT_PREFIX : BitVec 32 := 0x994E5454

/-! ### Encoding -/

/-- A field of 8 bits, packed. -/
def packUint8 (x : UInt8) : Bytes := beBytes 1 x.toNat

/-- A field of 16 bits, packed. -/
def packUint16 (x : UInt16) : Bytes := beBytes 2 x.toNat

/-- A field of 64 bits, packed. -/
def packUint64 (x : UInt64) : Bytes := beBytes 8 x.toNat

/-- A field of 4 bytes, packed. -/
def packBytes4 (x : BitVec 32) : Bytes := beBytes 4 x.toNat

/-- A field of 32 bytes, packed. -/
def packBytes32 (x : Bytes32) : Bytes := beBytes 32 x.toNat

/-- A payload has to have a length of 16 bits. -/
def checkPayloadLength (payload : Bytes) : Except Error UInt16 := do
  throwIf (payload.length > 65535) (.payloadTooLong payload.length)
  return UInt16.ofNat payload.length

/-- Encodes the message of a manager. -/
def encodeNttManagerMessage (m : NttManagerMessage) : Except Error Bytes := do
  let payloadLength ← checkPayloadLength m.payload
  return packBytes32 m.id ++ packBytes32 m.sender ++ packUint16 payloadLength ++ m.payload

/-- Encodes a transfer; an empty additional payload is left out with its length. -/
def encodeNativeTokenTransfer (m : NativeTokenTransfer) : Except Error Bytes := do
  let transferAmount := m.amount
  let fields := packBytes4 NTT_PREFIX ++ packUint8 transferAmount.getDecimals ++
    packUint64 transferAmount.getAmount ++ packBytes32 m.sourceToken ++ packBytes32 m.recipient ++
    packUint16 m.toChain
  if m.additionalPayload.length > 0 then
    let additionalPayloadLength ← checkPayloadLength m.additionalPayload
    return fields ++ packUint16 additionalPayloadLength ++ m.additionalPayload
  else
    return fields

/-- Encodes the message of a transceiver. -/
def encodeTransceiverMessage (pre : BitVec 32) (m : TransceiverMessage) : Except Error Bytes := do
  let nttManagerPayloadLength ← checkPayloadLength m.nttManagerPayload
  let transceiverPayloadLength ← checkPayloadLength m.transceiverPayload
  return packBytes4 pre ++ packBytes32 m.sourceNttManagerAddress ++
    packBytes32 m.recipientNttManagerAddress ++ packUint16 nttManagerPayloadLength ++
    m.nttManagerPayload ++ packUint16 transceiverPayloadLength ++ m.transceiverPayload

/-- Encodes what is published at the initialisation. -/
def encodeTransceiverInit (init : TransceiverInit) : Bytes :=
  packBytes4 init.transceiverIdentifier ++ packBytes32 init.nttManagerAddress ++
    packUint8 init.nttManagerMode ++ packBytes32 init.tokenAddress ++
    packUint8 init.tokenDecimals

/-- Encodes what is published at the registration of a peer. -/
def encodeTransceiverRegistration (registration : TransceiverRegistration) : Bytes :=
  packBytes4 registration.transceiverIdentifier ++ packUint16 registration.transceiverChainId ++
    packBytes32 registration.transceiverAddress

/-! ### Digests -/

/-- What the digest of an encoded message is taken of. -/
def digestBytes (sourceChainId : UInt16) (encodedNttManagerMessage : Bytes) : Bytes :=
  packUint16 sourceChainId ++ encodedNttManagerMessage

/-- The digest of a message, under a hash function. -/
def nttManagerMessageDigest (keccak256 : Bytes → Bytes32) (sourceChainId : UInt16)
    (m : NttManagerMessage) : Except Error Bytes32 := do
  return keccak256 (digestBytes sourceChainId (← encodeNttManagerMessage m))

/-! ### Parsing -/

/-- Parses the message of a manager. -/
def parseNttManagerMessage (P : BytesParsing) (encoded : Bytes) :
    Except Error NttManagerMessage := do
  let (id, offset) := P.asBytes32Unchecked encoded 0
  let (sender, offset) := P.asBytes32Unchecked encoded offset
  let (payloadLength, offset) := P.asUint16Unchecked encoded offset
  let (payload, offset) := P.sliceUnchecked encoded offset payloadLength.toNat
  P.checkLength encoded offset
  return { id, sender, payload }

/-- Parses a transfer. The additional payload may be left out; at least two bytes after the
fields are its length. -/
def parseNativeTokenTransfer (P : BytesParsing) (encoded : Bytes) :
    Except Error NativeTokenTransfer := do
  let (pre, offset) := P.asBytes4Unchecked encoded 0
  throwIf (pre ≠ NTT_PREFIX) (.incorrectPrefix pre)
  let (numDecimals, offset) := P.asUint8Unchecked encoded offset
  let (amount, offset) := P.asUint64Unchecked encoded offset
  let (sourceToken, offset) := P.asBytes32Unchecked encoded offset
  let (recipient, offset) := P.asBytes32Unchecked encoded offset
  let (toChain, offset) := P.asUint16Unchecked encoded offset
  let (additionalPayload, offset) :=
    if encoded.length ≥ offset + 2 then
      let (payloadLength, offset) := P.asUint16Unchecked encoded offset
      P.sliceUnchecked encoded offset payloadLength.toNat
    else ([], offset)
  P.checkLength encoded offset
  return ⟨packTrimmedAmount amount numDecimals, sourceToken, recipient, toChain,
    additionalPayload⟩

/-- Parses the message of a transceiver. -/
def parseTransceiverMessage (P : BytesParsing) (expectedPrefix : BitVec 32) (encoded : Bytes) :
    Except Error TransceiverMessage := do
  let (pre, offset) := P.asBytes4Unchecked encoded 0
  throwIf (pre ≠ expectedPrefix) (.incorrectPrefix pre)
  let (sourceNttManagerAddress, offset) := P.asBytes32Unchecked encoded offset
  let (recipientNttManagerAddress, offset) := P.asBytes32Unchecked encoded offset
  let (nttManagerPayloadLength, offset) := P.asUint16Unchecked encoded offset
  let (nttManagerPayload, offset) :=
    P.sliceUnchecked encoded offset nttManagerPayloadLength.toNat
  let (transceiverPayloadLength, offset) := P.asUint16Unchecked encoded offset
  let (transceiverPayload, offset) :=
    P.sliceUnchecked encoded offset transceiverPayloadLength.toNat
  P.checkLength encoded offset
  return ⟨sourceNttManagerAddress, recipientNttManagerAddress, nttManagerPayload,
    transceiverPayload⟩

/-- Parses the message of a transceiver, and the message of a manager in it. -/
def parseTransceiverAndNttManagerMessage (P : BytesParsing) (expectedPrefix : BitVec 32)
    (payload : Bytes) : Except Error (TransceiverMessage × NttManagerMessage) := do
  let parsedTransceiverMessage ← parseTransceiverMessage P expectedPrefix payload
  let parsedNttManagerMessage ←
    parseNttManagerMessage P parsedTransceiverMessage.nttManagerPayload
  return (parsedTransceiverMessage, parsedNttManagerMessage)

/-- Parses one instruction at an offset. -/
def parseTransceiverInstructionUnchecked (P : BytesParsing) (encoded : Bytes) (offset : ℕ) :
    TransceiverInstruction × ℕ :=
  let (index, nextOffset) := P.asUint8Unchecked encoded offset
  let (instructionLength, nextOffset) := P.asUint8Unchecked encoded nextOffset
  let (payload, nextOffset) := P.sliceUnchecked encoded nextOffset instructionLength.toNat
  ({ index, payload }, nextOffset)

/-- The loop over the instructions that are left: round `i`, with the last index, the offset
and the array so far. -/
def parseInstructionsLoop (P : BytesParsing) (encoded : Bytes) (numRegisteredTransceivers : ℕ) :
    ℕ → ℕ → ℕ → ℕ → List TransceiverInstruction →
      Except Error (List TransceiverInstruction × ℕ)
  | 0, _, _, offset, instructions => .ok (instructions, offset)
  | rounds + 1, i, lastIndex, offset, instructions => do
      let (instruction, offset) := parseTransceiverInstructionUnchecked P encoded offset
      let instructionIndex := instruction.index.toNat
      -- the indices have to be strictly increasing
      throwIf (i ≠ 0 ∧ instructionIndex ≤ lastIndex)
        (.unorderedInstructions lastIndex instructionIndex)
      throwIf (instructionIndex ≥ numRegisteredTransceivers)
        (.invalidInstructionIndex instructionIndex numRegisteredTransceivers)
      parseInstructionsLoop P encoded numRegisteredTransceivers rounds (i + 1) instructionIndex
        offset (instructions.set instructionIndex instruction)

/-- Parses instructions into an array with one entry for every transceiver; an entry without
an instruction is empty. -/
def parseTransceiverInstructions (P : BytesParsing) (encoded : Bytes)
    (numRegisteredTransceivers : ℕ) : Except Error (List TransceiverInstruction) := do
  let (instructionsLength, offset) := P.asUint8Unchecked encoded 0
  let (instructions, offset) ← parseInstructionsLoop P encoded numRegisteredTransceivers
    instructionsLength.toNat 0 0 offset (List.replicate numRegisteredTransceivers ⟨0, []⟩)
  P.checkLength encoded offset
  return instructions

/-- Decodes what was published at an initialisation. -/
def decodeTransceiverInit (P : BytesParsing) (encoded : Bytes) : Except Error TransceiverInit := do
  let (transceiverIdentifier, offset) := P.asBytes4Unchecked encoded 0
  let (nttManagerAddress, offset) := P.asBytes32Unchecked encoded offset
  let (nttManagerMode, offset) := P.asUint8Unchecked encoded offset
  let (tokenAddress, offset) := P.asBytes32Unchecked encoded offset
  let (tokenDecimals, offset) := P.asUint8Unchecked encoded offset
  P.checkLength encoded offset
  return ⟨transceiverIdentifier, nttManagerAddress, nttManagerMode, tokenAddress, tokenDecimals⟩

/-- Decodes what was published at the registration of a peer. -/
def decodeTransceiverRegistration (P : BytesParsing) (encoded : Bytes) :
    Except Error TransceiverRegistration := do
  let (transceiverIdentifier, offset) := P.asBytes4Unchecked encoded 0
  let (transceiverChainId, offset) := P.asUint16Unchecked encoded offset
  let (transceiverAddress, offset) := P.asBytes32Unchecked encoded offset
  P.checkLength encoded offset
  return ⟨transceiverIdentifier, transceiverChainId, transceiverAddress⟩

/-! ### Round trips -/

/-- A byte string stands at an offset of another. -/
def StandsAt (b : Bytes) (offset : ℕ) (xs : Bytes) : Prop := xs <+: b.drop offset

namespace StandsAt

variable {b xs ys : Bytes} {offset : ℕ}

theorem self (b : Bytes) : StandsAt b 0 b := List.prefix_rfl

/-- Of two byte strings one after the other, the first stands at the offset. -/
theorem left (h : StandsAt b offset (xs ++ ys)) : StandsAt b offset xs :=
  (List.prefix_append xs ys).trans h

/-- The second stands after the first. -/
theorem right (h : StandsAt b offset (xs ++ ys)) : StandsAt b (offset + xs.length) ys := by
  obtain ⟨rest, hrest⟩ := h
  refine ⟨rest, ?_⟩
  rw [← List.drop_drop, ← hrest, List.append_assoc, List.drop_left]

theorem le (h : StandsAt b offset xs) (hne : xs ≠ []) : offset + xs.length ≤ b.length := by
  have hlen := h.length_le
  rw [List.length_drop] at hlen
  have := List.length_pos_iff.mpr hne
  omega

theorem take_eq (h : StandsAt b offset xs) : (b.drop offset).take xs.length = xs :=
  (List.prefix_iff_eq_take.mp h).symm

/-- Reading the number that stands at an offset. -/
theorem number {n v : ℕ} (h : StandsAt b offset (beBytes n v)) (hv : v < 256 ^ n) :
    numberAt b offset n = v := by
  have := h.take_eq
  rw [length_beBytes] at this
  rw [numberAt, this, beNat_beBytes hv]

theorem number_le {n v : ℕ} (h : StandsAt b offset (beBytes n v)) (hn : 0 < n) :
    offset + n ≤ b.length := by
  have := h.le (List.ne_nil_of_length_pos (by rw [length_beBytes]; exact hn))
  rwa [length_beBytes] at this

variable {P : BytesParsing} (hP : P.Lawful)
include hP

theorem uint8 {x : UInt8} (h : StandsAt b offset (packUint8 x)) :
    P.asUint8Unchecked b offset = (x, offset + 1) := by
  rw [hP.uint8 b offset (number_le h (by decide)), number h x.toNat_lt, UInt8.ofNat_toNat]

theorem uint16 {x : UInt16} (h : StandsAt b offset (packUint16 x)) :
    P.asUint16Unchecked b offset = (x, offset + 2) := by
  rw [hP.uint16 b offset (number_le h (by decide)), number h x.toNat_lt, UInt16.ofNat_toNat]

theorem uint64 {x : UInt64} (h : StandsAt b offset (packUint64 x)) :
    P.asUint64Unchecked b offset = (x, offset + 8) := by
  rw [hP.uint64 b offset (number_le h (by decide)), number h x.toNat_lt, UInt64.ofNat_toNat]

theorem bytes4 {x : BitVec 32} (h : StandsAt b offset (packBytes4 x)) :
    P.asBytes4Unchecked b offset = (x, offset + 4) := by
  rw [hP.bytes4 b offset (number_le h (by decide)), number h x.isLt, BitVec.ofNat_toNat,
    BitVec.setWidth_eq]

theorem bytes32 {x : Bytes32} (h : StandsAt b offset (packBytes32 x)) :
    P.asBytes32Unchecked b offset = (x, offset + 32) := by
  rw [hP.bytes32 b offset (number_le h (by decide)), number h x.isLt, BitVec.ofNat_toNat,
    BitVec.setWidth_eq]

/-- Reading a payload that ends the byte string. -/
theorem slice (h : StandsAt b offset xs) (hle : offset + xs.length ≤ b.length) :
    P.sliceUnchecked b offset xs.length = (xs, offset + xs.length) := by
  rw [hP.slice b offset _ hle, h.take_eq]

end StandsAt

theorem checkPayloadLength_eq_ok {payload : Bytes} {n : UInt16} :
    checkPayloadLength payload = .ok n ↔ n.toNat = payload.length := by
  have hn := n.toNat_lt
  simp only [checkPayloadLength, Except.bind_eq_ok, throwIf_eq_ok, Except.pure_eq_ok,
    Nat.not_lt, gt_iff_lt]
  constructor
  · rintro ⟨-, hle, rfl⟩
    rw [UInt16.toNat_ofNat', Nat.mod_eq_of_lt (by omega)]
  · intro h
    refine ⟨(), by omega, ?_⟩
    apply UInt16.toNat_inj.mp
    rw [UInt16.toNat_ofNat', ← h, Nat.mod_eq_of_lt (by omega)]

section

variable {P : BytesParsing} (hP : P.Lawful)
include hP

/-- Parsing the encoding of a manager's message. -/
theorem parse_encodeNttManagerMessage {m : NttManagerMessage} {b : Bytes}
    (h : encodeNttManagerMessage m = .ok b) : parseNttManagerMessage P b = .ok m := by
  simp only [encodeNttManagerMessage, Except.bind_eq_ok, Except.pure_eq_ok,
    checkPayloadLength_eq_ok] at h
  obtain ⟨n, hn, rfl⟩ := h
  set b := packBytes32 m.id ++ packBytes32 m.sender ++ packUint16 n ++ m.payload with hb
  have hlen : b.length = 66 + m.payload.length := by
    simp [hb, packBytes32, packUint16]
    omega
  have h0 := StandsAt.self b
  have hid := StandsAt.bytes32 hP h0.left.left.left
  have hsender := StandsAt.bytes32 hP h0.left.left.right
  have hn' := StandsAt.uint16 hP h0.left.right
  have hslice := StandsAt.slice hP h0.right
  simp only [packBytes32, packUint16, List.length_append, length_beBytes, Nat.zero_add]
    at hsender hn' hslice
  have hpayload := hslice (by omega)
  have hcheck : P.checkLength b (66 + m.payload.length) = .ok () :=
    (hP.checkLength b _).mpr hlen.symm
  simp only [parseNttManagerMessage, hid, hsender, hn', hn, hpayload, hcheck, Nat.zero_add]
  rfl

/-- Parsing the encoding of a transfer. -/
theorem parse_encodeNativeTokenTransfer {m : NativeTokenTransfer} {b : Bytes}
    (h : encodeNativeTokenTransfer m = .ok b) : parseNativeTokenTransfer P b = .ok m := by
  -- what follows the fields: nothing, or a length and the additional payload
  obtain ⟨rest, hb, hrest⟩ : ∃ rest, b = packBytes4 NTT_PREFIX ++
      packUint8 m.amount.getDecimals ++ packUint64 m.amount.getAmount ++
      packBytes32 m.sourceToken ++ packBytes32 m.recipient ++ packUint16 m.toChain ++ rest ∧
      (rest = [] ∧ m.additionalPayload = [] ∨ ∃ n : UInt16, n.toNat =
        m.additionalPayload.length ∧ rest = packUint16 n ++ m.additionalPayload) := by
    rw [encodeNativeTokenTransfer] at h
    split at h
    · simp only [Except.bind_eq_ok, Except.pure_eq_ok, checkPayloadLength_eq_ok] at h
      obtain ⟨n, hn, rfl⟩ := h
      exact ⟨_, List.append_assoc _ _ _, .inr ⟨n, hn, rfl⟩⟩
    · rename_i hpos
      refine ⟨[], ?_, .inl ⟨rfl, List.length_eq_zero_iff.mp (by omega)⟩⟩
      rw [List.append_nil]
      exact (Except.ok.inj h).symm
  have hlen : b.length = 79 + rest.length := by
    simp [hb, packBytes4, packUint8, packUint64, packBytes32, packUint16]
    omega
  have h0 := StandsAt.self b
  nth_rewrite 2 [hb] at h0
  have hpre := StandsAt.bytes4 hP h0.left.left.left.left.left.left
  have hdec := StandsAt.uint8 hP h0.left.left.left.left.left.right
  have hamt := StandsAt.uint64 hP h0.left.left.left.left.right
  have hsrc := StandsAt.bytes32 hP h0.left.left.left.right
  have hto := StandsAt.bytes32 hP h0.left.left.right
  have hchain := StandsAt.uint16 hP h0.left.right
  have hr := h0.right
  simp only [packBytes4, packUint8, packUint64, packBytes32, packUint16, List.length_append,
    length_beBytes, Nat.zero_add] at hdec hamt hsrc hto hchain hr
  simp only [parseNativeTokenTransfer, hpre, hdec, hamt, hsrc, hto, hchain, Nat.zero_add,
    Nat.reduceAdd, ne_eq, not_true_eq_false, throwIf, if_false, bind, Except.bind,
    TrimmedAmount.pack_getAmount_getDecimals]
  rcases hrest with ⟨rfl, hnil⟩ | ⟨n, hn, rfl⟩
  · have hcheck : P.checkLength b 79 = .ok () := (hP.checkLength b _).mpr (by rw [hlen]; rfl)
    rw [if_neg (by rw [hlen]; simp)]
    simp only [hcheck]
    cases m
    cases hnil
    rfl
  · have hn16 := StandsAt.uint16 hP hr.left
    have hslice := StandsAt.slice hP hr.right
    simp only [packUint16, List.length_append, length_beBytes, Nat.reduceAdd] at hn16 hslice hlen
    have hpayload := hslice (by omega)
    have hcheck : P.checkLength b (81 + m.additionalPayload.length) = .ok () :=
      (hP.checkLength b _).mpr (by omega)
    rw [if_pos (by omega)]
    simp only [hn16, hn, hpayload, hcheck]
    rfl

end

/-- Distinct messages have distinct encodings: a lawful parser tells them apart. -/
theorem encodeNttManagerMessage_inj {m m' : NttManagerMessage} {b : Bytes}
    (h : encodeNttManagerMessage m = .ok b) (h' : encodeNttManagerMessage m' = .ok b) :
    m = m' := by
  have hp := parse_encodeNttManagerMessage BytesParsing.reference_lawful h
  have hp' := parse_encodeNttManagerMessage BytesParsing.reference_lawful h'
  exact Except.ok.inj (hp.symm.trans hp')

/-- The digest is taken of distinct byte strings for distinct chains or encodings. -/
theorem digestBytes_inj {c c' : UInt16} {b b' : Bytes}
    (h : digestBytes c b = digestBytes c' b') : c = c' ∧ b = b' := by
  obtain ⟨hc, hb⟩ := List.append_inj h (by rw [packUint16, packUint16, length_beBytes,
    length_beBytes])
  exact ⟨UInt16.toNat_inj.mp (beBytes_inj c.toNat_lt c'.toNat_lt hc), hb⟩

end Ntt
