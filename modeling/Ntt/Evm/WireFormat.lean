import Ntt.Evm.TransceiverStructs

/-!
# The Wire Formats Are Strict

The parsers of the contracts read without checking bounds and reject truncated input by one
check of the length at the end. The formats are strict all the same: a parser accepts a byte
string exactly when it is the encoding of what it returns.

`Window` is what one read says: the offset moves on, and if it has not passed the end of the
byte string, what was read stands between the two offsets. Windows that meet compose, and one
that ends where the byte string ends is the whole of it. So the final check makes every read
before it a read inside the byte string.

## Main results

* `parseNttManagerMessage_eq_ok`, `parseNativeTokenTransfer_eq_ok`,
  `parseTransceiverMessage_eq_ok`, `decodeTransceiverInit_eq_ok`,
  `decodeTransceiverRegistration_eq_ok`: a parser accepts exactly the encodings, except that a
  transfer may carry an explicit empty additional payload.
* `wire_format_strict`: with the shapes of the accepted byte strings, in numbers.
-/

namespace Ntt

open BigEndian

/-! ### Windows -/

/-- A read from one offset to another returned these bytes, if it stayed inside. -/
def Window (b : Bytes) (offset offset' : ℕ) (xs : Bytes) : Prop :=
  offset ≤ offset' ∧ (offset' ≤ b.length → offset' = offset + xs.length ∧ StandsAt b offset xs)

/-- A number read off a byte string stands there. -/
theorem standsAt_numberAt {b : Bytes} {offset n : ℕ} (h : offset + n ≤ b.length) :
    StandsAt b offset (beBytes n (numberAt b offset n)) := by
  have hlen : ((b.drop offset).take n).length = n := by
    rw [List.length_take, List.length_drop]
    omega
  have hback := beBytes_beNat ((b.drop offset).take n)
  rw [hlen] at hback
  rw [numberAt, hback]
  exact List.take_prefix _ _

/-- The first field of what stands at an offset, and the rest after it. -/
theorem StandsAt.field {b rest : Bytes} {offset n v : ℕ}
    (h : StandsAt b offset (beBytes n v ++ rest)) (hv : v < 256 ^ n) :
    numberAt b offset n = v ∧ StandsAt b (offset + n) rest := by
  have hright := h.right
  rw [length_beBytes] at hright
  exact ⟨h.left.number hv, hright⟩

/-- A number of `n` bytes. -/
theorem numberAt_lt {b : Bytes} {offset n : ℕ} (h : offset + n ≤ b.length) :
    numberAt b offset n < 256 ^ n := by
  have hlen : ((b.drop offset).take n).length = n := by
    rw [List.length_take, List.length_drop]
    omega
  have := beNat_lt ((b.drop offset).take n)
  rwa [hlen] at this

namespace Window

variable {b xs ys : Bytes} {o o' o'' : ℕ}

/-- A read of a number of fixed width. -/
theorem number {n v : ℕ} (ho : o' = o + n)
    (h : o + n ≤ b.length → v = numberAt b o n % 2 ^ (8 * n)) :
    Window b o o' (beBytes n v) := by
  subst ho
  refine ⟨by omega, fun hle => ⟨by rw [length_beBytes], ?_⟩⟩
  have hlt := numberAt_lt hle
  rw [show 256 = 2 ^ 8 by rfl, ← pow_mul] at hlt
  rw [h hle, Nat.mod_eq_of_lt hlt]
  exact standsAt_numberAt hle

/-- The number at an offset. -/
theorem of_numberAt {n : ℕ} (h : o + n ≤ b.length) :
    Window b o (o + n) (beBytes n (numberAt b o n)) :=
  ⟨Nat.le_add_right o n, fun _ => ⟨by rw [length_beBytes], standsAt_numberAt h⟩⟩

/-- What stands between two offsets. -/
theorem of_slice (ho : o ≤ o') (h : o' ≤ b.length) : Window b o o' ((b.drop o).take (o' - o)) := by
  refine ⟨ho, fun _ => ⟨?_, List.take_prefix _ _⟩⟩
  rw [List.length_take, List.length_drop]
  omega

/-- Two reads, one after the other. -/
theorem append (h : Window b o o' xs) (h' : Window b o' o'' ys) : Window b o o'' (xs ++ ys) := by
  refine ⟨h.1.trans h'.1, fun hle => ?_⟩
  obtain ⟨ho'', hys⟩ := h'.2 hle
  obtain ⟨ho', hxs⟩ := h.2 (h'.1.trans hle)
  refine ⟨by rw [ho'', ho', List.length_append, Nat.add_assoc], ?_⟩
  rw [ho'] at hys
  obtain ⟨rest, hrest⟩ := hxs
  obtain ⟨rest', hrest'⟩ := hys
  refine ⟨rest', ?_⟩
  rw [← List.drop_drop, ← hrest, List.drop_left] at hrest'
  rw [List.append_assoc, hrest', hrest]

/-- Reads that end where the byte string ends have read all of it. -/
theorem whole (h : Window b 0 o xs) (ho : o = b.length) : b = xs := by
  obtain ⟨hlen, hxs⟩ := h.2 ho.le
  exact (hxs.eq_of_length (by rw [List.drop_zero]; omega)).symm

end Window

namespace BytesParsing.Advancing

variable {P : BytesParsing} (hP : P.Advancing) {b : Bytes} {o o' : ℕ}
include hP

theorem window_uint8 {x : UInt8} (h : P.asUint8Unchecked b o = (x, o')) :
    Window b o o' (packUint8 x) := by
  refine .number (by rw [← hP.uint8_next b o, h]) fun hle => ?_
  rw [hP.uint8 b o hle] at h
  obtain ⟨rfl, -⟩ := Prod.mk.inj h
  exact UInt8.toNat_ofNat'

theorem window_uint16 {x : UInt16} (h : P.asUint16Unchecked b o = (x, o')) :
    Window b o o' (packUint16 x) := by
  refine .number (by rw [← hP.uint16_next b o, h]) fun hle => ?_
  rw [hP.uint16 b o hle] at h
  obtain ⟨rfl, -⟩ := Prod.mk.inj h
  exact UInt16.toNat_ofNat'

theorem window_uint64 {x : UInt64} (h : P.asUint64Unchecked b o = (x, o')) :
    Window b o o' (packUint64 x) := by
  refine .number (by rw [← hP.uint64_next b o, h]) fun hle => ?_
  rw [hP.uint64 b o hle] at h
  obtain ⟨rfl, -⟩ := Prod.mk.inj h
  exact UInt64.toNat_ofNat'

theorem window_bytes4 {x : BitVec 32} (h : P.asBytes4Unchecked b o = (x, o')) :
    Window b o o' (packBytes4 x) := by
  refine .number (by rw [← hP.bytes4_next b o, h]) fun hle => ?_
  rw [hP.bytes4 b o hle] at h
  obtain ⟨rfl, -⟩ := Prod.mk.inj h
  exact BitVec.toNat_ofNat _ _

theorem window_bytes32 {x : Bytes32} (h : P.asBytes32Unchecked b o = (x, o')) :
    Window b o o' (packBytes32 x) := by
  refine .number (by rw [← hP.bytes32_next b o, h]) fun hle => ?_
  rw [hP.bytes32 b o hle] at h
  obtain ⟨rfl, -⟩ := Prod.mk.inj h
  exact BitVec.toNat_ofNat _ _

/-- A slice that stayed inside has the length asked for. -/
theorem window_slice {xs : Bytes} {n : ℕ} (h : P.sliceUnchecked b o n = (xs, o')) :
    Window b o o' xs ∧ (o' ≤ b.length → xs.length = n) := by
  obtain rfl : o + n = o' := by rw [← hP.slice_next b o n, h]
  have hlen : o + n ≤ b.length → xs.length = n ∧ xs = (b.drop o).take n := by
    intro hle
    rw [hP.slice b o n hle] at h
    obtain ⟨rfl, -⟩ := Prod.mk.inj h
    refine ⟨?_, rfl⟩
    rw [List.length_take, List.length_drop]
    omega
  refine ⟨⟨Nat.le_add_right _ _, fun hle => ?_⟩, fun hle => (hlen hle).1⟩
  obtain ⟨hn, hxs⟩ := hlen hle
  refine ⟨by rw [hn], ?_⟩
  rw [StandsAt, hxs]
  exact List.take_prefix _ _

end BytesParsing.Advancing

/-! ### What the parsers accept -/

section

variable {P : BytesParsing} (hP : P.Advancing) {b : Bytes}
include hP

/-- The final check makes the reads before it the whole byte string. -/
theorem whole_of_checkLength {o : ℕ} {xs : Bytes} {u : Unit} (h : Window b 0 o xs)
    (hcheck : P.checkLength b o = .ok u) : b = xs :=
  h.whole ((hP.checkLength b o).mp hcheck)

/-- The parser of manager messages accepts exactly the encodings. -/
theorem parseNttManagerMessage_eq_ok {m : NttManagerMessage} :
    parseNttManagerMessage P b = .ok m ↔ encodeNttManagerMessage m = .ok b := by
  refine ⟨fun h => ?_, parse_encodeNttManagerMessage hP.toLawful⟩
  rcases hid : P.asBytes32Unchecked b 0 with ⟨id, o₁⟩
  rcases hsender : P.asBytes32Unchecked b o₁ with ⟨sender, o₂⟩
  rcases hn : P.asUint16Unchecked b o₂ with ⟨n, o₃⟩
  rcases hpayload : P.sliceUnchecked b o₃ n.toNat with ⟨payload, o₄⟩
  simp only [parseNttManagerMessage, hid, hsender, hn, hpayload, Except.bind_eq_ok,
    Except.pure_eq_ok] at h
  obtain ⟨_, hcheck, rfl⟩ := h
  obtain ⟨hslice, hlen⟩ := hP.window_slice hpayload
  have hend : o₄ = b.length := (hP.checkLength b o₄).mp hcheck
  have hwhole := whole_of_checkLength hP ((((hP.window_bytes32 hid).append
    (hP.window_bytes32 hsender)).append (hP.window_uint16 hn)).append hslice) hcheck
  have hn' : checkPayloadLength payload = .ok n :=
    checkPayloadLength_eq_ok.mpr (hlen hend.le).symm
  rw [encodeNttManagerMessage, hn', hwhole]
  rfl

/-- The parser of transceiver messages accepts exactly the encodings under its prefix. -/
theorem parseTransceiverMessage_eq_ok {pre : BitVec 32} {m : TransceiverMessage} :
    parseTransceiverMessage P pre b = .ok m ↔ encodeTransceiverMessage pre m = .ok b := by
  constructor
  · intro h
    rcases hpre : P.asBytes4Unchecked b 0 with ⟨pre', o₁⟩
    rcases hsource : P.asBytes32Unchecked b o₁ with ⟨source, o₂⟩
    rcases hrecipient : P.asBytes32Unchecked b o₂ with ⟨recipient, o₃⟩
    rcases hn : P.asUint16Unchecked b o₃ with ⟨n, o₄⟩
    rcases hmanager : P.sliceUnchecked b o₄ n.toNat with ⟨managerPayload, o₅⟩
    rcases hk : P.asUint16Unchecked b o₅ with ⟨k, o₆⟩
    rcases htransceiver : P.sliceUnchecked b o₆ k.toNat with ⟨transceiverPayload, o₇⟩
    simp only [parseTransceiverMessage, hpre, hsource, hrecipient, hn, hmanager, hk, htransceiver,
      Except.bind_eq_ok, Except.pure_eq_ok, throwIf_eq_ok, not_not] at h
    obtain ⟨_, rfl, _, hcheck, rfl⟩ := h
    obtain ⟨hslice, hlen⟩ := hP.window_slice hmanager
    obtain ⟨hslice', hlen'⟩ := hP.window_slice htransceiver
    have hend : o₇ = b.length := (hP.checkLength b o₇).mp hcheck
    have hwhole := whole_of_checkLength hP (((((((hP.window_bytes4 hpre).append
      (hP.window_bytes32 hsource)).append (hP.window_bytes32 hrecipient)).append
      (hP.window_uint16 hn)).append hslice).append (hP.window_uint16 hk)).append hslice') hcheck
    have hle : o₅ ≤ b.length := ((hP.window_uint16 hk).append hslice').1.trans hend.le
    have hn' : checkPayloadLength managerPayload = .ok n :=
      checkPayloadLength_eq_ok.mpr (hlen hle).symm
    have hk' : checkPayloadLength transceiverPayload = .ok k :=
      checkPayloadLength_eq_ok.mpr (hlen' hend.le).symm
    rw [encodeTransceiverMessage, hn', hk', hwhole]
    rfl
  · intro h
    simp only [encodeTransceiverMessage, Except.bind_eq_ok, Except.pure_eq_ok,
      checkPayloadLength_eq_ok] at h
    obtain ⟨n, hn, k, hk, hb⟩ := h
    have h0 := StandsAt.self b
    nth_rewrite 2 [← hb] at h0
    have hlen : b.length = 72 + m.nttManagerPayload.length + m.transceiverPayload.length := by
      simp only [← hb, packBytes4, packBytes32, packUint16, List.length_append, length_beBytes]
      omega
    have hpre := StandsAt.bytes4 hP.toLawful h0.left.left.left.left.left.left
    have hsource := StandsAt.bytes32 hP.toLawful h0.left.left.left.left.left.right
    have hrecipient := StandsAt.bytes32 hP.toLawful h0.left.left.left.left.right
    have hn' := StandsAt.uint16 hP.toLawful h0.left.left.left.right
    have hmanager := StandsAt.slice hP.toLawful h0.left.left.right
    have hk' := StandsAt.uint16 hP.toLawful h0.left.right
    have htransceiver := StandsAt.slice hP.toLawful h0.right
    simp only [packBytes4, packBytes32, packUint16, List.length_append, length_beBytes,
      Nat.zero_add, Nat.reduceAdd] at hsource hrecipient hn' hmanager hk' htransceiver
    have hcheck : P.checkLength b (70 + m.nttManagerPayload.length + 2 +
        m.transceiverPayload.length) = .ok () := (hP.checkLength b _).mpr (by omega)
    simp only [parseTransceiverMessage, hpre, hsource, hrecipient, hn', hn, hmanager (by omega),
      hk', hk, htransceiver (by omega), hcheck, Nat.zero_add, ne_eq, not_true_eq_false,
      throwIf, if_false]
    rfl

/-- The decoder of initialisations accepts exactly the encodings. -/
theorem decodeTransceiverInit_eq_ok {init : TransceiverInit} :
    decodeTransceiverInit P b = .ok init ↔ encodeTransceiverInit init = b := by
  rcases hidentifier : P.asBytes4Unchecked b 0 with ⟨identifier, o₁⟩
  rcases hmanager : P.asBytes32Unchecked b o₁ with ⟨manager, o₂⟩
  rcases hmode : P.asUint8Unchecked b o₂ with ⟨mode, o₃⟩
  rcases htoken : P.asBytes32Unchecked b o₃ with ⟨token, o₄⟩
  rcases hdecimals : P.asUint8Unchecked b o₄ with ⟨decimals, o₅⟩
  constructor
  · intro h
    simp only [decodeTransceiverInit, hidentifier, hmanager, hmode, htoken, hdecimals,
      Except.bind_eq_ok, Except.pure_eq_ok] at h
    obtain ⟨_, hcheck, rfl⟩ := h
    exact (whole_of_checkLength hP (((((hP.window_bytes4 hidentifier).append
      (hP.window_bytes32 hmanager)).append (hP.window_uint8 hmode)).append
      (hP.window_bytes32 htoken)).append (hP.window_uint8 hdecimals)) hcheck).symm
  · rintro hb
    have h0 := StandsAt.self b
    nth_rewrite 2 [← hb] at h0
    have hlen : b.length = 70 := by
      simp [← hb, encodeTransceiverInit, packBytes4, packBytes32, packUint8]
    have hidentifier := StandsAt.bytes4 hP.toLawful h0.left.left.left.left
    have hmanager := StandsAt.bytes32 hP.toLawful h0.left.left.left.right
    have hmode := StandsAt.uint8 hP.toLawful h0.left.left.right
    have htoken := StandsAt.bytes32 hP.toLawful h0.left.right
    have hdecimals := StandsAt.uint8 hP.toLawful h0.right
    simp only [packBytes4, packBytes32, packUint8, List.length_append, length_beBytes,
      Nat.zero_add, Nat.reduceAdd] at hmanager hmode htoken hdecimals
    have hcheck : P.checkLength b 70 = .ok () := (hP.checkLength b _).mpr hlen.symm
    simp only [decodeTransceiverInit, hidentifier, hmanager, hmode, htoken, hdecimals, hcheck,
      Nat.zero_add]
    rfl

/-- The decoder of registrations accepts exactly the encodings. -/
theorem decodeTransceiverRegistration_eq_ok {registration : TransceiverRegistration} :
    decodeTransceiverRegistration P b = .ok registration ↔
      encodeTransceiverRegistration registration = b := by
  rcases hidentifier : P.asBytes4Unchecked b 0 with ⟨identifier, o₁⟩
  rcases hchain : P.asUint16Unchecked b o₁ with ⟨chain, o₂⟩
  rcases haddress : P.asBytes32Unchecked b o₂ with ⟨address, o₃⟩
  constructor
  · intro h
    simp only [decodeTransceiverRegistration, hidentifier, hchain, haddress, Except.bind_eq_ok,
      Except.pure_eq_ok] at h
    obtain ⟨_, hcheck, rfl⟩ := h
    exact (whole_of_checkLength hP (((hP.window_bytes4 hidentifier).append
      (hP.window_uint16 hchain)).append (hP.window_bytes32 haddress)) hcheck).symm
  · rintro hb
    have h0 := StandsAt.self b
    nth_rewrite 2 [← hb] at h0
    have hlen : b.length = 38 := by
      simp [← hb, encodeTransceiverRegistration, packBytes4, packBytes32, packUint16]
    have hidentifier := StandsAt.bytes4 hP.toLawful h0.left.left
    have hchain := StandsAt.uint16 hP.toLawful h0.left.right
    have haddress := StandsAt.bytes32 hP.toLawful h0.right
    simp only [packBytes4, packUint16, List.length_append, length_beBytes, Nat.zero_add,
      Nat.reduceAdd] at hchain haddress
    have hcheck : P.checkLength b 38 = .ok () := (hP.checkLength b _).mpr hlen.symm
    simp only [decodeTransceiverRegistration, hidentifier, hchain, haddress, hcheck, Nat.zero_add]
    rfl

end

/-- The fields of a transfer that are always there, packed. -/
def transferFields (m : NativeTokenTransfer) : Bytes :=
  packBytes4 NTT_PREFIX ++ packUint8 m.amount.getDecimals ++ packUint64 m.amount.getAmount ++
    packBytes32 m.sourceToken ++ packBytes32 m.recipient ++ packUint16 m.toChain

@[simp] theorem length_transferFields (m : NativeTokenTransfer) :
    (transferFields m).length = 79 := by
  simp [transferFields, packBytes4, packUint8, packUint64, packBytes32, packUint16]

/-- The encodings of a transfer: its fields, and then nothing for an empty additional payload,
or its length and the additional payload, which may be empty. -/
def EncodesTransfer (m : NativeTokenTransfer) (b : Bytes) : Prop :=
  b = transferFields m ∧ m.additionalPayload = [] ∨
    ∃ n : UInt16, n.toNat = m.additionalPayload.length ∧
      b = transferFields m ++ (packUint16 n ++ m.additionalPayload)

/-- A transfer has its encoding, or an explicit empty additional payload after its fields. -/
theorem encodesTransfer_iff {m : NativeTokenTransfer} {b : Bytes} :
    EncodesTransfer m b ↔ encodeNativeTokenTransfer m = .ok b ∨
      m.additionalPayload = [] ∧ b = transferFields m ++ packUint16 0 := by
  by_cases hpos : m.additionalPayload.length > 0
  · have hne : m.additionalPayload ≠ [] := List.ne_nil_of_length_pos hpos
    simp only [EncodesTransfer, hne, and_false, false_and, false_or, or_false,
      encodeNativeTokenTransfer, hpos, if_true, Except.bind_eq_ok, Except.pure_eq_ok,
      checkPayloadLength_eq_ok, ← List.append_assoc, transferFields]
    exact exists_congr fun n => and_congr_right fun _ => eq_comm
  · have hnil : m.additionalPayload = [] := List.length_eq_zero_iff.mp (by omega)
    have henc : encodeNativeTokenTransfer m = .ok (transferFields m) := by
      rw [encodeNativeTokenTransfer, if_neg hpos]
      rfl
    simp only [EncodesTransfer, henc, Except.ok.injEq, hnil, and_true, true_and, List.append_nil,
      List.length_nil]
    refine or_congr eq_comm ⟨?_, fun h => ⟨0, rfl, h⟩⟩
    rintro ⟨n, hn, rfl⟩
    rw [UInt16.toNat_inj.mp (show n.toNat = (0 : UInt16).toNat from hn)]

section

variable {P : BytesParsing} (hP : P.Advancing) {b : Bytes}
include hP

/-- The parser of transfers accepts exactly the encodings. -/
theorem parseNativeTokenTransfer_eq_ok {m : NativeTokenTransfer} :
    parseNativeTokenTransfer P b = .ok m ↔ EncodesTransfer m b := by
  constructor
  · intro h
    rcases hpre : P.asBytes4Unchecked b 0 with ⟨pre, o₁⟩
    rcases hdecimals : P.asUint8Unchecked b o₁ with ⟨decimals, o₂⟩
    rcases hamount : P.asUint64Unchecked b o₂ with ⟨amount, o₃⟩
    rcases htoken : P.asBytes32Unchecked b o₃ with ⟨token, o₄⟩
    rcases hrecipient : P.asBytes32Unchecked b o₄ with ⟨recipient, o₅⟩
    rcases hchain : P.asUint16Unchecked b o₅ with ⟨chain, o₆⟩
    have hfields := (((((hP.window_bytes4 hpre).append (hP.window_uint8 hdecimals)).append
      (hP.window_uint64 hamount)).append (hP.window_bytes32 htoken)).append
      (hP.window_bytes32 hrecipient)).append (hP.window_uint16 hchain)
    simp only [parseNativeTokenTransfer, hpre, hdecimals, hamount, htoken, hrecipient, hchain,
      Except.bind_eq_ok, Except.pure_eq_ok, throwIf_eq_ok, not_not] at h
    obtain ⟨_, rfl, h⟩ := h
    by_cases hmore : b.length ≥ o₆ + 2
    · rcases hn : P.asUint16Unchecked b o₆ with ⟨n, o₇⟩
      rcases hpayload : P.sliceUnchecked b o₇ n.toNat with ⟨payload, o₈⟩
      simp only [hmore, if_true, hn, hpayload] at h
      obtain ⟨_, hcheck, rfl⟩ := h
      obtain ⟨hslice, hlen⟩ := hP.window_slice hpayload
      have hend : o₈ = b.length := (hP.checkLength b o₈).mp hcheck
      refine .inr ⟨n, (hlen hend.le).symm, ?_⟩
      rw [transferFields, TrimmedAmount.getAmount_pack, TrimmedAmount.getDecimals_pack]
      exact whole_of_checkLength hP
        (hfields.append ((hP.window_uint16 hn).append hslice)) hcheck
    · simp only [hmore, if_false] at h
      obtain ⟨_, hcheck, rfl⟩ := h
      refine .inl ⟨?_, rfl⟩
      rw [transferFields, TrimmedAmount.getAmount_pack, TrimmedAmount.getDecimals_pack]
      exact whole_of_checkLength hP hfields hcheck
  · intro h
    rcases encodesTransfer_iff.mp h with h | ⟨hnil, rfl⟩
    · exact parse_encodeNativeTokenTransfer hP.toLawful h
    · have h0 := StandsAt.self (transferFields m ++ packUint16 0)
      have hlen : (transferFields m ++ packUint16 0).length = 81 := by simp [packUint16]
      generalize hb : transferFields m ++ packUint16 0 = b at h0 hlen ⊢
      nth_rewrite 2 [← hb] at h0
      rw [transferFields] at h0
      have hpre := StandsAt.bytes4 hP.toLawful h0.left.left.left.left.left.left
      have hdecimals := StandsAt.uint8 hP.toLawful h0.left.left.left.left.left.right
      have hamount := StandsAt.uint64 hP.toLawful h0.left.left.left.left.right
      have htoken := StandsAt.bytes32 hP.toLawful h0.left.left.left.right
      have hrecipient := StandsAt.bytes32 hP.toLawful h0.left.left.right
      have hchain := StandsAt.uint16 hP.toLawful h0.left.right
      have hn := StandsAt.uint16 hP.toLawful h0.right
      simp only [packBytes4, packUint8, packUint64, packBytes32, packUint16, List.length_append,
        length_beBytes, Nat.zero_add, Nat.reduceAdd]
        at hdecimals hamount htoken hrecipient hchain hn
      have hslice := hP.slice b 81 0 hlen.ge
      have hcheck : P.checkLength b 81 = .ok () := (hP.checkLength b _).mpr hlen.symm
      simp only [parseNativeTokenTransfer, hpre, hdecimals, hamount, htoken, hrecipient, hchain,
        Nat.zero_add, Nat.reduceAdd, ne_eq, not_true_eq_false, throwIf, if_false, bind,
        Except.bind, TrimmedAmount.pack_getAmount_getDecimals, hlen, ge_iff_le, le_refl, if_true,
        hn, UInt16.toNat_zero, hslice, List.take_zero, hcheck]
      cases m
      cases hnil
      rfl

/-! ### The shapes of accepted byte strings -/

/-- A 16-bit field inside the byte string, with the offset after it. -/
theorem toNat_uint16 {n : UInt16} {o o' : ℕ} (h : P.asUint16Unchecked b o = (n, o'))
    (hle : o + 2 ≤ b.length) : n.toNat = numberAt b o 2 ∧ o' = o + 2 := by
  rw [hP.uint16 b o hle] at h
  obtain ⟨rfl, rfl⟩ := Prod.mk.inj h
  exact ⟨(UInt16.toNat_ofNat' ..).trans (Nat.mod_eq_of_lt (numberAt_lt hle)), rfl⟩

/-- A 4-byte prefix inside the byte string, with the offset after it. -/
theorem toNat_bytes4 {x : BitVec 32} {o o' : ℕ} (h : P.asBytes4Unchecked b o = (x, o'))
    (hle : o + 4 ≤ b.length) : x.toNat = numberAt b o 4 ∧ o' = o + 4 := by
  rw [hP.bytes4 b o hle] at h
  obtain ⟨rfl, rfl⟩ := Prod.mk.inj h
  exact ⟨(BitVec.toNat_ofNat ..).trans (Nat.mod_eq_of_lt (numberAt_lt hle)), rfl⟩

/-- A manager message is accepted when its length prefix covers exactly what is left. -/
theorem parseNttManagerMessage_accepts :
    (∃ m, parseNttManagerMessage P b = .ok m) ↔ b.length = 66 + numberAt b 64 2 := by
  constructor
  · rintro ⟨m, h⟩
    have h := (parseNttManagerMessage_eq_ok hP).mp h
    simp only [encodeNttManagerMessage, Except.bind_eq_ok, Except.pure_eq_ok,
      checkPayloadLength_eq_ok] at h
    obtain ⟨n, hn, hb⟩ := h
    have h0 := StandsAt.self b
    nth_rewrite 2 [← hb] at h0
    have hnum := StandsAt.number h0.left.right n.toNat_lt
    simp only [packBytes32, List.length_append, length_beBytes, Nat.zero_add,
      Nat.reduceAdd] at hnum
    rw [hnum, hn, ← hb]
    simp only [packBytes32, packUint16, List.length_append, length_beBytes]
  · intro hlen
    rcases hid : P.asBytes32Unchecked b 0 with ⟨id, o₁⟩
    rcases hsender : P.asBytes32Unchecked b o₁ with ⟨sender, o₂⟩
    rcases hn : P.asUint16Unchecked b o₂ with ⟨n, o₃⟩
    rcases hpayload : P.sliceUnchecked b o₃ n.toNat with ⟨payload, o₄⟩
    obtain rfl : o₁ = 32 := by simpa [hid] using hP.bytes32_next b 0
    obtain rfl : o₂ = 64 := by simpa [hsender] using hP.bytes32_next b 32
    obtain ⟨hnum, rfl⟩ := toNat_uint16 hP hn (by omega)
    obtain rfl : o₄ = 66 + n.toNat := by simpa [hpayload] using hP.slice_next b 66 n.toNat
    have hcheck : P.checkLength b (66 + n.toNat) = .ok () :=
      (hP.checkLength b _).mpr (by omega)
    refine ⟨⟨id, sender, payload⟩, ?_⟩
    simp only [parseNttManagerMessage, hid, hsender, hn, hpayload, hcheck]
    rfl

/-- A transceiver message is accepted under its prefix when the two length prefixes cover
exactly what is left. -/
theorem parseTransceiverMessage_accepts {pre : BitVec 32} :
    (∃ m, parseTransceiverMessage P pre b = .ok m) ↔
      numberAt b 0 4 = pre.toNat ∧
        b.length = 72 + numberAt b 68 2 + numberAt b (70 + numberAt b 68 2) 2 := by
  constructor
  · rintro ⟨m, h⟩
    have h := (parseTransceiverMessage_eq_ok hP).mp h
    simp only [encodeTransceiverMessage, Except.bind_eq_ok, Except.pure_eq_ok,
      checkPayloadLength_eq_ok] at h
    obtain ⟨n, hn, k, hk, hb⟩ := h
    have h0 := StandsAt.self b
    nth_rewrite 2 [← hb] at h0
    have hpre := StandsAt.number h0.left.left.left.left.left.left pre.isLt
    have hnum := StandsAt.number h0.left.left.left.right n.toNat_lt
    have hnum' := StandsAt.number h0.left.right k.toNat_lt
    simp only [packBytes4, packBytes32, packUint16, List.length_append, length_beBytes,
      Nat.zero_add, Nat.reduceAdd] at hnum hnum'
    refine ⟨hpre, ?_⟩
    rw [hnum, hn, hnum', hk, ← hb]
    simp only [packBytes4, packBytes32, packUint16, List.length_append, length_beBytes]
    omega
  · rintro ⟨hmagic, hlen⟩
    rcases hpre : P.asBytes4Unchecked b 0 with ⟨pre', o₁⟩
    rcases hsource : P.asBytes32Unchecked b o₁ with ⟨source, o₂⟩
    rcases hrecipient : P.asBytes32Unchecked b o₂ with ⟨recipient, o₃⟩
    rcases hn : P.asUint16Unchecked b o₃ with ⟨n, o₄⟩
    rcases hmanager : P.sliceUnchecked b o₄ n.toNat with ⟨managerPayload, o₅⟩
    rcases hk : P.asUint16Unchecked b o₅ with ⟨k, o₆⟩
    rcases htransceiver : P.sliceUnchecked b o₆ k.toNat with ⟨transceiverPayload, o₇⟩
    obtain ⟨hnum₀, rfl⟩ := toNat_bytes4 hP hpre (by omega)
    obtain rfl : o₂ = 36 := by simpa [hsource] using hP.bytes32_next b 4
    obtain rfl : o₃ = 68 := by simpa [hrecipient] using hP.bytes32_next b 36
    obtain ⟨hnum, rfl⟩ := toNat_uint16 hP hn (by omega)
    obtain rfl : o₅ = 70 + numberAt b 68 2 := by
      rw [← hnum]
      simpa [hmanager] using hP.slice_next b 70 n.toNat
    obtain ⟨hnum', rfl⟩ := toNat_uint16 hP hk (by omega)
    obtain rfl : o₇ = 70 + numberAt b 68 2 + 2 + k.toNat := by
      simpa [htransceiver] using hP.slice_next b (70 + numberAt b 68 2 + 2) k.toNat
    obtain rfl : pre' = pre := BitVec.eq_of_toNat_eq (hnum₀.trans hmagic)
    have hcheck : P.checkLength b (70 + numberAt b 68 2 + 2 + k.toNat) = .ok () :=
      (hP.checkLength b _).mpr (by omega)
    refine ⟨⟨source, recipient, managerPayload, transceiverPayload⟩, ?_⟩
    simp only [parseTransceiverMessage, hpre, hsource, hrecipient, hn, hmanager, hk, htransceiver,
      hcheck, ne_eq, not_true_eq_false, throwIf, if_false]
    rfl

/-- A transfer is accepted when it ends after its fields, or when the length prefix after them
covers exactly what is left. -/
theorem parseNativeTokenTransfer_accepts :
    (∃ m, parseNativeTokenTransfer P b = .ok m) ↔
      numberAt b 0 4 = NTT_PREFIX.toNat ∧
        (b.length = 79 ∨ b.length = 81 + numberAt b 79 2) := by
  constructor
  · rintro ⟨m, h⟩
    rcases (parseNativeTokenTransfer_eq_ok hP).mp h with ⟨hb, -⟩ | ⟨n, hn, hb⟩
    · have h0 := StandsAt.self b
      nth_rewrite 2 [hb] at h0
      rw [transferFields] at h0
      have hpre := StandsAt.number h0.left.left.left.left.left NTT_PREFIX.isLt
      exact ⟨hpre, .inl (by rw [hb, length_transferFields])⟩
    · have h0 := StandsAt.self b
      nth_rewrite 2 [hb] at h0
      have hnum := StandsAt.number h0.right.left n.toNat_lt
      have hleft := h0.left
      rw [transferFields] at hleft
      have hpre := StandsAt.number hleft.left.left.left.left.left NTT_PREFIX.isLt
      rw [length_transferFields, Nat.zero_add] at hnum
      refine ⟨hpre, .inr ?_⟩
      rw [hnum, hn, hb]
      simp only [List.length_append, length_transferFields, packUint16, length_beBytes]
      omega
  · rintro ⟨hmagic, hlen⟩
    rcases hpre : P.asBytes4Unchecked b 0 with ⟨pre, o₁⟩
    rcases hdecimals : P.asUint8Unchecked b o₁ with ⟨decimals, o₂⟩
    rcases hamount : P.asUint64Unchecked b o₂ with ⟨amount, o₃⟩
    rcases htoken : P.asBytes32Unchecked b o₃ with ⟨token, o₄⟩
    rcases hrecipient : P.asBytes32Unchecked b o₄ with ⟨recipient, o₅⟩
    rcases hchain : P.asUint16Unchecked b o₅ with ⟨chain, o₆⟩
    obtain ⟨hnum₀, rfl⟩ := toNat_bytes4 hP hpre (by omega)
    obtain rfl : pre = NTT_PREFIX := BitVec.eq_of_toNat_eq (hnum₀.trans hmagic)
    obtain rfl : o₂ = 5 := by simpa [hdecimals] using hP.uint8_next b 4
    obtain rfl : o₃ = 13 := by simpa [hamount] using hP.uint64_next b 5
    obtain rfl : o₄ = 45 := by simpa [htoken] using hP.bytes32_next b 13
    obtain rfl : o₅ = 77 := by simpa [hrecipient] using hP.bytes32_next b 45
    obtain rfl : o₆ = 79 := by simpa [hchain] using hP.uint16_next b 77
    simp only [parseNativeTokenTransfer, hpre, hdecimals, hamount, htoken, hrecipient, hchain,
      ne_eq, not_true_eq_false, throwIf, if_false]
    by_cases hmore : b.length ≥ 79 + 2
    · rcases hn : P.asUint16Unchecked b 79 with ⟨n, o₇⟩
      obtain ⟨hnum, rfl⟩ := toNat_uint16 hP hn hmore
      rcases hpayload : P.sliceUnchecked b (79 + 2) n.toNat
        with ⟨payload, o₈⟩
      obtain rfl : o₈ = 81 + n.toNat := by simpa [hpayload] using hP.slice_next b 81 n.toNat
      have hcheck : P.checkLength b (81 + n.toNat) = .ok () :=
        (hP.checkLength b _).mpr (by omega)
      simp only [hmore, if_true, hn, hpayload, hcheck]
      exact ⟨_, rfl⟩
    · have hcheck : P.checkLength b 79 = .ok () :=
        (hP.checkLength b _).mpr (by omega)
      simp only [hmore, if_false, hcheck]
      exact ⟨_, rfl⟩

/-- An initialisation is 70 bytes. -/
theorem decodeTransceiverInit_accepts :
    (∃ init, decodeTransceiverInit P b = .ok init) ↔ b.length = 70 := by
  constructor
  · rintro ⟨init, h⟩
    rw [← (decodeTransceiverInit_eq_ok hP).mp h]
    simp [encodeTransceiverInit, packBytes4, packBytes32, packUint8]
  · intro hlen
    rcases hidentifier : P.asBytes4Unchecked b 0 with ⟨identifier, o₁⟩
    rcases hmanager : P.asBytes32Unchecked b o₁ with ⟨manager, o₂⟩
    rcases hmode : P.asUint8Unchecked b o₂ with ⟨mode, o₃⟩
    rcases htoken : P.asBytes32Unchecked b o₃ with ⟨token, o₄⟩
    rcases hdecimals : P.asUint8Unchecked b o₄ with ⟨decimals, o₅⟩
    obtain rfl : o₁ = 4 := by simpa [hidentifier] using hP.bytes4_next b 0
    obtain rfl : o₂ = 36 := by simpa [hmanager] using hP.bytes32_next b 4
    obtain rfl : o₃ = 37 := by simpa [hmode] using hP.uint8_next b 36
    obtain rfl : o₄ = 69 := by simpa [htoken] using hP.bytes32_next b 37
    obtain rfl : o₅ = 70 := by simpa [hdecimals] using hP.uint8_next b 69
    have hcheck : P.checkLength b 70 = .ok () := (hP.checkLength b _).mpr hlen.symm
    refine ⟨⟨identifier, manager, mode, token, decimals⟩, ?_⟩
    simp only [decodeTransceiverInit, hidentifier, hmanager, hmode, htoken, hdecimals, hcheck]
    rfl

/-- A registration is 38 bytes. -/
theorem decodeTransceiverRegistration_accepts :
    (∃ registration, decodeTransceiverRegistration P b = .ok registration) ↔ b.length = 38 := by
  constructor
  · rintro ⟨registration, h⟩
    rw [← (decodeTransceiverRegistration_eq_ok hP).mp h]
    simp [encodeTransceiverRegistration, packBytes4, packBytes32, packUint16]
  · intro hlen
    rcases hidentifier : P.asBytes4Unchecked b 0 with ⟨identifier, o₁⟩
    rcases hchain : P.asUint16Unchecked b o₁ with ⟨chain, o₂⟩
    rcases haddress : P.asBytes32Unchecked b o₂ with ⟨address, o₃⟩
    obtain rfl : o₁ = 4 := by simpa [hidentifier] using hP.bytes4_next b 0
    obtain rfl : o₂ = 6 := by simpa [hchain] using hP.uint16_next b 4
    obtain rfl : o₃ = 38 := by simpa [haddress] using hP.bytes32_next b 6
    have hcheck : P.checkLength b 38 = .ok () := (hP.checkLength b _).mpr hlen.symm
    refine ⟨⟨identifier, chain, address⟩, ?_⟩
    simp only [decodeTransceiverRegistration, hidentifier, hchain, haddress, hcheck]
    rfl

/-- Both parsers in a row accept exactly the encodings of one message inside the other. -/
theorem parseTransceiverAndNttManagerMessage_eq_ok {pre : BitVec 32} {t : TransceiverMessage}
    {m : NttManagerMessage} :
    parseTransceiverAndNttManagerMessage P pre b = .ok (t, m) ↔
      encodeTransceiverMessage pre t = .ok b ∧
        encodeNttManagerMessage m = .ok t.nttManagerPayload := by
  simp only [parseTransceiverAndNttManagerMessage, Except.bind_eq_ok, Except.pure_eq_ok,
    Prod.mk.injEq, parseTransceiverMessage_eq_ok hP, parseNttManagerMessage_eq_ok hP]
  constructor
  · rintro ⟨t', ht, m', hm, rfl, rfl⟩
    exact ⟨ht, hm⟩
  · rintro ⟨ht, hm⟩
    exact ⟨t, ht, m, hm, rfl, rfl⟩

end

/-- A byte string that the contracts parse as three messages, one inside the other. -/
def ParsesTransfer (P : BytesParsing) (pre : BitVec 32) (b : Bytes) (t : TransceiverMessage)
    (m : NttManagerMessage) (x : NativeTokenTransfer) : Prop :=
  parseTransceiverAndNttManagerMessage P pre b = .ok (t, m) ∧
    parseNativeTokenTransfer P m.payload = .ok x

/-- What is parsed as three messages is the encoding of one inside the other. -/
theorem parsesTransfer_iff {P : BytesParsing} (hP : P.Advancing) {pre : BitVec 32} {b : Bytes}
    {t : TransceiverMessage} {m : NttManagerMessage} {x : NativeTokenTransfer} :
    ParsesTransfer P pre b t m x ↔ encodeTransceiverMessage pre t = .ok b ∧
      encodeNttManagerMessage m = .ok t.nttManagerPayload ∧ EncodesTransfer x m.payload := by
  rw [ParsesTransfer, parseTransceiverAndNttManagerMessage_eq_ok hP,
    parseNativeTokenTransfer_eq_ok hP, and_assoc]

/-! ### Strictness -/

/-- A payload has an encoding when its length fits 16 bits. -/
theorem checkPayloadLength_of_le {payload : Bytes} (h : payload.length ≤ 65535) :
    checkPayloadLength payload = .ok (UInt16.ofNat payload.length) :=
  checkPayloadLength_eq_ok.mpr
    ((UInt16.toNat_ofNat' ..).trans (Nat.mod_eq_of_lt (by omega)))

/-- What fits has an encoding, which the parser gives back; the parser accepts exactly the byte
strings of a shape, and what it accepts is the encoding of what it returns, or one of the
variants of that. -/
structure StrictFormat {α : Type} (encode : α → Except Error Bytes)
    (parse : Bytes → Except Error α) (fits : α → Prop) (shape : Bytes → Prop)
    (variant : α → Bytes → Prop) : Prop where
  encodes : ∀ m, fits m → ∃ b, encode m = .ok b
  round_trip : ∀ m b, encode m = .ok b → parse b = .ok m
  accepts : ∀ b, (∃ m, parse b = .ok m) ↔ shape b
  exact : ∀ b m, parse b = .ok m → encode m = .ok b ∨ variant m b

/-- The formats of the contracts are strict; only a transfer has a variant, with an explicit
empty additional payload. -/
structure StrictFormats (P : BytesParsing) : Prop where
  nttManagerMessage : StrictFormat encodeNttManagerMessage (parseNttManagerMessage P)
    (fun m => m.payload.length ≤ 65535) (fun b => b.length = 66 + numberAt b 64 2)
    (fun _ _ => False)
  nativeTokenTransfer : StrictFormat encodeNativeTokenTransfer (parseNativeTokenTransfer P)
    (fun m => m.additionalPayload.length ≤ 65535)
    (fun b => numberAt b 0 4 = NTT_PREFIX.toNat ∧
      (b.length = 79 ∨ b.length = 81 + numberAt b 79 2))
    (fun m b => m.additionalPayload = [] ∧
      ∃ b', encodeNativeTokenTransfer m = .ok b' ∧ b = b' ++ packUint16 0)
  transceiverMessage : ∀ pre, StrictFormat (encodeTransceiverMessage pre)
    (parseTransceiverMessage P pre)
    (fun m => m.nttManagerPayload.length ≤ 65535 ∧ m.transceiverPayload.length ≤ 65535)
    (fun b => numberAt b 0 4 = pre.toNat ∧
      b.length = 72 + numberAt b 68 2 + numberAt b (70 + numberAt b 68 2) 2)
    (fun _ _ => False)
  transceiverInit : StrictFormat (fun init => .ok (encodeTransceiverInit init))
    (decodeTransceiverInit P) (fun _ => True) (fun b => b.length = 70) (fun _ _ => False)
  transceiverRegistration : StrictFormat
    (fun registration => .ok (encodeTransceiverRegistration registration))
    (decodeTransceiverRegistration P) (fun _ => True) (fun b => b.length = 38) (fun _ _ => False)
  nested : ∀ pre b t m, parseTransceiverAndNttManagerMessage P pre b = .ok (t, m) ↔
    encodeTransceiverMessage pre t = .ok b ∧ encodeNttManagerMessage m = .ok t.nttManagerPayload

/-- **The wire formats are strict.** What was encoded is parsed back, a parser accepts exactly
the byte strings with its prefix whose length prefixes cover what is left and leave nothing
over, and encoding the result again gives the byte string, up to the explicit empty additional
payload of a transfer. -/
theorem wire_format_strict {P : BytesParsing} (hP : P.Advancing) : StrictFormats P where
  nttManagerMessage :=
    { encodes := fun m hm => ⟨_, by rw [encodeNttManagerMessage, checkPayloadLength_of_le hm]; rfl⟩
      round_trip := fun _ _ => (parseNttManagerMessage_eq_ok hP).mpr
      accepts := fun _ => parseNttManagerMessage_accepts hP
      exact := fun _ _ h => .inl ((parseNttManagerMessage_eq_ok hP).mp h) }
  nativeTokenTransfer :=
    { encodes := fun m hm => by
        rw [encodeNativeTokenTransfer]
        split
        · rw [checkPayloadLength_of_le hm]
          exact ⟨_, rfl⟩
        · exact ⟨_, rfl⟩
      round_trip := fun _ _ => parse_encodeNativeTokenTransfer hP.toLawful
      accepts := fun _ => parseNativeTokenTransfer_accepts hP
      exact := fun b m h => by
        refine (encodesTransfer_iff.mp ((parseNativeTokenTransfer_eq_ok hP).mp h)).imp_right ?_
        rintro ⟨hnil, rfl⟩
        refine ⟨hnil, transferFields m, ?_, rfl⟩
        rw [encodeNativeTokenTransfer, hnil]
        rfl }
  transceiverMessage pre :=
    { encodes := fun m hm => ⟨_, by
        rw [encodeTransceiverMessage, checkPayloadLength_of_le hm.1,
          checkPayloadLength_of_le hm.2]
        rfl⟩
      round_trip := fun _ _ => (parseTransceiverMessage_eq_ok hP).mpr
      accepts := fun _ => parseTransceiverMessage_accepts hP
      exact := fun _ _ h => .inl ((parseTransceiverMessage_eq_ok hP).mp h) }
  transceiverInit :=
    { encodes := fun _ _ => ⟨_, rfl⟩
      round_trip := fun _ _ h => (decodeTransceiverInit_eq_ok hP).mpr (Except.ok.inj h)
      accepts := fun _ => decodeTransceiverInit_accepts hP
      exact := fun _ _ h => .inl (congrArg Except.ok ((decodeTransceiverInit_eq_ok hP).mp h)) }
  transceiverRegistration :=
    { encodes := fun _ _ => ⟨_, rfl⟩
      round_trip := fun _ _ h => (decodeTransceiverRegistration_eq_ok hP).mpr (Except.ok.inj h)
      accepts := fun _ => decodeTransceiverRegistration_accepts hP
      exact := fun _ _ h =>
        .inl (congrArg Except.ok ((decodeTransceiverRegistration_eq_ok hP).mp h)) }
  nested _ _ _ _ := parseTransceiverAndNttManagerMessage_eq_ok hP

/-- The formats are strict with a parsing library that reads zeros past the end. -/
theorem reference_wire_format_strict : StrictFormats BytesParsing.reference :=
  wire_format_strict BytesParsing.reference_advancing

end Ntt
