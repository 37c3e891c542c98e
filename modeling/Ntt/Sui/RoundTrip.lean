import Ntt.Sui.Codec
import Ntt.Sui.State

/-!
# Round Trips of the Sui Codec

What the parsers of `ntt_common` accept is what the contracts encode (`Ntt.Sui.Codec`), so the
question is when the packages themselves encode. A cast to 16 bits aborts where a length does not
fit. The encoder of manager messages checks the length of the payload first, against a bound that
is one too low: a payload of the greatest length that fits is refused, though the parser takes it.

Inside a transceiver message the payload is never that long: the length of the whole manager
message has to fit too, and it is 66 bytes longer.

## Main results

* `codec_lossless`: what is encoded and parsed back, and which byte strings are encodings.
* `longest_payload_refused`: a message that is not encoded.
-/

namespace Ntt.Sui

open BigEndian Wire

/-- A value has an encoding, and the parser gives the value back. -/
def Lossless {α : Type} (toBytes : α → Except Abort Bytes) (parse : Bytes → Except Abort α)
    (x : α) : Prop :=
  ∃ b, toBytes x = .ok b ∧ parse b = .ok x

/-- The only encoding of what is parsed is the byte string that was parsed. -/
def Canonical {α : Type} (toBytes : α → Except Abort Bytes) (parse : Bytes → Except Abort α)
    (b : Bytes) : Prop :=
  ∀ x, parse b = .ok x → toBytes x = .ok b

/-- The longest payload behind a length of two bytes. -/
def MAX_LENGTH : ℕ := 65535

variable {W : Wormhole} (hW : W.Lawful)
include hW

/-- A parser accepts exactly the byte strings that stand for a value. -/
theorem parse_of_takes {α : Type} {parser : Reader Abort α} {D : α → Bytes → Prop}
    (h : Takes parser D) {b : Bytes} {a : α} : parse W parser b = .ok a ↔ D a b := by
  rw [Sui.parse_eq_ok hW, h b a []]
  constructor
  · rintro ⟨p, hp, rfl⟩
    rwa [List.append_nil]
  · intro hb
    exact ⟨b, hb, (List.append_nil b).symm⟩

/-! ### Manager messages -/

/-- The parser accepts the encodings of the contracts. -/
theorem NttManagerMessage.parse_eq_ok {b : Bytes} {m : NttManagerMessage Bytes} :
    NttManagerMessage.parse W b = .ok m ↔ encodeNttManagerMessage m.toEvm = .ok b :=
  parse_of_takes hW (NttManagerMessage.takes hW)

omit hW in
/-- The contracts encode what fits. -/
theorem NttManagerMessage.encodes_iff {m : NttManagerMessage Bytes} :
    (∃ b, encodeNttManagerMessage m.toEvm = .ok b) ↔ m.payload.length ≤ MAX_LENGTH := by
  simp only [encodeNttManagerMessage, toEvm, Except.bind_eq_ok, Except.pure_eq_ok]
  constructor
  · rintro ⟨_, n, hn, -⟩
    have := n.toNat_lt
    rw [checkPayloadLength_eq_ok] at hn
    rw [MAX_LENGTH]
    omega
  · intro h
    exact ⟨_, _, checkPayloadLength_of_le h, rfl⟩

/-- The package encodes all of these but the longest. -/
theorem NttManagerMessage.toBytes_eq_ok {b : Bytes} {m : NttManagerMessage Bytes} :
    NttManagerMessage.toBytes W m = .ok b ↔
      encodeNttManagerMessage m.toEvm = .ok b ∧ m.payload.length ≠ MAX_LENGTH := by
  constructor
  · intro h
    refine ⟨encode_of_toBytes hW h, ?_⟩
    simp only [toBytes, Except.bind_eq_ok, assert_eq_ok] at h
    obtain ⟨_, hlt, -⟩ := h
    exact hlt.ne
  · rintro ⟨h, hne⟩
    have hle := encodes_iff.mp ⟨b, h⟩
    simp only [encodeNttManagerMessage, toEvm, Except.bind_eq_ok, Except.pure_eq_ok,
      checkPayloadLength_eq_ok] at h
    obtain ⟨n, hn, rfl⟩ := h
    simp only [toBytes, Except.bind_eq_ok, Except.pure_eq_ok, assert_eq_ok, asU16_eq_ok,
      hW.bytes32ToBytes, hW.externalAddressToBytes, hW.pushU16Be]
    exact ⟨(), lt_of_le_of_ne hle hne, n, hn, rfl⟩

/-- A manager message that fits is encoded and read back, but for the longest payload. -/
theorem NttManagerMessage.lossless_iff {m : NttManagerMessage Bytes}
    (h : m.payload.length ≤ MAX_LENGTH) :
    Lossless (NttManagerMessage.toBytes W) (NttManagerMessage.parse W) m ↔
      m.payload.length ≠ MAX_LENGTH := by
  constructor
  · rintro ⟨b, hb, -⟩
    exact ((toBytes_eq_ok hW).mp hb).2
  · intro hne
    obtain ⟨b, hb⟩ := encodes_iff.mpr h
    exact ⟨b, (toBytes_eq_ok hW).mpr ⟨hb, hne⟩, (parse_eq_ok hW).mpr hb⟩

/-! ### Transceiver messages -/

omit hW in
/-- The encoding of a manager message is 66 bytes longer than its payload. -/
theorem NttManagerMessage.length_encode {m : NttManagerMessage Bytes} {b : Bytes}
    (h : encodeNttManagerMessage m.toEvm = .ok b) : b.length = 66 + m.payload.length := by
  simp only [encodeNttManagerMessage, toEvm, Except.bind_eq_ok, Except.pure_eq_ok] at h
  obtain ⟨n, -, rfl⟩ := h
  simp only [packBytes32, packUint16, List.length_append, length_beBytes]

/-- What is taken for the data is exactly what the package encodes. -/
theorem TransceiverMessageData.takes_toBytes :
    Takes (TransceiverMessageData.takeBytes W) fun m q =>
      TransceiverMessageData.toBytes W m = .ok q := by
  intro b m rest
  rw [TransceiverMessageData.takes hW b m rest]
  simp only [toBytes, Except.bind_eq_ok, Except.pure_eq_ok, asU16_eq_ok,
    hW.externalAddressToBytes, hW.pushU16Be, NttManagerMessage.toBytes_eq_ok hW, List.append_assoc]
  constructor
  · rintro ⟨q, ⟨p, hp, n, hn, hq⟩, hb⟩
    refine ⟨q, ⟨p, ⟨hp, ?_⟩, n, hn, hq.symm⟩, hb⟩
    -- the length of the whole message fits, so the payload is not the longest
    have hlen := NttManagerMessage.length_encode hp
    have := n.toNat_lt
    rw [MAX_LENGTH]
    omega
  · rintro ⟨q, ⟨p, ⟨hp, -⟩, n, hn, hq⟩, hb⟩
    exact ⟨q, ⟨p, hp, n, hn, hq.symm⟩, hb⟩

/-- The data is encoded if the manager message inside fits. -/
theorem TransceiverMessageData.encodes {m : TransceiverMessageData Bytes}
    (h : 66 + m.nttManagerPayload.payload.length ≤ MAX_LENGTH) :
    ∃ b, TransceiverMessageData.toBytes W m = .ok b := by
  rw [MAX_LENGTH] at h
  obtain ⟨p, hp⟩ := NttManagerMessage.encodes_iff.mpr
    (show m.nttManagerPayload.payload.length ≤ MAX_LENGTH by rw [MAX_LENGTH]; omega)
  have hlen := NttManagerMessage.length_encode hp
  have hne : m.nttManagerPayload.payload.length ≠ MAX_LENGTH := by rw [MAX_LENGTH]; omega
  have hfit : (UInt16.ofNat p.length).toNat = p.length := by
    rw [UInt16.toNat_ofNat', Nat.mod_eq_of_lt (by omega)]
  simp only [toBytes, Except.bind_eq_ok, Except.pure_eq_ok, asU16_eq_ok,
    NttManagerMessage.toBytes_eq_ok hW]
  exact ⟨_, p, ⟨hp, hne⟩, _, hfit, rfl⟩

variable {pre : Bytes4}

/-- What is taken for a transceiver message is exactly what the package encodes. -/
theorem TransceiverMessage.takes_toBytes :
    Takes (TransceiverMessage.takeBytes W pre) fun m q =>
      TransceiverMessage.toBytes W pre m = .ok q := by
  intro b m rest
  simp only [takeBytes, run_bind_eq_ok, run_pure_eq_ok, run_throwUnless_eq_ok,
    Bytes4.takes hW _ _ _, TransceiverMessageData.takes_toBytes hW _ _ _, hW.takeU16Be _ _ _,
    hW.takeBytes, toBytes, Except.bind_eq_ok, Except.pure_eq_ok, asU16_eq_ok, hW.pushU16Be]
  constructor
  · rintro ⟨_, _, h₀, _, _, ⟨rfl, rfl⟩, data, _, ⟨q, hq, rfl⟩, k, _, rfl, payload, _, ⟨hk, rfl⟩,
      rfl, rfl⟩
    refine ⟨_, ⟨q, hq, k, hk.symm, rfl⟩, ?_⟩
    rw [h₀]
    simp only [List.append_assoc]
  · rintro ⟨_, ⟨q, hq, k, hk, rfl⟩, rfl⟩
    refine ⟨pre, _, ?_, (), _, ⟨rfl, rfl⟩, m.messageData, _, ⟨q, hq, rfl⟩, k, _, rfl,
      m.transceiverPayload, _, ⟨hk.symm, rfl⟩, rfl, rfl⟩
    simp only [List.append_assoc]

/-- A transceiver message is encoded if its two variable parts fit. -/
theorem TransceiverMessage.encodes {m : TransceiverMessage Bytes}
    (h : 66 + m.messageData.nttManagerPayload.payload.length ≤ MAX_LENGTH)
    (h' : m.transceiverPayload.length ≤ MAX_LENGTH) :
    ∃ b, TransceiverMessage.toBytes W pre m = .ok b := by
  rw [MAX_LENGTH] at h'
  obtain ⟨q, hq⟩ := TransceiverMessageData.encodes hW h
  have hfit : (UInt16.ofNat m.transceiverPayload.length).toNat = m.transceiverPayload.length := by
    rw [UInt16.toNat_ofNat', Nat.mod_eq_of_lt (by omega)]
  simp only [toBytes, Except.bind_eq_ok, Except.pure_eq_ok, asU16_eq_ok]
  exact ⟨_, q, hq, _, hfit, rfl⟩

/-! ### Inbox keys -/

/-- A manager message whose payload is a transfer, as the inbox has it. -/
def NttManagerMessage.parseTransfer (W : Wormhole) (b : Bytes) :
    Except Abort (NttManagerMessage NativeTokenTransfer) := do
  let message ← NttManagerMessage.parse W b
  message.map (NativeTokenTransfer.parse W)

/-- Two byte strings that are read as the same message are the same, the additional payload and
its absence told apart. -/
theorem NttManagerMessage.parseTransfer_inj {b b' : Bytes} {m : NttManagerMessage NativeTokenTransfer}
    (h : NttManagerMessage.parseTransfer W b = .ok m)
    (h' : NttManagerMessage.parseTransfer W b' = .ok m) : b = b' := by
  simp only [parseTransfer, NttManagerMessage.map, Except.bind_eq_ok, Except.pure_eq_ok,
    NttManagerMessage.parse_eq_ok hW, NativeTokenTransfer.parse_eq_ok hW,
    ← NativeTokenTransfer.toBytes_eq_ok hW] at h h'
  obtain ⟨⟨id, sender, p⟩, hb, x, hx, rfl⟩ := h
  obtain ⟨⟨id', sender', p'⟩, hb', x', hx', hm⟩ := h'
  cases hm
  obtain rfl : p = p' := Except.ok.inj (hx.symm.trans hx')
  exact Except.ok.inj (hb.symm.trans hb')

/-! ### The codec -/

/-- **The codec of the Sui packages.** A manager message that fits is encoded and read back if and
only if its payload is not the longest, and a byte string that is read as a manager message is its
encoding under the same condition. The data of a transceiver message and a transceiver message
are encoded and read back whenever they fit, and what is read is always the encoding. Byte strings
that lead to the same key of the inbox are the same. -/
theorem codec_lossless (pre : Bytes4) :
    (∀ m : NttManagerMessage Bytes, m.payload.length ≤ MAX_LENGTH →
      (Lossless (NttManagerMessage.toBytes W) (NttManagerMessage.parse W) m ↔
        m.payload.length ≠ MAX_LENGTH)) ∧
    (∀ b m, NttManagerMessage.parse W b = .ok m →
      (NttManagerMessage.toBytes W m = .ok b ↔ m.payload.length ≠ MAX_LENGTH)) ∧
    (∀ m : TransceiverMessageData Bytes, 66 + m.nttManagerPayload.payload.length ≤ MAX_LENGTH →
      Lossless (TransceiverMessageData.toBytes W) (TransceiverMessageData.parse W) m) ∧
    (∀ b, Canonical (TransceiverMessageData.toBytes W) (TransceiverMessageData.parse W) b) ∧
    (∀ m : TransceiverMessage Bytes,
      66 + m.messageData.nttManagerPayload.payload.length ≤ MAX_LENGTH →
      m.transceiverPayload.length ≤ MAX_LENGTH →
      Lossless (TransceiverMessage.toBytes W pre) (TransceiverMessage.parse W pre) m) ∧
    (∀ b, Canonical (TransceiverMessage.toBytes W pre) (TransceiverMessage.parse W pre) b) ∧
    ∀ b b' m m' chain chain', NttManagerMessage.parseTransfer W b = .ok m →
      NttManagerMessage.parseTransfer W b' = .ok m' →
      (⟨chain, m⟩ : InboxKey) = ⟨chain', m'⟩ → b = b' := by
  have hdata : ∀ b m, TransceiverMessageData.parse W b = .ok m ↔
      TransceiverMessageData.toBytes W m = .ok b := fun b m =>
    parse_of_takes hW (TransceiverMessageData.takes_toBytes hW)
  have hmessage : ∀ b m, TransceiverMessage.parse W pre b = .ok m ↔
      TransceiverMessage.toBytes W pre m = .ok b := fun b m =>
    parse_of_takes hW (TransceiverMessage.takes_toBytes hW)
  refine ⟨fun m => NttManagerMessage.lossless_iff hW, fun b m h => ?_, fun m h => ?_,
    fun b m => (hdata b m).mp, fun m h h' => ?_, fun b m => (hmessage b m).mp, ?_⟩
  · rw [NttManagerMessage.toBytes_eq_ok hW, and_iff_right ((NttManagerMessage.parse_eq_ok hW).mp h)]
  · obtain ⟨b, hb⟩ := TransceiverMessageData.encodes hW h
    exact ⟨b, hb, (hdata b m).mpr hb⟩
  · obtain ⟨b, hb⟩ : ∃ b, TransceiverMessage.toBytes W pre m = .ok b :=
      TransceiverMessage.encodes hW h h'
    exact ⟨b, hb, (hmessage b m).mpr hb⟩
  · rintro b b' m m' chain chain' h h' hkey
    cases hkey
    exact NttManagerMessage.parseTransfer_inj hW h h'

omit hW in
/-- A message that is encoded and read back. -/
theorem sample_codec_lossless :
    Lossless (NttManagerMessage.toBytes .reference) (NttManagerMessage.parse .reference)
      ⟨3, 4, [1, 2, 3]⟩ :=
  ((codec_lossless Wormhole.reference_lawful (.ofWord 0x9945FF10)).1 ⟨3, 4, [1, 2, 3]⟩
    (by decide)).mpr (by decide)

omit hW in
/-- A payload of 65535 bytes is refused. -/
theorem longest_payload_refused :
    (List.replicate 65535 (0 : UInt8)).length ≤ MAX_LENGTH ∧
      NttManagerMessage.toBytes .reference ⟨3, 4, List.replicate 65535 0⟩ =
        .error (.code "ntt_manager_message" 0) := by
  refine ⟨by rw [List.length_replicate, MAX_LENGTH], ?_⟩
  rw [NttManagerMessage.toBytes, List.length_replicate, assert, if_neg (by omega)]
  rfl

end Ntt.Sui
