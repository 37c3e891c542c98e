import Ntt.Sui.Messages

/-!
# The Sui Parsers Accept What the Contracts Accept

The Sui parsers check every length when they meet it, the parsers of the contracts check the
whole length at the end. Both accept exactly the encodings, and read the same fields off them; an
additional payload that is absent for one counts as the empty one.

## Main results

* `TransceiverMessage.parse_eq_ok`, `NativeTokenTransfer.parse_eq_ok`: what the parsers accept.
* `wire_agreement`: the two sides accept the same byte strings, with the same fields, and each
  accepts what the other encodes.
-/

namespace Ntt.Sui

open BigEndian Wire

variable {W : Wormhole} (hW : W.Lawful)
include hW

/-- A parser accepts what it takes with nothing left. -/
theorem parse_eq_ok {α : Type} {parser : Reader Abort α} {buf : Bytes} {a : α} :
    parse W parser buf = .ok a ↔ parser.run buf = .ok (a, []) := by
  simp only [parse, Except.bind_eq_ok, Except.pure_eq_ok, Prod.exists, hW.destroyEmpty]
  constructor
  · rintro ⟨a', cur, h, u, rest, ⟨rfl, rfl⟩, rfl⟩
    exact h
  · intro h
    exact ⟨a, [], h, (), [], ⟨rfl, rfl⟩, rfl⟩

theorem Bytes4.takes : TakesField (Bytes4.take W) Bytes4.data := by
  intro b x rest
  simp only [take, run_bind_eq_ok, run_liftM_eq_ok, hW.takeBytes, new]
  constructor
  · rintro ⟨data, _, ⟨hlen, h⟩, hx, rfl⟩
    rw [dif_pos hlen] at hx
    rw [h, ← Except.ok.inj hx]
  · intro h
    refine ⟨x.data, rest, ⟨x.length_data, h⟩, ?_, rfl⟩
    rw [dif_pos x.length_data]

omit hW in
theorem data_ofWord (x : BitVec 32) : (Bytes4.ofWord x).data = packBytes4 x := rfl

/-! ### Transfers -/

omit hW in
/-- The transfer as a message of the contracts. -/
def NativeTokenTransfer.toEvm (m : NativeTokenTransfer) : Ntt.NativeTokenTransfer :=
  ⟨packTrimmedAmount m.amount.amount m.amount.decimals, m.sourceToken, m.recipient, m.toChain,
    m.payload.getD []⟩

omit hW in
/-- The byte strings of a transfer: its fields, and then its payload behind its length, if it has
one. -/
def NativeTokenTransfer.Stands (m : NativeTokenTransfer) (b : Bytes) : Prop :=
  m.payload = none ∧ b = transferFields m.toEvm ∨
    ∃ p, m.payload = some p ∧ ∃ n : UInt16, n.toNat = p.length ∧
      b = transferFields m.toEvm ++ (packUint16 n ++ p)

omit hW in
theorem transferFields_toEvm (m : NativeTokenTransfer) :
    transferFields m.toEvm = NTT_PREFIX ++ (packUint8 m.amount.decimals ++
      (packUint64 m.amount.amount ++ (packBytes32 m.sourceToken ++ (packBytes32 m.recipient ++
        packUint16 m.toChain)))) := by
  have hmagic : packBytes4 Ntt.NTT_PREFIX = NTT_PREFIX := by decide
  simp only [transferFields, NativeTokenTransfer.toEvm, TrimmedAmount.getAmount_pack,
    TrimmedAmount.getDecimals_pack, hmagic, List.append_assoc]

/-- The end of a transfer, when it is read to the end. -/
theorem NativeTokenTransfer.takePayload_eq_ok {b : Bytes} {payload : Option Bytes} :
    (takePayload W).run b = .ok (payload, []) ↔ payload = none ∧ b = [] ∨
      ∃ p, payload = some p ∧ ∃ n : UInt16, n.toNat = p.length ∧ b = packUint16 n ++ p := by
  have htail : ∀ {n : UInt16} {p : Bytes}, packUint16 n ++ p ≠ [] := by
    intro n p h
    have := congrArg List.length h
    simp [packUint16] at this
  simp only [takePayload, run_bind_eq_ok, hW.isEmpty]
  constructor
  · rintro ⟨_, _, ⟨rfl, rfl⟩, h⟩
    cases b with
    | nil => exact .inl ⟨((run_pure_eq_ok.mp h).1).symm, rfl⟩
    | cons x b =>
        obtain ⟨n, _, hn, p, _, hp, hpayload⟩ := by
          simpa only [List.isEmpty_cons, Bool.not_false, if_true, run_bind_eq_ok] using h
        obtain ⟨rfl, rfl⟩ := run_pure_eq_ok.mp hpayload
        obtain ⟨hlen, rfl⟩ := (hW.takeBytes _ _ _ _).mp hp
        rw [List.append_nil] at hn
        exact .inr ⟨p, rfl, n, hlen.symm, (hW.takeU16Be _ _ _).mp hn⟩
  · rintro (⟨rfl, rfl⟩ | ⟨p, rfl, n, hn, rfl⟩)
    · exact ⟨_, [], ⟨rfl, rfl⟩, run_pure_eq_ok.mpr ⟨rfl, rfl⟩⟩
    · refine ⟨false, _, ⟨List.isEmpty_eq_false_iff.mpr htail, rfl⟩, ?_⟩
      simp only [Bool.not_false, if_true, run_bind_eq_ok, run_pure_eq_ok, hW.takeU16Be _ _ _,
        hW.takeBytes]
      exact ⟨n, p, rfl, p, [], ⟨hn.symm, (List.append_nil p).symm⟩, rfl, rfl⟩

/-- The parser of transfers. -/
theorem NativeTokenTransfer.parse_eq_ok {b : Bytes} {m : NativeTokenTransfer} :
    NativeTokenTransfer.parse W b = .ok m ↔ m.Stands b := by
  rw [parse, Sui.parse_eq_ok hW, Stands, transferFields_toEvm]
  simp only [takeBytes, run_bind_eq_ok, run_pure_eq_ok, run_throwUnless_eq_ok,
    Bytes4.takes hW _ _ _, hW.takeU8 _ _ _, hW.takeU64Be _ _ _, hW.takeExternalAddress _ _ _,
    hW.takeU16Be _ _ _, List.append_assoc]
  constructor
  · rintro ⟨_, _, h₀, _, _, ⟨h₁, h₂⟩, decimals, _, h₃, amount, _, h₄, token, _, h₅, recipient, _,
      h₆, chain, _, h₇, payload, _, h₈, h₉, rfl⟩
    rw [h₀, h₁, h₂, h₃, h₄, h₅, h₆, h₇, ← h₉]
    rcases (takePayload_eq_ok hW).mp h₈ with ⟨hnone, hnil⟩ | ⟨p, hp, n, hn, htail⟩
    · exact .inl ⟨hnone, by rw [hnil, List.append_nil]⟩
    · exact .inr ⟨p, hp, n, hn, by rw [htail]⟩
  · intro h
    have hlen : NTT_PREFIX.length = 4 := rfl
    suffices ∃ tail, (takePayload W).run tail = .ok (m.payload, []) ∧
        b = NTT_PREFIX ++ (packUint8 m.amount.decimals ++ (packUint64 m.amount.amount ++
          (packBytes32 m.sourceToken ++ (packBytes32 m.recipient ++
            (packUint16 m.toChain ++ tail))))) by
      obtain ⟨tail, htail, hb⟩ := this
      exact ⟨⟨NTT_PREFIX, hlen⟩, _, hb, (), _, ⟨rfl, rfl⟩, _, _, rfl, _, _, rfl, _, _, rfl, _, _,
        rfl, _, _, rfl, _, _, htail, rfl, rfl⟩
    rcases h with ⟨hnone, hb⟩ | ⟨p, hp, n, hn, hb⟩
    · exact ⟨[], (takePayload_eq_ok hW).mpr (.inl ⟨hnone, rfl⟩), by rw [hb, List.append_nil]⟩
    · exact ⟨_, (takePayload_eq_ok hW).mpr (.inr ⟨p, hp, n, hn, rfl⟩), hb⟩

/-- What is encoded is accepted. -/
theorem NativeTokenTransfer.toBytes_eq_ok {b : Bytes} {m : NativeTokenTransfer} :
    NativeTokenTransfer.toBytes W m = .ok b ↔ m.Stands b := by
  rw [Stands, transferFields_toEvm]
  simp only [toBytes, TrimmedAmount.toBytes, hW.pushU8, hW.pushU64Be, hW.pushU16Be,
    hW.externalAddressToBytes, List.append_assoc]
  cases m.payload with
  | none => simp [pure, Except.pure, eq_comm]
  | some p =>
      simp only [Except.bind_eq_ok, Except.pure_eq_ok, asU16_eq_ok, reduceCtorEq, false_and,
        false_or, Option.some.injEq, exists_eq_left']
      exact exists_congr fun n => and_congr_right fun _ => eq_comm

omit hW in
/-- A transfer stands in what the contracts take for its encodings. -/
theorem NativeTokenTransfer.Stands.encodesTransfer {m : NativeTokenTransfer} {b : Bytes}
    (h : m.Stands b) : EncodesTransfer m.toEvm b := by
  rcases h with ⟨hnone, hb⟩ | ⟨p, hp, n, hn, hb⟩
  · refine .inl ⟨hb, ?_⟩
    rw [toEvm, hnone]
    rfl
  · refine .inr ⟨n, ?_, ?_⟩
    · rw [toEvm, hp]
      exact hn
    · rw [hb, show m.toEvm.additionalPayload = p by rw [toEvm, hp]; rfl]

omit hW in
/-- And everything the contracts take for an encoding is that of some transfer. -/
theorem NativeTokenTransfer.exists_stands {x : Ntt.NativeTokenTransfer} {b : Bytes}
    (h : EncodesTransfer x b) : ∃ m : NativeTokenTransfer, m.toEvm = x ∧ m.Stands b := by
  rcases h with ⟨hb, hnil⟩ | ⟨n, hn, hb⟩
  · refine ⟨⟨⟨x.amount.getAmount, x.amount.getDecimals⟩, x.sourceToken, x.recipient, x.toChain,
      none⟩, ?_, ?_⟩
    · rw [toEvm, TrimmedAmount.pack_getAmount_getDecimals, Option.getD_none, ← hnil]
    · refine .inl ⟨rfl, ?_⟩
      rw [hb, toEvm, TrimmedAmount.pack_getAmount_getDecimals]
      rfl
  · refine ⟨⟨⟨x.amount.getAmount, x.amount.getDecimals⟩, x.sourceToken, x.recipient, x.toChain,
      some x.additionalPayload⟩, ?_, ?_⟩
    · rw [toEvm, TrimmedAmount.pack_getAmount_getDecimals, Option.getD_some]
    · refine .inr ⟨x.additionalPayload, rfl, n, hn, ?_⟩
      rw [hb, toEvm, TrimmedAmount.pack_getAmount_getDecimals]
      rfl

/-! ### Manager messages -/

omit hW in
/-- The message as a message of the contracts. -/
def NttManagerMessage.toEvm (m : NttManagerMessage Bytes) : Ntt.NttManagerMessage :=
  ⟨m.id, m.sender, m.payload⟩

theorem NttManagerMessage.takes :
    Takes (NttManagerMessage.takeBytes W) fun m p => encodeNttManagerMessage m.toEvm = .ok p := by
  intro b m rest
  simp only [takeBytes, run_bind_eq_ok, run_pure_eq_ok, hW.takeBytes32 _ _ _,
    hW.takeExternalAddress _ _ _, hW.takeU16Be _ _ _, hW.takeBytes, encodeNttManagerMessage, toEvm,
    Except.bind_eq_ok, Except.pure_eq_ok, checkPayloadLength_eq_ok]
  constructor
  · rintro ⟨id, _, h₀, sender, _, h₁, n, _, h₂, payload, _, ⟨h₃, h₄⟩, h₅, rfl⟩
    refine ⟨_, ⟨n, ?_, rfl⟩, ?_⟩
    · rw [← h₅, h₃]
    · rw [h₀, h₁, h₂, h₄, ← h₅]
      simp only [List.append_assoc]
  · rintro ⟨_, ⟨n, hn, rfl⟩, h⟩
    simp only [List.append_assoc] at h
    exact ⟨_, _, h, _, _, rfl, n, _, rfl, _, _, ⟨hn.symm, rfl⟩, rfl, rfl⟩

/-- The encoding is that of the contracts; the longest payload has none here. -/
theorem NttManagerMessage.encode_of_toBytes {m : NttManagerMessage Bytes} {b : Bytes}
    (h : NttManagerMessage.toBytes W m = .ok b) : encodeNttManagerMessage m.toEvm = .ok b := by
  simp only [toBytes, Except.bind_eq_ok, Except.pure_eq_ok, asU16_eq_ok, hW.bytes32ToBytes,
    hW.externalAddressToBytes, hW.pushU16Be] at h
  obtain ⟨_, -, n, hn, rfl⟩ := h
  rw [encodeNttManagerMessage, checkPayloadLength_eq_ok.mpr
    (show n.toNat = m.toEvm.payload.length from hn)]
  rfl

/-! ### Transceiver messages -/

omit hW in
/-- The message of a transceiver as one of the contracts, with the encoding of the message
inside. -/
def TransceiverMessage.toEvm (m : TransceiverMessage Bytes) (p : Bytes) : Ntt.TransceiverMessage :=
  ⟨m.messageData.sourceNttManagerAddress, m.messageData.recipientNttManagerAddress, p,
    m.transceiverPayload⟩

/-- The data of a transceiver message, with the length that was checked. -/
theorem TransceiverMessageData.takes :
    Takes (TransceiverMessageData.takeBytes W) fun m q => ∃ p,
      encodeNttManagerMessage m.nttManagerPayload.toEvm = .ok p ∧ ∃ n : UInt16,
        n.toNat = p.length ∧ q = packBytes32 m.sourceNttManagerAddress ++
          (packBytes32 m.recipientNttManagerAddress ++ (packUint16 n ++ p)) := by
  intro b m rest
  simp only [takeBytes, run_bind_eq_ok, run_pure_eq_ok, run_liftM_eq_ok, run_throwUnless_eq_ok,
    hW.takeExternalAddress _ _ _, hW.takeU16Be _ _ _, hW.dataLength, sub_eq_ok, asU16_eq_ok,
    NttManagerMessage.takes hW _ _ _]
  constructor
  · rintro ⟨source, _, h₀, recipient, _, h₁, n, c, h₂, _, _, ⟨rfl, rfl⟩, manager, c', ⟨p, hp, rfl⟩,
      _, _, ⟨rfl, rfl⟩, read, _, ⟨⟨-, rfl⟩, rfl⟩, read', _, ⟨hread, rfl⟩, _, _, ⟨rfl, rfl⟩, h₃, rfl⟩
    rw [List.length_append, Nat.add_sub_cancel] at hread
    refine ⟨_, ⟨p, ?_, read', hread, rfl⟩, ?_⟩
    · rw [← h₃]
      exact hp
    · rw [h₀, h₁, h₂, ← h₃]
      simp only [List.append_assoc]
  · rintro ⟨q, ⟨p, hp, n, hn, hq⟩, h⟩
    rw [hq] at h
    simp only [List.append_assoc] at h
    refine ⟨_, _, h, _, _, rfl, n, _, rfl, _, _, ⟨rfl, rfl⟩, _, _, ⟨p, hp, rfl⟩, _, _, ⟨rfl, rfl⟩,
      p.length, _, ⟨⟨?_, ?_⟩, rfl⟩, n, _, ⟨hn, rfl⟩, (), _, ⟨rfl, rfl⟩, rfl, rfl⟩
    · rw [List.length_append]
      omega
    · rw [List.length_append, Nat.add_sub_cancel]

variable {pre : BitVec 32}

/-- The parser of transceiver messages accepts exactly what the contracts encode. -/
theorem TransceiverMessage.parse_eq_ok {b : Bytes} {m : TransceiverMessage Bytes} :
    TransceiverMessage.parse W (.ofWord pre) b = .ok m ↔ ∃ p,
      encodeNttManagerMessage m.messageData.nttManagerPayload.toEvm = .ok p ∧
        encodeTransceiverMessage pre (m.toEvm p) = .ok b := by
  rw [parse, Sui.parse_eq_ok hW]
  simp only [takeBytes, run_bind_eq_ok, run_pure_eq_ok, run_throwUnless_eq_ok,
    Bytes4.takes hW _ _ _, TransceiverMessageData.takes hW _ _ _, hW.takeU16Be _ _ _, hW.takeBytes,
    encodeTransceiverMessage, toEvm, Except.bind_eq_ok, Except.pure_eq_ok,
    checkPayloadLength_eq_ok]
  constructor
  · rintro ⟨_, _, h₀, _, _, ⟨h₁, h₂⟩, data, c, ⟨_, ⟨p, hp, n, hn, hq⟩, h₃⟩, k, _, h₄, payload, _,
      ⟨h₅, h₆⟩, h₇, h₈⟩
    rw [← h₇]
    refine ⟨p, hp, n, hn, k, h₅.symm, ?_⟩
    rw [h₀, h₁, h₂, h₃, hq, h₄, h₆, h₈, data_ofWord]
    simp only [List.append_assoc, List.append_nil]
  · rintro ⟨p, hp, n, hn, k, hk, hb⟩
    refine ⟨.ofWord pre, _, ?_, (), _, ⟨rfl, rfl⟩, m.messageData, _, ⟨_, ⟨p, hp, n, hn, rfl⟩, rfl⟩,
      k, m.transceiverPayload, rfl, _, _, ⟨hk.symm, (List.append_nil _).symm⟩, rfl, rfl⟩
    rw [← hb, data_ofWord]
    simp only [List.append_assoc]

/-- What is encoded is accepted. -/
theorem TransceiverMessage.parse_of_toBytes {m : TransceiverMessage Bytes} {b : Bytes}
    (h : TransceiverMessage.toBytes W (.ofWord pre) m = .ok b) :
    TransceiverMessage.parse W (.ofWord pre) b = .ok m := by
  simp only [toBytes, TransceiverMessageData.toBytes, Except.bind_eq_ok, Except.pure_eq_ok,
    asU16_eq_ok, hW.externalAddressToBytes, hW.pushU16Be] at h
  obtain ⟨_, ⟨p, hp, n, hn, rfl⟩, k, hk, rfl⟩ := h
  refine (TransceiverMessage.parse_eq_ok hW).mpr
    ⟨p, NttManagerMessage.encode_of_toBytes hW hp, ?_⟩
  simp only [encodeTransceiverMessage, toEvm, Except.bind_eq_ok, Except.pure_eq_ok,
    checkPayloadLength_eq_ok]
  refine ⟨n, hn, k, hk, ?_⟩
  simp only [data_ofWord, List.append_assoc]

/-! ### Agreement -/

omit hW in
/-- The messages of the two sides say the same; an additional payload that is absent counts as
the empty one. -/
structure SameFields (m : TransceiverMessage NativeTokenTransfer) (t : Ntt.TransceiverMessage)
    (n : Ntt.NttManagerMessage) (x : Ntt.NativeTokenTransfer) : Prop where
  source : t.sourceNttManagerAddress = m.messageData.sourceNttManagerAddress
  recipientManager : t.recipientNttManagerAddress = m.messageData.recipientNttManagerAddress
  transceiverPayload : t.transceiverPayload = m.transceiverPayload
  id : n.id = m.messageData.nttManagerPayload.id
  sender : n.sender = m.messageData.nttManagerPayload.sender
  amount : x.amount.getAmount = m.messageData.nttManagerPayload.payload.amount.amount
  decimals : x.amount.getDecimals = m.messageData.nttManagerPayload.payload.amount.decimals
  sourceToken : x.sourceToken = m.messageData.nttManagerPayload.payload.sourceToken
  recipient : x.recipient = m.messageData.nttManagerPayload.payload.recipient
  toChain : x.toChain = m.messageData.nttManagerPayload.payload.toChain
  additionalPayload :
    x.additionalPayload = m.messageData.nttManagerPayload.payload.payload.getD []

/-- The parsers in a row accept one message inside the other. -/
theorem parseTransfer_eq_ok {b : Bytes} {m : TransceiverMessage NativeTokenTransfer} :
    TransceiverMessage.parseTransfer W (.ofWord pre) b = .ok m ↔ ∃ payload p,
      m.messageData.nttManagerPayload.payload.Stands payload ∧
        encodeNttManagerMessage ⟨m.messageData.nttManagerPayload.id,
          m.messageData.nttManagerPayload.sender, payload⟩ = .ok p ∧
        encodeTransceiverMessage pre ⟨m.messageData.sourceNttManagerAddress,
          m.messageData.recipientNttManagerAddress, p, m.transceiverPayload⟩ = .ok b := by
  simp only [TransceiverMessage.parseTransfer, TransceiverMessage.map, TransceiverMessageData.map,
    NttManagerMessage.map, Except.bind_eq_ok, Except.pure_eq_ok,
    TransceiverMessage.parse_eq_ok hW, NativeTokenTransfer.parse_eq_ok hW]
  constructor
  · rintro ⟨m', ⟨p, hp, hb⟩, _, ⟨_, ⟨x, hx, rfl⟩, rfl⟩, rfl⟩
    exact ⟨_, p, hx, hp, hb⟩
  · rintro ⟨payload, p, hx, hp, hb⟩
    exact ⟨⟨⟨_, _, ⟨_, _, payload⟩⟩, _⟩, ⟨p, hp, hb⟩, _, ⟨_, ⟨_, hx, rfl⟩, rfl⟩, rfl⟩

variable {P : BytesParsing} (hP : P.Advancing)
include hP

/-- What the Sui parsers accept the contracts accept, with the same fields. -/
theorem parsesTransfer_of_parseTransfer {b : Bytes} {m : TransceiverMessage NativeTokenTransfer}
    (h : TransceiverMessage.parseTransfer W (.ofWord pre) b = .ok m) :
    ∃ t n x, ParsesTransfer P pre b t n x ∧ SameFields m t n x := by
  obtain ⟨payload, p, hx, hp, hb⟩ := (parseTransfer_eq_ok hW).mp h
  refine ⟨_, _, m.messageData.nttManagerPayload.payload.toEvm,
    (parsesTransfer_iff hP).mpr ⟨hb, hp, hx.encodesTransfer⟩, ?_⟩
  exact ⟨rfl, rfl, rfl, rfl, rfl, TrimmedAmount.getAmount_pack _ _,
    TrimmedAmount.getDecimals_pack _ _, rfl, rfl, rfl, rfl⟩

/-- What the contracts accept the Sui parsers accept, with the same fields. -/
theorem parseTransfer_of_parsesTransfer {b : Bytes} {t : Ntt.TransceiverMessage}
    {n : Ntt.NttManagerMessage} {x : Ntt.NativeTokenTransfer} (h : ParsesTransfer P pre b t n x) :
    ∃ m, TransceiverMessage.parseTransfer W (.ofWord pre) b = .ok m ∧ SameFields m t n x := by
  obtain ⟨hb, hp, hx⟩ := (parsesTransfer_iff hP).mp h
  obtain ⟨y, rfl, hy⟩ := NativeTokenTransfer.exists_stands hx
  refine ⟨⟨⟨t.sourceNttManagerAddress, t.recipientNttManagerAddress, ⟨n.id, n.sender, y⟩⟩,
    t.transceiverPayload⟩, (parseTransfer_eq_ok hW).mpr ⟨n.payload, _, hy, hp, hb⟩, ?_⟩
  exact ⟨rfl, rfl, rfl, rfl, rfl, TrimmedAmount.getAmount_pack _ _,
    TrimmedAmount.getDecimals_pack _ _, rfl, rfl, rfl, rfl⟩

omit hP in
/-- What the Sui packages encode their parsers accept. -/
theorem parseTransfer_of_toBytes {b : Bytes} {m : TransceiverMessage NativeTokenTransfer}
    (h : TransceiverMessage.transferToBytes W (.ofWord pre) m = .ok b) :
    TransceiverMessage.parseTransfer W (.ofWord pre) b = .ok m := by
  simp only [TransceiverMessage.transferToBytes, TransceiverMessage.map,
    TransceiverMessageData.map, NttManagerMessage.map, Except.bind_eq_ok, Except.pure_eq_ok,
    NativeTokenTransfer.toBytes_eq_ok hW] at h
  obtain ⟨_, ⟨_, ⟨_, ⟨payload, hx, rfl⟩, rfl⟩, rfl⟩, hb⟩ := h
  obtain ⟨p, hp, hb⟩ := (TransceiverMessage.parse_eq_ok hW).mp
    (TransceiverMessage.parse_of_toBytes hW hb)
  exact (parseTransfer_eq_ok hW).mpr ⟨payload, p, hx, hp, hb⟩

/-- **The two sides agree on the wire format.** On every byte string either both accept it, with
the same fields, or both reject it; and each accepts what the other encodes, with the same
fields. -/
theorem wire_agreement (pre : BitVec 32) :
    (∀ b, (∃ m t n x, TransceiverMessage.parseTransfer W (.ofWord pre) b = .ok m ∧
        ParsesTransfer P pre b t n x ∧ SameFields m t n x) ∨
      (∀ m, TransceiverMessage.parseTransfer W (.ofWord pre) b ≠ .ok m) ∧
        ∀ t n x, ¬ ParsesTransfer P pre b t n x) ∧
    (∀ m b, TransceiverMessage.transferToBytes W (.ofWord pre) m = .ok b →
      ∃ t n x, ParsesTransfer P pre b t n x ∧ SameFields m t n x) ∧
    ∀ t n x b, encodeNativeTokenTransfer x = .ok n.payload →
      encodeNttManagerMessage n = .ok t.nttManagerPayload →
      encodeTransceiverMessage pre t = .ok b →
      ∃ m, TransceiverMessage.parseTransfer W (.ofWord pre) b = .ok m ∧ SameFields m t n x := by
  refine ⟨fun b => ?_, fun m b h => ?_, fun t n x b hx hn ht => ?_⟩
  · by_cases h : ∃ m, TransceiverMessage.parseTransfer W (.ofWord pre) b = .ok m
    · obtain ⟨m, hm⟩ := h
      obtain ⟨t, n, x, hp, hsame⟩ := parsesTransfer_of_parseTransfer hW hP hm
      exact .inl ⟨m, t, n, x, hm, hp, hsame⟩
    · refine .inr ⟨fun m hm => h ⟨m, hm⟩, fun t n x hp => ?_⟩
      obtain ⟨m, hm, -⟩ := parseTransfer_of_parsesTransfer hW hP hp
      exact h ⟨m, hm⟩
  · exact parsesTransfer_of_parseTransfer hW hP (parseTransfer_of_toBytes hW h)
  · exact parseTransfer_of_parsesTransfer hW hP
      ((parsesTransfer_iff hP).mpr ⟨ht, hn, encodesTransfer_iff.mpr (.inl hx)⟩)

omit hW hP in
/-- A transfer with an empty additional payload, through the Wormhole transceiver. -/
def sampleMessage : TransceiverMessage NativeTokenTransfer :=
  ⟨⟨1, 2, ⟨3, 4, ⟨⟨5, 8⟩, 6, 7, 1, some []⟩⟩⟩, []⟩

omit hW hP in
/-- Its encoding is accepted by the contracts, which read the same off it. -/
theorem sample_wire_agreement : ∃ b,
    TransceiverMessage.transferToBytes .reference (.ofWord 0x9945FF10) sampleMessage = .ok b ∧
      b.length = 219 ∧ ∃ t n x, ParsesTransfer .reference 0x9945FF10 b t n x ∧
        SameFields sampleMessage t n x := by
  obtain ⟨b, hb, hlen⟩ : ∃ b,
      TransceiverMessage.transferToBytes .reference (.ofWord 0x9945FF10) sampleMessage = .ok b ∧
        b.length = 219 := ⟨_, rfl, by decide +kernel⟩
  exact ⟨b, hb, hlen, (wire_agreement Wormhole.reference_lawful
    BytesParsing.reference_advancing 0x9945FF10).2.1 _ _ hb⟩

end Ntt.Sui
