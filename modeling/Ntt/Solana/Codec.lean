import Ntt.Solana.Messages

/-!
# The Codec of the Solana Program

What the readers of the Solana program take off a byte string, and how this compares with the
parsers of the contracts.
-/

namespace Ntt.Solana

open BigEndian Wire

/-- A length fits 16 bits or the writer panics. -/
theorem u16TryFrom_eq_ok {n : ℕ} {x : UInt16} : u16TryFrom n = .ok x ↔ x.toNat = n := by
  have hx := x.toNat_lt
  rw [u16TryFrom]
  split
  · rw [Except.ok.injEq, UInt16.ofNat_eq_iff_mod_eq_toNat, Nat.mod_eq_of_lt (by omega), eq_comm]
  · refine iff_of_false (fun hok => by cases hok) ?_
    omega

/-- The amount as the contracts pack it. -/
def TrimmedAmount.toEvm (m : TrimmedAmount) : Ntt.TrimmedAmount :=
  packTrimmedAmount m.amount m.decimals

/-- The transfer as a message of the contracts. -/
def NativeTokenTransfer.toEvm (m : NativeTokenTransfer EmptyPayload) : Ntt.NativeTokenTransfer :=
  ⟨m.amount.toEvm, m.sourceToken, m.recipient, m.toChain.id, []⟩

/-- The message of a transfer as a message of the contracts. -/
def NttManagerMessage.toEvm (m : NttManagerMessage (NativeTokenTransfer EmptyPayload)) :
    Ntt.NttManagerMessage :=
  ⟨m.id, m.sender, transferFields m.payload.toEvm⟩

/-- The contracts encode a transfer without additional payload as its fields. -/
theorem NativeTokenTransfer.encode_toEvm (m : NativeTokenTransfer EmptyPayload) :
    encodeNativeTokenTransfer m.toEvm = .ok (transferFields m.toEvm) := rfl

theorem NttManagerMessage.encode_toEvm (m : NttManagerMessage (NativeTokenTransfer EmptyPayload)) :
    encodeNttManagerMessage m.toEvm = .ok (packBytes32 m.id ++ packBytes32 m.sender ++
      packUint16 79 ++ transferFields m.payload.toEvm) := by
  have hlen : checkPayloadLength (transferFields m.payload.toEvm) = .ok 79 :=
    checkPayloadLength_eq_ok.mpr (length_transferFields _).symm
  rw [encodeNttManagerMessage, toEvm, hlen]
  rfl

section

variable {W : WormholeIo} (hW : W.Lawful)
include hW

theorem TrimmedAmount.takes :
    TakesField (TrimmedAmount.read W) fun m => packUint8 m.decimals ++ packUint64 m.amount := by
  intro b m rest
  simp only [TrimmedAmount.read, run_bind_eq_ok, run_pure_eq_ok, hW.u8.takes _ _ _,
    hW.u64.takes _ _ _]
  constructor
  · rintro ⟨decimals, _, rfl, amount, _, rfl, rfl, rfl⟩
    exact (List.append_assoc _ _ _).symm
  · rintro rfl
    exact ⟨m.decimals, _, List.append_assoc _ _ _, m.amount, rest, rfl, rfl, rfl⟩

theorem ChainId.takes : TakesField (ChainId.read W) fun m => packUint16 m.id := by
  intro b m rest
  simp only [ChainId.read, run_bind_eq_ok, run_pure_eq_ok, hW.u16.takes _ _ _]
  constructor
  · rintro ⟨id, _, rfl, rfl, rfl⟩
    rfl
  · rintro rfl
    exact ⟨m.id, rest, rfl, rfl, rfl⟩

/-- The reader of transfers takes exactly the fields that the contracts pack. -/
theorem NativeTokenTransfer.takes :
    TakesField (NativeTokenTransfer.read W EmptyPayload.impl) fun m => transferFields m.toEvm := by
  intro b m rest
  have hfields : transferFields m.toEvm ++ rest = packBytes4 PREFIX ++
      ((packUint8 m.amount.decimals ++ packUint64 m.amount.amount) ++ (packBytes32 m.sourceToken ++
        (packBytes32 m.recipient ++ (packUint16 m.toChain.id ++ rest)))) := by
    simp only [transferFields, toEvm, TrimmedAmount.toEvm, TrimmedAmount.getAmount_pack,
      TrimmedAmount.getDecimals_pack, List.append_assoc]
    rfl
  rw [hfields]
  simp only [NativeTokenTransfer.read, run_bind_eq_ok, run_pure_eq_ok, run_throwUnless_eq_ok,
    hW.bytes4.takes _ _ _, hW.bytes32.takes _ _ _, TrimmedAmount.takes hW _ _ _,
    ChainId.takes hW _ _ _, EmptyPayload.impl, ne_eq, not_true_eq_false, if_false,
    hW.readPayload]
  constructor
  · rintro ⟨_, _, h₀, _, _, ⟨h₁, h₂⟩, amount, _, h₃, token, _, h₄, recipient, _, h₅, chain, _, h₆,
      _, _, ⟨-, h₇⟩, h₈, h₉⟩
    rw [h₀, h₁, h₂, h₃, h₄, h₅, h₆, h₇, h₉, ← h₈]
  · intro h
    exact ⟨_, _, h, (), _, ⟨rfl, rfl⟩, m.amount, _, rfl, m.sourceToken, _, rfl, m.recipient, _,
      rfl, m.toChain, _, rfl, {}, rest, ⟨trivial, rfl⟩, rfl, rfl⟩

/-! ### Round trips -/

/-- What fits is written, in `writtenSize` bytes, and what was written is read back. -/
structure RoundTrips {α : Type} (A : TypePrefixedPayload α) (fits : α → Prop) : Prop where
  TYPE : A.TYPE = none
  writes : ∀ m, fits m → ∃ b, A.write m = .ok b
  size : ∀ m b, A.write m = .ok b → b.length = A.writtenSize m
  reads : ∀ m b, A.write m = .ok b → ∀ rest, A.read.run (b ++ rest) = .ok (m, rest)

theorem NativeTokenTransfer.write_eq (m : NativeTokenTransfer EmptyPayload) :
    NativeTokenTransfer.write W EmptyPayload.impl m = .ok (transferFields m.toEvm) := by
  simp only [write, EmptyPayload.impl, ne_eq, not_true_eq_false, if_false, transferFields, toEvm,
    TrimmedAmount.toEvm, TrimmedAmount.getAmount_pack, TrimmedAmount.getDecimals_pack,
    TrimmedAmount.write, ChainId.write, hW.u8.write, hW.u16.write, hW.u64.write, hW.bytes4.write,
    hW.bytes32.write, List.append_assoc]
  rfl

theorem NativeTokenTransfer.writtenSize_eq (m : NativeTokenTransfer EmptyPayload) :
    NativeTokenTransfer.writtenSize W EmptyPayload.impl m = 79 := by
  simp [writtenSize, EmptyPayload.impl, TrimmedAmount.SIZE, ChainId.SIZE, hW.u16.size]

/-- Transfers without an additional payload. -/
theorem NativeTokenTransfer.roundTrips :
    RoundTrips (NativeTokenTransfer.impl W EmptyPayload.impl) fun _ => True where
  TYPE := rfl
  writes m _ := ⟨_, NativeTokenTransfer.write_eq hW m⟩
  size m b h := by
    obtain rfl := Except.ok.inj ((NativeTokenTransfer.write_eq hW m).symm.trans h)
    rw [length_transferFields]
    exact (NativeTokenTransfer.writtenSize_eq hW m).symm
  reads m b h rest := by
    obtain rfl := Except.ok.inj ((NativeTokenTransfer.write_eq hW m).symm.trans h)
    exact (NativeTokenTransfer.takes hW _ _ _).mpr rfl

variable {α : Type} {A : TypePrefixedPayload α}

theorem NttManagerMessage.write_eq_ok (hA : A.TYPE = none) {m : NttManagerMessage α} {b : Bytes} :
    NttManagerMessage.write W A m = .ok b ↔
      ∃ n : UInt16, n.toNat = A.writtenSize m.payload ∧ ∃ p, A.write m.payload = .ok p ∧
        packBytes32 m.id ++ packBytes32 m.sender ++ packUint16 n ++ p = b := by
  simp only [write, Except.bind_eq_ok, Except.pure_eq_ok, u16TryFrom_eq_ok, hA, hW.writePayload,
    hW.bytes32.write, hW.u16.write]

/-- Manager messages around any payload that is read back. -/
theorem NttManagerMessage.roundTrips {fits : α → Prop} (hA : RoundTrips A fits) :
    RoundTrips (NttManagerMessage.impl W A)
      fun m => fits m.payload ∧ A.writtenSize m.payload ≤ 65535 where
  TYPE := rfl
  writes m h := by
    obtain ⟨p, hp⟩ := hA.writes m.payload h.1
    have hn : (UInt16.ofNat (A.writtenSize m.payload)).toNat = A.writtenSize m.payload := by
      rw [UInt16.toNat_ofNat', Nat.mod_eq_of_lt (by omega)]
    exact ⟨_, (NttManagerMessage.write_eq_ok hW hA.TYPE).mpr ⟨_, hn, p, hp, rfl⟩⟩
  size m b h := by
    obtain ⟨n, -, p, hp, rfl⟩ := (NttManagerMessage.write_eq_ok hW hA.TYPE).mp h
    simp only [List.length_append, packBytes32, packUint16, length_beBytes, hA.size _ _ hp]
    change _ = NttManagerMessage.writtenSize W A m
    rw [NttManagerMessage.writtenSize, hW.u16.size]
  reads m b h rest := by
    obtain ⟨n, -, p, hp, rfl⟩ := (NttManagerMessage.write_eq_ok hW hA.TYPE).mp h
    simp only [impl, read, run_bind_eq_ok, run_pure_eq_ok, hW.bytes32.takes _ _ _,
      hW.u16.takes _ _ _, hA.TYPE, hW.readPayload, List.append_assoc]
    exact ⟨m.id, _, rfl, m.sender, _, rfl, n, _, rfl, m.payload, _, hA.reads _ _ hp rest, rfl, rfl⟩

/-- A message of a transfer is written as the contracts encode it. -/
theorem NttManagerMessage.write_transfer (m : NttManagerMessage (NativeTokenTransfer EmptyPayload)) :
    NttManagerMessage.write W (NativeTokenTransfer.impl W EmptyPayload.impl) m =
      .ok (packBytes32 m.id ++ packBytes32 m.sender ++ packUint16 79 ++
        transferFields m.payload.toEvm) := by
  rw [NttManagerMessage.write_eq_ok hW rfl]
  exact ⟨79, (NativeTokenTransfer.writtenSize_eq hW _).symm, _, NativeTokenTransfer.write_eq hW _,
    rfl⟩

/-- Distinct pairs of a chain and a message have distinct bytes under the hash. -/
theorem NttManagerMessage.keccak256Bytes_inj
    {m m' : NttManagerMessage (NativeTokenTransfer EmptyPayload)} {chain chain' : ChainId}
    {b : Bytes}
    (h : m.keccak256Bytes W (NativeTokenTransfer.impl W EmptyPayload.impl) chain = .ok b)
    (h' : m'.keccak256Bytes W (NativeTokenTransfer.impl W EmptyPayload.impl) chain' = .ok b) :
    chain = chain' ∧ m = m' := by
  simp only [keccak256Bytes, hW.writePayload, Except.bind_eq_ok, Except.pure_eq_ok] at h h'
  obtain ⟨w, hw, rfl⟩ := h
  obtain ⟨w', hw', heq⟩ := h'
  obtain ⟨hchain, rfl⟩ := List.append_inj heq (by rw [length_beBytes, length_beBytes])
  have hread := (NttManagerMessage.roundTrips hW (NativeTokenTransfer.roundTrips hW)).reads
  obtain ⟨hm, -⟩ := Prod.mk.inj (Except.ok.inj ((hread m _ hw []).symm.trans (hread m' _ hw' [])))
  have hid := UInt16.toNat_inj.mp (beBytes_inj chain.id.toNat_lt chain'.id.toNat_lt hchain.symm)
  exact ⟨congrArg ChainId.mk hid, hm⟩

theorem NttManagerMessage.writtenSize_transfer
    (m : NttManagerMessage (NativeTokenTransfer EmptyPayload)) :
    NttManagerMessage.writtenSize W (NativeTokenTransfer.impl W EmptyPayload.impl) m = 145 := by
  rw [writtenSize, hW.u16.size]
  exact congrArg _ (NativeTokenTransfer.writtenSize_eq hW _)

theorem TransceiverMessage.write_eq_ok {pre : BitVec 32} {m : TransceiverMessage α} {b : Bytes} :
    TransceiverMessage.write W A pre m = .ok b ↔
      ∃ n : UInt16, n.toNat = m.messageData.nttManagerPayload.writtenSize W A ∧
        ∃ p, m.messageData.nttManagerPayload.write W A = .ok p ∧
          ∃ k : UInt16, k.toNat = m.transceiverPayload.length ∧
            packBytes4 pre ++ packBytes32 m.messageData.sourceNttManager ++
              packBytes32 m.messageData.recipientNttManager ++ packUint16 n ++ p ++ packUint16 k ++
                m.transceiverPayload = b := by
  simp only [write, Except.bind_eq_ok, Except.pure_eq_ok, u16TryFrom_eq_ok, hW.bytes4.write,
    hW.bytes32.write, hW.u16.write]

/-- Transceiver messages, under any prefix. -/
theorem TransceiverMessage.roundTrips {fits : α → Prop} (hA : RoundTrips A fits) (pre : BitVec 32) :
    RoundTrips (TransceiverMessage.impl W A pre) fun m =>
      fits m.messageData.nttManagerPayload.payload ∧
        A.writtenSize m.messageData.nttManagerPayload.payload ≤ 65535 ∧
          m.messageData.nttManagerPayload.writtenSize W A ≤ 65535 ∧
            m.transceiverPayload.length ≤ 65535 where
  TYPE := rfl
  writes m h := by
    obtain ⟨hfits, hpayload, hmanager, htransceiver⟩ := h
    obtain ⟨p, hp⟩ := (NttManagerMessage.roundTrips hW hA).writes _ ⟨hfits, hpayload⟩
    have hn : (UInt16.ofNat (m.messageData.nttManagerPayload.writtenSize W A)).toNat =
        m.messageData.nttManagerPayload.writtenSize W A := by
      rw [UInt16.toNat_ofNat', Nat.mod_eq_of_lt (by omega)]
    have hk : (UInt16.ofNat m.transceiverPayload.length).toNat = m.transceiverPayload.length := by
      rw [UInt16.toNat_ofNat', Nat.mod_eq_of_lt (by omega)]
    exact ⟨_, (TransceiverMessage.write_eq_ok hW).mpr ⟨_, hn, p, hp, _, hk, rfl⟩⟩
  size m b h := by
    obtain ⟨n, -, p, hp, k, -, rfl⟩ := (TransceiverMessage.write_eq_ok hW).mp h
    have hlen := (NttManagerMessage.roundTrips hW hA).size _ _ hp
    simp only [List.length_append, packBytes4, packBytes32, packUint16, length_beBytes, hlen]
    change _ = TransceiverMessage.writtenSize W A m
    rw [TransceiverMessage.writtenSize, hW.u16.size]
    rfl
  reads m b h rest := by
    obtain ⟨n, -, p, hp, k, hk, rfl⟩ := (TransceiverMessage.write_eq_ok hW).mp h
    simp only [impl, read, readExact, run_bind_eq_ok, run_pure_eq_ok, run_throwUnless_eq_ok,
      run_exactly_eq_ok, hW.bytes4.takes _ _ _, hW.bytes32.takes _ _ _, hW.u16.takes _ _ _,
      List.append_assoc]
    exact ⟨_, _, rfl, (), _, ⟨rfl, rfl⟩, _, _, rfl, _, _, rfl, n, _, rfl, _, _,
      (NttManagerMessage.roundTrips hW hA).reads _ _ hp _, k, _, rfl, _, _, ⟨hk.symm, rfl⟩, rfl,
      rfl⟩

end

/-! ### What is accepted -/

namespace TransceiverMessage

/-- The message with these three length prefixes. -/
def layout (pre : BitVec 32) (m : TransceiverMessage (NativeTokenTransfer EmptyPayload))
    (n n' k : UInt16) : Bytes :=
  packBytes4 pre ++ packBytes32 m.messageData.sourceNttManager ++
    packBytes32 m.messageData.recipientNttManager ++ packUint16 n ++
      (packBytes32 m.messageData.nttManagerPayload.id ++
        packBytes32 m.messageData.nttManagerPayload.sender ++ packUint16 n' ++
          transferFields m.messageData.nttManagerPayload.payload.toEvm) ++
      packUint16 k ++ m.transceiverPayload

variable {pre : BitVec 32} {m : TransceiverMessage (NativeTokenTransfer EmptyPayload)}

variable (pre m) in
/-- The three length prefixes stand at fixed offsets. -/
theorem numberAt_layout (n n' k : UInt16) :
    numberAt (layout pre m n n' k) 68 2 = n.toNat ∧
      numberAt (layout pre m n n' k) 134 2 = n'.toNat ∧
        numberAt (layout pre m n n' k) 215 2 = k.toNat := by
  have h0 := StandsAt.self (layout pre m n n' k)
  nth_rewrite 2 [layout] at h0
  have hn := StandsAt.number h0.left.left.left.right n.toNat_lt
  have hn' := StandsAt.number h0.left.left.right.left.right n'.toNat_lt
  have hk := StandsAt.number h0.left.right k.toNat_lt
  simp only [packBytes4, packBytes32, packUint16, List.length_append, length_beBytes,
    length_transferFields, Nat.zero_add, Nat.reduceAdd] at hn hn' hk
  exact ⟨hn, hn', hk⟩

theorem length_layout {n n' k : UInt16} :
    (layout pre m n n' k).length = 217 + m.transceiverPayload.length := by
  simp only [layout, packBytes4, packBytes32, packUint16, List.length_append, length_beBytes,
    length_transferFields]

section

variable {W : WormholeIo} (hW : W.Lawful)
include hW

/-- The reader takes the message with any two length prefixes inside. -/
theorem takes (pre : BitVec 32) :
    Takes (TransceiverMessage.read W (NativeTokenTransfer.impl W EmptyPayload.impl) pre) fun m p =>
      ∃ n n' k : UInt16, k.toNat = m.transceiverPayload.length ∧ p = layout pre m n n' k := by
  intro b m rest
  simp only [read, NttManagerMessage.read, readExact, run_bind_eq_ok, run_pure_eq_ok,
    run_throwUnless_eq_ok, run_exactly_eq_ok, hW.bytes4.takes _ _ _, hW.bytes32.takes _ _ _,
    hW.u16.takes _ _ _, NativeTokenTransfer.impl, hW.readPayload,
    NativeTokenTransfer.takes hW _ _ _]
  constructor
  · rintro ⟨_, _, h₀, _, _, ⟨h₁, h₂⟩, source, _, h₃, recipient, _, h₄, n, _, h₅, _, _,
      ⟨id, _, h₆, sender, _, h₇, n', _, h₈, payload, _, h₉, h₁₀, h₁₁⟩, k, _, h₁₂, _, _,
      ⟨h₁₃, h₁₄⟩, h₁₅, h₁₆⟩
    refine ⟨_, ⟨n, n', k, ?_, rfl⟩, ?_⟩
    · rw [← h₁₅, h₁₃]
    · rw [← h₁₅, h₀, h₁, h₂, h₃, h₄, h₅, h₆, h₇, h₈, h₉, ← h₁₀, h₁₁, h₁₂, h₁₄, h₁₆]
      simp only [layout, List.append_assoc]
  · rintro ⟨_, ⟨n, n', k, hk, rfl⟩, h⟩
    simp only [layout, List.append_assoc] at h
    exact ⟨_, _, h, (), _, ⟨rfl, rfl⟩, _, _, rfl, _, _, rfl, n, _, rfl,
      m.messageData.nttManagerPayload, _, ⟨_, _, rfl, _, _, rfl, n', _, rfl, _, _, rfl, rfl, rfl⟩,
      k, _, rfl, _, _, ⟨hk.symm, rfl⟩, rfl, rfl⟩

/-- The writer writes the message with the two lengths that are right. -/
theorem write_eq_ok_layout {b : Bytes} :
    TransceiverMessage.write W (NativeTokenTransfer.impl W EmptyPayload.impl) pre m = .ok b ↔
      ∃ k : UInt16, k.toNat = m.transceiverPayload.length ∧ b = layout pre m 145 79 k := by
  simp only [write_eq_ok hW, NttManagerMessage.write_transfer hW,
    NttManagerMessage.writtenSize_transfer hW, Except.ok.injEq]
  constructor
  · rintro ⟨n, hn, p, rfl, k, hk, rfl⟩
    obtain rfl : n = 145 := UInt16.toNat_inj.mp hn
    exact ⟨k, hk, rfl⟩
  · rintro ⟨k, hk, rfl⟩
    exact ⟨145, rfl, _, rfl, k, hk, rfl⟩

end

/-- The contracts accept the message when its two length prefixes inside are right. A longer
transfer would carry an additional payload, and its length would stand where that of the
transceiver payload stands. -/
theorem parsesTransfer_layout {P : BytesParsing} (hP : P.Advancing) {n n' k : UInt16}
    (hk : k.toNat = m.transceiverPayload.length) :
    (∃ t m' x, ParsesTransfer P pre (layout pre m n n' k) t m' x) ↔ n = 145 ∧ n' = 79 := by
  simp only [parsesTransfer_iff hP]
  constructor
  · rintro ⟨t, m', x, ht, hm', hx⟩
    simp only [encodeTransceiverMessage, encodeNttManagerMessage, Except.bind_eq_ok,
      Except.pure_eq_ok, checkPayloadLength_eq_ok] at ht hm'
    obtain ⟨N, hN, K, -, ht⟩ := ht
    obtain ⟨N', hN', hm'⟩ := hm'
    have hmlen := congrArg List.length hm'
    have hlen := congrArg List.length ht
    rw [length_layout] at hlen
    simp only [packBytes4, packBytes32, packUint16, List.length_append, length_beBytes]
      at hmlen hlen
    -- the numbers at the offsets of the prefixes, in both readings of the byte string
    obtain ⟨hn, hn', hk'⟩ := numberAt_layout pre m n n' k
    have h0 := StandsAt.self (layout pre m n n' k)
    nth_rewrite 2 [← ht] at h0
    rw [← hm'] at h0
    have hNat := StandsAt.number h0.left.left.left.right N.toNat_lt
    have hmanager := h0.left.left.right
    have hN'at := StandsAt.number hmanager.left.right N'.toNat_lt
    simp only [packBytes4, packBytes32, packUint16, List.length_append, length_beBytes,
      Nat.zero_add, Nat.reduceAdd] at hNat hN'at
    obtain rfl : n = N := UInt16.toNat_inj.mp (hn.symm.trans hNat)
    obtain rfl : n' = N' := UInt16.toNat_inj.mp (hn'.symm.trans hN'at)
    rcases hx with ⟨hx, -⟩ | ⟨a, ha, hx⟩
    · rw [hx, length_transferFields] at hN' hmlen
      refine ⟨UInt16.toNat_inj.mp ?_, UInt16.toNat_inj.mp hN'⟩
      rw [hN, ← hmlen]
      rfl
    · rw [hx] at hmanager
      have haat := StandsAt.number hmanager.right.right.left a.toNat_lt
      simp only [packBytes4, packBytes32, packUint16, List.length_append, length_beBytes,
        length_transferFields, Nat.zero_add, Nat.reduceAdd] at haat
      have hxlen := congrArg List.length hx
      simp only [List.length_append, length_transferFields, packUint16, length_beBytes] at hxlen
      have hka : k.toNat = a.toNat := hk'.symm.trans haat
      omega
  · rintro ⟨rfl, rfl⟩
    let manager := m.messageData.nttManagerPayload
    refine ⟨⟨m.messageData.sourceNttManager, m.messageData.recipientNttManager,
      packBytes32 manager.id ++ packBytes32 manager.sender ++ packUint16 79 ++
        transferFields manager.payload.toEvm, m.transceiverPayload⟩, manager.toEvm,
      manager.payload.toEvm, ?_, manager.encode_toEvm, .inl ⟨rfl, rfl⟩⟩
    rw [encodeTransceiverMessage, checkPayloadLength_eq_ok.mpr hk,
      checkPayloadLength_eq_ok (n := 145) |>.mpr ?_]
    · rfl
    · simp [packBytes32, packUint16]

/-- What is right about the two length prefixes inside a message of a transfer: they stand at
fixed offsets, and count the 145 bytes of the manager's message and the 79 bytes of the
transfer. -/
def RightLengths (b : Bytes) : Prop := numberAt b 68 2 = 145 ∧ numberAt b 134 2 = 79

instance (b : Bytes) : Decidable (RightLengths b) := inferInstanceAs (Decidable (_ ∧ _))

theorem rightLengths_layout {n n' k : UInt16} :
    RightLengths (layout pre m n n' k) ↔ n = 145 ∧ n' = 79 := by
  obtain ⟨hn, hn', -⟩ := numberAt_layout pre m n n' k
  rw [RightLengths, hn, hn']
  exact and_congr (UInt16.toNat_inj (b := 145)) (UInt16.toNat_inj (b := 79))

/-! ### The codec -/

/-- **What was written is read back, but the two length prefixes inside are not checked.** For
what the reader accepts completely, both that it is written as it was found and that the contracts
accept it hold exactly when these two prefixes are right. -/
theorem codec_exact {W : WormholeIo} (hW : W.Lawful) {P : BytesParsing} (hP : P.Advancing)
    (pre : BitVec 32) :
    RoundTrips (NativeTokenTransfer.impl W EmptyPayload.impl) (fun _ => True) ∧
    (∀ {α : Type} {A : TypePrefixedPayload α} {fits : α → Prop}, RoundTrips A fits →
      RoundTrips (NttManagerMessage.impl W A)
          (fun m => fits m.payload ∧ A.writtenSize m.payload ≤ 65535) ∧
        RoundTrips (TransceiverMessage.impl W A pre) fun m =>
          fits m.messageData.nttManagerPayload.payload ∧
            A.writtenSize m.messageData.nttManagerPayload.payload ≤ 65535 ∧
              m.messageData.nttManagerPayload.writtenSize W A ≤ 65535 ∧
                m.transceiverPayload.length ≤ 65535) ∧
    ∀ b m, (read W (NativeTokenTransfer.impl W EmptyPayload.impl) pre).run b = .ok (m, []) →
      (write W (NativeTokenTransfer.impl W EmptyPayload.impl) pre m = .ok b ↔ RightLengths b) ∧
        ((∃ t m' x, ParsesTransfer P pre b t m' x) ↔ RightLengths b) := by
  refine ⟨NativeTokenTransfer.roundTrips hW, fun hA =>
    ⟨NttManagerMessage.roundTrips hW hA, TransceiverMessage.roundTrips hW hA pre⟩, ?_⟩
  intro b m hread
  obtain ⟨_, ⟨n, n', k, hk, rfl⟩, hb⟩ := (takes hW pre).sound hread
  rw [List.append_nil] at hb
  subst hb
  rw [rightLengths_layout, parsesTransfer_layout hP hk, write_eq_ok_layout hW]
  refine ⟨⟨?_, ?_⟩, Iff.rfl⟩
  · rintro ⟨k', -, h⟩
    rw [← rightLengths_layout (k := k), h, rightLengths_layout]
    exact ⟨rfl, rfl⟩
  · rintro ⟨rfl, rfl⟩
    exact ⟨k, hk, rfl⟩

/-- A message of a transfer without additional payload. -/
def sample : TransceiverMessage (NativeTokenTransfer EmptyPayload) :=
  ⟨⟨1, 2, ⟨3, 4, ⟨⟨5, 8⟩, 6, ⟨1⟩, 7, {}⟩⟩⟩, []⟩

/-- Its encoding is accepted, written back and accepted by the contracts. -/
theorem codec_exact_sample :
    write .reference (NativeTokenTransfer.impl .reference EmptyPayload.impl)
        WormholeTransceiver.PREFIX sample = .ok (layout WormholeTransceiver.PREFIX sample 145 79 0) ∧
      ∃ t m x, ParsesTransfer .reference WormholeTransceiver.PREFIX
        (layout WormholeTransceiver.PREFIX sample 145 79 0) t m x := by
  have hread := (takes WormholeIo.reference_lawful WormholeTransceiver.PREFIX).run_append
    (a := sample) ⟨145, 79, 0, rfl, rfl⟩ []
  rw [List.append_nil] at hread
  obtain ⟨hwrite, haccept⟩ := (codec_exact WormholeIo.reference_lawful
    BytesParsing.reference_advancing WormholeTransceiver.PREFIX).2.2 _ _ hread
  exact ⟨hwrite.mpr (rightLengths_layout.mpr ⟨rfl, rfl⟩),
    haccept.mpr (rightLengths_layout.mpr ⟨rfl, rfl⟩)⟩

/-- With zeros for the two length prefixes it is accepted all the same, but not what is written
back, and the contracts reject it. -/
theorem zero_lengths_accepted :
    (read .reference (NativeTokenTransfer.impl .reference EmptyPayload.impl)
        WormholeTransceiver.PREFIX).run (layout WormholeTransceiver.PREFIX sample 0 0 0) =
          .ok (sample, []) ∧
      write .reference (NativeTokenTransfer.impl .reference EmptyPayload.impl)
          WormholeTransceiver.PREFIX sample ≠
        .ok (layout WormholeTransceiver.PREFIX sample 0 0 0) ∧
      ¬ ∃ t m x, ParsesTransfer .reference WormholeTransceiver.PREFIX
        (layout WormholeTransceiver.PREFIX sample 0 0 0) t m x := by
  have hread := (takes WormholeIo.reference_lawful WormholeTransceiver.PREFIX).run_append
    (a := sample) ⟨0, 0, 0, rfl, rfl⟩ []
  rw [List.append_nil] at hread
  refine ⟨hread, fun h => ?_, fun h => ?_⟩
  · obtain ⟨k, -, h⟩ := (write_eq_ok_layout WormholeIo.reference_lawful).mp h
    have hn := (numberAt_layout WormholeTransceiver.PREFIX sample 0 0 0).1
    rw [h, (numberAt_layout WormholeTransceiver.PREFIX sample 145 79 k).1] at hn
    exact absurd hn (by decide)
  · have h := (parsesTransfer_layout BytesParsing.reference_advancing rfl).mp h
    exact absurd h.1 (by decide)

end TransceiverMessage

end Ntt.Solana
