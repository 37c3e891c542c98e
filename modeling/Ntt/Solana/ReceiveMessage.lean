import Ntt.Solana.Codec
import Ntt.Solana.Program

/-!
# Raw Accessors and the Structured Parse

The transceiver program receives a message as the body of a VAA. Its checks, and the address of the
account that it creates, are computed from bytes at fixed offsets of the body; what it stores is the
message as its reader parses it. The manager program does the same once more: it checks the bytes
at fixed offsets of that account, and executes the message that the framework deserializes.

An account holds a discriminator and then the message, serialized by Borsh: the fields one after
the other, integers little-endian and without length prefixes. What is not part of the repository is
the parameter `AnchorIo`: reading from a slice, the implementation of Borsh for integers and byte
arrays, and the discriminator.

## Main results

* `VaaBodyBytes.accessors`: the raw accessors of a body give the fields of its structured parse.
* `ValidatedTransceiverMessage.accessors`: the same for the accessors of an account.
* `accessors_agree`: both, for the message that `receive_message` stores and the manager finds.
-/

namespace Ntt.Solana

open BigEndian Wire

/-! ### The libraries -/

/-- `read_slice`, Borsh, and the discriminator of the account. -/
structure AnchorIo where
  io : WormholeIo
  readSlice : ∀ {α : Type}, Reader IoError α → Bytes → Except IoError α
  u8 : Primitive UInt8
  u16 : Primitive UInt16
  u64 : Primitive UInt64
  bytes32 : Primitive Bytes32
  DISCRIMINATOR : Bytes

/-- `to_le_bytes`. -/
def packUint16Le (x : UInt16) : Bytes := (packUint16 x).reverse

def packUint64Le (x : UInt64) : Bytes := (packUint64 x).reverse

/-- What the programs rely on: a value that is read from a slice stands at its front, and integers
are little-endian in accounts. -/
structure AnchorIo.Lawful (B : AnchorIo) : Prop where
  io : B.io.Lawful
  readSlice : ∀ {α : Type} {r : Reader IoError α} {b : Bytes} {a : α},
    B.readSlice r b = .ok a → ∃ rest, r.run b = .ok (a, rest)
  u8 : B.u8.Lawful 1 packUint8
  u16 : B.u16.Lawful 2 packUint16Le
  u64 : B.u64.Lawful 8 packUint64Le
  bytes32 : B.bytes32.Lawful 32 packBytes32
  discriminator : B.DISCRIMINATOR.length = 8

/-- The libraries, with the discriminator of the account type. -/
def AnchorIo.reference : AnchorIo where
  io := .reference
  readSlice r b := do return (← r.run b).1
  u8 := WormholeIo.reference.u8
  u16 := ⟨2, .littleEndian 2 UInt16.ofNat .unexpectedEof, packUint16Le⟩
  u64 := ⟨8, .littleEndian 8 UInt64.ofNat .unexpectedEof, packUint64Le⟩
  bytes32 := WormholeIo.reference.bytes32
  DISCRIMINATOR := [0x61, 0x00, 0x70, 0x7D, 0x6B, 0xDC, 0x25, 0xB5]

theorem AnchorIo.reference_lawful : reference.Lawful where
  io := WormholeIo.reference_lawful
  readSlice h := by
    simp only [reference, Except.bind_eq_ok, Except.pure_eq_ok] at h
    obtain ⟨⟨_, rest⟩, hrun, rfl⟩ := h
    exact ⟨rest, hrun⟩
  u8 := WormholeIo.reference_lawful.u8
  u16 := ⟨rfl, rfl, takesField_littleEndian UInt16.toNat_lt (fun _ => UInt16.ofNat_toNat)
    fun _ h => UInt16.toNat_ofNat_of_lt h⟩
  u64 := ⟨rfl, rfl, takesField_littleEndian UInt64.toNat_lt (fun _ => UInt64.ofNat_toNat)
    fun _ h => UInt64.toNat_ofNat_of_lt h⟩
  bytes32 := WormholeIo.reference_lawful.bytes32
  discriminator := rfl

/-! ### Slices -/

/-- `b[start..stop]`. -/
def slice (b : Bytes) (start stop : ℕ) : Except IoError Bytes :=
  if start ≤ stop ∧ stop ≤ b.length then .ok ((b.drop start).take (stop - start))
  else .error (.panicked "range end index out of range for slice")

/-- `b[start..]`. -/
def sliceFrom (b : Bytes) (start : ℕ) : Except IoError Bytes := slice b start b.length

def u16FromBe (b : Bytes) : UInt16 := UInt16.ofNat (beNat b)

def u16FromLe (b : Bytes) : UInt16 := UInt16.ofNat (beNat b.reverse)

/-- `try_into().unwrap()` for 32 bytes. -/
def toBytes32 (b : Bytes) : Bytes32 := BitVec.ofNat 256 (beNat b)

/-! ### Bodies -/

structure VaaBodyBytes where
  span : Bytes

/-- The fields of a body in front of its payload. -/
structure VaaHeader where
  timestamp : BitVec 32
  nonce : BitVec 32
  emitterChain : UInt16
  emitterAddress : Bytes32
  sequence : UInt64
  consistencyLevel : UInt8
deriving DecidableEq

/-- The structured parse of a body in front of its payload. -/
def VaaHeader.read (W : WormholeIo) : Reader IoError VaaHeader := do
  let timestamp ← W.bytes4.read
  let nonce ← W.bytes4.read
  let emitterChain ← W.u16.read
  let emitterAddress ← W.bytes32.read
  let sequence ← W.u64.read
  let consistencyLevel ← W.u8.read
  return { timestamp, nonce, emitterChain, emitterAddress, sequence, consistencyLevel }

/-- The message data of a transfer. -/
abbrev TransferData : Type := TransceiverMessageData (NativeTokenTransfer EmptyPayload)

namespace VaaBodyBytes

variable (self : VaaBodyBytes)

def emitterChain : Except IoError UInt16 := do return u16FromBe (← slice self.span 8 10)

def emitterAddress : Except IoError Bytes32 := do return toBytes32 (← slice self.span 10 42)

def id : Except IoError Bytes32 := do return toBytes32 (← slice self.span 121 153)

def toChain : Except IoError ChainId := do return ⟨u16FromBe (← slice self.span 264 266)⟩

def messageData : Except IoError Bytes := sliceFrom self.span 51

/-- Reads the message with the payload of a transfer. -/
def transceiverMessageData (B : AnchorIo) : Except IoError TransferData := do
  let transceiverMessage ← B.readSlice (TransceiverMessage.read B.io
    (NativeTokenTransfer.impl B.io EmptyPayload.impl) WormholeTransceiver.PREFIX)
      (← self.messageData)
  return transceiverMessage.messageData

end VaaBodyBytes

/-! ### Accounts -/

section

variable (B : AnchorIo) {α : Type} (A : Primitive α)

/-! What `AnchorSerialize`, `AnchorDeserialize` and `InitSpace` derive for a type. -/

def EmptyPayload.borsh : Primitive EmptyPayload where
  SIZE := 0
  read := return {}
  write _ := []

def ChainId.borsh : Primitive ChainId where
  SIZE := B.u16.SIZE
  read := do
    let id ← B.u16.read
    return { id }
  write m := B.u16.write m.id

def TrimmedAmount.borsh : Primitive TrimmedAmount where
  SIZE := B.u64.SIZE + B.u8.SIZE
  read := do
    let amount ← B.u64.read
    let decimals ← B.u8.read
    return { amount, decimals }
  write m := B.u64.write m.amount ++ B.u8.write m.decimals

def NativeTokenTransfer.borsh : Primitive (NativeTokenTransfer α) where
  SIZE := (TrimmedAmount.borsh B).SIZE + B.bytes32.SIZE + (ChainId.borsh B).SIZE +
    B.bytes32.SIZE + A.SIZE
  read := do
    let amount ← (TrimmedAmount.borsh B).read
    let sourceToken ← B.bytes32.read
    let toChain ← (ChainId.borsh B).read
    let recipient ← B.bytes32.read
    let additionalPayload ← A.read
    return { amount, sourceToken, toChain, recipient, additionalPayload }
  write m := (TrimmedAmount.borsh B).write m.amount ++ B.bytes32.write m.sourceToken ++
    (ChainId.borsh B).write m.toChain ++ B.bytes32.write m.recipient ++
      A.write m.additionalPayload

def NttManagerMessage.borsh : Primitive (NttManagerMessage α) where
  SIZE := B.bytes32.SIZE + B.bytes32.SIZE + A.SIZE
  read := do
    let id ← B.bytes32.read
    let sender ← B.bytes32.read
    let payload ← A.read
    return { id, sender, payload }
  write m := B.bytes32.write m.id ++ B.bytes32.write m.sender ++ A.write m.payload

def TransceiverMessageData.borsh : Primitive (TransceiverMessageData α) where
  SIZE := B.bytes32.SIZE + B.bytes32.SIZE + (NttManagerMessage.borsh B A).SIZE
  read := do
    let sourceNttManager ← B.bytes32.read
    let recipientNttManager ← B.bytes32.read
    let nttManagerPayload ← (NttManagerMessage.borsh B A).read
    return { sourceNttManager, recipientNttManager, nttManagerPayload }
  write m := B.bytes32.write m.sourceNttManager ++ B.bytes32.write m.recipientNttManager ++
    (NttManagerMessage.borsh B A).write m.nttManagerPayload

/-- A transfer in an account. -/
abbrev transferBorsh : Primitive (NativeTokenTransfer EmptyPayload) :=
  NativeTokenTransfer.borsh B EmptyPayload.borsh

/-- How the checks on an account fail. -/
inductive AccountError where
  | discriminatorNotFound
  | discriminatorMismatch
  | didNotDeserialize
  | io (e : IoError)
deriving DecidableEq, Repr

/-- The bytes of a message in an account. -/
structure TransceiverMessageDataBytes where
  span : Bytes

namespace TransceiverMessageDataBytes

variable (self : TransceiverMessageDataBytes)

def parse (span : Bytes) : TransceiverMessageDataBytes := ⟨span⟩

def sourceNttManager : Except IoError Bytes32 := do return toBytes32 (← slice self.span 0 32)

def recipientNttManager : Except IoError Bytes32 := do return toBytes32 (← slice self.span 32 64)

/-- Deserializes the manager's message, and panics when that fails. -/
def nttManagerPayload : Except IoError (NttManagerMessage (NativeTokenTransfer EmptyPayload)) := do
  match (NttManagerMessage.borsh B (transferBorsh B)).read.run (← sliceFrom self.span 64) with
  | .ok (m, _) => return m
  | .error _ => throw (.panicked "called `Result::unwrap()` on an `Err` value")

end TransceiverMessageDataBytes

namespace ValidatedTransceiverMessage

def borsh : Primitive ValidatedTransceiverMessage where
  SIZE := (ChainId.borsh B).SIZE + (TransceiverMessageData.borsh B (transferBorsh B)).SIZE
  read := do
    let fromChain ← (ChainId.borsh B).read
    let message ← (TransceiverMessageData.borsh B (transferBorsh B)).read
    return { fromChain, message }
  write m := (ChainId.borsh B).write m.fromChain ++
    (TransceiverMessageData.borsh B (transferBorsh B)).write m.message

/-- The space that is allocated, with the message data nested in itself. -/
def space : ℕ :=
  8 + ((ChainId.borsh B).SIZE + (TransceiverMessageData.borsh B
    (TransceiverMessageData.borsh B (transferBorsh B))).SIZE)

/-- A new account, once `set_inner` is written to it. -/
def setInner (m : ValidatedTransceiverMessage) : Except IoError Bytes :=
  let data := B.DISCRIMINATOR ++ (borsh B).write m
  if data.length ≤ space B then .ok (data ++ List.replicate (space B - data.length) 0)
  else .error .external

def discriminatorCheck (data : Bytes) : Except AccountError Unit :=
  if data.length < B.DISCRIMINATOR.length then .error .discriminatorNotFound
  else if B.DISCRIMINATOR ≠ data.take 8 then .error .discriminatorMismatch
  else .ok ()

/-- The chain is little-endian in an account, unlike on the wire. -/
def readFromChain (data : Bytes) : Except AccountError ChainId := do
  discriminatorCheck B data
  return ⟨u16FromLe (← (slice data 8 10).mapError .io)⟩

def readMessage (data : Bytes) : Except AccountError TransceiverMessageDataBytes := do
  discriminatorCheck B data
  return .parse (← (sliceFrom data 10).mapError .io)

/-- What the framework deserializes. -/
def tryDeserialize (data : Bytes) : Except AccountError ValidatedTransceiverMessage := do
  discriminatorCheck B data
  match (borsh B).read.run (data.drop 8) with
  | .ok (m, _) => return m
  | .error _ => throw .didNotDeserialize

end ValidatedTransceiverMessage

end

/-! ### Receiving a message -/

/-- How receiving a message fails. -/
inductive ReceiveError where
  | paused
  | invalidChainId
  | invalidTransceiverPeer
  | accountNotInitialized
  | accountAlreadyInUse
  /-- The signatures are not those of the guardians. -/
  | verifyHash
  | io (e : IoError)
deriving DecidableEq, Repr

/-- A check that fails with an error. -/
def requireReceived (c : Prop) [Decidable c] (e : ReceiveError) : Except ReceiveError Unit :=
  if c then .ok () else .error e

/-- What both handlers do with a body: `receive_message_instruction_data` takes it from its
arguments, and `receive_message_account` from an account. A peer is stored under its chain, and the
message under its chain and id. Returns this key and the new account. -/
def receiveMessage (B : AnchorIo) (config : Config) (peers : UInt16 → Option Bytes32)
    (messages : UInt16 × Bytes32 → Option Bytes) (verifyHash : Bytes → Bool)
    (vaaBody : VaaBodyBytes) : Except ReceiveError ((UInt16 × Bytes32) × Bytes) := do
  requireReceived (config.paused = false) .paused
  let toChain ← vaaBody.toChain.mapError .io
  requireReceived (toChain = config.chainId) .invalidChainId
  let emitterChain ← vaaBody.emitterChain.mapError .io
  let emitterAddress ← vaaBody.emitterAddress.mapError .io
  requireReceived ((peers emitterChain).isSome) .accountNotInitialized
  requireReceived (peers emitterChain = some emitterAddress) .invalidTransceiverPeer
  let id ← vaaBody.id.mapError .io
  requireReceived (messages (emitterChain, id) = none) .accountAlreadyInUse
  requireReceived (verifyHash vaaBody.span) .verifyHash
  let message ← (vaaBody.transceiverMessageData B).mapError .io
  let account ← (ValidatedTransceiverMessage.setInner B ⟨⟨emitterChain⟩, message⟩).mapError .io
  return ((emitterChain, id), account)

theorem requireReceived_eq_ok {c : Prop} [Decidable c] {e : ReceiveError} {u : Unit} :
    requireReceived c e = .ok u ↔ c := by
  rw [requireReceived]
  by_cases h : c <;> simp [h]

/-! ### What stands at an offset -/

theorem slice_standsAt {b xs : Bytes} {o o' : ℕ} (h : StandsAt b o xs) (ho : o + xs.length = o')
    (hle : o' ≤ b.length) : slice b o o' = .ok xs := by
  subst ho
  rw [slice, if_pos ⟨Nat.le_add_right .., hle⟩, Nat.add_sub_cancel_left, h.take_eq]

theorem sliceFrom_append {b xs : Bytes} {o : ℕ} (ho : b.length = o) :
    sliceFrom (b ++ xs) o = .ok xs := by
  have hlen : (b ++ xs).length = o + xs.length := by rw [List.length_append, ho]
  rw [sliceFrom, slice, if_pos ⟨by omega, Nat.le_refl _⟩, hlen, Nat.add_sub_cancel_left, ← ho,
    List.drop_left, List.take_length]

theorem slice_uint16 {b : Bytes} {o : ℕ} {x : UInt16} (h : StandsAt b o (packUint16 x)) :
    slice b o (o + 2) = .ok (packUint16 x) :=
  slice_standsAt h (by rw [packUint16, length_beBytes]) (h.number_le (by decide))

theorem slice_bytes32 {b : Bytes} {o : ℕ} {x : Bytes32} (h : StandsAt b o (packBytes32 x)) :
    slice b o (o + 32) = .ok (packBytes32 x) :=
  slice_standsAt h (by rw [packBytes32, length_beBytes]) (h.number_le (by decide))

@[simp] theorem u16FromBe_pack (x : UInt16) : u16FromBe (packUint16 x) = x := by
  rw [u16FromBe, packUint16, beNat_beBytes x.toNat_lt, UInt16.ofNat_toNat]

@[simp] theorem u16FromLe_pack (x : UInt16) : u16FromLe (packUint16Le x) = x := by
  rw [u16FromLe, packUint16Le, List.reverse_reverse]
  exact u16FromBe_pack x

@[simp] theorem toBytes32_pack (x : Bytes32) : toBytes32 (packBytes32 x) = x := by
  rw [toBytes32, packBytes32, beNat_beBytes x.isLt, BitVec.ofNat_toNat, BitVec.setWidth_eq]

/-- The number at the front of a byte string that is long enough. -/
theorem exists_beBytes {b : Bytes} {n : ℕ} (h : n ≤ b.length) :
    ∃ v < 256 ^ n, ∃ rest, b = beBytes n v ++ rest ∧ rest.length + n = b.length := by
  have hlen : (b.take n).length = n := List.length_take_of_le h
  have hback := beBytes_beNat (b.take n)
  have hlt := beNat_lt (b.take n)
  rw [hlen] at hback hlt
  refine ⟨_, hlt, b.drop n, ?_, ?_⟩
  · rw [hback, List.take_append_drop]
  · rw [List.length_drop]
    omega

/-! ### Bodies -/

section

variable {W : WormholeIo} (hW : W.Lawful)
include hW

/-- The layout of the fields in front of the payload. -/
def VaaHeader.layout (h : VaaHeader) : Bytes :=
  packBytes4 h.timestamp ++ (packBytes4 h.nonce ++ (packUint16 h.emitterChain ++
    (packBytes32 h.emitterAddress ++ (packUint64 h.sequence ++ packUint8 h.consistencyLevel))))

theorem VaaHeader.takes : TakesField (VaaHeader.read W) VaaHeader.layout := by
  intro b h rest
  simp only [VaaHeader.read, run_bind_eq_ok, run_pure_eq_ok, hW.bytes4.takes _ _ _,
    hW.u16.takes _ _ _, hW.bytes32.takes _ _ _, hW.u64.takes _ _ _, hW.u8.takes _ _ _]
  constructor
  · rintro ⟨timestamp, _, h₀, nonce, _, h₁, chain, _, h₂, address, _, h₃, sequence, _, h₄, level,
      _, h₅, h₆, h₇⟩
    rw [h₀, h₁, h₂, h₃, h₄, h₅, h₇, ← h₆]
    simp only [layout, List.append_assoc]
  · intro h₀
    simp only [layout, List.append_assoc] at h₀
    exact ⟨_, _, h₀, _, _, rfl, _, _, rfl, _, _, rfl, _, _, rfl, _, rest, rfl, rfl, rfl⟩

end

/-- Any 51 bytes are such fields. -/
theorem VaaHeader.exists_layout {b : Bytes} (hlen : 51 ≤ b.length) :
    ∃ h : VaaHeader, ∃ rest, b = h.layout ++ rest := by
  obtain ⟨timestamp, h₀, b₀, e₀, hlen₀⟩ := exists_beBytes (n := 4) (b := b) (by omega)
  obtain ⟨nonce, h₁, b₁, e₁, hlen₁⟩ := exists_beBytes (n := 4) (b := b₀) (by omega)
  obtain ⟨chain, h₂, b₂, e₂, hlen₂⟩ := exists_beBytes (n := 2) (b := b₁) (by omega)
  obtain ⟨address, h₃, b₃, e₃, hlen₃⟩ := exists_beBytes (n := 32) (b := b₂) (by omega)
  obtain ⟨sequence, h₄, b₄, e₄, hlen₄⟩ := exists_beBytes (n := 8) (b := b₃) (by omega)
  obtain ⟨level, h₅, b₅, e₅, -⟩ := exists_beBytes (n := 1) (b := b₄) (by omega)
  refine ⟨⟨BitVec.ofNat 32 timestamp, BitVec.ofNat 32 nonce, UInt16.ofNat chain,
    BitVec.ofNat 256 address, UInt64.ofNat sequence, UInt8.ofNat level⟩, b₅, ?_⟩
  have htimestamp : (BitVec.ofNat 32 timestamp).toNat = timestamp :=
    (BitVec.toNat_ofNat ..).trans (Nat.mod_eq_of_lt h₀)
  have hnonce : (BitVec.ofNat 32 nonce).toNat = nonce :=
    (BitVec.toNat_ofNat ..).trans (Nat.mod_eq_of_lt h₁)
  have hchain : (UInt16.ofNat chain).toNat = chain :=
    UInt16.toNat_ofNat'.trans (Nat.mod_eq_of_lt h₂)
  have haddress : (BitVec.ofNat 256 address).toNat = address :=
    (BitVec.toNat_ofNat ..).trans (Nat.mod_eq_of_lt h₃)
  have hsequence : (UInt64.ofNat sequence).toNat = sequence :=
    UInt64.toNat_ofNat'.trans (Nat.mod_eq_of_lt h₄)
  have hlevel : (UInt8.ofNat level).toNat = level :=
    UInt8.toNat_ofNat'.trans (Nat.mod_eq_of_lt h₅)
  simp only [layout, packBytes4, packUint16, packBytes32, packUint64, packUint8, htimestamp, hnonce,
    hchain, haddress, hsequence, hlevel, List.append_assoc]
  rw [e₀, e₁, e₂, e₃, e₄, e₅]

/-- The accessors of the fields in front of the payload. -/
theorem VaaBodyBytes.header_accessors {self : VaaBodyBytes} {h : VaaHeader} {rest : Bytes}
    (hspan : self.span = h.layout ++ rest) :
    self.emitterChain = .ok h.emitterChain ∧ self.emitterAddress = .ok h.emitterAddress := by
  have h0 := StandsAt.self self.span
  nth_rewrite 2 [hspan] at h0
  have hchain := h0.left.right.right.left
  have haddress := h0.left.right.right.right.left
  simp only [packBytes4, length_beBytes, Nat.zero_add, Nat.reduceAdd] at hchain haddress
  simp only [packUint16, length_beBytes, Nat.reduceAdd] at haddress
  constructor
  · rw [emitterChain, slice_uint16 hchain]
    exact congrArg Except.ok (u16FromBe_pack _)
  · rw [emitterAddress, slice_bytes32 haddress]
    exact congrArg Except.ok (toBytes32_pack _)

/-- The accessors of the fields inside the message. -/
theorem VaaBodyBytes.message_accessors {self : VaaBodyBytes} {pre : BitVec 32}
    {m : TransceiverMessage (NativeTokenTransfer EmptyPayload)} {n n' k : UInt16} {rest : Bytes}
    (hspan : StandsAt self.span 51 (TransceiverMessage.layout pre m n n' k ++ rest)) :
    self.id = .ok m.messageData.nttManagerPayload.id ∧
      self.toChain = .ok m.messageData.nttManagerPayload.payload.toChain := by
  rw [TransceiverMessage.layout, transferFields] at hspan
  have hid := hspan.left.left.left.right.left.left.left
  have hchain := hspan.left.left.left.right.right.right
  simp only [packBytes4, packBytes32, packUint16, packUint8, packUint64, List.length_append,
    length_beBytes, Nat.reduceAdd] at hid hchain
  constructor
  · rw [id, slice_bytes32 hid]
    exact congrArg Except.ok (toBytes32_pack _)
  · rw [toChain, slice_uint16 hchain]
    exact congrArg (fun n => Except.ok (⟨n⟩ : ChainId)) (u16FromBe_pack _)

/-- **The accessors of a body.** When the message in a body is accepted, the body has a structured
parse in front of it, and each accessor gives the field of the parse. -/
theorem VaaBodyBytes.accessors {B : AnchorIo} (hB : B.Lawful) {self : VaaBodyBytes}
    {data : TransferData} (h : self.transceiverMessageData B = .ok data) :
    ∃ header payload, (VaaHeader.read B.io).run self.span = .ok (header, payload) ∧
      self.emitterChain = .ok header.emitterChain ∧
      self.emitterAddress = .ok header.emitterAddress ∧
      self.id = .ok data.nttManagerPayload.id ∧
      self.toChain = .ok data.nttManagerPayload.payload.toChain := by
  simp only [transceiverMessageData, messageData, sliceFrom, Except.bind_eq_ok,
    Except.pure_eq_ok] at h
  obtain ⟨_, hslice, m, hread, rfl⟩ := h
  rw [slice] at hslice
  split at hslice
  · rename_i hlen
    obtain rfl := Except.ok.inj hslice
    obtain ⟨rest, hread⟩ := hB.readSlice hread
    obtain ⟨_, ⟨n, n', k, -, rfl⟩, hlayout⟩ := (TransceiverMessage.takes hB.io _).sound hread
    have hstands : StandsAt self.span 51
        (TransceiverMessage.layout WormholeTransceiver.PREFIX m n n' k ++ rest) := by
      rw [← hlayout]
      exact List.take_prefix _ _
    obtain ⟨header, payload, hheader⟩ := VaaHeader.exists_layout hlen.1
    obtain ⟨hchain, haddress⟩ := header_accessors hheader
    obtain ⟨hid, hto⟩ := message_accessors hstands
    exact ⟨header, payload, (VaaHeader.takes hB.io _ _ _).mpr hheader, hchain, haddress, hid, hto⟩
  · cases hslice

/-! ### Accounts -/

/-- What is serialized has the announced size, and is deserialized from there. -/
structure Primitive.Fixed {α : Type} (p : Primitive α) : Prop where
  size : ∀ x, (p.write x).length = p.SIZE
  takes : TakesField p.read p.write

theorem Primitive.Lawful.fixed {α : Type} {p : Primitive α} {n : ℕ} {pack : α → Bytes}
    (h : p.Lawful n pack) (hpack : ∀ x, (pack x).length = n) : p.Fixed where
  size x := by rw [h.write, h.size, hpack]
  takes := by
    rw [h.write]
    exact h.takes

section

variable {B : AnchorIo} (hB : B.Lawful) {α : Type} {A : Primitive α} (hA : A.Fixed)
include hB

theorem AnchorIo.Lawful.fixed_u16 : B.u16.Fixed :=
  hB.u16.fixed fun _ => by rw [packUint16Le, List.length_reverse, packUint16, length_beBytes]

theorem AnchorIo.Lawful.fixed_bytes32 : B.bytes32.Fixed :=
  hB.bytes32.fixed fun _ => by rw [packBytes32, length_beBytes]

theorem ChainId.borsh_fixed : (ChainId.borsh B).Fixed where
  size m := hB.fixed_u16.size _
  takes b m rest := by
    simp only [borsh, run_bind_eq_ok, run_pure_eq_ok, hB.fixed_u16.takes _ _ _]
    constructor
    · rintro ⟨id, _, rfl, rfl, rfl⟩
      rfl
    · rintro rfl
      exact ⟨_, _, rfl, rfl, rfl⟩

theorem TrimmedAmount.borsh_fixed : (TrimmedAmount.borsh B).Fixed where
  size m := by
    simp only [borsh, List.length_append, hB.u64.write, hB.u8.write, hB.u64.size, hB.u8.size,
      packUint64Le, List.length_reverse, packUint64, packUint8, length_beBytes]
  takes b m rest := by
    simp only [borsh, run_bind_eq_ok, run_pure_eq_ok, hB.u64.takes _ _ _, hB.u8.takes _ _ _,
      hB.u64.write, hB.u8.write, List.append_assoc]
    constructor
    · rintro ⟨amount, _, h₀, decimals, _, h₁, rfl, h₂⟩
      rw [h₀, h₁, h₂]
    · intro h
      exact ⟨_, _, h, _, _, rfl, rfl, rfl⟩

include hA

theorem NativeTokenTransfer.borsh_fixed : (NativeTokenTransfer.borsh B A).Fixed where
  size m := by
    simp only [borsh, List.length_append, (TrimmedAmount.borsh_fixed hB).size,
      (ChainId.borsh_fixed hB).size, hB.fixed_bytes32.size, hA.size]
  takes b m rest := by
    simp only [borsh, run_bind_eq_ok, run_pure_eq_ok, (TrimmedAmount.borsh_fixed hB).takes _ _ _,
      (ChainId.borsh_fixed hB).takes _ _ _, hB.fixed_bytes32.takes _ _ _, hA.takes _ _ _,
      List.append_assoc]
    constructor
    · rintro ⟨amount, _, h₀, token, _, h₁, chain, _, h₂, recipient, _, h₃, payload, _, h₄, rfl, h₅⟩
      rw [h₀, h₁, h₂, h₃, h₄, h₅]
    · intro h
      exact ⟨_, _, h, _, _, rfl, _, _, rfl, _, _, rfl, _, _, rfl, rfl, rfl⟩

theorem NttManagerMessage.borsh_fixed : (NttManagerMessage.borsh B A).Fixed where
  size m := by simp only [borsh, List.length_append, hB.fixed_bytes32.size, hA.size]
  takes b m rest := by
    simp only [borsh, run_bind_eq_ok, run_pure_eq_ok, hB.fixed_bytes32.takes _ _ _,
      hA.takes _ _ _, List.append_assoc]
    constructor
    · rintro ⟨id, _, h₀, sender, _, h₁, payload, _, h₂, rfl, h₃⟩
      rw [h₀, h₁, h₂, h₃]
    · intro h
      exact ⟨_, _, h, _, _, rfl, _, _, rfl, rfl, rfl⟩

theorem TransceiverMessageData.borsh_fixed : (TransceiverMessageData.borsh B A).Fixed where
  size m := by
    simp only [borsh, List.length_append, hB.fixed_bytes32.size,
      (NttManagerMessage.borsh_fixed hB hA).size]
  takes b m rest := by
    simp only [borsh, run_bind_eq_ok, run_pure_eq_ok, hB.fixed_bytes32.takes _ _ _,
      (NttManagerMessage.borsh_fixed hB hA).takes _ _ _, List.append_assoc]
    constructor
    · rintro ⟨source, _, h₀, recipient, _, h₁, payload, _, h₂, rfl, h₃⟩
      rw [h₀, h₁, h₂, h₃]
    · intro h
      exact ⟨_, _, h, _, _, rfl, _, _, rfl, rfl, rfl⟩

end

theorem EmptyPayload.borsh_fixed : EmptyPayload.borsh.Fixed where
  size _ := rfl
  takes b m rest := by
    simp only [borsh, run_pure_eq_ok, true_and, List.nil_append]

section

variable {B : AnchorIo} (hB : B.Lawful)
include hB

theorem transferBorsh_fixed : (transferBorsh B).Fixed :=
  NativeTokenTransfer.borsh_fixed hB EmptyPayload.borsh_fixed

namespace ValidatedTransceiverMessage

theorem borsh_fixed : (borsh B).Fixed where
  size m := by
    simp only [borsh, List.length_append, (ChainId.borsh_fixed hB).size,
      (TransceiverMessageData.borsh_fixed hB (transferBorsh_fixed hB)).size]
  takes b m rest := by
    simp only [borsh, run_bind_eq_ok, run_pure_eq_ok, (ChainId.borsh_fixed hB).takes _ _ _,
      (TransceiverMessageData.borsh_fixed hB (transferBorsh_fixed hB)).takes _ _ _,
      List.append_assoc]
    constructor
    · rintro ⟨chain, _, h₀, message, _, h₁, rfl, h₂⟩
      rw [h₀, h₁, h₂]
    · intro h
      exact ⟨_, _, h, _, _, rfl, rfl, rfl⟩

theorem discriminatorCheck_eq_ok {data : Bytes} {u : Unit} :
    discriminatorCheck B data = .ok u ↔ ∃ rest, data = B.DISCRIMINATOR ++ rest := by
  rw [discriminatorCheck, hB.discriminator]
  constructor
  · intro h
    split at h
    · cases h
    · split at h
      · cases h
      · rename_i hne
        rw [not_not.mp hne]
        exact ⟨_, (List.take_append_drop 8 data).symm⟩
  · rintro ⟨rest, rfl⟩
    have hlen : ¬ (B.DISCRIMINATOR ++ rest).length < 8 := by
      rw [List.length_append, hB.discriminator]
      omega
    rw [if_neg hlen, ← hB.discriminator, List.take_left, if_neg (not_not.mpr rfl)]

/-- An account that deserializes is the serialized message, between the discriminator and whatever
follows. -/
theorem tryDeserialize_eq_ok {data : Bytes} {m : ValidatedTransceiverMessage} :
    tryDeserialize B data = .ok m ↔ ∃ rest, data = B.DISCRIMINATOR ++ ((borsh B).write m ++ rest) := by
  simp only [tryDeserialize, Except.bind_eq_ok, discriminatorCheck_eq_ok hB]
  constructor
  · rintro ⟨_, ⟨rest, rfl⟩, h⟩
    rw [← hB.discriminator, List.drop_left] at h
    split at h
    · rename_i m' rest' hread
      obtain rfl := Except.ok.inj h
      exact ⟨rest', by rw [← ((borsh_fixed hB).takes _ _ _).mp hread]⟩
    · cases h
  · rintro ⟨rest, rfl⟩
    refine ⟨(), ⟨_, rfl⟩, ?_⟩
    rw [← hB.discriminator, List.drop_left, ((borsh_fixed hB).takes _ _ _).mpr rfl]
    rfl

end ValidatedTransceiverMessage

/-- The accessors of the message bytes that begin with a serialized message. -/
theorem TransceiverMessageDataBytes.accessors {self : TransceiverMessageDataBytes}
    {m : TransferData} {rest : Bytes}
    (hspan : self.span = (TransceiverMessageData.borsh B (transferBorsh B)).write m ++ rest) :
    self.sourceNttManager = .ok m.sourceNttManager ∧
      self.recipientNttManager = .ok m.recipientNttManager ∧
        self.nttManagerPayload B = .ok m.nttManagerPayload := by
  simp only [TransceiverMessageData.borsh, hB.bytes32.write, List.append_assoc] at hspan
  have h0 := StandsAt.self self.span
  nth_rewrite 2 [hspan] at h0
  have hrecipient := h0.right.left
  simp only [packBytes32, length_beBytes, Nat.zero_add] at hrecipient
  have hmanager : sliceFrom self.span 64 =
      .ok ((NttManagerMessage.borsh B (transferBorsh B)).write m.nttManagerPayload ++ rest) := by
    rw [hspan, ← List.append_assoc]
    refine sliceFrom_append ?_
    rw [List.length_append, packBytes32, packBytes32, length_beBytes, length_beBytes]
  refine ⟨?_, ?_, ?_⟩
  · rw [sourceNttManager, slice_bytes32 h0.left]
    exact congrArg Except.ok (toBytes32_pack _)
  · rw [recipientNttManager, slice_bytes32 hrecipient]
    exact congrArg Except.ok (toBytes32_pack _)
  · have hread := ((NttManagerMessage.borsh_fixed hB (transferBorsh_fixed hB)).takes _ _ _).mpr
      (rfl : (NttManagerMessage.borsh B (transferBorsh B)).write m.nttManagerPayload ++ rest = _)
    simp only [nttManagerPayload, hmanager, bind, Except.bind, hread]
    rfl

namespace ValidatedTransceiverMessage

/-- **The accessors of an account.** Whatever deserializes, the raw accessors give its fields. -/
theorem accessors {data : Bytes} {m : ValidatedTransceiverMessage}
    (h : tryDeserialize B data = .ok m) :
    readFromChain B data = .ok m.fromChain ∧ ∃ bytes, readMessage B data = .ok bytes ∧
      bytes.sourceNttManager = .ok m.message.sourceNttManager ∧
      bytes.recipientNttManager = .ok m.message.recipientNttManager ∧
      bytes.nttManagerPayload B = .ok m.message.nttManagerPayload := by
  obtain ⟨rest, hdata⟩ := (tryDeserialize_eq_ok hB).mp h
  have hcheck := (discriminatorCheck_eq_ok hB (u := ())).mpr ⟨_, hdata⟩
  simp only [borsh, ChainId.borsh, hB.u16.write, List.append_assoc] at hdata
  constructor
  · have h0 := StandsAt.self data
    nth_rewrite 2 [hdata] at h0
    have hchain := h0.right.left
    rw [hB.discriminator, Nat.zero_add] at hchain
    have hslice : slice data 8 10 = .ok (packUint16Le m.fromChain.id) := by
      refine slice_standsAt hchain rfl ?_
      simp only [hdata, List.length_append, hB.discriminator, packUint16Le, List.length_reverse,
        packUint16, length_beBytes]
      omega
    simp only [readFromChain, hcheck, hslice, bind, Except.bind, Except.mapError, u16FromLe_pack]
    rfl
  · refine ⟨⟨(TransceiverMessageData.borsh B (transferBorsh B)).write m.message ++ rest⟩, ?_,
      TransceiverMessageDataBytes.accessors hB rfl⟩
    have hslice : sliceFrom data 10 =
        .ok ((TransceiverMessageData.borsh B (transferBorsh B)).write m.message ++ rest) := by
      rw [hdata, ← List.append_assoc]
      refine sliceFrom_append ?_
      rw [List.length_append, hB.discriminator, packUint16Le, List.length_reverse, packUint16,
        length_beBytes]
    simp only [readMessage, hcheck, hslice, bind, Except.bind, Except.mapError]
    rfl

/-- The message fits in the space that is allocated for it. -/
theorem setInner_eq_ok (m : ValidatedTransceiverMessage) :
    ∃ data, setInner B m = .ok data ∧ tryDeserialize B data = .ok m := by
  have hlen : (B.DISCRIMINATOR ++ (borsh B).write m).length ≤ space B := by
    simp only [List.length_append, hB.discriminator, (borsh_fixed hB).size]
    simp only [borsh, space, TransceiverMessageData.borsh, NttManagerMessage.borsh]
    omega
  exact ⟨_, if_pos hlen, (tryDeserialize_eq_ok hB).mpr ⟨_, List.append_assoc ..⟩⟩

end ValidatedTransceiverMessage

/-- What receiving a body checks, in the fields of its structured parse, and what it leaves. -/
theorem receiveMessage_checks {config : Config} {peers : UInt16 → Option Bytes32}
    {messages : UInt16 × Bytes32 → Option Bytes} {verifyHash : Bytes → Bool}
    {vaaBody : VaaBodyBytes} {key : UInt16 × Bytes32} {account : Bytes}
    (h : receiveMessage B config peers messages verifyHash vaaBody = .ok (key, account)) :
    ∃ header payload data, (VaaHeader.read B.io).run vaaBody.span = .ok (header, payload) ∧
      vaaBody.transceiverMessageData B = .ok data ∧
      key = (header.emitterChain, data.nttManagerPayload.id) ∧
      peers header.emitterChain = some header.emitterAddress ∧
      data.nttManagerPayload.payload.toChain = config.chainId ∧
      ValidatedTransceiverMessage.tryDeserialize B account = .ok ⟨⟨header.emitterChain⟩, data⟩ := by
  simp only [receiveMessage, Except.bind_eq_ok, Except.pure_eq_ok, mapError_eq_ok,
    requireReceived_eq_ok] at h
  obtain ⟨_, -, toChain, hto, _, hconfig, chain, hchain, address, haddress, _, -, _, hpeer, id, hid, _, -,
    _, -, data, hdata, account', hset, h⟩ := h
  obtain ⟨rfl, rfl⟩ := Prod.mk.inj h
  obtain ⟨header, payload, hheader, hchain', haddress', hid', hto'⟩ := vaaBody.accessors hB hdata
  obtain rfl := Except.ok.inj (hchain.symm.trans hchain')
  obtain rfl := Except.ok.inj (haddress.symm.trans haddress')
  obtain rfl := Except.ok.inj (hid.symm.trans hid')
  obtain rfl := Except.ok.inj (hto.symm.trans hto')
  obtain ⟨data', hset', hde⟩ := ValidatedTransceiverMessage.setInner_eq_ok hB
    ⟨⟨header.emitterChain⟩, data⟩
  obtain rfl := Except.ok.inj (hset.symm.trans hset')
  exact ⟨header, payload, data, hheader, hdata, rfl, hpeer, hconfig, hde⟩

end

/-- **Raw bytes and the structured parse agree.** When the message in the body of a VAA is accepted,
each accessor of the body gives the field of the structured parse, and the account that this
message is stored in gives the message back, as a whole and by each accessor. So whatever is
received under a chain and an id, from a peer and for this chain, is the message of this chain and
id, from this peer and for this chain, that is executed. -/
theorem accessors_agree {B : AnchorIo} (hB : B.Lawful) :
    (∀ (vaaBody : VaaBodyBytes) (data : TransferData),
      vaaBody.transceiverMessageData B = .ok data →
        (∃ header payload, (VaaHeader.read B.io).run vaaBody.span = .ok (header, payload) ∧
          vaaBody.emitterChain = .ok header.emitterChain ∧
          vaaBody.emitterAddress = .ok header.emitterAddress ∧
          vaaBody.id = .ok data.nttManagerPayload.id ∧
          vaaBody.toChain = .ok data.nttManagerPayload.payload.toChain) ∧
        ∀ fromChain, ∃ account,
          ValidatedTransceiverMessage.setInner B ⟨fromChain, data⟩ = .ok account ∧
          ValidatedTransceiverMessage.tryDeserialize B account = .ok ⟨fromChain, data⟩) ∧
    (∀ (account : Bytes) (m : ValidatedTransceiverMessage),
      ValidatedTransceiverMessage.tryDeserialize B account = .ok m →
        ValidatedTransceiverMessage.readFromChain B account = .ok m.fromChain ∧
        ∃ bytes, ValidatedTransceiverMessage.readMessage B account = .ok bytes ∧
          bytes.sourceNttManager = .ok m.message.sourceNttManager ∧
          bytes.recipientNttManager = .ok m.message.recipientNttManager ∧
          bytes.nttManagerPayload B = .ok m.message.nttManagerPayload) ∧
    ∀ (config : Config) (peers : UInt16 → Option Bytes32)
      (messages : UInt16 × Bytes32 → Option Bytes) (verifyHash : Bytes → Bool)
      (vaaBody : VaaBodyBytes) (key : UInt16 × Bytes32) (account : Bytes),
      receiveMessage B config peers messages verifyHash vaaBody = .ok (key, account) →
        ∃ header payload data, (VaaHeader.read B.io).run vaaBody.span = .ok (header, payload) ∧
          vaaBody.transceiverMessageData B = .ok data ∧
          key = (header.emitterChain, data.nttManagerPayload.id) ∧
          peers header.emitterChain = some header.emitterAddress ∧
          data.nttManagerPayload.payload.toChain = config.chainId ∧
          ValidatedTransceiverMessage.tryDeserialize B account =
            .ok ⟨⟨header.emitterChain⟩, data⟩ :=
  ⟨fun vaaBody _ h => ⟨vaaBody.accessors hB h,
      fun _ => ValidatedTransceiverMessage.setInner_eq_ok hB _⟩,
    fun _ _ => ValidatedTransceiverMessage.accessors hB,
    fun _ _ _ _ _ _ _ => receiveMessage_checks hB⟩

/-- A body: 51 bytes in front of the sample message, from the peer 9 on chain 2. -/
def VaaBodyBytes.sample : VaaBodyBytes where
  span := VaaHeader.layout ⟨0, 0, 2, 9, 1, 15⟩ ++
    TransceiverMessage.layout WormholeTransceiver.PREFIX TransceiverMessage.sample 145 79 0

theorem sample_accessors_agree :
    VaaBodyBytes.sample.id = .ok 3 ∧ VaaBodyBytes.sample.toChain = .ok ⟨1⟩ ∧
      ∃ account, ValidatedTransceiverMessage.setInner .reference
          ⟨⟨2⟩, TransceiverMessage.sample.messageData⟩ = .ok account ∧
        ValidatedTransceiverMessage.readFromChain .reference account = .ok ⟨2⟩ := by
  have hB := AnchorIo.reference_lawful
  obtain ⟨⟨_, _, -, -, -, hid, hto⟩, hset⟩ := (accessors_agree hB).1 .sample
    TransceiverMessage.sample.messageData (by decide +kernel)
  obtain ⟨account, hset, hde⟩ := hset ⟨2⟩
  exact ⟨hid, hto, account, hset, ((accessors_agree hB).2.1 account _ hde).1⟩

end Ntt.Solana
