import Ntt.Evm.WireFormat
import Ntt.Lib.Reader
import Ntt.Sui.Basic

/-!
# The Messages of the Sui Packages

The message types of `ntt_common` with their `to_bytes`, `take_bytes` and `parse`. A parser takes
its fields off a cursor, and the cursor has to be empty at the end. Cursors and the functions for
integers and 32-byte words belong to a package that is not part of the repository; they are the
parameter `Wormhole`, and what is relied on is `Wormhole.Lawful`: integers are big-endian, taking
more bytes than there are aborts, and only an empty cursor can be destroyed.

## Main results

* `TransceiverMessage.parse_eq_ok`, `NativeTokenTransfer.parse_eq_ok`: what the parsers accept, in
  terms of the encodings of the contracts.
-/

namespace Ntt.Sui

open BigEndian Wire

/-! ### Cursors -/

/-- The package for cursors, bytes and addresses. A writer is the bytes that it pushes. -/
structure Wormhole where
  /-- `cursor::is_empty`. -/
  isEmpty : Reader Abort Bool
  /-- `cursor::data`, and its length. -/
  dataLength : Reader Abort ℕ
  /-- `cursor::destroy_empty`. -/
  destroyEmpty : Reader Abort Unit
  takeU8 : Reader Abort UInt8
  takeU16Be : Reader Abort UInt16
  takeU64Be : Reader Abort UInt64
  /-- `bytes::take_bytes`. -/
  takeBytes : ℕ → Reader Abort Bytes
  /-- `bytes32::take_bytes`. -/
  takeBytes32 : Reader Abort Bytes32
  /-- `external_address::take_bytes`. -/
  takeExternalAddress : Reader Abort Bytes32
  pushU8 : UInt8 → Bytes
  pushU16Be : UInt16 → Bytes
  pushU64Be : UInt64 → Bytes
  /-- `bytes32::to_bytes`. -/
  bytes32ToBytes : Bytes32 → Bytes
  /-- `external_address::to_bytes`. -/
  externalAddressToBytes : Bytes32 → Bytes

/-- What the packages rely on. -/
structure Wormhole.Lawful (W : Wormhole) : Prop where
  isEmpty : ∀ b x rest, W.isEmpty.run b = .ok (x, rest) ↔ b.isEmpty = x ∧ b = rest
  dataLength : ∀ b n rest, W.dataLength.run b = .ok (n, rest) ↔ b.length = n ∧ b = rest
  destroyEmpty : ∀ b u rest, W.destroyEmpty.run b = .ok (u, rest) ↔ b = [] ∧ rest = []
  takeU8 : TakesField W.takeU8 packUint8
  takeU16Be : TakesField W.takeU16Be packUint16
  takeU64Be : TakesField W.takeU64Be packUint64
  takeBytes : ∀ n b x rest, (W.takeBytes n).run b = .ok (x, rest) ↔ x.length = n ∧ b = x ++ rest
  takeBytes32 : TakesField W.takeBytes32 packBytes32
  takeExternalAddress : TakesField W.takeExternalAddress packBytes32
  pushU8 : W.pushU8 = packUint8
  pushU16Be : W.pushU16Be = packUint16
  pushU64Be : W.pushU64Be = packUint64
  bytes32ToBytes : W.bytes32ToBytes = packBytes32
  externalAddressToBytes : W.externalAddressToBytes = packBytes32

/-- An implementation of the package. -/
def Wormhole.reference : Wormhole where
  isEmpty := do return (← Reader.remaining).isEmpty
  dataLength := do return (← Reader.remaining).length
  destroyEmpty := do Reader.throwUnless ((← Reader.remaining) = []) .external
  takeU8 := .bigEndian 1 UInt8.ofNat .external
  takeU16Be := .bigEndian 2 UInt16.ofNat .external
  takeU64Be := .bigEndian 8 UInt64.ofNat .external
  takeBytes n := .exactly n .external
  takeBytes32 := .bigEndian 32 (BitVec.ofNat 256) .external
  takeExternalAddress := .bigEndian 32 (BitVec.ofNat 256) .external
  pushU8 := packUint8
  pushU16Be := packUint16
  pushU64Be := packUint64
  bytes32ToBytes := packBytes32
  externalAddressToBytes := packBytes32

theorem Wormhole.reference_lawful : reference.Lawful where
  isEmpty b x rest := by
    simp only [reference, run_bind_eq_ok, run_pure_eq_ok, run_remaining_eq_ok]
    grind
  dataLength b n rest := by
    simp only [reference, run_bind_eq_ok, run_pure_eq_ok, run_remaining_eq_ok]
    grind
  destroyEmpty b u rest := by
    simp only [reference, run_bind_eq_ok, run_throwUnless_eq_ok, run_remaining_eq_ok]
    grind
  takeU8 := takesField_bigEndian UInt8.toNat_lt (fun _ => UInt8.ofNat_toNat)
    fun _ h => UInt8.toNat_ofNat_of_lt h
  takeU16Be := takesField_bigEndian UInt16.toNat_lt (fun _ => UInt16.ofNat_toNat)
    fun _ h => UInt16.toNat_ofNat_of_lt h
  takeU64Be := takesField_bigEndian UInt64.toNat_lt (fun _ => UInt64.ofNat_toNat)
    fun _ h => UInt64.toNat_ofNat_of_lt h
  takeBytes _ _ _ _ := run_exactly_eq_ok
  takeBytes32 := takesField_bigEndian BitVec.isLt (fun _ => BitVec.ofNat_toNat ..)
    fun _ h => (BitVec.toNat_ofNat ..).trans (Nat.mod_eq_of_lt h)
  takeExternalAddress := takesField_bigEndian BitVec.isLt (fun _ => BitVec.ofNat_toNat ..)
    fun _ h => (BitVec.toNat_ofNat ..).trans (Nat.mod_eq_of_lt h)
  pushU8 := rfl
  pushU16Be := rfl
  pushU64Be := rfl
  bytes32ToBytes := rfl
  externalAddressToBytes := rfl

variable (W : Wormhole)

/-- `parse!`: runs a parser on a new cursor, which has to be empty afterwards. -/
def parse {α : Type} (parser : Reader Abort α) (buf : Bytes) : Except Abort α := do
  let (result, cur) ← parser.run buf
  let _ ← W.destroyEmpty.run cur
  return result

/-! ### Words of four bytes and amounts -/

/-- Four bytes. -/
structure Bytes4 where
  data : Bytes
  length_data : data.length = 4
deriving DecidableEq

namespace Bytes4

/-- Four bytes from a byte string of that length. -/
def new (data : Bytes) : Except Abort Bytes4 :=
  if h : data.length = 4 then .ok ⟨data, h⟩ else .error (.code "bytes4" 0)

def take : Reader Abort Bytes4 := do
  let data ← W.takeBytes 4
  liftM (new data)

/-- The four bytes of a word. -/
def ofWord (x : BitVec 32) : Bytes4 := ⟨packBytes4 x, length_beBytes 4 _⟩

end Bytes4

/-- An amount with its decimals. -/
structure TrimmedAmount where
  amount : UInt64
  decimals : UInt8
deriving DecidableEq, Repr

def TrimmedAmount.toBytes (self : TrimmedAmount) : Bytes :=
  W.pushU8 self.decimals ++ W.pushU64Be self.amount

/-! ### Transfers -/

/-- The prefix of transfers. -/
def NTT_PREFIX : Bytes := [0x99, 0x4E, 0x54, 0x54]

/-- The payload of a transfer. -/
structure NativeTokenTransfer where
  amount : TrimmedAmount
  sourceToken : Bytes32
  /-- The recipient, `to` in the source. -/
  recipient : Bytes32
  toChain : UInt16
  payload : Option Bytes
deriving DecidableEq, Repr

namespace NativeTokenTransfer

def toBytes (message : NativeTokenTransfer) : Except Abort Bytes := do
  let buf := NTT_PREFIX ++ message.amount.toBytes W ++
    W.externalAddressToBytes message.sourceToken ++ W.externalAddressToBytes message.recipient ++
      W.pushU16Be message.toChain
  match message.payload with
  | some payload => do
      let len ← asU16 payload.length
      return buf ++ W.pushU16Be len ++ payload
  | none => return buf

/-- The end of a transfer: whatever is left is a payload behind its length. -/
def takePayload : Reader Abort (Option Bytes) := do
  let isEmpty ← W.isEmpty
  if !isEmpty then
    let len ← W.takeU16Be
    let payload ← W.takeBytes len.toNat
    return some payload
  else
    return none

def takeBytes : Reader Abort NativeTokenTransfer := do
  let nttPrefix ← Bytes4.take W
  Reader.throwUnless (nttPrefix.data = NTT_PREFIX) (.error "incorrect prefix")
  let decimals ← W.takeU8
  let amount ← W.takeU64Be
  let sourceToken ← W.takeExternalAddress
  let recipient ← W.takeExternalAddress
  let toChain ← W.takeU16Be
  let payload ← takePayload W
  return { amount := ⟨amount, decimals⟩, sourceToken, recipient, toChain, payload }

def parse (buf : Bytes) : Except Abort NativeTokenTransfer := Sui.parse W (takeBytes W) buf

end NativeTokenTransfer

/-! ### Manager messages -/

/-- The message of a manager. -/
structure NttManagerMessage (α : Type) where
  id : Bytes32
  sender : Bytes32
  payload : α
deriving DecidableEq, Repr

namespace NttManagerMessage

/-- `map!`, with a function that may abort. -/
def map {α β : Type} (message : NttManagerMessage α) (f : α → Except Abort β) :
    Except Abort (NttManagerMessage β) := do
  let payload ← f message.payload
  return { id := message.id, sender := message.sender, payload }

/-- The longest payload is refused here. -/
def toBytes (message : NttManagerMessage Bytes) : Except Abort Bytes := do
  assert (message.payload.length < 65535) (.code "ntt_manager_message" 0)
  let payloadLength ← asU16 message.payload.length
  return W.bytes32ToBytes message.id ++ W.externalAddressToBytes message.sender ++
    W.pushU16Be payloadLength ++ message.payload

def takeBytes : Reader Abort (NttManagerMessage Bytes) := do
  let id ← W.takeBytes32
  let sender ← W.takeExternalAddress
  let payloadLength ← W.takeU16Be
  let payload ← W.takeBytes payloadLength.toNat
  return { id, sender, payload }

def parse (buf : Bytes) : Except Abort (NttManagerMessage Bytes) := Sui.parse W (takeBytes W) buf

end NttManagerMessage

/-! ### Transceiver messages -/

/-- What a transceiver message says. -/
structure TransceiverMessageData (α : Type) where
  sourceNttManagerAddress : Bytes32
  recipientNttManagerAddress : Bytes32
  nttManagerPayload : NttManagerMessage α
deriving DecidableEq, Repr

namespace TransceiverMessageData

def map {α β : Type} (messageData : TransceiverMessageData α) (f : α → Except Abort β) :
    Except Abort (TransceiverMessageData β) := do
  let nttManagerPayload ← messageData.nttManagerPayload.map f
  return ⟨messageData.sourceNttManagerAddress, messageData.recipientNttManagerAddress,
    nttManagerPayload⟩

def toBytes (messageData : TransceiverMessageData Bytes) : Except Abort Bytes := do
  let nttManagerPayload ← messageData.nttManagerPayload.toBytes W
  let len ← asU16 nttManagerPayload.length
  return W.externalAddressToBytes messageData.sourceNttManagerAddress ++
    W.externalAddressToBytes messageData.recipientNttManagerAddress ++ W.pushU16Be len ++
      nttManagerPayload

/-- Takes the data; the length of the manager's message has to be what was read. -/
def takeBytes : Reader Abort (TransceiverMessageData Bytes) := do
  let sourceNttManagerAddress ← W.takeExternalAddress
  let recipientNttManagerAddress ← W.takeExternalAddress
  let nttManagerPayloadLen ← W.takeU16Be
  let remaining ← W.dataLength
  let nttManagerPayload ← NttManagerMessage.takeBytes W
  let bytesRead ← liftM (sub remaining (← W.dataLength))
  let bytesRead ← liftM (asU16 bytesRead)
  Reader.throwUnless (bytesRead = nttManagerPayloadLen) (.error "incorrect payload length")
  return { sourceNttManagerAddress, recipientNttManagerAddress, nttManagerPayload }

def parse (data : Bytes) : Except Abort (TransceiverMessageData Bytes) :=
  Sui.parse W (takeBytes W) data

end TransceiverMessageData

/-- The message of a transceiver. -/
structure TransceiverMessage (α : Type) where
  messageData : TransceiverMessageData α
  transceiverPayload : Bytes
deriving DecidableEq, Repr

namespace TransceiverMessage

def map {α β : Type} (message : TransceiverMessage α) (f : α → Except Abort β) :
    Except Abort (TransceiverMessage β) := do
  let messageData ← message.messageData.map f
  return { messageData, transceiverPayload := message.transceiverPayload }

variable (pre : Bytes4)

def toBytes (message : TransceiverMessage Bytes) : Except Abort Bytes := do
  let messageData ← message.messageData.toBytes W
  let len ← asU16 message.transceiverPayload.length
  return pre.data ++ messageData ++ W.pushU16Be len ++ message.transceiverPayload

def takeBytes : Reader Abort (TransceiverMessage Bytes) := do
  let prefixBytes ← Bytes4.take W
  Reader.throwUnless (prefixBytes = pre) (.error "incorrect prefix")
  let messageData ← TransceiverMessageData.takeBytes W
  let transceiverPayloadLen ← W.takeU16Be
  let transceiverPayload ← W.takeBytes transceiverPayloadLen.toNat
  return { messageData, transceiverPayload }

def parse (data : Bytes) : Except Abort (TransceiverMessage Bytes) :=
  Sui.parse W (takeBytes W pre) data

/-- A transceiver message with the transfer inside, as the manager parses it. -/
def parseTransfer (data : Bytes) : Except Abort (TransceiverMessage NativeTokenTransfer) := do
  let message ← parse W pre data
  message.map (NativeTokenTransfer.parse W)

/-- A transceiver message with the transfer inside, as the manager encodes it. -/
def transferToBytes (message : TransceiverMessage NativeTokenTransfer) : Except Abort Bytes := do
  let message ← message.map (NativeTokenTransfer.toBytes W)
  message.toBytes W pre

end TransceiverMessage

end Ntt.Sui
