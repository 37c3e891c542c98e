import Ntt.Lib.Hex
import Ntt.Sui.Codec
import Ntt.Sui.Custody

/-!
# How a Sui Manager Is Identified

A contract shows who it is by a value of a type that only it can make. The type gives the address of
its package (`assertAuthType`), or stands for an object whose type is of the same package
(`authAs`). The manager signs what it sends, and takes what it receives, as its state object. The
transceiver tells the accountant who its manager is (`broadcastId`), and takes the address of the
package of `ManagerAuth`.

Packages are published at addresses, and the text of an address in the name of a type belongs to the
framework; it is the parameter `AddressText`. Messages are published by a package that is not part
of the repository, the parameter `Publishing`.

## Main results

* `System.id_run`: the address of the state object is that of the new manager, whatever is called.
* `announced_iff`: what a transceiver announces is what its manager signs with and answers to if and
  only if the package is at the address of the state object.
-/

namespace Ntt.Sui

open BigEndian Wire

/-! ### Authentication types -/

/-- A struct type by its fully qualified name. -/
structure TypeName where
  /-- The address of the package that first defined it. -/
  address : Bytes32
  moduleName : List Char
  /-- The name, with the type arguments. -/
  name : List Char
deriving DecidableEq

/-- The text of an address in the name of a type, and the address of a text. -/
structure AddressText where
  /-- `type_name::get_address`. -/
  encode : Bytes32 → List Char
  /-- `hex::decode`, then `address::from_bytes`. -/
  decode : List Char → Except Abort Bytes32

/-- What is relied on. -/
structure AddressText.Lawful (A : AddressText) : Prop where
  decode_encode : ∀ a, A.decode (A.encode a) = .ok a

/-- An implementation: two digits for a byte. -/
def AddressText.reference : AddressText where
  encode a := (packBytes32 a).flatMap Hex.digits
  decode text :=
    match Hex.bytesOfDigits? text with
    | some b => if b.length = 32 then .ok (BitVec.ofNat 256 (beNat b)) else .error .external
    | none => .error .external

theorem AddressText.reference_lawful : reference.Lawful where
  decode_encode a := by
    simp only [reference, Hex.bytesOfDigits?_flatMap, packBytes32, length_beBytes, if_true]
    rw [beNat_beBytes a.isLt, BitVec.ofNat_toNat, BitVec.setWidth_eq]

namespace ContractAuth

variable (A : AddressText) (auth : TypeName) (typeName : List Char)

/-- `type_name::into_string`. -/
def intoString : List Char :=
  A.encode auth.address ++ "::".toList ++ auth.moduleName ++ "::".toList ++ auth.name

/-- The address of the package of a type, if it has the name. -/
def getAuthAddress : Except Abort (Option Bytes32) := do
  let addressHex := A.encode auth.address
  let addy ← A.decode addressHex
  let expected := addressHex ++ "::".toList ++ auth.moduleName ++ "::".toList ++ typeName
  return if intoString A auth = expected then some addy else none

def isAuthType : Except Abort Bool := do
  return (← getAuthAddress A auth typeName).isSome

def assertAuthType : Except Abort Bytes32 := do
  match ← getAuthAddress A auth typeName with
  | some addy => return addy
  | none => .error (.error "Invalid auth type")

/-- Authenticates as an object of a type of the same package. -/
def authAs (state : TypeName) (obj : Bytes32) : Except Abort Bytes32 := do
  let packageId ← assertAuthType A auth typeName
  let statePackageId ← A.decode (A.encode state.address)
  assert (packageId = statePackageId) (.error "Invalid auth type")
  return obj

variable {A auth typeName} (hA : A.Lawful)
include hA

theorem getAuthAddress_eq : getAuthAddress A auth typeName =
    .ok (if auth.name = typeName then some auth.address else none) := by
  rw [getAuthAddress, hA.decode_encode]
  simp only [intoString, List.append_assoc, List.append_cancel_left_eq]
  rfl

theorem assertAuthType_eq_ok {a : Bytes32} :
    assertAuthType A auth typeName = .ok a ↔ auth.name = typeName ∧ auth.address = a := by
  rw [assertAuthType, getAuthAddress_eq hA]
  by_cases h : auth.name = typeName <;> simp [h, bind, Except.bind, pure, Except.pure]

theorem authAs_eq_ok {state : TypeName} {obj a : Bytes32} :
    authAs A auth typeName state obj = .ok a ↔
      auth.name = typeName ∧ auth.address = state.address ∧ obj = a := by
  simp only [authAs, Except.bind_eq_ok, assertAuthType_eq_ok hA, hA.decode_encode,
    Except.ok.injEq, assert_eq_ok, Except.pure_eq_ok]
  constructor
  · rintro ⟨_, ⟨hname, rfl⟩, _, rfl, _, hpackage, rfl⟩
    exact ⟨hname, hpackage, rfl⟩
  · rintro ⟨hname, hpackage, rfl⟩
    exact ⟨_, ⟨hname, rfl⟩, _, rfl, (), hpackage, rfl⟩

end ContractAuth

/-! ### What the manager signs and takes -/

/-- Where the packages are published, and the type of the coin of the manager. -/
structure Deployment where
  ntt : Bytes32
  wormholeTransceiver : Bytes32
  coinType : List Char

namespace Deployment

variable (d : Deployment)

/-- `ntt::auth::ManagerAuth`. -/
def managerAuth : TypeName := ⟨d.ntt, "auth".toList, "ManagerAuth".toList⟩

/-- `ntt::state::State`. -/
def managerState : TypeName :=
  ⟨d.ntt, "state".toList, "State<".toList ++ d.coinType ++ ">".toList⟩

/-- `wormhole_transceiver::wormhole_transceiver::TransceiverAuth`. -/
def transceiverAuth : TypeName :=
  ⟨d.wormholeTransceiver, "wormhole_transceiver".toList, "TransceiverAuth".toList⟩

end Deployment

namespace OutboundMessage

variable (A : AddressText)

/-- A message from the object that a manager authenticates as. -/
def new (auth stateType : TypeName) (state : Bytes32) (message : NttManagerMessage Bytes)
    (recipientNttManager : Bytes32) : Except Abort OutboundMessage := do
  let managerAddress ← ContractAuth.authAs A auth "ManagerAuth".toList stateType state
  return { message, sourceNttManager := managerAddress, recipientNttManager }

def unwrapOutboundMessage (self : OutboundMessage) (auth : TypeName) :
    Except Abort (NttManagerMessage Bytes × Bytes32 × Bytes32) := do
  let _ ← ContractAuth.assertAuthType A auth "TransceiverAuth".toList
  return (self.message, self.sourceNttManager, self.recipientNttManager)

end OutboundMessage

/-- A message that a transceiver has validated. -/
def ValidatedTransceiverMessage.new (A : AddressText) (auth : TypeName) (fromChain : UInt16)
    (message : TransceiverMessageData Bytes) : Except Abort ValidatedTransceiverMessage := do
  let _ ← ContractAuth.assertAuthType A auth "TransceiverAuth".toList
  return { fromChain, message }

/-- Only the manager that the message is for can take it apart, as the object that it authenticates
as. -/
def ValidatedTransceiverMessage.destructAs (A : AddressText) (self : ValidatedTransceiverMessage)
    (auth stateType : TypeName) (state : Bytes32) :
    Except Abort (UInt16 × Bytes32 × NttManagerMessage Bytes) := do
  let callerManager ← ContractAuth.authAs A auth "ManagerAuth".toList stateType state
  assert (callerManager = self.message.recipientNttManagerAddress)
    (.error "Invalid recipient manager.")
  return (self.fromChain, self.message.sourceNttManagerAddress, self.message.nttManagerPayload)

section

variable {A : AddressText} (hA : A.Lawful) (d : Deployment)
include hA

theorem Deployment.authAs_managerAuth (state : Bytes32) :
    ContractAuth.authAs A d.managerAuth "ManagerAuth".toList d.managerState state = .ok state :=
  (ContractAuth.authAs_eq_ok hA).mpr ⟨rfl, rfl, rfl⟩

theorem Deployment.assertAuthType_transceiverAuth :
    ContractAuth.assertAuthType A d.transceiverAuth "TransceiverAuth".toList =
      .ok d.wormholeTransceiver :=
  (ContractAuth.assertAuthType_eq_ok hA).mpr ⟨rfl, rfl⟩

theorem OutboundMessage.new_eq (state : Bytes32) (message : NttManagerMessage Bytes)
    (recipientNttManager : Bytes32) :
    OutboundMessage.new A d.managerAuth d.managerState state message recipientNttManager =
      .ok ⟨message, state, recipientNttManager⟩ := by
  rw [new, d.authAs_managerAuth hA]
  rfl

/-- What the manager hands to a transceiver is what the capability makes of its state object. -/
theorem System.createTransceiverMessage_new {τ : Type} [DecidableEq τ] {W : Wormhole}
    {s s' : System τ} {now : UInt64} {t : τ} {messageId : Bytes32} {message : OutboundMessage}
    (h : s.createTransceiverMessage W now t messageId = .ok (s', message)) :
    OutboundMessage.new A d.managerAuth d.managerState s.id message.message
      message.recipientNttManager = .ok message := by
  simp only [createTransceiverMessage, Except.bind_eq_ok, Except.pure_eq_ok, Prod.exists,
    Prod.mk.injEq] at h
  obtain ⟨_, -, _, -, item, -, item', _, -, _, -, encoded, -, -, rfl⟩ := h
  exact OutboundMessage.new_eq hA d _ _ _

theorem OutboundMessage.unwrapOutboundMessage_eq (self : OutboundMessage) :
    self.unwrapOutboundMessage A d.transceiverAuth =
      .ok (self.message, self.sourceNttManager, self.recipientNttManager) := by
  rw [unwrapOutboundMessage, d.assertAuthType_transceiverAuth hA]
  rfl

/-- The check of a redemption is that of the capability, for the state object. -/
theorem ValidatedTransceiverMessage.destructAs_eq (self : ValidatedTransceiverMessage)
    (state : Bytes32) :
    self.destructAs A d.managerAuth d.managerState state = self.destructRecipientOnly state := by
  rw [destructAs, d.authAs_managerAuth hA]
  rfl

end

/-! ### The transceiver -/

/-- The package that publishes messages, with its capabilities `κ` and its tickets `μ`. -/
structure Publishing (κ μ : Type) where
  /-- `publish_message::prepare_message`, with a nonce and a payload. -/
  prepareMessage : κ → UInt32 → Bytes → Except Abort (κ × μ)
  payload : μ → Bytes

/-- What is relied on. -/
structure Publishing.Lawful {κ μ : Type} (B : Publishing κ μ) : Prop where
  payload : ∀ {cap cap' nonce payload ticket},
    B.prepareMessage cap nonce payload = .ok (cap', ticket) → B.payload ticket = payload

/-- An implementation: a capability counts its messages, and a ticket has the sequence number, the
nonce and the payload. -/
def Publishing.reference : Publishing UInt64 (UInt64 × UInt32 × Bytes) where
  prepareMessage sequence nonce payload := do
    let next ← checkedU64 (sequence.toNat + 1)
    return (next, sequence, nonce, payload)
  payload ticket := ticket.2.2

theorem Publishing.reference_lawful : reference.Lawful where
  payload h := by
    simp only [reference, Except.bind_eq_ok, Except.pure_eq_ok, Prod.mk.injEq] at h
    obtain ⟨_, -, -, rfl⟩ := h
    rfl

/-- A message of another chain that the guardians have signed. -/
structure Vaa where
  emitterChain : UInt16
  emitterAddress : Bytes32
  payload : Bytes

namespace Mode

def serialize : Mode → Bytes
  | .locking => [0]
  | .burning => [1]

variable (W : Wormhole)

def takeBytes : Reader Abort Mode := do
  match ← W.takeU8 with
  | 0 => return .locking
  | 1 => return .burning
  | _ => throw (.error "Invalid mode byte in serialized state.")

def parse (buf : Bytes) : Except Abort Mode := Sui.parse W (takeBytes W) buf

end Mode

namespace WormholeTransceiver

/-- The prefix of the messages. -/
def PREFIX : Bytes4 := .ofWord 0x9945FF10

/-- The prefix of the announcements of a transceiver. -/
def INFO_PREFIX : Bytes := [0x9C, 0x23, 0xBD, 0x3B]

/-- What a transceiver tells the accountant. -/
structure WormholeTransceiverInfo where
  managerAddress : Bytes32
  managerMode : Mode
  tokenAddress : Bytes32
  tokenDecimals : UInt8
deriving DecidableEq

namespace WormholeTransceiverInfo

variable (W : Wormhole)

def toBytes (self : WormholeTransceiverInfo) : Bytes :=
  INFO_PREFIX ++ W.externalAddressToBytes self.managerAddress ++ self.managerMode.serialize ++
    W.externalAddressToBytes self.tokenAddress ++ W.pushU8 self.tokenDecimals

def takeBytes : Reader Abort WormholeTransceiverInfo := do
  let nttPrefix ← Bytes4.take W
  Reader.throwUnless (nttPrefix.data = INFO_PREFIX) (.error "incorrect prefix")
  let managerAddress ← W.takeExternalAddress
  let mode ← liftM (Mode.parse W (← W.takeBytes 1))
  let tokenAddress ← W.takeExternalAddress
  let tokenDecimals ← W.takeU8
  return { managerAddress, managerMode := mode, tokenAddress, tokenDecimals }

def parse (buf : Bytes) : Except Abort WormholeTransceiverInfo := Sui.parse W (takeBytes W) buf

end WormholeTransceiverInfo

/-- The state of the transceiver of the manager with a type `ManagerAuth`. -/
structure State (managerAuth : TypeName) (κ : Type) where
  peers : UInt16 → Option Bytes32
  emitterCap : κ

variable {τ κ μ : Type} (A : AddressText) (W : Wormhole) (B : Publishing κ μ) (d : Deployment)
  {managerAuth : TypeName} (state : State managerAuth κ)

/-- Publishes a message of the manager. -/
def releaseOutbound (message : OutboundMessage) : Except Abort (State managerAuth κ × μ) := do
  let (nttManagerMessage, sourceNttManager, recipientNttManager) ←
    message.unwrapOutboundMessage A d.transceiverAuth
  let transceiverMessage : TransceiverMessage Bytes :=
    ⟨⟨sourceNttManager, recipientNttManager, nttManagerMessage⟩, []⟩
  let transceiverMessageEncoded ← transceiverMessage.toBytes W PREFIX
  let (emitterCap, messageTicket) ←
    B.prepareMessage state.emitterCap 0 transceiverMessageEncoded
  return ({ state with emitterCap }, messageTicket)

/-- Takes a message from the peer of its chain. -/
def validateMessage (vaa : Vaa) : Except Abort ValidatedTransceiverMessage := do
  match state.peers vaa.emitterChain with
  | some peer => assert (peer = vaa.emitterAddress) .assertion
  | none => .error .external
  let transceiverMessage ← TransceiverMessage.parse W PREFIX vaa.payload
  ValidatedTransceiverMessage.new A d.transceiverAuth vaa.emitterChain
    transceiverMessage.messageData

/-- Tells the accountant who the manager is: the address of the package of its `ManagerAuth`. -/
def broadcastId (coinMeta : CoinMetadata) (managerState : Sui.State τ) :
    Except Abort (State managerAuth κ × μ) := do
  match ← ContractAuth.getAuthAddress A managerAuth "ManagerAuth".toList with
  | some managerAddress => do
      let info : WormholeTransceiverInfo :=
        ⟨managerAddress, managerState.mode, coinMeta.id, coinMeta.decimals⟩
      let (emitterCap, messageTicket) ← B.prepareMessage state.emitterCap 0 (info.toBytes W)
      return ({ state with emitterCap }, messageTicket)
  | none => .error .external

end WormholeTransceiver

/-! ### The state object -/

namespace State

variable {τ : Type} [DecidableEq τ] {F : Framework} {W : Wormhole} {s s' : State τ} {now : UInt64}

theorem id_of_redeem {t : τ} {validatedMessage : ValidatedTransceiverMessage} {decimals : UInt8}
    (h : s.redeem W now t validatedMessage decimals = .ok s') : s'.id = s.id := by
  obtain ⟨key, s₁, -, hvote, hs'⟩ := redeem_spec h
  obtain ⟨_, _, -, -, rfl⟩ := vote_spec hvote
  rcases hs' with rfl | ⟨s₂, _, _, _, -, -, -, -, hconsume, rfl⟩
  · rfl
  · have hid := congrArg State.id (consumeInbound_spec hconsume)
    exact hid

omit [DecidableEq τ] in
theorem id_of_setPeer {chain : UInt16} {address : Bytes32} {tokenDecimals : UInt8}
    {inboundLimit : UInt64} (h : s.setPeer now chain address tokenDecimals inboundLimit = .ok s') :
    s'.id = s.id := by
  rw [setPeer] at h
  split at h
  · simp only [Except.bind_eq_ok, Except.pure_eq_ok] at h
    obtain ⟨_, -, rfl⟩ := h
    rfl
  · obtain rfl := Except.ok.inj h
    rfl

/-- No call to the manager changes the address of its object. -/
theorem id_of_apply {op : Op τ} {paid : Option (Bytes32 × UInt64)}
    (h : s.apply F W now op = .ok (s', paid)) : s'.id = s.id := by
  cases op with
  | redeem t validatedMessage decimals => exact id_of_redeem (Except.return_eq_ok.mp h).1
  | release fromChainId message decimals =>
      obtain ⟨_, hrelease, -⟩ := apply_release_eq_ok.mp h
      obtain ⟨_, _, -, -, -, -, -, -, hframe⟩ := release_cases hrelease
      have hid := congrArg State.id hframe
      exact hid
  | registerTransceiver t stateObjectId =>
      have h := (Except.return_eq_ok.mp h).1
      simp only [registerTransceiver, Except.bind_eq_ok, Except.pure_eq_ok] at h
      obtain ⟨_, -, _, -, rfl⟩ := h
      rfl
  | enableTransceiver id =>
      have h := (Except.return_eq_ok.mp h).1
      simp only [enableTransceiver, Except.bind_eq_ok, Except.pure_eq_ok] at h
      obtain ⟨_, -, _, -, rfl⟩ := h
      rfl
  | disableTransceiver id =>
      have h := (Except.return_eq_ok.mp h).1
      simp only [disableTransceiver, Except.bind_eq_ok, Except.pure_eq_ok] at h
      obtain ⟨_, -, _, -, rfl⟩ := h
      rfl
  | setThreshold threshold =>
      have h := (Except.return_eq_ok.mp h).1
      simp only [setThreshold, Except.bind_eq_ok, Except.pure_eq_ok] at h
      obtain ⟨_, -, _, -, rfl⟩ := h
      rfl
  | setPeer chain address tokenDecimals inboundLimit =>
      exact id_of_setPeer (Except.return_eq_ok.mp h).1
  | pause =>
      obtain ⟨rfl, -⟩ := Prod.mk.inj (Except.ok.inj h)
      rfl
  | unpause =>
      obtain ⟨rfl, -⟩ := Prod.mk.inj (Except.ok.inj h)
      rfl

end State

namespace System

variable {τ : Type} [DecidableEq τ] {C : Coins} {W : Wormhole} {coinMeta : CoinMetadata}
  {s s' : System τ} {now : UInt64}

/-- No call changes the address of the state object. -/
theorem id_of_call {call : Call τ} {a : Answer τ}
    (h : s.apply C W coinMeta now call = .ok (s', a)) : s'.id = s.id := by
  cases call with
  | manager op =>
      simp only [apply, Except.bind_eq_ok, Except.pure_eq_ok, Prod.exists, Prod.mk.injEq] at h
      obtain ⟨state, paid, hop, rfl, -⟩ := h
      exact State.id_of_apply hop
  | prepareTransfer coins recipientChain recipient payload shouldQueue =>
      simp only [apply, Except.bind_eq_ok, Except.pure_eq_ok, Prod.exists, Prod.mk.injEq] at h
      obtain ⟨_, _, -, rfl, -⟩ := h
      rfl
  | transfer ticket sender =>
      simp only [apply, Except.bind_eq_ok, Except.pure_eq_ok, Prod.exists, Prod.mk.injEq] at h
      obtain ⟨_, -, s₁, key, htransfer, rfl, -⟩ := h
      obtain ⟨_, -, -, -, -, hframe⟩ := transfer_spec htransfer
      have hid := congrArg (fun s => s.id) hframe
      exact hid
  | createTransceiverMessage t messageId =>
      simp only [apply, Except.bind_eq_ok, Except.pure_eq_ok, Prod.exists, Prod.mk.injEq] at h
      obtain ⟨s₁, message, hcreate, rfl, -⟩ := h
      obtain ⟨_, _, _, -, -, -, -, -, -, rfl⟩ := createTransceiverMessage_spec hcreate
      rfl
  | setOutboundRateLimit limit =>
      have h := (Except.return_eq_ok.mp h).1
      simp only [setOutboundRateLimit, Except.bind_eq_ok, Except.pure_eq_ok] at h
      obtain ⟨_, -, rfl⟩ := h
      rfl
  | takeTreasuryCap =>
      have h := (Except.return_eq_ok.mp h).1
      rw [takeTreasuryCap] at h
      split at h
      · obtain rfl := Except.ok.inj h
        rfl
      · cases h
  | returnTreasuryCap supply =>
      have h := (Except.return_eq_ok.mp h).1
      rw [returnTreasuryCap] at h
      split at h
      · cases h
      · obtain rfl := Except.ok.inj h
        rfl
  | commitUpgrade =>
      have h := (Except.return_eq_ok.mp h).1
      simp only [commitUpgrade, Except.bind_eq_ok, Except.pure_eq_ok] at h
      obtain ⟨_, -, rfl⟩ := h
      rfl

/-- **The state object.** Its address stays what it was, whatever is called. -/
theorem id_run (s₀ : System τ) (calls : List (UInt64 × Call τ)) :
    ((System.machine C W coinMeta).run s₀ calls).id = s₀.id := by
  have hnext : ∀ (s : System τ) o, s.id = s₀.id → True →
      ((System.machine C W coinMeta).next s o).id = s₀.id := by
    intro s o hs _
    obtain ⟨e, hsame, -⟩ | ⟨a, happly, -⟩ := System.run_concat C W coinMeta s [] o
    · exact (congrArg (fun s => s.id) hsame).trans hs
    · exact (id_of_call happly).trans hs
  exact Transducer.run_inv hnext rfl Transducer.along_true

end System

/-! ### Announcements -/

namespace WormholeTransceiver

section

variable {W : Wormhole} (hW : W.Lawful)
include hW

theorem parse_serialize (mode : Mode) : Mode.parse W mode.serialize = .ok mode := by
  have hbyte (x : UInt8) (rest : Bytes) : W.takeU8.run (x :: rest) = .ok (x, rest) :=
    (hW.takeU8 _ _ _).mpr (by simp [packUint8, beBytes])
  rw [Mode.parse, parse_eq_ok hW, Mode.takeBytes, run_bind_eq_ok]
  cases mode with
  | locking => exact ⟨0, [], hbyte 0 [], run_pure_eq_ok.mpr ⟨rfl, rfl⟩⟩
  | burning => exact ⟨1, [], hbyte 1 [], run_pure_eq_ok.mpr ⟨rfl, rfl⟩⟩

/-- **Round trip.** -/
theorem parse_toBytes (info : WormholeTransceiverInfo) :
    WormholeTransceiverInfo.parse W (info.toBytes W) = .ok info := by
  have hlength : info.managerMode.serialize.length = 1 := by cases info.managerMode <;> rfl
  rw [WormholeTransceiverInfo.parse, parse_eq_ok hW]
  simp only [WormholeTransceiverInfo.takeBytes, WormholeTransceiverInfo.toBytes, run_bind_eq_ok,
    run_pure_eq_ok, run_throwUnless_eq_ok, run_liftM_eq_ok, Bytes4.takes hW _ _ _,
    hW.takeExternalAddress _ _ _, hW.takeU8 _ _ _, hW.takeBytes, hW.externalAddressToBytes,
    hW.pushU8, List.append_assoc]
  refine ⟨⟨INFO_PREFIX, rfl⟩, _, rfl, (), _, ⟨rfl, rfl⟩, _, _, rfl, _, _, ⟨hlength, rfl⟩, _, _,
    ⟨parse_serialize hW _, rfl⟩, _, _, rfl, info.tokenDecimals, [], ?_, rfl, rfl⟩
  rw [List.append_nil]

end

variable {τ κ μ : Type} {A : AddressText} {W : Wormhole} {B : Publishing κ μ} {d : Deployment}

/-- What is published is the message that was taken out, under its source. -/
theorem releaseOutbound_spec (hA : A.Lawful) (hW : W.Lawful) (hB : B.Lawful)
    {managerAuth : TypeName} {st st' : State managerAuth κ} {message : OutboundMessage} {ticket : μ}
    (h : releaseOutbound A W B d st message = .ok (st', ticket)) :
    TransceiverMessage.parse W PREFIX (B.payload ticket) =
      .ok ⟨⟨message.sourceNttManager, message.recipientNttManager, message.message⟩, []⟩ := by
  simp only [releaseOutbound, message.unwrapOutboundMessage_eq hA d, Except.bind_eq_ok,
    Except.pure_eq_ok, Except.ok.injEq, Prod.exists, Prod.mk.injEq] at h
  obtain ⟨_, _, _, ⟨rfl, rfl, rfl⟩, encoded, hencoded, _, _, hprepare, -, rfl⟩ := h
  rw [hB.payload hprepare]
  exact TransceiverMessage.parse_of_toBytes hW hencoded

/-- What is validated is the message of the peer. -/
theorem validateMessage_spec (hA : A.Lawful) {managerAuth : TypeName} {st : State managerAuth κ}
    {vaa : Vaa} {validatedMessage : ValidatedTransceiverMessage}
    (h : validateMessage A W d st vaa = .ok validatedMessage) :
    st.peers vaa.emitterChain = some vaa.emitterAddress ∧ ∃ m,
      TransceiverMessage.parse W PREFIX vaa.payload = .ok m ∧
        validatedMessage = ⟨vaa.emitterChain, m.messageData⟩ := by
  rw [validateMessage] at h
  split at h
  · rename_i peer hpeer
    simp only [Except.bind_eq_ok, assert_eq_ok, ValidatedTransceiverMessage.new,
      d.assertAuthType_transceiverAuth hA, Except.pure_eq_ok] at h
    obtain ⟨_, rfl, m, hm, _, -, rfl⟩ := h
    exact ⟨hpeer, m, hm, rfl⟩
  · cases h

/-- What is announced is the address of the package of the type. -/
theorem broadcastId_spec (hA : A.Lawful) (hW : W.Lawful) (hB : B.Lawful) {managerAuth : TypeName}
    {st st' : State managerAuth κ} {coinMeta : CoinMetadata} {s : Sui.State τ} {ticket : μ}
    (h : broadcastId A W B st coinMeta s = .ok (st', ticket)) :
    WormholeTransceiverInfo.parse W (B.payload ticket) =
      .ok ⟨managerAuth.address, s.mode, coinMeta.id, coinMeta.decimals⟩ := by
  rw [broadcastId, ContractAuth.getAuthAddress_eq hA] at h
  by_cases hname : managerAuth.name = "ManagerAuth".toList
  · rw [if_pos hname] at h
    obtain ⟨_, hopt, h⟩ := Except.bind_eq_ok.mp h
    obtain rfl := Except.ok.inj hopt
    simp only [Except.bind_eq_ok, Except.pure_eq_ok, Prod.exists, Prod.mk.injEq] at h
    obtain ⟨_, _, hprepare, -, rfl⟩ := h
    rw [hB.payload hprepare]
    exact parse_toBytes hW _
  · rw [if_neg hname] at h
    cases h

variable [DecidableEq τ]

/-- The manager is known by an address: it signs what is published for it with the address, and
takes the messages that are for the address and no others. -/
structure Identified (A : AddressText) (W : Wormhole) (B : Publishing κ μ) (d : Deployment)
    (s : System τ) (address : Bytes32) : Prop where
  signed : ∀ {now t messageId s' message} {st st' : State d.managerAuth κ} {ticket},
    s.createTransceiverMessage W now t messageId = .ok (s', message) →
      releaseOutbound A W B d st message = .ok (st', ticket) →
        ∃ m, TransceiverMessage.parse W PREFIX (B.payload ticket) = .ok m ∧
          m.messageData.sourceNttManagerAddress = address
  accepted : ∀ validatedMessage : ValidatedTransceiverMessage,
    (∃ r, validatedMessage.destructAs A d.managerAuth d.managerState s.id = .ok r) ↔
      validatedMessage.message.recipientNttManagerAddress = address
  redeemed : ∀ {now t validatedMessage decimals} {state : Sui.State τ},
    s.redeem W now t validatedMessage decimals = .ok state →
      validatedMessage.message.recipientNttManagerAddress = address
  delivered : ∀ {now t vaa validatedMessage decimals} {st : State d.managerAuth κ}
    {state : Sui.State τ}, validateMessage A W d st vaa = .ok validatedMessage →
      s.redeem W now t validatedMessage decimals = .ok state →
        ∃ m, TransceiverMessage.parse W PREFIX vaa.payload = .ok m ∧
          m.messageData.recipientNttManagerAddress = address

theorem destructAs_isOk_iff (hA : A.Lawful) (validatedMessage : ValidatedTransceiverMessage)
    (state : Bytes32) :
    (∃ r, validatedMessage.destructAs A d.managerAuth d.managerState state = .ok r) ↔
      validatedMessage.message.recipientNttManagerAddress = state := by
  rw [validatedMessage.destructAs_eq hA d]
  simp only [ValidatedTransceiverMessage.destructRecipientOnly, Except.bind_eq_ok, assert_eq_ok,
    Except.pure_eq_ok]
  constructor
  · rintro ⟨_, _, hrecipient, -⟩
    exact hrecipient.symm
  · intro hrecipient
    exact ⟨_, (), hrecipient.symm, rfl⟩

/-- A manager is known by its state object, and by nothing else. -/
theorem identified_iff (hA : A.Lawful) (hW : W.Lawful) (hB : B.Lawful) {s : System τ}
    {address : Bytes32} : Identified A W B d s address ↔ address = s.id := by
  constructor
  · intro h
    -- a message for the state object is accepted, whatever else it says
    have hown := (destructAs_isOk_iff (d := d) hA ⟨0, 0, s.id, 0, 0, []⟩ s.id).mpr rfl
    exact ((h.accepted _).mp hown).symm
  · rintro rfl
    refine ⟨fun hcreate hrelease => ?_,
      fun validatedMessage => destructAs_isOk_iff hA validatedMessage s.id, fun hredeem => ?_,
      fun hvalidate hredeem => ?_⟩
    · have hnew := System.createTransceiverMessage_new hA d hcreate
      rw [OutboundMessage.new_eq hA] at hnew
      refine ⟨_, releaseOutbound_spec hA hW hB hrelease, ?_⟩
      exact (congrArg OutboundMessage.sourceNttManager (Except.ok.inj hnew)).symm
    · obtain ⟨_, _, hredeems, -⟩ := State.redeem_spec hredeem
      exact hredeems.recipient
    · obtain ⟨-, m, hm, rfl⟩ := validateMessage_spec hA hvalidate
      obtain ⟨_, _, hredeems, -⟩ := State.redeem_spec hredeem
      exact ⟨m, hm, hredeems.recipient⟩

/-- **What is announced.** Whatever was called before, the address that a transceiver announces is
the one that its manager signs with and answers to if and only if the package of the manager is at
the address of the state object. -/
theorem announced_iff (hA : A.Lawful) (hW : W.Lawful) (hB : B.Lawful) (C : Coins)
    (coinMeta : CoinMetadata) (s₀ : System τ) (calls : List (UInt64 × Call τ))
    {st st' : State d.managerAuth κ} {ticket : μ}
    (h : broadcastId A W B st coinMeta ((System.machine C W coinMeta).run s₀ calls).toState =
      .ok (st', ticket)) :
    ∃ info, WormholeTransceiverInfo.parse W (B.payload ticket) = .ok info ∧
      (Identified A W B d ((System.machine C W coinMeta).run s₀ calls) info.managerAddress ↔
        d.ntt = s₀.id) := by
  refine ⟨_, broadcastId_spec hA hW hB h, ?_⟩
  rw [identified_iff hA hW hB, System.id_run]
  rfl

/-- A deployment with its packages at 5 and 6. -/
def sampleDeployment : Deployment := ⟨5, 6, "2::sui::SUI".toList⟩

/-- A transceiver of it, with a peer. -/
def sampleTransceiver : State sampleDeployment.managerAuth UInt64 :=
  ⟨fun chain => if chain = 2 then some 42 else none, 0⟩

/-- A manager whose state object is at 17, after a transfer. -/
def sampleManager : System Bool :=
  (System.machine .reference .reference ⟨0x70, 9⟩).run System.fresh (System.sampleCalls.take 4)

theorem sample_announced_iff : ∃ st' ticket info,
    broadcastId .reference .reference .reference sampleTransceiver ⟨0x70, 9⟩
      sampleManager.toState = .ok (st', ticket) ∧
    WormholeTransceiverInfo.parse .reference (Publishing.reference.payload ticket) = .ok info ∧
    (Identified .reference .reference .reference sampleDeployment sampleManager
      info.managerAddress ↔ (5 : Bytes32) = 17) := by
  have hbroadcast : ∃ st' ticket, broadcastId .reference .reference .reference sampleTransceiver
      ⟨0x70, 9⟩ sampleManager.toState = .ok (st', ticket) := ⟨_, _, rfl⟩
  obtain ⟨st', ticket, hbroadcast⟩ := hbroadcast
  obtain ⟨info, hinfo, hiff⟩ := announced_iff AddressText.reference_lawful Wormhole.reference_lawful
    Publishing.reference_lawful .reference ⟨0x70, 9⟩ System.fresh (System.sampleCalls.take 4)
    hbroadcast
  exact ⟨st', ticket, info, hbroadcast, hinfo, hiff⟩

/-- The package is announced, the message of the transfer is signed by the state object, and a
message for the package is not taken. -/
theorem package_announced :
    (do let (_, ticket) ← broadcastId .reference .reference .reference sampleTransceiver ⟨0x70, 9⟩
          sampleManager.toState
        let info ← WormholeTransceiverInfo.parse .reference (Publishing.reference.payload ticket)
        return info.managerAddress) = (.ok 5 : Except Abort Bytes32) ∧
    (do let (_, message) ← sampleManager.createTransceiverMessage .reference 3 false 1
        let (_, ticket) ← releaseOutbound .reference .reference .reference sampleDeployment
          sampleTransceiver message
        let m ← TransceiverMessage.parse .reference PREFIX (Publishing.reference.payload ticket)
        return m.messageData.sourceNttManagerAddress) = (.ok 17 : Except Abort Bytes32) ∧
    (do let _ ← sampleManager.redeem .reference 3 false ⟨2, 42, 5, 0, 0, []⟩ 9) =
      (.error (.error "Invalid recipient manager.") : Except Abort Unit) := by
  refine ⟨?_, ?_, ?_⟩
  all_goals decide +kernel

end WormholeTransceiver

end Ntt.Sui
