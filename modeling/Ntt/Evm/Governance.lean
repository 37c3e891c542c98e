import Ntt.Evm.WireFormat
import Ntt.Evm.WormholeTransceiver
import Ntt.Lib.Machine

/-!
# The Governance Contract

`Governance` of the contracts, as programs over its state. A governance message names an action,
the chain and the contract that have to carry it out, and a call; it arrives as the payload of a
VAA of the governance emitter of core. The contract verifies the VAA, marks its hash as consumed and
makes the call. A call that fails fails the whole.

The format of the messages is strict: the parser accepts a byte string exactly when it is the
encoding of what it returns (`parseGeneralPurposeGovernanceMessage_eq_ok`), and no encoding is a
part at the front of another (`encode_prefix_free`).
-/

namespace Ntt

open Reentrant BigEndian

/-- The reasons for which a call of the contract reverts; `library` is what the byte-parsing
library raises. -/
inductive GovernanceError where
  | payloadTooLong (size : ℕ)
  | invalidModule (moduleId : Bytes32)
  | invalidAction (action : UInt8)
  | invalidGovernanceChainId (chainId : UInt16)
  | invalidGovernanceContract (contractAddress : Bytes32)
  | governanceActionAlreadyConsumed (digest : Bytes32)
  | notRecipientChain (chainId : UInt16)
  | notRecipientContract (contractAddress : Address)
  /-- The reason that core gives for a VAA that does not verify. -/
  | invalidVM (reason : String)
  /-- The data that a failed call returned. -/
  | callFailed (returnData : Bytes)
  | nonPayable
  | library (e : Error)
deriving DecidableEq, Repr

/-! ### Messages -/

/-- "GeneralPurposeGovernance", left padded. -/
def MODULE : Bytes32 := 0x000000000000000047656E6572616C507572706F7365476F7665726E616E6365

/-- The known governance actions. -/
inductive GovernanceAction where
  | UNDEFINED
  | EVM_CALL
  | SOLANA_CALL
deriving DecidableEq, Repr

/-- The number of an action. -/
def GovernanceAction.toUInt8 : GovernanceAction → UInt8
  | .UNDEFINED => 0
  | .EVM_CALL => 1
  | .SOLANA_CALL => 2

/-- A message to call a governed contract. -/
structure GeneralPurposeGovernanceMessage where
  action : UInt8
  chain : UInt16
  governanceContract : Address
  governedContract : Address
  callData : Bytes
deriving DecidableEq, Repr

/-- A field of 20 bytes, packed. -/
def packAddress (x : Address) : Bytes := beBytes 20 x.toNat

/-- Packs a message; the call data has to have a length of 16 bits. -/
def encodeGeneralPurposeGovernanceMessage (m : GeneralPurposeGovernanceMessage) :
    Except GovernanceError Bytes :=
  if m.callData.length > 65535 then .error (.payloadTooLong m.callData.length)
  else
    .ok (packBytes32 MODULE ++ packUint8 m.action ++ packUint16 m.chain ++
      packAddress m.governanceContract ++ packAddress m.governedContract ++
      packUint16 (UInt16.ofNat m.callData.length) ++ m.callData)

/-- The byte-parsing library, with its read of an address. -/
structure AddressParsing extends BytesParsing where
  asAddressUnchecked : Bytes → ℕ → Address × ℕ

/-- What the contract relies on. -/
structure AddressParsing.Advancing (P : AddressParsing) : Prop
    extends P.toBytesParsing.Advancing where
  address : ∀ b offset, offset + 20 ≤ b.length →
    P.asAddressUnchecked b offset = (BitVec.ofNat 160 (numberAt b offset 20), offset + 20)
  address_next : ∀ b offset, (P.asAddressUnchecked b offset).2 = offset + 20

/-- An implementation that reads zeros past the end. -/
def AddressParsing.reference : AddressParsing where
  toBytesParsing := .reference
  asAddressUnchecked b offset := (BitVec.ofNat 160 (numberAt b offset 20), offset + 20)

theorem AddressParsing.reference_advancing : AddressParsing.reference.Advancing where
  toAdvancing := BytesParsing.reference_advancing
  address _ _ _ := rfl
  address_next _ _ := rfl

/-- Reads a message, and checks that nothing is left. -/
def parseGeneralPurposeGovernanceMessage (P : AddressParsing) (encoded : Bytes) :
    Except GovernanceError GeneralPurposeGovernanceMessage :=
  let (moduleId, offset) := P.asBytes32Unchecked encoded 0
  if moduleId ≠ MODULE then .error (.invalidModule moduleId)
  else
    let (action, offset) := P.asUint8Unchecked encoded offset
    let (chain, offset) := P.asUint16Unchecked encoded offset
    let (governanceContract, offset) := P.asAddressUnchecked encoded offset
    let (governedContract, offset) := P.asAddressUnchecked encoded offset
    let (callDataLength, offset) := P.asUint16Unchecked encoded offset
    let (callData, offset) := P.sliceUnchecked encoded offset callDataLength.toNat
    match P.checkLength encoded offset with
    | .ok () => .ok { action, chain, governanceContract, governedContract, callData }
    | .error e => .error (.library e)

/-! ### The format is strict -/

section

variable {P : AddressParsing} (hP : P.Advancing) {b b' : Bytes} {o o' : ℕ}
  {m m' : GeneralPurposeGovernanceMessage}

/-- What is encoded, in order. -/
theorem encodeGeneralPurposeGovernanceMessage_eq_ok :
    encodeGeneralPurposeGovernanceMessage m = .ok b ↔ m.callData.length ≤ 65535 ∧
      packBytes32 MODULE ++ packUint8 m.action ++ packUint16 m.chain ++
        packAddress m.governanceContract ++ packAddress m.governedContract ++
        packUint16 (UInt16.ofNat m.callData.length) ++ m.callData = b := by
  rw [encodeGeneralPurposeGovernanceMessage]
  split
  · rename_i h
    exact ⟨fun h => (by cases h), fun h' => absurd h'.1 (by omega)⟩
  · rename_i h
    rw [Except.ok.injEq]
    exact ⟨fun hb => ⟨by omega, hb⟩, fun hb => hb.2⟩

theorem length_encode (h : encodeGeneralPurposeGovernanceMessage m = .ok b) :
    b.length = 77 + m.callData.length ∧ m.callData.length ≤ 65535 := by
  obtain ⟨hlen, hb⟩ := encodeGeneralPurposeGovernanceMessage_eq_ok.mp h
  refine ⟨?_, hlen⟩
  simp only [← hb, packBytes32, packUint8, packUint16, packAddress, List.length_append,
    length_beBytes]

include hP

theorem AddressParsing.Advancing.window_address {x : Address}
    (h : P.asAddressUnchecked b o = (x, o')) : Window b o o' (packAddress x) := by
  refine .number (by rw [← hP.address_next b o, h]) fun hle => ?_
  rw [hP.address b o hle] at h
  obtain ⟨rfl, -⟩ := Prod.mk.inj h
  exact BitVec.toNat_ofNat _ _

theorem StandsAt.address {x : Address} (h : StandsAt b o (packAddress x)) :
    P.asAddressUnchecked b o = (x, o + 20) := by
  have hx : x.toNat < 256 ^ 20 := by have := x.isLt; norm_num at this ⊢; exact this
  rw [hP.address b o (h.number_le (by decide)), h.number hx, BitVec.ofNat_toNat,
    BitVec.setWidth_eq]

/-- **The parser accepts exactly the encodings.** -/
theorem parseGeneralPurposeGovernanceMessage_eq_ok :
    parseGeneralPurposeGovernanceMessage P b = .ok m ↔
      encodeGeneralPurposeGovernanceMessage m = .ok b := by
  rcases hid : P.asBytes32Unchecked b 0 with ⟨moduleId, o₁⟩
  rcases haction : P.asUint8Unchecked b o₁ with ⟨action, o₂⟩
  rcases hchain : P.asUint16Unchecked b o₂ with ⟨chain, o₃⟩
  rcases hgovernance : P.asAddressUnchecked b o₃ with ⟨governanceContract, o₄⟩
  rcases hgoverned : P.asAddressUnchecked b o₄ with ⟨governedContract, o₅⟩
  rcases hn : P.asUint16Unchecked b o₅ with ⟨n, o₆⟩
  rcases hdata : P.sliceUnchecked b o₆ n.toNat with ⟨callData, o₇⟩
  constructor
  · intro h
    simp only [parseGeneralPurposeGovernanceMessage, hid, haction, hchain, hgovernance, hgoverned,
      hn, hdata] at h
    split at h
    · cases h
    rename_i hmodule
    split at h
    · rename_i hcheck
      obtain rfl := Except.ok.inj h
      obtain ⟨hslice, hlen⟩ := hP.window_slice hdata
      have hend : o₇ = b.length := (hP.checkLength b o₇).mp hcheck
      have hwhole := whole_of_checkLength hP.toAdvancing
        (((((((hP.window_bytes32 hid).append (hP.window_uint8 haction)).append
          (hP.window_uint16 hchain)).append (hP.window_address hgovernance)).append
          (hP.window_address hgoverned)).append (hP.window_uint16 hn)).append hslice) hcheck
      have hn' : callData.length = n.toNat := hlen hend.le
      have hlt : n.toNat < 65536 := n.toNat_lt
      have hbound : callData.length ≤ 65535 := by omega
      refine encodeGeneralPurposeGovernanceMessage_eq_ok.mpr ⟨hbound, ?_⟩
      rw [hn', UInt16.ofNat_toNat, ← not_not.mp hmodule]
      exact hwhole.symm
    · cases h
  · intro h
    obtain ⟨hlen, hb⟩ := encodeGeneralPurposeGovernanceMessage_eq_ok.mp h
    have h0 := StandsAt.self b
    nth_rewrite 2 [← hb] at h0
    have hblen := (length_encode h).1
    have hid' := StandsAt.bytes32 hP.toLawful h0.left.left.left.left.left.left
    have haction' := StandsAt.uint8 hP.toLawful h0.left.left.left.left.left.right
    have hchain' := StandsAt.uint16 hP.toLawful h0.left.left.left.left.right
    have hgovernance' := StandsAt.address hP h0.left.left.left.right
    have hgoverned' := StandsAt.address hP h0.left.left.right
    have hn' := StandsAt.uint16 hP.toLawful h0.left.right
    have hdata' := StandsAt.slice hP.toLawful h0.right
    simp only [packBytes32, packUint8, packUint16, packAddress, List.length_append, length_beBytes,
      Nat.zero_add, Nat.reduceAdd] at haction' hchain' hgovernance' hgoverned' hn' hdata'
    have hdataLength : (UInt16.ofNat m.callData.length).toNat = m.callData.length := by
      rw [UInt16.toNat_ofNat', Nat.mod_eq_of_lt (by omega)]
    have hcheck : P.checkLength b (77 + m.callData.length) = .ok () :=
      (hP.checkLength b _).mpr hblen.symm
    simp only [parseGeneralPurposeGovernanceMessage, hid', haction', hchain', hgovernance',
      hgoverned', hn', hdataLength, hdata' hblen.ge, hcheck, Nat.zero_add, ne_eq,
      not_true_eq_false, if_false]

omit hP in
/-- Where an encoding stands at the front, the length of its call data can be read. -/
theorem standsAt_callDataLength (h : encodeGeneralPurposeGovernanceMessage m = .ok b)
    (hstart : b <+: b') :
    BytesParsing.reference.asUint16Unchecked b' 75 = (UInt16.ofNat m.callData.length, 77) := by
  obtain ⟨-, hb⟩ := encodeGeneralPurposeGovernanceMessage_eq_ok.mp h
  have h0 : StandsAt b' 0 b := hstart
  rw [← hb] at h0
  have hn := StandsAt.uint16 BytesParsing.reference_lawful h0.left.right
  simpa only [packBytes32, packUint8, packUint16, packAddress, List.length_append, length_beBytes,
    Nat.zero_add, Nat.reduceAdd] using hn

omit hP in
/-- **No encoding is a part at the front of another**: the length of the call data stands at the
same place in both. -/
theorem encode_prefix_free (h : encodeGeneralPurposeGovernanceMessage m = .ok b)
    (h' : encodeGeneralPurposeGovernanceMessage m' = .ok b') (hstart : b <+: b') : b = b' := by
  obtain ⟨hb, hlen⟩ := length_encode h
  obtain ⟨hb', hlen'⟩ := length_encode h'
  have hn := standsAt_callDataLength h hstart
  rw [standsAt_callDataLength h' List.prefix_rfl] at hn
  have hsame := congrArg UInt16.toNat (Prod.mk.inj hn).1
  rw [UInt16.toNat_ofNat', UInt16.toNat_ofNat', Nat.mod_eq_of_lt (by omega),
    Nat.mod_eq_of_lt (by omega)] at hsame
  exact hstart.eq_of_length (by omega)

/-- A message that is cut short, or followed by anything, is rejected. -/
theorem parse_prefix_error (h : encodeGeneralPurposeGovernanceMessage m = .ok b)
    (hstart : b <+: b' ∨ b' <+: b) (hne : b ≠ b') :
    parseGeneralPurposeGovernanceMessage P b' ≠ .ok m' := by
  intro hparse
  have h' := (parseGeneralPurposeGovernanceMessage_eq_ok hP).mp hparse
  rcases hstart with hstart | hstart
  · exact hne (encode_prefix_free h h' hstart)
  · exact hne (encode_prefix_free h' h hstart).symm

end

/-! ### State and calls -/

/-- The calls of the contract: to core, and the governance calls. -/
inductive GovernanceExt where
  | parseAndVerifyVM (encodedVM : Bytes)
  | governanceChainId
  | governanceContract
  | chainId
  | call (governedContract : Address) (callData : Bytes)
deriving DecidableEq, Repr

/-- The replies to them; a low-level call returns whether it succeeded, and data. -/
def GovernanceExt.Reply : GovernanceExt → Type
  | .parseAndVerifyVM _ => VM × Bool × String
  | .governanceChainId => UInt16
  | .governanceContract => Bytes32
  | .chainId => UInt16
  | .call .. => Bool × Bytes

/-- The external calls of the contract. -/
abbrev governanceInterface : Interface := ⟨GovernanceExt, GovernanceExt.Reply⟩

/-- A deployed contract. -/
structure Governance where
  /-- The address of the contract. -/
  this : Address
  bytes : AddressParsing

namespace Governance

/-- A governance call that was made: for which VAA, with what message. -/
structure Execution where
  vm : VM
  message : GeneralPurposeGovernanceMessage
deriving DecidableEq, Repr

/-- The state of the contract: its storage, and the calls that it made, newest first. A call that
is undone is not among them. -/
structure State where
  consumedGovernanceActions : Bytes32 → Bool
  executed : List Execution

/-- Marks a hash as consumed. -/
def State.consume (s : State) (digest : Bytes32) : State :=
  { s with consumedGovernanceActions := Function.update s.consumedGovernanceActions digest true }

/-- Makes a governance call. -/
def State.execute (s : State) (e : Execution) : State := { s with executed := e :: s.executed }

/-- A program of the contract. -/
abbrev GovernanceProg (α : Type) : Type := Prog governanceInterface State GovernanceError α

/-- Core parses and verifies a VAA: what it is, whether it is valid, and why not. -/
def parseAndVerifyVM (encodedVM : Bytes) : GovernanceProg (VM × Bool × String) :=
  call (X := governanceInterface) (.parseAndVerifyVM encodedVM)

/-- The chain of the governance emitter, from core. -/
def governanceChainId : GovernanceProg UInt16 :=
  call (X := governanceInterface) .governanceChainId

/-- The governance emitter, from core. -/
def governanceContract : GovernanceProg Bytes32 :=
  call (X := governanceInterface) .governanceContract

/-- This chain, from core. -/
def chainId : GovernanceProg UInt16 := call (X := governanceInterface) .chainId

/-- A low-level call: whether it succeeded, and the data it returned. -/
def callContract (governedContract : Address) (callData : Bytes) : GovernanceProg (Bool × Bytes) :=
  call (X := governanceInterface) (.call governedContract callData)

/-- Marks a hash as consumed, which it must not be yet. -/
def _replayProtect (digest : Bytes32) : GovernanceProg Unit := do
  let s ← get
  revertIf (s.consumedGovernanceActions digest = true) (.governanceActionAlreadyConsumed digest)
  modify (·.consume digest)

/-- Verifies a VAA and its emitter, and consumes its hash. -/
def _verifyGovernanceVAA (encodedVM : Bytes) : GovernanceProg VM := do
  let (vm, valid, reason) ← parseAndVerifyVM encodedVM
  revertIf (valid = false) (.invalidVM reason)
  let governanceChainId ← governanceChainId
  revertIf (vm.emitterChainId ≠ governanceChainId) (.invalidGovernanceChainId vm.emitterChainId)
  let governanceContract ← governanceContract
  revertIf (vm.emitterAddress ≠ governanceContract) (.invalidGovernanceContract vm.emitterAddress)
  _replayProtect vm.hash
  return vm

/-- `performGovernance`. -/
def performGovernance (G : Governance) (ctx : Context) (vaa : Bytes) : GovernanceProg Unit := do
  revertIf (ctx.value ≠ 0) .nonPayable
  let verified ← _verifyGovernanceVAA vaa
  let message ← parseGeneralPurposeGovernanceMessage G.bytes verified.payload
  revertIf (message.action ≠ GovernanceAction.EVM_CALL.toUInt8) (.invalidAction message.action)
  let chainId ← chainId
  revertIf (message.chain ≠ chainId) (.notRecipientChain message.chain)
  revertIf (message.governanceContract ≠ G.this)
    (.notRecipientContract message.governanceContract)
  modify (·.execute ⟨verified, message⟩)
  let (success, returnData) ← callContract message.governedContract message.callData
  revertIf (success = false) (.callFailed returnData)

/-- The contract. -/
def contract (G : Governance) : Contract governanceInterface State GovernanceError where
  Entry := Context × Bytes
  body e := G.performGovernance e.1 e.2

/-! ### The environment -/

/-- Core: which VAAs it verifies, and its configuration. -/
structure Core where
  /-- The byte string is a VAA that verifies, at some time. -/
  verifies : Bytes → VM → Prop
  chainId : UInt16
  governanceChainId : UInt16
  governanceContract : Bytes32

/-- Core is only read. A governance call hands control out, and may come back with any reply. -/
def Core.world (core : Core) : World governanceInterface State where
  closed
    | .call .. => false
    | _ => true
  effect
    | .parseAndVerifyVM encodedVM, s, (vm, valid, _), s' =>
        s' = s ∧ (valid = true → core.verifies encodedVM vm)
    | .governanceChainId, s, r, s' => s' = s ∧ r = core.governanceChainId
    | .governanceContract, s, r, s' => s' = s ∧ r = core.governanceContract
    | .chainId, s, r, s' => s' = s ∧ r = core.chainId
    | .call .., _, _, _ => False
  answers _ _ := True

/-- Everyone may make any call at any time. -/
def Core.environment (core : Core) (G : Governance) :
    Environment governanceInterface State G.contract.Entry where
  toWorld := core.world
  admits _ _ := True

end Governance

end Ntt
