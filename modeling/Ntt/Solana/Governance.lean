import Ntt.Solana.Messages

/-!
# Governance Messages of the Solana Program

The messages that the program `wormhole-governance` is told instructions with: the header of a
governance packet, the program to call, its accounts with their flags, and its data. The size, the
writer and the reader are three listings of one layout.

The writer and the reader agree on messages: the reader takes back what is written, and takes
nothing else. The size that is announced leaves out the governance program id and is 32 bytes
short (`GovernanceMessage.length_write`). For actions, the reader knows three, one byte each, and
the writer writes nothing for `Undefined`.

Flags, and the chains of the SDK, are of libraries that are not part of the repository
(`GovernanceIo`); integers and byte arrays are those of `WormholeIo`.

## Main results

* `GovernanceMessage.read_iff_write`: a byte string is read as a message if and only if this is what
  is written for it.
* `governance_codec`: this, the sizes, and the actions that are read back.
-/

namespace Ntt.Solana

open BigEndian Wire

/-! ### The codec -/

/-- The libraries: the implementation for flags, and the chains with the one of Solana. -/
structure GovernanceIo where
  io : WormholeIo
  bool : Primitive Bool
  Chain : Type
  [decEqChain : DecidableEq Chain]
  solana : Chain
  /-- The conversions between chains and their identifiers. -/
  ofU16 : UInt16 → Chain
  toU16 : Chain → UInt16

instance (G : GovernanceIo) : DecidableEq G.Chain := G.decEqChain

/-- A flag is a byte. -/
def packBool (x : Bool) : Bytes := packUint8 (if x then 1 else 0)

/-- What the program relies on: a flag is the byte 0 or 1, and an identifier is that of one chain. -/
structure GovernanceIo.Lawful (G : GovernanceIo) : Prop where
  io : G.io.Lawful
  bool : G.bool.Lawful 1 packBool
  chain : ∀ n, G.ofU16 n = G.solana ↔ n = G.toU16 G.solana

/-- The libraries, as they are. -/
def GovernanceIo.reference : GovernanceIo where
  io := .reference
  bool := {
    SIZE := 1
    read := do
      match ← WormholeIo.reference.u8.read with
      | 0 => return false
      | 1 => return true
      | _ => throw .external
    write := packBool
  }
  Chain := UInt16
  solana := 1
  ofU16 n := n
  toU16 n := n

theorem GovernanceIo.reference_lawful : reference.Lawful where
  io := WormholeIo.reference_lawful
  bool := by
    refine ⟨rfl, rfl, fun b x rest => ?_⟩
    simp only [reference, run_bind_eq_ok, WormholeIo.reference_lawful.u8.takes _ _ _]
    constructor
    · rintro ⟨n, _, rfl, h⟩
      split at h
      · obtain ⟨rfl, rfl⟩ := (run_pure_eq_ok ..).mp h
        rfl
      · obtain ⟨rfl, rfl⟩ := (run_pure_eq_ok ..).mp h
        rfl
      · cases h
    · rintro rfl
      refine ⟨_, rest, rfl, ?_⟩
      cases x <;> rfl
  chain _ := .rfl

/-- The known governance actions. -/
inductive GovernanceAction where
  | undefined
  | evmCall
  | solanaCall
deriving DecidableEq, Repr

/-- An account for the instruction. -/
structure Acc where
  pubkey : Bytes32
  isSigner : Bool
  isWritable : Bool
deriving DecidableEq, Repr

/-- A message to call an instruction of a governed program. -/
structure GovernanceMessage where
  governanceProgramId : Bytes32
  programId : Bytes32
  accounts : List Acc
  data : Bytes
deriving DecidableEq, Repr

section

variable (G : GovernanceIo)

namespace GovernanceAction

/-- The value of `GovernanceAction::SIZE.unwrap()`. -/
def SIZE : ℕ := 1

def read : Reader IoError GovernanceAction := do
  let n ← G.io.u8.read
  match n with
  | 0 => return undefined
  | 1 => return evmCall
  | 2 => return solanaCall
  | n => throw (.invalidData s!"invalid action {n}")

def writtenSize (_action : GovernanceAction) : ℕ := SIZE

/-- What `write` appends to the writer. -/
def write : GovernanceAction → Bytes
  | undefined => []
  | evmCall => G.io.u8.write 1
  | solanaCall => G.io.u8.write 2

end GovernanceAction

namespace GovernanceMessage

/-- `GeneralPurposeGovernance`, left padded. -/
def MODULE : Bytes32 := 0x000000000000000047656E6572616C507572706F7365476F7665726E616E6365

/-- The loop over the accounts that are left. -/
def readAccounts : ℕ → Reader IoError (List Acc)
  | 0 => return []
  | rounds + 1 => do
      let pubkey ← G.io.bytes32.read
      let isSigner ← G.bool.read
      let isWritable ← G.bool.read
      let accounts ← readAccounts rounds
      return { pubkey, isSigner, isWritable } :: accounts

def readBody (governanceProgramId : Bytes32) : Reader IoError GovernanceMessage := do
  let programId ← G.io.bytes32.read
  let accountsLen ← G.io.u16.read
  let accounts ← readAccounts G accountsLen.toNat
  let dataLen ← G.io.u16.read
  let data ← readExact dataLen.toNat
  return { governanceProgramId, programId, accounts, data }

def read : Reader IoError GovernanceMessage := do
  let module ← G.io.bytes32.read
  Reader.throwUnless (module = MODULE) (.invalidData "Invalid GovernanceMessage module")
  let action ← GovernanceAction.read G
  Reader.throwUnless (action = .solanaCall) (.invalidData "Invalid GovernanceAction")
  let chain ← G.io.u16.read
  Reader.throwUnless (G.ofU16 chain = G.solana) (.invalidData "Invalid GovernanceMessage chain")
  let governanceProgramId ← G.io.bytes32.read
  readBody G governanceProgramId

/-- `u16::try_from(n)` with an error of the message. -/
def u16OrInvalid (n : ℕ) (msg : String) : Except IoError UInt16 :=
  if n ≤ 65535 then .ok (UInt16.ofNat n) else .error (.invalidData msg)

def writeBody (m : GovernanceMessage) : Except IoError Bytes := do
  let accountsLen ← u16OrInvalid m.accounts.length "accounts length overflow"
  let accounts := m.accounts.flatMap fun acc =>
    G.io.bytes32.write acc.pubkey ++ G.bool.write acc.isSigner ++ G.bool.write acc.isWritable
  let dataLen ← u16OrInvalid m.data.length "data length overflow"
  return G.io.bytes32.write m.programId ++ G.io.u16.write accountsLen ++ accounts ++
    G.io.u16.write dataLen ++ m.data

def writtenSize (m : GovernanceMessage) : ℕ :=
  32 + GovernanceAction.SIZE + G.io.u16.SIZE + G.io.bytes32.SIZE + G.io.u16.SIZE +
    (m.accounts.map fun _ => 32 + 1 + 1).sum + G.io.u16.SIZE + m.data.length

def write (m : GovernanceMessage) : Except IoError Bytes := do
  let body ← m.writeBody G
  return G.io.bytes32.write MODULE ++ GovernanceAction.write G .solanaCall ++
    G.io.u16.write (G.toU16 G.solana) ++ G.io.bytes32.write m.governanceProgramId ++ body

end GovernanceMessage

end

/-! ### What is read and written -/

section

variable {G : GovernanceIo}

/-- The byte of an action. -/
def GovernanceAction.code : GovernanceAction → UInt8
  | undefined => 0
  | evmCall => 1
  | solanaCall => 2

/-- An account, packed. -/
def Acc.layout (acc : Acc) : Bytes :=
  packBytes32 acc.pubkey ++ packBool acc.isSigner ++ packBool acc.isWritable

theorem Acc.length_layout (acc : Acc) : acc.layout.length = 32 + 1 + 1 := by
  simp only [layout, packBytes32, packBool, packUint8, List.length_append, length_beBytes]

/-- A message with the lengths of its lists, packed. -/
def GovernanceMessage.layout (G : GovernanceIo) (m : GovernanceMessage)
    (accountsLen dataLen : UInt16) : Bytes :=
  packBytes32 MODULE ++ (packUint8 2 ++ (packUint16 (G.toU16 G.solana) ++
    (packBytes32 m.governanceProgramId ++ (packBytes32 m.programId ++ (packUint16 accountsLen ++
      (m.accounts.flatMap Acc.layout ++ (packUint16 dataLen ++ m.data)))))))

theorem GovernanceMessage.u16OrInvalid_eq_ok {n : ℕ} {msg : String} {x : UInt16} :
    u16OrInvalid n msg = .ok x ↔ x.toNat = n := by
  have hx := x.toNat_lt
  rw [u16OrInvalid]
  split
  · rw [Except.ok.injEq, UInt16.ofNat_eq_iff_mod_eq_toNat, Nat.mod_eq_of_lt (by omega), eq_comm]
  · refine iff_of_false (fun hok => by cases hok) ?_
    omega

variable (hG : G.Lawful)
include hG

theorem GovernanceAction.takes :
    TakesField (GovernanceAction.read G) fun action => packUint8 action.code := by
  intro b action rest
  simp only [GovernanceAction.read, run_bind_eq_ok, hG.io.u8.takes _ _ _]
  constructor
  · rintro ⟨n, _, rfl, h⟩
    split at h
    · obtain ⟨rfl, rfl⟩ := (run_pure_eq_ok ..).mp h
      rfl
    · obtain ⟨rfl, rfl⟩ := (run_pure_eq_ok ..).mp h
      rfl
    · obtain ⟨rfl, rfl⟩ := (run_pure_eq_ok ..).mp h
      rfl
    · cases h
  · rintro rfl
    refine ⟨action.code, rest, rfl, ?_⟩
    cases action <;> rfl

/-- The loop takes as many accounts as it has rounds. -/
theorem GovernanceMessage.readAccounts_takes (rounds : ℕ) :
    Takes (readAccounts G rounds) fun accounts p =>
      accounts.length = rounds ∧ accounts.flatMap Acc.layout = p := by
  induction rounds with
  | zero =>
      intro b accounts rest
      simp only [readAccounts, run_pure_eq_ok, List.length_eq_zero_iff]
      constructor
      · rintro ⟨rfl, rfl⟩
        exact ⟨[], ⟨rfl, rfl⟩, rfl⟩
      · rintro ⟨_, ⟨rfl, rfl⟩, rfl⟩
        exact ⟨rfl, rfl⟩
  | succ rounds ih =>
      intro b accounts rest
      simp only [readAccounts, run_bind_eq_ok, run_pure_eq_ok, hG.io.bytes32.takes _ _ _,
        hG.bool.takes _ _ _, ih _ _ _]
      constructor
      · rintro ⟨pubkey, _, h₀, isSigner, _, h₁, isWritable, _, h₂, accounts, _,
          ⟨_, ⟨hlen, h₃⟩, h₄⟩, h₅, h₆⟩
        refine ⟨_, ⟨?_, rfl⟩, ?_⟩
        · rw [← h₅, List.length_cons, hlen]
        · rw [h₀, h₁, h₂, h₄, ← h₃, ← h₅, h₆]
          simp only [List.flatMap_cons, Acc.layout, List.append_assoc]
      · rintro ⟨_, ⟨hlen, rfl⟩, h⟩
        obtain ⟨acc, accounts, rfl⟩ := List.exists_cons_of_length_eq_add_one hlen
        simp only [List.flatMap_cons, Acc.layout, List.append_assoc] at h
        exact ⟨acc.pubkey, _, h, acc.isSigner, _, rfl, acc.isWritable, _, rfl, accounts, rest,
          ⟨_, ⟨Nat.succ.inj hlen, rfl⟩, rfl⟩, rfl, rfl⟩

theorem GovernanceMessage.write_eq_ok {m : GovernanceMessage} {b : Bytes} :
    m.write G = .ok b ↔ ∃ accountsLen dataLen : UInt16, accountsLen.toNat = m.accounts.length ∧
      dataLen.toNat = m.data.length ∧ m.layout G accountsLen dataLen = b := by
  have hacc : (fun acc : Acc => packBytes32 acc.pubkey ++
      (packBool acc.isSigner ++ packBool acc.isWritable)) = Acc.layout := by
    funext acc
    rw [Acc.layout, List.append_assoc]
  simp only [write, writeBody, Except.bind_eq_ok, Except.pure_eq_ok, u16OrInvalid_eq_ok,
    GovernanceAction.write, hG.io.bytes32.write, hG.io.u8.write, hG.io.u16.write, hG.bool.write,
    List.append_assoc, layout, hacc]
  constructor
  · rintro ⟨_, ⟨accountsLen, hn, dataLen, hk, h⟩, h'⟩
    rw [← h] at h'
    exact ⟨accountsLen, dataLen, hn, hk, h'⟩
  · rintro ⟨accountsLen, dataLen, hn, hk, h⟩
    exact ⟨_, ⟨accountsLen, hn, dataLen, hk, rfl⟩, h⟩

/-- **The reader and the writer agree.** A byte string is read as a message, with nothing left, if
and only if it is what is written for the message. -/
theorem GovernanceMessage.read_iff_write {m : GovernanceMessage} {b : Bytes} :
    (GovernanceMessage.read G).run b = .ok (m, []) ↔ m.write G = .ok b := by
  rw [write_eq_ok hG]
  simp only [GovernanceMessage.read, readBody, readExact, run_bind_eq_ok, run_pure_eq_ok,
    run_throwUnless_eq_ok, run_exactly_eq_ok, hG.io.bytes32.takes _ _ _, hG.io.u16.takes _ _ _,
    GovernanceAction.takes hG _ _ _, readAccounts_takes hG _ _ _ _, hG.chain]
  constructor
  · rintro ⟨_, _, h₀, _, _, ⟨h₁, h₂⟩, _, _, h₃, _, _, ⟨h₄, h₅⟩, _, _, h₆, _, _, ⟨h₇, h₈⟩,
      governance, _, h₉, program, _, h₁₀, accountsLen, _, h₁₁, accounts, _, ⟨_, ⟨hn, h₁₂⟩, h₁₃⟩,
      dataLen, _, h₁₄, data, _, ⟨hk, h₁₅⟩, h₁₆, h₁₇⟩
    subst h₁₆
    refine ⟨accountsLen, dataLen, hn.symm, hk.symm, ?_⟩
    rw [h₀, h₁, h₂, h₃, h₄, h₅, h₆, h₇, h₈, h₉, h₁₀, h₁₁, h₁₃, ← h₁₂, h₁₄, h₁₅, h₁₇,
      List.append_nil, layout, GovernanceAction.code]
  · rintro ⟨accountsLen, dataLen, hn, hk, h⟩
    exact ⟨_, _, h.symm, (), _, ⟨rfl, rfl⟩, .solanaCall, _, rfl, (), _, ⟨rfl, rfl⟩, _, _, rfl, (), _,
      ⟨rfl, rfl⟩, m.governanceProgramId, _, rfl, m.programId, _, rfl, accountsLen, _, rfl,
      m.accounts, _, ⟨_, ⟨hn.symm, rfl⟩, rfl⟩, dataLen, _, rfl, m.data, [],
      ⟨hk.symm, (List.append_nil _).symm⟩, rfl, rfl⟩

/-- What is written is 32 bytes longer than announced. -/
theorem GovernanceMessage.length_write {m : GovernanceMessage} {b : Bytes}
    (h : m.write G = .ok b) : b.length = m.writtenSize G + 32 := by
  obtain ⟨accountsLen, dataLen, -, -, rfl⟩ := (write_eq_ok hG).mp h
  have hsum : (m.accounts.flatMap Acc.layout).length =
      (m.accounts.map fun _ => 32 + 1 + 1).sum := by
    rw [List.length_flatMap]
    simp only [Acc.length_layout]
  simp only [layout, writtenSize, List.length_append, packBytes32, packUint8, packUint16,
    length_beBytes, hsum, hG.io.u16.size, hG.io.bytes32.size, GovernanceAction.SIZE]
  omega

/-- The messages that are written. -/
theorem GovernanceMessage.exists_write {m : GovernanceMessage} :
    (∃ b, m.write G = .ok b) ↔ m.accounts.length ≤ 65535 ∧ m.data.length ≤ 65535 := by
  simp only [write_eq_ok hG]
  constructor
  · rintro ⟨_, accountsLen, dataLen, hn, hk, -⟩
    have hnlt := accountsLen.toNat_lt
    have hklt := dataLen.toNat_lt
    omega
  · rintro ⟨hn, hk⟩
    exact ⟨_, UInt16.ofNat m.accounts.length, UInt16.ofNat m.data.length,
      UInt16.toNat_ofNat_of_lt (by rw [UInt16.size]; omega),
      UInt16.toNat_ofNat_of_lt (by rw [UInt16.size]; omega), rfl⟩

/-- The actions that are written on as many bytes as announced, and read back. -/
theorem GovernanceAction.write_iff {action : GovernanceAction} :
    (action.write G).length = action.writtenSize ∧
      (GovernanceAction.read G).run (action.write G) = .ok (action, []) ↔ action ≠ .undefined := by
  rw [GovernanceAction.takes hG _ _ _]
  cases action <;>
    simp [GovernanceAction.write, GovernanceAction.writtenSize, GovernanceAction.SIZE,
      GovernanceAction.code, hG.io.u8.write, packUint8]

end

/-- **The codec of governance messages.** What is written for a message is read back, and a byte
string that is read completely is what is written for the result. What is written is always 32
bytes longer than the size that is announced. An action is written on the one byte that is
announced and read back if and only if it is not `Undefined`. -/
theorem governance_codec {G : GovernanceIo} (hG : G.Lawful) :
    (∀ m b, m.write G = .ok b →
      b.length = m.writtenSize G + 32 ∧ (GovernanceMessage.read G).run b = .ok (m, [])) ∧
    (∀ m : GovernanceMessage,
      (∃ b, m.write G = .ok b) ↔ m.accounts.length ≤ 65535 ∧ m.data.length ≤ 65535) ∧
    (∀ m b, (GovernanceMessage.read G).run b = .ok (m, []) → m.write G = .ok b) ∧
    ∀ action : GovernanceAction,
      (action.write G).length = action.writtenSize ∧
        (GovernanceAction.read G).run (action.write G) = .ok (action, []) ↔
          action ≠ .undefined :=
  ⟨fun _ _ h => ⟨GovernanceMessage.length_write hG h, (GovernanceMessage.read_iff_write hG).mpr h⟩,
    fun _ => GovernanceMessage.exists_write hG,
    fun _ _ => (GovernanceMessage.read_iff_write hG).mp, fun _ => GovernanceAction.write_iff hG⟩

/-- The message of the parser's test, for an instruction with two accounts and five bytes. -/
def GovernanceMessage.sample : GovernanceMessage where
  governanceProgramId := 0x0E027FBC6B1E61365D4B0680A3179F791B15796F93E24E9B441E3FA04CCDA4A0
  programId := 1
  accounts := [⟨2, true, true⟩, ⟨3, false, true⟩]
  data := [1, 2, 3, 4, 5]

theorem sample_governance_codec :
    (GovernanceMessage.read .reference).run (GovernanceMessage.sample.layout .reference 2 5) =
      .ok (.sample, []) :=
  ((governance_codec GovernanceIo.reference_lawful).1 .sample _ rfl).2

/-- 144 bytes are announced for this message and 176 are written. Nothing is written for
`Undefined`, and nothing is not an action. -/
theorem governance_sizes_wrong :
    (∃ b, GovernanceMessage.sample.write .reference = .ok b ∧ b.length = 176 ∧
      GovernanceMessage.sample.writtenSize .reference = 144) ∧
    GovernanceAction.undefined.write .reference = [] ∧
    GovernanceAction.undefined.writtenSize = 1 ∧
    (GovernanceAction.read .reference).run [] = .error .unexpectedEof := by
  refine ⟨⟨_, rfl, ?_, ?_⟩, rfl, rfl, rfl⟩ <;> decide +kernel

end Ntt.Solana
