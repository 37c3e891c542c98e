import Ntt.Evm.WireFormat
import Ntt.Lib.Buffer
import Ntt.Relayer.Basic

/-!
# Signed VAAs

The codec of the bot for messages that guardians have signed: a header with the number of
signatures, the signatures, and a body with fields at fixed offsets in front of the payload. The
contracts mark a message as consumed under the double hash of its body, so that the bot has to find
the body behind any number of signatures, and has to hash neither more nor less.

The language's big integers and the numbers here, all of them whole, are integers; a byte array is
the list of its bytes, and an access beyond its end throws. The hash function is a parameter.

## Main results

* `encodeVaaBody_eq_ok`: what a body is encoded to.
* `parseSignedVaa_eq_ok`: the byte strings that are accepted, with what is read off them.
* `vaa_codec`: the round trip, and the suffix that is hashed.
-/

namespace Ntt.Relayer

open BigEndian

/-! ### The codec -/

def BODY_PREFIX_LENGTH : ℕ := 51

def VAA_VERSION : ℕ := 1

/-- The index of the guardian, `r`, `s` and `v`. -/
def SIGNATURE_LENGTH : ℕ := 66

/-- The version, the index of the guardian set and the number of signatures. -/
def HEADER_PREFIX_LENGTH : ℕ := 6

def UINT32_MAX : ℤ := 0xffffffff

def UINT16_MAX : ℤ := 0xffff

def UINT64_MAX : ℤ := 2 ^ 64 - 1

structure VaaBodyFields where
  timestamp : ℤ
  nonce : ℤ
  emitterChainId : ℤ
  /-- The universal address of the source transceiver. -/
  emitterAddress : Hex
  sequence : ℤ
  consistencyLevel : ℤ
  payload : Hex
deriving DecidableEq, Repr

structure ParsedVaa extends VaaBodyFields where
  version : ℤ
  guardianSetIndex : ℤ
  numSignatures : ℕ
  /-- The key that the contracts mark consumed messages by. -/
  hash : Hex
deriving DecidableEq, Repr

structure GuardianSignature where
  r : Hex
  s : Hex
  v : ℤ
deriving DecidableEq, Repr

/-- A signed VAA with its hash. -/
structure PackedVaa where
  vaa : Hex
  hash : Hex
deriving DecidableEq, Repr

inductive VaaError where
  /-- `… out of … range`. -/
  | outOfRange (field : String) (value : ℤ) (type : String)
  /-- `emitterAddress must be 32 bytes, got …`. -/
  | emitterLength (length : ℕ)
  /-- `VAA too short: … bytes`. -/
  | tooShort (length : ℕ)
  | unsupportedVersion (version : ℤ)
  /-- `VAA too short for … signatures + body: … bytes`. -/
  | tooShortForSignatures (numSignatures length : ℕ)
  /-- An access beyond the end of a buffer. -/
  | outOfBounds
  /-- Whatever the signer throws. -/
  | external
deriving DecidableEq, Repr

/-- Throws when a condition holds. -/
def throwWhen (c : Bool) (e : VaaError) : Except VaaError Unit := if c then .error e else .ok ()

/-- `Uint8Array.set`. -/
def set (out bytes : Bytes) (offset : ℕ) : Except VaaError Bytes :=
  match Buffer.write out bytes offset with
  | some out => .ok out
  | none => .error .outOfBounds

/-- The setters of a `DataView` for `n` bytes, big-endian; what does not fit is cut off. -/
def setUint (out : Bytes) (offset n : ℕ) (value : ℤ) : Except VaaError Bytes :=
  set out (beBytes n (value % 256 ^ n).toNat) offset

/-- The getters. -/
def getUint (bytes : Bytes) (offset n : ℕ) : Except VaaError ℕ :=
  if offset + n ≤ bytes.length then .ok (numberAt bytes offset n) else .error .outOfBounds

/-- `Uint8Array.subarray`. -/
def subarray (bytes : Bytes) (start stop : ℕ) : Bytes := (bytes.drop start).take (stop - start)

def encodeVaaBody (fields : VaaBodyFields) : Except VaaError Bytes := do
  throwWhen (fields.timestamp < 0 || fields.timestamp > UINT32_MAX)
    (.outOfRange "timestamp" fields.timestamp "uint32")
  throwWhen (fields.nonce < 0 || fields.nonce > UINT32_MAX)
    (.outOfRange "nonce" fields.nonce "uint32")
  throwWhen (fields.emitterChainId < 0 || fields.emitterChainId > UINT16_MAX)
    (.outOfRange "emitterChainId" fields.emitterChainId "uint16")
  throwWhen (fields.sequence < 0 || fields.sequence > UINT64_MAX)
    (.outOfRange "sequence" fields.sequence "uint64")
  throwWhen (fields.consistencyLevel < 0 || fields.consistencyLevel > 0xff)
    (.outOfRange "consistencyLevel" fields.consistencyLevel "uint8")
  let emitter := fields.emitterAddress
  throwWhen (emitter.length != 32) (.emitterLength emitter.length)
  let payload := fields.payload
  let out := List.replicate (BODY_PREFIX_LENGTH + payload.length) 0
  let out ← setUint out 0 4 fields.timestamp
  let out ← setUint out 4 4 fields.nonce
  let out ← setUint out 8 2 fields.emitterChainId
  let out ← set out emitter 10
  let out ← setUint out 42 8 fields.sequence
  let out ← setUint out 50 1 fields.consistencyLevel
  set out payload BODY_PREFIX_LENGTH

section

variable (keccak256 : Bytes → Bytes32)

/-- The key that the contracts check. -/
def vaaBodyDoubleHash (body : Bytes) : Hex :=
  packBytes32 (keccak256 (packBytes32 (keccak256 body)))

/-- Builds a VAA with one signature. -/
def packSignedVaa (fields : VaaBodyFields) (guardianSetIndex : ℤ)
    (signDigest : Hex → Except VaaError GuardianSignature) (guardianIndex : ℤ) :
    Except VaaError PackedVaa := do
  throwWhen (guardianSetIndex < 0 || guardianSetIndex > UINT32_MAX)
    (.outOfRange "guardianSetIndex" guardianSetIndex "uint32")
  let body ← encodeVaaBody fields
  let hash := vaaBodyDoubleHash keccak256 body
  let signature ← signDigest hash
  let header := List.replicate HEADER_PREFIX_LENGTH 0
  let header ← setUint header 0 1 VAA_VERSION
  let header ← setUint header 1 4 guardianSetIndex
  let header ← setUint header 5 1 1
  let sig := List.replicate SIGNATURE_LENGTH 0
  let sig ← setUint sig 0 1 guardianIndex
  let sig ← set sig signature.r 1
  let sig ← set sig signature.s 33
  let sig ← setUint sig 65 1 signature.v
  return { vaa := header ++ sig ++ body, hash }

/-- Takes a signed VAA apart. -/
def parseSignedVaa (bytes : Bytes) : Except VaaError ParsedVaa := do
  throwWhen (bytes.length < HEADER_PREFIX_LENGTH) (.tooShort bytes.length)
  let version ← getUint bytes 0 1
  throwWhen (version != VAA_VERSION) (.unsupportedVersion version)
  let guardianSetIndex ← getUint bytes 1 4
  let numSignatures ← getUint bytes 5 1
  let bodyStart := HEADER_PREFIX_LENGTH + numSignatures * SIGNATURE_LENGTH
  throwWhen (bytes.length < bodyStart + BODY_PREFIX_LENGTH)
    (.tooShortForSignatures numSignatures bytes.length)
  let body := subarray bytes bodyStart bytes.length
  let timestamp ← getUint body 0 4
  let nonce ← getUint body 4 4
  let emitterChainId ← getUint body 8 2
  let emitterAddress := subarray body 10 42
  let sequence ← getUint body 42 8
  let consistencyLevel ← getUint body 50 1
  let payload := subarray body BODY_PREFIX_LENGTH body.length
  return { version, guardianSetIndex, numSignatures, timestamp, nonce, emitterChainId,
           emitterAddress, sequence, consistencyLevel, payload,
           hash := vaaBodyDoubleHash keccak256 body }

end

theorem throwWhen_eq_ok {c : Bool} {e : VaaError} {u : Unit} :
    throwWhen c e = .ok u ↔ c = false := by
  cases c <;> simp [throwWhen]

/-! ### Bodies -/

/-- The fields are in the ranges of their types. -/
structure VaaBodyFields.InRange (fields : VaaBodyFields) : Prop where
  timestamp : 0 ≤ fields.timestamp ∧ fields.timestamp < 256 ^ 4
  nonce : 0 ≤ fields.nonce ∧ fields.nonce < 256 ^ 4
  emitterChainId : 0 ≤ fields.emitterChainId ∧ fields.emitterChainId < 256 ^ 2
  emitterAddress : fields.emitterAddress.length = 32
  sequence : 0 ≤ fields.sequence ∧ fields.sequence < 256 ^ 8
  consistencyLevel : 0 ≤ fields.consistencyLevel ∧ fields.consistencyLevel < 256 ^ 1

/-- The layout of a body. -/
def VaaBodyFields.layout (fields : VaaBodyFields) : Bytes :=
  beBytes 4 fields.timestamp.toNat ++ beBytes 4 fields.nonce.toNat ++
    beBytes 2 fields.emitterChainId.toNat ++ fields.emitterAddress ++
    beBytes 8 fields.sequence.toNat ++ beBytes 1 fields.consistencyLevel.toNat ++ fields.payload

theorem VaaBodyFields.InRange.length_layout {fields : VaaBodyFields} (h : fields.InRange) :
    fields.layout.length = BODY_PREFIX_LENGTH + fields.payload.length := by
  simp only [layout, List.length_append, length_beBytes, h.emitterAddress, BODY_PREFIX_LENGTH]

/-- What a range check lets through. -/
theorem inRange_iff {v : ℤ} (n : ℕ) :
    (decide (v < 0) || decide (v > 256 ^ n - 1)) = false ↔ 0 ≤ v ∧ v < 256 ^ n := by
  rw [Bool.or_eq_false_iff, decide_eq_false_iff_not, decide_eq_false_iff_not]
  omega

/-- **The next field.** Where the front ends, a write into zeros extends the front. -/
theorem set_next {buffer front bytes : Bytes} {offset : ℕ} (k n : ℕ)
    (hbuffer : buffer = front ++ List.replicate (k + n) 0) (hoffset : front.length = offset)
    (hlen : bytes.length = n) :
    set buffer bytes offset = .ok (front ++ bytes ++ List.replicate k 0) := by
  subst hlen
  rw [hbuffer, set, Buffer.write_append hoffset (by rw [List.length_replicate]; omega),
    List.drop_replicate, Nat.add_sub_cancel_right]

theorem setUint_next {buffer front : Bytes} {offset : ℕ} {v : ℤ} (k n : ℕ)
    (hbuffer : buffer = front ++ List.replicate (k + n) 0) (hoffset : front.length = offset)
    (hv : 0 ≤ v ∧ v < 256 ^ n) :
    setUint buffer offset n v = .ok (front ++ beBytes n v.toNat ++ List.replicate k 0) := by
  rw [setUint, Int.emod_eq_of_lt hv.1 hv.2, set_next k n hbuffer hoffset (length_beBytes ..)]

/-- The fields in range are encoded by their layout. -/
theorem encodeVaaBody_layout {fields : VaaBodyFields} (h : fields.InRange) :
    encodeVaaBody fields = .ok fields.layout := by
  obtain ⟨htimestamp, hnonce, hchain, hemitter, hsequence, hlevel⟩ := h
  simp only [encodeVaaBody, Except.bind_eq_ok, throwWhen_eq_ok]
  have hfull : List.replicate (BODY_PREFIX_LENGTH + fields.payload.length) (0 : UInt8) =
      [] ++ List.replicate (fields.payload.length + 47 + 4) 0 := by
    rw [Nat.add_comm]
    rfl
  refine ⟨(), (inRange_iff 4).mpr htimestamp, (), (inRange_iff 4).mpr hnonce, (),
    (inRange_iff 2).mpr hchain, (), (inRange_iff 8).mpr hsequence, (), (inRange_iff 1).mpr hlevel,
    (), ?_, ?_⟩
  · rw [hemitter]
    rfl
  -- every write starts where the last one ended
  refine ⟨_, setUint_next _ 4 hfull rfl htimestamp, _,
    setUint_next (fields.payload.length + 43) 4 rfl ?_ hnonce, _,
    setUint_next (fields.payload.length + 41) 2 rfl ?_ hchain, _,
    set_next (fields.payload.length + 9) 32 rfl ?_ hemitter, _,
    setUint_next (fields.payload.length + 1) 8 rfl ?_ hsequence, _,
    setUint_next fields.payload.length 1 rfl ?_ hlevel, ?_⟩
  iterate 5
    simp only [List.nil_append, List.length_append, length_beBytes, hemitter]
  have hzeros : List.replicate fields.payload.length (0 : UInt8) =
      List.replicate (0 + fields.payload.length) 0 := by rw [Nat.zero_add]
  rw [hzeros, set_next 0 fields.payload.length rfl ?_ rfl, List.replicate_zero, List.append_nil]
  · rfl
  · simp only [List.nil_append, List.length_append, length_beBytes, hemitter, BODY_PREFIX_LENGTH]

/-- The fields in range are encoded by their layout, and no others. -/
theorem encodeVaaBody_eq_ok {fields : VaaBodyFields} {b : Bytes} :
    encodeVaaBody fields = .ok b ↔ fields.InRange ∧ fields.layout = b := by
  constructor
  · intro h
    have hrange : fields.InRange := by
      simp only [encodeVaaBody, Except.bind_eq_ok, throwWhen_eq_ok] at h
      obtain ⟨_, htimestamp, _, hnonce, _, hchain, _, hsequence, _, hlevel, _, hemitter, -⟩ := h
      exact {
        timestamp := (inRange_iff 4).mp htimestamp
        nonce := (inRange_iff 4).mp hnonce
        emitterChainId := (inRange_iff 2).mp hchain
        emitterAddress := bne_eq_false_iff_eq.mp hemitter
        sequence := (inRange_iff 8).mp hsequence
        consistencyLevel := (inRange_iff 1).mp hlevel }
    exact ⟨hrange, Except.ok.inj ((encodeVaaBody_layout hrange).symm.trans h)⟩
  · rintro ⟨hrange, rfl⟩
    exact encodeVaaBody_layout hrange

/-- The fields at the offsets of a body. -/
def fieldsAt (body : Bytes) : VaaBodyFields where
  timestamp := (numberAt body 0 4 : ℕ)
  nonce := (numberAt body 4 4 : ℕ)
  emitterChainId := (numberAt body 8 2 : ℕ)
  emitterAddress := subarray body 10 42
  sequence := (numberAt body 42 8 : ℕ)
  consistencyLevel := (numberAt body 50 1 : ℕ)
  payload := subarray body BODY_PREFIX_LENGTH body.length

/-- The fields are where the layout puts them. -/
theorem fieldsAt_layout {fields : VaaBodyFields} (h : fields.InRange) :
    fieldsAt fields.layout = fields := by
  have hlen := h.length_layout
  obtain ⟨⟨htimestamp, htimestamp'⟩, ⟨hnonce, hnonce'⟩, ⟨hchain, hchain'⟩, hemitter,
    ⟨hsequence, hsequence'⟩, hlevel, hlevel'⟩ := h
  have hstands := StandsAt.self fields.layout
  nth_rewrite 2 [VaaBodyFields.layout] at hstands
  generalize fields.layout = body at hlen hstands
  simp only [List.append_assoc] at hstands
  obtain ⟨htimestampAt, hstands⟩ := hstands.field (by omega)
  obtain ⟨hnonceAt, hstands⟩ := hstands.field (by omega)
  obtain ⟨hchainAt, hstands⟩ := hstands.field (by omega)
  have hemitterAt := hstands.left.take_eq
  replace hstands := hstands.right
  rw [hemitter] at hstands hemitterAt
  obtain ⟨hsequenceAt, hstands⟩ := hstands.field (by omega)
  obtain ⟨hlevelAt, hstands⟩ := hstands.field (by omega)
  have hpayloadAt := hstands.take_eq
  simp only [Nat.zero_add, Nat.reduceAdd] at *
  have hrest : subarray body BODY_PREFIX_LENGTH body.length = fields.payload := by
    rw [subarray, hlen, Nat.add_sub_cancel_left]
    exact hpayloadAt
  rw [fieldsAt, hrest, subarray, hemitterAt, htimestampAt, hnonceAt, hchainAt, hsequenceAt,
    hlevelAt, Int.toNat_of_nonneg htimestamp, Int.toNat_of_nonneg hnonce,
    Int.toNat_of_nonneg hchain, Int.toNat_of_nonneg hsequence, Int.toNat_of_nonneg hlevel]

/-- A body that is long enough is laid out from the fields at its offsets. -/
theorem layout_fieldsAt {body : Bytes} (h : BODY_PREFIX_LENGTH ≤ body.length) :
    (fieldsAt body).InRange ∧ (fieldsAt body).layout = body := by
  rw [BODY_PREFIX_LENGTH] at h
  have hnumber {o n : ℕ} (hle : o + n ≤ body.length) :
      0 ≤ (numberAt body o n : ℤ) ∧ (numberAt body o n : ℤ) < 256 ^ n :=
    ⟨Int.natCast_nonneg _, by exact_mod_cast numberAt_lt hle⟩
  constructor
  · exact {
      timestamp := hnumber (by omega)
      nonce := hnumber (by omega)
      emitterChainId := hnumber (by omega)
      emitterAddress := by
        rw [fieldsAt, subarray, List.length_take, List.length_drop]
        omega
      sequence := hnumber (by omega)
      consistencyLevel := hnumber (by omega) }
  · refine (Window.whole ?_ rfl).symm
    have hfront := ((Window.of_numberAt (b := body) (o := 0) (n := 4) (by omega)).append
      (.of_numberAt (n := 4) (by omega))).append (.of_numberAt (n := 2) (by omega))
    have hemitter := hfront.append (.of_slice (show 0 + 4 + 4 + 2 ≤ 42 by decide) (by omega))
    have hlevel := (hemitter.append (.of_numberAt (n := 8) (by omega))).append
      (.of_numberAt (n := 1) (by omega))
    exact hlevel.append (.of_slice h le_rfl)

/-! ### Signed VAAs -/

section

variable {keccak256 : Bytes → Bytes32}

/-- What a byte string holds in front of the body. -/
def header (guardianSetIndex : ℤ) (numSignatures : ℕ) : Bytes :=
  beBytes 1 VAA_VERSION ++ beBytes 4 guardianSetIndex.toNat ++ beBytes 1 numSignatures

/-- A byte string is a header, signatures, and the body with some fields, of which this is the
hash. -/
structure Signed (keccak256 : Bytes → Bytes32) (p : ParsedVaa) (signatures bytes : Bytes) :
    Prop where
  version : p.version = VAA_VERSION
  guardianSetIndex : 0 ≤ p.guardianSetIndex ∧ p.guardianSetIndex < 256 ^ 4
  numSignatures : p.numSignatures < 256 ^ 1
  length_signatures : signatures.length = p.numSignatures * SIGNATURE_LENGTH
  fields : p.InRange
  layout : header p.guardianSetIndex p.numSignatures ++ signatures ++ p.layout = bytes
  hash : p.hash = vaaBodyDoubleHash keccak256 p.layout

theorem length_header (guardianSetIndex : ℤ) (numSignatures : ℕ) :
    (header guardianSetIndex numSignatures).length = HEADER_PREFIX_LENGTH := by
  simp only [header, List.length_append, length_beBytes]
  rfl

theorem getUint_eq {bytes : Bytes} {offset n : ℕ} (h : offset + n ≤ bytes.length) :
    getUint bytes offset n = .ok (numberAt bytes offset n) := if_pos h

/-- The parser behind its guards: no read is beyond the end. -/
theorem parseSignedVaa_eq (bytes : Bytes) : parseSignedVaa keccak256 bytes =
    if bytes.length < HEADER_PREFIX_LENGTH then .error (.tooShort bytes.length)
    else if numberAt bytes 0 1 ≠ VAA_VERSION then
      .error (.unsupportedVersion (numberAt bytes 0 1 : ℕ))
    else
      let numSignatures := numberAt bytes 5 1
      let bodyStart := HEADER_PREFIX_LENGTH + numSignatures * SIGNATURE_LENGTH
      if bytes.length < bodyStart + BODY_PREFIX_LENGTH then
        .error (.tooShortForSignatures numSignatures bytes.length)
      else .ok { fieldsAt (bytes.drop bodyStart) with
        version := (numberAt bytes 0 1 : ℕ)
        guardianSetIndex := (numberAt bytes 1 4 : ℕ)
        numSignatures
        hash := vaaBodyDoubleHash keccak256 (bytes.drop bodyStart) } := by
  simp only [parseSignedVaa, throwWhen, decide_eq_true_eq, bne_iff_ne]
  by_cases hshort : bytes.length < HEADER_PREFIX_LENGTH
  · rw [if_pos hshort, if_pos hshort]
    rfl
  rw [if_neg hshort, if_neg hshort]
  rw [HEADER_PREFIX_LENGTH] at hshort
  have hversion := getUint_eq (show 0 + 1 ≤ bytes.length by omega)
  have hguardians := getUint_eq (show 1 + 4 ≤ bytes.length by omega)
  have hnumber := getUint_eq (show 5 + 1 ≤ bytes.length by omega)
  simp only [hversion, hguardians, hnumber, bind, Except.bind]
  by_cases hv : numberAt bytes 0 1 ≠ VAA_VERSION
  · rw [if_pos hv, if_pos hv]
  rw [if_neg hv, if_neg hv]
  simp only []
  generalize hstart : HEADER_PREFIX_LENGTH + numberAt bytes 5 1 * SIGNATURE_LENGTH = bodyStart
  by_cases hbody : bytes.length < bodyStart + BODY_PREFIX_LENGTH
  · rw [if_pos hbody, if_pos hbody]
  rw [if_neg hbody, if_neg hbody]
  have hsuffix : subarray bytes bodyStart bytes.length = bytes.drop bodyStart := by
    rw [subarray, ← List.length_drop, List.take_length]
  have hlen : 51 ≤ (bytes.drop bodyStart).length := by
    rw [List.length_drop]
    rw [BODY_PREFIX_LENGTH] at hbody
    omega
  rw [hsuffix]
  generalize bytes.drop bodyStart = body at hlen
  simp only [getUint_eq (show 0 + 4 ≤ body.length by omega),
    getUint_eq (show 4 + 4 ≤ body.length by omega), getUint_eq (show 8 + 2 ≤ body.length by omega),
    getUint_eq (show 42 + 8 ≤ body.length by omega),
    getUint_eq (show 50 + 1 ≤ body.length by omega)]
  rfl

/-- The parser accepts the signed VAAs. -/
theorem parseSignedVaa_eq_ok {bytes : Bytes} {p : ParsedVaa} :
    parseSignedVaa keccak256 bytes = .ok p ↔ ∃ signatures, Signed keccak256 p signatures bytes := by
  rw [parseSignedVaa_eq]
  constructor
  · intro h
    split at h
    · cases h
    rename_i hshort
    split at h
    · cases h
    rename_i hversion
    simp only [] at h
    split at h
    · cases h
    rename_i hbody
    obtain rfl := Except.ok.inj h
    rw [HEADER_PREFIX_LENGTH] at hshort
    rw [not_lt] at hbody
    have hlen : BODY_PREFIX_LENGTH ≤ (bytes.drop (HEADER_PREFIX_LENGTH +
        numberAt bytes 5 1 * SIGNATURE_LENGTH)).length := by
      rw [List.length_drop]
      omega
    obtain ⟨hrange, hlayout⟩ := layout_fieldsAt hlen
    have hguardians : ((numberAt bytes 1 4 : ℕ) : ℤ) < 256 ^ 4 := by
      exact_mod_cast numberAt_lt (show 1 + 4 ≤ bytes.length by omega)
    have hend : HEADER_PREFIX_LENGTH + numberAt bytes 5 1 * SIGNATURE_LENGTH ≤ bytes.length := by
      omega
    have hsignatures : (subarray bytes HEADER_PREFIX_LENGTH (HEADER_PREFIX_LENGTH +
        numberAt bytes 5 1 * SIGNATURE_LENGTH)).length = numberAt bytes 5 1 * SIGNATURE_LENGTH := by
      rw [subarray, List.length_take, List.length_drop]
      omega
    exact ⟨_, {
      version := congrArg Nat.cast (not_not.mp hversion)
      guardianSetIndex := ⟨Int.natCast_nonneg _, hguardians⟩
      numSignatures := numberAt_lt (by omega)
      length_signatures := hsignatures
      fields := hrange
      layout := by
        have hfront := ((Window.of_numberAt (b := bytes) (o := 0) (n := 1) (by omega)).append
          (.of_numberAt (n := 4) (by omega))).append (.of_numberAt (n := 1) (by omega))
        have hwhole := (hfront.append (.of_slice (Nat.le_add_right _ _) hend)).append
          (.of_slice hend le_rfl)
        rw [← List.length_drop, List.take_length, not_not.mp hversion] at hwhole
        change header (numberAt bytes 1 4 : ℕ) _ ++ _ ++ (fieldsAt _).layout = bytes
        rw [hlayout]
        exact (hwhole.whole rfl).symm
      hash := congrArg (vaaBodyDoubleHash keccak256) hlayout.symm }⟩
  · rintro ⟨signatures, h⟩
    have hlenFront : (header p.guardianSetIndex p.numSignatures ++ signatures).length =
        HEADER_PREFIX_LENGTH + p.numSignatures * SIGNATURE_LENGTH := by
      rw [List.length_append, length_header, h.length_signatures]
    have hlen := congrArg List.length h.layout
    rw [List.length_append, hlenFront, h.fields.length_layout] at hlen
    have hstands := StandsAt.self bytes
    nth_rewrite 2 [← h.layout] at hstands
    rw [List.append_assoc, header, List.append_assoc, List.append_assoc] at hstands
    obtain ⟨hversion, hstands⟩ := hstands.field (by decide)
    obtain ⟨hguardians, hstands⟩ := hstands.field (by
      have := h.guardianSetIndex
      omega)
    obtain ⟨hnumber, -⟩ := hstands.field h.numSignatures
    simp only [Nat.zero_add, Nat.reduceAdd] at hguardians hnumber
    have hdrop : bytes.drop (HEADER_PREFIX_LENGTH + p.numSignatures * SIGNATURE_LENGTH) =
        p.layout := by
      rw [← h.layout, List.drop_left' hlenFront]
    rw [if_neg (by omega), if_neg (not_not.mpr hversion), hversion, hguardians, hnumber]
    simp only []
    rw [if_neg (by omega), hdrop, fieldsAt_layout h.fields, ← h.version, ← h.hash,
      Int.toNat_of_nonneg h.guardianSetIndex.1]

theorem length_set {out bytes out' : Bytes} {offset : ℕ} (h : set out bytes offset = .ok out') :
    out'.length = out.length := by
  rw [set] at h
  split at h
  · rename_i hwrite
    obtain rfl := Except.ok.inj h
    exact Buffer.length_write hwrite
  · cases h

/-- A write that fits goes through. -/
theorem exists_set {out bytes : Bytes} {offset : ℕ} (h : offset + bytes.length ≤ out.length) :
    ∃ out', set out bytes offset = .ok out' := by
  rw [set, Buffer.write, if_pos h]
  exact ⟨_, rfl⟩

/-- The header that is written. -/
theorem header_written {guardianSetIndex : ℤ}
    (h : 0 ≤ guardianSetIndex ∧ guardianSetIndex < 256 ^ 4) :
    (do
      let header ← setUint (List.replicate HEADER_PREFIX_LENGTH 0) 0 1 VAA_VERSION
      let header ← setUint header 1 4 guardianSetIndex
      setUint header 5 1 1) = .ok (header guardianSetIndex 1) := by
  simp only [Except.bind_eq_ok]
  refine ⟨_, setUint_next 5 1 (List.nil_append _).symm rfl (by decide), _,
    setUint_next 1 4 rfl (by simp only [List.nil_append, length_beBytes]) h, ?_⟩
  rw [setUint_next 0 1 rfl (by simp only [List.nil_append, List.length_append, length_beBytes])
    (by decide), List.replicate_zero, List.append_nil]
  rfl

variable {fields : VaaBodyFields} {guardianSetIndex guardianIndex : ℤ}
  {signDigest : Hex → Except VaaError GuardianSignature}

/-- What is packed has one signature, and the body behind it. -/
theorem packSignedVaa_spec {packed : PackedVaa} (h : packSignedVaa keccak256 fields guardianSetIndex
    signDigest guardianIndex = .ok packed) :
    fields.InRange ∧ packed.hash = vaaBodyDoubleHash keccak256 fields.layout ∧
      ∃ signatures, Signed keccak256 { fields with
        version := VAA_VERSION, guardianSetIndex, numSignatures := 1
        hash := packed.hash } signatures packed.vaa := by
  simp only [packSignedVaa, Except.bind_eq_ok, throwWhen_eq_ok, encodeVaaBody_eq_ok,
    Except.pure_eq_ok] at h
  obtain ⟨_, hguardians, _, ⟨hrange, rfl⟩, signature, -, header₁, h₁, header₂, h₂, header₃, h₃,
    sig₁, hsig₁, sig₂, hsig₂, sig₃, hsig₃, sig₄, hsig₄, rfl⟩ := h
  have hguardians := (inRange_iff 4).mp hguardians
  have hheader := header_written hguardians
  simp only [h₁, h₂, h₃, bind, Except.bind, Except.ok.injEq] at hheader
  have hlen : sig₄.length = 1 * SIGNATURE_LENGTH := by
    rw [length_set hsig₄, length_set hsig₃, length_set hsig₂, length_set hsig₁,
      List.length_replicate, Nat.one_mul]
  exact ⟨hrange, rfl, sig₄, {
    version := rfl
    guardianSetIndex := hguardians
    numSignatures := (by decide : 1 < 256 ^ 1)
    length_signatures := hlen
    fields := hrange
    layout := by rw [hheader]
    hash := rfl }⟩

/-- The fields in range are packed, with a signature of two words. -/
theorem exists_packed (hrange : fields.InRange)
    (hguardians : 0 ≤ guardianSetIndex ∧ guardianSetIndex < 256 ^ 4)
    (hsign : ∀ digest, ∃ signature, signDigest digest = .ok signature ∧
      signature.r.length = 32 ∧ signature.s.length = 32) :
    ∃ packed, packSignedVaa keccak256 fields guardianSetIndex signDigest guardianIndex =
      .ok packed := by
  obtain ⟨signature, hsignature, hr, hs⟩ := hsign (vaaBodyDoubleHash keccak256 fields.layout)
  have hheader := header_written hguardians
  simp only [Except.bind_eq_ok] at hheader
  obtain ⟨header₁, h₁, header₂, h₂, h₃⟩ := hheader
  have hzeros : (List.replicate SIGNATURE_LENGTH (0 : UInt8)).length = 66 := rfl
  obtain ⟨sig₁, hsig₁⟩ : ∃ sig, setUint (List.replicate SIGNATURE_LENGTH 0) 0 1 guardianIndex =
      .ok sig := exists_set (by
    rw [length_beBytes, hzeros]
    decide)
  have hlen₁ := (length_set hsig₁).trans hzeros
  obtain ⟨sig₂, hsig₂⟩ : ∃ sig, set sig₁ signature.r 1 = .ok sig := exists_set (by
    rw [hr, hlen₁]
    decide)
  have hlen₂ := (length_set hsig₂).trans hlen₁
  obtain ⟨sig₃, hsig₃⟩ : ∃ sig, set sig₂ signature.s 33 = .ok sig := exists_set (by
    rw [hs, hlen₂]
    decide)
  have hlen₃ := (length_set hsig₃).trans hlen₂
  obtain ⟨sig₄, hsig₄⟩ : ∃ sig, setUint sig₃ 65 1 signature.v = .ok sig := exists_set (by
    rw [length_beBytes, hlen₃])
  simp only [packSignedVaa, Except.bind_eq_ok, throwWhen_eq_ok, encodeVaaBody_eq_ok,
    Except.pure_eq_ok]
  exact ⟨_, (), (inRange_iff 4).mpr hguardians, _, ⟨hrange, rfl⟩, signature, hsignature, header₁,
    h₁, header₂, h₂, _, h₃, sig₁, hsig₁, sig₂, hsig₂, sig₃, hsig₃, sig₄, hsig₄, rfl⟩

end

/-- **The codec of signed VAAs.** What is packed is taken apart into the same fields, with the
double hash of the encoded body, and the fields in range are packed. A byte string that is taken
apart is a header, signatures and the body that the fields are encoded to, which is what is hashed;
nothing is ever read beyond its end. So the hash depends on the fields alone. -/
theorem vaa_codec (keccak256 : Bytes → Bytes32) :
    (∀ fields guardianSetIndex signDigest guardianIndex packed,
      packSignedVaa keccak256 fields guardianSetIndex signDigest guardianIndex = .ok packed →
        ∃ body, encodeVaaBody fields = .ok body ∧
          packed.hash = vaaBodyDoubleHash keccak256 body ∧
          parseSignedVaa keccak256 packed.vaa = .ok { fields with
            version := VAA_VERSION, guardianSetIndex, numSignatures := 1
            hash := vaaBodyDoubleHash keccak256 body }) ∧
    (∀ fields guardianSetIndex signDigest guardianIndex, VaaBodyFields.InRange fields →
      0 ≤ guardianSetIndex ∧ guardianSetIndex ≤ UINT32_MAX →
      (∀ digest, ∃ signature, signDigest digest = .ok signature ∧
        signature.r.length = 32 ∧ signature.s.length = 32) →
      ∃ packed,
        packSignedVaa keccak256 fields guardianSetIndex signDigest guardianIndex = .ok packed) ∧
    (∀ bytes, parseSignedVaa keccak256 bytes ≠ .error .outOfBounds ∧
      ∀ p, parseSignedVaa keccak256 bytes = .ok p → ∃ front body, bytes = front ++ body ∧
        front.length = HEADER_PREFIX_LENGTH + p.numSignatures * SIGNATURE_LENGTH ∧
        encodeVaaBody p.toVaaBodyFields = .ok body ∧
        p.hash = vaaBodyDoubleHash keccak256 body) ∧
    ∀ bytes bytes' p p', parseSignedVaa keccak256 bytes = .ok p →
      parseSignedVaa keccak256 bytes' = .ok p' → p.toVaaBodyFields = p'.toVaaBodyFields →
        p.hash = p'.hash := by
  refine ⟨?_, ?_, fun bytes => ⟨?_, ?_⟩, ?_⟩
  · intro fields guardianSetIndex signDigest guardianIndex packed h
    obtain ⟨hrange, hhash, signatures, hsigned⟩ := packSignedVaa_spec h
    refine ⟨fields.layout, encodeVaaBody_layout hrange, hhash, ?_⟩
    rw [← hhash]
    exact parseSignedVaa_eq_ok.mpr ⟨signatures, hsigned⟩
  · intro fields guardianSetIndex signDigest guardianIndex hrange ⟨hpos, hle⟩ hsign
    rw [UINT32_MAX] at hle
    exact exists_packed hrange ⟨hpos, by omega⟩ hsign
  · rw [parseSignedVaa_eq]
    split
    · simp
    split
    · simp
    simp only []
    split <;> simp
  · intro p h
    obtain ⟨signatures, hsigned⟩ := parseSignedVaa_eq_ok.mp h
    refine ⟨_, _, hsigned.layout.symm, ?_, encodeVaaBody_layout hsigned.fields, hsigned.hash⟩
    rw [List.length_append, length_header, hsigned.length_signatures]
  · intro bytes bytes' p p' h h' hsame
    obtain ⟨_, hsigned⟩ := parseSignedVaa_eq_ok.mp h
    obtain ⟨_, hsigned'⟩ := parseSignedVaa_eq_ok.mp h'
    rw [hsigned.hash, hsigned'.hash, hsame]

end Ntt.Relayer
