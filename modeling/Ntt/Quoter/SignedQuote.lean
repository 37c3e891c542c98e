import Mathlib.Data.Rat.Floor
import Ntt.Evm.SpecialRelayer
import Ntt.Lib.Buffer
import Ntt.Lib.Hex

/-!
# Signed Quotes of the Quoter Service

`encodeQuoteBody`, `signQuote` and `decodeSignedQuote` of the service that prices executions. The
body of a quote holds addresses as hexadecimal text, chain ids as numbers of the language, which
need not be whole, and big integers for the rest. It is packed into 132 bytes, over which the
service signs, and the special relayer reads the fields back at the same offsets
(`parseSignedQuote`).

The functions for texts, hashes and signatures are of a library that is not part of the repository,
and are parameters (`Ethers`, `SigningKey`). What the service relies on is that they read and write
hexadecimal text (`Ethers.Lawful`).
-/

namespace Ntt.Quoter

open BigEndian

abbrev Text : Type := List Char

/-- A number of the language. -/
inductive Number where
  | nan
  | infinity (negative : Bool)
  | finite (value : ℚ)
deriving DecidableEq

namespace Number

/-- Comparisons with an integer; those of `nan` are false. -/
def lt (x : Number) (n : ℤ) : Bool :=
  match x with
  | nan => false
  | infinity negative => negative
  | finite value => decide (value < n)

def gt (x : Number) (n : ℤ) : Bool :=
  match x with
  | nan => false
  | infinity negative => !negative
  | finite value => decide (value > n)

/-- The conversion to an unsigned integer of 16 bits: a fraction is cut off. -/
def toUint16 : Number → UInt16
  | finite value => UInt16.ofNat ((value.num.tdiv value.den) % 2 ^ 16).toNat
  | _ => 0

def ofUint16 (n : UInt16) : Number := finite n.toNat

/-- `Number.isInteger`. -/
def IsInteger (x : Number) : Prop := ∃ n : ℤ, x = finite n

end Number

/-- What the functions throw. -/
inductive Thrown where
  /-- A chain id out of the range of 16 bits. -/
  | numberOutOfRange (field : String) (value : Number)
  /-- A big integer out of the range of a type. -/
  | bigintOutOfRange (field : String) (value : ℤ) (type : String)
  /-- A text that is no hexadecimal string of a length. -/
  | notHexString (field : String) (length : ℕ) (value : Text)
  | quoteLength (length : ℕ)
  /-- An access beyond the end of a buffer. -/
  | outOfBounds
  /-- Whatever a library function throws. -/
  | external
deriving DecidableEq

/-! ### The library -/

/-- A byte string, or a text of one. -/
inductive BytesLike where
  | text (t : Text)
  | bytes (b : Bytes)

/-- The bytes that are meant, if any. -/
def BytesLike.bytes? : BytesLike → Option Bytes
  | .text t => Hex.bytes? t
  | .bytes b => some b

/-- The functions of the library. -/
structure Ethers where
  isHexString : Text → ℕ → Bool
  getBytes : Text → Except Thrown Bytes
  hexlify : BytesLike → Except Thrown Text
  concat : List BytesLike → Except Thrown Text
  /-- The address of a text, with the case of its digits as a checksum. -/
  getAddress : Text → Except Thrown Text
  toBeHex : ℤ → ℕ → Except Thrown Text
  keccak256 : Bytes → Except Thrown Text

/-- What the service relies on, and that the hash is the one of the contracts. -/
structure Ethers.Lawful (E : Ethers) (keccak256 : Bytes → Bytes32) : Prop where
  isHexString : ∀ t n, E.isHexString t n = true ↔ ∃ b, Hex.bytes? t = some b ∧ b.length = n
  getBytes : ∀ {t b}, Hex.bytes? t = some b → E.getBytes t = .ok b
  hexlify : ∀ {x b}, x.bytes? = some b → E.hexlify x = .ok (Hex.ofBytes b)
  concat : ∀ {xs bs}, xs.mapM BytesLike.bytes? = some bs →
    E.concat xs = .ok (Hex.ofBytes bs.flatten)
  getAddress : ∀ b, b.length = 20 →
    ∃ t, E.getAddress (Hex.ofBytes b) = .ok t ∧ Hex.bytes? t = some b
  toBeHex : ∀ {v n}, 0 ≤ v → v < 256 ^ n →
    E.toBeHex v n = .ok (Hex.ofBytes (beBytes n v.toNat))
  keccak256 : ∀ b, E.keccak256 b = .ok (Hex.ofBytes (packBytes32 (keccak256 b)))

structure Signature where
  r : Text
  s : Text
  v : UInt8
deriving DecidableEq

structure SigningKey where
  sign : Text → Except Thrown Signature

/-- A signature gives two numbers of 32 bytes. -/
def Signature.Denotes (sig : Signature) (r s : Bytes32) : Prop :=
  Hex.bytes? sig.r = some (packBytes32 r) ∧ Hex.bytes? sig.s = some (packBytes32 s)

/-- A key signs every hash. -/
def SigningKey.Lawful (key : SigningKey) : Prop :=
  ∀ hash : Bytes32, ∃ sig r s, key.sign (Hex.ofBytes (packBytes32 hash)) = .ok sig ∧
    sig.Denotes r s

/-! ### Quotes -/

/-- The prefix of quotes; that of the relayer. -/
def SIGNED_QUOTE_PREFIX : Text := "0x50513031".toList

def UINT16_MAX : ℤ := 0xffff

def UINT64_MAX : ℤ := 2 ^ 64 - 1

def UINT256_MAX : ℤ := 2 ^ 256 - 1

structure QuoteBody where
  /-- The address that the signature recovers to. -/
  quoterAddress : Text
  /-- The universal address that receives the fee. -/
  payeeAddress : Text
  srcChain : Number
  dstChain : Number
  /-- The time, in seconds, after which the relayer rejects the quote. -/
  expiryTime : ℤ
  /-- The gas limit that the caller requested. -/
  gasLimit : ℤ
  /-- The payment on the source chain. -/
  requiredPayment : ℤ
deriving DecidableEq

structure SignedQuote extends QuoteBody where
  signedQuoteBytes : Text
deriving DecidableEq

/-- Throws when a condition holds. -/
def throwWhen (c : Bool) (e : Thrown) : Except Thrown Unit := if c then .error e else .ok ()

/-- `Uint8Array.set`. -/
def set (out bytes : Bytes) (offset : ℕ) : Except Thrown Bytes :=
  match Buffer.write out bytes offset with
  | some out => .ok out
  | none => .error .outOfBounds

/-- `DataView.setUint16`, big-endian. -/
def setUint16 (out : Bytes) (offset : ℕ) (value : Number) : Except Thrown Bytes :=
  set out (packUint16 value.toUint16) offset

/-- `DataView.setBigUint64`, big-endian; what does not fit is cut off. -/
def setBigUint64 (out : Bytes) (offset : ℕ) (value : ℤ) : Except Thrown Bytes :=
  set out (beBytes 8 (value % 2 ^ 64).toNat) offset

/-- `DataView.getUint16` and `getBigUint64`. -/
def getUint (bytes : Bytes) (offset n : ℕ) : Except Thrown ℕ :=
  if offset + n ≤ bytes.length then .ok (numberAt bytes offset n) else .error .outOfBounds

/-- `Uint8Array.slice`. -/
def slice (bytes : Bytes) (start stop : ℕ) : Bytes := (bytes.drop start).take (stop - start)

/-- `BigInt` of a hexadecimal text. -/
def bigInt (t : Text) : Except Thrown ℤ :=
  match Hex.bytes? t with
  | some (x :: b) => .ok (beNat (x :: b))
  | _ => .error .external

variable (E : Ethers)

/-- Packs the body of a quote into the layout that the relayer expects. -/
def encodeQuoteBody (body : QuoteBody) : Except Thrown Bytes := do
  throwWhen (body.srcChain.lt 0 || body.srcChain.gt UINT16_MAX)
    (.numberOutOfRange "srcChain" body.srcChain)
  throwWhen (body.dstChain.lt 0 || body.dstChain.gt UINT16_MAX)
    (.numberOutOfRange "dstChain" body.dstChain)
  throwWhen (body.expiryTime < 0 || body.expiryTime > UINT64_MAX)
    (.bigintOutOfRange "expiryTime" body.expiryTime "uint64")
  throwWhen (body.gasLimit < 0 || body.gasLimit > UINT256_MAX)
    (.bigintOutOfRange "gasLimit" body.gasLimit "uint256")
  throwWhen (body.requiredPayment < 0 || body.requiredPayment > UINT256_MAX)
    (.bigintOutOfRange "requiredPayment" body.requiredPayment "uint256")
  throwWhen (!E.isHexString body.payeeAddress 32)
    (.notHexString "payeeAddress" 32 body.payeeAddress)
  throwWhen (!E.isHexString body.quoterAddress 20)
    (.notHexString "quoterAddress" 20 body.quoterAddress)
  let out : Bytes := List.replicate SIGNED_QUOTE_BODY_LENGTH 0
  let out ← set out (← E.getBytes SIGNED_QUOTE_PREFIX) 0
  let out ← set out (← E.getBytes body.quoterAddress) 4
  let out ← set out (← E.getBytes body.payeeAddress) 24
  let out ← setUint16 out 56 body.srcChain
  let out ← setUint16 out 58 body.dstChain
  let out ← setBigUint64 out 60 body.expiryTime
  let out ← set out (← E.getBytes (← E.toBeHex body.gasLimit 32)) 68
  set out (← E.getBytes (← E.toBeHex body.requiredPayment 32)) 100

/-- Signs the body of a quote: the signature covers the hash of the packed body, and follows it. -/
def signQuote (body : QuoteBody) (signingKey : SigningKey) : Except Thrown SignedQuote := do
  let encoded ← encodeQuoteBody E body
  let digest ← E.keccak256 encoded
  let sig ← signingKey.sign digest
  let signature ← E.concat [.text sig.r, .text sig.s, .bytes [sig.v]]
  let signedQuoteBytes ←
    E.hexlify (.text (← E.concat [.bytes encoded, .text signature]))
  return { body with signedQuoteBytes }

/-- Takes a signed quote apart. Prefix and signature are not looked at. -/
def decodeSignedQuote (signedQuoteBytes : Text) : Except Thrown SignedQuote := do
  let bytes ← E.getBytes signedQuoteBytes
  throwWhen (bytes.length ≠ SIGNED_QUOTE_LENGTH) (.quoteLength bytes.length)
  let quoterAddress ← E.getAddress (← E.hexlify (.bytes (slice bytes 4 24)))
  let payeeAddress ← E.hexlify (.bytes (slice bytes 24 56))
  let srcChain ← getUint bytes 56 2
  let dstChain ← getUint bytes 58 2
  let expiryTime ← getUint bytes 60 8
  let gasLimit ← bigInt (← E.hexlify (.bytes (slice bytes 68 100)))
  let requiredPayment ← bigInt (← E.hexlify (.bytes (slice bytes 100 132)))
  let signedQuoteBytes ← E.hexlify (.bytes bytes)
  return {
    quoterAddress, payeeAddress, gasLimit, requiredPayment, signedQuoteBytes
    srcChain := .finite srcChain
    dstChain := .finite dstChain
    expiryTime := expiryTime }

end Ntt.Quoter
