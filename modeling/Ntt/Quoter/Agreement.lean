import Ntt.Evm.WireFormat
import Ntt.Quoter.SignedQuote

/-!
# Agreement on Signed Quotes

The quoter service and the special relayer use one layout (`layout`): the service packs a body into
the layout of its fields (`encodeQuoteBody_spec`), the relayer reads the fields back
(`parseSignedQuote_layout`), and the service takes any signed quote apart as the relayer does
(`decodeSignedQuote_spec`).

A text denotes a byte string with digits of either case, so bodies are compared by the fields that
they denote (`Denotes`). A chain id that is not whole would be cut off, and is left out.
-/

namespace Ntt

open BigEndian

namespace Quoter

/-! ### The layout -/

/-- The bytes of a body with some fields. -/
def layout (q : ParsedQuote) : Bytes :=
  packBytes4 q.pre ++ beBytes 20 q.quotedQuoter.toNat ++ packBytes32 q.universalPayeeAddress ++
    packUint16 q.signedSourceChain ++ packUint16 q.signedTargetChain ++ packUint64 q.expiryTime ++
    beBytes 32 q.gasLimit ++ beBytes 32 q.requiredPayment

/-- The numbers of a quote are words. -/
def Fits (q : ParsedQuote) : Prop := q.gasLimit < 2 ^ 256 ∧ q.requiredPayment < 2 ^ 256

theorem length_layout (q : ParsedQuote) : (layout q).length = SIGNED_QUOTE_BODY_LENGTH := by
  simp only [layout, packBytes4, packBytes32, packUint16, packUint64, List.length_append,
    length_beBytes]
  rfl

/-- The relayer reads the fields back. -/
theorem parseSignedQuote_layout {q : ParsedQuote} (hq : Fits q) {signature : Bytes}
    (hlen : signature.length = 65) : parseSignedQuote (layout q ++ signature) = .ok q := by
  have hlength : (layout q ++ signature).length = SIGNED_QUOTE_LENGTH := by
    rw [List.length_append, length_layout, hlen]
    rfl
  have hstands : StandsAt (layout q ++ signature) 0 (layout q) := (StandsAt.self _).left
  rw [parseSignedQuote, if_neg (not_not.mpr hlength)]
  generalize layout q ++ signature = b at hstands
  simp only [layout, List.append_assoc] at hstands
  obtain ⟨hpre, hstands⟩ := hstands.field q.pre.isLt
  obtain ⟨hquoter, hstands⟩ := hstands.field q.quotedQuoter.isLt
  obtain ⟨hpayee, hstands⟩ := hstands.field q.universalPayeeAddress.isLt
  obtain ⟨hsource, hstands⟩ := hstands.field q.signedSourceChain.toNat_lt
  obtain ⟨htarget, hstands⟩ := hstands.field q.signedTargetChain.toNat_lt
  obtain ⟨hexpiry, hstands⟩ := hstands.field q.expiryTime.toNat_lt
  obtain ⟨hgas, hstands⟩ := hstands.field hq.1
  have hpayment := hstands.number hq.2
  simp only [Nat.zero_add, Nat.reduceAdd] at *
  rw [hpre, hquoter, hpayee, hsource, htarget, hexpiry, hgas, hpayment]
  simp only [BitVec.ofNat_toNat, BitVec.setWidth_eq, UInt16.ofNat_toNat, UInt64.ofNat_toNat]

theorem layout_inj {q q' : ParsedQuote} (hq : Fits q) (hq' : Fits q')
    (h : layout q = layout q') : q = q' := by
  have hparse : parseSignedQuote (layout q ++ List.replicate 65 0) = .ok q :=
    parseSignedQuote_layout hq rfl
  rw [h, parseSignedQuote_layout hq' rfl] at hparse
  exact (Except.ok.inj hparse).symm

/-! ### Bodies -/

/-- A body denotes the fields of a quote. -/
structure Denotes (body : QuoteBody) (q : ParsedQuote) : Prop where
  quoterAddress : Hex.bytes? body.quoterAddress = some (beBytes 20 q.quotedQuoter.toNat)
  payeeAddress : Hex.bytes? body.payeeAddress = some (packBytes32 q.universalPayeeAddress)
  srcChain : body.srcChain = .ofUint16 q.signedSourceChain
  dstChain : body.dstChain = .ofUint16 q.signedTargetChain
  expiryTime : body.expiryTime = q.expiryTime.toNat
  gasLimit : body.gasLimit = q.gasLimit
  requiredPayment : body.requiredPayment = q.requiredPayment

/-- Its chain ids are whole. -/
def QuoteBody.Whole (body : QuoteBody) : Prop := body.srcChain.IsInteger ∧ body.dstChain.IsInteger

theorem throwWhen_eq_ok {c : Bool} {e : Thrown} {u : Unit} : throwWhen c e = .ok u ↔ c = false := by
  cases c <;> simp [throwWhen]

/-- A whole number in range is not cut off. -/
theorem ofUint16_toUint16 {x : Number} (hx : x.IsInteger)
    (h : (x.lt 0 || x.gt UINT16_MAX) = false) : .ofUint16 x.toUint16 = x := by
  obtain ⟨n, rfl⟩ := hx
  simp only [Number.lt, Number.gt, UINT16_MAX, Bool.or_eq_false_iff, decide_eq_false_iff_not,
    gt_iff_lt, not_lt, Int.cast_nonneg_iff, Int.cast_zero, Int.cast_le] at h
  obtain ⟨hle, hge⟩ := h
  obtain ⟨m, rfl⟩ := Int.eq_ofNat_of_zero_le hle
  have hmod : (m : ℤ) % 2 ^ 16 = m := Int.emod_eq_of_lt hle (by omega)
  have hm : m < 2 ^ 16 := by omega
  rw [Number.toUint16, Rat.num_intCast, Rat.den_intCast, Nat.cast_one, Int.tdiv_one, hmod,
    Int.toNat_natCast, Number.ofUint16, UInt16.toNat_ofNat', Nat.mod_eq_of_lt hm, Int.cast_natCast]

/-- A big integer in range. -/
theorem exists_nat_of_inRange {v : ℤ} (n : ℕ)
    (h : (decide (v < 0) || decide (v > 2 ^ n - 1)) = false) : ∃ m : ℕ, v = m ∧ m < 2 ^ n := by
  simp only [Bool.or_eq_false_iff, decide_eq_false_iff_not, gt_iff_lt, not_lt] at h
  obtain ⟨m, rfl⟩ := Int.eq_ofNat_of_zero_le h.1
  have hlt : (m : ℤ) < 2 ^ n := by omega
  exact ⟨m, rfl, by exact_mod_cast hlt⟩

theorem beBytes_ofNat_beNat {b : Bytes} {n w : ℕ} (hlen : b.length = n) (hw : 256 ^ n = 2 ^ w) :
    beBytes n (BitVec.ofNat w (beNat b)).toNat = b := by
  have hlt := beNat_lt b
  rw [hlen, hw] at hlt
  rw [BitVec.toNat_ofNat, Nat.mod_eq_of_lt hlt, ← hlen, beBytes_beNat]

/-- **The next segment** of a buffer whose front is written and whose rest is zeros: where the front
ends, it extends the front. -/
theorem set_next {buffer front bytes out : Bytes} {offset : ℕ} (n k : ℕ)
    (hbuffer : buffer = front ++ List.replicate (n + k) 0) (hoffset : front.length = offset)
    (hlen : bytes.length = n) (h : set buffer bytes offset = .ok out) :
    out = front ++ bytes ++ List.replicate k 0 ∧ (front ++ bytes).length = offset + n := by
  subst hlen
  rw [hbuffer, set, Buffer.write_append hoffset (by rw [List.length_replicate]; omega),
    List.drop_replicate, Nat.add_sub_cancel_left] at h
  exact ⟨(Except.ok.inj h).symm, by rw [List.length_append, hoffset]⟩

theorem getBytes_of_isHexString {E : Ethers} {hash : Bytes → Bytes32} (hE : E.Lawful hash) {t : Text}
    {b : Bytes} {n : ℕ} (h : (!E.isHexString t n) = false) (hb : E.getBytes t = .ok b) :
    Hex.bytes? t = some b ∧ b.length = n := by
  obtain ⟨b', hb', hlen⟩ := (hE.isHexString t n).mp (by simpa using h)
  obtain rfl := Except.ok.inj (hb.symm.trans (hE.getBytes hb'))
  exact ⟨hb', hlen⟩

theorem getBytes_of_toBeHex {E : Ethers} {hash : Bytes → Bytes32} (hE : E.Lawful hash) {t : Text}
    {b : Bytes} {m n : ℕ} (hm : m < 256 ^ n) (ht : E.toBeHex m n = .ok t)
    (hb : E.getBytes t = .ok b) :
    b = beBytes n m := by
  obtain rfl := Except.ok.inj (ht.symm.trans (hE.toBeHex (by omega) (by exact_mod_cast hm)))
  exact Except.ok.inj (hb.symm.trans (hE.getBytes (Hex.bytes?_ofBytes _)))

theorem encodeQuoteBody_spec {E : Ethers} {hash : Bytes → Bytes32} (hE : E.Lawful hash)
    {body : QuoteBody} {encoded : Bytes} (hwhole : body.Whole)
    (h : encodeQuoteBody E body = .ok encoded) :
    ∃ q : ParsedQuote, q.pre = Ntt.SIGNED_QUOTE_PREFIX ∧ Fits q ∧ Denotes body q ∧
      encoded = layout q := by
  simp only [encodeQuoteBody, Except.bind_eq_ok, throwWhen_eq_ok] at h
  obtain ⟨_, hsrc, _, hdst, _, hexpiry, _, hgas, _, hpayment, _, hpayee, _, hquoter, pre, hpre,
    o₁, h₁, quoter, hquoter', o₂, h₂, payee, hpayee', o₃, h₃, o₄, h₄, o₅, h₅, o₆, h₆, gasText,
    hgasText, gas, hgas', o₇, h₇, paymentText, hpaymentText, payment, hpayment', h₈⟩ := h
  obtain ⟨hquoter, hquoterLength⟩ := getBytes_of_isHexString hE hquoter hquoter'
  obtain ⟨hpayee, hpayeeLength⟩ := getBytes_of_isHexString hE hpayee hpayee'
  rw [UINT64_MAX] at hexpiry
  rw [UINT256_MAX] at hgas hpayment
  obtain ⟨expiryTime, hexpiry, hexpiryLt⟩ := exists_nat_of_inRange 64 hexpiry
  obtain ⟨gasLimit, hgas, hgasLt⟩ := exists_nat_of_inRange 256 hgas
  obtain ⟨requiredPayment, hpayment, hpaymentLt⟩ := exists_nat_of_inRange 256 hpayment
  rw [hgas] at hgasText
  rw [hpayment] at hpaymentText
  have hgasBytes := getBytes_of_toBeHex (n := 32) hE hgasLt hgasText hgas'
  have hpaymentBytes := getBytes_of_toBeHex (n := 32) hE hpaymentLt hpaymentText hpayment'
  have hmarker : pre = packBytes4 Ntt.SIGNED_QUOTE_PREFIX :=
    Except.ok.inj (hpre.symm.trans (hE.getBytes (by decide)))
  have hpreLength : pre.length = 4 := by rw [hmarker, packBytes4, length_beBytes]
  have hgasLength : gas.length = 32 := by rw [hgasBytes, length_beBytes]
  have hpaymentLength : payment.length = 32 := by rw [hpaymentBytes, length_beBytes]
  rw [setUint16] at h₄ h₅
  rw [setBigUint64] at h₆
  -- every write starts where the last one ended
  obtain ⟨ho₁, hlen₁⟩ := set_next 4 128 (List.nil_append _).symm rfl hpreLength h₁
  obtain ⟨ho₂, hlen₂⟩ := set_next 20 108 ho₁ hlen₁ hquoterLength h₂
  obtain ⟨ho₃, hlen₃⟩ := set_next 32 76 ho₂ hlen₂ hpayeeLength h₃
  obtain ⟨ho₄, hlen₄⟩ := set_next 2 74 ho₃ hlen₃ (length_beBytes ..) h₄
  obtain ⟨ho₅, hlen₅⟩ := set_next 2 72 ho₄ hlen₄ (length_beBytes ..) h₅
  obtain ⟨ho₆, hlen₆⟩ := set_next 8 64 ho₅ hlen₅ (length_beBytes ..) h₆
  obtain ⟨ho₇, hlen₇⟩ := set_next 32 32 ho₆ hlen₆ hgasLength h₇
  obtain ⟨ho₈, -⟩ := set_next 32 0 ho₇ hlen₇ hpaymentLength h₈
  have hexpiryMod : (body.expiryTime % 2 ^ 64).toNat = (UInt64.ofNat expiryTime).toNat := by
    rw [hexpiry, UInt64.toNat_ofNat']
    omega
  have hexpiryBack : (UInt64.ofNat expiryTime).toNat = expiryTime := by
    rw [UInt64.toNat_ofNat', Nat.mod_eq_of_lt hexpiryLt]
  have hquoterBack := beBytes_ofNat_beNat (w := 160) hquoterLength (by norm_num)
  have hpayeeBack := beBytes_ofNat_beNat (w := 256) hpayeeLength (by norm_num)
  refine ⟨{
    pre := Ntt.SIGNED_QUOTE_PREFIX
    quotedQuoter := BitVec.ofNat 160 (beNat quoter)
    universalPayeeAddress := BitVec.ofNat 256 (beNat payee)
    signedSourceChain := body.srcChain.toUint16
    signedTargetChain := body.dstChain.toUint16
    expiryTime := UInt64.ofNat expiryTime
    gasLimit, requiredPayment }, rfl, ⟨hgasLt, hpaymentLt⟩, ?_, ?_⟩
  · exact {
      quoterAddress := hquoter.trans (congrArg some hquoterBack.symm)
      payeeAddress := hpayee.trans (congrArg some hpayeeBack.symm)
      srcChain := (ofUint16_toUint16 hwhole.1 hsrc).symm
      dstChain := (ofUint16_toUint16 hwhole.2 hdst).symm
      expiryTime := by rw [hexpiry, hexpiryBack]
      gasLimit := hgas
      requiredPayment := hpayment }
  · rw [ho₈, hexpiryMod, hgasBytes, hpaymentBytes, hmarker, layout, packBytes32, packUint64,
      hquoterBack, hpayeeBack]
    simp only [List.nil_append, List.replicate_zero, List.append_nil, packUint16]

/-! ### Taking a quote apart -/

theorem length_slice {bytes : Bytes} {start stop : ℕ} (hle : start ≤ stop)
    (h : stop ≤ bytes.length) : (slice bytes start stop).length = stop - start := by
  rw [slice, List.length_take, List.length_drop]
  omega

theorem getUint_eq {bytes : Bytes} {offset n : ℕ} (h : offset + n ≤ bytes.length) :
    getUint bytes offset n = .ok (numberAt bytes offset n) := if_pos h

theorem bigInt_ofBytes {b : Bytes} (h : 0 < b.length) : bigInt (Hex.ofBytes b) = .ok (beNat b) := by
  cases b with
  | nil => exact absurd h (Nat.lt_irrefl 0)
  | cons x b => rw [bigInt, Hex.bytes?_ofBytes]

/-- The service and the relayer read the same fields off a signed quote. -/
theorem decodeSignedQuote_spec {E : Ethers} {hash : Bytes → Bytes32} (hE : E.Lawful hash)
    {text : Text} {bytes : Bytes} {q : ParsedQuote} (htext : E.getBytes text = .ok bytes)
    (hparse : parseSignedQuote bytes = .ok q) :
    ∃ decoded, decodeSignedQuote E text = .ok decoded ∧ Denotes decoded.toQuoteBody q ∧
      decoded.signedQuoteBytes = Hex.ofBytes bytes := by
  rw [parseSignedQuote] at hparse
  split at hparse
  · cases hparse
  rename_i hlength
  have hlen : bytes.length = 197 := not_not.mp hlength
  obtain rfl := Except.ok.inj hparse
  have hhex (b : Bytes) : E.hexlify (.bytes b) = .ok (Hex.ofBytes b) := hE.hexlify rfl
  have hquoter : (slice bytes 4 24).length = 24 - 4 := length_slice (by omega) (by omega)
  have hpayee : (slice bytes 24 56).length = 56 - 24 := length_slice (by omega) (by omega)
  have hgas : (slice bytes 68 100).length = 100 - 68 := length_slice (by omega) (by omega)
  have hpayment : (slice bytes 100 132).length = 132 - 100 := length_slice (by omega) (by omega)
  obtain ⟨address, haddress, hdenotes⟩ := hE.getAddress _ hquoter
  have hsource : numberAt bytes 56 2 < 2 ^ 16 := numberAt_lt (by omega)
  have htarget : numberAt bytes 58 2 < 2 ^ 16 := numberAt_lt (by omega)
  have hexpiry : numberAt bytes 60 8 < 2 ^ 64 := numberAt_lt (by omega)
  refine ⟨⟨⟨address, Hex.ofBytes (slice bytes 24 56), .finite (numberAt bytes 56 2 : ℕ),
    .finite (numberAt bytes 58 2 : ℕ), (numberAt bytes 60 8 : ℕ), beNat (slice bytes 68 100),
    beNat (slice bytes 100 132)⟩, Hex.ofBytes bytes⟩, ?_, ?_, rfl⟩
  · simp only [decodeSignedQuote, htext, bind, Except.bind, hhex, haddress,
      getUint_eq (show 56 + 2 ≤ bytes.length by omega),
      getUint_eq (show 58 + 2 ≤ bytes.length by omega),
      getUint_eq (show 60 + 8 ≤ bytes.length by omega),
      bigInt_ofBytes (hgas.symm ▸ (by decide : 0 < 100 - 68)),
      bigInt_ofBytes (hpayment.symm ▸ (by decide : 0 < 132 - 100))]
    rw [throwWhen, if_neg (by simpa using hlength)]
    rfl
  · exact {
      quoterAddress := hdenotes.trans (congrArg some (beBytes_ofNat_beNat hquoter rfl).symm)
      payeeAddress := (Hex.bytes?_ofBytes _).trans
        (congrArg some (beBytes_ofNat_beNat hpayee rfl).symm)
      srcChain := by
        rw [Number.ofUint16, UInt16.toNat_ofNat', Nat.mod_eq_of_lt hsource]
      dstChain := by
        rw [Number.ofUint16, UInt16.toNat_ofNat', Nat.mod_eq_of_lt htarget]
      expiryTime := by
        change ((numberAt bytes 60 8 : ℕ) : ℤ) = (UInt64.ofNat (numberAt bytes 60 8)).toNat
        rw [UInt64.toNat_ofNat', Nat.mod_eq_of_lt hexpiry]
      gasLimit := rfl
      requiredPayment := rfl }

/-! ### Signed quotes -/

/-- What the service makes of a body that it packed, and what the relayer and the service read off
it. -/
structure Agreed (E : Ethers) (R : SpecialRelayer) (key : SigningKey) (body : QuoteBody)
    (encoded : Bytes) (signed : SignedQuote) (bytes : Bytes) (q : ParsedQuote) : Prop where
  same : signed.toQuoteBody = body
  text : E.getBytes signed.signedQuoteBytes = .ok bytes
  parsed : parseSignedQuote bytes = .ok q
  pre : q.pre = Ntt.SIGNED_QUOTE_PREFIX
  fields : Denotes body q
  /-- The first 132 bytes are what was packed. -/
  front : bytes.take SIGNED_QUOTE_BODY_LENGTH = encoded
  length : encoded.length = SIGNED_QUOTE_BODY_LENGTH
  /-- The relayer recovers the signer from the hash that was signed. -/
  signer : ∃ sig r s, E.keccak256 encoded = .ok (Hex.ofBytes (packBytes32 (R.keccak256 encoded))) ∧
    key.sign (Hex.ofBytes (packBytes32 (R.keccak256 encoded))) = .ok sig ∧ sig.Denotes r s ∧
    R.recoverQuoteSigner bytes = R.recover (R.keccak256 encoded) sig.v r s
  decoded : ∃ decoded, decodeSignedQuote E signed.signedQuoteBytes = .ok decoded ∧
    Denotes decoded.toQuoteBody q ∧ decoded.signedQuoteBytes = signed.signedQuoteBytes

/-- What follows a packed body. -/
def signatureBytes (r s : Bytes32) (v : UInt8) : Bytes := packBytes32 r ++ packBytes32 s ++ [v]

theorem length_signatureBytes (r s : Bytes32) (v : UInt8) :
    (signatureBytes r s v).length = 65 := by
  simp only [signatureBytes, packBytes32, List.length_append, length_beBytes, List.length_singleton]

/-- The relayer reads a signature off the end, and the hash of what comes before. -/
theorem recoverQuoteSigner_append (R : SpecialRelayer) {encoded : Bytes}
    (hlen : encoded.length = SIGNED_QUOTE_BODY_LENGTH) (r s : Bytes32) (v : UInt8) :
    R.recoverQuoteSigner (encoded ++ signatureBytes r s v) =
      R.recover (R.keccak256 encoded) v r s := by
  have hstands : StandsAt (encoded ++ signatureBytes r s v) (0 + encoded.length)
      (signatureBytes r s v) := (StandsAt.self _).right
  have htake : (encoded ++ signatureBytes r s v).take SIGNED_QUOTE_BODY_LENGTH = encoded := by
    rw [← hlen, List.take_left]
  have hv : [v] = beBytes 1 v.toNat ++ [] := by
    rw [List.append_nil, beBytes, beBytes, List.nil_append, UInt8.ofNat_toNat]
  rw [SpecialRelayer.recoverQuoteSigner, htake]
  generalize encoded ++ signatureBytes r s v = b at hstands
  rw [hlen, Nat.zero_add, signatureBytes, List.append_assoc, hv] at hstands
  obtain ⟨hr, hstands⟩ := hstands.field r.isLt
  obtain ⟨hs, hstands⟩ := hstands.field s.isLt
  obtain ⟨hv, -⟩ := hstands.field v.toNat_lt
  rw [hr, hs, show SIGNED_QUOTE_BODY_LENGTH + 64 = SIGNED_QUOTE_BODY_LENGTH + 32 + 32 from rfl, hv,
    BitVec.ofNat_toNat, BitVec.ofNat_toNat, UInt8.ofNat_toNat]
  rfl

theorem signQuote_spec {E : Ethers} {R : SpecialRelayer} (hE : E.Lawful R.keccak256)
    {key : SigningKey} (hkey : key.Lawful) {body : QuoteBody} {encoded : Bytes}
    (hwhole : body.Whole) (h : encodeQuoteBody E body = .ok encoded) :
    ∃ signed bytes q, signQuote E body key = .ok signed ∧
      Agreed E R key body encoded signed bytes q := by
  obtain ⟨q, hpre, hfits, hfields, hlayout⟩ := encodeQuoteBody_spec hE hwhole h
  obtain ⟨sig, r, s, hsign, hr, hs⟩ := hkey (R.keccak256 encoded)
  have hlength : encoded.length = SIGNED_QUOTE_BODY_LENGTH := by rw [hlayout, length_layout]
  have hdigest := hE.keccak256 encoded
  have hsignature : E.concat [.text sig.r, .text sig.s, .bytes [sig.v]] =
      .ok (Hex.ofBytes (signatureBytes r s sig.v)) := by
    have hparts : [.text sig.r, .text sig.s, .bytes [sig.v]].mapM BytesLike.bytes? =
        some [packBytes32 r, packBytes32 s, [sig.v]] := by
      simp [List.mapM_cons, BytesLike.bytes?, hr, hs]
    rw [hE.concat hparts]
    simp [signatureBytes]
  have hconcat : E.concat [.bytes encoded, .text (Hex.ofBytes (signatureBytes r s sig.v))] =
      .ok (Hex.ofBytes (encoded ++ signatureBytes r s sig.v)) := by
    have hparts : [.bytes encoded, .text (Hex.ofBytes (signatureBytes r s sig.v))].mapM
        BytesLike.bytes? = some [encoded, signatureBytes r s sig.v] := by
      simp [List.mapM_cons, BytesLike.bytes?, Hex.bytes?_ofBytes]
    rw [hE.concat hparts]
    simp
  have hhex := hE.hexlify (x := .text (Hex.ofBytes (encoded ++ signatureBytes r s sig.v)))
    (Hex.bytes?_ofBytes _)
  have htext := hE.getBytes (Hex.bytes?_ofBytes (encoded ++ signatureBytes r s sig.v))
  have hparse : parseSignedQuote (encoded ++ signatureBytes r s sig.v) = .ok q := by
    rw [hlayout]
    exact parseSignedQuote_layout hfits (length_signatureBytes ..)
  refine ⟨⟨body, _⟩, _, q, ?_, {
    same := rfl
    text := htext
    parsed := hparse
    pre := hpre
    fields := hfields
    front := by rw [← hlength, List.take_left]
    length := hlength
    signer := ⟨sig, r, s, hdigest, hsign, ⟨hr, hs⟩, recoverQuoteSigner_append R hlength r s sig.v⟩
    decoded := decodeSignedQuote_spec hE htext hparse }⟩
  simp only [signQuote, h, hdigest, hsign, hsignature, hconcat, hhex, bind, Except.bind]
  rfl

/-- **Agreement on signed quotes.** A body with whole chain ids that is packed is signed, the relayer
reads the fields that it denotes and recovers the signer from the hash of what was packed, and the
service takes the quote apart into the same fields. Bodies that are packed alike denote the same
fields. And whatever the relayer parses, the service takes apart into the same fields. -/
theorem signed_quote_agreement (E : Ethers) (R : SpecialRelayer) (hE : E.Lawful R.keccak256)
    (key : SigningKey) (hkey : key.Lawful) :
    (∀ body encoded, body.Whole → encodeQuoteBody E body = .ok encoded →
      ∃ signed bytes q, signQuote E body key = .ok signed ∧
        Agreed E R key body encoded signed bytes q) ∧
    (∀ body body' encoded, body.Whole → body'.Whole → encodeQuoteBody E body = .ok encoded →
      encodeQuoteBody E body' = .ok encoded → ∃ q, Denotes body q ∧ Denotes body' q) ∧
    ∀ text bytes q, E.getBytes text = .ok bytes → parseSignedQuote bytes = .ok q →
      ∃ decoded, decodeSignedQuote E text = .ok decoded ∧ Denotes decoded.toQuoteBody q ∧
        decoded.signedQuoteBytes = Hex.ofBytes bytes := by
  refine ⟨fun body encoded hwhole h => signQuote_spec hE hkey hwhole h, ?_,
    fun text bytes q htext hparse => decodeSignedQuote_spec hE htext hparse⟩
  intro body body' encoded hwhole hwhole' h h'
  obtain ⟨q, -, hfits, hfields, hlayout⟩ := encodeQuoteBody_spec hE hwhole h
  obtain ⟨q', -, hfits', hfields', hlayout'⟩ := encodeQuoteBody_spec hE hwhole' h'
  obtain rfl : q = q' := layout_inj hfits hfits' (hlayout.symm.trans hlayout')
  exact ⟨q, hfields, hfields'⟩

/-! ### A quote of the service -/

/-- The body of a quote of a service with a known key, priced at a quarter of an ether. -/
def sampleBody : QuoteBody where
  quoterAddress := "0xe05fcC23807536bEe418f142D19fa0d21BB0cfF7".toList
  payeeAddress := "0x000000000000000000000000000000000000000000000000000000000000fee1".toList
  srcChain := .finite 2
  dstChain := .finite 5
  expiryTime := 1700000000
  gasLimit := 200000
  requiredPayment := 250000000000000000

/-- The hash of the packed sample. -/
def sampleHash : Bytes32 := 0xc6f929d783099d0af9f7c75a24252fe0e5b45f077ab90f1e4c1910f6317fe6de

/-- The functions of the library, with the checksum of the sample's address and the hash of the
sample. -/
def Ethers.reference : Ethers where
  isHexString t n := decide ((Hex.bytes? t).map List.length = some n)
  getBytes t := ((Hex.bytes? t).map .ok).getD (.error .external)
  hexlify x := (x.bytes?.map fun b => .ok (Hex.ofBytes b)).getD (.error .external)
  concat xs := ((xs.mapM BytesLike.bytes?).map fun bs => .ok (Hex.ofBytes bs.flatten)).getD
    (.error .external)
  getAddress t :=
    if Hex.bytes? t = Hex.bytes? sampleBody.quoterAddress then .ok sampleBody.quoterAddress
    else .ok t
  toBeHex v n := .ok (Hex.ofBytes (beBytes n v.toNat))
  keccak256 _ := .ok (Hex.ofBytes (packBytes32 sampleHash))

/-- The key of the service: it signs with the sample's signature. -/
def sampleKey : SigningKey where
  sign _ := .ok {
    r := "0x262059b3175dcc4ddb0e4344d240d4ed73dc1e2dcdd5a5b12c6977f840e70915".toList
    s := "0x284757c27d4357f55844f2788c426891b619d604735fcac44c194440ff33394c".toList
    v := 0x1c }

/-- A relayer that recovers the address of the service. -/
def sampleRelayer : SpecialRelayer where
  this := 0x77
  keccak256 _ := sampleHash
  recover _ _ _ _ := .ok 0xe05fcC23807536bEe418f142D19fa0d21BB0cfF7

theorem Ethers.reference_lawful : Ethers.reference.Lawful sampleRelayer.keccak256 where
  isHexString t n := by
    simp only [reference, decide_eq_true_eq, Option.map_eq_some_iff]
  getBytes h := by
    simp only [reference, h, Option.map_some, Option.getD_some]
  hexlify h := by
    simp only [reference, h, Option.map_some, Option.getD_some]
  concat h := by
    simp only [reference, h, Option.map_some, Option.getD_some]
  getAddress b hlen := by
    simp only [reference, Hex.bytes?_ofBytes]
    split
    · rename_i heq
      exact ⟨_, rfl, heq.symm⟩
    · exact ⟨_, rfl, Hex.bytes?_ofBytes b⟩
  toBeHex _ _ := rfl
  keccak256 _ := rfl

theorem sampleKey_lawful : sampleKey.Lawful := fun _ =>
  ⟨_, 0x262059b3175dcc4ddb0e4344d240d4ed73dc1e2dcdd5a5b12c6977f840e70915,
    0x284757c27d4357f55844f2788c426891b619d604735fcac44c194440ff33394c, rfl, by decide +kernel,
    by decide +kernel⟩

/-- The sample packed. -/
def sampleEncoded : Bytes := (encodeQuoteBody .reference sampleBody).toOption.getD []

theorem encode_sample : encodeQuoteBody .reference sampleBody = .ok sampleEncoded := by
  decide +kernel

/-- The sample with the small digits of its address. -/
def lowerCaseBody : QuoteBody :=
  { sampleBody with quoterAddress := "0xe05fcc23807536bee418f142d19fa0d21bb0cff7".toList }

theorem encode_lowerCase : encodeQuoteBody .reference lowerCaseBody = .ok sampleEncoded := by
  decide +kernel

theorem sample_signed_quote_agreement :
    (∃ signed bytes q, signQuote .reference sampleBody sampleKey = .ok signed ∧
      Agreed .reference sampleRelayer sampleKey sampleBody sampleEncoded signed bytes q) ∧
    (∃ q, Denotes sampleBody q ∧ Denotes lowerCaseBody q) ∧
    ∃ decoded, decodeSignedQuote .reference (Hex.ofBytes (List.replicate 197 0)) = .ok decoded ∧
      Denotes decoded.toQuoteBody ⟨0, 0, 0, 0, 0, 0, 0, 0⟩ := by
  obtain ⟨hsign, hsame, hdecode⟩ := signed_quote_agreement .reference sampleRelayer
    Ethers.reference_lawful sampleKey sampleKey_lawful
  have hwhole : sampleBody.Whole := ⟨⟨2, rfl⟩, ⟨5, rfl⟩⟩
  have hwhole' : lowerCaseBody.Whole := ⟨⟨2, rfl⟩, ⟨5, rfl⟩⟩
  have hzeros := hdecode (Hex.ofBytes (List.replicate 197 0)) (List.replicate 197 0)
    ⟨0, 0, 0, 0, 0, 0, 0, 0⟩ (by decide +kernel) (by decide +kernel)
  obtain ⟨decoded, hdecoded, hdenotes, -⟩ := hzeros
  exact ⟨hsign sampleBody sampleEncoded hwhole encode_sample,
    hsame sampleBody lowerCaseBody sampleEncoded hwhole hwhole' encode_sample encode_lowerCase,
    decoded, hdecoded, hdenotes⟩

/-- Two texts of one address are packed alike, and the signed quote is taken apart into the one with
the checksum. A chain id that is not whole is packed as the whole number below it, and so is one that
is no number as zero. -/
theorem bodies_coincide :
    encodeQuoteBody .reference sampleBody = .ok sampleEncoded ∧
      encodeQuoteBody .reference lowerCaseBody = .ok sampleEncoded ∧ sampleBody ≠ lowerCaseBody ∧
      ((signQuote .reference lowerCaseBody sampleKey).bind fun signed =>
        decodeSignedQuote .reference signed.signedQuoteBytes).map SignedQuote.toQuoteBody =
          .ok sampleBody ∧
      encodeQuoteBody .reference { sampleBody with srcChain := .finite (5 / 2) } =
        .ok sampleEncoded ∧
      (parseSignedQuote (sampleEncoded ++ List.replicate 65 0)).map (·.signedSourceChain) = .ok 2 ∧
      encodeQuoteBody .reference { sampleBody with srcChain := .nan } =
        encodeQuoteBody .reference { sampleBody with srcChain := .finite 0 } ∧
      (encodeQuoteBody .reference { sampleBody with srcChain := .nan }).isOk = true := by
  refine ⟨encode_sample, encode_lowerCase, by decide +kernel, by decide +kernel, by decide +kernel,
    by decide +kernel, by decide +kernel, by decide +kernel⟩

end Quoter

end Ntt
