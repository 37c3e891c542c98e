import Ntt.Evm.SpecialRelayer
import Ntt.Lib.BigEndian

/-!
# The Execution Quoter

`PenguinBridgeExecutionQuoter` of the contracts: the price of a delivery, from the prices that the
oracle pushes. The whole formula is computed in an `unchecked` block. Its operations wrap, and since
a wrapped product is divided, a quote comes out too low, never too high, where anything wraps
(`wrapped_div_lt`). So the quote is the price if and only if nothing does (`quote_exact_iff`), and
then a larger request costs no less (`exactQuote_mono`).

A `uint256` is a natural number. The arguments are not bounded here, since nothing below depends on
it.
-/

namespace Ntt

/-- Pricing data of a destination chain. -/
structure PricingData where
  /-- The price of the native token, scaled by 1e10. -/
  dstPrice : UInt64
  /-- The gas price, in wei. -/
  dstGasPrice : UInt64
  /-- The upward adjustment, in basis points. -/
  priceBuffer : UInt64
  /-- The flat fee in the native token of the source chain, in wei. -/
  baseFee : UInt64
deriving DecidableEq, Repr

/-- The storage of the quoter that prices depend on. -/
structure QuoterStorage where
  sourcePrice : UInt64
  pricingData : UInt16 → PricingData

inductive QuoterError where
  | sourcePriceNotSet
deriving DecidableEq, Repr

namespace PenguinBridgeExecutionQuoter

def BPS_DENOMINATOR : ℕ := 10000

/-- `_quote`. -/
def quote (st : QuoterStorage) (dstChain : UInt16) (msgValue gasLimit : ℕ) :
    Except QuoterError ℕ :=
  let srcPrice := st.sourcePrice.toNat
  if srcPrice = 0 then .error .sourcePriceNotSet
  else
    let price := st.pricingData dstChain
    let fee := wrappingAdd price.baseFee.toNat
      (wrappingMul (wrappingMul gasLimit price.dstGasPrice.toNat) price.dstPrice.toNat / srcPrice)
    .ok (wrappingAdd (wrappingMul msgValue price.dstPrice.toNat / srcPrice)
      (wrappingMul fee (wrappingAdd BPS_DENOMINATOR price.priceBuffer.toNat) / BPS_DENOMINATOR))

/-- `_decodeUint256`: what is too short is read as zero. -/
def decodeUint256 (encoded : Bytes) : ℕ :=
  if encoded.length < 32 then 0 else numberAt encoded 0 32

def requestQuote (st : QuoterStorage) (dstChain : UInt16) (requestBytes relayInstructions : Bytes) :
    Except QuoterError ℕ :=
  quote st dstChain (decodeUint256 requestBytes) (decodeUint256 relayInstructions)

/-! ### The price -/

section

variable (price : PricingData) (srcPrice msgValue gasLimit : ℕ)

/-- What the execution costs, without the buffer. -/
def exactFee : ℕ :=
  price.baseFee.toNat + gasLimit * price.dstGasPrice.toNat * price.dstPrice.toNat / srcPrice

/-- The price of a request. -/
def exactQuote : ℕ :=
  msgValue * price.dstPrice.toNat / srcPrice +
    exactFee price srcPrice gasLimit * (BPS_DENOMINATOR + price.priceBuffer.toNat) / BPS_DENOMINATOR

/-- Nothing leaves 256 bits on the way to the price. -/
structure InRange : Prop where
  value : msgValue * price.dstPrice.toNat < 2 ^ 256
  gas : gasLimit * price.dstGasPrice.toNat * price.dstPrice.toNat < 2 ^ 256
  fee : exactFee price srcPrice gasLimit * (BPS_DENOMINATOR + price.priceBuffer.toNat) < 2 ^ 256
  quote : exactQuote price srcPrice msgValue gasLimit < 2 ^ 256

end

section

variable {price : PricingData} {srcPrice msgValue msgValue' gasLimit gasLimit' : ℕ}

theorem exactFee_mono (hgas : gasLimit ≤ gasLimit') :
    exactFee price srcPrice gasLimit ≤ exactFee price srcPrice gasLimit' := by
  refine Nat.add_le_add_left (Nat.div_le_div_right ?_) _
  exact Nat.mul_le_mul_right _ (Nat.mul_le_mul_right _ hgas)

theorem exactQuote_mono (hvalue : msgValue ≤ msgValue') (hgas : gasLimit ≤ gasLimit') :
    exactQuote price srcPrice msgValue gasLimit ≤ exactQuote price srcPrice msgValue' gasLimit' := by
  refine Nat.add_le_add (Nat.div_le_div_right (Nat.mul_le_mul_right _ hvalue)) ?_
  exact Nat.div_le_div_right (Nat.mul_le_mul_right _ (exactFee_mono hgas))

/-- What is in range for a request is so for a smaller one. -/
theorem InRange.mono (h : InRange price srcPrice msgValue' gasLimit') (hvalue : msgValue ≤ msgValue')
    (hgas : gasLimit ≤ gasLimit') : InRange price srcPrice msgValue gasLimit where
  value := (Nat.mul_le_mul_right _ hvalue).trans_lt h.value
  gas := (Nat.mul_le_mul_right _ (Nat.mul_le_mul_right _ hgas)).trans_lt h.gas
  fee := (Nat.mul_le_mul_right _ (exactFee_mono hgas)).trans_lt h.fee
  quote := (exactQuote_mono hvalue hgas).trans_lt h.quote

end

/-! ### Wrapping -/

section

variable {w n d k f f' a a' : ℕ}

/-- A quotient is too small if its numerator has wrapped. -/
theorem wrapped_div_lt (hn : w ≤ n) (hd : 0 < d) (hdw : d ≤ w) : n % w / d < n / d := by
  have hsplit := Nat.mod_add_div n w
  have hquot : 1 ≤ n / w := (Nat.one_le_div_iff (hd.trans_le hdw)).mpr hn
  have hrest : w ≤ w * (n / w) := Nat.le_mul_of_pos_right w hquot
  calc n % w / d < n % w / d + 1 := Nat.lt_succ_self _
    _ = (n % w + d) / d := (Nat.add_div_right _ hd).symm
    _ ≤ n / d := Nat.div_le_div_right (by omega)

theorem wrapped_div_le : n % w / d ≤ n / d := Nat.div_le_div_right (Nat.mod_le n w)

/-- A sum of parts that are at most the exact ones comes to the exact sum only with these. -/
theorem wrapped_add_eq (ha : a' ≤ a) (hn : n ≤ k) (h : (a' + n) % w = a + k) :
    a' = a ∧ n = k := by
  have hle := Nat.mod_le (a' + n) w
  omega

/-- A fee that is too small stays so with the buffer. -/
theorem buffered_lt (hf : f' < f) (hd : 0 < d) (hk : d ≤ k) : f' * k / d < f * k / d := by
  have hmul : f' * k + k ≤ f * k := by
    rw [← Nat.succ_mul]
    exact Nat.mul_le_mul_right k hf
  calc f' * k / d < f' * k / d + 1 := Nat.lt_succ_self _
    _ = (f' * k + d) / d := (Nat.add_div_right _ hd).symm
    _ ≤ f * k / d := Nat.div_le_div_right (by omega)

/-- With the buffer, a fee that is no more than the exact one comes to the same only if it is that
one, and does not wrap. -/
theorem buffered_eq (hf : f' ≤ f) (hd : 0 < d) (hk : d ≤ k) (hdw : d ≤ w)
    (h : f' * k % w / d = f * k / d) : f' = f ∧ f * k < w := by
  have heq : f' = f := by
    by_contra hne
    have hlt := buffered_lt (lt_of_le_of_ne hf hne) hd hk
    have hle : f' * k % w / d ≤ f' * k / d := wrapped_div_le
    omega
  refine ⟨heq, Nat.lt_of_not_le fun hw => ?_⟩
  have hlt := wrapped_div_lt hw hd hdw
  rw [heq] at h
  omega

end

/-! ### Exactness -/

section

variable {st : QuoterStorage} (dstChain : UInt16) (msgValue gasLimit : ℕ)

theorem wrappingMul_wrappingMul (a b c : ℕ) :
    wrappingMul (wrappingMul a b) c = a * b * c % 2 ^ 256 := by
  rw [wrappingMul, wrappingMul, Nat.mul_mod, Nat.mod_mod, ← Nat.mul_mod]

/-- The quote, with what wraps in plain sight. -/
theorem quote_eq (hsrc : 0 < st.sourcePrice.toNat) :
    quote st dstChain msgValue gasLimit =
      let price := st.pricingData dstChain
      .ok ((msgValue * price.dstPrice.toNat % 2 ^ 256 / st.sourcePrice.toNat +
        (price.baseFee.toNat + gasLimit * price.dstGasPrice.toNat * price.dstPrice.toNat % 2 ^ 256 /
          st.sourcePrice.toNat) % 2 ^ 256 * (BPS_DENOMINATOR + price.priceBuffer.toNat) % 2 ^ 256 /
          BPS_DENOMINATOR) % 2 ^ 256) := by
  have hbuffer := (st.pricingData dstChain).priceBuffer.toNat_lt
  have hbps : wrappingAdd BPS_DENOMINATOR (st.pricingData dstChain).priceBuffer.toNat =
      BPS_DENOMINATOR + (st.pricingData dstChain).priceBuffer.toNat := by
    rw [wrappingAdd, BPS_DENOMINATOR, Nat.mod_eq_of_lt (by omega)]
  simp only [quote, if_neg hsrc.ne', wrappingMul_wrappingMul, hbps]
  simp only [wrappingAdd, wrappingMul]

/-- The quote is the price if and only if nothing leaves 256 bits. -/
theorem quote_eq_exact (hsrc : 0 < st.sourcePrice.toNat) :
    quote st dstChain msgValue gasLimit =
        .ok (exactQuote (st.pricingData dstChain) st.sourcePrice.toNat msgValue gasLimit) ↔
      InRange (st.pricingData dstChain) st.sourcePrice.toNat msgValue gasLimit := by
  have hsrcLt := st.sourcePrice.toNat_lt
  rw [quote_eq dstChain msgValue gasLimit hsrc]
  generalize st.pricingData dstChain = price
  generalize st.sourcePrice.toNat = srcPrice at hsrc hsrcLt
  simp only [Except.ok.injEq]
  constructor
  · intro h
    have hquote : exactQuote price srcPrice msgValue gasLimit < 2 ^ 256 :=
      h ▸ Nat.mod_lt _ (by decide)
    have hbps : BPS_DENOMINATOR ≤ BPS_DENOMINATOR + price.priceBuffer.toNat :=
      Nat.le_add_right _ _
    have hpos : 0 < BPS_DENOMINATOR := by decide
    -- Each part of the quote is at most the part of the price, so that both are the same.
    obtain ⟨value, hvalue⟩ : ∃ value, msgValue * price.dstPrice.toNat % 2 ^ 256 / srcPrice = value :=
      ⟨_, rfl⟩
    obtain ⟨gas, hgas⟩ : ∃ gas, gasLimit * price.dstGasPrice.toNat * price.dstPrice.toNat %
        2 ^ 256 / srcPrice = gas := ⟨_, rfl⟩
    rw [hvalue, hgas] at h
    have hvalueLe : value ≤ msgValue * price.dstPrice.toNat / srcPrice := hvalue ▸ wrapped_div_le
    have hgasLe : gas ≤ gasLimit * price.dstGasPrice.toNat * price.dstPrice.toNat / srcPrice :=
      hgas ▸ wrapped_div_le
    have hfeeLe : (price.baseFee.toNat + gas) % 2 ^ 256 ≤ exactFee price srcPrice gasLimit :=
      (Nat.mod_le _ _).trans (Nat.add_le_add_left hgasLe _)
    have hbufferedLe : (price.baseFee.toNat + gas) % 2 ^ 256 *
        (BPS_DENOMINATOR + price.priceBuffer.toNat) % 2 ^ 256 / BPS_DENOMINATOR ≤
          exactFee price srcPrice gasLimit * (BPS_DENOMINATOR + price.priceBuffer.toNat) /
            BPS_DENOMINATOR :=
      wrapped_div_le.trans (Nat.div_le_div_right (Nat.mul_le_mul_right _ hfeeLe))
    obtain ⟨hvalueEq, hbufferedEq⟩ := wrapped_add_eq hvalueLe hbufferedLe h
    obtain ⟨hfeeEq, hfee⟩ := buffered_eq hfeeLe hpos hbps (by decide) hbufferedEq
    obtain ⟨-, hgasEq⟩ := wrapped_add_eq le_rfl hgasLe hfeeEq
    refine ⟨Nat.lt_of_not_le fun hw => ?_, Nat.lt_of_not_le fun hw => ?_, hfee, hquote⟩
    · have hlt := wrapped_div_lt hw hsrc (by omega)
      omega
    · have hlt := wrapped_div_lt hw hsrc (by omega)
      omega
  · intro h
    have hbps : 1 ≤ BPS_DENOMINATOR + price.priceBuffer.toNat := by
      rw [BPS_DENOMINATOR]
      omega
    have hfee : exactFee price srcPrice gasLimit < 2 ^ 256 :=
      (Nat.le_mul_of_pos_right _ hbps).trans_lt h.fee
    rw [Nat.mod_eq_of_lt h.value, Nat.mod_eq_of_lt h.gas, ← exactFee, Nat.mod_eq_of_lt hfee,
      Nat.mod_eq_of_lt h.fee, ← exactQuote, Nat.mod_eq_of_lt h.quote]

end

/-- **The quote is the price** of the request if and only if nothing leaves 256 bits on the way, and
then a smaller request is quoted no higher. -/
theorem quote_exact_iff (st : QuoterStorage) (dstChain : UInt16)
    (hsrc : 0 < st.sourcePrice.toNat) :
    (∀ msgValue gasLimit,
      quote st dstChain msgValue gasLimit =
          .ok (exactQuote (st.pricingData dstChain) st.sourcePrice.toNat msgValue gasLimit) ↔
        InRange (st.pricingData dstChain) st.sourcePrice.toNat msgValue gasLimit) ∧
    ∀ msgValue gasLimit msgValue' gasLimit', msgValue ≤ msgValue' → gasLimit ≤ gasLimit' →
      InRange (st.pricingData dstChain) st.sourcePrice.toNat msgValue' gasLimit' →
        ∃ q q', quote st dstChain msgValue gasLimit = .ok q ∧
          quote st dstChain msgValue' gasLimit' = .ok q' ∧ q ≤ q' := by
  refine ⟨fun msgValue gasLimit => quote_eq_exact dstChain msgValue gasLimit hsrc, ?_⟩
  intro msgValue gasLimit msgValue' gasLimit' hvalue hgas hrange
  exact ⟨_, _, (quote_eq_exact dstChain msgValue gasLimit hsrc).mpr (hrange.mono hvalue hgas),
    (quote_eq_exact dstChain msgValue' gasLimit' hsrc).mpr hrange, exactQuote_mono hvalue hgas⟩

/-- A source price and a destination price of about 1759 dollars, and nothing else to pay. -/
def samplePrices : QuoterStorage := ⟨17592186044416, fun _ => ⟨17592186044416, 0, 0, 0⟩⟩

/-- At equal prices, 1000 wei and the value that wraps to nothing. -/
theorem sample_quote_exact :
    (quote samplePrices 4 1000 0 = .ok 1000 ↔
      InRange (samplePrices.pricingData 4) 17592186044416 1000 0) ∧
    (InRange (samplePrices.pricingData 4) 17592186044416 1000 0 →
      ∃ q q', quote samplePrices 4 10 0 = .ok q ∧ quote samplePrices 4 1000 0 = .ok q' ∧
        q ≤ q') := by
  obtain ⟨hexact, hmono⟩ := quote_exact_iff samplePrices 4 (by decide)
  exact ⟨hexact 1000 0, hmono 10 0 1000 0 (by decide) (by decide)⟩

/-- A value of `2 ^ 212` wei is quoted at nothing, and one wei at one. -/
theorem wrapped_quote_is_free :
    quote samplePrices 4 (2 ^ 212) 0 = .ok 0 ∧ quote samplePrices 4 1 0 = .ok 1 ∧
    exactQuote (samplePrices.pricingData 4) 17592186044416 (2 ^ 212) 0 = 2 ^ 212 := by
  refine ⟨by decide, by decide, by decide⟩

/-! ### Requests -/

open BigEndian

/-- An encoded word is decoded to itself. -/
theorem decodeUint256_beBytes {n : ℕ} (hn : n < 2 ^ 256) : decodeUint256 (beBytes 32 n) = n := by
  have hlen := length_beBytes 32 n
  rw [decodeUint256, if_neg (by omega), numberAt, List.drop_zero,
    List.take_of_length_le hlen.le, beNat_beBytes (by omega)]

/-- An encoded request is quoted at what it asks for. -/
theorem requestQuote_encoded (st : QuoterStorage) (dstChain : UInt16) {msgValue gasLimit : ℕ}
    (hvalue : msgValue < 2 ^ 256) (hgas : gasLimit < 2 ^ 256) :
    requestQuote st dstChain (beBytes 32 msgValue) (beBytes 32 gasLimit) =
      quote st dstChain msgValue gasLimit := by
  rw [requestQuote, decodeUint256_beBytes hvalue, decodeUint256_beBytes hgas]

end PenguinBridgeExecutionQuoter

end Ntt
