import Mathlib.Tactic.Ring
import Ntt.Relayer.Basic

/-!
# The Fees of a Relay

The fee fields of a delivery, from what the market asks and the number of counted failures. Each
failure raises them by the same amount, `gasPriceBumpBps` of what the market asks, so that the
fields grow along a line, while a node takes a replacement only if each field is a tenth above the
one it replaces. A step of the line is a tenth of the present fee for the first few failures only:
up to rounding, while `10000 + gasPriceBumpBps * attempt ≤ 10 * gasPriceBumpBps`.

## Main results

* `escalates_iff`: when the fees of the next attempt replace those of this one.
* `stepSuffices_whole`: the condition where nothing is rounded.
* `not_stepSuffices`: from the tenth failure on, no fee of eleven wei or more escalates enough.
-/

namespace Ntt.Relayer

/-- What the market asks, as a provider reports it. -/
structure FeeData where
  maxFeePerGas : Option ℕ
  maxPriorityFeePerGas : Option ℕ
  gasPrice : Option ℕ
deriving DecidableEq, Repr

/-- The part of the delivery configuration that fees depend on. -/
structure DeliveryConfig where
  gasPriceBumpBps : ℕ
  maxGasPriceWei : ℕ
deriving DecidableEq, Repr

/-- The fee fields of a transaction. -/
inductive FeeOverrides where
  | eip1559 (maxFeePerGas maxPriorityFeePerGas : ℕ)
  | legacy (gasPrice : ℕ)
deriving DecidableEq, Repr

def bump (value bumpBps attempt : ℕ) : ℕ :=
  if attempt = 0 ∨ bumpBps = 0 then value
  else value * (10000 + bumpBps * attempt) / 10000

/-- The fee fields for an attempt; a ceiling of zero is none. -/
def computeFeeOverrides (delivery : DeliveryConfig) (fee : FeeData) (attempt : ℕ) :
    Except RelayError FeeOverrides :=
  let maxGasPriceWei := delivery.maxGasPriceWei
  match fee.maxFeePerGas with
  | some marketMaxFee =>
      let maxFeePerGas := bump marketMaxFee delivery.gasPriceBumpBps attempt
      let maxPriorityFeePerGas :=
        bump (fee.maxPriorityFeePerGas.getD 0) delivery.gasPriceBumpBps attempt
      if 0 < maxGasPriceWei ∧ maxGasPriceWei < maxFeePerGas then
        .error (.defer s!"maxFeePerGas {maxFeePerGas} above ceiling {maxGasPriceWei}")
      else .ok (.eip1559 maxFeePerGas maxPriorityFeePerGas)
  | none =>
      match fee.gasPrice with
      | some marketGasPrice =>
          let gasPrice := bump marketGasPrice delivery.gasPriceBumpBps attempt
          if 0 < maxGasPriceWei ∧ maxGasPriceWei < gasPrice then
            .error (.defer s!"gasPrice {gasPrice} above ceiling {maxGasPriceWei}")
          else .ok (.legacy gasPrice)
      | none =>
          .error (.retriable
            "fee data unavailable: provider returned neither maxFeePerGas nor gasPrice")

/-! ### Replacements -/

/-- A fee is a tenth above another one, unless that is zero. -/
def Outbids (old new : ℕ) : Prop := old ≠ 0 → 11 * old ≤ 10 * new

/-- Each fee field replaces the one before. -/
def FeeOverrides.Escalates : FeeOverrides → FeeOverrides → Prop
  | eip1559 maxFee priority, eip1559 maxFee' priority' =>
      Outbids maxFee maxFee' ∧ Outbids priority priority'
  | legacy price, legacy price' => Outbids price price'
  | _, _ => False

/-- The market fees that the fee fields are made of. -/
def FeeData.market (fee : FeeData) : List ℕ :=
  match fee.maxFeePerGas with
  | some marketMaxFee => [marketMaxFee, fee.maxPriorityFeePerGas.getD 0]
  | none => fee.gasPrice.toList

/-- What one more attempt adds to a market fee, with what was rounded off before, is a tenth of the
present fee, rounded up. -/
def StepSuffices (bumpBps attempt value : ℕ) : Prop :=
  10000 * ((value * (10000 + bumpBps * attempt) + 90000) / 100000) ≤
    value * bumpBps + value * (10000 + bumpBps * attempt) % 10000

instance (bumpBps attempt value : ℕ) : Decidable (StepSuffices bumpBps attempt value) :=
  inferInstanceAs (Decidable (_ ≤ _))

theorem bump_eq (value bumpBps attempt : ℕ) :
    bump value bumpBps attempt = value * (10000 + bumpBps * attempt) / 10000 := by
  rw [bump]
  split
  · rename_i h
    rw [Nat.mul_eq_zero.mpr h.symm, Nat.add_zero, Nat.mul_div_cancel value (by decide)]
  · rfl

/-- A raised fee is outbid by the next one where the step suffices. -/
theorem outbids_bump_iff {value bumpBps attempt : ℕ} :
    Outbids (bump value bumpBps attempt) (bump value bumpBps (attempt + 1)) ↔
      StepSuffices bumpBps attempt value := by
  have hstep : value * (10000 + bumpBps * (attempt + 1)) =
      value * (10000 + bumpBps * attempt) + value * bumpBps := by ring
  rw [Outbids, StepSuffices, bump_eq, bump_eq, hstep]
  generalize value * (10000 + bumpBps * attempt) = present
  generalize value * bumpBps = added
  omega

/-- **Escalation.** With the same market and both attempts below the ceiling, the fees of the next
attempt replace those of this one if and only if the step suffices for each market fee. -/
theorem escalates_iff {delivery : DeliveryConfig} {fee : FeeData} {attempt : ℕ}
    {fees fees' : FeeOverrides} (h : computeFeeOverrides delivery fee attempt = .ok fees)
    (h' : computeFeeOverrides delivery fee (attempt + 1) = .ok fees') :
    fees.Escalates fees' ↔
      ∀ value ∈ fee.market, StepSuffices delivery.gasPriceBumpBps attempt value := by
  obtain ⟨maxFeePerGas, maxPriorityFeePerGas, gasPrice⟩ := fee
  cases maxFeePerGas with
  | some marketMaxFee =>
      simp only [computeFeeOverrides] at h h'
      split at h
      · cases h
      split at h'
      · cases h'
      cases h
      cases h'
      simp only [FeeOverrides.Escalates, outbids_bump_iff, FeeData.market, List.forall_mem_cons,
        List.not_mem_nil, false_imp_iff, implies_true, and_true]
  | none =>
      cases gasPrice with
      | some marketGasPrice =>
          simp only [computeFeeOverrides] at h h'
          split at h
          · cases h
          split at h'
          · cases h'
          cases h
          cases h'
          simp only [FeeOverrides.Escalates, outbids_bump_iff, FeeData.market, Option.toList,
            List.mem_singleton, forall_eq]
      | none => cases h

/-- Where nothing is rounded, the step is a tenth of the fee up to a number of attempts. -/
theorem stepSuffices_whole {bumpBps attempt value : ℕ} (hvalue : 0 < value) :
    StepSuffices bumpBps attempt (100000 * value) ↔ 10000 + bumpBps * attempt ≤ 10 * bumpBps := by
  rw [StepSuffices, Nat.mul_assoc, Nat.mul_assoc]
  have hrounded : (100000 * (value * (10000 + bumpBps * attempt)) + 90000) / 100000 =
      value * (10000 + bumpBps * attempt) := by omega
  have hnone : 100000 * (value * (10000 + bumpBps * attempt)) % 10000 = 0 := by omega
  have htenth : 100000 * (value * bumpBps) = 10000 * (value * (10 * bumpBps)) := by ring
  rw [hrounded, hnone, Nat.add_zero, htenth, Nat.mul_le_mul_left_iff (by decide),
    Nat.mul_le_mul_left_iff hvalue]

/-- From the tenth failure on the step is less than a tenth of the fee, whatever the bump is. -/
theorem not_stepSuffices {bumpBps attempt value : ℕ} (hattempt : 10 ≤ attempt)
    (hvalue : 11 ≤ value) : ¬ StepSuffices bumpBps attempt value := by
  have hpresent : 10000 * value + 10 * (value * bumpBps) ≤
      value * (10000 + bumpBps * attempt) := by
    calc 10000 * value + 10 * (value * bumpBps) = value * (10000 + bumpBps * 10) := by ring
      _ ≤ value * (10000 + bumpBps * attempt) :=
        Nat.mul_le_mul_left _ (Nat.add_le_add_left (Nat.mul_le_mul_left _ hattempt) _)
  rw [StepSuffices]
  generalize value * (10000 + bumpBps * attempt) = present at *
  omega

/-- A legacy fee of one gwei, raised by 15 percent for each failure: the fourth replacement is
taken if and only if the step suffices. -/
theorem sample_escalates :
    (FeeOverrides.legacy 1450000000).Escalates (.legacy 1600000000) ↔
      ∀ value ∈ [1000000000], StepSuffices 1500 3 value := by
  have h : computeFeeOverrides ⟨1500, 0⟩ ⟨none, none, some 1000000000⟩ 3 =
      .ok (.legacy 1450000000) := rfl
  have h' : computeFeeOverrides ⟨1500, 0⟩ ⟨none, none, some 1000000000⟩ (3 + 1) =
      .ok (.legacy 1600000000) := rfl
  exact escalates_iff h h'

/-- Raised by 10 percent for each failure, it is not high enough for the second one. -/
theorem second_replacement_refused :
    computeFeeOverrides ⟨1000, 0⟩ ⟨none, none, some 1000000000⟩ 1 = .ok (.legacy 1100000000) ∧
    computeFeeOverrides ⟨1000, 0⟩ ⟨none, none, some 1000000000⟩ 2 = .ok (.legacy 1200000000) ∧
    ¬ (FeeOverrides.legacy 1100000000).Escalates (.legacy 1200000000) := by
  refine ⟨by decide, by decide, fun h => ?_⟩
  have hten := h (by decide)
  omega

end Ntt.Relayer
