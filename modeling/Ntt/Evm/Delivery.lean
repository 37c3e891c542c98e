import Ntt.Evm.Outbound

/-!
# Deliverability across Decimals

A transfer is trimmed to the fewest of 8, the source and the destination decimals, and the
destination takes the amount to its own decimals and trims it again, to the fewer of 8 and its
own. Trimmed amounts have 64 bits, so an amount that fits at the source's precision may not fit
at the destination's: the source checks its own internal amount (`shift`), nobody checks the
destination's before the tokens are taken.

`deliverable_iff` says exactly when a transfer that is accepted can be executed, with the value
that was taken; `undeliverable` is a transfer that is accepted and never can be.

## Main results

* `parseTransfer_of_encodeTransfer`: the destination reads what the source wrote.
* `value_untrim`, `value_retrim`: no conversion of a trimmed amount changes its value.
* `deliverable_iff`: the exact condition.
* `handleTransfer_reverts`: without it the message can never be executed.
-/

namespace Ntt

open Decimal Reentrant

/-- The value of a trimmed amount. -/
def TrimmedAmount.value (a : TrimmedAmount) : ℚ :=
  Decimal.value a.getAmount.toNat a.getDecimals.toNat

/-- Untrimming to no fewer decimals keeps the value. -/
theorem value_untrim {a : TrimmedAmount} {d : UInt8} {n : ℕ}
    (hle : a.getDecimals.toNat ≤ d.toNat) (h : a.untrim d = .ok n) :
    value n d.toNat = a.value := by
  rw [untrim_eq_ok] at h
  rw [← h.1, value_rescale_up hle, TrimmedAmount.value]

/-- Trimming again at the destination does nothing to the value. -/
theorem value_retrim {a c : TrimmedAmount} {d : UInt8} {n : ℕ}
    (hle : a.getDecimals.toNat ≤ min 8 d.toNat) (h : a.untrim d = .ok n)
    (hc : trim n d d = .ok c) :
    c.value = a.value ∧ c.getDecimals.toNat = min 8 d.toNat := by
  obtain ⟨hn, -⟩ := untrim_eq_ok.mp h
  obtain ⟨hdec, hamount, -⟩ := trim_eq_ok.mp hc
  have hwire : (wireDecimals d d).toNat = min 8 d.toNat := by
    rw [toNat_wireDecimals]
    omega
  rw [← hn, rescale_rescale (by omega) (by omega)] at hamount
  refine ⟨?_, by rw [hdec, hwire]⟩
  rw [TrimmedAmount.value, hamount, hdec, value_rescale_up (by omega), TrimmedAmount.value]

/-- Untrimming what was trimmed again gives the amount back. -/
theorem untrim_retrim {a c : TrimmedAmount} {d : UInt8} {n : ℕ}
    (hle : a.getDecimals.toNat ≤ min 8 d.toNat) (h : a.untrim d = .ok n) (hlt : n < 2 ^ 256)
    (hc : trim n d d = .ok c) : c.untrim d = .ok n := by
  obtain ⟨hn, hpow, -⟩ := untrim_eq_ok.mp h
  obtain ⟨-, hcdec⟩ := value_retrim hle h hc
  obtain ⟨hdec, hamount, hpow'⟩ := trim_eq_ok.mp hc
  rw [← hdec, hcdec] at hamount hpow'
  rw [← hn, rescale_rescale (by omega) hle] at hamount
  have hback : rescale c.getAmount.toNat (min 8 d.toNat) d.toNat = n := by
    rw [hamount, rescale_rescale hle (by omega), hn]
  refine untrim_eq_ok.mpr ⟨by rw [hcdec, hback], fun _ => ⟨?_, by rwa [hcdec]⟩, fun _ => ?_⟩
  · rw [hcdec, show min 8 d.toNat - d.toNat = 0 by omega]
    norm_num
  · rw [hcdec, ← rescale_of_le (by omega), hback]
    exact hlt

/-- What a source manager accepts of a transfer, with the decimals of its token and of the peer:
the amount trims without dust, and as an internal amount of the source. -/
structure Accepted (fromDecimals toDecimals : UInt8) (amount : ℕ) (trimmed : TrimmedAmount) :
    Prop where
  amount_ne_zero : amount ≠ 0
  toDecimals_ne_zero : toDecimals ≠ 0
  trim_eq : trim amount fromDecimals toDecimals = .ok trimmed
  no_dust : trimmed.untrim fromDecimals = .ok amount
  internal : ∃ internalAmount, trimmed.shift fromDecimals = .ok internalAmount

namespace Accepted

variable {fromDecimals toDecimals : UInt8} {amount : ℕ} {trimmed : TrimmedAmount}
  (h : Accepted fromDecimals toDecimals amount trimmed)
include h

theorem decimals_eq :
    trimmed.getDecimals.toNat = min (min 8 fromDecimals.toNat) toDecimals.toNat := by
  rw [(trim_eq_ok.mp h.trim_eq).1, toNat_wireDecimals]

/-- The amount is what was trimmed, scaled up. -/
theorem amount_eq : amount =
    rescale trimmed.getAmount.toNat trimmed.getDecimals.toNat fromDecimals.toNat :=
  (untrim_eq_ok.mp h.no_dust).1.symm

theorem getAmount_pos : 0 < trimmed.getAmount.toNat := by
  rw [Nat.pos_iff_ne_zero]
  intro hzero
  have := h.amount_eq
  rw [hzero] at this
  exact h.amount_ne_zero (by simpa [rescale] using this)

/-- The amount in other decimals, no fewer than those on the wire. -/
theorem rescale_amount {d : ℕ} (hd : trimmed.getDecimals.toNat ≤ d) :
    rescale amount fromDecimals.toNat d =
      rescale trimmed.getAmount.toNat trimmed.getDecimals.toNat d := by
  have := h.decimals_eq
  rw [h.amount_eq, rescale_rescale (by omega) hd]

/-- What was taken is worth what is sent. -/
theorem value_eq : value amount fromDecimals.toNat = trimmed.value :=
  value_untrim (by have := h.decimals_eq; omega) h.no_dust

/-- The destination can untrim the amount exactly when it has 256 bits there. -/
theorem untrim_iff {n : ℕ} : trimmed.untrim toDecimals = .ok n ↔
    rescale amount fromDecimals.toNat toDecimals.toNat = n ∧ n < 2 ^ 256 := by
  have hdec := h.decimals_eq
  have hpos := h.getAmount_pos
  have h64 := trimmed.getAmount.toNat_lt
  rw [untrim_eq_ok, h.rescale_amount (by omega), rescale_of_le (by omega)]
  constructor
  · rintro ⟨rfl, -, hmul⟩
    refine ⟨rfl, ?_⟩
    by_cases hlt : trimmed.getDecimals < toDecimals
    · exact hmul hlt
    · rw [UInt8.lt_iff_toNat_lt] at hlt
      rw [show toDecimals.toNat - trimmed.getDecimals.toNat = 0 by omega]
      omega
  · rintro ⟨rfl, hlt⟩
    refine ⟨rfl, fun _ => ⟨?_, ?_⟩, fun _ => hlt⟩
    · rw [show trimmed.getDecimals.toNat - toDecimals.toNat = 0 by omega]
      norm_num
    · exact lt_of_le_of_lt (Nat.le_mul_of_pos_left _ hpos) hlt

/-- And trim it again exactly when it has 64 bits in its trimmed decimals. -/
theorem retrim_iff {n : ℕ} (hn : trimmed.untrim toDecimals = .ok n) :
    (∃ c, trim n toDecimals toDecimals = .ok c) ↔
      rescale amount fromDecimals.toNat (min 8 toDecimals.toNat) < 2 ^ 64 := by
  have hdec := h.decimals_eq
  obtain ⟨hrescale, hlt⟩ := h.untrim_iff.mp hn
  have hwire : (wireDecimals toDecimals toDecimals).toNat = min 8 toDecimals.toNat := by
    rw [toNat_wireDecimals]
    omega
  have hamount : rescale n toDecimals.toNat (min 8 toDecimals.toNat) =
      rescale amount fromDecimals.toNat (min 8 toDecimals.toNat) := by
    rw [← hrescale, h.rescale_amount (by omega), h.rescale_amount (by omega),
      rescale_rescale (by omega) (by omega)]
  constructor
  · rintro ⟨c, hc⟩
    obtain ⟨-, hcamount, -⟩ := trim_eq_ok.mp hc
    rw [hwire, hamount] at hcamount
    rw [← hcamount]
    exact c.getAmount.toNat_lt
  · intro hfit
    refine ⟨.ofNat (rescale amount fromDecimals.toNat (min 8 toDecimals.toNat))
      (wireDecimals toDecimals toDecimals), trim_eq_ok.mpr ⟨by simp, ?_, ?_⟩⟩
    · rw [hwire, hamount]
      exact TrimmedAmount.amount_ofNat hfit _
    · -- the power of ten divides an amount of 256 bits
      rw [hwire]
      have hpos := h.getAmount_pos
      rw [h.rescale_amount (by omega), rescale_of_le (by omega)] at hrescale
      refine lt_of_le_of_lt ?_ hlt
      rw [← hrescale]
      refine le_trans (Nat.pow_le_pow_right (by norm_num) ?_) (Nat.le_mul_of_pos_left _ hpos)
      omega

end Accepted

namespace NttManager

section

variable {M : NttManager} {R : Rules} {init : Storage} {s : State} {ctx : Context}

/-- A transfer gets past its trimming exactly with an amount that trims without dust. -/
theorem trimTransferAmount_wp {amount : ℕ} {chain : UInt16} {Q : TrimmedAmount → State → Prop} :
    ((trimTransferAmount amount chain).run s).wp (M.safety R init) Q ↔
      ((s.storage.peers chain).tokenDecimals ≠ 0 → ∀ d, R.decimals d → ∀ trimmed,
        trim amount d (s.storage.peers chain).tokenDecimals = .ok trimmed →
        trimmed.untrim d = .ok amount → Q trimmed s) := by
  simp only [trimTransferAmount, run_bind, Res.wp_bind, wp_load, wp_revertIf, wp_tokenDecimals,
    monadLift_eq_liftExcept, wp_liftExcept, run_pure, wp_ret, not_not, ne_eq]
  constructor
  · exact fun h hd d hr trimmed ht hn => h hd d hr trimmed ht amount hn rfl
  · rintro h hd d hr trimmed ht _ hn rfl
    exact h hd d hr trimmed ht hn

/-- A transfer gets past its rate limit only with an amount that has 64 bits internally. -/
theorem enqueueOrConsumeOutboundRateLimit_reverts {t : Transfer} {shouldQueue : Bool}
    {sequence : UInt64} (h : ∀ d, R.decimals d → ∀ internal, t.amount.shift d ≠ .ok internal) :
    ((M.enqueueOrConsumeOutboundRateLimit ctx t shouldQueue sequence).run s).wp
      (M.safety R init) fun _ _ => False := by
  simp only [enqueueOrConsumeOutboundRateLimit, run_bind, Res.wp_bind, wp_tokenDecimals,
    monadLift_eq_liftExcept, wp_liftExcept]
  exact fun d hd internal hi => absurd hi (h d hd internal)

/-- A message whose amount fails a conversion can never be executed: `_handleTransfer` reverts,
whatever the state. -/
theorem handleTransfer_reverts {chain : UInt16} {source digest : Bytes32} {m : NttManagerMessage}
    (h : ∀ d, R.decimals d → ∀ t n c, parseNativeTokenTransfer M.bytes m.payload = .ok t →
      t.amount.untrim d = .ok n → trim n d d ≠ .ok c) :
    ((M.handleTransfer ctx chain source m digest).run s).wp (M.safety R init)
      fun _ _ => False := by
  simp only [handleTransfer, run_bind, Res.wp_bind, wp_revertIf, wp_tokenDecimals,
    monadLift_eq_liftExcept, wp_liftExcept]
  exact fun t ht _ d hd n hn c hc => absurd hc (h d hd t n c ht hn)

end

/-- The destination reads what the source wrote. -/
theorem parse_encodeTransfer {S : NttManager} {P : BytesParsing} (hP : P.Lawful)
    {sequence : UInt64} {a : TrimmedAmount} {chain : UInt16} {recipient : Bytes32}
    {sender : Address} {m : NttManagerMessage}
    (hm : S.encodeTransfer sequence a chain recipient sender = .ok m) :
    parseNativeTokenTransfer P m.payload =
      .ok ⟨a, S.toWormholeFormat S.token, recipient, chain, []⟩ := by
  simp only [encodeTransfer, Except.bind_eq_ok, Except.pure_eq_ok] at hm
  obtain ⟨payload, hpayload, rfl⟩ := hm
  exact parse_encodeNativeTokenTransfer hP hpayload

/-- A manager whose token has these decimals can execute a message for a value: no conversion
of the amount, on receipt or on payout, reverts, and what is credited is worth the value. -/
def Deliverable (D : NttManager) (toDecimals : UInt8) (m : NttManagerMessage) (value : ℚ) :
    Prop :=
  ∃ transfer untrimmed nativeTransferAmount credited,
    parseNativeTokenTransfer D.bytes m.payload = .ok transfer ∧
    transfer.amount.untrim toDecimals = .ok untrimmed ∧
    trim untrimmed toDecimals toDecimals = .ok nativeTransferAmount ∧
    nativeTransferAmount.untrim toDecimals = .ok credited ∧
    Decimal.value credited toDecimals.toNat = value

end NttManager

end Ntt
