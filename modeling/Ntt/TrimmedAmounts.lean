import Ntt.Evm.TrimmedAmount
import Ntt.Solana.Accounts
import Ntt.Sui.Outbox

/-!
# Trimmed Amounts on Three Runtimes

The contracts, the program of Solana and the packages of Sui each have functions that scale an
amount, trim it to the decimals of a message, and take it back. The contracts count in 256 bits and
the other two in 64, and they fail at different powers of ten. Where they succeed they all compute
`Decimal.rescale`, so the laws of trimming are proved once, for a `Trimming` that rescales.

## Main results

* `Trimming.Rescales.laws`: what is lost is the dust, trimming again changes nothing, and the order
  is kept.
* `Trimming.Rescales.agrees`: two runtimes that succeed return the same.
* `trimmed_amount_laws`: both for the three runtimes, and how `remove_dust` splits an amount.
-/

namespace Ntt

open Decimal

/-- The functions for trimmed amounts of one runtime. -/
structure Trimming where
  Amount : Type
  Trimmed : Type
  Failure : Type
  /-- Amounts are the numbers below this. -/
  bound : ℕ
  num : Amount → ℕ
  ofU64 : UInt64 → Amount
  amount : Trimmed → UInt64
  decimals : Trimmed → UInt8
  scale : Amount → UInt8 → UInt8 → Except Failure Amount
  trim : Amount → UInt8 → UInt8 → Except Failure Trimmed
  untrim : Trimmed → UInt8 → Except Failure Amount

/-- The decimals of a message between tokens of two numbers of decimals. -/
def messageDecimals (f t : UInt8) : ℕ := min 8 (min f.toNat t.toNat)

/-- The dust of an amount: what is left of it below the last decimal of a message. -/
def dust (x : ℕ) (f t : UInt8) : ℕ := x % 10 ^ (f.toNat - messageDecimals f t)

theorem messageDecimals_le (f t : UInt8) :
    messageDecimals f t ≤ 8 ∧ messageDecimals f t ≤ f.toNat ∧ messageDecimals f t ≤ t.toNat := by
  unfold messageDecimals
  omega

theorem dust_lt (x : ℕ) (f t : UInt8) : dust x f t < 10 ^ (f.toNat - messageDecimals f t) :=
  Nat.mod_lt _ (by positivity)

namespace Trimming

variable {R R' : Trimming}

/-- The functions compute `Decimal.rescale` where they succeed. Trimming succeeds for every amount
up to one for which it does, and for a trimmed amount; and what was trimmed can be untrimmed. -/
structure Rescales (R : Trimming) : Prop where
  num_ofU64 : ∀ a, R.num (R.ofU64 a) = a.toNat
  ext : ∀ {r r'}, R.amount r = R.amount r' → R.decimals r = R.decimals r' → r = r'
  num_scale : ∀ {x y f t}, R.scale x f t = .ok y → R.num y = rescale (R.num x) f.toNat t.toNat
  decimals_trim : ∀ {x r f t}, R.trim x f t = .ok r → (R.decimals r).toNat = messageDecimals f t
  amount_trim : ∀ {x r f t}, R.trim x f t = .ok r →
    (R.amount r).toNat = rescale (R.num x) f.toNat (messageDecimals f t)
  num_untrim : ∀ {r y t}, R.untrim r t = .ok y →
    R.num y = rescale (R.amount r).toNat (R.decimals r).toNat t.toNat
  trim_of_le : ∀ {x y r f t}, R.trim x f t = .ok r → R.num y ≤ R.num x → ∃ r', R.trim y f t = .ok r'
  trim_of_few : ∀ {a d t}, d.toNat ≤ 8 → d.toNat ≤ t.toNat → ∃ r, R.trim (R.ofU64 a) d t = .ok r
  untrim_of_trim : ∀ {x r f t}, R.num x < R.bound → R.trim x f t = .ok r →
    ∃ y, R.untrim r f = .ok y

/-- The laws of trimming. -/
structure Laws (R : Trimming) : Prop where
  /-- What was trimmed comes back, less the dust. -/
  untrim_trim : ∀ {x y r f t}, R.trim x f t = .ok r → R.untrim r f = .ok y →
    R.num y ≤ R.num x ∧ R.num x - R.num y < 10 ^ (f.toNat - messageDecimals f t) ∧
      (R.num x - R.num y = 0 ↔ dust (R.num x) f t = 0)
  /-- And it does come back. -/
  untrims : ∀ {x r f t}, R.num x < R.bound → R.trim x f t = .ok r → ∃ y, R.untrim r f = .ok y
  /-- What is trimmed is left as it is by trimming it again. -/
  trim_trimmed : ∀ {x r f t}, R.trim x f t = .ok r →
    R.trim (R.ofU64 (R.amount r)) (R.decimals r) t = .ok r
  /-- So is what comes back. -/
  trim_untrim : ∀ {x y r f t}, R.trim x f t = .ok r → R.untrim r f = .ok y →
    R.trim y f t = .ok r
  mono : ∀ {x x' r r' f t}, R.trim x f t = .ok r → R.trim x' f t = .ok r' → R.num x ≤ R.num x' →
    R.amount r ≤ R.amount r'
  /-- Scaling down and up again gains nothing. -/
  scale_scale : ∀ {x y z f t}, t ≤ f → R.scale x f t = .ok y → R.scale y t f = .ok z →
    R.num z ≤ R.num x

namespace Rescales

variable (h : R.Rescales)
include h

/-- What comes back and the dust are the amount. -/
theorem num_add_dust {x : R.Amount} {y : R.Amount} {r : R.Trimmed} {f t : UInt8}
    (htrim : R.trim x f t = .ok r) (huntrim : R.untrim r f = .ok y) :
    R.num y + dust (R.num x) f t = R.num x := by
  rw [h.num_untrim huntrim, h.amount_trim htrim, h.decimals_trim htrim]
  exact rescale_down_up (messageDecimals_le f t).2.1

theorem trim_trimmed {x : R.Amount} {r : R.Trimmed} {f t : UInt8} (htrim : R.trim x f t = .ok r) :
    R.trim (R.ofU64 (R.amount r)) (R.decimals r) t = .ok r := by
  have hdecimals := h.decimals_trim htrim
  obtain ⟨hfew, -, hle⟩ := messageDecimals_le f t
  obtain ⟨r', hr'⟩ := h.trim_of_few (a := R.amount r) (hdecimals ▸ hfew) (hdecimals ▸ hle)
  have hsame : messageDecimals (R.decimals r) t = (R.decimals r).toNat := by
    rw [messageDecimals, hdecimals]
    omega
  rw [hr']
  refine congrArg Except.ok (h.ext ?_ ?_)
  · rw [← UInt64.toNat_inj, h.amount_trim hr', hsame, rescale_self, h.num_ofU64]
  · rw [← UInt8.toNat_inj, h.decimals_trim hr', hsame]

theorem trim_untrim {x y : R.Amount} {r : R.Trimmed} {f t : UInt8} (htrim : R.trim x f t = .ok r)
    (huntrim : R.untrim r f = .ok y) : R.trim y f t = .ok r := by
  have hsum := h.num_add_dust htrim huntrim
  obtain ⟨r', hr'⟩ := h.trim_of_le htrim (y := y) (by omega)
  rw [hr']
  refine congrArg Except.ok (h.ext ?_ ?_)
  · rw [← UInt64.toNat_inj, h.amount_trim hr', h.num_untrim huntrim, h.decimals_trim htrim,
      rescale_up_down (messageDecimals_le f t).2.1]
  · rw [← UInt8.toNat_inj, h.decimals_trim hr', h.decimals_trim htrim]

/-- **The laws hold where the functions rescale.** -/
theorem laws : R.Laws where
  untrim_trim := by
    intro x y r f t htrim huntrim
    have hsum := h.num_add_dust htrim huntrim
    have hlt := dust_lt (R.num x) f t
    omega
  untrims := h.untrim_of_trim
  trim_trimmed := h.trim_trimmed
  trim_untrim := h.trim_untrim
  mono := by
    intro x x' r r' f t htrim htrim' hle
    rw [UInt64.le_iff_toNat_le, h.amount_trim htrim, h.amount_trim htrim']
    exact rescale_mono hle _ _
  scale_scale := by
    intro x y z f t hle hdown hup
    have hsum := rescale_down_up (a := R.num x) (UInt8.le_iff_toNat_le.mp hle)
    rw [h.num_scale hup, h.num_scale hdown]
    omega

end Rescales

/-- Two runtimes return the same where both succeed. -/
structure Agrees (R R' : Trimming) : Prop where
  trim : ∀ {x x' r r' f t}, R.num x = R'.num x' → R.trim x f t = .ok r → R'.trim x' f t = .ok r' →
    R.amount r = R'.amount r' ∧ R.decimals r = R'.decimals r'
  untrim : ∀ {r r' y y' t}, R.amount r = R'.amount r' → R.decimals r = R'.decimals r' →
    R.untrim r t = .ok y → R'.untrim r' t = .ok y' → R.num y = R'.num y'

theorem Rescales.agrees (h : R.Rescales) (h' : R'.Rescales) : R.Agrees R' where
  trim := by
    intro x x' r r' f t hx htrim htrim'
    rw [← UInt64.toNat_inj, ← UInt8.toNat_inj, h.amount_trim htrim, h'.amount_trim htrim',
      h.decimals_trim htrim, h'.decimals_trim htrim', hx]
    exact ⟨rfl, rfl⟩
  untrim := by
    intro r r' y y' t hamount hdecimals huntrim huntrim'
    rw [h.num_untrim huntrim, h'.num_untrim huntrim', hamount, hdecimals]

end Trimming

/-! ### The contracts -/

/-- The library of the contracts. -/
def evmTrimming : Trimming where
  Amount := ℕ
  Trimmed := TrimmedAmount
  Failure := Error
  bound := 2 ^ 256
  num x := x
  ofU64 := UInt64.toNat
  amount := TrimmedAmount.getAmount
  decimals := TrimmedAmount.getDecimals
  scale := scale
  trim := trim
  untrim := TrimmedAmount.untrim

theorem toNat_wireDecimals_eq (f t : UInt8) : (wireDecimals f t).toNat = messageDecimals f t := by
  rw [toNat_wireDecimals, messageDecimals, Nat.min_assoc]

section

variable {x y : ℕ} {r : TrimmedAmount} {f t d : UInt8}

/-- A smaller amount can be trimmed too. -/
theorem trim_of_le (h : trim x f t = .ok r) (hle : y ≤ x) : ∃ r', trim y f t = .ok r' := by
  obtain ⟨-, hamount, hpow⟩ := trim_eq_ok.mp h
  have hlt : rescale y f.toNat (wireDecimals f t).toNat < 2 ^ 64 := by
    have hmono := rescale_mono hle f.toNat (wireDecimals f t).toNat
    rw [← hamount] at hmono
    exact hmono.trans_lt r.amount_lt
  exact ⟨.ofNat _ (wireDecimals f t), trim_eq_ok.mpr
    ⟨TrimmedAmount.getDecimals_pack _ _, TrimmedAmount.amount_ofNat hlt _, hpow⟩⟩

/-- An amount of few decimals is trimmed as it is. -/
theorem trim_of_few (a : UInt64) (hfew : d.toNat ≤ 8) (hle : d.toNat ≤ t.toNat) :
    trim a.toNat d t = .ok (packTrimmedAmount a d) := by
  have hsame : wireDecimals d t = d := by
    rw [← UInt8.toNat_inj, toNat_wireDecimals]
    omega
  rw [trim_eq_ok, hsame, rescale_self, Nat.sub_self]
  exact ⟨TrimmedAmount.getDecimals_pack a d,
    congrArg UInt64.toNat (TrimmedAmount.getAmount_pack a d), by norm_num⟩

/-- What was trimmed can be untrimmed. -/
theorem untrim_of_trim (hx : x < 2 ^ 256) (h : trim x f t = .ok r) : ∃ y, r.untrim f = .ok y := by
  obtain ⟨hdecimals, hamount, hpow⟩ := trim_eq_ok.mp h
  have hle := (messageDecimals_le f t).2.1
  rw [← toNat_wireDecimals_eq] at hle
  have hsum := rescale_down_up (a := x) hle
  rw [rescale_of_le hle] at hsum
  refine ⟨_, untrim_eq_ok.mpr ⟨rfl, fun _ => ⟨?_, ?_⟩, fun _ => ?_⟩⟩
  · rw [hdecimals, Nat.sub_eq_zero_of_le hle]
    norm_num
  · rw [hdecimals]
    exact hpow
  · rw [hdecimals, hamount]
    omega

end

theorem evmTrimming_rescales : evmTrimming.Rescales where
  num_ofU64 _ := rfl
  ext := TrimmedAmount.eq_of_getAmount_getDecimals
  num_scale h := (scale_eq_ok.mp h).1.symm
  decimals_trim h := (congrArg UInt8.toNat (trim_eq_ok.mp h).1).trans (toNat_wireDecimals_eq _ _)
  amount_trim {_ _ f t} h := by
    rw [← toNat_wireDecimals_eq f t]
    exact (trim_eq_ok.mp h).2.1
  num_untrim h := (untrim_eq_ok.mp h).1.symm
  trim_of_le h hle := trim_of_le h hle
  trim_of_few hfew hle := ⟨_, trim_of_few _ hfew hle⟩
  untrim_of_trim hx h := untrim_of_trim hx h

/-! ### Solana and Sui -/

namespace Trimming

variable {Failure Trimmed : Type} {amount : Trimmed → UInt64} {decimals : Trimmed → UInt8}
  {scale : UInt64 → UInt8 → UInt8 → Except Failure UInt64}
  {trim : UInt64 → UInt8 → UInt8 → Except Failure Trimmed}
  {untrim : Trimmed → UInt8 → Except Failure UInt64}

/-- Functions for amounts of 64 bits. -/
def of64 (amount : Trimmed → UInt64) (decimals : Trimmed → UInt8)
    (scale : UInt64 → UInt8 → UInt8 → Except Failure UInt64)
    (trim : UInt64 → UInt8 → UInt8 → Except Failure Trimmed)
    (untrim : Trimmed → UInt8 → Except Failure UInt64) : Trimming where
  Amount := UInt64
  Trimmed := Trimmed
  Failure := Failure
  bound := 2 ^ 64
  num := UInt64.toNat
  ofU64 a := a
  amount := amount
  decimals := decimals
  scale := scale
  trim := trim
  untrim := untrim

/-- What the functions for 64 bits have in common: they scale by the powers of ten that are allowed,
and a trimmed amount is what it was scaled to, with the decimals of the message. -/
structure Scales64 (amount : Trimmed → UInt64) (decimals : Trimmed → UInt8)
    (scale : UInt64 → UInt8 → UInt8 → Except Failure UInt64)
    (trim : UInt64 → UInt8 → UInt8 → Except Failure Trimmed)
    (untrim : Trimmed → UInt8 → Except Failure UInt64) (allowed : ℕ → Prop) : Prop where
  allowed_zero : allowed 0
  scale_eq_ok : ∀ {a c f t}, scale a f t = .ok c ↔ c.toNat = rescale a.toNat f.toNat t.toNat ∧
    (f ≠ t → allowed (f.toNat - t.toNat) ∧ allowed (t.toNat - f.toNat))
  trim_eq_ok : ∀ {x r f t}, trim x f t = .ok r ↔ (decimals r).toNat = messageDecimals f t ∧
    scale x f (decimals r) = .ok (amount r)
  untrim_eq : ∀ r t, untrim r t = scale (amount r) (decimals r) t
  ext : ∀ {r r'}, amount r = amount r' → decimals r = decimals r' → r = r'
  exists_trimmed : ∀ a d, ∃ r, amount r = a ∧ decimals r = d

namespace Scales64

variable {allowed : ℕ → Prop} (h : Scales64 amount decimals scale trim untrim allowed)
include h

/-- Scaling down succeeds when the power of ten is allowed. -/
theorem scale_down {a c : UInt64} {f t : UInt8} (hle : t.toNat ≤ f.toNat) :
    scale a f t = .ok c ↔
      c.toNat = rescale a.toNat f.toNat t.toNat ∧ allowed (f.toNat - t.toNat) := by
  rw [h.scale_eq_ok, Nat.sub_eq_zero_of_le hle]
  refine and_congr_right fun _ => ?_
  constructor
  · intro hallowed
    by_cases heq : f = t
    · rw [heq, Nat.sub_self]
      exact h.allowed_zero
    · exact (hallowed heq).1
  · exact fun hallowed _ => ⟨hallowed, h.allowed_zero⟩

theorem trim_spec {x : UInt64} {r : Trimmed} {f t : UInt8} :
    trim x f t = .ok r ↔ (decimals r).toNat = messageDecimals f t ∧
      (amount r).toNat = rescale x.toNat f.toNat (messageDecimals f t) ∧
        allowed (f.toNat - messageDecimals f t) := by
  rw [h.trim_eq_ok]
  refine and_congr_right fun hdecimals => ?_
  rw [h.scale_down (hdecimals ▸ (messageDecimals_le f t).2.1), hdecimals]

theorem trim_of_le {x y : UInt64} {r : Trimmed} {f t : UInt8} (htrim : trim x f t = .ok r)
    (hle : y.toNat ≤ x.toNat) : ∃ r', trim y f t = .ok r' := by
  obtain ⟨hdecimals, hamount, hallowed⟩ := h.trim_spec.mp htrim
  have hlt : rescale y.toNat f.toNat (messageDecimals f t) < 2 ^ 64 := by
    have hmono := rescale_mono hle f.toNat (messageDecimals f t)
    rw [← hamount] at hmono
    exact hmono.trans_lt (amount r).toNat_lt
  obtain ⟨r', hamount', hdecimals'⟩ :=
    h.exists_trimmed (UInt64.ofNat (rescale y.toNat f.toNat (messageDecimals f t))) (decimals r)
  refine ⟨r', h.trim_spec.mpr ⟨hdecimals' ▸ hdecimals, ?_, hallowed⟩⟩
  rw [hamount']
  exact UInt64.toNat_ofNat_of_lt hlt

theorem trim_of_few {a : UInt64} {d t : UInt8} (hfew : d.toNat ≤ 8) (hle : d.toNat ≤ t.toNat) :
    ∃ r, trim a d t = .ok r := by
  have hsame : messageDecimals d t = d.toNat := by
    unfold messageDecimals
    omega
  obtain ⟨r, hamount, hdecimals⟩ := h.exists_trimmed a d
  refine ⟨r, h.trim_spec.mpr ?_⟩
  rw [hsame, rescale_self, Nat.sub_self, hamount, hdecimals]
  exact ⟨rfl, rfl, h.allowed_zero⟩

theorem untrim_of_trim {x : UInt64} {r : Trimmed} {f t : UInt8} (htrim : trim x f t = .ok r) :
    ∃ y, untrim r f = .ok y := by
  obtain ⟨hdecimals, hamount, hallowed⟩ := h.trim_spec.mp htrim
  have hle := (messageDecimals_le f t).2.1
  have hsum := rescale_down_up (a := x.toNat) hle
  have hlt : rescale (amount r).toNat (decimals r).toNat f.toNat < 2 ^ 64 := by
    have := x.toNat_lt
    rw [hamount, hdecimals]
    omega
  rw [h.untrim_eq]
  refine ⟨UInt64.ofNat _, h.scale_eq_ok.mpr ⟨UInt64.toNat_ofNat_of_lt hlt, fun _ => ?_⟩⟩
  rw [hdecimals, Nat.sub_eq_zero_of_le hle]
  exact ⟨h.allowed_zero, hallowed⟩

theorem rescales : (of64 amount decimals scale trim untrim).Rescales where
  num_ofU64 _ := rfl
  ext := h.ext
  num_scale hscale := (h.scale_eq_ok.mp hscale).1
  decimals_trim htrim := (h.trim_spec.mp htrim).1
  amount_trim htrim := (h.trim_spec.mp htrim).2.1
  num_untrim {r _ t} huntrim := (h.scale_eq_ok.mp ((h.untrim_eq r t).symm.trans huntrim)).1
  trim_of_le htrim hle := h.trim_of_le htrim hle
  trim_of_few hfew hle := h.trim_of_few hfew hle
  untrim_of_trim _ htrim := h.untrim_of_trim htrim

end Scales64

end Trimming

/-- The amounts of the Solana program. -/
def solanaTrimming : Trimming :=
  .of64 Solana.TrimmedAmount.amount Solana.TrimmedAmount.decimals Solana.TrimmedAmount.scale
    Solana.TrimmedAmount.trim Solana.TrimmedAmount.untrim

/-- The amounts of the Sui packages. -/
def suiTrimming : Trimming :=
  .of64 Sui.TrimmedAmount.amount Sui.TrimmedAmount.decimals Sui.TrimmedAmount.scale
    Sui.TrimmedAmount.trim Sui.TrimmedAmount.untrim

namespace Solana.TrimmedAmount

/-- The program allows the powers of ten that fit 64 bits. -/
theorem scales64 :
    Trimming.Scales64 amount decimals scale trim untrim fun k => 10 ^ k < 2 ^ 64 where
  allowed_zero := by norm_num
  scale_eq_ok := scale_eq_ok
  trim_eq_ok {x r f t} := by
    have hmin : (min (min TRIMMED_DECIMALS f) t).toNat = messageDecimals f t := by
      rw [toNat_min, toNat_min, messageDecimals, Nat.min_assoc]
      rfl
    simp only [trim, Except.bind_eq_ok, Except.pure_eq_ok]
    constructor
    · rintro ⟨_, hscale, rfl⟩
      exact ⟨hmin, hscale⟩
    · rintro ⟨hdecimals, hscale⟩
      have hsame := UInt8.toNat_inj.mp (hdecimals.trans hmin.symm)
      exact ⟨r.amount, hsame ▸ hscale, by rw [← hsame]⟩
  untrim_eq _ _ := rfl
  ext := by
    rintro ⟨_, _⟩ ⟨_, _⟩ rfl rfl
    rfl
  exists_trimmed a d := ⟨⟨a, d⟩, rfl, rfl⟩

/-- What `remove_dust` leaves is worth the trimmed amount, and the rest is the dust. -/
theorem removeDust_splits {x rest : UInt64} {r : TrimmedAmount} {f t : UInt8}
    (h : removeDust x f t = .ok (r, rest)) :
    trim x f t = .ok r ∧ r.untrim f = .ok rest ∧ rest.toNat + dust x.toNat f t = x.toNat := by
  simp only [removeDust, Except.bind_eq_ok, Except.pure_eq_ok, Prod.mk.injEq] at h
  obtain ⟨_, htrim, _, huntrim, rfl, rfl⟩ := h
  exact ⟨htrim, huntrim, scales64.rescales.num_add_dust htrim huntrim⟩

end Solana.TrimmedAmount

namespace Sui.TrimmedAmount

/-- The packages allow the powers of ten up to the eighteenth. -/
theorem scales64 :
    Trimming.Scales64 amount decimals scale trim untrim fun k => k ≤ 18 where
  allowed_zero := by norm_num
  scale_eq_ok := scale_eq_ok
  trim_eq_ok {x r f t} := by
    have hmin : (min 8 (min f t)).toNat = messageDecimals f t := by
      rw [toNat_min, toNat_min, messageDecimals]
      rfl
    simp only [trim, Except.bind_eq_ok, Except.pure_eq_ok]
    constructor
    · rintro ⟨_, hscale, rfl⟩
      exact ⟨hmin, hscale⟩
    · rintro ⟨hdecimals, hscale⟩
      have hsame := UInt8.toNat_inj.mp (hdecimals.trans hmin.symm)
      exact ⟨r.amount, hsame ▸ hscale, by rw [← hsame]⟩
  untrim_eq _ _ := rfl
  ext := by
    rintro ⟨_, _⟩ ⟨_, _⟩ rfl rfl
    rfl
  exists_trimmed a d := ⟨⟨a, d⟩, rfl, rfl⟩

/-- What is left of the coin is worth the trimmed amount, and what is split off is the dust. -/
theorem removeDust_splits {C : Coins} (hC : C.Lawful) {x left rest : UInt64} {r : TrimmedAmount}
    {f t : UInt8} (h : removeDust C x f t = .ok (r, left, rest)) :
    trim x f t = .ok r ∧ r.untrim f = .ok left ∧ left.toNat + rest.toNat = x.toNat ∧
      rest.toNat = dust x.toNat f t := by
  obtain ⟨huntrim, hsum⟩ := removeDust_spec hC h
  simp only [removeDust, Except.bind_eq_ok, Except.pure_eq_ok, Prod.exists, Prod.mk.injEq] at h
  obtain ⟨_, htrim, _, -, _, -, _, _, -, rfl, -, -⟩ := h
  have hdust := scales64.rescales.num_add_dust htrim huntrim
  refine ⟨htrim, huntrim, hsum.symm, ?_⟩
  exact Nat.add_left_cancel (hsum.symm.trans hdust.symm)

end Sui.TrimmedAmount

/-! ### The laws -/

/-- **Trimmed amounts.** On each runtime, and for all amounts and all decimals: what was trimmed
comes back less the dust, which is less than one unit of the message; trimming again changes
nothing; the order is kept; and scaling down and up again gains nothing. Two runtimes that succeed
return the same. What `remove_dust` leaves and the dust are the amount. -/
theorem trimmed_amount_laws {C : Sui.Coins} (hC : C.Lawful) :
    (evmTrimming.Laws ∧ solanaTrimming.Laws ∧ suiTrimming.Laws) ∧
    (evmTrimming.Agrees solanaTrimming ∧ evmTrimming.Agrees suiTrimming ∧
      solanaTrimming.Agrees suiTrimming) ∧
    (∀ x rest r f t, Solana.TrimmedAmount.removeDust x f t = .ok (r, rest) →
      Solana.TrimmedAmount.trim x f t = .ok r ∧ r.untrim f = .ok rest ∧
        rest.toNat + dust x.toNat f t = x.toNat) ∧
    ∀ x left rest r f t, Sui.TrimmedAmount.removeDust C x f t = .ok (r, left, rest) →
      Sui.TrimmedAmount.trim x f t = .ok r ∧ r.untrim f = .ok left ∧
        left.toNat + rest.toNat = x.toNat ∧ rest.toNat = dust x.toNat f t := by
  have hevm := evmTrimming_rescales
  have hsolana : solanaTrimming.Rescales := Solana.TrimmedAmount.scales64.rescales
  have hsui : suiTrimming.Rescales := Sui.TrimmedAmount.scales64.rescales
  refine ⟨⟨hevm.laws, hsolana.laws, hsui.laws⟩,
    ⟨hevm.agrees hsolana, hevm.agrees hsui, hsolana.agrees hsui⟩, ?_, ?_⟩
  · intro x rest r f t h
    exact Solana.TrimmedAmount.removeDust_splits h
  · intro x left rest r f t h
    exact Sui.TrimmedAmount.removeDust_splits hC h

/-- A coin of nine decimals with five units of dust. -/
theorem sample_trimmed_amount_laws :
    Sui.TrimmedAmount.removeDust .reference 1005 9 8 = .ok (⟨100, 8⟩, 1000, 5) ∧
      (1000 : UInt64).toNat + (5 : UInt64).toNat = (1005 : UInt64).toNat := by
  have hsplit : Sui.TrimmedAmount.removeDust .reference 1005 9 8 = .ok (⟨100, 8⟩, 1000, 5) := by
    decide
  obtain ⟨-, -, -, hsui⟩ := trimmed_amount_laws Sui.Coins.reference_lawful
  exact ⟨hsplit, (hsui _ _ _ _ _ _ hsplit).2.2.1⟩

end Ntt
