import Ntt.Evm.Outbound

/-!
# The Owner's Operations on the Limits

With a duration, setting a limit never fails: the capacity is at most the old limit, so the moved
capacity is at most the new one. Without a duration the capacity is reported as the largest
64-bit amount, which is moved and compared like any other, so that a limit can be replaced only if
it was never set, or is itself the largest amount.

The limits are stored in the decimals of the token, as every operation on them is made in these.

## Main results

* `setLimit_ok_iff`: when setting a limit succeeds.
* `limits_of_reachable`: how limits are stored, in every reachable configuration.
* `limit_admin_iff`: when the owner's calls succeed, in every reachable configuration.
-/

namespace Ntt

open TrimmedAmount Reentrant

/-- The parameters were never written, or limit and capacity carry the same decimals. -/
def RateLimitParams.Stored (d : UInt8) (p : RateLimitParams) : Prop := p = .zero ∨ p.Aligned d

/-- The limit can be replaced: the limiter is on, or there is no limit, or it is the largest. -/
def RateLimitParams.Adjustable (D : UInt64) (p : RateLimitParams) : Prop :=
  D ≠ 0 ∨ p.limit.isNull = true ∨ p.limit.amount = 2 ^ 64 - 1

namespace RateLimiter

variable {D t : UInt64} {d : UInt8} {p p' : RateLimitParams}

/-- At whatever time, the capacity is at most the limit. -/
theorem getCurrentCapacity_le (hD : D ≠ 0) : ∃ capacity,
    getCurrentCapacity D t p = .ok capacity ∧
      capacity.getDecimals = p.currentCapacity.getDecimals ∧ capacity.amount ≤ p.limit.amount := by
  have hlim : p.limit.getAmount.toNat < 2 ^ 64 := p.limit.amount_lt
  simp only [getCurrentCapacity, if_neg hD]
  generalize wrappingAdd p.currentCapacity.getAmount.toNat
    (wrappingMul p.limit.getAmount.toNat (wrappingSub t.toNat p.lastTxTimestamp.toNat) /
      D.toNat) = n
  have hfit : Min.min n p.limit.getAmount.toNat < 2 ^ 64 := by omega
  rw [SafeCast.toUint64_of_lt hfit]
  refine ⟨_, rfl, getDecimals_pack _ _, ?_⟩
  rw [amount_ofNat hfit]
  exact Nat.min_le_right _ _

/-- Without a duration, the capacity is the largest amount. -/
theorem getCurrentCapacity_off :
    getCurrentCapacity 0 t p = .ok (ofNat (2 ^ 64 - 1) p.currentCapacity.getDecimals) := rfl

/-- The largest amount is moved to within the new limit only if it is the old limit. -/
theorem calculateNewCurrentCapacity_off {newLimit oldLimit : TrimmedAmount}
    (hold : oldLimit.getDecimals = newLimit.getDecimals) :
    (∃ capacity, calculateNewCurrentCapacity newLimit oldLimit
      (ofNat (2 ^ 64 - 1) newLimit.getDecimals) = .ok capacity) ↔ oldLimit.amount = 2 ^ 64 - 1 := by
  have hfit : 2 ^ 64 - 1 < 2 ^ 64 := by omega
  have hcap : (ofNat (2 ^ 64 - 1) newLimit.getDecimals).getDecimals = newLimit.getDecimals :=
    getDecimals_pack _ _
  have hnew := newLimit.amount_lt
  have holdlt := oldLimit.amount_lt
  constructor
  · rintro ⟨capacity, h⟩
    simp only [calculateNewCurrentCapacity, Except.bind_eq_ok, throwIf_eq_ok, Except.pure_eq_ok] at h
    obtain ⟨moved, hmoved, b, hgt, _, hb, -⟩ := h
    have hle : moved.getDecimals = newLimit.getDecimals → moved.amount ≤ newLimit.amount := by
      intro hdec
      rw [gt_of_eq hdec] at hgt
      obtain rfl := Except.ok.inj hgt
      simpa using hb
    simp only [movedCapacity, gt_of_eq hold, Except.bind_eq_ok, Except.ok.injEq] at hmoved
    obtain ⟨_, rfl, hmoved⟩ := hmoved
    by_cases hlt : newLimit.amount < oldLimit.amount
    · have hdiff := sub_of_eq hold
      rw [if_pos hlt.le] at hdiff
      have hdec : (ofNat (2 ^ 64 - 1) newLimit.getDecimals).getDecimals =
          (ofNat (oldLimit.amount - newLimit.amount) oldLimit.getDecimals).getDecimals := by
        rw [getDecimals_pack, getDecimals_pack, hold]
      have hgt' := gt_of_eq hdec
      have hsub := sub_of_eq hdec
      rw [amount_ofNat (by omega), amount_ofNat hfit] at hgt' hsub
      simp only [hlt, decide_true, if_true, hdiff, Except.bind_eq_ok, Except.ok.injEq] at hmoved
      obtain ⟨_, rfl, _, hgt₂, hmoved⟩ := hmoved
      rw [hgt'] at hgt₂
      obtain rfl := Except.ok.inj hgt₂
      by_cases hfull : oldLimit.amount - newLimit.amount < 2 ^ 64 - 1
      · simp only [hfull, decide_true, if_true, hsub, hfull.le, Except.ok.injEq] at hmoved
        subst hmoved
        have hle' := hle ((getDecimals_pack _ _).trans (getDecimals_pack _ _))
        rw [amount_ofNat (by omega)] at hle'
        omega
      · omega
    · have hdiff := sub_of_eq hold.symm
      rw [if_pos (Nat.not_lt.mp hlt)] at hdiff
      simp only [hlt, decide_false, Bool.false_eq_true, if_false, hdiff, Except.bind_eq_ok,
        Except.ok.injEq] at hmoved
      obtain ⟨_, rfl, hmoved⟩ := hmoved
      have hdec : (ofNat (2 ^ 64 - 1) newLimit.getDecimals).getDecimals =
          (ofNat (newLimit.amount - oldLimit.amount) newLimit.getDecimals).getDecimals := by
        rw [getDecimals_pack, getDecimals_pack]
      by_cases heq : newLimit.amount = oldLimit.amount
      · have hadd := add_of_lt hdec
        rw [amount_ofNat hfit, amount_ofNat (by omega)] at hadd
        rw [hadd (by omega)] at hmoved
        obtain rfl := Except.ok.inj hmoved
        have hle' := hle ((getDecimals_pack _ _).trans (getDecimals_pack _ _))
        rw [amount_ofNat (by omega)] at hle'
        omega
      · -- the sum leaves 64 bits
        simp only [add, Except.bind_eq_ok] at hmoved
        obtain ⟨_, -, hmoved⟩ := hmoved
        split at hmoved
        · rename_i hsum
          change (ofNat _ _).amount + (ofNat _ _).amount < _ at hsum
          rw [amount_ofNat hfit, amount_ofNat (by omega)] at hsum
          omega
        · cases hmoved
  · intro h
    have hle : (ofNat (2 ^ 64 - 1) newLimit.getDecimals).amount ≤ oldLimit.amount := by
      rw [amount_ofNat hfit, h]
    exact ⟨_, (calculateNewCurrentCapacity_eq hold hcap hle).trans (movedCapacity_eq hold hcap hle)⟩

/-- **Setting a limit** succeeds if and only if the old one can be replaced. -/
theorem setLimit_ok_iff (hp : p.Stored d) {limit : TrimmedAmount} (hl : limit.getDecimals = d) :
    (∃ p', setLimit D t limit p = .ok p' ∧ p'.limit = limit) ↔ p.Adjustable D := by
  by_cases hnull : p.limit.isNull = true
  · rw [setLimit_of_isNull hnull]
    exact iff_of_true ⟨_, rfl, rfl⟩ (.inr (.inl hnull))
  · obtain rfl | hp := hp
    · exact absurd rfl hnull
    have hold : p.limit.getDecimals = limit.getDecimals := hp.limit_decimals.trans hl.symm
    simp only [setLimit, hnull, Bool.false_eq_true, if_false]
    by_cases hD : D = 0
    · subst hD
      have hoff := calculateNewCurrentCapacity_off hold
      have hdec : p.currentCapacity.getDecimals = limit.getDecimals :=
        hp.capacity_decimals.trans hl.symm
      simp only [getCurrentCapacity_off, hdec, RateLimitParams.Adjustable, hnull, ne_eq,
        not_true_eq_false, false_or, Bool.false_eq_true, ← hoff]
      constructor
      · rintro ⟨p', h, -⟩
        simp only [Except.bind_eq_ok] at h
        obtain ⟨_, hcap, capacity, hcalc, -⟩ := h
        obtain rfl := Except.ok.inj hcap
        exact ⟨capacity, hcalc⟩
      · rintro ⟨capacity, h⟩
        refine ⟨⟨limit, capacity, t⟩, ?_, rfl⟩
        simp only [bind, Except.bind, h]
        rfl
    · obtain ⟨capacity, hcap, hdec, hle⟩ := getCurrentCapacity_le (t := t) (p := p) hD
      have hdec' : capacity.getDecimals = limit.getDecimals :=
        hdec.trans (hp.capacity_decimals.trans hl.symm)
      obtain ⟨moved, hmoved⟩ : ∃ moved,
          calculateNewCurrentCapacity limit p.limit capacity = .ok moved :=
        ⟨_, (calculateNewCurrentCapacity_eq hold hdec' hle).trans (movedCapacity_eq hold hdec' hle)⟩
      refine iff_of_true ⟨⟨limit, moved, t⟩, ?_, rfl⟩ (.inl hD)
      simp only [hcap, bind, Except.bind, hmoved]
      rfl

end RateLimiter

/-! ### Decimals -/

namespace TrimmedAmount

variable {a b c : TrimmedAmount}

theorem sub_decimals (h : a.sub b = .ok c) :
    a.getDecimals = b.getDecimals ∧ c.getDecimals = a.getDecimals := by
  simp only [sub, Except.bind_eq_ok, checkDecimals_eq_ok, exists_and_left] at h
  obtain ⟨hdec, _, h⟩ := h
  split at h
  · obtain rfl := Except.ok.inj h
    exact ⟨hdec, getDecimals_pack _ _⟩
  · cases h

theorem add_decimals (h : a.add b = .ok c) : c.getDecimals = b.getDecimals := by
  simp only [add, Except.bind_eq_ok] at h
  obtain ⟨_, -, h⟩ := h
  split at h
  · obtain rfl := Except.ok.inj h
    exact getDecimals_pack _ _
  · cases h

theorem saturatingAdd_decimals (h : a.saturatingAdd b = .ok c) :
    a.getDecimals = b.getDecimals ∧ c.getDecimals = a.getDecimals := by
  simp only [saturatingAdd, Except.bind_eq_ok, checkDecimals_eq_ok, Except.pure_eq_ok] at h
  obtain ⟨_, hdec, _, -, rfl⟩ := h
  exact ⟨hdec, getDecimals_pack _ _⟩

theorem min_decimals (h : a.min b = .ok c) : c.getDecimals = a.getDecimals := by
  simp only [min, Except.bind_eq_ok, checkDecimals_eq_ok, Except.pure_eq_ok] at h
  obtain ⟨_, hdec, rfl⟩ := h
  split
  · rfl
  · exact hdec.symm

end TrimmedAmount

namespace RateLimiter

variable {D t : UInt64} {d : UInt8} {p p' : RateLimitParams}

theorem getCurrentCapacity_decimals {capacity : TrimmedAmount}
    (h : getCurrentCapacity D t p = .ok capacity) :
    capacity.getDecimals = p.currentCapacity.getDecimals := by
  rw [getCurrentCapacity] at h
  split at h
  · obtain rfl := Except.ok.inj h
    exact getDecimals_pack _ _
  · simp only [Except.bind_eq_ok, Except.pure_eq_ok] at h
    obtain ⟨_, -, rfl⟩ := h
    exact getDecimals_pack _ _

theorem calculateNewCurrentCapacity_decimals {newLimit oldLimit capacity moved : TrimmedAmount}
    (hcap : capacity.getDecimals = newLimit.getDecimals)
    (h : calculateNewCurrentCapacity newLimit oldLimit capacity = .ok moved) :
    moved.getDecimals = newLimit.getDecimals := by
  simp only [calculateNewCurrentCapacity, movedCapacity, Except.bind_eq_ok, Except.pure_eq_ok] at h
  obtain ⟨moved, ⟨_, -, h⟩, _, -, _, -, rfl⟩ := h
  split at h
  · simp only [Except.bind_eq_ok] at h
    obtain ⟨difference, -, _, -, h⟩ := h
    split at h
    · exact (sub_decimals h).2.trans hcap
    · obtain rfl := Except.ok.inj h
      exact (getDecimals_pack _ _).trans hcap
  · simp only [Except.bind_eq_ok] at h
    obtain ⟨difference, hdiff, h⟩ := h
    exact (add_decimals h).trans (sub_decimals hdiff).2

theorem setLimit_stored {limit : TrimmedAmount} (hp : p.Stored d) (hl : limit.getDecimals = d)
    (h : setLimit D t limit p = .ok p') : p'.Stored d := by
  by_cases hnull : p.limit.isNull = true
  · rw [setLimit_of_isNull hnull] at h
    obtain rfl := Except.ok.inj h
    exact .inr ⟨hl, hl⟩
  · obtain rfl | hp := hp
    · exact absurd rfl hnull
    simp only [setLimit, hnull, Bool.false_eq_true, if_false, Except.bind_eq_ok,
      Except.pure_eq_ok] at h
    obtain ⟨capacity, hcap, moved, hmoved, rfl⟩ := h
    have hdec := (getCurrentCapacity_decimals hcap).trans (hp.capacity_decimals.trans hl.symm)
    exact .inr ⟨hl, (calculateNewCurrentCapacity_decimals hdec hmoved).trans hl⟩

/-- Parameters that were never written have the decimals of an amount that they can be compared
with. -/
theorem aligned_of_stored (hp : p.Stored d) (hdec : p.currentCapacity.getDecimals = d) :
    p.Aligned d := by
  obtain rfl | hp := hp
  · exact ⟨hdec, hdec⟩
  · exact hp

theorem consumeAmount_stored {a : TrimmedAmount} (hp : p.Stored d) (ha : a.getDecimals = d)
    (h : consumeAmount D t a p = .ok p') : p'.Stored d := by
  rw [consumeAmount] at h
  split at h
  · obtain rfl := Except.ok.inj h
    exact hp
  · simp only [consumeRateLimitAmount, Except.bind_eq_ok, Except.pure_eq_ok] at h
    obtain ⟨capacity, hcap, left, hleft, rfl⟩ := h
    obtain ⟨hdec, hleft⟩ := sub_decimals hleft
    have hcur := (getCurrentCapacity_decimals hcap).symm.trans (hdec.trans ha)
    have haligned := aligned_of_stored hp hcur
    exact .inr ⟨haligned.limit_decimals, hleft.trans (hdec.trans ha)⟩

theorem backfillAmount_stored {a : TrimmedAmount} (hp : p.Stored d) (ha : a.getDecimals = d)
    (h : backfillAmount D t a p = .ok p') : p'.Stored d := by
  rw [backfillAmount] at h
  split at h
  · obtain rfl := Except.ok.inj h
    exact hp
  · simp only [backfillRateLimitAmount, Except.bind_eq_ok, Except.pure_eq_ok] at h
    obtain ⟨capacity, hcap, sum, hsum, cut, hcut, rfl⟩ := h
    obtain ⟨hdec, hsum⟩ := saturatingAdd_decimals hsum
    have hcur := (getCurrentCapacity_decimals hcap).symm.trans (hdec.trans ha)
    have haligned := aligned_of_stored hp hcur
    exact .inr ⟨haligned.limit_decimals, (min_decimals hcut).trans (hsum.trans (hdec.trans ha))⟩

end RateLimiter

/-- An operation in the decimals of the token leaves the parameters in them. -/
theorem RateLimitParams.Stored.apply {D t : UInt64} {d : UInt8} {p p' : RateLimitParams}
    {op : RateLimitOp} (hp : p.Stored d) (hop : op.arg.getDecimals = d)
    (h : op.apply D t p = .ok p') : p'.Stored d := by
  cases op with
  | setLimit limit => exact RateLimiter.setLimit_stored hp hop h
  | consume a => exact RateLimiter.consumeAmount_stored hp hop h
  | backfill a => exact RateLimiter.backfillAmount_stored hp hop h

/-! ### Runs -/

/-- The limits are stored in the decimals of a token. -/
def Storage.LimitsStored (decimals : UInt8) (st : Storage) : Prop :=
  st.outboundLimit.Stored (minUint8 TRIMMED_DECIMALS decimals) ∧
    ∀ chain, (st.inboundLimits chain).Stored (minUint8 TRIMMED_DECIMALS decimals)

/-- The decimals that an amount of the token is trimmed to. -/
theorem wireDecimals_self (decimals : UInt8) :
    wireDecimals decimals decimals = minUint8 TRIMMED_DECIMALS decimals := by
  apply UInt8.toNat_inj.mp
  rw [toNat_wireDecimals, toNat_minUint8, toNat_TRIMMED_DECIMALS]
  omega

theorem trim_self_decimals {n : ℕ} {decimals : UInt8} {l : TrimmedAmount}
    (h : trim n decimals decimals = .ok l) :
    l.getDecimals = minUint8 TRIMMED_DECIMALS decimals :=
  (trim_eq_ok.mp h).1.trans (wireDecimals_self decimals)

theorem TrimmedAmount.shift_decimals {a l : TrimmedAmount} {decimals : UInt8}
    (h : a.shift decimals = .ok l) : l.getDecimals = minUint8 TRIMMED_DECIMALS decimals := by
  simp only [shift, Except.bind_eq_ok, Except.pure_eq_ok] at h
  obtain ⟨_, -, _, -, rfl⟩ := h
  exact getDecimals_pack _ _

namespace NttManager

/-- `__NttManager_init`, as far as the limits go: the outbound limit is the largest amount, and
its event untrims the old and the new limit. -/
def initialLimit (M : NttManager) (timestamp : UInt64) (decimals : UInt8) :
    Except Error RateLimitParams := do
  let limit := TrimmedAmount.max decimals
  let p ← RateLimiter.setLimit M.rateLimitDuration timestamp limit .zero
  let _ ← RateLimitParams.zero.limit.untrim decimals
  let _ ← limit.untrim decimals
  return p

/-- Wherever control changes hands, the limits are stored in the decimals of the token. -/
def limitsStored (R : Rules) (decimals : UInt8) : Rely managerInterface State where
  toWorld := R.world
  inv s := s.storage.LimitsStored decimals
  rely _ _ := True

theorem limitsStored_closed (R : Rules) (decimals : UInt8) : (limitsStored R decimals).Closed where
  refl _ := trivial
  trans _ _ := trivial

/-- The actions on the limits. -/
def isLimit : Action → Bool
  | .outboundLimit .. | .inboundLimit .. => true
  | _ => false

/-- Any other action leaves the limits. -/
theorem limits_of_not_isLimit {a : Action} (ha : isLimit a = false) (st : Storage) :
    (a.apply st).outboundLimit = st.outboundLimit ∧
      (a.apply st).inboundLimits = st.inboundLimits := by
  cases a <;> first | exact ⟨rfl, rfl⟩ | cases ha

variable {M : NttManager} {made : Context → Call → Prop} {dec : UInt8} {ctx : Context}

/-- A program that leaves the limits stored in the decimals of the token. -/
abbrev Keeps (made : Context → Call → Prop) (dec : UInt8) {α : Type} (m : ManagerProg α) : Prop :=
  Within (limitsStored (.fixed dec made) dec) m

namespace Keeps

variable {α β : Type} {m : ManagerProg α} {f : α → ManagerProg β}

theorem bind (hm : Keeps made dec m) (hf : ∀ a, Keeps made dec (f a)) :
    Keeps made dec (m >>= f) :=
  Within.bind (limitsStored_closed _ _) hm hf

theorem pure (a : α) : Keeps made dec (pure a : ManagerProg α) :=
  Within.pure (limitsStored_closed _ _) a

theorem revertIf (c : Prop) [Decidable c] (e : Error) :
    Keeps made dec (Reentrant.revertIf c e : ManagerProg Unit) :=
  Within.revertIf (limitsStored_closed _ _) c e

theorem liftExcept (x : Except Error α) :
    Keeps made dec (Reentrant.liftExcept x : ManagerProg α) :=
  Within.liftExcept (limitsStored_closed _ _) x

/-- A pure computation whose result is then known. -/
theorem bind_liftExcept {x : Except Error α} (hf : ∀ a, x = .ok a → Keeps made dec (f a)) :
    Keeps made dec (Reentrant.liftExcept x >>= f) := by
  intro s hs
  rw [run_bind, Res.wp_bind, wp_liftExcept]
  exact fun a ha => hf a ha s hs

theorem load : Keeps made dec load := fun _ hs => ⟨hs, trivial⟩

theorem perform {a : Action} (ha : isLimit a = false) : Keeps made dec (perform ctx a) := by
  intro s hs
  obtain ⟨hout, hin⟩ := limits_of_not_isLimit ha s.storage
  refine ⟨⟨?_, fun chain => ?_⟩, trivial⟩
  · exact hout ▸ hs.1
  · exact hin ▸ hs.2 chain

theorem external (x : Ext) : Keeps made dec (external x) := by
  cases hx : x.isStatic with
  | true =>
      refine fun s hs => (wp_call_closed (X := managerInterface) (x := x) hx s).mpr ?_
      rintro r s' ⟨rfl, -⟩
      exact ⟨hs, trivial⟩
  | false => exact Within.call_open hx

/-- The token reports its decimals truly. -/
theorem bind_tokenDecimals {f : UInt8 → ManagerProg β} (hf : Keeps made dec (f dec)) :
    Keeps made dec (tokenDecimals >>= f) := by
  intro s hs
  rw [run_bind, Res.wp_bind]
  refine (wp_call_closed (X := managerInterface) (x := .tokenDecimals) rfl s).mpr ?_
  rintro r s' ⟨rfl, rfl⟩
  exact hf s' hs

theorem updateOutboundLimit {op : RateLimitOp}
    (hop : op.arg.getDecimals = minUint8 TRIMMED_DECIMALS dec) :
    Keeps made dec (M.updateOutboundLimit ctx op) := by
  intro s hs
  rw [wp_updateOutboundLimit]
  exact fun p hp => ⟨⟨hs.1.apply hop hp, hs.2⟩, trivial⟩

theorem updateInboundLimit {chain : UInt16} {op : RateLimitOp}
    (hop : op.arg.getDecimals = minUint8 TRIMMED_DECIMALS dec) :
    Keeps made dec (M.updateInboundLimit ctx chain op) := by
  intro s hs
  rw [wp_updateInboundLimit]
  intro p hp
  refine ⟨⟨hs.1, fun chain' => ?_⟩, trivial⟩
  change (Function.update s.storage.inboundLimits chain p chain').Stored _
  by_cases hc : chain' = chain
  · subst hc
    rw [Function.update_self]
    exact (hs.2 chain').apply hop hp
  · rw [Function.update_of_ne hc]
    exact hs.2 chain'

theorem nonPayable : Keeps made dec (nonPayable ctx) := revertIf _ _

theorem onlyOwner : Keeps made dec (onlyOwner ctx) := bind load fun _ => revertIf _ _

theorem onlyOwnerOrPauser : Keeps made dec (onlyOwnerOrPauser ctx) :=
  bind load fun _ => revertIf _ _

theorem whenNotPaused : Keeps made dec whenNotPaused := bind load fun _ => revertIf _ _

theorem nonReentrant {body : ManagerProg α} (hbody : Keeps made dec body) :
    Keeps made dec (nonReentrant ctx body) :=
  bind load fun _ => bind (revertIf _ _) fun _ => bind (perform rfl) fun _ => bind hbody fun _ =>
    bind (perform rfl) fun _ => pure _

theorem refundToSender (amount : ℕ) : Keeps made dec (refundToSender ctx amount) :=
  bind (external _) fun _ => pure _

end Keeps

/-! ### The programs, one by one -/

theorem updateQuorum_keeps (op : RegistryOp) : Keeps made dec (updateQuorum ctx op) :=
  .bind .load fun _ => .bind (.liftExcept _) fun _ => .perform rfl

theorem transferTransceiversLoop_keeps (newOwner : Address) (rounds i : ℕ) :
    Keeps made dec (transferTransceiversLoop newOwner rounds i) := by
  induction rounds generalizing i with
  | zero => exact .pure ()
  | succ rounds ih =>
      refine .bind .load fun st => ?_
      cases st.registry.registeredTransceivers[i]? with
      | none => exact .pure ()
      | some transceiver => exact .bind (.external _) fun _ => ih (i + 1)

theorem transferOwnership_keeps (newOwner : Address) :
    Keeps made dec (transferOwnership ctx newOwner) :=
  .bind .nonPayable fun _ => .bind .onlyOwner fun _ => .bind (.revertIf _ _) fun _ =>
    .bind (.perform rfl) fun _ => .bind .load fun _ => .bind (.revertIf _ _) fun _ =>
    transferTransceiversLoop_keeps _ _ _

theorem setOutboundLimitTrimmed_keeps {limit : TrimmedAmount}
    (hl : limit.getDecimals = minUint8 TRIMMED_DECIMALS dec) :
    Keeps made dec (M.setOutboundLimitTrimmed ctx limit) :=
  .bind .load fun _ => .bind (.external _) fun _ => .bind (.updateOutboundLimit hl) fun _ =>
    .bind (.liftExcept _) fun _ => .bind (.liftExcept _) fun _ => .pure _

theorem setInboundLimitTrimmed_keeps {limit : TrimmedAmount} {chain : UInt16}
    (hl : limit.getDecimals = minUint8 TRIMMED_DECIMALS dec) :
    Keeps made dec (M.setInboundLimitTrimmed ctx limit chain) :=
  .bind .load fun _ => .bind (.external _) fun _ => .bind (.updateInboundLimit hl) fun _ =>
    .bind (.liftExcept _) fun _ => .bind (.liftExcept _) fun _ => .pure _

theorem setPeer_keeps (chain : UInt16) (peer : Bytes32) (decimals : UInt8) (n : ℕ) :
    Keeps made dec (M.setPeer ctx chain peer decimals n) :=
  .bind .nonPayable fun _ => .bind .onlyOwner fun _ => .bind (.revertIf _ _) fun _ =>
    .bind (.revertIf _ _) fun _ => .bind (.revertIf _ _) fun _ => .bind (.revertIf _ _) fun _ =>
    .bind (.perform rfl) fun _ => .bind_tokenDecimals <| .bind_liftExcept fun _ h =>
    setInboundLimitTrimmed_keeps (trim_self_decimals h)

theorem setOutboundLimit_keeps (n : ℕ) : Keeps made dec (M.setOutboundLimit ctx n) :=
  .bind .nonPayable fun _ => .bind .onlyOwner fun _ => .bind_tokenDecimals <|
    .bind_liftExcept fun _ h => setOutboundLimitTrimmed_keeps (trim_self_decimals h)

theorem setInboundLimit_keeps (n : ℕ) (chain : UInt16) :
    Keeps made dec (M.setInboundLimit ctx n chain) :=
  .bind .nonPayable fun _ => .bind .onlyOwner fun _ => .bind_tokenDecimals <|
    .bind_liftExcept fun _ h => setInboundLimitTrimmed_keeps (trim_self_decimals h)

theorem mintOrUnlockToRecipient_keeps (digest : Bytes32) (recipient : Address)
    (amount : TrimmedAmount) (cancelled : Bool) :
    Keeps made dec (M.mintOrUnlockToRecipient ctx digest recipient amount cancelled) := by
  refine .bind (.revertIf _ _) fun _ => .bind (.external _) fun _ =>
    .bind (.liftExcept _) fun n => ?_
  cases cancelled <;> refine .bind (.perform rfl) fun _ => ?_
  all_goals cases M.mode <;> exact .bind (.external _) fun _ => .pure _

theorem enqueueOrConsumeInboundRateLimit_keeps {digest : Bytes32} {chain : UInt16}
    {amount : TrimmedAmount} {recipient : Address}
    (ha : amount.getDecimals = minUint8 TRIMMED_DECIMALS dec) :
    Keeps made dec (M.enqueueOrConsumeInboundRateLimit ctx digest chain amount recipient) := by
  refine .bind .load fun _ => .bind (.liftExcept _) fun limited => ?_
  cases limited with
  | true => exact .bind (.perform rfl) fun _ => .pure _
  | false =>
      exact .bind (.updateInboundLimit ha) fun _ => .bind (.updateOutboundLimit ha) fun _ => .pure _

theorem handleTransfer_keeps (chain : UInt16) (source : Bytes32) (message : NttManagerMessage)
    (digest : Bytes32) : Keeps made dec (M.handleTransfer ctx chain source message digest) := by
  refine .bind (.liftExcept _) fun _ => .bind (.revertIf _ _) fun _ => .bind_tokenDecimals <|
    .bind (.liftExcept _) fun _ => .bind_liftExcept fun amount ha => .bind (.liftExcept _) fun _ =>
    .bind (enqueueOrConsumeInboundRateLimit_keeps (trim_self_decimals ha)) fun enqueued => ?_
  cases enqueued with
  | true => exact .pure _
  | false => exact mintOrUnlockToRecipient_keeps _ _ _ _

theorem executeMsg_keeps (chain : UInt16) (source : Bytes32) (message : NttManagerMessage) :
    Keeps made dec (M.executeMsg ctx chain source message) := by
  refine .bind .whenNotPaused fun _ => .bind ?_ fun r => ?_
  · refine .bind (.liftExcept _) fun digest => .bind .load fun st =>
      .bind (.revertIf _ _) fun _ => ?_
    cases (st.messageAttestations digest).executed with
    | true => exact .pure _
    | false => exact .bind (.perform rfl) fun _ => .pure _
  · obtain ⟨digest, executed⟩ := r
    cases executed with
    | true => exact .pure _
    | false => exact handleTransfer_keeps chain source message digest

theorem attestationReceived_keeps (chain : UInt16) (source : Bytes32)
    (message : NttManagerMessage) :
    Keeps made dec (M.attestationReceived ctx chain source message) := by
  refine .bind (.bind .load fun _ => .revertIf _ _) fun _ => .bind .whenNotPaused fun _ =>
    .bind (.bind .load fun _ => .revertIf _ _) fun _ => .bind ?_ fun digest =>
    .bind .load fun st => ?_
  · exact .bind (.liftExcept _) fun _ => .bind .load fun _ => .bind (.revertIf _ _) fun _ =>
      .bind (.perform rfl) fun _ => .pure _
  · cases st.isMessageApproved digest with
    | true => exact executeMsg_keeps _ _ _
    | false => exact .pure _

theorem completeInboundQueuedTransfer_keeps (digest : Bytes32) :
    Keeps made dec (M.completeInboundQueuedTransfer ctx digest) :=
  .nonReentrant <| .bind .whenNotPaused fun _ => .bind .load fun _ => .bind (.revertIf _ _) fun _ =>
    .bind (.liftExcept _) fun _ => .bind (.revertIf _ _) fun _ => .bind (.perform rfl) fun _ =>
    mintOrUnlockToRecipient_keeps _ _ _ _

theorem quoteLoop_keeps {chain : UInt16} {instructions : List TransceiverInstruction}
    (transceivers : List Address) (quotes : List ℕ) (total : ℕ) :
    Keeps made dec (quoteLoop chain instructions transceivers quotes total) := by
  induction transceivers generalizing quotes total with
  | nil => exact .pure _
  | cons transceiver rest ih =>
      exact .bind .load fun _ => .bind (.liftExcept _) fun _ => .bind (.external _) fun _ =>
        .bind (.liftExcept _) fun _ => ih _ _

theorem sendLoop_keeps {chain : UInt16} {refund peer : Bytes32}
    {instructions : List TransceiverInstruction} {payload : Bytes}
    (transceivers : List (Address × ℕ)) :
    Keeps made dec (sendLoop chain refund peer instructions payload transceivers) := by
  induction transceivers with
  | nil => exact .pure _
  | cons t rest ih =>
      exact .bind .load fun _ => .bind (.liftExcept _) fun _ => .bind (.external _) fun _ => ih

theorem prepareForTransfer_keeps (chain : UInt16) (instructions : Bytes) :
    Keeps made dec (M.prepareForTransfer ctx chain instructions) := by
  refine .bind .load fun _ => .bind (.revertIf _ _) fun _ => .bind (.liftExcept _) fun _ =>
    .bind (quoteLoop_keeps _ _ _) fun r => .bind (.revertIf _ _) fun _ => ?_
  by_cases hexcess : ctx.value - r.2 > 0
  · rw [if_pos hexcess]
    exact .bind (.refundToSender _) fun _ => .pure _
  · rw [if_neg hexcess]
    exact .bind (.pure _) fun _ => .pure _

theorem sendTransfer_keeps (sequence : UInt64) (amount : TrimmedAmount) (chain : UInt16)
    (recipient refund : Bytes32) (sender : Address) (instructions : Bytes) :
    Keeps made dec
      (M.sendTransfer ctx sequence amount chain recipient refund sender instructions) := by
  rw [sendTransfer]
  generalize M.encodeTransfer sequence amount chain recipient sender = encoded
  refine .bind (.revertIf _ _) fun _ => .bind (prepareForTransfer_keeps _ _) fun r => ?_
  obtain ⟨transceivers, instructions, quotes, total⟩ := r
  refine .bind (.liftExcept _) fun message => .bind (.liftExcept _) fun payload =>
    .bind .load fun st => .bind (.perform rfl) fun _ => .bind ?_ fun _ => ?_
  · exact .bind (.revertIf _ _) fun _ => sendLoop_keeps _
  · exact .bind (.external _) fun _ => .bind (.liftExcept _) fun _ => .pure _

theorem enqueueOrConsumeOutboundRateLimit_keeps (transfer : Transfer) (shouldQueue : Bool)
    (sequence : UInt64) :
    Keeps made dec (M.enqueueOrConsumeOutboundRateLimit ctx transfer shouldQueue sequence) := by
  have hcap : Keeps made dec (M.getCurrentOutboundCapacity ctx) :=
    .bind .load fun _ => .bind (.liftExcept _) fun _ => .bind (.external _) fun _ => .liftExcept _
  refine .bind_tokenDecimals <| .bind_liftExcept fun amount ha => .bind .load fun _ =>
    .bind (.liftExcept _) fun limited => ?_
  have ha := TrimmedAmount.shift_decimals ha
  cases limited with
  | false =>
      exact .bind (.updateOutboundLimit ha) fun _ => .bind (.updateInboundLimit ha) fun _ => .pure _
  | true =>
      cases shouldQueue with
      | true =>
          exact .bind (.revertIf _ _) fun _ => .bind hcap fun _ => .bind (.perform rfl) fun _ =>
            .bind (.refundToSender _) fun _ => .pure _
      | false => exact .bind hcap fun _ => Within.revert _

theorem pullTokens_keeps (amount : ℕ) : Keeps made dec (M.pullTokens ctx amount) := by
  refine .bind (.external _) fun _ => .bind (.external _) fun _ => .bind (.external _) fun _ =>
    .bind (.liftExcept _) fun _ => ?_
  cases M.mode with
  | locking => exact .pure _
  | burning =>
      exact .bind (.external _) fun _ => .bind (.external _) fun _ => .bind (.revertIf _ _) fun _ =>
        .pure _

theorem transfer_keeps (amount : ℕ) (chain : UInt16) (recipient refund : Bytes32)
    (shouldQueue : Bool) (instructions : Bytes) :
    Keeps made dec (M.transfer ctx amount chain recipient refund shouldQueue instructions) := by
  have htrim (received : ℕ) : Keeps made dec (trimTransferAmount received chain) :=
    .bind .load fun _ => .bind (.revertIf _ _) fun _ => .bind (.external _) fun _ =>
      .bind (.liftExcept _) fun _ => .bind (.liftExcept _) fun _ => .bind (.revertIf _ _) fun _ =>
      .pure _
  have hsequence (t : Transfer) : Keeps made dec (useMessageSequence ctx t) :=
    .bind .load fun _ => .bind (.revertIf _ _) fun _ => .bind (.perform rfl) fun _ => .pure _
  refine .nonReentrant <| .bind .whenNotPaused fun _ => .bind (.revertIf _ _) fun _ =>
    .bind (.revertIf _ _) fun _ => .bind (.revertIf _ _) fun _ =>
    .bind (pullTokens_keeps _) fun received => .bind (htrim received) fun trimmed =>
    .bind (hsequence _) fun sequence =>
    .bind (enqueueOrConsumeOutboundRateLimit_keeps _ _ _) fun enqueued => ?_
  cases enqueued with
  | true => exact .pure _
  | false => exact sendTransfer_keeps _ _ _ _ _ _ _

theorem completeOutboundQueuedTransfer_keeps (sequence : UInt64) :
    Keeps made dec (M.completeOutboundQueuedTransfer ctx sequence) :=
  .nonReentrant <| .bind .whenNotPaused fun _ => .bind .load fun _ => .bind (.revertIf _ _) fun _ =>
    .bind (.liftExcept _) fun _ => .bind (.revertIf _ _) fun _ => .bind (.perform rfl) fun _ =>
    sendTransfer_keeps _ _ _ _ _ _ _

theorem cancelOutboundQueuedTransfer_keeps (sequence : UInt64) :
    Keeps made dec (M.cancelOutboundQueuedTransfer ctx sequence) :=
  .bind .nonPayable fun _ => .nonReentrant <| .bind .whenNotPaused fun _ => .bind .load fun _ =>
    .bind (.revertIf _ _) fun _ => .bind (.revertIf _ _) fun _ => .bind (.perform rfl) fun _ =>
    mintOrUnlockToRecipient_keeps _ _ _ _

/-- Every call leaves the limits stored in the decimals of the token. -/
theorem body_keeps (e : Call) : Keeps made dec (M.body ctx e) := by
  cases e with
  | transfer | transferSimple => exact transfer_keeps _ _ _ _ _ _
  | attestationReceived => exact .bind .nonPayable fun _ => attestationReceived_keeps _ _ _
  | executeMsg => exact .bind .nonPayable fun _ => executeMsg_keeps _ _ _
  | completeInboundQueuedTransfer =>
      exact .bind .nonPayable fun _ => completeInboundQueuedTransfer_keeps _
  | completeOutboundQueuedTransfer => exact completeOutboundQueuedTransfer_keeps _
  | cancelOutboundQueuedTransfer => exact cancelOutboundQueuedTransfer_keeps _
  | setPeer => exact setPeer_keeps _ _ _ _
  | setOutboundLimit => exact setOutboundLimit_keeps _
  | setInboundLimit => exact setInboundLimit_keeps _ _
  | setTransceiver | removeTransceiver | setThreshold =>
      exact .bind .nonPayable fun _ => .bind .onlyOwner fun _ => updateQuorum_keeps _
  | pause =>
      exact .bind .nonPayable fun _ => .bind .onlyOwnerOrPauser fun _ => .bind .whenNotPaused fun _ =>
        .perform rfl
  | unpause =>
      exact .bind .nonPayable fun _ => .bind .onlyOwner fun _ => .bind .load fun _ =>
        .bind (.revertIf _ _) fun _ => .perform rfl
  | transferOwnership => exact transferOwnership_keeps _
  | transferPauserCapability =>
      exact .bind .nonPayable fun _ => .bind .onlyOwnerOrPauser fun _ => .perform rfl

/-! ### The calls of the owner -/

/-- Whatever the calls before and around, the limits are stored in the decimals of the token. -/
theorem limits_of_reachable {owner : Address} {p₀ : RateLimitParams} {t₀ : UInt64}
    {token : Ledger} {c : Config managerInterface State Error}
    (hinit : M.initialLimit t₀ dec = .ok p₀)
    (h : Reachable M.contract (Rules.fixed dec made).environment
      ⟨.initial owner p₀, token, []⟩ c) : c.st.storage.LimitsStored dec := by
  simp only [initialLimit, Except.bind_eq_ok, Except.pure_eq_ok] at hinit
  obtain ⟨_, hp₀, _, -, _, -, rfl⟩ := hinit
  refine h.inv (E := limitsStored (.fixed dec made) dec) (limitsStored_closed _ _) ⟨rfl, ?_⟩ ?_
  · exact fun e s _ hs => body_keeps e.2 s hs
  · exact ⟨RateLimiter.setLimit_stored (.inl rfl) (getDecimals_pack _ _) hp₀, fun _ => .inl rfl⟩

section

variable {s : State} {k : List ℕ} {α : Type}

theorem tokenDecimals_drive {r : UInt8 × State × List ℕ} :
    (tokenDecimals.run s).drive (respond dec) k = .ok r ↔ r = (dec, s, k) :=
  drive_ret_eq_ok (X := managerInterface) (o := respond dec)

theorem load_drive {r : Storage × State × List ℕ} :
    (load.run s).drive (respond dec) k = .ok r ↔ r = (s.storage, s, k) :=
  drive_ret_eq_ok

theorem perform_drive {a : Action} {r : Unit × State × List ℕ} :
    ((perform ctx a).run s).drive (respond dec) k = .ok r ↔ r = ((), s.perform ctx a, k) :=
  drive_ret_eq_ok

theorem setInboundLimitTrimmed_drive {l : TrimmedAmount} {chain : UInt16}
    {r : Unit × State × List ℕ} :
    ((M.setInboundLimitTrimmed ctx l chain).run s).drive (respond dec) k = .ok r ↔
      ∃ p, RateLimiter.setLimit M.rateLimitDuration ctx.timestamp l
          (s.storage.inboundLimits chain) = .ok p ∧
        (∃ n, (s.storage.inboundLimits chain).limit.untrim dec = .ok n) ∧
        (∃ n, l.untrim dec = .ok n) ∧
        r = ((), s.perform ctx (.inboundLimit chain (.setLimit l) p), k) := by
  simp only [setInboundLimitTrimmed, updateInboundLimit, run_bind, Res.drive_bind,
    Except.bind_eq_ok, tokenDecimals_drive, load_drive, perform_drive, monadLift_eq_liftExcept,
    drive_liftExcept_eq_ok, run_pure, drive_ret_eq_ok]
  simp [RateLimitOp.apply]

theorem setOutboundLimitTrimmed_drive {l : TrimmedAmount} {r : Unit × State × List ℕ} :
    ((M.setOutboundLimitTrimmed ctx l).run s).drive (respond dec) k = .ok r ↔
      ∃ p, RateLimiter.setLimit M.rateLimitDuration ctx.timestamp l s.storage.outboundLimit = .ok p ∧
        (∃ n, s.storage.outboundLimit.limit.untrim dec = .ok n) ∧
        (∃ n, l.untrim dec = .ok n) ∧
        r = ((), s.perform ctx (.outboundLimit (.setLimit l) p), k) := by
  simp only [setOutboundLimitTrimmed, updateOutboundLimit, run_bind, Res.drive_bind,
    Except.bind_eq_ok, tokenDecimals_drive, load_drive, perform_drive, monadLift_eq_liftExcept,
    drive_liftExcept_eq_ok, run_pure, drive_ret_eq_ok]
  simp [RateLimitOp.apply]

theorem runCalls_single {e : Call} {s' : State} :
    M.runCalls dec [(ctx, e)] s k = .ok s' ↔
      ∃ k', ((M.body ctx e).run s).drive (respond dec) k = .ok ((), s', k') := by
  simp only [runCalls, Contract.drive]
  change _ ↔ ∃ k', ((M.contract.body (ctx, e)).run s).drive (respond dec) k = .ok ((), s', k')
  cases ((M.contract.body (ctx, e)).run s).drive (respond dec) k with
  | ok r =>
      obtain ⟨_, s₁, k₁⟩ := r
      simp
  | error err => simp

/-- The owner sets the outbound limit. -/
theorem runCalls_setOutboundLimit {n : ℕ} {l : TrimmedAmount} {s' : State}
    (howner : ctx.sender = s.storage.owner) (hvalue : ctx.value = 0)
    (hn : trim n dec dec = .ok l) :
    M.runCalls dec [(ctx, .setOutboundLimit n)] s k = .ok s' ↔
      ∃ p, RateLimiter.setLimit M.rateLimitDuration ctx.timestamp l s.storage.outboundLimit = .ok p ∧
        (∃ n, s.storage.outboundLimit.limit.untrim dec = .ok n) ∧ (∃ n, l.untrim dec = .ok n) ∧
        s' = s.perform ctx (.outboundLimit (.setLimit l) p) := by
  rw [runCalls_single]
  simp only [body, setOutboundLimit, nonPayable, onlyOwner, run_bind, Res.drive_bind,
    Except.bind_eq_ok, tokenDecimals_drive, load_drive, monadLift_eq_liftExcept,
    drive_liftExcept_eq_ok, drive_revertIf_eq_ok, setOutboundLimitTrimmed_drive]
  simp [howner, hvalue, hn]

/-- The owner sets the inbound limit of a chain. -/
theorem runCalls_setInboundLimit {n : ℕ} {chain : UInt16} {l : TrimmedAmount} {s' : State}
    (howner : ctx.sender = s.storage.owner) (hvalue : ctx.value = 0)
    (hn : trim n dec dec = .ok l) :
    M.runCalls dec [(ctx, .setInboundLimit n chain)] s k = .ok s' ↔
      ∃ p, RateLimiter.setLimit M.rateLimitDuration ctx.timestamp l
          (s.storage.inboundLimits chain) = .ok p ∧
        (∃ n, (s.storage.inboundLimits chain).limit.untrim dec = .ok n) ∧
        (∃ n, l.untrim dec = .ok n) ∧
        s' = s.perform ctx (.inboundLimit chain (.setLimit l) p) := by
  rw [runCalls_single]
  simp only [body, setInboundLimit, nonPayable, onlyOwner, run_bind, Res.drive_bind,
    Except.bind_eq_ok, tokenDecimals_drive, load_drive, monadLift_eq_liftExcept,
    drive_liftExcept_eq_ok, drive_revertIf_eq_ok, setInboundLimitTrimmed_drive]
  simp [howner, hvalue, hn]

/-- The owner sets or replaces the peer of a chain. -/
theorem runCalls_setPeer {n : ℕ} {chain : UInt16} {peer : Bytes32} {decimals : UInt8}
    {l : TrimmedAmount} {s' : State}
    (howner : ctx.sender = s.storage.owner) (hvalue : ctx.value = 0)
    (hn : trim n dec dec = .ok l) (hchain : chain ≠ 0) (hpeer : peer ≠ 0)
    (hdecimals : decimals ≠ 0) (hother : chain ≠ M.chainId) :
    M.runCalls dec [(ctx, .setPeer chain peer decimals n)] s k = .ok s' ↔
      ∃ p, RateLimiter.setLimit M.rateLimitDuration ctx.timestamp l
          (s.storage.inboundLimits chain) = .ok p ∧
        (∃ n, (s.storage.inboundLimits chain).limit.untrim dec = .ok n) ∧
        (∃ n, l.untrim dec = .ok n) ∧
        s' = (s.perform ctx (.setPeer chain ⟨peer, decimals⟩)).perform ctx
          (.inboundLimit chain (.setLimit l) p) := by
  rw [runCalls_single]
  simp only [body, setPeer, nonPayable, onlyOwner, run_bind, Res.drive_bind,
    Except.bind_eq_ok, tokenDecimals_drive, load_drive, perform_drive, monadLift_eq_liftExcept,
    drive_liftExcept_eq_ok, drive_revertIf_eq_ok, setInboundLimitTrimmed_drive]
  simp [howner, hvalue, hn, hchain, show peer ≠ 0#256 from hpeer, hdecimals, hother, Action.apply]

end

/-- What the largest amount can be untrimmed to bounds the decimals of the token. -/
theorem pow_decimals_lt {m : ℕ} (hmax : (TrimmedAmount.max dec).untrim dec = .ok m) :
    10 ^ dec.toNat < 2 ^ 256 := by
  by_cases hle : dec.toNat ≤ 8
  · exact lt_of_le_of_lt (Nat.pow_le_pow_right (by norm_num) hle) (by norm_num)
  have hdec : (TrimmedAmount.max dec).getDecimals.toNat = 8 := by
    rw [TrimmedAmount.max, getDecimals_pack, toNat_minUint8, toNat_TRIMMED_DECIMALS]
    omega
  have hamount : (TrimmedAmount.max dec).getAmount.toNat = 2 ^ 64 - 1 := by
    rw [TrimmedAmount.max, getAmount_pack]
    rfl
  have hfit := (untrim_eq_ok.mp hmax).2.2 (UInt8.lt_iff_toNat_lt.mpr (by omega))
  rw [hdec, hamount] at hfit
  calc 10 ^ dec.toNat = 10 ^ 8 * 10 ^ (dec.toNat - 8) := by rw [← pow_add]; congr 1; omega
    _ ≤ (2 ^ 64 - 1) * 10 ^ (dec.toNat - 8) := Nat.mul_le_mul_right _ (by norm_num)
    _ < 2 ^ 256 := hfit

/-- An amount in the decimals of the token can be untrimmed, if the largest can. -/
theorem untrim_of_decimals {a : TrimmedAmount} {m : ℕ}
    (hmax : (TrimmedAmount.max dec).untrim dec = .ok m)
    (ha : a.getDecimals = minUint8 TRIMMED_DECIMALS dec) : ∃ n, a.untrim dec = .ok n := by
  have hdec : (TrimmedAmount.max dec).getDecimals = a.getDecimals := by
    rw [TrimmedAmount.max, getDecimals_pack, ha]
  have hamount : (TrimmedAmount.max dec).getAmount.toNat = 2 ^ 64 - 1 := by
    rw [TrimmedAmount.max, getAmount_pack]
    rfl
  obtain ⟨-, hpow, hfit⟩ := untrim_eq_ok.mp hmax
  rw [hdec] at hpow hfit
  refine ⟨_, untrim_eq_ok.mpr ⟨rfl, hpow, fun hlt => lt_of_le_of_lt ?_ (hfit hlt)⟩⟩
  rw [hamount]
  have := a.amount_lt
  exact Nat.mul_le_mul_right _ (by change a.amount ≤ _; omega)

theorem untrim_of_stored {p : RateLimitParams} {m : ℕ}
    (hmax : (TrimmedAmount.max dec).untrim dec = .ok m)
    (hp : p.Stored (minUint8 TRIMMED_DECIMALS dec)) : ∃ n, p.limit.untrim dec = .ok n := by
  obtain rfl | hp := hp
  · have hpow := pow_decimals_lt hmax
    have hz : RateLimitParams.zero.limit.getAmount.toNat = 0 ∧
        RateLimitParams.zero.limit.getDecimals.toNat = 0 := by decide
    refine ⟨_, untrim_eq_ok.mpr ⟨rfl, fun _ => ?_, fun _ => ?_⟩⟩
    · rw [hz.2, Nat.zero_sub, Nat.sub_zero]
      exact ⟨by norm_num, hpow⟩
    · rw [hz.1, Nat.zero_mul]
      norm_num
  · exact untrim_of_decimals hmax hp.limit_decimals

/-- The outcome of setting a limit that is stored in the decimals of the token. -/
theorem setLimit_untrim_iff {p : RateLimitParams} {l : TrimmedAmount} {m n : ℕ} {t : UInt64}
    (hmax : (TrimmedAmount.max dec).untrim dec = .ok m)
    (hp : p.Stored (minUint8 TRIMMED_DECIMALS dec)) (hn : trim n dec dec = .ok l) :
    (∃ p', RateLimiter.setLimit M.rateLimitDuration t l p = .ok p' ∧
      (∃ n, p.limit.untrim dec = .ok n) ∧ (∃ n, l.untrim dec = .ok n) ∧ p'.limit = l) ↔
    p.Adjustable M.rateLimitDuration := by
  rw [← RateLimiter.setLimit_ok_iff hp (trim_self_decimals hn) (t := t)]
  constructor
  · rintro ⟨p', h, -, -, hl⟩
    exact ⟨p', h, hl⟩
  · rintro ⟨p', h, hl⟩
    exact ⟨p', h, untrim_of_stored hmax hp, untrim_of_decimals hmax (trim_self_decimals hn), hl⟩

/-- **The owner's operations on the limits.** Wherever a run of the manager is, with a token that
reports its decimals truly, and for every limit that fits: setting the outbound limit, setting an
inbound limit, and setting or replacing a peer succeed, and leave the given limit, if and only if
the limit they replace can be replaced. -/
theorem limit_admin_iff {owner : Address} {p₀ : RateLimitParams} {t₀ : UInt64}
    {token : Ledger} {c : Config managerInterface State Error}
    (hinit : M.initialLimit t₀ dec = .ok p₀)
    (h : Reachable M.contract (Rules.fixed dec made).environment
      ⟨.initial owner p₀, token, []⟩ c)
    (howner : ctx.sender = c.st.storage.owner) (hvalue : ctx.value = 0) {n : ℕ}
    {l : TrimmedAmount} (hn : trim n dec dec = .ok l) :
    ((∃ s', M.runCalls dec [(ctx, .setOutboundLimit n)] c.st [] = .ok s' ∧
        s'.storage.outboundLimit.limit = l) ↔
      c.st.storage.outboundLimit.Adjustable M.rateLimitDuration) ∧
    ∀ chain : UInt16,
      ((∃ s', M.runCalls dec [(ctx, .setInboundLimit n chain)] c.st [] = .ok s' ∧
          (s'.storage.inboundLimits chain).limit = l) ↔
        (c.st.storage.inboundLimits chain).Adjustable M.rateLimitDuration) ∧
      ∀ (peer : Bytes32) (decimals : UInt8),
        chain ≠ 0 → peer ≠ 0 → decimals ≠ 0 → chain ≠ M.chainId →
        ((∃ s', M.runCalls dec [(ctx, .setPeer chain peer decimals n)] c.st [] = .ok s' ∧
            s'.storage.peers chain = ⟨peer, decimals⟩ ∧
            (s'.storage.inboundLimits chain).limit = l) ↔
          (c.st.storage.inboundLimits chain).Adjustable M.rateLimitDuration) := by
  have hstored := limits_of_reachable hinit h
  obtain ⟨m, hmax⟩ : ∃ m, (TrimmedAmount.max dec).untrim dec = .ok m := by
    simp only [initialLimit, Except.bind_eq_ok] at hinit
    obtain ⟨_, -, _, -, m, hm, -⟩ := hinit
    exact ⟨m, hm⟩
  refine ⟨?_, fun chain => ⟨?_, fun peer decimals hchain hpeer hdecimals hother => ?_⟩⟩
  · rw [← setLimit_untrim_iff hmax hstored.1 hn]
    simp only [runCalls_setOutboundLimit howner hvalue hn]
    constructor
    · rintro ⟨_, ⟨p, hp, hold, hnew, rfl⟩, hl⟩
      exact ⟨p, hp, hold, hnew, hl⟩
    · rintro ⟨p, hp, hold, hnew, hl⟩
      exact ⟨_, ⟨p, hp, hold, hnew, rfl⟩, hl⟩
  · rw [← setLimit_untrim_iff hmax (hstored.2 chain) hn]
    simp only [runCalls_setInboundLimit howner hvalue hn]
    constructor
    · rintro ⟨_, ⟨p, hp, hold, hnew, rfl⟩, hl⟩
      exact ⟨p, hp, hold, hnew, by simpa [Action.apply] using hl⟩
    · rintro ⟨p, hp, hold, hnew, hl⟩
      exact ⟨_, ⟨p, hp, hold, hnew, rfl⟩, by simpa [Action.apply] using hl⟩
  · rw [← setLimit_untrim_iff hmax (hstored.2 chain) hn]
    simp only [runCalls_setPeer howner hvalue hn hchain hpeer hdecimals hother]
    constructor
    · rintro ⟨_, ⟨p, hp, hold, hnew, rfl⟩, -, hl⟩
      exact ⟨p, hp, hold, hnew, by simpa [Action.apply] using hl⟩
    · rintro ⟨p, hp, hold, hnew, hl⟩
      exact ⟨_, ⟨p, hp, hold, hnew, rfl⟩, by simp [Action.apply], by simpa [Action.apply] using hl⟩

/-- With a duration, the owner of a fresh manager sets its limit. -/
theorem sample_limit_admin : ∃ s', (sample fun _ => sampleDigest).runCalls 18
      [(sampleContext 0xA, .setOutboundLimit (10 ^ 18))] sampleState [] = .ok s' ∧
    s'.storage.outboundLimit.limit = ofNat (10 ^ 8) 8 := by
  have hinit : (sample fun _ => sampleDigest).initialLimit 0 18 = .ok ⟨.max 18, .max 18, 0⟩ := by
    decide +kernel
  have hreach : Reachable (sample fun _ => sampleDigest).contract
      (Rules.fixed 18 fun _ _ => True).environment ⟨.initial 0xA ⟨.max 18, .max 18, 0⟩, .empty, []⟩
      ⟨sampleState, []⟩ := .refl
  have htrim : trim (10 ^ 18) 18 18 = .ok (ofNat (10 ^ 8) 8) := by decide +kernel
  have howner : (sampleContext 0xA).sender = sampleState.storage.owner := rfl
  exact (limit_admin_iff hinit hreach howner rfl htrim).1.mpr (.inl (by decide))

/-- Without one, the owner cannot replace the peer that they set. -/
theorem sample_peer_stuck : ∃ s, sampleUnlimited.initialLimit 0 18 = .ok ⟨.max 18, .max 18, 0⟩ ∧
    Reachable sampleUnlimited.contract (Rules.fixed 18 fun _ _ => True).environment sampleState
      ⟨s, []⟩ ∧ s.storage.owner = 0xA ∧
    trim (10 ^ 18) 18 18 = .ok (ofNat (10 ^ 8) 8) ∧
    ∀ s', sampleUnlimited.runCalls 18 [(sampleContext 0xA, .setPeer 4 0x5678 18 (10 ^ 18))] s [] ≠
      .ok s' := by
  obtain ⟨s, hs, hp⟩ := exists_of_any (x := sampleUnlimited.runCalls 18
      [(sampleContext 0xA, .setPeer 4 0x1234 18 (10 ^ 18))] sampleState [])
    (p := fun s => s.storage.owner = 0xA ∧ (sampleUnlimited.runCalls 18
      [(sampleContext 0xA, .setPeer 4 0x5678 18 (10 ^ 18))] s []).toOption.isNone)
    (by decide +kernel)
  obtain ⟨howner, hnone⟩ := of_decide_eq_true hp
  refine ⟨s, by decide +kernel, ?_, howner, by decide +kernel, fun s' h => ?_⟩
  · exact reachable_of_runCalls_rules (R := .fixed 18 fun _ _ => True) rfl
      (fun _ _ _ _ => trivial) hs
  · rw [h] at hnone
    cases hnone

end NttManager

end Ntt
