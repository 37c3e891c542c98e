import Ntt.Relayer.Contracts

/-!
# Cron Passes Obey Their Contract

A cron pass works on copies of rows that others go on changing. All that it knows is that the rows
are still there under their keys, what its own updates reply, and that a budget once used up stays
used up.

## Main results

* `cronTick_obeys`: a cron pass obeys its contract.
-/

namespace Ntt.Relayer

open Interleaving TransactionsRepo

variable {d : Deployment} {g : Regime} {rec : TransactionRecord} {reason : ErrorMessage}
  {s s' : World} {h : Past (atomics d)} {k : Key} {id : ℕ} {P : Row → Prop}

/-- No row waits for its dead-lettering. -/
abbrev Settled {α : Type} : α → Past (atomics d) → World → Prop :=
  fun _ h _ => exhaustedLast h = none

theorem settled_done (hlast : exhaustedLast h = none) :
    (pure () : Prog d Unit).Obeys (cronContract d g) Settled h s :=
  Proc.obeys_done hlast fun _ _ _ hQ => hQ

/-- An action that changes no budget and no state, and needs no more than what persists. -/
theorem call_obeys {α : Type} {a : Act} {f : a.Reply → Prog d α}
    {Q : α → Past (atomics d) → World → Prop}
    {F : World → Prop} (hF : F s) (hlast : exhaustedLast h = none)
    (hst : ∀ s s', Persists s s' → F s → F s')
    (hguard : ∀ s, F s → cronGuard g h a s)
    (hk : ∀ ch reply s s', F s → perform d a ch s = some (reply, s') →
      (f reply).Obeys (cronContract d g) Q (⟨a, reply⟩ :: h) s') :
    (run (d := d) a >>= f).Obeys (cronContract d g) Q h s := by
  refine Proc.obeys_perform (P := F) hF (fun s' _ hp => hst _ s' hp) ?_ ?_
  · exact fun s _ hF => ⟨.of_none hlast, hguard s hF⟩
  · exact fun s ch reply s' _ hF _ hp _ => hk ch reply s s' hF hp

/-- A last dead-lettering. -/
theorem deadLetter_obeys (hdoom : ∀ r, s.transactions[id]? = some r → g.unfailed → r.Doomed reason)
    (hrow : ∃ r, s.transactions[id]? = some r) (hlast : ∀ i, exhaustedLast h = some i → i = id) :
    (run (d := d) (.markDeadLetter id reason) >>= fun _ => pure ()).Obeys (cronContract d g)
      Settled h s := by
  obtain ⟨r, hr⟩ := hrow
  refine Proc.obeys_perform (P := fun s => ∃ r, s.transactions[id]? = some r ∧
    (g.unfailed → r.Doomed reason)) ⟨r, hr, hdoom r hr⟩ ?_ ?_ ?_
  · rintro s' _ hp ⟨r, hr, hd⟩
    obtain ⟨r', hr', hsame⟩ := hp.row _ r hr
    exact ⟨r', hr', fun hu => Row.Doomed.same hsame (hd hu)⟩
  · rintro s _ ⟨r, hr, hd⟩
    refine ⟨fun i hi => ⟨reason, by rw [hlast i hi]⟩, fun r' hr' => ?_⟩
    obtain rfl := Option.some.inj (hr.symm.trans hr')
    exact hd
  · exact fun _ _ _ _ _ _ _ _ _ => settled_done rfl

/-- The last dead-lettering of a row whose budget is used up. -/
theorem exhausted_obeys {budget : Budget} {r : Row} (hr : s.transactions[id]? = some r)
    (hbudget : budget = ⟨r.retryCount, r.maxRetries⟩) (hex : budget.exhausted = true)
    (hlast : exhaustedLast h = if budget.exhausted then some id else none) :
    (run (d := d) (.markDeadLetter id reason) >>= fun _ => pure ()).Obeys (cronContract d g)
      Settled h s := by
  rw [if_pos hex] at hlast
  refine deadLetter_obeys (fun r' hr' _ => .inr (.inr ?_)) ⟨r, hr⟩ fun i hi => ?_
  · obtain rfl := Option.some.inj (hr.symm.trans hr')
    rw [hbudget] at hex
    exact of_decide_eq_true hex
  · exact Option.some.inj (hi.symm.trans hlast)

/-- A last message that replaces no nonce. -/
theorem publish_obeys {m : RelayMessage} (hk : HasKey s.transactions m.key)
    (hm : m.replaceNonce = none) (hlast : exhaustedLast h = none) :
    (run (d := d) (.publish m)).Obeys (cronContract d g) Settled h s := by
  refine Proc.obeys_act (P := fun s => HasKey s.transactions m.key) hk ?_ ?_ ?_
  · exact fun s' _ hp hk => hk.persists hp
  · intro s _ hk
    exact ⟨fun i hi => (by rw [hlast] at hi; cases hi), hk, fun hs => by rw [hm] at hs; cases hs⟩
  · exact fun _ _ _ _ _ _ _ _ _ => Proc.obeys_done rfl fun _ _ _ hQ => hQ

/-- **A reverted transaction.** -/
theorem retryFresh_obeys (hown : Own rec.key rec.id (fun _ => True) s)
    (hlast : exhaustedLast h = none) :
    (retryFresh (d := d) rec reason).Obeys (cronContract d g) Settled h s := by
  refine Proc.obeys_perform (P := Own rec.key rec.id fun _ => True) hown ?_ ?_ ?_
  · exact fun s' _ hp => Own.persists (fun _ _ _ h => h) hp
  · exact fun s _ _ => ⟨fun i hi => (by rw [hlast] at hi; cases hi), trivial⟩
  · rintro s ch reply s' _ ⟨r, hr, hkey, -⟩ hallow hp _
    rcases budgeted_cases rfl (Option.some.inj hp) with ⟨r₀, hr₀, -, rfl, rfl⟩ | ⟨rfl, rfl, hnone⟩
    · obtain rfl := Option.some.inj (hr.symm.trans hr₀)
      have hset := List.getElem?_set_self (a := { r with
        status := .failed
        errorMessage := some reason
        retryCount := r.retryCount + 1
        updatedAt := s.clock }) (List.getElem?_eq_some_iff.mp hr).1
      dsimp only
      split
      · rename_i hex
        exact exhausted_obeys hset rfl hex rfl
      · rename_i hex
        refine publish_obeys ⟨rec.id, _, hset, hkey⟩ rfl ?_
        simp only [exhaustedLast, hex, if_false, Bool.false_eq_true]
    · -- the row is not submitting where failing it is restricted
      refine deadLetter_obeys (fun r' hr' hu => .inl ?_) ⟨r, hr⟩ fun i hi => (by cases hi)
      obtain ⟨hst, -⟩ := hallow.failing hu rfl _ _ rfl r' hr'
      have := hnone r' hr'
      cases hst' : r'.status <;> simp [hst', TxStatus.terminal] at this hst ⊢

/-- **A nonce that may still be used.** The message that replaces it follows the increment. -/
theorem resubmit_obeys (hown : Own rec.key rec.id (fun _ => True) s)
    (hlast : exhaustedLast h = none) :
    (resubmit (d := d) rec reason).Obeys (cronContract d g) Settled h s := by
  rw [resubmit]
  split
  · rename_i nonce wallet hn hw
    refine Proc.obeys_perform (P := Own rec.key rec.id fun _ => True) hown ?_ ?_ ?_
    · exact fun s' _ hp => Own.persists (fun _ _ _ h => h) hp
    · exact fun s _ _ => ⟨fun i hi => (by rw [hlast] at hi; cases hi), trivial⟩
    · rintro s ch reply s' _ ⟨r, hr, hkey, -⟩ _ hp _
      rcases budgeted_cases rfl (Option.some.inj hp) with ⟨r₀, hr₀, -, rfl, rfl⟩ | ⟨rfl, rfl, -⟩
      · obtain rfl := Option.some.inj (hr.symm.trans hr₀)
        have hset := List.getElem?_set_self
          (a := { r with retryCount := r.retryCount + 1, updatedAt := s.clock })
          (List.getElem?_eq_some_iff.mp hr).1
        dsimp only
        split
        · rename_i hex
          exact exhausted_obeys hset rfl hex rfl
        · rename_i hex
          rw [Bool.not_eq_true] at hex
          have hlast' : exhaustedLast (d := d)
              (⟨.incrementRetry rec.id, some ⟨r.retryCount + 1, r.maxRetries⟩⟩ :: h) = none := by
            simp only [exhaustedLast, hex, if_false, Bool.false_eq_true]
          refine Proc.obeys_act (P := Own rec.key rec.id fun _ => True) ⟨_, hset, hkey, trivial⟩
            ?_ ?_ ?_
          · exact fun s' _ hp => Own.persists (fun _ _ _ h => h) hp
          · intro s _ hown
            refine ⟨fun i hi => (by rw [hlast'] at hi; cases hi), hown.hasKey, fun _ => ?_⟩
            exact ⟨rec.id, _, h, rfl, hex, hown⟩
          · exact fun _ _ _ _ _ _ _ _ _ => Proc.obeys_done rfl fun _ _ _ hQ => hQ
      · exact settled_done rfl
  · exact retryFresh_obeys hown hlast

/-- **A submitted row.** -/
theorem reconcile_obeys (hown : Own rec.key rec.id (fun _ => True) s)
    (hlast : exhaustedLast h = none) :
    (reconcile (d := d) rec).Obeys (cronContract d g) Settled h s := by
  have hst : ∀ s s', Persists s s' → Own rec.key rec.id (fun _ => True) s →
      Own rec.key rec.id (fun _ => True) s' :=
    fun _ _ hp => Own.persists (fun _ _ _ h => h) hp
  rw [reconcile]
  split
  · exact resubmit_obeys hown hlast
  · rename_i relayTxHash
    refine call_obeys hown hlast hst (fun _ _ => trivial) fun ch reply s s' hown hp => ?_
    have hown' := Own.of_rows hown ((perform_effect hp).rows rfl)
    cases reply with
    | none =>
        refine call_obeys hown' rfl hst (fun _ _ => trivial) fun ch reply s s' hown hp => ?_
        have hown' := Own.of_rows hown ((perform_effect hp).rows rfl)
        split
        · refine call_obeys hown' rfl hst (fun _ _ => trivial) fun ch reply s s' hown hp => ?_
          have hown' := Own.of_rows hown ((perform_effect (a := .dateNow) hp).rows rfl)
          split
          · exact resubmit_obeys hown' rfl
          · exact settled_done rfl
        · exact resubmit_obeys hown' rfl
    | some receipt =>
        dsimp only
        rw [reconcileMined]
        split
        · exact call_obeys hown' rfl hst (fun _ _ => trivial) fun _ _ _ _ _ _ => settled_done rfl
        · split
          · exact retryFresh_obeys hown' rfl
          · obtain ⟨r, hr, -⟩ := hown'
            exact deadLetter_obeys (fun _ _ _ => .inr (.inl trivial)) ⟨r, hr⟩ fun i hi => (by cases hi)

/-- A loop over rows that were read. -/
theorem forM_obeys {recs : List TransactionRecord} {f : TransactionRecord → Prog d PUnit}
    (hf : ∀ rec ∈ recs, ∀ h s, Own rec.key rec.id (fun _ => True) s → exhaustedLast h = none →
      (f rec).Obeys (cronContract d g) Settled h s)
    (hI : Inv d g s) (hl : Listed recs s) (hlast : exhaustedLast h = none) :
    (recs.forM f).Obeys (cronContract d g) Settled h s := by
  have hst : ∀ s s', Persists s s' → Listed recs s → Listed recs s' := fun _ _ hp => Listed.persists hp
  refine (Proc.obeys_forM (P := fun h s => exhaustedLast h = none ∧ Listed recs s) ?_ ?_ hI
    ⟨hlast, hl⟩).mono fun _ _ _ _ h => h.1
  · exact fun h s s' _ hp h => ⟨h.1, hst s s' hp h.2⟩
  · rintro rec hrec h s _ ⟨hlast, hl⟩
    refine Proc.Obeys.frame (fun s s' _ hp => hst s s' hp) ?_ (hf rec hrec h s (hl rec hrec) hlast) hl
    exact fun s a ch reply s' hp => Listed.effect (effect_of hp)

theorem listed_selectStaleByStatus {status : TxStatus} {cutoffMs limit : ℕ} {ids : List ℕ} :
    Listed (selectStaleByStatus s.transactions status cutoffMs limit ids) s := by
  intro rec hrec
  exact ⟨rec.toRow, (mem_selectStaleByStatus hrec).1, rfl, trivial⟩

/-- What follows a scan for stale rows. -/
theorem selectStale_obeys {α : Type} {status : TxStatus} {cutoffMs : ℕ}
    {f : List TransactionRecord → Prog d α} {Q : α → Past (atomics d) → World → Prop}
    (hlast : exhaustedLast h = none)
    (hf : ∀ recs h s, Inv d g s → Listed recs s → exhaustedLast h = none →
      (f recs).Obeys (cronContract d g) Q h s) :
    (run (d := d) (.selectStaleByStatus status cutoffMs batch) >>= f).Obeys (cronContract d g) Q
      h s := by
  refine Proc.obeys_perform (P := fun _ => True) trivial (fun _ _ _ h => h) ?_ ?_
  · exact fun _ _ _ => ⟨fun i hi => (by rw [hlast] at hi; cases hi), trivial⟩
  · intro s ch reply s' hI _ _ hp _
    cases ch with
    | scan ids =>
        obtain ⟨rfl, rfl⟩ := Prod.mk.inj (Option.some.inj hp)
        exact hf _ _ s hI listed_selectStaleByStatus rfl
    | _ => cases hp

theorem republishLost_obeys {status : TxStatus} {cutoffMs : ℕ} (hlast : exhaustedLast h = none) :
    (republishLost (d := d) status cutoffMs).Obeys (cronContract d g) Settled h s := by
  refine selectStale_obeys hlast fun lost h s hI hl hlast => ?_
  refine forM_obeys (fun rec _ h s hown hlast => ?_) hI hl hlast
  split
  · exact settled_done hlast
  · exact publish_obeys hown.hasKey rfl hlast

/-- **A cron pass obeys its contract.** -/
theorem cronTick_obeys :
    (cronTick (d := d)).Obeys (cronContract d g) (fun _ => (cronContract d g).final) [] s := by
  refine Proc.obeys_perform (P := fun _ => True) trivial (fun _ _ _ h => h) ?_ ?_
  · exact fun _ _ _ => ⟨fun i hi => (by cases hi), trivial⟩
  · intro s ch reply s' _ _ _ _ hI
    refine Proc.obeys_bind ((republishLost_obeys rfl).mono fun _ h s hI hlast => ?_) hI
    refine Proc.obeys_bind ((republishLost_obeys hlast).mono fun _ h s hI hlast => ?_) hI
    refine selectStale_obeys hlast fun submitting h s hI hl hlast => ?_
    have hsub := forM_obeys (d := d) (f := fun rec => resubmit rec .submittingRecovery)
      (fun _ _ _ _ => resubmit_obeys) hI hl hlast
    refine Proc.obeys_bind (hsub.mono fun _ h s hI hlast => ?_) hI
    refine selectStale_obeys hlast fun stale h s hI hl hlast => ?_
    exact forM_obeys (fun _ _ _ _ => reconcile_obeys) hI hl hlast

end Ntt.Relayer
