import Ntt.Relayer.Discipline

/-!
# The Status Machine of a Row

Workers and the cron act on copies of a row that they read earlier, under locks of their own. What
makes the updates of a row follow the lifecycle all the same is that the guards of the updates and
the exclusion of deliveries leave one actor at a time to each transition, with one exception: the
cron may fail a row that is no longer the one whose receipt it has read, or whose replacement is
being broadcast.

## Main results

* `status_machine`: in every run in which the cron fails no such row, each status changes as the
  lifecycle has it, and each row fits its status.
-/

namespace Ntt.Relayer

open Interleaving TransactionsRepo

variable {d : Deployment} {s s' : World}

/-! ### The runs at hand -/

/-- The nonce of the row is mined, if it has one. -/
def Row.nonceMined (s : World) (r : Row) : Bool :=
  match r.walletUsed, r.nonceUsed with
  | some w, some n => n < s.accountNonce r.destinationChainId w
  | _, _ => true

/-- The row is being sent: it is submitting, or submitted with a nonce that is not mined, or
submitted and under delivery. -/
def beingSent (c : Config (bot d)) (r : Row) : Bool :=
  r.status = .submitting ||
    (r.status = .submitted && (!r.nonceMined c.state || underDelivery c r.key))

/-- The cron marks a row failed while it is being sent. -/
def failsBeingSent (c : Config (bot d)) : Event (bot d) → Bool
  | .act i _ =>
      match next c i with
      | some (.cron, .markFailed id _) => (c.state.transactions[id]?).any (beingSent c)
      | _ => false
  | _ => false

/-- The lock of a message is exclusive, and the cron fails no row that is being sent. -/
def Orderly (c : Config (bot d)) (e : Event (bot d)) : Prop :=
  losesMessageLock c e = false ∧ failsBeingSent c e = false

instance (c : Config (bot d)) (e : Event (bot d)) : Decidable (Orderly c e) :=
  inferInstanceAs (Decidable (_ ∧ _))

/-- The regime of these runs. -/
def Regime.orderly : Regime := ⟨True, True, False, False, False⟩

theorem nonceMined_spec {r : Row} (h : r.nonceMined s = true) {w : Hex} {n : ℕ}
    (hh : r.Holds w n) : n < s.accountNonce r.destinationChainId w := by
  simpa only [Row.nonceMined, hh.1, hh.2, decide_eq_true_eq] using h

theorem beingSent_eq_false {c : Config (bot d)} {r : Row} (h : beingSent c r = false) :
    r.status ≠ .submitting ∧ (r.status = .submitted →
      r.nonceMined c.state = true ∧ underDelivery c r.key = false) := by
  simp only [beingSent, Bool.or_eq_false_iff, decide_eq_false_iff_not] at h
  refine ⟨h.1, fun hst => ?_⟩
  simpa [hst] using h.2

theorem Orderly.meets {c : Config (bot d)} {e : Event (bot d)} (h : Orderly c e) :
    Regime.orderly.Meets c e := by
  obtain ⟨hlose, hfail⟩ := h
  cases e with
  | start | crash | env => trivial
  | lose i => exact fun t ht => ⟨fun _ k => losesMessageLock_eq_false hlose ht k, False.elim⟩
  | act i ch =>
      intro t a f ht hv ha
      have hnext := next_eq_some ht hv ha
      have hsent : ∀ id msg r, t.task = .cron → a = .markFailed id msg →
          c.state.transactions[id]? = some r → beingSent c r = false := by
        rintro id msg r htask rfl hr
        simpa only [failsBeingSent, hnext, htask, hr, Option.any_some] using hfail
      refine ⟨⟨fun _ htask id msg ha' r hr => ?_, False.elim⟩, fun htask k hk => ⟨fun _ => ?_, False.elim⟩⟩
      · obtain ⟨hst, hmined⟩ := beingSent_eq_false (hsent id msg r htask ha' hr)
        exact ⟨hst, fun hst w n hh => nonceMined_spec (hmined hst).1 hh⟩
      · rintro id r hr rfl hst hid
        obtain ⟨msg, rfl⟩ : ∃ msg, a = .markFailed id msg := by
          cases a
          case markFailed i msg => exact ⟨msg, by rw [Option.some.inj hid]⟩
          all_goals cases hid
        obtain ⟨-, hmined⟩ := beingSent_eq_false (hsent id msg r htask rfl hr)
        obtain ⟨j, t', m, again, ht', hv', htask', hkey⟩ := hk
        exact underDelivery_eq_false (hmined hst).2 ht' hv' htask' hkey

/-! ### The lifecycle -/

/-- What the status of a row may become. -/
inductive TxStatus.Next : TxStatus → TxStatus → Prop
  | stay {st : TxStatus} : Next st st
  | submitting {st : TxStatus} (h : st = .pending ∨ st = .failed) : Next st .submitting
  | submitted : Next .submitting .submitted
  | failed {st : TxStatus} (h : st = .pending ∨ st = .submitted) : Next st .failed
  | confirmed {st : TxStatus} (h : st.terminal = false) : Next st .confirmed
  | deadLetter {st : TxStatus} (h : st.terminal = false) : Next st .deadLetter

/-- What holds of a row by its status. -/
structure Row.FitsStatus (s : World) (i : ℕ) (r : Row) : Prop where
  committed : r.status = .submitting ∨ r.status = .submitted → ∃ w n, r.Holds w n
  submitted : r.status = .submitted → ∃ w n h, r.Holds w n ∧ r.relayTxHash = some h ∧
    ⟨r.destinationChainId, w, n, h, i⟩ ∈ s.sent
  deadLetter : r.status = .deadLetter → ∃ msg, r.errorMessage = some msg ∧
    (msg.Final ∨ r.maxRetries ≤ r.retryCount)

theorem Row.Fits.fitsStatus {i : ℕ} {r : Row} (h : r.Fits .orderly s i) : r.FitsStatus s i where
  committed hst := by
    have hn := h.committed hst
    obtain ⟨n, hn'⟩ := Option.isSome_iff_exists.mp hn
    obtain ⟨w, hw⟩ := Option.isSome_iff_exists.mp (h.wallet hn)
    exact ⟨w, n, hw, hn'⟩
  submitted hst := by
    obtain ⟨hash, hh⟩ := Option.isSome_iff_exists.mp (h.hash hst)
    obtain ⟨w, n, hold, hsent⟩ := h.sent (.inl hst) hash hh
    exact ⟨w, n, hash, hold, hh, hsent⟩
  deadLetter := h.deadLetter trivial trivial

/-- What a step may make of a row. -/
structure Row.Advances (r r' : Row) : Prop where
  status : r.status.Next r'.status
  retryCount : r.retryCount ≤ r'.retryCount

/-- **An update within its contract** follows the lifecycle. -/
theorem Row.Advances.edit {t : Task} {a : Act} {reply : a.Reply} {past : Past (atomics d)} {i : ℕ}
    {r r' : Row} (hr : s.transactions[i]? = some r) (he : Edit s a reply i r r')
    (hg : (contract d .orderly t).guard past a s) : r.Advances r' := by
  refine ⟨?_, he.same.retryCount⟩
  have hnt := he.not_terminal
  cases he with
  | reserve hst =>
      have hst' : r.status = .pending ∨ r.status = .failed ∨ r.status = .submitting := by
        simpa using hst
      rcases hst' with hst' | hst' | hst'
      · exact .submitting (.inl hst')
      · exact .submitting (.inr hst')
      · rw [hst']
        exact .stay
  | markSubmitted hst =>
      cases t with
      | delivery m again =>
          obtain ⟨-, r₀, hr₀, -, -, hown⟩ := hg
          obtain rfl := Option.some.inj (hr.symm.trans hr₀)
          rcases hown trivial with hterm | ⟨-, -, hst'⟩
          · rw [hterm] at hnt
            cases hnt
          · rcases hst' trivial with hst' | hst'
            · rw [hst']
              exact .submitted
            · rw [hst']
              exact .stay
      | cron => exact absurd hg.2 id
      | scan chain | sweep pages => exact absurd hg id
  | markConfirmed => exact .confirmed hnt
  | touch | incrementRetry => exact .stay
  | markFailed hst =>
      have hst' : r.status = .pending ∨ r.status = .submitted ∨ r.status = .failed := by
        simpa using hst
      rcases hst' with hst' | hst' | hst'
      · exact .failed (.inl hst')
      · exact .failed (.inr hst')
      · rw [hst']
        exact .stay
  | markDeadLetter => exact .deadLetter hnt

/-- **One step.** -/
theorem advances_step {c c' : Config (bot d)} {e : Event (bot d)}
    (hs : Sound (contract d .orderly) Regime.orderly.kept c) (h : Step c e c') {i : ℕ} {r : Row}
    (hr : c.state.transactions[i]? = some r) :
    ∃ r', c'.state.transactions[i]? = some r' ∧ r.Advances r' := by
  have hstay : r.Advances r := ⟨.stay, Nat.le_refl _⟩
  cases h with
  | start _ hstart => exact ⟨r, (Rests.start hstart).transactions ▸ hr, hstay⟩
  | crash | lose => exact ⟨r, hr, hstay⟩
  | env henv => exact ⟨r, (Rests.env henv).transactions ▸ hr, hstay⟩
  | act ht hv ha hp =>
      obtain ⟨r', hr', rfl | hedit⟩ := (effect_of hp).row hr
      · exact ⟨r', hr', hstay⟩
      · exact ⟨r', hr', .edit hr hedit (hs.guard ht hv ha)⟩

/-- **The status machine.** In every orderly run, each step changes the status of each row as the
lifecycle has it, and each row fits its status. -/
theorem status_machine (d : Deployment) (es : List (Event (bot d))) (e : Event (bot d))
    (hes : (machine (bot d)).Along Orderly d.init (es ++ [e])) :
    (∀ (i : ℕ) (r : Row), (d.run es).state.transactions[i]? = some r →
      ∃ r', (d.run (es ++ [e])).state.transactions[i]? = some r' ∧ r.Advances r') ∧
    ∀ (i : ℕ) (r : Row), (d.run (es ++ [e])).state.transactions[i]? = some r →
      r.FitsStatus (d.run (es ++ [e])).state i := by
  have hmeets := hes.mono fun _ _ h => h.meets
  obtain ⟨hbefore, he⟩ := Transducer.along_append.mp hmeets
  have hs := (disciplined d .orderly).sound (.init .init) hbefore
  have hs' := (disciplined d .orderly).sound (.init .init) hmeets
  refine ⟨fun i r hr => ?_, fun i r hr => (hs'.inv.fits i r hr).fitsStatus⟩
  rw [Deployment.run, Transducer.run_append]
  rcases next_cases (d.run es) e with h | h
  · exact ⟨r, (congrArg (fun c : Config (bot d) => c.state.transactions[i]?) h).trans hr, .stay,
      Nat.le_refl _⟩
  · exact advances_step hs h hr

/-! ### A replacement that comes too late -/

section

open Sample

/-- A cron pass that has the transaction replaced. -/
def replaced : List (Event (bot single)) :=
  delivered ++ [.start .cron, .act 2 .only, .act 2 (.scan [0]), .act 2 (.scan [0]),
    .act 2 (.scan [0]), .act 2 (.scan [0]), .act 2 (.seen true), .act 2 (.seen false), .act 2 .only,
    .act 2 .only]

/-- The replacement is broadcast, the first transaction is mined after all and reverts, and the
next cron pass fails the row. -/
def overtaken : List (Event (bot single)) :=
  replaced ++ [
    .start (.delivery { message [7] 0 with retryCount := 1, replaceNonce := some 0 } false),
    .act 3 .only, .act 3 (.prepared (.ok .ready)), .act 3 (.sends true [12] none),
    .env (.mine [11] ⟨false, none, none⟩), .env (.tick 301000000), .start .cron, .act 4 .only,
    .act 4 (.scan [0]), .act 4 (.scan [0]), .act 4 (.scan [0]), .act 4 (.scan [0]),
    .act 4 (.seen true), .act 4 .only]

theorem status_machine_delivered :
    (∀ (i : ℕ) (r : Row), (single.run delivered).state.transactions[i]? = some r →
      ∃ r', (single.run (delivered ++ [.start .cron])).state.transactions[i]? = some r' ∧
        r.Advances r') ∧
    ∀ (i : ℕ) (r : Row), (single.run (delivered ++ [.start .cron])).state.transactions[i]? = some r →
      r.FitsStatus (single.run (delivered ++ [.start .cron])).state i :=
  status_machine single delivered (.start .cron) (by decide +kernel)

/-- The replacement is recorded in a row that has been failed meanwhile. -/
theorem failed_row_submitted : ∃ (es : List (Event (bot single))) (e : Event (bot single)),
    (machine (bot single)).Along (fun c e => losesMessageLock c e = false) single.init (es ++ [e]) ∧
    ∃ r r', (single.run es).state.transactions[0]? = some r ∧
      (single.run (es ++ [e])).state.transactions[0]? = some r' ∧ ¬ r.Advances r' := by
  have hfailed : ((single.run overtaken).state.transactions[0]?).map Row.status = some .failed := by
    decide +kernel
  have hsubmitted : ((single.run (overtaken ++ [.act 3 .only])).state.transactions[0]?).map
      Row.status = some .submitted := by
    decide +kernel
  obtain ⟨r, hr, hst⟩ := Option.map_eq_some_iff.mp hfailed
  obtain ⟨r', hr', hst'⟩ := Option.map_eq_some_iff.mp hsubmitted
  refine ⟨overtaken, .act 3 .only, by decide +kernel, r, r', hr, hr', fun h => ?_⟩
  have hnext := h.status
  rw [hst, hst'] at hnext
  cases hnext

end

end Ntt.Relayer
