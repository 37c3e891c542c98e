import Mathlib.Algebra.BigOperators.Ring.Finset
import Ntt.Relayer.StatusMachine

/-!
# How Often a Row Is Attempted

Each broadcast is to be paid for by the retry budget of the row: it is recorded, once for each
reservation, or its failure spends a retry, or the cron has spent one to have it repeated. What is
paid for by nothing is a broadcast that is deferred, since its message goes back as it was; one
that a crash leaves unrecorded; and a replacement that is delivered twice.

## Main results

* `attempts_bounded`: in every run in which no broadcast is of that kind, the number of broadcasts
  for a row that has not ended is bounded by its retry budget.
* `attempts_unbounded`: a row whose nonce is mined by a replaced transaction that reverted is
  broadcast any number of times, although the chain answers every call.
-/

namespace Ntt.Relayer

open Interleaving TransactionsRepo

variable {d : Deployment} {s s' : World}

/-! ### Attempts and what pays for them -/

/-- An action of a past is a broadcast for the row. -/
def isAttempt (i : ℕ) : (Σ a : (atomics d).Act, (atomics d).Reply a) → Bool
  | ⟨.broadcast id .., _⟩ => id = i
  | _ => false

/-- The broadcasts for a row of one process. -/
def attemptsOf (i : ℕ) (past : Past (atomics d)) : ℕ := past.countP (isAttempt i)

/-- The number of broadcasts made for a row. -/
def attempts (i : ℕ) (c : Config (bot d)) : ℕ := (c.threads.map fun t => attemptsOf i t.past).sum

/-- The id of the row whose budget the last action spent and did not use up. -/
def reprievedLast : Past (atomics d) → Option ℕ
  | ⟨.incrementRetry id, some b⟩ :: _ => if b.exhausted then none else some id
  | _ => none

/-- What a process still owes for its broadcasts, if it is negative, or may still have broadcast. -/
def credit (k : Key) (i : ℕ) : Task → Past (atomics d) → ℤ
  | .delivery m _, past => if m.key = k then m.replaces + score m past else 0
  | .cron, past => if reprievedLast past = some i then 1 else 0
  | .scan _, _ | .sweep _, _ => 0

/-- A delivery has to answer for a broadcast that neither the row nor its budget records. -/
def owes : Task → Past (atomics d) → Bool
  | .delivery m _, past => m.replaces + score m past < 0
  | _, _ => false

/-- Counts 1 for a process that is about to dead-letter the row. -/
def dooms (i : ℕ) (past : Past (atomics d)) : ℤ := if exhaustedLast past = some i then 1 else 0

/-- Of these, the cron passes. -/
def cronDooms (i : ℕ) : Task → Past (atomics d) → ℤ
  | .cron, past => dooms i past
  | _, _ => 0

/-- Of these, the others. -/
def deliveryDooms (i : ℕ) : Task → Past (atomics d) → ℤ
  | .cron, _ => 0
  | _, past => dooms i past

/-- The replacements of a key that wait in the queue. -/
def waiting (k : Key) (queue : List RelayMessage) : ℤ :=
  (queue.map fun m => if m.key = k then m.replaces else 0).sum

/-- What the attempts of a row may use: twice its retries, and one more while it is submitted. -/
def Row.funds (r : Row) : ℤ := 2 * r.retryCount + if r.status = .submitted then 1 else 0

/-! ### The runs at hand -/

/-- The session of a lock is lost. -/
def losesLock (c : Config (bot d)) : Event (bot d) → Bool
  | .lose i => (c.threads[i]?).any fun t => (Task.lock t.task).isSome
  | _ => false

/-- A broadcast is answered with a deferral. -/
def defersBroadcast (c : Config (bot d)) : Event (bot d) → Bool
  | .act i (.sends _ _ (some (.defer _))) =>
      match next c i with
      | some (_, .broadcast ..) => true
      | _ => false
  | _ => false

/-- A process crashes that has broadcast and not recorded it, or that was to dead-letter a row. -/
def crashesOwing (c : Config (bot d)) : Event (bot d) → Bool
  | .crash i => (c.threads[i]?).any fun t => t.live && (owes t.task t.past || (exhaustedLast t.past).isSome)
  | _ => false

/-- A message that replaces a nonce is delivered again. -/
def replacesAgain : Event (bot d) → Bool
  | .start (.delivery m true) => m.replaceNonce.isSome
  | _ => false

/-- Every broadcast is paid for. -/
def Paid (c : Config (bot d)) (e : Event (bot d)) : Prop :=
  losesLock c e = false ∧ defersBroadcast c e = false ∧ crashesOwing c e = false ∧
    replacesAgain e = false

instance (c : Config (bot d)) (e : Event (bot d)) : Decidable (Paid c e) :=
  inferInstanceAs (Decidable (_ ∧ _ ∧ _ ∧ _))

/-- The regime of these runs. -/
def Regime.paid : Regime := ⟨True, False, False, True, True⟩

theorem Paid.meets {c : Config (bot d)} {e : Event (bot d)} (h : Paid c e) :
    Regime.paid.Meets c e := by
  obtain ⟨hlose, hdefer, -, -⟩ := h
  cases e with
  | start | crash | env => trivial
  | lose i =>
      intro t ht
      have hnone : Task.lock t.task = none := by simpa [losesLock, ht] using hlose
      exact ⟨fun _ k hl => by simp [hnone] at hl, fun _ hl => by simp [hnone] at hl⟩
  | act i ch =>
      intro t a f ht hv ha
      have hnext := next_eq_some ht hv ha
      refine ⟨⟨False.elim, fun _ => ?_⟩, fun _ _ _ => ⟨False.elim, False.elim⟩⟩
      rintro id c₀ w n rfl taken hash message rfl
      simp [defersBroadcast, hnext] at hdefer

/-! ### What the pasts refer to -/

/-- The row that an action was made for, at a broadcast or where it spent of the budget. -/
def charged : (Σ a : (atomics d).Act, (atomics d).Reply a) → Option ℕ
  | ⟨.broadcast id .., _⟩ => some id
  | ⟨.incrementRetry id, some _⟩ | ⟨.markFailed id _, some _⟩ => some id
  | _ => none

/-- The rows that a process was concerned with are there, and a delivery was concerned with the row
of its key. -/
structure Placed (s : World) (t : Thread (bot d)) : Prop where
  key : ∀ m again, t.task = .delivery m again → HasKey s.transactions m.key
  rows : ∀ e ∈ t.past, ∀ id, charged e = some id → ∃ r, s.transactions[id]? = some r ∧
    (t.task = .cron ∨ Task.delivers r.key t.task = true)

theorem Placed.persists {t : Thread (bot d)} (hp : Persists s s') (h : Placed s t) :
    Placed s' t where
  key m again htask := (h.key m again htask).persists hp
  rows e he id hid := by
    obtain ⟨r, hr, htask⟩ := h.rows e he id hid
    obtain ⟨r', hr', hsame⟩ := hp.row id r hr
    exact ⟨r', hr', by rw [hsame.key]; exact htask⟩

theorem Task.lock_of_delivers {k : Key} {t : Task} (h : t.delivers k = true) :
    Task.lock t = some (.message k) := by
  cases t with
  | delivery m again =>
      simp only [Task.delivers, decide_eq_true_eq] at h
      rw [Task.lock, h]
  | scan chain | sweep pages | cron => cases h

theorem charged_of_isAttempt {e : Σ a : (atomics d).Act, (atomics d).Reply a} {i : ℕ}
    (h : isAttempt i e = true) : charged e = some i := by
  obtain ⟨a, reply⟩ := e
  cases a
  case broadcast id c w n =>
    simp only [isAttempt, decide_eq_true_eq] at h
    rw [charged, h]
  all_goals cases h

theorem charged_of_exhaustedLast {past : Past (atomics d)} {i : ℕ}
    (h : exhaustedLast past = some i) : ∃ e ∈ past, charged e = some i := by
  unfold exhaustedLast at h
  split at h
  · rename_i id b past
    split at h
    · obtain rfl := Option.some.inj h
      exact ⟨_, List.mem_cons_self, rfl⟩
    · cases h
  · rename_i id msg b past
    split at h
    · obtain rfl := Option.some.inj h
      exact ⟨_, List.mem_cons_self, rfl⟩
    · cases h
  · cases h

theorem charged_of_reprievedLast {past : Past (atomics d)} {i : ℕ}
    (h : reprievedLast past = some i) : ∃ e ∈ past, charged e = some i := by
  unfold reprievedLast at h
  split at h
  · rename_i id b past
    split at h
    · cases h
    · obtain rfl := Option.some.inj h
      exact ⟨_, List.mem_cons_self, rfl⟩
  · cases h

/-- An action is charged to a row that is there. -/
theorem charged_row {g : Regime} {t : Thread (bot d)} {a : Act} {reply : a.Reply} {ch : Choice}
    (hg : (contract d g t.task).guard t.past a s)
    (hp : perform d a ch s = some (reply, s')) {i : ℕ}
    (hi : charged (d := d) ⟨a, reply⟩ = some i) :
    ∃ r, s.transactions[i]? = some r ∧
      (t.task = .cron ∨ Task.delivers r.key t.task = true) := by
  cases htask : t.task with
  | scan chain | sweep pages =>
      rw [htask] at hg
      cases a
      case broadcast | incrementRetry | markFailed => exact absurd hg id
      all_goals cases hi
  | cron =>
      rw [htask] at hg
      cases a
      case broadcast => exact absurd hg.2 id
      case incrementRetry id' =>
        rcases budgeted_cases rfl (Option.some.inj hp) with ⟨r, hr, -, rfl, -⟩ | ⟨rfl, -⟩
        · obtain rfl := Option.some.inj hi
          exact ⟨r, hr, .inl rfl⟩
        · cases hi
      case markFailed id' msg =>
        rcases budgeted_cases rfl (Option.some.inj hp) with ⟨r, hr, -, rfl, -⟩ | ⟨rfl, -⟩
        · obtain rfl := Option.some.inj hi
          exact ⟨r, hr, .inl rfl⟩
        · cases hi
      all_goals cases hi
  | delivery m again =>
      rw [htask] at hg
      have hown : ∀ P, Own m.key i P s → ∃ r, s.transactions[i]? = some r ∧
          (Task.delivery m again = .cron ∨ Task.delivers r.key (.delivery m again) = true) := by
        rintro P ⟨r, hr, hk, -⟩
        exact ⟨r, hr, .inr (by simp [Task.delivers, hk])⟩
      cases a
      case broadcast id' c w n =>
        obtain rfl := Option.some.inj hi
        exact hown _ hg.2.2
      case incrementRetry id' =>
        cases reply with
        | none => cases hi
        | some b =>
            obtain rfl := Option.some.inj hi
            exact hown _ hg.2
      case markFailed id' msg =>
        cases reply with
        | none => cases hi
        | some b =>
            obtain rfl := Option.some.inj hi
            exact hown _ hg.2
      all_goals cases hi

/-- What a process was concerned with, after one more action. -/
theorem Placed.after {g : Regime} {t : Thread (bot d)} {a : Act} {reply : a.Reply} {ch : Choice}
    {p : Prog d Unit} (h : Placed s t) (hg : (contract d g t.task).guard t.past a s)
    (hp : perform d a ch s = some (reply, s')) : Placed s (t.after a reply p) where
  key := h.key
  rows e he i hi := by
    rcases List.mem_cons.mp he with rfl | he
    · exact charged_row hg hp hi
    · exact h.rows e he i hi

/-! ### What one action does to the sums -/

/-- The attempts for a row by a process, with what it owes for them. -/
def weight (k : Key) (i : ℕ) (task : Task) (past : Past (atomics d)) : ℤ :=
  attemptsOf i past + credit k i task past

/-- The replacements of a key that an action puts into the queue. -/
def replacement (k : Key) : Act → ℤ
  | .publish m | .nack m => if m.key = k then m.replaces else 0
  | _ => 0

theorem waiting_concat (k : Key) (queue : List RelayMessage) (m : RelayMessage) :
    waiting k (queue ++ [m]) = waiting k queue + if m.key = k then m.replaces else 0 := by
  simp [waiting]

theorem RelayMessage.replaces_nonneg (m : RelayMessage) : 0 ≤ m.replaces := by
  rw [RelayMessage.replaces]
  split <;> omega

theorem RelayMessage.replaces_le_one (m : RelayMessage) : m.replaces ≤ 1 := by
  rw [RelayMessage.replaces]
  split <;> omega

theorem RelayMessage.replaces_of_none {m : RelayMessage} (h : m.replaceNonce = none) :
    m.replaces = 0 := by
  simp [RelayMessage.replaces, h]

theorem replacement_nonneg (k : Key) (a : Act) : 0 ≤ replacement k a := by
  cases a
  case publish m | nack m =>
    simp only [replacement]
    split
    · exact m.replaces_nonneg
    · exact Int.le_refl 0
  all_goals exact Int.le_refl 0

theorem Effect.waiting {a : Act} {reply : a.Reply} (h : Effect s a reply s') (k : Key) :
    waiting k s'.queue ≤ waiting k s.queue + replacement k a := by
  have hnonneg := replacement_nonneg k a
  cases h with
  | publish | nack => exact (waiting_concat k s.queue _).le
  | same | edit | insertPending | initCursor | recordScan | broadcast =>
      exact Int.le_add_of_nonneg_right hnonneg

/-- An update that does not end the row leaves its funds, or adds to them. -/
theorem Edit.funds {a : Act} {reply : a.Reply} {i : ℕ} {r r' : Row} (h : Edit s a reply i r r')
    (hnt : r'.status.terminal = false) : r.funds ≤ r'.funds := by
  cases h with
  | reserve hst =>
      have hst' : r.status ≠ .submitted := by
        rintro hst'
        simp [hst'] at hst
      simp [Row.funds, hst']
  | markSubmitted =>
      simp only [Row.funds, if_true]
      split <;> omega
  | markConfirmed | markDeadLetter => cases hnt
  | touch => exact Int.le_refl _
  | incrementRetry =>
      simp only [Row.funds]
      omega
  | markFailed =>
      simp only [Row.funds, reduceCtorEq, if_false]
      split <;> omega

section

variable {past : Past (atomics d)} {a : Act} {reply : a.Reply} {ch : Choice} {i : ℕ} {r r' : Row}

theorem funds_mono (hr : s.transactions[i]? = some r) (hr' : s'.transactions[i]? = some r')
    (hnt : r'.status.terminal = false) (he : Effect s a reply s') : r.funds ≤ r'.funds := by
  obtain ⟨q, hq, hcase⟩ := he.row hr
  obtain rfl := Option.some.inj (hr'.symm.trans hq)
  rcases hcase with rfl | hedit
  · exact Int.le_refl _
  · exact hedit.funds hnt

/-- An action that is no broadcast. -/
theorem attemptsOf_cons (h : ∀ id c w n, a ≠ .broadcast id c w n) :
    attemptsOf i (⟨a, reply⟩ :: past) = attemptsOf i past := by
  cases a
  case broadcast id c w n => exact absurd rfl (h id c w n)
  all_goals exact List.countP_cons_of_neg (by simp [isAttempt])

/-- An action of a scan or of the sweep. -/
theorem spent_listener {task : Task} (htask : credit (d := d) r.key i task = fun _ => 0)
    (hfunds : r.funds ≤ r'.funds) (hg : listenerGuard d a s) :
    weight r.key i task (⟨a, reply⟩ :: past) + replacement r.key a + r.funds ≤
      weight r.key i task past + r'.funds := by
  have hcount : attemptsOf i (⟨a, reply⟩ :: past) = attemptsOf i past := by
    refine attemptsOf_cons ?_
    rintro id c w n rfl
    exact hg
  have hput : replacement r.key a = 0 := by
    cases a
    case publish m =>
      simp only [replacement, RelayMessage.replaces_of_none hg.2, ite_self]
    case nack m => exact absurd hg id
    all_goals rfl
  simp only [weight, htask, hcount, hput]
  omega

theorem credit_cron_nonneg {k : Key} : 0 ≤ credit k i .cron past := by
  simp only [credit]
  split <;> omega

/-- An action of a cron pass. -/
theorem spent_cron (hu : KeysUnique s.transactions) (hr : s.transactions[i]? = some r)
    (hr' : s'.transactions[i]? = some r') (hfunds : r.funds ≤ r'.funds)
    (hg : cronGuard .paid past a s) (hp : perform d a ch s = some (reply, s')) :
    weight r.key i .cron (⟨a, reply⟩ :: past) + replacement r.key a + r.funds ≤
      weight r.key i .cron past + r'.funds := by
  have hcount : attemptsOf i (⟨a, reply⟩ :: past) = attemptsOf i past := by
    refine attemptsOf_cons ?_
    rintro id c w n rfl
    exact hg
  have hnonneg : 0 ≤ credit r.key i .cron past := credit_cron_nonneg
  rw [weight, weight, hcount]
  cases a
  case publish m =>
    -- the cron has spent a retry on the message
    have hput : replacement r.key (.publish m) ≤ credit r.key i .cron past := by
      simp only [replacement]
      split
      · rename_i hk
        cases hm : m.replaceNonce with
        | none =>
            rw [RelayMessage.replaces_of_none hm]
            exact hnonneg
        | some n =>
            obtain ⟨-, hlast⟩ := hg
            obtain ⟨id, b, past', rfl, hb, r₀, hr₀, hk₀, -⟩ := hlast (by simp [hm])
            obtain rfl := hu i id r r₀ hr hr₀ (hk.symm.trans hk₀.symm)
            simpa [credit, reprievedLast, hb] using m.replaces_le_one
      · exact hnonneg
    simp only [credit, reprievedLast, reduceCtorEq, if_false] at hput ⊢
    omega
  case nack m => exact absurd hg id
  case incrementRetry id =>
    rcases budgeted_cases rfl (Option.some.inj hp) with ⟨r₀, hr₀, -, rfl, rfl⟩ | ⟨rfl, -⟩
    · rcases eq_or_ne id i with rfl | hi
      · -- the row has a retry more
        obtain rfl := Option.some.inj (hr.symm.trans hr₀)
        obtain rfl : r' = { r with retryCount := r.retryCount + 1, updatedAt := s.clock } := by
          rw [List.getElem?_set_self (List.getElem?_eq_some_iff.mp hr).1] at hr'
          exact (Option.some.inj hr').symm
        have hone : credit r.key id .cron (⟨.incrementRetry id, some
            ⟨r.retryCount + 1, r.maxRetries⟩⟩ :: past) ≤ 1 := by
          simp only [credit]
          split <;> omega
        simp only [replacement, Row.funds] at hone ⊢
        omega
      · have hnone : reprievedLast (d := d) (⟨.incrementRetry id, some
            ⟨r₀.retryCount + 1, r₀.maxRetries⟩⟩ :: past) ≠ some i := by
          simp only [reprievedLast]
          split
          · simp
          · simpa using hi
        simp only [credit, replacement, hnone, if_false] at hnonneg ⊢
        omega
    · simp only [credit, reprievedLast, replacement, reduceCtorEq, if_false] at hnonneg ⊢
      omega
  all_goals
    simp only [credit, reprievedLast, replacement, reduceCtorEq, if_false] at hnonneg ⊢
    omega

/-- An action of a delivery of another key. -/
theorem spent_other {m : RelayMessage} {again : Bool} (hk : m.key ≠ r.key)
    (hr : s.transactions[i]? = some r) (hfunds : r.funds ≤ r'.funds)
    (hg : deliveryGuard .paid m past a s) :
    weight r.key i (.delivery m again) (⟨a, reply⟩ :: past) + replacement r.key a + r.funds ≤
      weight r.key i (.delivery m again) past + r'.funds := by
  have hcount : attemptsOf i (⟨a, reply⟩ :: past) = attemptsOf i past := by
    cases a
    case broadcast id c w n =>
      obtain ⟨-, r₀, hr₀, hk₀, -⟩ := hg
      refine List.countP_cons_of_neg ?_
      simp only [isAttempt, decide_eq_true_eq]
      rintro rfl
      obtain rfl := Option.some.inj (hr.symm.trans hr₀)
      exact hk hk₀.symm
    all_goals exact attemptsOf_cons (by simp)
  have hput : replacement r.key a = 0 := by
    cases a
    case publish m' => exact absurd hg id
    case nack m' =>
      obtain ⟨rfl, -⟩ := hg
      simp only [replacement, hk, if_false]
    all_goals rfl
  simp only [weight, credit, hk, if_false, hcount, hput]
  omega

/-- An action of a delivery. -/
theorem spent_delivery {m : RelayMessage} {again : Bool} (hk : m.key = r.key)
    (hu : KeysUnique s.transactions) (hr : s.transactions[i]? = some r)
    (hr' : s'.transactions[i]? = some r') (hnt : r.status.terminal = false)
    (hfunds : r.funds ≤ r'.funds) (hg : deliveryGuard .paid m past a s)
    (hp : perform d a ch s = some (reply, s')) :
    weight r.key i (.delivery m again) (⟨a, reply⟩ :: past) + replacement r.key a + r.funds ≤
      weight r.key i (.delivery m again) past + r'.funds := by
  have hown : ∀ id P, Own m.key id P s → id = i := by
    rintro id P ⟨r₀, hr₀, hk₀, -⟩
    exact hu id i r₀ r hr₀ hr (hk₀.trans hk)
  simp only [weight, credit, hk, if_true]
  cases a
  case broadcast id c w n =>
    obtain rfl := hown id _ hg.2
    have hcount : attemptsOf id (⟨.broadcast id c w n, reply⟩ :: past) = attemptsOf id past + 1 :=
      List.countP_cons_of_pos (by simp [isAttempt])
    rw [hcount]
    simp only [score, replacement]
    omega
  case markSubmitted id hash w n =>
    obtain rfl := hown id _ hg
    rw [attemptsOf_cons (by simp)]
    rcases updated_cases rfl (Option.some.inj hp) with ⟨rfl, r₀, hr₀, -, rfl⟩ | ⟨rfl, rfl, -⟩
    · -- a first transaction is recorded where none was
      obtain rfl := Option.some.inj (hr.symm.trans hr₀)
      rw [List.getElem?_set_self (List.getElem?_eq_some_iff.mp hr).1] at hr'
      obtain rfl := Option.some.inj hr'
      obtain ⟨r₀, hr₀, -, -, hst⟩ := hg
      obtain rfl := Option.some.inj (hr.symm.trans hr₀)
      have hfirst : m.replaceNonce = none → r.status = .submitting := by
        intro hnone
        rcases hst trivial with hterm | ⟨-, hst, -⟩
        · rw [hterm] at hnt
          cases hnt
        · exact hst hnone
      cases hm : m.replaceNonce with
      | none =>
          simp only [score, replacement, Row.funds, hfirst hm, RelayMessage.replaces_of_none hm,
            reduceCtorEq, if_false, if_true]
          omega
      | some n' =>
          have hone : m.replaces = 1 := by simp [RelayMessage.replaces, hm]
          simp only [score, replacement, hone]
          omega
    · simp only [score, replacement]
      omega
  case incrementRetry id =>
    obtain rfl := hown id _ hg
    rw [attemptsOf_cons (by simp)]
    rcases budgeted_cases rfl (Option.some.inj hp) with ⟨r₀, hr₀, -, rfl, rfl⟩ | ⟨rfl, rfl, -⟩
    · obtain rfl := Option.some.inj (hr.symm.trans hr₀)
      rw [List.getElem?_set_self (List.getElem?_eq_some_iff.mp hr).1] at hr'
      obtain rfl := Option.some.inj hr'
      simp only [score, replacement, Row.funds]
      omega
    · simp only [score, replacement]
      omega
  case nack m' =>
    obtain ⟨rfl, -⟩ := hg
    rw [attemptsOf_cons (by simp)]
    simp only [score, replacement, hk, if_true]
    omega
  case publish m' => exact absurd hg id
  all_goals
    rw [attemptsOf_cons (by simp)]
    simp only [score, replacement]
    omega

/-- A row that goes on went on before. -/
theorem not_terminal_before (he : Effect s a reply s') (hr : s.transactions[i]? = some r)
    (hr' : s'.transactions[i]? = some r') (hnt : r'.status.terminal = false) :
    r.status.terminal = false := by
  obtain ⟨q, hq, hsame⟩ := he.same_row hr
  obtain rfl := Option.some.inj (hr'.symm.trans hq)
  by_contra hterm
  obtain rfl := hsame.terminal (Bool.eq_true_of_not_eq_false hterm)
  exact hterm hnt

/-- A delivery owes at most one broadcast. -/
theorem score_low {m : RelayMessage} (hlow : -1 ≤ m.replaces + score m past)
    (hg : deliveryGuard .paid m past a s) : -1 ≤ m.replaces + score m (⟨a, reply⟩ :: past) := by
  have hnonneg := m.replaces_nonneg
  have hone := m.replaces_le_one
  cases a
  case broadcast id c w n =>
    have hzero : score m past = 0 := hg.1
    simp only [score, hzero]
    omega
  case markSubmitted id hash w n =>
    cases reply <;> simp only [score] <;> omega
  case incrementRetry id =>
    cases reply <;> simp only [score] <;> omega
  case nack m' =>
    have hpaid : 0 ≤ score m past := hg.2.2 trivial trivial
    simp only [score]
    omega
  all_goals exact hlow

/-- Where a row goes on, the action before was not the one that used up its budget. -/
theorem exhaustedLast_ne (hd : DoomedNext past a) (hr : s.transactions[i]? = some r)
    (hr' : s'.transactions[i]? = some r') (hnt : r'.status.terminal = false)
    (hp : perform d a ch s = some (reply, s')) : exhaustedLast past ≠ some i := by
  intro hlast
  obtain ⟨msg, rfl⟩ := hd i hlast
  rcases updated_cases rfl (Option.some.inj hp) with ⟨rfl, r₀, hr₀, -, rfl⟩ | ⟨rfl, rfl, hst⟩
  · rw [List.getElem?_set_self (List.getElem?_eq_some_iff.mp hr₀).1] at hr'
    obtain rfl := Option.some.inj hr'
    cases hnt
  · have hst' := hst r' hr'
    cases hcase : r'.status <;> simp [hcase, TxStatus.terminal] at hst' hnt

theorem dooms_nonneg : 0 ≤ dooms i past := by
  rw [dooms]
  split <;> omega

/-- A retry beyond the budget is followed by the end of the row. -/
theorem retries_act {D : ℤ} (hD : 0 ≤ D) (hr : s.transactions[i]? = some r)
    (hr' : s'.transactions[i]? = some r') (he : Effect s a reply s')
    (hle : (r.retryCount : ℤ) ≤ r.maxRetries + D) :
    (r'.retryCount : ℤ) ≤ r'.maxRetries + (D + dooms i (⟨a, reply⟩ :: past)) := by
  have hnonneg : 0 ≤ dooms i (⟨a, reply⟩ :: past) := dooms_nonneg
  obtain ⟨q, hq, hcase⟩ := he.row hr
  obtain rfl := Option.some.inj (hr'.symm.trans hq)
  rcases hcase with rfl | hedit
  · omega
  · cases hedit with
    | incrementRetry | markFailed =>
        simp only [dooms, exhaustedLast, Budget.exhausted, decide_eq_true_eq, ge_iff_le] at hnonneg ⊢
        split_ifs at hnonneg ⊢ <;> simp_all <;> omega
    | reserve | markSubmitted | markConfirmed | touch | markDeadLetter => simp only; omega

end

/-! ### The invariant -/

/-- What the attempts of a row that goes on have to do with its budget. -/
structure Within (c : Config (bot d)) (i : ℕ) (r : Row) : Prop where
  spent : c.total (fun t => weight r.key i t.task t.past) + waiting r.key c.state.queue ≤ r.funds
  retries : (r.retryCount : ℤ) ≤ r.maxRetries + c.total (fun t => dooms i t.past)
  low : ∀ t ∈ c.threads, -1 ≤ credit r.key i t.task t.past ∧
    (t.live = false → 0 ≤ credit r.key i t.task t.past)

/-- The invariant of the runs at hand. -/
structure Counted (c : Config (bot d)) : Prop where
  placed : ∀ t ∈ c.threads, Placed c.state t
  settled : ∀ t ∈ c.threads, t.live = false → exhaustedLast t.past = none
  within : ∀ (i : ℕ) (r : Row), c.state.transactions[i]? = some r → r.status.terminal = false →
    Within c i r

/-- Only one process owes something for a row, and it is alive. -/
theorem Within.attempts_le {c : Config (bot d)} {i : ℕ} {r : Row}
    (hs : Sound (contract d .paid) Regime.paid.kept c) (hw : Within c i r) :
    (attempts i c : ℤ) ≤ c.total (fun t => weight r.key i t.task t.past) + 1 := by
  have hsum : (attempts i c : ℤ) = c.total (fun t => weight r.key i t.task t.past) +
      c.total (fun t => -credit r.key i t.task t.past) := by
    rw [← Config.total_add, attempts, Nat.cast_list_sum, List.map_map]
    refine congrArg List.sum (List.map_congr_left fun t _ => ?_)
    simp [weight]
  have hone : c.total (fun t => -credit r.key i t.task t.past) ≤ 1 := by
    refine hs.total_le_one (l := .message r.key) trivial (fun t ht => ?_) fun t ht hneg => ?_
    · have hlow := (hw.low t ht).1
      omega
    · constructor
      · by_contra hdead
        have hpos := (hw.low t ht).2 (Bool.eq_false_of_not_eq_true hdead)
        omega
      · cases htask : t.task with
        | scan chain | sweep pages => simp [credit, htask] at hneg
        | cron =>
            rw [htask] at hneg
            have hpos : 0 ≤ credit r.key i .cron t.past := credit_cron_nonneg
            omega
        | delivery m again =>
            rw [htask] at hneg
            simp only [credit] at hneg
            split at hneg
            · rename_i hk
              exact congrArg (fun k => some (SessionLock.message k)) hk
            · omega
  omega

/-- Only a delivery of the row and a cron pass can be about to dead-letter it. -/
theorem Counted.dooms_le {c : Config (bot d)} {i : ℕ} {r : Row}
    (hs : Sound (contract d .paid) Regime.paid.kept c) (hc : Counted c)
    (hr : c.state.transactions[i]? = some r) : c.total (fun t => dooms i t.past) ≤ 2 := by
  have hle : ∀ past : Past (atomics d), dooms i past ≤ 1 := by
    intro past
    rw [dooms]
    split <;> omega
  have hlast : ∀ t ∈ c.threads, 0 < dooms i t.past →
      exhaustedLast t.past = some i ∧ t.live = true := by
    intro t ht hpos
    have hlast : exhaustedLast t.past = some i := by
      by_contra hne
      simp [dooms, hne] at hpos
    refine ⟨hlast, ?_⟩
    by_contra hdead
    have hnone := hc.settled t ht (Bool.eq_false_of_not_eq_true hdead)
    rw [hlast] at hnone
    cases hnone
  have hsum : c.total (fun t => dooms i t.past) = c.total (fun t => cronDooms i t.task t.past) +
      c.total (fun t => deliveryDooms i t.task t.past) := by
    rw [← Config.total_add]
    refine congrArg List.sum (List.map_congr_left fun t _ => ?_)
    cases t.task <;> simp only [cronDooms, deliveryDooms] <;> omega
  have hcron : c.total (fun t => cronDooms i t.task t.past) ≤ 1 := by
    refine hs.total_le_one (l := .leader) trivial (fun t _ => ?_) fun t ht hpos => ?_
    · cases t.task with
      | cron => exact hle t.past
      | scan | sweep | delivery => exact Int.zero_le_ofNat 1
    · cases htask : t.task with
      | cron =>
          rw [htask] at hpos
          exact ⟨(hlast t ht hpos).2, rfl⟩
      | scan | sweep | delivery =>
          rw [htask] at hpos
          exact absurd hpos (Int.lt_irrefl 0)
  have hdelivery : c.total (fun t => deliveryDooms i t.task t.past) ≤ 1 := by
    refine hs.total_le_one (l := .message r.key) trivial (fun t _ => ?_) fun t ht hpos => ?_
    · cases t.task with
      | cron => exact Int.zero_le_ofNat 1
      | scan | sweep | delivery => exact hle t.past
    · have hne : t.task ≠ .cron := by
        intro htask
        rw [htask] at hpos
        exact absurd hpos (Int.lt_irrefl 0)
      have hpos' : 0 < dooms i t.past := by
        cases htask : t.task with
        | cron => exact absurd htask hne
        | scan | sweep | delivery =>
            rw [htask] at hpos
            exact hpos
      obtain ⟨h, hv⟩ := hlast t ht hpos'
      obtain ⟨e, he, hch⟩ := charged_of_exhaustedLast h
      obtain ⟨r₀, hr₀, htask⟩ := (hc.placed t ht).rows e he i hch
      obtain rfl := Option.some.inj (hr.symm.trans hr₀)
      exact ⟨hv, Task.lock_of_delivers (htask.resolve_left hne)⟩
  omega

/-! ### One step -/

section

variable {c : Config (bot d)} {i : ℕ} {r : Row}

theorem waiting_eq_zero {k : Key} {queue : List RelayMessage} (h : ∀ m ∈ queue, m.key ≠ k) :
    waiting k queue = 0 := by
  refine List.sum_eq_zero fun x hx => ?_
  obtain ⟨m, hm, rfl⟩ := List.mem_map.mp hx
  exact if_neg (h m hm)

/-- Nothing was done for a row that is not there. -/
theorem Placed.fresh {t : Thread (bot d)} (h : Placed s t) (hnone : s.transactions[i]? = none)
    {k : Key} (hk : ¬ HasKey s.transactions k) :
    attemptsOf i t.past = 0 ∧ credit k i t.task t.past = 0 := by
  have hcharged : ∀ e ∈ t.past, charged e ≠ some i := by
    intro e he hi
    obtain ⟨r, hr, -⟩ := h.rows e he i hi
    rw [hnone] at hr
    cases hr
  constructor
  · refine List.countP_eq_zero.mpr fun e he hatt => ?_
    exact hcharged e he (charged_of_isAttempt hatt)
  · cases htask : t.task with
    | scan chain | sweep pages => rfl
    | cron =>
        simp only [credit]
        refine if_neg fun hlast => ?_
        obtain ⟨e, he, hi⟩ := charged_of_reprievedLast hlast
        exact hcharged e he hi
    | delivery m again =>
        simp only [credit]
        refine if_neg ?_
        rintro rfl
        exact hk (h.key m again htask)

/-- A row that is new has not used anything. -/
theorem Within.fresh (hfresh : r.retryCount = 0 ∧ r.status = .pending)
    (hthreads : ∀ t ∈ c.threads, attemptsOf i t.past = 0 ∧ credit r.key i t.task t.past = 0)
    (hqueue : ∀ m ∈ c.state.queue, m.key ≠ r.key) : Within c i r where
  spent := by
    rw [waiting_eq_zero hqueue, Config.total_eq_zero fun t ht => ?_]
    · simp [Row.funds, hfresh]
    · simp [weight, hthreads t ht]
  retries := by
    have hnonneg : 0 ≤ c.total (fun t => dooms i t.past) :=
      Config.total_nonneg fun t _ => dooms_nonneg
    rw [hfresh.1]
    omega
  low t ht := by
    rw [(hthreads t ht).2]
    omega

/-- A process that has started has done nothing. -/
theorem weight_new (k : Key) (m : RelayMessage) (again : Bool) :
    weight (d := d) k i (.delivery m again) [] = if m.key = k then m.replaces else 0 := by
  simp [weight, attemptsOf, credit, score]

/-- What starting a task takes from the queue. -/
theorem start_weight {t : Task} (h : Task.start d t s = some s')
    (hagain : ∀ m, t = .delivery m true → m.replaceNonce = none) (k : Key) :
    weight (d := d) k i t [] + waiting k s'.queue = waiting k s.queue := by
  cases t with
  | scan chain =>
      simp only [Task.start, Option.ite_none_right_eq_some] at h
      obtain rfl := Option.some.inj h.2
      simp [weight, attemptsOf, credit]
  | sweep pages =>
      obtain rfl := Option.some.inj h
      simp [weight, attemptsOf, credit]
  | cron =>
      obtain rfl := Option.some.inj h
      simp [weight, attemptsOf, credit, reprievedLast]
  | delivery m again =>
      rw [weight_new]
      cases again with
      | true =>
          simp only [Task.start, Option.ite_none_right_eq_some] at h
          obtain rfl := Option.some.inj h.2
          simp [RelayMessage.replaces_of_none (hagain m rfl)]
      | false =>
          simp only [Task.start, Option.ite_none_right_eq_some] at h
          obtain ⟨hm, h⟩ := h
          obtain rfl := Option.some.inj h
          exact List.sum_map_erase (fun m => if m.key = k then m.replaces else 0) hm

theorem credit_new {k : Key} {t : Task} : 0 ≤ credit (d := d) k i t [] := by
  cases t with
  | scan | sweep => exact Int.le_refl 0
  | cron => exact credit_cron_nonneg
  | delivery m again =>
      simp only [credit, score]
      split
      · have hnonneg := m.replaces_nonneg
        omega
      · exact Int.le_refl 0

theorem Placed.doomedNext {t : Thread (bot d)} {a : Act} (h : Placed s t)
    (hg : (contract d .paid t.task).guard t.past a s) : DoomedNext t.past a := by
  cases htask : t.task with
  | delivery m again | cron =>
      rw [htask] at hg
      exact hg.1
  | scan chain | sweep pages =>
      intro id hlast
      obtain ⟨e, he, hi⟩ := charged_of_exhaustedLast hlast
      obtain ⟨r, -, hcron | hdelivers⟩ := h.rows e he id hi
      · rw [htask] at hcron
        cases hcron
      · rw [htask] at hdelivers
        cases hdelivers

section

variable {j : ℕ} {t : Thread (bot d)} {a : Act} {reply : a.Reply} {ch : Choice} {p : Prog d Unit}
  {r' : Row}

/-- What an action does to the sums. -/
theorem spent_act (hu : KeysUnique s.transactions) (hr : s.transactions[i]? = some r)
    (hr' : s'.transactions[i]? = some r') (hnt : r'.status.terminal = false)
    (hg : (contract d .paid t.task).guard t.past a s)
    (hp : perform d a ch s = some (reply, s')) :
    weight r.key i t.task (⟨a, reply⟩ :: t.past) + replacement r.key a + r.funds ≤
      weight r.key i t.task t.past + r'.funds := by
  have he := perform_effect hp
  have hfunds := funds_mono hr hr' hnt he
  cases htask : t.task with
  | scan chain | sweep pages =>
      rw [htask] at hg
      exact spent_listener rfl hfunds hg
  | cron =>
      rw [htask] at hg
      exact spent_cron hu hr hr' hfunds hg.2 hp
  | delivery m again =>
      rw [htask] at hg
      rcases eq_or_ne m.key r.key with hk | hk
      · exact spent_delivery hk hu hr hr' (not_terminal_before he hr hr' hnt) hfunds hg.2 hp
      · exact spent_other hk hr hfunds hg.2

/-- What a process owes after an action. -/
theorem credit_act (hI' : Inv d .paid s') (hkey : r'.key = r.key)
    (hr' : s'.transactions[i]? = some r') (hnt : r'.status.terminal = false)
    (hlow : -1 ≤ credit r.key i t.task t.past)
    (hg : (contract d .paid t.task).guard t.past a s)
    (hfinal : (t.after a reply p).live = false →
      (contract d .paid t.task).final (⟨a, reply⟩ :: t.past) s') :
    -1 ≤ credit r.key i t.task (⟨a, reply⟩ :: t.past) ∧
      ((t.after a reply p).live = false → 0 ≤ credit r.key i t.task (⟨a, reply⟩ :: t.past)) := by
  have hneg : (-1 : ℤ) ≤ 0 := by omega
  cases htask : t.task with
  | scan chain | sweep pages => exact ⟨hneg, fun _ => Int.le_refl 0⟩
  | cron => exact ⟨hneg.trans credit_cron_nonneg, fun _ => credit_cron_nonneg⟩
  | delivery m again =>
      rw [htask] at hg hfinal hlow
      simp only [credit] at hlow ⊢
      split
      · rename_i hk
        rw [if_pos hk] at hlow
        refine ⟨score_low hlow hg.2, fun hend => ?_⟩
        rcases (hfinal hend).2 trivial trivial with hpaid | ⟨id, r₀, hr₀, hk₀, hterm⟩
        · exact hpaid
        · -- the row of the delivery has not ended
          obtain rfl := hI'.unique id i r₀ r' hr₀ hr' (hk₀.trans (hk.trans hkey.symm))
          obtain rfl := Option.some.inj (hr'.symm.trans hr₀)
          rw [hterm] at hnt
          cases hnt
      · exact ⟨hneg, fun _ => Int.le_refl 0⟩

/-- **An action** of a row that goes on. -/
theorem Within.act (hw : Within c i r) (ht : c.threads[j]? = some t) (hplaced : Placed c.state t)
    (hI : Inv d .paid c.state) (hI' : Inv d .paid s')
    (hg : (contract d .paid t.task).guard t.past a c.state)
    (hp : perform d a ch c.state = some (reply, s'))
    (hfinal : (t.after a reply p).live = false →
      (contract d .paid t.task).final (⟨a, reply⟩ :: t.past) s')
    (hr : c.state.transactions[i]? = some r) (hr' : s'.transactions[i]? = some r')
    (hnt : r'.status.terminal = false) :
    Within ⟨s', c.threads.set j (t.after a reply p)⟩ i r' := by
  have he := perform_effect hp
  have hkey : r'.key = r.key := by
    obtain ⟨q, hq, hsame⟩ := he.same_row hr
    obtain rfl := Option.some.inj (hr'.symm.trans hq)
    exact hsame.key
  constructor
  · have hspent := hw.spent
    have hact := spent_act hI.unique hr hr' hnt hg hp
    have hwaiting := he.waiting r.key
    rw [hkey, Config.total_set ht]
    change _ - _ + weight r.key i t.task (⟨a, reply⟩ :: t.past) + waiting r.key s'.queue ≤ _
    omega
  · have hne := exhaustedLast_ne (hplaced.doomedNext hg) hr hr' hnt hp
    have hzero : dooms i t.past = 0 := if_neg hne
    have hnonneg : 0 ≤ c.total fun u => dooms i u.past :=
      Config.total_nonneg fun u _ => dooms_nonneg
    rw [Config.total_set ht, hzero, Int.sub_zero]
    exact retries_act hnonneg hr hr' he hw.retries
  · intro u hu
    rw [hkey]
    rcases List.mem_or_eq_of_mem_set hu with hu | rfl
    · exact hw.low u hu
    · exact credit_act hI' hkey hr' hnt (hw.low t (List.mem_of_getElem? ht)).1 hg hfinal

end

/-- A process that starts leaves what is counted of a row. -/
theorem Within.start {t : Task} (hw : Within c i r) (hs : Task.start d t c.state = some s')
    (hagain : ∀ m, t = .delivery m true → m.replaceNonce = none) :
    Within ⟨s', c.threads ++ [Thread.new t]⟩ i r where
  spent := by
    have hspent := hw.spent
    have hstart := start_weight (i := i) hs hagain r.key
    rw [Config.total_concat]
    change _ + weight r.key i t [] + waiting r.key s'.queue ≤ _
    omega
  retries := by
    have hretries := hw.retries
    have hnonneg : 0 ≤ dooms (d := d) i [] := dooms_nonneg
    rw [Config.total_concat]
    change _ ≤ _ + (_ + dooms i [])
    omega
  low u hu := by
    rcases List.mem_append.mp hu with hu | hu
    · exact hw.low u hu
    · obtain rfl := List.mem_singleton.mp hu
      have hnonneg : 0 ≤ credit (d := d) r.key i t [] := credit_new
      exact ⟨by change -1 ≤ credit r.key i t []; omega, fun _ => hnonneg⟩

/-- A process that is replaced by one with the same past, which owes nothing if it is dead. -/
theorem Within.same {j : ℕ} {t u : Thread (bot d)} (hw : Within c i r) (ht : c.threads[j]? = some t)
    (htask : u.task = t.task) (hpast : u.past = t.past)
    (hlow : u.live = false → 0 ≤ credit r.key i t.task t.past) :
    Within { c with threads := c.threads.set j u } i r where
  spent := by
    rw [Config.total_set_same ht (by rw [htask, hpast])]
    exact hw.spent
  retries := by
    rw [Config.total_set_same ht (by rw [hpast])]
    exact hw.retries
  low v hv := by
    rcases List.mem_or_eq_of_mem_set hv with hv | rfl
    · exact hw.low v hv
    · rw [htask, hpast]
      exact ⟨(hw.low t (List.mem_of_getElem? ht)).1, hlow⟩

/-- A process that does not owe has no credit below zero. -/
theorem credit_of_not_owes {k : Key} {t : Task} {past : Past (atomics d)}
    (h : owes t past = false) : 0 ≤ credit k i t past := by
  cases t with
  | scan | sweep => exact Int.le_refl 0
  | cron => exact credit_cron_nonneg
  | delivery m again =>
      simp only [owes, decide_eq_false_iff_not, Int.not_lt] at h
      simp only [credit]
      split
      · exact h
      · exact Int.le_refl 0

end

theorem env_queue {e : Env} (h : env e s = some s') : s'.queue = s.queue := by
  cases e with
  | tick micros =>
      obtain rfl := Option.some.inj h
      rfl
  | mine hash receipt =>
      simp only [Ntt.Relayer.env] at h
      split at h
      · cases h
      · obtain rfl := Option.some.inj h
        rfl

section

variable {c c' : Config (bot d)} {e : Event (bot d)}

/-- A process that is done has not used up a budget. -/
theorem Placed.final {t : Thread (bot d)} (h : Placed s t)
    (hfinal : (contract d .paid t.task).final t.past s) : exhaustedLast t.past = none := by
  cases htask : t.task with
  | delivery m again =>
      rw [htask] at hfinal
      exact hfinal.1
  | cron =>
      rw [htask] at hfinal
      exact hfinal
  | scan chain | sweep pages =>
      by_contra hne
      obtain ⟨id, hlast⟩ := Option.ne_none_iff_exists'.mp hne
      obtain ⟨e, he, hi⟩ := charged_of_exhaustedLast hlast
      obtain ⟨r, -, hcron | hdelivers⟩ := h.rows e he id hi
      · rw [htask] at hcron
        cases hcron
      · rw [htask] at hdelivers
        cases hdelivers

theorem Counted.start {t : Task} (hI : Inv d .paid c.state) (hc : Counted c)
    (hs : Task.start d t c.state = some s')
    (hagain : ∀ m, t = .delivery m true → m.replaceNonce = none) :
    Counted ⟨s', c.threads ++ [Thread.new t]⟩ where
  placed u hu := by
    rcases List.mem_append.mp hu with hu | hu
    · exact (hc.placed u hu).persists (Rests.start hs).persists
    · obtain rfl := List.mem_singleton.mp hu
      refine ⟨fun m again htask => ?_, fun e he => absurd he List.not_mem_nil⟩
      obtain rfl : t = .delivery m again := htask
      exact (hasKey_of_start hs hI).persists (Rests.start hs).persists
  settled u hu hdead := by
    rcases List.mem_append.mp hu with hu | hu
    · exact hc.settled u hu hdead
    · obtain rfl := List.mem_singleton.mp hu
      rfl
  within i r hr hnt := (hc.within i r ((Rests.start hs).transactions ▸ hr) hnt).start hs hagain

theorem Counted.act {j : ℕ} {t : Thread (bot d)} {a : Act} {f : a.Reply → Prog d Unit}
    {reply : a.Reply} {ch : Choice} (hs : Sound (contract d .paid) Regime.paid.kept c)
    (hc : Counted c) (ht : c.threads[j]? = some t) (hv : t.alive = true) (ha : t.left = .act a f)
    (hallow : (contract d .paid t.task).allows a ch c.state) (hI' : Inv d .paid s')
    (hp : perform d a ch c.state = some (reply, s')) :
    Counted ⟨s', c.threads.set j (t.after a reply (f reply))⟩ := by
  have hg := hs.guard ht hv ha
  have he := perform_effect hp
  have hplaced := hc.placed t (List.mem_of_getElem? ht)
  have hafter : Placed c.state (t.after a reply (f reply)) := hplaced.after hg hp
  have hfinal : (t.after a reply (f reply)).live = false →
      (contract d .paid t.task).final (⟨a, reply⟩ :: t.past) s' :=
    hs.final ht hv ha hallow hp hI'
  have hbefore : ∀ u ∈ c.threads.set j (t.after a reply (f reply)), Placed c.state u := by
    intro u hu
    rcases List.mem_or_eq_of_mem_set hu with hu | rfl
    · exact hc.placed u hu
    · exact hafter
  constructor
  · exact fun u hu => (hbefore u hu).persists he.persists
  · intro u hu hdead
    rcases List.mem_or_eq_of_mem_set hu with hu | rfl
    · exact hc.settled u hu hdead
    · exact (hafter.persists he.persists).final (hfinal hdead)
  · intro i r' hr' hnt
    cases hr : c.state.transactions[i]? with
    | some r =>
        have hw := hc.within i r hr (not_terminal_before he hr hr' hnt)
        exact hw.act ht hplaced hs.inv hI' hg hp hfinal hr hr' hnt
    | none =>
        -- the row is new, and so is its key
        obtain ⟨input, hinput, rfl⟩ : ∃ input ∈ a.inputs, r' = pendingRow c.state.clock input := by
          rcases he.source hr' with ⟨q, hq, -⟩ | ⟨-, h⟩
          · rw [hr] at hq
            cases hq
          · exact h
        have hnew : ¬ HasKey c.state.transactions (pendingRow c.state.clock input).key := by
          rintro ⟨i', q, hq, hk⟩
          obtain ⟨q', hq', hsame⟩ := he.same_row hq
          obtain rfl := hI'.unique i' i q' _ hq' hr' (hsame.key.trans hk)
          rw [hr] at hq
          cases hq
        have hqueue : s'.queue = c.state.queue := by
          cases he with
          | publish | nack => cases hinput
          | same | edit | insertPending | initCursor | recordScan | broadcast => rfl
        refine .fresh ⟨rfl, rfl⟩ (fun u hu => (hbefore u hu).fresh hr hnew) fun m hm hk => ?_
        exact hnew (hk ▸ hs.inv.queued m (hqueue ▸ hm))

/-- A process that is replaced by one with the same past, which owes nothing if it is dead. -/
theorem Counted.same {j : ℕ} {t u : Thread (bot d)} (hc : Counted c) (ht : c.threads[j]? = some t)
    (htask : u.task = t.task) (hpast : u.past = t.past)
    (hdead : u.live = false → exhaustedLast t.past = none ∧
      ∀ (i : ℕ) (r : Row), Within c i r → 0 ≤ credit r.key i t.task t.past) :
    Counted { c with threads := c.threads.set j u } where
  placed v hv := by
    rcases List.mem_or_eq_of_mem_set hv with hv | rfl
    · exact hc.placed v hv
    · have hplaced := hc.placed t (List.mem_of_getElem? ht)
      refine ⟨fun m again h => hplaced.key m again (htask ▸ h), fun e he => ?_⟩
      rw [htask]
      exact hplaced.rows e (hpast ▸ he)
  settled v hv hend := by
    rcases List.mem_or_eq_of_mem_set hv with hv | rfl
    · exact hc.settled v hv hend
    · rw [hpast]
      exact (hdead hend).1
  within i r hr hnt := by
    have hw := hc.within i r hr hnt
    exact hw.same ht htask hpast fun hend => (hdead hend).2 i r hw

/-- **One step.** -/
theorem Counted.step (hs : Sound (contract d .paid) Regime.paid.kept c) (hc : Counted c)
    (hpaid : Paid c e) (h : Step c e c') : Counted c' := by
  have hmeets := hpaid.meets
  obtain ⟨hlose, -, hcrash, hagain⟩ := hpaid
  cases h with
  | start _ hstart =>
      refine hc.start hs.inv hstart ?_
      rintro m rfl
      simpa [replacesAgain] using hagain
  | act ht hv ha hp =>
      obtain ⟨hallow, hI', -⟩ := (disciplined d .paid).act ht hv ha hmeets hs.inv
        (hs.guard ht hv ha) hp
      exact hc.act hs ht hv ha hallow hI' hp
  | @crash j t ht =>
      refine hc.same ht rfl rfl fun _ => ?_
      cases hv : t.live with
      | true =>
          simp only [crashesOwing, ht, Option.any_some, hv, Bool.true_and,
            Bool.or_eq_false_iff] at hcrash
          exact ⟨by simpa using hcrash.2, fun i r _ => credit_of_not_owes hcrash.1⟩
      | false =>
          have hmem := List.mem_of_getElem? ht
          exact ⟨hc.settled t hmem hv, fun i r hw => (hw.low t hmem).2 hv⟩
  | @lose j t ht =>
      refine hc.same ht rfl rfl fun hend => ?_
      have hmem := List.mem_of_getElem? ht
      exact ⟨hc.settled t hmem hend, fun i r hw => (hw.low t hmem).2 hend⟩
  | env henv =>
      have hrows := (Rests.env henv).transactions
      have hqueue := env_queue henv
      refine ⟨fun u hu => (hc.placed u hu).persists (Rests.env henv).persists, hc.settled, ?_⟩
      intro i r hr hnt
      have hw := hc.within i r (hrows ▸ hr) hnt
      refine ⟨?_, hw.retries, hw.low⟩
      rw [hqueue]
      exact hw.spent

end

/-- **Attempts are bounded.** In every run whose broadcasts are paid for, the broadcasts for a row
that has not ended are at most six more than twice its retry budget. -/
theorem attempts_bounded (d : Deployment) (es : List (Event (bot d)))
    (hes : (machine (bot d)).Along Paid d.init es) {i : ℕ} {r : Row}
    (hr : (d.run es).state.transactions[i]? = some r) (hnt : r.status.terminal = false) :
    attempts i (d.run es) ≤ 2 * r.maxRetries + 6 := by
  have hinit : Counted d.init := by
    refine ⟨fun t ht => ?_, fun t ht => ?_, fun i r hr => ?_⟩
    · exact absurd ht List.not_mem_nil
    · exact absurd ht List.not_mem_nil
    · simp [Deployment.init, World.init] at hr
  obtain ⟨hs, hc⟩ := run_induction (J := Counted) (fun _ _ h => h.meets) hinit
    (fun _ _ _ hs hc hpaid h => hc.step hs hpaid h) hes
  have hw := hc.within i r hr hnt
  have hattempts := hw.attempts_le hs
  have hspent := hw.spent
  have hretries := hw.retries
  have hdooms := hc.dooms_le hs hr
  have hwaiting : 0 ≤ waiting r.key (d.run es).state.queue := by
    refine List.sum_nonneg fun x hx => ?_
    obtain ⟨m, -, rfl⟩ := List.mem_map.mp hx
    split
    · exact m.replaces_nonneg
    · exact Int.le_refl 0
  have hfunds : r.funds ≤ 2 * r.retryCount + 1 := by
    rw [Row.funds]
    split <;> omega
  omega

/-! ### A nonce that is mined without a delivery -/

/-- The answer to a broadcast at a nonce that is mined. -/
def nonceTooLow : RelayError := .defer "nonce already used: nonce too low"

/-- The chain answers: what `prepare` needs is there, every call gets its answer, and a broadcast
fails only where its nonce is mined. Nothing crashes, and no message is delivered again. -/
def answers (c : Config (bot d)) : Event (bot d) → Bool
  | .start (.delivery _ again) => !again
  | .crash _ | .lose _ => false
  | .act _ (.prepared r) => r.toBool
  | .act _ (.nonces r) => r.toBool
  | .act i (.sends taken _ (some err)) =>
      match next c i with
      | some (_, .broadcast _ chainId w n) =>
          !taken && err = nonceTooLow && n < c.state.accountNonce chainId w
      | _ => false
  | _ => true

/-- The row of a message is submitted with a nonce that is mined, and nothing else is there. -/
structure Stuck (d : Deployment) (m : RelayMessage) (n maxRetries : ℕ) (s : World) (r : Row) :
    Prop where
  transactions : s.transactions = [r]
  queue : s.queue = [m]
  key : r.key = m.key
  status : r.status = .submitted
  maxRetries : r.maxRetries = maxRetries
  replaces : m.replaceNonce = some n
  nonce : r.nonceUsed = some n
  wallet : ∃ w ∈ d.wallets, r.walletUsed = some w ∧ n < s.accountNonce r.destinationChainId w

/-- After ten seconds the message is delivered once more, and its broadcast is answered with
`nonce too low`. -/
def round (m : RelayMessage) (i : ℕ) : List (Event (bot d)) :=
  [.env (.tick 10000000), .start (.delivery m false), .act i .only,
    .act i (.prepared (.ok .ready)), .act i (.sends false [] (some nonceTooLow)), .act i .only,
    .act i .only]

section

variable {m : RelayMessage} {n maxRetries : ℕ} {r : Row}

/-- The delivery of the message broadcasts the nonce of the row. -/
theorem Stuck.attempt (h : Stuck d m n maxRetries s r) : ∃ w ∈ d.wallets,
    r.walletUsed = some w ∧ n < s.accountNonce r.destinationChainId w ∧ ∃ k, processRecord (d := d) m (rowToRecord 0 r) =
        .act (.prepare (rowToRecord 0 r) r.retryCount) k ∧
      k (.ok .ready) = broadcastLease m (rowToRecord 0 r) ⟨w, n⟩ := by
  obtain ⟨w, hpool, hw, hmined⟩ := h.wallet
  have hskip : skip m (rowToRecord 0 r).status = false := by
    simp [skip, rowToRecord, h.status, h.replaces]
  have hstale : ¬ (m.replaceNonce.isSome ∧ (rowToRecord 0 r).nonceUsed ≠ m.replaceNonce) := by
    simp [rowToRecord, h.nonce, h.replaces]
  have hlease : resubmitLease m (rowToRecord 0 r) = some ⟨w, n⟩ := by
    simp [resubmitLease, resubmitNonce, rowToRecord, h.replaces, hw]
  have hsecure : secureNonce (d := d) m (rowToRecord 0 r) = pure (.ok ⟨w, n⟩) := by
    simp [secureNonce, hlease, hpool]
  refine ⟨w, hpool, hw, hmined, ?_⟩
  rw [processRecord, hskip, if_neg Bool.false_ne_true, if_neg hstale]
  apply Exists.intro
  constructor
  · exact rfl
  · change (secureNonce (d := d) m (rowToRecord 0 r)).bind _ = _
    rw [hsecure]
    rfl

/-- **One round** makes a broadcast, and leaves everything but the time as it was. -/
theorem Stuck.round {ts : List (Thread (bot d))} (h : Stuck d m n maxRetries s r)
    (hdead : ∀ t ∈ ts, t.live = false) :
    ∃ s' r' t, Stuck d m n maxRetries s' r' ∧ t.live = false ∧ attemptsOf 0 t.past = 1 ∧
      (machine (bot d)).run ⟨s, ts⟩ (round m ts.length) = ⟨s', ts ++ [t]⟩ ∧
      (machine (bot d)).Along (fun c e => answers c e = true) ⟨s, ts⟩ (round m ts.length) := by
  obtain ⟨w, hpool, hw, hmined, k, hk, hbroadcast⟩ := h.attempt
  let s₁ : World := { s with clock := s.clock + 10000000 }
  let s₂ : World := { s₁ with queue := [] }
  let r' : Row := { r with updatedAt := s₁.clock }
  let s₃ : World := { s₂ with transactions := [r'] }
  let s₄ : World := { s₃ with queue := [m] }
  let row := rowToRecord 0 r
  let t₀ : Thread (bot d) := Thread.new (.delivery m false)
  let t₁ := t₀.after (.findBySourceEvent m.chainId m.transactionHash) (some row) (processRecord m row)
  let t₂ := t₁.after (.prepare row r.retryCount) (.ok .ready) (k (.ok .ready))
  let t₃ := t₂.after (.broadcast 0 r.destinationChainId w n) (.error nonceTooLow) (deferLater m row)
  let t₄ := t₃.after (.touch 0) () (run (.nack m))
  let t₅ := t₄.after (.nack m) () (.done ())
  have htick : (machine (bot d)).next ⟨s, ts⟩ (.env (.tick 10000000)) = ⟨s₁, ts⟩ := rfl
  have hstart : (machine (bot d)).next ⟨s₁, ts⟩ (.start (.delivery m false)) = ⟨s₂, ts ++ [t₀]⟩ := by
    refine next_start ?_ ?_
    · rintro l - t ht ⟨hlive, -⟩
      rw [hdead t ht] at hlive
      cases hlive
    · simp [bot, Task.start, s₁, s₂, h.queue]
  have hfind : (machine (bot d)).next ⟨s₂, ts ++ [t₀]⟩ (.act ts.length .only) =
      ⟨s₂, ts ++ [t₁]⟩ := by
    have hperform : perform d (.findBySourceEvent m.chainId m.transactionHash) .only s₂ =
        some (some row, s₂) := by
      obtain ⟨hchain, htx⟩ := Prod.mk.inj h.key
      simp [perform, findBySourceEvent, records, s₂, s₁, h.transactions, row, rowToRecord, hchain, htx]
    exact next_last (S := bot d) (t := t₀) rfl rfl hperform
  have hprepare : (machine (bot d)).next ⟨s₂, ts ++ [t₁]⟩
      (.act ts.length (.prepared (.ok .ready))) = ⟨s₂, ts ++ [t₂]⟩ :=
    next_last (t := t₁) rfl hk rfl
  have hsend : (machine (bot d)).next ⟨s₂, ts ++ [t₂]⟩
      (.act ts.length (.sends false [] (some nonceTooLow))) = ⟨s₂, ts ++ [t₃]⟩ := by
    exact next_last (S := bot d) (t := t₂) rfl hbroadcast rfl
  have htouch : (machine (bot d)).next ⟨s₂, ts ++ [t₃]⟩ (.act ts.length .only) =
      ⟨s₃, ts ++ [t₄]⟩ := by
    have hperform : perform d (.touch 0) .only s₂ = some ((), s₃) := by
      simp [perform, World.updated, touch, update, s₃, s₂, s₁, h.transactions, h.status, r']
    exact next_last (S := bot d) (t := t₃) rfl rfl hperform
  have hnack : (machine (bot d)).next ⟨s₃, ts ++ [t₄]⟩ (.act ts.length .only) =
      ⟨s₄, ts ++ [t₅]⟩ := next_last rfl rfl rfl
  refine ⟨s₄, r', t₅, ⟨rfl, rfl, h.key, h.status, h.maxRetries, h.replaces, h.nonce, ?_⟩, rfl, rfl,
    ?_, ?_⟩
  · exact ⟨w, hpool, hw, hmined⟩
  · simp only [Relayer.round, Transducer.run, htick, hstart, hfind, hprepare, hsend, htouch, hnack]
  · have hanswer : answers (d := d) ⟨s₂, ts ++ [t₂]⟩
        (.act ts.length (.sends false [] (some nonceTooLow))) = true := by
      have hnext : next (d := d) ⟨s₂, ts ++ [t₂]⟩ ts.length =
          some (.delivery m false, .broadcast 0 r.destinationChainId w n) :=
        next_eq_some (t := t₂) List.getElem?_concat_length rfl hbroadcast
      simp only [answers, hnext]
      simpa [s₂, s₁] using hmined
    simp only [Relayer.round, Transducer.Along, htick, hstart, hfind, hprepare, hsend, htouch]
    exact ⟨rfl, rfl, rfl, rfl, hanswer, rfl, rfl, trivial⟩

/-- Rounds one after another. -/
def rounds (m : RelayMessage) (i : ℕ) : ℕ → List (Event (bot d))
  | 0 => []
  | q + 1 => round m i ++ rounds m (i + 1) q

theorem Stuck.rounds (h : Stuck d m n maxRetries s r) (q : ℕ) {ts : List (Thread (bot d))}
    (hdead : ∀ t ∈ ts, t.live = false) :
    ∃ s' r' ts', Stuck d m n maxRetries s' r' ∧ (ts'.map fun t => attemptsOf 0 t.past).sum = q ∧
      (machine (bot d)).run ⟨s, ts⟩ (rounds m ts.length q) = ⟨s', ts ++ ts'⟩ ∧
      (machine (bot d)).Along (fun c e => answers c e = true) ⟨s, ts⟩ (rounds m ts.length q) := by
  induction q generalizing s r ts with
  | zero => exact ⟨s, r, [], h, rfl, by rw [List.append_nil]; rfl, trivial⟩
  | succ q ih =>
      obtain ⟨s₁, r₁, t, h₁, ht, hone, hrun, halong⟩ := h.round hdead
      have hdead₁ : ∀ u ∈ ts ++ [t], u.live = false := by
        intro u hu
        rcases List.mem_append.mp hu with hu | hu
        · exact hdead u hu
        · rw [List.mem_singleton.mp hu]
          exact ht
      obtain ⟨s', r', ts', h', hsum, hrun', halong'⟩ := ih h₁ hdead₁
      rw [List.length_append, List.length_singleton] at hrun' halong'
      refine ⟨s', r', t :: ts', h', ?_, ?_, ?_⟩
      · rw [List.map_cons, List.sum_cons, hone, hsum, Nat.add_comm]
      · rw [Relayer.rounds, Transducer.run_append, hrun, hrun', List.append_assoc,
          List.singleton_append]
      · rw [Relayer.rounds, Transducer.along_append, hrun]
        exact ⟨halong, halong'⟩

/-- A row that is stuck is attempted any number of times, and goes on. -/
theorem Stuck.attempts {c : Config (bot d)} (h : Stuck d m n maxRetries c.state r)
    (hdead : ∀ t ∈ c.threads, t.live = false) (q : ℕ) : ∃ es r',
    (machine (bot d)).Along (fun c e => answers c e = true) c es ∧
      ((machine (bot d)).run c es).state.transactions[0]? = some r' ∧ r'.maxRetries = maxRetries ∧
      r'.status.terminal = false ∧ q ≤ attempts 0 ((machine (bot d)).run c es) := by
  obtain ⟨s', r', ts', h', hsum, hrun, halong⟩ := h.rounds q hdead
  refine ⟨_, r', halong, ?_⟩
  rw [hrun]
  refine ⟨by rw [h'.transactions]; rfl, h'.maxRetries, by rw [h'.status]; rfl, ?_⟩
  rw [Relayer.attempts, List.map_append, List.sum_append, hsum]
  exact Nat.le_add_left _ _

end

section

open Sample

/-- The message of the second replacement. -/
def replacement₂ : RelayMessage :=
  { message [7] 0 with retryCount := 2, replaceNonce := some 0 }

/-- The replacement is broadcast, the first transaction is mined after all and reverts, and the
next cron pass finds no receipt of the replacement, which the node has dropped. -/
def stuck : List (Event (bot single)) :=
  replaced ++ [
    .start (.delivery { message [7] 0 with retryCount := 1, replaceNonce := some 0 } false),
    .act 3 .only, .act 3 (.prepared (.ok .ready)), .act 3 (.sends true [12] none), .act 3 .only,
    .act 3 .only, .env (.mine [11] ⟨false, none, none⟩), .env (.tick 301000000), .start .cron,
    .act 4 .only, .act 4 (.scan [0]), .act 4 (.scan [0]), .act 4 (.scan [0]), .act 4 (.scan [0]),
    .act 4 (.seen true), .act 4 (.seen false), .act 4 .only, .act 4 .only]

theorem attempts_bounded_stuck : ∃ r, (single.run stuck).state.transactions[0]? = some r ∧
    attempts 0 (single.run stuck) ≤ 2 * r.maxRetries + 6 := by
  have hrow : ((single.run stuck).state.transactions[0]?).map Row.status = some .submitted := by
    decide +kernel
  obtain ⟨r, hr, hst⟩ := Option.map_eq_some_iff.mp hrow
  exact ⟨r, hr, attempts_bounded single stuck (by decide +kernel) hr (by rw [hst]; rfl)⟩

theorem stuck_row : ∃ r, Stuck single replacement₂ 0 5 (single.run stuck).state r := by
  have hrows : (single.run stuck).state.transactions.map
      (fun r => (r.key, r.status, r.maxRetries)) = [(replacement₂.key, .submitted, 5)] := by
    decide +kernel
  have hheld : (single.run stuck).state.transactions.map
      (fun r => (r.nonceUsed, r.walletUsed, r.destinationChainId)) =
        [(some 0, some wallet, 4)] := by
    decide +kernel
  have hmined : 0 < (single.run stuck).state.accountNonce 4 wallet := by decide +kernel
  obtain ⟨r, hr, hval⟩ := List.map_eq_singleton_iff.mp hrows
  rw [hr] at hheld
  simp only [Prod.mk.injEq, List.map_cons, List.map_nil, List.cons.injEq, and_true] at hval hheld
  obtain ⟨hkey, hst, hmax⟩ := hval
  obtain ⟨hnonce, hwallet, hdest⟩ := hheld
  refine ⟨r, hr, by decide +kernel, hkey, hst, hmax, rfl, hnonce, wallet, ?_, hwallet, ?_⟩
  · exact List.mem_singleton_self wallet
  · rw [hdest]
    exact hmined

/-- **Attempts are not bounded** by the retry budget where the chain answers every call. -/
theorem attempts_unbounded : ¬ ∃ bound : ℕ → ℕ, ∀ es : List (Event (bot single)),
    (machine (bot single)).Along (fun c e => answers c e = true) single.init es →
    ∀ (i : ℕ) (r : Row), (single.run es).state.transactions[i]? = some r →
      r.status.terminal = false → attempts i (single.run es) ≤ bound r.maxRetries := by
  rintro ⟨bound, hbound⟩
  obtain ⟨r, h⟩ := stuck_row
  have hdead : ∀ t ∈ (single.run stuck).threads, t.live = false := by decide +kernel
  have hbase : (machine (bot single)).Along (fun c e => answers c e = true) single.init stuck := by
    decide +kernel
  obtain ⟨es, r', halong, hr', hmax, hnt, hle⟩ := h.attempts hdead (bound 5 + 1)
  have hall := hbound (stuck ++ es) (Transducer.along_append.mpr ⟨hbase, halong⟩) 0 r'
  rw [Deployment.run, Transducer.run_append, hmax] at hall
  exact absurd (hle.trans (hall hr' hnt)) (Nat.not_succ_le_self _)

end

end Ntt.Relayer
