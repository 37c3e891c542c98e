import Ntt.Relayer.Delivering
import Ntt.Relayer.Listening
import Ntt.Relayer.Reconciling

/-!
# The Contracts of the Roles Fit Together

What each role does within its contract keeps the invariant of the tables, and is within what the
others assume. A delivery and the listeners never get into each other's way, since they do not
update the same rows; two deliveries of a message exclude each other, as long as the session of the
message lock lives; and what the cron does to a row under delivery is what the regime of the run
leaves.

## Main results

* `Inv.perform`: an action within its contract keeps the invariant.
* `disciplined`: the contracts fit together, in the runs of a regime.
-/

namespace Ntt.Relayer

open Interleaving TransactionsRepo BlockTrackerRepo

variable {d : Deployment} {g : Regime} {s s' : World} {a : Act} {reply : a.Reply} {ch : Choice}
  {t : Task} {h : Past (atomics d)} {i : ℕ} {r r' : Row}

/-! ### The invariant -/

theorem Row.Fits.later (hf : r.Fits g s i) (hsent : ∀ b ∈ s.sent, b ∈ s'.sent)
    (hmined : ∀ c w, s.accountNonce c w ≤ s'.accountNonce c w) : r.Fits g s' i where
  pending := hf.pending
  wallet := hf.wallet
  committed := hf.committed
  hash := hf.hash
  sent hst h hh := by
    obtain ⟨w, n, hold, hmem⟩ := hf.sent hst h hh
    exact ⟨w, n, hold, hsent _ hmem⟩
  mined hl hu hst w n hold := (hf.mined hl hu hst w n hold).trans_le (hmined _ w)
  deadLetter := hf.deadLetter

theorem keptNonce_isSome (h : (keptNonce r).isSome = true) : r.nonceUsed.isSome = true := by
  rw [keptNonce] at h
  split at h
  · cases h
  · exact h

/-- An update within its contract. -/
theorem Row.Fits.edit (hf : r.Fits g s i) (hr : s.transactions[i]? = some r)
    (he : Edit s a reply i r r') (hg : (contract d g t).guard h a s) (hallow : Allowed g t a ch s) :
    r'.Fits g s i := by
  have hnt := he.not_terminal
  cases he with
  | reserve hst =>
      constructor <;> simp
  | @markSubmitted _ hash w n _ hst =>
      have hsent : ⟨r.destinationChainId, w, n, hash, i⟩ ∈ s.sent := by
        cases t with
        | delivery m again =>
            obtain ⟨-, r₀, hr₀, -, hsent, -⟩ := hg
            obtain rfl := Option.some.inj (hr.symm.trans hr₀)
            exact hsent
        | cron => exact absurd hg.2 id
        | scan chain | sweep pages => exact absurd hg id
      constructor
      case sent =>
        intro _ h hh
        obtain rfl := Option.some.inj hh
        exact ⟨w, n, ⟨rfl, rfl⟩, hsent⟩
      all_goals simp
  | markConfirmed hst =>
      constructor
      case wallet => exact fun h => hf.wallet (keptNonce_isSome h)
      all_goals simp
  | touch hst => exact ⟨hf.pending, hf.wallet, hf.committed, hf.hash, hf.sent, hf.mined, hf.deadLetter⟩
  | incrementRetry hst =>
      refine ⟨hf.pending, hf.wallet, hf.committed, hf.hash, hf.sent, hf.mined, fun _ _ h => ?_⟩
      have hst' : r.status = .deadLetter := h
      simp [hst'] at hst
  | @markFailed _ msg _ hst =>
      have hst' : r.status = .pending ∨ r.status = .submitted ∨ r.status = .failed := by
        simpa using hst
      constructor
      case wallet => exact hf.wallet
      case sent =>
        intro _ hash hh
        rcases hst' with hst' | hst'
        · have hnone := (hf.pending hst').2.2
          have hsome : r.relayTxHash = some hash := hh
          rw [hnone] at hsome
          cases hsome
        · exact hf.sent hst' hash hh
      case mined =>
        intro hl hu _ w n hold
        -- a nonce that a failed row keeps is mined
        have hmined : r.status = .pending ∨ r.status = .failed →
            n < s.accountNonce r.destinationChainId w := by
          rintro (hst' | hst')
          · have hnone := (hf.pending hst').2.1
            have hsome : r.nonceUsed = some n := hold.2
            rw [hnone] at hsome
            cases hsome
          · exact hf.mined hl hu hst' w n hold
        cases t with
        | delivery m again =>
            obtain ⟨-, r₀, hr₀, -, hfail⟩ := hg
            obtain rfl := Option.some.inj (hr.symm.trans hr₀)
            rcases hfail hl with hterm | hst'
            · rw [hterm] at hnt
              cases hnt
            · exact hmined hst'
        | cron =>
            obtain ⟨-, hlt⟩ := hallow.failing hu rfl _ _ rfl r hr
            rcases hst' with hst' | hst' | hst'
            · exact hmined (.inl hst')
            · exact hlt hst' w n hold
            · exact hmined (.inr hst')
        | scan chain | sweep pages => exact absurd hg id
      all_goals simp
  | @markDeadLetter _ msg _ hst =>
      constructor
      case wallet => exact fun h => hf.wallet (keptNonce_isSome h)
      case deadLetter =>
        intro hl hu _
        have hdoom : r.Doomed msg := by
          cases t with
          | delivery m again =>
              obtain ⟨-, r₀, hr₀, -, hdoom⟩ := hg
              obtain rfl := Option.some.inj (hr.symm.trans hr₀)
              exact hdoom hl
          | cron => exact hg.2 r hr hu
          | scan chain | sweep pages => exact absurd hg id
        rcases hdoom with hterm | hbudget
        · rw [hterm] at hnt
          cases hnt
        · exact ⟨msg, rfl, hbudget⟩
      all_goals simp

theorem fits_pendingRow (g : Regime) (s : World) (i now : ℕ) (input : InsertPendingInput) :
    (pendingRow now input).Fits g s i := by
  constructor <;> simp [pendingRow]

theorem Effect.accountNonce_le (he : Effect s a reply s') (c : ChainId) (w : Hex) :
    s.accountNonce c w ≤ s'.accountNonce c w := by
  rw [he.accountNonce]

/-- What every action leaves. -/
theorem Effect.persists (he : Effect s a reply s') : Persists s s' where
  row _ _ hr := he.same_row hr
  sent _ hb := he.sent hb
  cursor _ _ hn := he.cursor hn
  accountNonce := he.accountNonce_le

/-- A message that is put into the queue has a row. -/
theorem hasKey_of_publish {m : RelayMessage} (hg : (contract d g t).guard h (.publish m) s) :
    HasKey s.transactions m.key := by
  cases t with
  | delivery m' again => exact absurd hg.2 id
  | cron => exact hg.2.1
  | scan chain | sweep pages => exact hg.1

theorem hasKey_of_nack {m : RelayMessage} (hg : (contract d g t).guard h (.nack m) s) :
    HasKey s.transactions m.key := by
  cases t with
  | delivery m' again =>
      obtain ⟨-, rfl, hk, -⟩ := hg
      exact hk
  | cron => exact absurd hg.2 id
  | scan chain | sweep pages => exact absurd hg id

theorem chain_eq_of_chainId {chain chain' : ChainConfig} (hc : chain ∈ d.chains)
    (hc' : chain' ∈ d.chains) (heq : chain.chainId = chain'.chainId) : chain = chain' :=
  List.inj_on_of_nodup_map d.chains_nodup hc hc' heq

/-- A cursor stays at or above the one before the genesis block. -/
theorem tracked_perform (hI : Inv d g s) (he : Effect s a reply s')
    (hg : (contract d g t).guard h a s) {chain : ChainConfig} (hchain : chain ∈ d.chains)
    {relayer : Hex} {n : ℤ} (hn : s'.blockTracker (chain.chainId, relayer) = some n) :
    (chain.genesisBlock : ℤ) - 1 ≤ n := by
  rcases he.cursor_source hn with hn | ⟨genesis, rfl, rfl⟩ | ⟨inputs, last, -, hlast, hlt⟩
  · exact hI.tracked chain hchain relayer n hn
  · cases t with
    | scan chain₀ | sweep pages =>
        obtain ⟨chain', hc', hid, -, rfl⟩ := hg
        obtain rfl := chain_eq_of_chainId hchain hc' hid
        exact Int.le_refl _
    | delivery m again => exact absurd hg.2 id
    | cron => exact absurd hg.2 id
  · exact (hI.tracked chain hchain relayer last hlast).trans hlt.le

/-- **An action within its contract keeps the invariant.** -/
theorem Inv.perform (hI : Inv d g s) (he : Effect s a reply s')
    (hg : (contract d g t).guard h a s) (hallow : Allowed g t a ch s) : Inv d g s' where
  unique := hI.unique.effect he
  queued := by
    intro m hm
    cases he with
    | @publish msg =>
        rcases List.mem_append.mp hm with hm | hm
        · exact hI.queued m hm
        · obtain rfl := List.mem_singleton.mp hm
          exact hasKey_of_publish (s := s) hg
    | @nack msg =>
        rcases List.mem_append.mp hm with hm | hm
        · exact hI.queued m hm
        · obtain rfl := List.mem_singleton.mp hm
          exact hasKey_of_nack (s := s) hg
    | edit hr hedit => exact (hI.queued m hm).effect (.edit hr hedit)
    | insertPending hins => exact (hI.queued m hm).effect (.insertPending hins)
    | recordScan hins => exact (hI.queued m hm).grows (insertAll_spec hins).1
    | same | initCursor | broadcast => exact hI.queued m hm
  published := by
    intro m hm
    cases he with
    | @publish msg =>
        rcases List.mem_append.mp hm with hm | hm
        · exact hI.published m hm
        · obtain rfl := List.mem_singleton.mp hm
          exact hasKey_of_publish (s := s) hg
    | edit hr hedit => exact (hI.published m hm).effect (.edit hr hedit)
    | insertPending hins => exact (hI.published m hm).effect (.insertPending hins)
    | recordScan hins => exact (hI.published m hm).grows (insertAll_spec hins).1
    | same | initCursor | broadcast | nack => exact hI.published m hm
  fits := by
    intro i r' hr'
    rcases he.source hr' with ⟨r, hr, rfl | hedit⟩ | ⟨-, input, -, rfl⟩
    · exact (hI.fits i r' hr).later (fun _ => he.sent) he.accountNonce_le
    · exact ((hI.fits i r hr).edit hr hedit hg hallow).later (fun _ => he.sent) he.accountNonce_le
    · exact fits_pendingRow g s' i s.clock input
  tracked chain hchain relayer n hn := tracked_perform hI he hg hchain hn

/-! ### What the others assume -/

/-- The row that an action fails. -/
def Act.fails : Act → Option ℕ
  | .markFailed id _ => some id
  | _ => none

/-- The row of a message that an action of somebody else may not touch, in the regime of the run. -/
structure Leaves (g : Regime) (a : Act) (k : Key) (s : World) : Prop where
  unfailed : g.unfailed → ∀ id r, s.transactions[id]? = some r → r.key = k →
    r.status = .submitted → a.fails ≠ some id
  unended : g.unended → ∀ id r, s.transactions[id]? = some r → r.key = k →
    r.status.terminal = false → a.ends ≠ some id

/-- An update by the cron, of a row under delivery. -/
theorem Row.Others.of_cron {k : Key} (hr : s.transactions[i]? = some r) (hk : r.key = k)
    (he : Edit s a reply i r r') (hg : (cronContract d g).guard h a s) (hleaves : Leaves g a k s) :
    r.Others g r' := by
  have hnt := he.not_terminal
  cases he with
  | reserve | markSubmitted => exact absurd hg.2 id
  | markConfirmed =>
      exact ⟨fun h => (by cases h), fun h => (by cases h),
        fun hu _ => absurd rfl (hleaves.unended hu i r hr hk hnt)⟩
  | touch | incrementRetry =>
      exact ⟨fun _ => ⟨rfl, rfl, rfl⟩, fun _ => .inl rfl, fun _ h => h⟩
  | markFailed hst =>
      refine ⟨fun _ => ⟨rfl, rfl, rfl⟩, fun _ => .inr ⟨rfl, ?_, fun hu hst' => ?_⟩,
        fun _ h => by cases h⟩
      · rintro hst'
        simp [hst'] at hst
      · exact hleaves.unfailed hu i r hr hk hst' rfl
  | markDeadLetter =>
      exact ⟨fun h => (by cases h), fun h => (by cases h),
        fun hu _ => absurd rfl (hleaves.unended hu i r hr hk hnt)⟩

/-- **What a process does is what the others expect.** -/
theorem rely_of_effect (he : Effect s a reply s') (hg : (contract d g t).guard h a s) {t' : Task}
    (hlock : g.locked → ∀ k, Task.lock t = some (.message k) → Task.lock t' ≠ some (.message k))
    (hleaves : ∀ m again, t' = .delivery m again → t = .cron → Leaves g a m.key s) :
    (contract d g t').rely s s' := by
  cases t' with
  | scan chain | sweep pages | cron => exact he.persists
  | delivery m again =>
      refine ⟨he.persists, fun hl i r r' hr hk hr' => ?_⟩
      obtain ⟨q, hq, rfl | hedit⟩ := he.row hr
      · obtain rfl := Option.some.inj (hr'.symm.trans hq)
        exact .refl g r'
      · obtain rfl := Option.some.inj (hr'.symm.trans hq)
        cases t with
        | cron => exact .of_cron hr hk hedit hg (hleaves m again rfl rfl)
        | scan chain | sweep pages => cases hedit <;> exact absurd hg id
        | delivery m' again' =>
            -- a delivery updates the row of its own message only
            have hown : ∃ P, Own m'.key i P s := by
              cases hedit with
              | reserve | markConfirmed | touch | incrementRetry | markFailed | markDeadLetter
              | markSubmitted => exact ⟨_, hg.2⟩
            obtain ⟨-, r₀, hr₀, hk', -⟩ := hown
            obtain rfl := Option.some.inj (hr.symm.trans hr₀)
            refine absurd ?_ (hlock hl m'.key rfl)
            rw [← hk', hk]
            rfl

/-! ### The bot -/

/-- The locks whose sessions are kept. -/
def Regime.kept (g : Regime) : SessionLock → Prop
  | .message _ => g.locked
  | .leader => g.led

/-- Some process delivers a message of the key. -/
def Delivering (c : Config (bot d)) (k : Key) : Prop :=
  ∃ (j : ℕ) (t : Thread (bot d)) (m : RelayMessage) (again : Bool), c.threads[j]? = some t ∧
    t.live = true ∧ t.task = .delivery m again ∧ m.key = k

/-- An event of a run of a regime. -/
def Regime.Meets (g : Regime) (c : Config (bot d)) : Event (bot d) → Prop
  | .lose i => ∀ t, c.threads[i]? = some t →
      (g.locked → ∀ k, Task.lock t.task ≠ some (.message k)) ∧
      (g.led → Task.lock t.task ≠ some .leader)
  | .act i ch => ∀ (t : Thread (bot d)) (a : Act) (f : a.Reply → Prog d Unit),
      c.threads[i]? = some t → t.alive = true → t.left = .act a f →
        Allowed g t.task a ch c.state ∧
        (t.task = .cron → ∀ k, Delivering c k → Leaves g a k c.state)
  | _ => True

/-- What happens to the state when no process acts. -/
structure Rests (s s' : World) : Prop where
  transactions : s'.transactions = s.transactions
  blockTracker : s'.blockTracker = s.blockTracker
  queue : ∀ m ∈ s'.queue, m ∈ s.queue
  published : s'.published = s.published
  sent : s'.sent = s.sent
  accountNonce : ∀ c w, s.accountNonce c w ≤ s'.accountNonce c w

theorem Rests.inv (hr : Rests s s') (hI : Inv d g s) : Inv d g s' where
  unique := hr.transactions ▸ hI.unique
  queued m hm := hr.transactions ▸ hI.queued m (hr.queue m hm)
  published m hm := hr.transactions ▸ hI.published m (hr.published ▸ hm)
  fits _ _ h := (hI.fits _ _ (hr.transactions ▸ h)).later (fun _ hb => hr.sent ▸ hb) hr.accountNonce
  tracked chain hchain relayer n hn := hI.tracked chain hchain relayer n (hr.blockTracker ▸ hn)

theorem Rests.persists (hr : Rests s s') : Persists s s' where
  row _ r h := ⟨r, hr.transactions ▸ h, .refl r⟩
  sent _ hb := hr.sent ▸ hb
  cursor _ n hn := ⟨n, hr.blockTracker ▸ hn, Int.le_refl n⟩
  accountNonce := hr.accountNonce

theorem Rests.rely (hr : Rests s s') (t : Task) : (contract d g t).rely s s' := by
  cases t with
  | scan chain | sweep pages | cron => exact hr.persists
  | delivery m again =>
      refine ⟨hr.persists, fun _ i r r' h _ h' => ?_⟩
      rw [hr.transactions, h] at h'
      obtain rfl := Option.some.inj h'
      exact .refl g r

/-- Starting a task takes at most a message from the queue. -/
theorem Rests.start (h : Task.start d t s = some s') : Rests s s' := by
  cases t with
  | scan chain =>
      simp only [Task.start, Option.ite_none_right_eq_some] at h
      obtain rfl := Option.some.inj h.2
      exact ⟨rfl, rfl, fun _ h => h, rfl, rfl, fun _ _ => Nat.le_refl _⟩
  | sweep pages | cron =>
      obtain rfl := Option.some.inj h
      exact ⟨rfl, rfl, fun _ h => h, rfl, rfl, fun _ _ => Nat.le_refl _⟩
  | delivery m again =>
      cases again with
      | true =>
          simp only [Task.start, Option.ite_none_right_eq_some] at h
          obtain rfl := Option.some.inj h.2
          exact ⟨rfl, rfl, fun _ h => h, rfl, rfl, fun _ _ => Nat.le_refl _⟩
      | false =>
          simp only [Task.start, Option.ite_none_right_eq_some] at h
          obtain rfl := Option.some.inj h.2
          exact ⟨rfl, rfl, fun _ h => List.mem_of_mem_erase h, rfl, rfl, fun _ _ => Nat.le_refl _⟩

theorem Rests.env {e : Env} (h : env e s = some s') : Rests s s' := by
  cases e with
  | tick micros =>
      obtain rfl := Option.some.inj h
      exact ⟨rfl, rfl, fun _ h => h, rfl, rfl, fun _ _ => Nat.le_refl _⟩
  | mine hash receipt =>
      simp only [Ntt.Relayer.env] at h
      split at h
      · cases h
      · rename_i b hfind
        obtain rfl := Option.some.inj h
        refine ⟨rfl, rfl, fun _ h => h, rfl, rfl, fun c w => ?_⟩
        have hmined := List.find?_some hfind
        simp only [decide_eq_true_eq] at hmined
        rcases eq_or_ne c b.chainId with rfl | hc
        · dsimp only
          rw [Function.update_self]
          rcases eq_or_ne w b.wallet with rfl | hw
          · rw [Function.update_self]
            omega
          · rw [Function.update_of_ne hw]
        · dsimp only
          rw [Function.update_of_ne hc]

/-- A message that is delivered has a row. -/
theorem hasKey_of_start {m : RelayMessage} {again : Bool}
    (h : Task.start d (.delivery m again) s = some s') (hI : Inv d g s) :
    HasKey s.transactions m.key := by
  cases again with
  | true =>
      simp only [Task.start, Option.ite_none_right_eq_some] at h
      exact hI.published m h.1
  | false =>
      simp only [Task.start, Option.ite_none_right_eq_some] at h
      exact hI.queued m h.1

/-- A task obeys its contract from its start. -/
theorem body_obeys (h : Task.start d t s = some s') (hI : Inv d g s) (hI' : Inv d g s') :
    (Task.body t : Prog d Unit).Obeys (contract d g t) (fun _ => (contract d g t).final) [] s' := by
  cases t with
  | scan chain =>
      simp only [Task.start, Option.ite_none_right_eq_some] at h
      exact scanChainOnce_obeys h.1
  | sweep pages => exact republishPending_obeys hI'
  | cron => exact cronTick_obeys
  | delivery m again =>
      exact processDelivery_obeys ((Rests.start h).transactions ▸ hasKey_of_start h hI)

theorem allows_of_allowed (h : Allowed g t a ch s) : (contract d g t).allows a ch s := by
  cases t with
  | scan chain | sweep pages => trivial
  | delivery m again | cron => exact h

/-- **The contracts fit together.** -/
theorem disciplined (d : Deployment) (g : Regime) :
    Disciplined (bot d) (contract d g) g.kept g.Meets where
  body h hI hI' := body_obeys h hI hI'
  start h hI := ⟨(Rests.start h).inv hI, (Rests.start h).rely⟩
  env h hI := ⟨(Rests.env h).inv hI, (Rests.env h).rely⟩
  lose := by
    intro c i t l hc ht hl hk
    cases l with
    | message k => exact (hc t ht).1 hk k hl
    | leader => exact (hc t ht).2 hk hl
  act := by
    intro c i ch t a f r s' ht hv ha hc hI hg hp
    obtain ⟨hallow, hleaves⟩ := hc t a f ht hv ha
    have he := effect_of hp
    refine ⟨allows_of_allowed hallow, hI.perform he hg hallow, fun j t' ht' hv' hlock => ?_⟩
    refine rely_of_effect he hg (fun hl k => hlock (.message k) hl) fun m again htask hcron => ?_
    exact hleaves hcron m.key ⟨j, t', m, again, ht', hv', htask, rfl⟩

theorem Inv.init : Inv d g World.init where
  unique := fun _ _ _ _ h => by simp [World.init] at h
  queued := fun _ h => by simp [World.init] at h
  published := fun _ h => by simp [World.init] at h
  fits := fun _ _ h => by simp [World.init] at h
  tracked := fun _ _ _ _ h => by simp [World.init] at h

/-- **Induction on a run of the bot**, in the regime of the run. -/
theorem run_induction {cond : Config (bot d) → Event (bot d) → Prop}
    (hmeets : ∀ c e, cond c e → g.Meets c e) {J : Config (bot d) → Prop}
    {es : List (Event (bot d))} (hinit : J d.init)
    (hstep : ∀ c e c', Sound (contract d g) g.kept c → J c → cond c e → Step c e c' → J c')
    (hes : (machine (bot d)).Along cond d.init es) :
    Sound (contract d g) g.kept (d.run es) ∧ J (d.run es) :=
  ((disciplined d g).mono hmeets).always hstep (.init .init) hinit hes

/-- What a step does to the state persists. -/
theorem persists_step {c c' : Config (bot d)} {e : Event (bot d)} (h : Step c e c') :
    Persists c.state c'.state := by
  cases h with
  | start _ hs => exact (Rests.start hs).persists
  | act _ _ _ hp => exact (effect_of hp).persists
  | crash | lose => exact .refl _
  | env hs => exact (Rests.env hs).persists

/-- A row is inserted as a pending one. -/
theorem pending_step {c c' : Config (bot d)} {e : Event (bot d)} (h : Step c e c')
    (hnone : c.state.transactions[i]? = none) (hr : c'.state.transactions[i]? = some r) :
    r.status = .pending := by
  have hstay : c.state.transactions[i]? = some r → r.status = .pending := by
    intro hr
    rw [hnone] at hr
    cases hr
  cases h with
  | start _ hs => exact hstay ((Rests.start hs).transactions ▸ hr)
  | act _ _ _ hp =>
      rcases (effect_of hp).source hr with ⟨q, hq, -⟩ | ⟨-, input, -, rfl⟩
      · rw [hnone] at hq
        cases hq
      · rfl
  | crash | lose => exact hstay hr
  | env hs => exact hstay ((Rests.env hs).transactions ▸ hr)

theorem persists_run (d : Deployment) (es es' : List (Event (bot d))) :
    Persists (d.run es).state (d.run (es ++ es')).state := by
  rw [Deployment.run, Deployment.run, Transducer.run_append]
  let kept (c : Config (bot d)) : Prop := Persists (d.run es).state c.state
  have hinit : kept (d.run es) := .refl _
  have hnext : ∀ c e, kept c → True → kept ((machine (bot d)).next c e) := by
    intro c e hp _
    rcases next_cases c e with h | h
    · rw [h]
      exact hp
    · exact hp.trans (persists_step h)
  exact Transducer.run_inv hnext hinit Transducer.along_true

end Ntt.Relayer
