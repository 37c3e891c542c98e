import Ntt.Relayer.NonceUniqueness

/-!
# Which Nonces an Ended Row Keeps

A row that is confirmed or dead-lettered keeps its nonce if it has a transaction hash, which is
taken to mean that the nonce was broadcast. The hash is that of the last transaction that was
recorded: an answer that was lost, or a crash, leaves a broadcast without one, and the hash of a
failed attempt is still there when a new nonce is reserved.

## Main results

* `nonce_accounting`: in every run in which rows are ended only while their hash is that of what was
  sent last and no reservation works with a chain nonce that misses a pending transaction, an ended
  row keeps its nonce if and only if it was broadcast, and no nonce of a pending transaction is
  handed out again.
-/

namespace Ntt.Relayer

open Interleaving TransactionsRepo

variable {d : Deployment} {s s' : World}

/-! ### The runs at hand -/

/-- The hash of a row does not tell what was handed to the chain for it: it has none but something
was handed out, or it has the one of an earlier attempt; or it is under delivery by somebody else. -/
def unaccounted (c : Config (bot d)) (t : Task) (id : ℕ) (r : Row) : Bool :=
  (r.relayTxHash.isNone && c.state.sent.any (·.id = id)) ||
    (r.relayTxHash.isSome && r.status = .submitting) || (t = .cron && underDelivery c r.key)

/-- A row is ended while its hash does not tell what was handed to the chain. -/
def endsUnaccounted (c : Config (bot d)) : Event (bot d) → Bool
  | .act i _ =>
      match next c i with
      | some (t, .markConfirmed id) | some (t, .markDeadLetter id _) =>
          (c.state.transactions[id]?).any fun r => !r.status.terminal && unaccounted c t id r
      | _ => false
  | _ => false

/-- A transaction of another row with a wallet is not mined, at a nonce that is neither below the
chain's nor counted. -/
def missesPending (s : World) (id : ℕ) (chainId : ChainId) (wallet : Hex) (chainNonce : ℕ) : Bool :=
  s.sent.any fun b => b.id ≠ id && b.chainId = chainId && b.wallet = wallet &&
    s.accountNonce chainId wallet ≤ b.nonce && chainNonce ≤ b.nonce &&
    b.nonce ∉ committedNonces s.transactions wallet chainId

/-- A nonce is reserved with a chain nonce that misses a pending transaction. -/
def reservesPending (c : Config (bot d)) : Event (bot d) → Bool
  | .act i (.wallet (some w)) =>
      match next c i with
      | some (_, .reserve id chainId nonces) => missesPending c.state id chainId w (nonces w)
      | _ => false
  | _ => false

/-- The lock of a message is exclusive, rows are ended as their hash tells, and reservations know
of pending transactions. -/
def Accounted (c : Config (bot d)) (e : Event (bot d)) : Prop :=
  losesMessageLock c e = false ∧ endsUnaccounted c e = false ∧ reservesPending c e = false

instance (c : Config (bot d)) (e : Event (bot d)) : Decidable (Accounted c e) :=
  inferInstanceAs (Decidable (_ ∧ _ ∧ _))

/-- The regime of these runs. -/
def Regime.accounted : Regime := ⟨True, False, True, False, False⟩

theorem unaccounted_eq_false {c : Config (bot d)} {i : ℕ} {t : Thread (bot d)} {a : Act}
    {f : a.Reply → Prog d Unit} {ch : Choice} (h : endsUnaccounted c (.act i ch) = false)
    (ht : c.threads[i]? = some t) (hv : t.alive = true) (ha : t.left = .act a f) {id : ℕ}
    (hid : a.ends = some id) {r : Row} (hr : c.state.transactions[id]? = some r)
    (hnt : r.status.terminal = false) : unaccounted c t.task id r = false := by
  have hnext := next_eq_some ht hv ha
  cases a
  case markConfirmed id' | markDeadLetter id' msg =>
    obtain rfl := Option.some.inj hid
    simpa only [endsUnaccounted, hnext, hr, Option.any_some, hnt, Bool.not_false, Bool.true_and]
      using h
  all_goals cases hid

theorem Accounted.meets {c : Config (bot d)} {e : Event (bot d)} (h : Accounted c e) :
    Regime.accounted.Meets c e := by
  obtain ⟨hlose, hend, -⟩ := h
  cases e with
  | start | crash | env => trivial
  | lose i => exact fun t ht => ⟨fun _ k => losesMessageLock_eq_false hlose ht k, False.elim⟩
  | act i ch =>
      intro t a f ht hv ha
      refine ⟨⟨False.elim, False.elim⟩, fun htask k hk => ⟨False.elim, fun _ => ?_⟩⟩
      rintro id r hr rfl hnt hid
      have hnot := unaccounted_eq_false hend ht hv ha hid hr hnt
      obtain ⟨j, t', m, again, ht', hv', htask', hkey⟩ := hk
      refine underDelivery_eq_false ?_ ht' hv' htask' hkey
      simpa [unaccounted, htask] using (Bool.or_eq_false_iff.mp hnot).2

/-! ### Ended rows -/

/-- The chain was handed a transaction for the row with the wallet and the nonce that it held. -/
def Handed (s : World) (i : ℕ) (r : Row) : Prop :=
  ∃ w n h, r.Holds w n ∧ ⟨r.destinationChainId, w, n, h, i⟩ ∈ s.sent

/-- **The end of a row.** It keeps its nonce if and only if the nonce was handed to the chain. -/
theorem keptNonce_iff {g : Regime} {c : Config (bot d)} {t : Task} {i : ℕ} {r : Row}
    (hf : r.Fits g c.state i) (hnt : r.status.terminal = false)
    (hacc : unaccounted c t i r = false) :
    (keptNonce r).isSome = true ↔ Handed c.state i r := by
  cases hh : r.relayTxHash with
  | none =>
      -- nothing was handed to the chain for the row
      have hsent : c.state.sent.any (·.id = i) = false := by
        simp only [unaccounted, hh, Option.isNone_none, Bool.true_and, Bool.or_eq_false_iff] at hacc
        exact hacc.1.1
      simp only [keptNonce, hh, Option.isNone_none, if_true, Option.isSome_none, Bool.false_eq_true,
        false_iff]
      rintro ⟨w, n, h, -, hmem⟩
      simpa using List.any_eq_false.mp hsent _ hmem
  | some h =>
      have hst : r.status ≠ .submitting := by
        intro hst
        simp [unaccounted, hh, hst] at hacc
      -- the hash is the one of the nonce that the row holds
      have hsent : ∃ w n, r.Holds w n ∧ ⟨r.destinationChainId, w, n, h, i⟩ ∈ c.state.sent := by
        refine hf.sent ?_ h hh
        cases hst' : r.status with
        | pending =>
            have hnone := (hf.pending hst').2.2
            rw [hh] at hnone
            cases hnone
        | submitting => exact absurd hst' hst
        | submitted => exact .inl rfl
        | failed => exact .inr rfl
        | confirmed | deadLetter => simp [hst', TxStatus.terminal] at hnt
      obtain ⟨w, n, hold, hmem⟩ := hsent
      constructor
      · exact fun _ => ⟨w, n, h, hold, hmem⟩
      · intro _
        simp [keptNonce, hh, hold.2]

/-- What is known of an ended row: the nonce that it held before it was ended. -/
structure EndedFrom (s : World) (i : ℕ) (r r' : Row) : Prop where
  row : s.transactions[i]? = some r'
  before : r.status.terminal = false
  after : r'.status.terminal = true
  kept : ∀ w n, r'.Holds w n → r.Holds w n
  accounted : r'.nonceUsed.isSome = true ↔ Handed s i r

/-- **The step that ends a row.** -/
theorem endedFrom_step {c c' : Config (bot d)} {e : Event (bot d)}
    (hs : Sound (contract d .accounted) Regime.accounted.kept c) (hacc : Accounted c e)
    (h : Step c e c') {i : ℕ} {r r' : Row} (hr : c.state.transactions[i]? = some r)
    (hr' : c'.state.transactions[i]? = some r') (hnt : r.status.terminal = false)
    (hterm : r'.status.terminal = true) : EndedFrom c'.state i r r' := by
  have hsame : ∀ q, c'.state.transactions[i]? = some q → q.status.terminal = true := by
    intro q hq
    obtain rfl := Option.some.inj (hr'.symm.trans hq)
    exact hterm
  have hstay : c'.state.transactions[i]? = some r → False := by
    intro hq
    rw [hsame r hq] at hnt
    cases hnt
  cases h with
  | start _ hstart => exact (hstay ((Rests.start hstart).transactions ▸ hr)).elim
  | crash | lose => exact (hstay hr).elim
  | env henv => exact (hstay ((Rests.env henv).transactions ▸ hr)).elim
  | act ht hv ha hp =>
      have hf := hs.inv.fits i r hr
      have he := effect_of hp
      obtain ⟨q, hq, rfl | hedit⟩ := he.row hr
      · exact (hstay hq).elim
      · obtain rfl := Option.some.inj (hr'.symm.trans hq)
        obtain ⟨hid, hw, hn⟩ := hedit.ends hterm
        have hnot := unaccounted_eq_false hacc.2.1 ht hv ha hid hr hnt
        have hiff := keptNonce_iff hf hnt hnot
        refine ⟨hr', hnt, hterm, fun w n hold => ⟨hw ▸ hold.1, ?_⟩, ?_⟩
        · exact keptNonce_eq_some (hn ▸ hold.2)
        · rw [hn, hiff]
          rcases he.sent_cases with hsent | ⟨id, c, w, n, hash, rfl, -⟩
          · simp only [Handed, hsent]
          · cases hid

/-- Nothing is handed to the chain for a row that has ended. -/
theorem handed_step {c c' : Config (bot d)} {e : Event (bot d)}
    (hs : Sound (contract d .accounted) Regime.accounted.kept c) (h : Step c e c') {i : ℕ}
    {r r' : Row} (hr' : c.state.transactions[i]? = some r') (hterm : r'.status.terminal = true) :
    Handed c'.state i r ↔ Handed c.state i r := by
  refine ⟨?_, fun ⟨w, n, h', hold, hmem⟩ => ⟨w, n, h', hold, (persists_step h).sent _ hmem⟩⟩
  rintro ⟨w, n, h', hold, hmem⟩
  cases h with
  | start _ hstart => exact ⟨w, n, h', hold, (Rests.start hstart).sent ▸ hmem⟩
  | crash | lose => exact ⟨w, n, h', hold, hmem⟩
  | env henv => exact ⟨w, n, h', hold, (Rests.env henv).sent ▸ hmem⟩
  | @act k t a f ch reply s' ht hv ha hp =>
      rcases (effect_of hp).sent_cases with hsent | ⟨id, c₀, w₀, n₀, hash, rfl, hsent⟩
      · exact ⟨w, n, h', hold, hsent ▸ hmem⟩
      · have hmem' : _ ∈ s'.sent := hmem
        rw [hsent] at hmem'
        rcases List.mem_cons.mp hmem' with heq | hold'
        · -- a broadcast is for a row that has not ended
          obtain rfl : i = id := congrArg Broadcast.id heq
          have hg := hs.guard ht hv ha
          cases htask : t.task with
          | delivery m again =>
              rw [htask] at hg
              obtain ⟨-, -, r₀, hr₀, -, -, hknown⟩ := hg
              obtain rfl := Option.some.inj (hr'.symm.trans hr₀)
              rcases hknown trivial with ⟨-, hne⟩ | ⟨hnt, -⟩
              · exact absurd trivial hne
              · rw [hterm] at hnt
                cases hnt
          | cron =>
              rw [htask] at hg
              exact absurd hg.2 id
          | scan chain | sweep pages =>
              rw [htask] at hg
              exact absurd hg id
        · exact ⟨w, n, h', hold, hold'⟩

theorem EndedFrom.step {c c' : Config (bot d)} {e : Event (bot d)}
    (hs : Sound (contract d .accounted) Regime.accounted.kept c) (h : Step c e c') {i : ℕ}
    {r r' : Row} (hend : EndedFrom c.state i r r') : EndedFrom c'.state i r r' := by
  obtain ⟨q, hq, hsame⟩ := (persists_step h).row i r' hend.row
  obtain rfl := hsame.terminal hend.after
  exact ⟨hq, hend.before, hend.after, hend.kept,
    hend.accounted.trans (handed_step hs h hend.row hend.after).symm⟩

/-- Every row that has ended was ended by a step of the run. -/
theorem exists_endedFrom (d : Deployment) {es : List (Event (bot d))}
    (hes : (machine (bot d)).Along Accounted d.init es) {i : ℕ} {r' : Row}
    (hr' : (d.run es).state.transactions[i]? = some r') (hterm : r'.status.terminal = true) :
    ∃ before e after r, es = before ++ e :: after ∧
      (d.run before).state.transactions[i]? = some r ∧
      (d.run (before ++ [e])).state.transactions[i]? = some r' ∧
      EndedFrom (d.run es).state i r r' := by
  induction es using List.reverseRecOn with
  | nil => simp [Deployment.run, Transducer.run, Deployment.init, World.init] at hr'
  | append_singleton es e ih =>
      obtain ⟨hbefore, hacc, -⟩ := Transducer.along_append.mp hes
      have hs := (disciplined d .accounted).sound (.init .init) (hbefore.mono fun _ _ h => h.meets)
      have hrun : d.run (es ++ [e]) = (machine (bot d)).next (d.run es) e := by
        rw [Deployment.run, Transducer.run_append]
        rfl
      rw [hrun] at hr' ⊢
      rcases next_cases (d.run es) e with h | h
      · rw [h] at hr' ⊢
        obtain ⟨before, e', after, r, rfl, hr, hafter, hend⟩ := ih hbefore hr'
        exact ⟨before, e', after ++ [e], r, List.append_assoc _ _ _, hr, hafter, hend⟩
      · cases hr : (d.run es).state.transactions[i]? with
        | none =>
            rw [pending_step h hr hr'] at hterm
            cases hterm
        | some r =>
            cases hnt : r.status.terminal with
            | false =>
                refine ⟨es, e, [], r, rfl, hr, ?_, endedFrom_step hs hacc h hr hr' hnt hterm⟩
                rw [hrun]
                exact hr'
            | true =>
                obtain ⟨q, hq, hsame⟩ := (persists_step h).row i r hr
                obtain rfl := hsame.terminal hnt
                obtain rfl := Option.some.inj (hr'.symm.trans hq)
                obtain ⟨before, e', after, r, rfl, hr, hafter, hend⟩ := ih hbefore hr
                exact ⟨before, e', after ++ [e], r, List.append_assoc _ _ _, hr, hafter, hend.step hs h⟩

/-! ### Reservations -/

/-- **A reservation** takes no nonce of another row's transaction that is not mined. -/
theorem reserve_not_pending {id : ℕ} {chainId : ChainId} {nonces : Hex → ℕ} {ch : Choice}
    {lease : Lease}
    (hp : perform d (.reserve id chainId nonces) ch s = some (.ok lease, s'))
    (hmiss : ∀ w, ch = .wallet (some w) → missesPending s id chainId w (nonces w) = false)
    {b : Broadcast} (hb : b ∈ s.sent) (hid : b.id ≠ id) (hchain : b.chainId = chainId)
    (hwallet : b.wallet = lease.address) (hnonce : b.nonce = lease.nonce) :
    b.nonce < s.accountNonce chainId lease.address := by
  rcases perform_reserve hp with ⟨w, r, rfl, -, -, -, hok, -⟩ | ⟨⟨err, herr⟩, -⟩
  · obtain rfl := Except.ok.inj hok
    by_contra hle
    have hno := List.any_eq_false.mp (hmiss w rfl) b hb
    have hfree := reserveNonce_not_mem s.transactions w chainId (nonces w)
    have hlow := le_reserveNonce s.transactions w chainId (nonces w)
    dsimp only at hwallet hnonce hle
    rw [← hnonce] at hfree hlow
    simp only [hid, hchain, hwallet, hfree, hlow, Nat.le_of_not_lt hle, ne_eq, not_false_eq_true,
      decide_true, Bool.and_self, not_true_eq_false] at hno
  · cases herr

/-- **Nonce accounting.** In every accounted run, a row that has ended keeps its nonce if and only
if a transaction with that nonce was handed to the chain for it; and a reservation never takes the
nonce of another row's transaction that is not mined. -/
theorem nonce_accounting (d : Deployment) (es : List (Event (bot d)))
    (hes : (machine (bot d)).Along Accounted d.init es) :
    (∀ (i : ℕ) (r' : Row), (d.run es).state.transactions[i]? = some r' →
      r'.status.terminal = true → ∃ before e after r, es = before ++ e :: after ∧
        (d.run before).state.transactions[i]? = some r ∧
        (d.run (before ++ [e])).state.transactions[i]? = some r' ∧
        EndedFrom (d.run es).state i r r') ∧
    ∀ (before after : List (Event (bot d))) (k : ℕ) (ch : Choice), es = before ++ .act k ch :: after →
      ∀ (t : Task) (id : ℕ) (chainId : ChainId) (nonces : Hex → ℕ) (lease : Lease) (s' : World),
        next (d.run before) k = some (t, .reserve id chainId nonces) →
        perform d (.reserve id chainId nonces) ch (d.run before).state = some (.ok lease, s') →
        ∀ b ∈ (d.run before).state.sent, b.id ≠ id → b.chainId = chainId →
          b.wallet = lease.address → b.nonce = lease.nonce →
            b.nonce < (d.run before).state.accountNonce chainId lease.address := by
  refine ⟨fun i r' hr' hterm => exists_endedFrom d hes hr' hterm, ?_⟩
  rintro before after k ch rfl t id chainId nonces lease s' hnext hp b hb hid hchain hwallet hnonce
  have hacc := (Transducer.along_append.mp hes).2.1
  refine reserve_not_pending hp ?_ hb hid hchain hwallet hnonce
  rintro w rfl
  have hpending := hacc.2.2
  change reservesPending (d.run before) _ = false at hpending
  simpa only [reservesPending, hnext] using hpending

/-! ### A nonce that is never broadcast -/

section

open Sample

/-- The transaction is mined, and the cron confirms the row. -/
def confirmed : List (Event (bot single)) :=
  delivered ++ [.env (.mine [11] ⟨true, none, none⟩), .start .cron, .act 2 .only,
    .act 2 (.scan [0]), .act 2 (.scan [0]), .act 2 (.scan [0]), .act 2 (.scan [0]),
    .act 2 (.seen true), .act 2 .only]

theorem nonce_accounting_confirmed : ∃ before e after r r', confirmed = before ++ e :: after ∧
    (single.run before).state.transactions[0]? = some r ∧
    (single.run (before ++ [e])).state.transactions[0]? = some r' ∧
    EndedFrom (single.run confirmed).state 0 r r' := by
  have hrow : ((single.run confirmed).state.transactions[0]?).map Row.status = some .confirmed := by
    decide +kernel
  obtain ⟨r', hr', hst⟩ := Option.map_eq_some_iff.mp hrow
  have hended := (nonce_accounting single confirmed (by decide +kernel)).1 0 r' hr' (by rw [hst]; rfl)
  obtain ⟨before, e, after, r, h⟩ := hended
  exact ⟨before, e, after, r, r', h⟩

/-- The transaction reverts, and the cron fails the row and publishes its message. -/
def reverted : List (Event (bot single)) :=
  delivered ++ [.env (.mine [11] ⟨false, none, none⟩), .start .cron, .act 2 .only,
    .act 2 (.scan [0]), .act 2 (.scan [0]), .act 2 (.scan [0]), .act 2 (.scan [0]),
    .act 2 (.seen true), .act 2 .only, .act 2 .only]

/-- The next delivery reserves nonce 1 and crashes; when the message is delivered again, somebody
else has delivered the VAA. -/
def crashed : List (Event (bot single)) :=
  reverted ++ [.start (.delivery { message [7] 0 with retryCount := 1 } false), .act 3 .only,
    .act 3 (.prepared (.ok .ready)), .act 3 (.nonces (.ok fun _ => 1)), .act 3 (.wallet (some wallet)),
    .crash 3, .start (.delivery { message [7] 0 with retryCount := 1 } true), .act 4 .only,
    .act 4 (.prepared (.ok .alreadyConsumed)), .act 4 .only]

/-- The row keeps nonce 1, and nothing was handed to the chain with that nonce. -/
theorem nonce_kept_for_nothing : ∃ (es : List (Event (bot single))) (r : Row),
    (machine (bot single)).Along (fun c e => losesMessageLock c e = false) single.init es ∧
      (single.run es).state.transactions[0]? = some r ∧ r.status = .confirmed ∧
      r.Holds wallet 1 ∧ ∀ b ∈ (single.run es).state.sent, b.nonce ≠ 1 := by
  have hrow : ((single.run crashed).state.transactions[0]?).map
      (fun r => (r.status, r.walletUsed, r.nonceUsed)) = some (.confirmed, some wallet, some 1) := by
    decide +kernel
  obtain ⟨r, hr, hval⟩ := Option.map_eq_some_iff.mp hrow
  simp only [Prod.mk.injEq] at hval
  exact ⟨crashed, r, by decide +kernel, hr, hval.1, hval.2, by decide +kernel⟩

end

end Ntt.Relayer
