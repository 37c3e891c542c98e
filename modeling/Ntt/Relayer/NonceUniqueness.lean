import Ntt.Relayer.Discipline

/-!
# No Two Live Rows with One Nonce

A reservation avoids the nonces of the rows that are counted, which a failed row is not: it keeps
its nonce, but relies on the chain's nonce to stand above it. A chain nonce that was fetched before
the failure does not, and then a failed row that is confirmed later is counted again, with a nonce
that another row has got by then.

## Main results

* `OneOccupant.effect`: what an action does to the nonces that counted and failed rows keep.
* `nonces_unique`: no two counted rows hold the same nonce, in every run in which no reservation
  works with a chain nonce that a failed row is above.
-/

namespace Ntt.Relayer

open Interleaving TransactionsRepo

variable {d : Deployment} {s s' : World}

/-! ### The runs at hand -/

/-- Another failed row of the wallet and chain keeps a nonce that is not below the chain's. -/
def staleFor (rows : List Row) (id : ℕ) (chainId : ChainId) (wallet : Hex) (chainNonce : ℕ) : Bool :=
  (records rows).any fun rec => rec.id ≠ id && rec.status = .failed &&
    rec.destinationChainId = chainId && rec.walletUsed = some wallet &&
    rec.nonceUsed.any (chainNonce ≤ ·)

/-- A nonce is reserved with a stale chain nonce. -/
def reservesStale (c : Config (bot d)) : Event (bot d) → Bool
  | .act i (.wallet (some w)) =>
      match next c i with
      | some (_, .reserve id chainId nonces) => staleFor c.state.transactions id chainId w (nonces w)
      | _ => false
  | _ => false

/-- The lock of a message is exclusive, and no reservation is stale. -/
def Fresh (c : Config (bot d)) (e : Event (bot d)) : Prop :=
  losesMessageLock c e = false ∧ reservesStale c e = false

instance (c : Config (bot d)) (e : Event (bot d)) : Decidable (Fresh c e) :=
  inferInstanceAs (Decidable (_ ∧ _))

/-- The regime in which the lock of a message is exclusive. -/
def Regime.exclusive : Regime := ⟨True, False, False, False, False⟩

theorem Regime.meets_exclusive {c : Config (bot d)} {e : Event (bot d)}
    (h : losesMessageLock c e = false) : Regime.exclusive.Meets c e := by
  cases e with
  | start | crash | env => trivial
  | lose i => exact fun t ht => ⟨fun _ k => losesMessageLock_eq_false h ht k, False.elim⟩
  | act i ch =>
      exact fun t a f _ _ _ => ⟨⟨False.elim, False.elim⟩, fun _ k _ => ⟨False.elim, False.elim⟩⟩

theorem staleFor_eq_false {rows : List Row} {id : ℕ} {c : ChainId} {w : Hex} {chainNonce : ℕ}
    (h : staleFor rows id c w chainNonce = false) {j : ℕ} {r : Row} (hr : rows[j]? = some r)
    (hj : j ≠ id) (hst : r.status = .failed) (hc : r.destinationChainId = c) {n : ℕ}
    (hh : r.Holds w n) : n < chainNonce := by
  have hmem : rowToRecord j r ∈ records rows := mem_records.mpr hr
  have hfalse := List.any_eq_false.mp h _ hmem
  simpa [rowToRecord, hj, hst, hc, hh.1, hh.2] using hfalse

/-! ### Occupants -/

/-- The row keeps a nonce of a wallet on a chain: it is counted, or failed. -/
structure Row.Occupies (c : ChainId) (w : Hex) (n : ℕ) (r : Row) : Prop where
  status : r.status.counted = true ∨ r.status = .failed
  chainId : r.destinationChainId = c
  holds : r.Holds w n

/-- No two rows keep the same nonce. -/
def OneOccupant (rows : List Row) : Prop :=
  ∀ (c : ChainId) (w : Hex) (n i j : ℕ) (r r' : Row), rows[i]? = some r → rows[j]? = some r' →
    r.Occupies c w n → r'.Occupies c w n → i = j

/-- No other row keeps the nonce. -/
def Free (rows : List Row) (id : ℕ) (c : ChainId) (w : Hex) (n : ℕ) : Prop :=
  ∀ (j : ℕ) (r : Row), j ≠ id → rows[j]? = some r → ¬ r.Occupies c w n

/-- **A reserved nonce** is kept by no other row, unless the chain's is stale. -/
theorem free_reserveNonce {rows : List Row} {id : ℕ} {c : ChainId} {w : Hex} {chainNonce : ℕ}
    (hfresh : staleFor rows id c w chainNonce = false) :
    Free rows id c w (reserveNonce rows w c chainNonce) := by
  intro j r hj hr ⟨hst, hc, hh⟩
  rcases hst with hst | hst
  · refine reserveNonce_not_mem rows w c chainNonce (mem_committedNonces.mpr ?_)
    refine ⟨r, List.mem_of_getElem? hr, ?_, hh.2⟩
    simp [Row.countedFor, hh.1, hc, hst]
  · have hlt := staleFor_eq_false hfresh hr hj hst hc hh
    have hle := le_reserveNonce rows w c chainNonce
    omega

theorem keptNonce_eq_some {r : Row} {n : ℕ} (h : keptNonce r = some n) : r.nonceUsed = some n := by
  rw [keptNonce] at h
  split at h
  · cases h
  · exact h

/-- A row that is not ended and holds a nonce keeps it, since a pending row holds none. -/
theorem Row.Fits.occupies {g : Regime} {i : ℕ} {r : Row} (hf : r.Fits g s i)
    (hnt : r.status.terminal = false) {w : Hex} {n : ℕ} (hh : r.Holds w n) :
    r.Occupies r.destinationChainId w n := by
  refine ⟨?_, rfl, hh⟩
  cases hst : r.status with
  | pending =>
      have hnone := (hf.pending hst).2.1
      rw [hh.2] at hnone
      cases hnone
  | submitting | submitted => exact .inl rfl
  | failed => exact .inr rfl
  | confirmed | deadLetter => simp [hst, TxStatus.terminal] at hnt

/-- An update leaves a row the nonce that it has, or takes one that is free. -/
theorem occupies_edit {t : Task} {a : Act} {ch : Choice} {reply : a.Reply} {past : Past (atomics d)}
    {i : ℕ} {r r' : Row} (hI : Inv d .exclusive s) (hp : perform d a ch s = some (reply, s'))
    (hr : s.transactions[i]? = some r) (he : Edit s a reply i r r')
    (hg : (contract d .exclusive t).guard past a s)
    (hfresh : ∀ chainId nonces w, a = .reserve i chainId nonces → ch = .wallet (some w) →
      staleFor s.transactions i chainId w (nonces w) = false)
    {c : ChainId} {w : Hex} {n : ℕ} (ho : r'.Occupies c w n) :
    r.Occupies c w n ∨ Free s.transactions i c w n := by
  have hf := hI.fits i r hr
  have hnt := he.not_terminal
  cases he with
  | @reserve _ c' nonces w' _ hst =>
      obtain ⟨-, rfl, hw, hn⟩ := ho
      obtain rfl : w' = w := Option.some.inj hw
      obtain rfl := Option.some.inj hn
      rcases perform_reserve hp with ⟨w₀, -, rfl, -, -, -, hok, -⟩ | ⟨⟨err, herr⟩, -⟩
      · obtain rfl : w' = w₀ := congrArg Lease.address (Except.ok.inj hok)
        have hdest : c' = r.destinationChainId := by
          cases t with
          | delivery m again =>
              obtain ⟨-, r₀, hr₀, -, hdest⟩ := hg
              obtain rfl := Option.some.inj (hr.symm.trans hr₀)
              exact hdest
          | cron => exact absurd hg.2 id
          | scan chain | sweep pages => exact absurd hg id
        subst hdest
        exact .inr (free_reserveNonce (hfresh _ _ _ rfl rfl))
      · cases herr
  | @markSubmitted _ h w' n' _ hst =>
      obtain ⟨-, rfl, hw, hn⟩ := ho
      obtain rfl : w' = w := Option.some.inj hw
      obtain rfl : n' = n := Option.some.inj hn
      have hold : r.Holds w' n' := by
        cases t with
        | delivery m again =>
            obtain ⟨-, r₀, hr₀, -, -, hown⟩ := hg
            obtain rfl := Option.some.inj (hr.symm.trans hr₀)
            rcases hown trivial with hterm | ⟨hold, -⟩
            · rw [hterm] at hnt
              cases hnt
            · exact hold
        | cron => exact absurd hg.2 id
        | scan chain | sweep pages => exact absurd hg id
      exact .inl (hf.occupies hnt hold)
  | markConfirmed hst =>
      obtain ⟨-, rfl, hw, hn⟩ := ho
      exact .inl (hf.occupies hnt ⟨hw, keptNonce_eq_some hn⟩)
  | touch | incrementRetry => exact .inl ⟨ho.status, ho.chainId, ho.holds⟩
  | markFailed hst =>
      obtain ⟨-, rfl, hw, hn⟩ := ho
      exact .inl (hf.occupies hnt ⟨hw, hn⟩)
  | markDeadLetter =>
      rcases ho.status with h | h
      · cases h
      · cases h

/-- **One action.** -/
theorem OneOccupant.effect {t : Task} {a : Act} {ch : Choice} {reply : a.Reply}
    {past : Past (atomics d)} (h : OneOccupant s.transactions) (hI : Inv d .exclusive s)
    (hp : perform d a ch s = some (reply, s')) (hg : (contract d .exclusive t).guard past a s)
    (hfresh : ∀ id chainId nonces w, a = .reserve id chainId nonces → ch = .wallet (some w) →
      staleFor s.transactions id chainId w (nonces w) = false) :
    OneOccupant s'.transactions := by
  intro c w n i j r' q' hr' hq' ho ho'
  have he := perform_effect hp
  -- a row that was inserted holds nothing
  have hnew : ∀ {input}, ¬ (pendingRow s.clock input).Occupies c w n := by
    intro input ho
    cases ho.holds.2
  have hedit {i : ℕ} {r r' : Row} (hr : s.transactions[i]? = some r) (he : Edit s a reply i r r')
      (ho : r'.Occupies c w n) : r.Occupies c w n ∨ Free s.transactions i c w n :=
    occupies_edit hI hp hr he hg (hfresh i) ho
  rcases he.source hr' with ⟨r, hr, hcase⟩ | ⟨-, input, -, rfl⟩
  · rcases he.source hq' with ⟨q, hq, hcase'⟩ | ⟨-, input, -, rfl⟩
    · by_contra hne
      rcases hcase with rfl | hre <;> rcases hcase' with rfl | hqe
      · exact hne (h c w n i j r' q' hr hq ho ho')
      · rcases hedit hq hqe ho' with hold | hfree
        · exact hne (h c w n i j r' q hr hq ho hold)
        · exact hfree i r' hne hr ho
      · rcases hedit hr hre ho with hold | hfree
        · exact hne (h c w n i j r q' hr hq hold ho')
        · exact hfree j q' (Ne.symm hne) hq ho'
      · exact hne (Option.some.inj (hre.updates.symm.trans hqe.updates))
    · exact absurd ho' hnew
  · exact absurd ho hnew

/-- After every run in which no reservation is stale, no two rows keep the same nonce. -/
theorem oneOccupant_run (d : Deployment) {es : List (Event (bot d))}
    (hes : (machine (bot d)).Along Fresh d.init es) : OneOccupant (d.run es).state.transactions := by
  refine (run_induction (J := fun c => OneOccupant c.state.transactions)
    (fun c e (h : Fresh c e) => Regime.meets_exclusive h.1) ?_ ?_ hes).2
  · intro c w n i j r r' hr
    simp [Deployment.init, World.init] at hr
  · intro c e c' hs hJ hfresh hstep
    cases hstep with
    | start _ hstart => exact (Rests.start hstart).transactions ▸ hJ
    | crash | lose => exact hJ
    | env henv => exact (Rests.env henv).transactions ▸ hJ
    | act ht hv ha hp =>
        refine hJ.effect hs.inv hp (hs.guard ht hv ha) ?_
        rintro id chainId nonces w rfl rfl
        simpa only [reservesStale, next_eq_some ht hv ha] using hfresh.2

/-- **Nonces are unique** among the rows whose nonces are counted, in every run in which no
reservation is stale; a failed row shares its nonce with none of them; and no reservation ever takes
the nonce of one. -/
theorem nonces_unique (d : Deployment) (es : List (Event (bot d)))
    (hes : (machine (bot d)).Along Fresh d.init es) :
    (∀ (i j : ℕ) (r r' : Row) (w : Hex) (n : ℕ), (d.run es).state.transactions[i]? = some r →
      (d.run es).state.transactions[j]? = some r' → r.status.counted = true →
      r'.status.counted = true ∨ r'.status = .failed →
      r.destinationChainId = r'.destinationChainId → r.Holds w n → r'.Holds w n → i = j) ∧
    ∀ (w : Hex) (c : ChainId) (chainNonce : ℕ),
      reserveNonce (d.run es).state.transactions w c chainNonce ∉
        committedNonces (d.run es).state.transactions w c := by
  refine ⟨?_, fun w c chainNonce => reserveNonce_not_mem _ w c chainNonce⟩
  intro i j r r' w n hr hr' hst hst' hdest hh hh'
  exact oneOccupant_run d hes r.destinationChainId w n i j r r' hr hr' ⟨.inl hst, rfl, hh⟩
    ⟨hst', hdest.symm, hh'⟩

/-! ### A reservation with a stale chain nonce -/

section

open Sample

/-- A deployment with two requests in two transactions. -/
abbrev pair : Deployment := deployment [[7], [8]]

/-- The first request is delivered, while the delivery of the second one has fetched the chain's
nonces and not yet reserved; the transaction reverts, and the cron fails the row. -/
def outrun : List (Event (bot pair)) :=
  scanned [[7], [8]] ++ [
    .start (.delivery (message [8] 1) false), .act 1 .only, .act 1 (.prepared (.ok .ready)),
    .act 1 (.nonces (.ok fun _ => 0)),
    .start (.delivery (message [7] 0) false), .act 2 .only, .act 2 (.prepared (.ok .ready)),
    .act 2 (.nonces (.ok fun _ => 0)), .act 2 (.wallet (some wallet)),
    .act 2 (.sends true [11] none), .act 2 .only, .act 2 .only,
    .env (.mine [11] ⟨false, none, none⟩), .env (.tick 301000000),
    .start .cron, .act 3 .only, .act 3 (.scan [0, 1]), .act 3 .only, .act 3 (.scan [0, 1]),
    .act 3 (.scan [0, 1]), .act 3 (.scan [0, 1]), .act 3 (.seen true), .act 3 .only, .act 3 .only]

/-- The second row gets the nonce that the first one keeps, and the first one is confirmed when its
message is delivered again, since somebody else has delivered its VAA. -/
def shared : List (Event (bot pair)) :=
  outrun ++ [.act 1 (.wallet (some wallet)),
    .start (.delivery { message [7] 0 with retryCount := 1 } false), .act 4 .only,
    .act 4 (.prepared (.ok .alreadyConsumed)), .act 4 .only]

theorem nonces_unique_outrun :
    (∀ (i j : ℕ) (r r' : Row) (w : Hex) (n : ℕ), (pair.run outrun).state.transactions[i]? = some r →
      (pair.run outrun).state.transactions[j]? = some r' → r.status.counted = true →
      r'.status.counted = true ∨ r'.status = .failed →
      r.destinationChainId = r'.destinationChainId → r.Holds w n → r'.Holds w n → i = j) ∧
    ∀ (w : Hex) (c : ChainId) (chainNonce : ℕ),
      reserveNonce (pair.run outrun).state.transactions w c chainNonce ∉
        committedNonces (pair.run outrun).state.transactions w c :=
  nonces_unique pair outrun (by decide +kernel)

/-- Two counted rows hold one nonce. -/
theorem nonce_shared : ∃ es : List (Event (bot pair)),
    (machine (bot pair)).Along (fun c e => losesMessageLock c e = false) pair.init es ∧
    ∃ (r r' : Row) (w : Hex) (n : ℕ), (pair.run es).state.transactions[0]? = some r ∧
      (pair.run es).state.transactions[1]? = some r' ∧ r.status.counted = true ∧
      r'.status.counted = true ∧ r.destinationChainId = r'.destinationChainId ∧ r.Holds w n ∧
      r'.Holds w n := by
  have hrow : ((pair.run shared).state.transactions[0]?).map
      (fun r => (r.status, r.destinationChainId, r.walletUsed, r.nonceUsed)) =
        some (.confirmed, 4, some wallet, some 0) := by
    decide +kernel
  have hrow' : ((pair.run shared).state.transactions[1]?).map
      (fun r => (r.status, r.destinationChainId, r.walletUsed, r.nonceUsed)) =
        some (.submitting, 4, some wallet, some 0) := by
    decide +kernel
  obtain ⟨r, hr, hval⟩ := Option.map_eq_some_iff.mp hrow
  obtain ⟨r', hr', hval'⟩ := Option.map_eq_some_iff.mp hrow'
  simp only [Prod.mk.injEq] at hval hval'
  refine ⟨shared, by decide +kernel, r, r', wallet, 0, hr, hr', ?_, ?_, ?_, hval.2.2, hval'.2.2⟩
  · rw [hval.1]
    rfl
  · rw [hval'.1]
    rfl
  · rw [hval.2.1, hval'.2.1]

end

end Ntt.Relayer
