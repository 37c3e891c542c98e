import Ntt.Relayer.Discipline

/-!
# Events That the Listener Records

A scan writes the rows of its window and moves the cursor in one database transaction, so that
after every run each log at or below the cursor has been through an insertion. The row of a log is
found under the hash of its transaction, and that is where an event gets lost: a second log of the
same transaction finds the row of the first one, and gets none of its own.

## Main results

* `recorded`: after every run, rows are those of logs, and logs have been inserted.
* `no_event_lost_iff`: every log at or below the cursor has a row of its own with its payload, if
  and only if no two of them share a transaction and none lies below the genesis block.
-/

namespace Ntt.Relayer

open Interleaving TransactionsRepo BlockTrackerRepo

variable {d : Deployment} {s s' : World}

/-- The regime of all runs. -/
def Regime.any : Regime := ⟨False, False, False, False, False⟩

theorem Regime.meets_any (c : Config (bot d)) (e : Event (bot d)) (_ : True) :
    Regime.any.Meets c e := by
  cases e with
  | start | crash | env => trivial
  | lose i => exact fun t _ => ⟨False.elim, False.elim⟩
  | act i ch =>
      intro t a f _ _ _
      exact ⟨⟨False.elim, False.elim⟩, fun _ k _ => ⟨False.elim, False.elim⟩⟩

/-! ### Logs and their rows -/

/-- A log of a source chain. -/
structure EmittedLog where
  chain : ChainConfig
  block : ℕ
  log : ExecutionRequested
deriving DecidableEq, Repr

/-- The log is at or below the cursor, and correlates. -/
def Accepted (d : Deployment) (s : World) (l : EmittedLog) (ev : DecodedEvent) : Prop :=
  l.chain ∈ d.chains ∧ ∃ relayer last, l.chain.specialRelayerAddress = some relayer ∧
    s.blockTracker (l.chain.chainId, relayer) = some last ∧ (l.block : ℤ) ≤ last ∧
    Correlates d l.chain relayer l.block l.log ev

/-- The row is the one of the event: its VAA identity, its destination and its gas limit. -/
structure Row.Carries (ev : DecodedEvent) (r : Row) : Prop where
  sourceChainId : r.sourceChainId = ev.sourceChainId
  eventTxHash : r.eventTxHash = ev.eventTxHash
  destinationChainId : r.destinationChainId = ev.destinationChainId
  relayerAddress : r.relayerAddress = ev.relayerAddress
  payload : r.payload = ev.payload

/-- Every log that is accepted has a row with its payload, and no two have the same one. -/
def NoEventLost (d : Deployment) (s : World) : Prop :=
  ∃ rowOf : EmittedLog → ℕ,
    (∀ l ev, Accepted d s l ev → ∃ r, s.transactions[rowOf l]? = some r ∧ r.Carries ev) ∧
    ∀ l ev l' ev', Accepted d s l ev → Accepted d s l' ev' → rowOf l = rowOf l' → l = l'

/-- No two logs that are accepted share a transaction. -/
def OneEachTransaction (d : Deployment) (s : World) : Prop :=
  ∀ l ev l' ev', Accepted d s l ev → Accepted d s l' ev' →
    l.chain.chainId = l'.chain.chainId → l.log.txHash = l'.log.txHash → l = l'

/-- No log that is accepted is below the genesis block of its chain. -/
def SinceGenesis (d : Deployment) (s : World) : Prop :=
  ∀ l ev, Accepted d s l ev → l.chain.genesisBlock ≤ l.block

theorem correlate_eq_some {chain : ChainConfig} {relayer core : Hex} {b : ℕ}
    {log : ExecutionRequested} {receipt : List ReceiptLog} {ev : DecodedEvent}
    (h : correlate chain relayer core b log receipt = some ev) :
    ev.sourceChainId = chain.chainId ∧ ev.eventTxHash = log.txHash := by
  simp only [correlate] at h
  split at h
  · cases h
  · split at h
    · cases h
    · obtain rfl := Option.some.inj h
      exact ⟨rfl, rfl⟩

theorem Correlates.key {chain : ChainConfig} {relayer : Hex} {b : ℕ} {log : ExecutionRequested}
    {ev : DecodedEvent} (h : Correlates d chain relayer b log ev) :
    ev.sourceChainId = chain.chainId ∧ ev.eventTxHash = log.txHash := by
  obtain ⟨-, -, core, receipt, -, -, hc⟩ := h
  exact correlate_eq_some hc

/-- A log correlates to one event. -/
theorem Accepted.unique {l : EmittedLog} {ev ev' : DecodedEvent} (h : Accepted d s l ev)
    (h' : Accepted d s l ev') : ev = ev' := by
  obtain ⟨-, relayer, -, hrel, -, -, -, -, core, receipt, hcore, hr, hc⟩ := h
  obtain ⟨-, relayer', -, hrel', -, -, -, -, core', receipt', hcore', hr', hc'⟩ := h'
  obtain rfl := Option.some.inj (hrel.symm.trans hrel')
  obtain rfl := Option.some.inj (hcore.symm.trans hcore')
  obtain rfl := Option.some.inj (hr.symm.trans hr')
  exact Option.some.inj (hc.symm.trans hc')

theorem Accepted.key {l : EmittedLog} {ev : DecodedEvent} {r : Row} (h : Accepted d s l ev)
    (hr : r.Carries ev) : r.key = (l.chain.chainId, l.log.txHash) := by
  obtain ⟨-, relayer, last, -, -, -, hc⟩ := h
  exact Prod.ext (hr.sourceChainId.trans hc.key.1) (hr.eventTxHash.trans hc.key.2)

theorem Accepted.persists {l : EmittedLog} {ev : DecodedEvent} (hp : Persists s s')
    (h : Accepted d s l ev) : Accepted d s' l ev := by
  obtain ⟨hmem, relayer, last, hrel, hlast, hle, hc⟩ := h
  obtain ⟨last', hlast', hle'⟩ := hp.cursor _ _ hlast
  exact ⟨hmem, relayer, last', hrel, hlast', hle.trans hle', hc⟩

theorem Row.Carries.same {ev : DecodedEvent} {r r' : Row} (hs : r.Same r') (h : r.Carries ev) :
    r'.Carries ev where
  sourceChainId := (congrArg Prod.fst hs.key).trans h.sourceChainId
  eventTxHash := (congrArg Prod.snd hs.key).trans h.eventTxHash
  destinationChainId := hs.destinationChainId.trans h.destinationChainId
  relayerAddress := hs.relayerAddress.trans h.relayerAddress
  payload := hs.payload.trans h.payload

/-! ### Runs -/

/-- Every row is the one of an accepted log, and every accepted log has been inserted. -/
structure Recorded (d : Deployment) (s : World) : Prop where
  rows : ∀ (i : ℕ) (r : Row), s.transactions[i]? = some r → ∃ l ev, Accepted d s l ev ∧
    l.chain.genesisBlock ≤ l.block ∧ r.Carries ev
  logs : ∀ l ev, Accepted d s l ev → l.chain.genesisBlock ≤ l.block →
    HasKey s.transactions (l.chain.chainId, l.log.txHash)

theorem Recorded.rests (hr : Rests s s') (h : Recorded d s) : Recorded d s' := by
  have hback : ∀ l ev, Accepted d s' l ev → Accepted d s l ev := by
    rintro l ev ⟨hmem, relayer, last, hrel, hlast, hle, hc⟩
    exact ⟨hmem, relayer, last, hrel, hr.blockTracker ▸ hlast, hle, hc⟩
  constructor
  · intro i r hri
    obtain ⟨l, ev, hacc, hgen, hcar⟩ := h.rows i r (hr.transactions ▸ hri)
    exact ⟨l, ev, hacc.persists hr.persists, hgen, hcar⟩
  · intro l ev hacc hgen
    rw [hr.transactions]
    exact h.logs l ev (hback l ev hacc) hgen

/-- Only a scan moves a cursor forward, and it inserts what it accepts. -/
theorem scans {g : Regime} {t : Task} {past : Past (atomics d)} {c : ChainId} {relayer : Hex}
    {inputs : List InsertPendingInput} {toBlock : ℤ}
    (hg : (contract d g t).guard past (.recordScan c relayer inputs toBlock) s) :
    listenerGuard d (.recordScan c relayer inputs toBlock) s := by
  cases t with
  | scan chain | sweep pages => exact hg
  | cron | delivery m again => exact absurd hg.2 id

/-- No task inserts but a scan. -/
theorem not_inserts {g : Regime} {t : Task} {past : Past (atomics d)} {input : InsertPendingInput}
    (hg : (contract d g t).guard past (.insertPending input) s) : False := by
  cases t with
  | scan chain | sweep pages => exact hg
  | cron | delivery m again => exact hg.2

/-- Only a scan makes a cursor, at the block before the genesis block. -/
theorem inits {g : Regime} {t : Task} {past : Past (atomics d)} {c : ChainId} {relayer : Hex}
    {genesis : ℕ} (hg : (contract d g t).guard past (.initCursor c relayer genesis) s) :
    ∃ chain ∈ d.chains, c = chain.chainId ∧ genesis = chain.genesisBlock := by
  cases t with
  | scan chain₀ | sweep pages =>
      obtain ⟨chain, hchain, hid, -, hgen⟩ := hg
      exact ⟨chain, hchain, hid, hgen⟩
  | cron | delivery m again => exact absurd hg.2 id

/-- **One action.** -/
theorem Recorded.effect {g : Regime} {t : Task} {a : Act} {reply : a.Reply} {past : Past (atomics d)}
    (he : Effect s a reply s') (hg : (contract d g t).guard past a s) (h : Recorded d s) :
    Recorded d s' := by
  constructor
  · intro i r' hr'
    rcases he.source hr' with ⟨r, hr, hedit⟩ | ⟨hnew, input, hinput, rfl⟩
    · obtain ⟨l, ev, hacc, hgen, hcar⟩ := h.rows i r hr
      refine ⟨l, ev, hacc.persists he.persists, hgen, ?_⟩
      rcases hedit with rfl | hedit
      · exact hcar
      · exact hcar.same hedit.same
    · cases he with
      | insertPending => exact (not_inserts hg).elim
      | @recordScan c relayer inputs toBlock recs rows hins =>
          obtain ⟨chain, hchain, rfl, hrel, cursor, last, hlast, -, hgen, -, hsound⟩ := scans hg
          obtain ⟨b, log, ev, hc, hlo, hhi, rfl⟩ := hsound input hinput
          obtain ⟨n, hn, hle⟩ := le_advance toBlock hlast
          refine ⟨⟨chain, b, log⟩, ev, ⟨hchain, relayer, n, hrel, hn, hhi.trans hle, hc⟩, ?_, ?_⟩
          · dsimp only
            omega
          · exact ⟨rfl, rfl, rfl, rfl, rfl⟩
      | edit hr hedit => cases hedit <;> exact absurd hinput List.not_mem_nil
      | same | initCursor | publish | nack | broadcast => simp [hnew] at hr'
  · rintro l ev ⟨hmem, relayer, n, hrel, hn, hle, hc⟩ hgen
    rcases he.cursor_source hn with hn | ⟨genesis, rfl, rfl⟩ | ⟨inputs, last, rfl, hlast, hlt⟩
    · exact (h.logs l ev ⟨hmem, relayer, n, hrel, hn, hle, hc⟩ hgen).effect he
    · obtain ⟨chain, hchain, hid, rfl⟩ := inits hg
      obtain rfl := chain_eq_of_chainId hmem hchain hid
      omega
    · rcases Int.lt_or_le last l.block with hnew | hold
      · obtain ⟨chain, hchain, hid, hrel', cursor, last', hlast', hle', -, hcomplete, -⟩ := scans hg
        obtain rfl := chain_eq_of_chainId hmem hchain hid
        obtain rfl := Option.some.inj (hlast.symm.trans hlast')
        have hinput := hcomplete l.block l.log ev hc (hle'.trans_lt hnew) hle
        cases he with
        | same =>
            obtain rfl := Option.some.inj (hn.symm.trans hlast)
            exact absurd hlt (Int.lt_irrefl _)
        | edit hr hedit => cases hedit
        | recordScan hins =>
            have hkey := (insertAll_spec hins).1.has _ hinput
            rwa [InsertPendingInput.key, eventToInsert, hc.key.1, hc.key.2] at hkey
      · exact (h.logs l ev ⟨hmem, relayer, last, hrel, hlast, hold, hc⟩ hgen).effect he

/-- **After every run**, rows are those of logs, and logs have been inserted. -/
theorem recorded (d : Deployment) (es : List (Event (bot d))) :
    Inv d .any (d.run es).state ∧ Recorded d (d.run es).state := by
  have hinit : Recorded d d.init.state := by
    refine ⟨fun i r hr => by simp [Deployment.init, World.init] at hr, ?_⟩
    rintro l ev ⟨-, relayer, last, -, hlast, -⟩
    simp [Deployment.init, World.init] at hlast
  have hrun := run_induction Regime.meets_any (J := fun c => Recorded d c.state) hinit ?_
    (@Transducer.along_true _ _ _ (machine (bot d)) es d.init)
  · exact ⟨hrun.1.inv, hrun.2⟩
  · intro c e c' hs hJ _ hstep
    cases hstep with
    | start _ hstart => exact hJ.rests (Rests.start hstart)
    | act ht hv ha hp => exact hJ.effect (effect_of hp) (hs.guard ht hv ha)
    | crash | lose => exact hJ
    | env henv => exact hJ.rests (Rests.env henv)

/-- The row of a log that is accepted carries its event, where no other log has its transaction. -/
theorem Recorded.carries {l : EmittedLog} {ev : DecodedEvent} {i : ℕ} {r : Row}
    (h : Recorded d s) (hone : OneEachTransaction d s) (hacc : Accepted d s l ev)
    (hr : s.transactions[i]? = some r) (hk : r.key = (l.chain.chainId, l.log.txHash)) :
    r.Carries ev := by
  obtain ⟨l', ev', hacc', -, hcar⟩ := h.rows i r hr
  have hkey := (hacc'.key hcar).symm.trans hk
  obtain rfl := hone l' ev' l ev hacc' hacc (congrArg Prod.fst hkey) (congrArg Prod.snd hkey)
  rw [hacc.unique hacc']
  exact hcar

/-- Logs with a row each are each alone in their transaction. -/
theorem oneEachTransaction (hu : KeysUnique s.transactions) (h : NoEventLost d s) :
    OneEachTransaction d s := by
  obtain ⟨rowOf, hrow, hinj⟩ := h
  intro l ev l' ev' hacc hacc' hchain htx
  obtain ⟨r, hr, hcar⟩ := hrow l ev hacc
  obtain ⟨r', hr', hcar'⟩ := hrow l' ev' hacc'
  refine hinj l ev l' ev' hacc hacc' (hu _ _ r r' hr hr' ?_)
  rw [hacc.key hcar, hacc'.key hcar', hchain, htx]

/-- A row of a log below the genesis block would be the one of another log. -/
theorem sinceGenesis (hrec : Recorded d s) (h : NoEventLost d s)
    (hone : OneEachTransaction d s) : SinceGenesis d s := by
  obtain ⟨rowOf, hrow, -⟩ := h
  intro l ev hacc
  obtain ⟨r, hr, hcar⟩ := hrow l ev hacc
  obtain ⟨l', ev', hacc', hgen, hcar'⟩ := hrec.rows _ r hr
  have hkey := (hacc'.key hcar').symm.trans (hacc.key hcar)
  obtain rfl := hone l' ev' l ev hacc' hacc (congrArg Prod.fst hkey) (congrArg Prod.snd hkey)
  exact hgen

/-- A log that is alone in its transaction has its row. -/
theorem noEventLost (hrec : Recorded d s) (hone : OneEachTransaction d s)
    (hsince : SinceGenesis d s) : NoEventLost d s := by
  classical
  have hrow : ∀ l : EmittedLog, ∃ i : ℕ, ∀ ev, Accepted d s l ev →
      ∃ r : Row, s.transactions[i]? = some r ∧ r.key = (l.chain.chainId, l.log.txHash) := by
    intro l
    by_cases hl : ∃ ev, Accepted d s l ev
    · obtain ⟨ev, hacc⟩ := hl
      obtain ⟨i, r, hr, hk⟩ := hrec.logs l ev hacc (hsince l ev hacc)
      exact ⟨i, fun _ _ => ⟨r, hr, hk⟩⟩
    · exact ⟨0, fun ev hacc => absurd ⟨ev, hacc⟩ hl⟩
  choose rowOf hrowOf using hrow
  refine ⟨rowOf, fun l ev hacc => ?_, fun l ev l' ev' hacc hacc' heq => ?_⟩
  · obtain ⟨r, hr, hk⟩ := hrowOf l ev hacc
    exact ⟨r, hr, hrec.carries hone hacc hr hk⟩
  · obtain ⟨r, hr, hk⟩ := hrowOf l ev hacc
    obtain ⟨r', hr', hk'⟩ := hrowOf l' ev' hacc'
    rw [heq, hr'] at hr
    obtain rfl := Option.some.inj hr
    have hkey := hk.symm.trans hk'
    exact hone l ev l' ev' hacc hacc' (congrArg Prod.fst hkey) (congrArg Prod.snd hkey)

/-- **No event is lost** after a run, if and only if each log up to the cursor is alone in its
transaction and none is older than the genesis block; and no cursor moves backwards. -/
theorem no_event_lost_iff (d : Deployment) (es es' : List (Event (bot d))) :
    (NoEventLost d (d.run es).state ↔
      OneEachTransaction d (d.run es).state ∧ SinceGenesis d (d.run es).state) ∧
    ∀ (k : ChainId × Hex) (n : ℤ), (d.run es).state.blockTracker k = some n →
      ∃ n', (d.run (es ++ es')).state.blockTracker k = some n' ∧ n ≤ n' := by
  obtain ⟨hI, hrec⟩ := recorded d es
  refine ⟨⟨fun h => ?_, fun h => noEventLost hrec h.1 h.2⟩, (persists_run d es es').cursor⟩
  have hone := oneEachTransaction hI.unique h
  exact ⟨hone, sinceGenesis hrec h hone⟩

/-! ### Two transfers in one transaction -/

section

open Sample

/-- A source chain whose block 10 has a transaction with two requests. -/
abbrev twoInOne : Deployment := deployment [[7], [7]]

/-- The event of one of the two requests. -/
def eventOf (logIndex : ℕ) : DecodedEvent where
  sourceChainId := 2
  destinationChainId := 4
  relayerAddress := relayer
  eventTxHash := [7]
  blockNumber := 10
  logIndex := logIndex
  payload := (message [7] logIndex).transactionData

/-- The second request of the transaction gets no row. -/
theorem second_event_lost : ¬ NoEventLost twoInOne (twoInOne.run (scanned [[7], [7]])).state := by
  rintro ⟨rowOf, hrow, hinj⟩
  have hcursor : (twoInOne.run (scanned [[7], [7]])).state.blockTracker (2, relayer) = some 10 := rfl
  have hone : (twoInOne.run (scanned [[7], [7]])).state.transactions.length = 1 := rfl
  have hacc : ∀ i, i = 0 ∨ i = 1 → Accepted twoInOne (twoInOne.run (scanned [[7], [7]])).state
      ⟨chain, 10, request [7] i⟩ (eventOf i) := by
    rintro i (rfl | rfl)
    · exact ⟨by decide, relayer, 10, rfl, hcursor, by decide, by decide, rfl, core, _, rfl, rfl, by decide⟩
    · exact ⟨by decide, relayer, 10, rfl, hcursor, by decide, by decide, rfl, core, _, rfl, rfl, by decide⟩
  obtain ⟨r, hr, -⟩ := hrow _ _ (hacc 0 (.inl rfl))
  obtain ⟨r', hr', -⟩ := hrow _ _ (hacc 1 (.inr rfl))
  have hlt := (List.getElem?_eq_some_iff.mp hr).1
  have hlt' := (List.getElem?_eq_some_iff.mp hr').1
  -- there is one row for the two
  have heq := hinj _ _ _ _ (hacc 0 (.inl rfl)) (hacc 1 (.inr rfl)) (by omega)
  cases heq

end

end Ntt.Relayer
