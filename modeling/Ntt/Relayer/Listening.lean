import Ntt.Relayer.Contracts

/-!
# Scans and Sweeps Obey Their Contract

A scan records exactly the events of its window, and its window starts right after a cursor that
was read and that nobody takes back. It matters to neither a scan nor a sweep what becomes of the
rows that it publishes.

## Main results

* `scanChainOnce_obeys`, `republishPending_obeys`.
-/

namespace Ntt.Relayer

open Interleaving TransactionsRepo

variable {d : Deployment} {g : Regime} {chain : ChainConfig} {relayer core : Hex}
  {s s' : World} {h : Past (atomics d)}

/-- The events are those of the window after a cursor. -/
structure EventsOf (d : Deployment) (chain : ChainConfig) (relayer : Hex) (cursor toBlock : ℤ)
    (events : List DecodedEvent) : Prop where
  complete : ∀ b log ev, Correlates d chain relayer b log ev → cursor < b → (b : ℤ) ≤ toBlock →
    ev ∈ events
  sound : ∀ ev ∈ events, ∃ b log, Correlates d chain relayer b log ev ∧ cursor < b ∧ (b : ℤ) ≤ toBlock

/-- A postcondition on the result alone. -/
theorem listener_done {α : Type} {a : α} {Q : α → Past (atomics d) → World → Prop}
    (hQ : ∀ h s, Q a h s) : (pure a : Prog d α).Obeys (listenerContract d g) Q h s :=
  fun s' _ _ => hQ h s'

/-- The logs of a list that correlate, with their events. -/
theorem correlateAll_obeys {logs : List (ℕ × ExecutionRequested)} (hI : Inv d g s) :
    (correlateAll (d := d) chain relayer core logs).Obeys (listenerContract d g)
      (fun out _ _ => ∀ events, out = some events → ∀ ev, ev ∈ events ↔ ∃ b log receipt,
        (b, log) ∈ logs ∧ d.source.receipt chain.chainId log.txHash = some receipt ∧
          correlate chain relayer core b log receipt = some ev) h s := by
  induction logs generalizing h s with
  | nil =>
      refine listener_done fun _ _ events hev ev => ?_
      obtain rfl := Option.some.inj hev
      simp
  | cons p logs ih =>
      obtain ⟨b, log⟩ := p
      rw [correlateAll]
      refine Proc.obeys_perform (P := fun _ => True) trivial (fun _ _ _ h => h)
        (fun _ _ _ => trivial) ?_
      intro s ch reply s' _ _ _ hp hI
      cases ch with
      | seen seen =>
          obtain ⟨hreply, -⟩ := Prod.mk.inj (Option.some.inj hp)
          cases reply with
          | none => exact listener_done fun _ _ events hev => (by cases hev)
          | some receipt =>
              -- a receipt that was seen is the one of the chain
              have hreceipt : d.source.receipt chain.chainId log.txHash = some receipt := by
                cases seen
                · cases hreply
                · exact hreply
              refine Proc.obeys_bind ((ih hI).mono fun out h s _ hout => ?_) hI
              refine listener_done fun _ _ events hev ev => ?_
              obtain ⟨rest, rfl, rfl⟩ := Option.map_eq_some_iff.mp hev
              rw [List.mem_append, Option.mem_toList, hout rest rfl]
              constructor
              · rintro (hev | ⟨b', log', receipt', hmem, hr, hc⟩)
                · exact ⟨b, log, receipt, List.mem_cons_self, hreceipt, hev⟩
                · exact ⟨b', log', receipt', List.mem_cons_of_mem _ hmem, hr, hc⟩
              · rintro ⟨b', log', receipt', hmem, hr, hc⟩
                rcases List.mem_cons.mp hmem with heq | hmem
                · obtain ⟨rfl, rfl⟩ := Prod.mk.inj heq
                  obtain rfl := Option.some.inj (hreceipt.symm.trans hr)
                  exact .inl hc
                · exact .inr ⟨b', log', receipt', hmem, hr, hc⟩
      | _ => cases hp

/-- **The events of a window.** -/
theorem scan_obeys {cursor toBlock : ℤ} (hcursor : -1 ≤ cursor) :
    (scan (d := d) chain relayer (cursor + 1) toBlock).Obeys (listenerContract d g)
      (fun out _ _ => ∀ events, out = some events → EventsOf d chain relayer cursor toBlock events)
      h s := by
  rw [scan]
  split
  · rename_i hempty
    refine listener_done fun _ _ events hev => ?_
    obtain rfl := Option.some.inj hev
    refine ⟨fun b log ev _ hlo hhi => ?_, fun ev hev => absurd hev List.not_mem_nil⟩
    omega
  · rename_i hrange
    split
    · exact listener_done fun _ _ events hev => (by cases hev)
    · rename_i core hcore
      refine Proc.obeys_perform (P := fun _ => True) trivial (fun _ _ _ h => h)
        (fun _ _ _ => trivial) ?_
      intro s ch logs s' _ _ _ hp hI
      obtain ⟨rfl, -⟩ := Prod.mk.inj (Option.some.inj hp)
      refine Proc.obeys_bind ((correlateAll_obeys hI).mono fun out h s _ hout => ?_) hI
      refine listener_done fun _ _ events hev => ?_
      obtain ⟨found, rfl, rfl⟩ := Option.map_eq_some_iff.mp hev
      constructor
      · rintro b log ev ⟨hlog, haddr, core', receipt, hcore', hr, hc⟩ hlo hhi
        obtain rfl := Option.some.inj (hcore.symm.trans hcore')
        rw [List.mem_insertionSort, hout found rfl]
        refine ⟨b, log, receipt, SourceChains.mem_getLogs.mpr ⟨?_, ?_, hlog, haddr⟩, hr, hc⟩
        · omega
        · omega
      · intro ev hev
        rw [List.mem_insertionSort, hout found rfl] at hev
        obtain ⟨b, log, receipt, hmem, hr, hc⟩ := hev
        obtain ⟨hlo, hhi, hlog, haddr⟩ := SourceChains.mem_getLogs.mp hmem
        refine ⟨b, log, ⟨hlog, haddr, core, receipt, hcore, hr, hc⟩, ?_, ?_⟩
        · omega
        · omega

/-- A loop over rows that are there, each of which is published or left. -/
theorem publishAll_obeys {recs : List TransactionRecord} {p : TransactionRecord → Bool}
    {f : TransactionRecord → Prog d PUnit}
    (hf : ∀ rec, f rec = if p rec = true then run (.publish (recordToMessage rec)) else pure ())
    (hI : Inv d g s) (hl : Listed recs s) :
    (recs.forM f).Obeys (listenerContract d g) (fun _ _ _ => True) h s := by
  refine (Proc.obeys_forM (P := fun _ s => Listed recs s) ?_ ?_ hI hl).mono fun _ _ _ _ _ => trivial
  · exact fun _ s s' _ hp hl => hl.persists hp
  · intro rec hrec h s _ hl
    rw [hf]
    split
    · refine Proc.obeys_act (P := Listed recs) hl (fun s' _ hp hl => hl.persists hp) ?_ ?_
      · exact fun s _ hl => ⟨(hl rec hrec).hasKey, rfl⟩
      · intro s ch reply s' _ hl _ hp _
        exact Proc.obeys_done (hl.effect (effect_of hp)) fun s' _ hp hl => hl.persists hp
    · exact Proc.obeys_done hl fun s' _ hp hl => hl.persists hp

/-- The cursor was read, and is not taken back. -/
def Passed (chain : ChainConfig) (relayer : Hex) (cursor : ℤ) (s : World) : Prop :=
  ∃ last, s.blockTracker (chain.chainId, relayer) = some last ∧ cursor ≤ last

theorem Passed.persists {cursor : ℤ} (hp : Persists s s') (hc : Passed chain relayer cursor s) :
    Passed chain relayer cursor s' := by
  obtain ⟨last, hlast, hle⟩ := hc
  obtain ⟨last', hlast', hle'⟩ := hp.cursor _ _ hlast
  exact ⟨last', hlast', hle.trans hle'⟩

theorem Passed.effect {cursor : ℤ} {a : Act} {reply : a.Reply} (he : Effect s a reply s')
    (hc : Passed chain relayer cursor s) : Passed chain relayer cursor s' := by
  obtain ⟨last, hlast, hle⟩ := hc
  obtain ⟨last', hlast', hle'⟩ := he.cursor hlast
  exact ⟨last', hlast', hle.trans hle'⟩

/-- **The transaction of a scan.** -/
theorem scanWindow_obeys {cursor toBlock : ℤ} (hchain : chain ∈ d.chains)
    (hrelayer : chain.specialRelayerAddress = some relayer) (hc : Passed chain relayer cursor s)
    (hgenesis : (chain.genesisBlock : ℤ) - 1 ≤ cursor) (hI : Inv d g s) :
    (scanWindow (d := d) chain relayer cursor toBlock).Obeys (listenerContract d g)
      (fun _ _ _ => True) h s := by
  have hwindow : (scan (d := d) chain relayer (cursor + 1) toBlock).Obeys (listenerContract d g)
      (fun out _ _ => ∀ events, out = some events →
        EventsOf d chain relayer cursor toBlock events) h s := scan_obeys (by omega)
  have hscan := hwindow.frame
    (fun _ _ _ hp hc => Passed.persists hp hc)
    (fun _ _ _ _ _ hp hc => Passed.effect (effect_of hp) hc) hc
  refine Proc.obeys_bind (hscan.mono fun out h s _ hout => ?_) hI
  obtain ⟨hout, hc⟩ := hout
  cases out with
  | none => exact listener_done fun _ _ => trivial
  | some events =>
      obtain ⟨hcomplete, hsound⟩ := hout events rfl
      refine Proc.obeys_perform (P := Passed chain relayer cursor) hc ?_ ?_ ?_
      · exact fun s' _ hp hc => hc.persists hp
      · rintro s _ ⟨last, hlast, hle⟩
        refine ⟨chain, hchain, rfl, hrelayer, cursor, last, hlast, hle, hgenesis, ?_, ?_⟩
        · exact fun b log ev hev hlo hhi => List.mem_map_of_mem (hcomplete b log ev hev hlo hhi)
        · intro input hinput
          obtain ⟨ev, hev, rfl⟩ := List.mem_map.mp hinput
          obtain ⟨b, log, hcor, hlo, hhi⟩ := hsound ev hev
          exact ⟨b, log, ev, hcor, hlo, hhi, rfl⟩
      · intro s ch inserted s' _ _ _ hp hI
        obtain ⟨hrecs, rfl⟩ := Prod.mk.inj (Option.some.inj hp)
        refine publishAll_obeys (p := fun rec => rec.status = .pending) ?_ hI fun rec hrec => ?_
        · exact fun rec => by simp only [publishInserted, decide_eq_true_eq]
        · exact ⟨rec.toRow, (insertAll_spec (Prod.ext hrecs rfl)).2 rec hrec, rfl, trivial⟩

/-- **A scan tick obeys its contract.** -/
theorem scanChainOnce_obeys (hchain : chain ∈ d.chains) :
    (scanChainOnce (d := d) chain).Obeys (listenerContract d g)
      (fun _ => (listenerContract d g).final) [] s := by
  rw [scanChainOnce]
  split
  · exact listener_done fun _ _ => trivial
  · rename_i relayer hrelayer
    refine Proc.obeys_perform (P := fun _ => True) trivial (fun _ _ _ h => h) ?_ ?_
    · exact fun _ _ _ => ⟨chain, hchain, rfl, hrelayer, rfl⟩
    · intro _ _ _ s _ _ _ _ _
      refine Proc.obeys_perform (P := fun _ => True) trivial (fun _ _ _ h => h)
        (fun _ _ _ => trivial) ?_
      intro s ch cursor s' hI _ _ hp _
      obtain ⟨hcursor, rfl⟩ := Prod.mk.inj (Option.some.inj hp)
      cases cursor with
      | none => exact listener_done fun _ _ => trivial
      | some cursor =>
          have hc : Passed chain relayer cursor s := ⟨cursor, hcursor, Int.le_refl _⟩
          have hgenesis := hI.tracked chain hchain relayer cursor hcursor
          refine Proc.obeys_act (P := Passed chain relayer cursor) hc ?_ (fun _ _ _ => trivial) ?_
          · exact fun s' _ hp hc => hc.persists hp
          · intro s ch head s' _ hc _ hp hI
            change (ite _ _ _ : Prog d Unit).Obeys _ _ _ _
            split
            · exact listener_done fun _ _ => trivial
            · exact scanWindow_obeys hchain hrelayer (hc.effect (effect_of hp)) hgenesis hI

/-- **The sweep obeys its contract.** -/
theorem republishPending_obeys {batchSize pages : ℕ} {cursor : Option (ℕ × ℕ)} (hI : Inv d g s) :
    (republishPending (d := d) batchSize pages cursor).Obeys (listenerContract d g)
      (fun _ _ _ => True) h s := by
  induction pages generalizing cursor h s with
  | zero => exact listener_done fun _ _ => trivial
  | succ pages ih =>
      rw [republishPending]
      refine Proc.obeys_perform (P := fun _ => True) trivial (fun _ _ _ h => h)
        (fun _ _ _ => trivial) ?_
      intro s ch page s' _ _ _ hp hI
      obtain ⟨hpage, rfl⟩ := Prod.mk.inj (Option.some.inj hp)
      have hl : Listed page s := fun rec hrec =>
        ⟨rec.toRow, (mem_selectByStatus (hpage ▸ hrec)).1, rfl, trivial⟩
      split
      · exact listener_done fun _ _ => trivial
      · refine Proc.obeys_bind ((publishAll_obeys (p := fun rec => rec.relayTxHash.isNone) ?_ hI
          hl).mono fun _ h s hI _ => ?_) hI
        · intro rec
          cases rec.relayTxHash <;> rfl
        · split
          · exact listener_done fun _ _ => trivial
          · exact ih hI

end Ntt.Relayer
