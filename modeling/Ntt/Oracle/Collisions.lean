import Mathlib.Order.Basic
import Mathlib.Order.Lattice
import Ntt.Oracle.Writer

/-!
# The Oracle Writer and the Transactions of Others

A writer that remembers no send waits while anything is pending. One that remembers a send does not
look: it takes what is pending for its own. But a send stays in the memory when its receipt is not
seen in time, also after it was mined, and then what is pending at the next nonce is another
process's (`blind_chooses`). Where this does not happen, a send collides with nothing
(`sends_safe`).

What may be asked of the nodes is that a count is not ahead of the chain, and that nothing pending
is left out of the other; and of other processes, that they send nothing at the nonce of a send
between its counts and its transaction.

## Main results

* `choose_holds`: with fair counts, the nonce that a send chooses is clear.
* `replacement_bumped`: a replacement outbids what it replaces.
* `sends_safe`: the runs in which no send collides.
* `blind_chooses`, `remembered_send_collides`: the others.
-/

namespace Ntt.Oracle

/-! ### What a send owes -/

/-- A replacement outbids a transaction: every fee field by 12.5 percent, and the gas limit is not
lower. -/
structure Bumped (last : SentTxFees) (o : Overrides) : Prop where
  maxFeePerGas : ∀ v ∈ last.maxFeePerGas, ∃ v' ∈ o.maxFeePerGas, 1125 * v ≤ 1000 * v'
  maxPriorityFeePerGas : ∀ v ∈ last.maxPriorityFeePerGas,
    ∃ v' ∈ o.maxPriorityFeePerGas, 1125 * v ≤ 1000 * v'
  gasPrice : ∀ v ∈ last.gasPrice, ∃ v' ∈ o.gasPrice, 1125 * v ≤ 1000 * v'
  gasLimit : ∃ v' ∈ o.gasLimit, last.gasLimit ≤ v'

/-- A pending transaction is the send that the writer remembers. -/
def State.knows (s : State) (tx : PoolTx) : Bool := tx.own && s.lastSent = some tx.fees

/-- A send may go out: its nonce is not known to be mined, what is pending there is the remembered
send, if anything, and at the nonce of the remembered send it outbids that. -/
structure Safe (s : State) (o : Overrides) : Prop where
  fresh : ∀ m ∈ s.lastMinedNonce, m < o.nonce
  own : ∀ tx ∈ s.pool, tx.fees.nonce = o.nonce → s.knows tx = true
  bumped : ∀ last ∈ s.lastSent, last.nonce = o.nonce → Bumped last o

/-! ### When it is met -/

/-- The writer remembers a send, and something else is pending at the next nonce. -/
def State.blind (s : State) : Bool :=
  s.lastSent.isSome && s.pool.any fun tx => tx.fees.nonce = s.nextNonce && !s.knows tx

/-- The nonce of the send, once it is chosen. -/
def Phase.target : Phase → Option ℕ
  | .pricing last => some last.nonce
  | .sending o => some o.nonce
  | _ => none

/-- Counts are answered as they are, but for a lag of the first, and not to a blind writer; and
other processes do not send at the nonce of a send that is about to go out. -/
def Fair (s : State) : Event → Prop
  | .latestCount n => n ≤ s.nextNonce
  | .pendingCount n => n = s.pendingNonce ∧ s.blind = false
  | .other tx => ∀ n ∈ s.phase.target, tx.nonce ≠ n
  | _ => True

instance (s : State) : (e : Event) → Decidable (Fair s e)
  | .latestCount n => inferInstanceAs (Decidable (n ≤ s.nextNonce))
  | .pendingCount n => inferInstanceAs (Decidable (n = s.pendingNonce ∧ s.blind = false))
  | .other tx => inferInstanceAs (Decidable (∀ n ∈ s.phase.target, tx.nonce ≠ n))
  | .push _ | .priced .. | .taken .. | .receipt | .fails | .mine | .drop _ =>
      inferInstanceAs (Decidable True)

/-! ### The invariant -/

/-- A nonce is clear for a send. -/
structure Clear (s : State) (n : ℕ) : Prop where
  le : n ≤ s.nextNonce
  fresh : ∀ m ∈ s.lastMinedNonce, m < n
  own : ∀ tx ∈ s.pool, tx.fees.nonce = n → s.knows tx = true

/-- What is known while a call is awaited. -/
def Phase.Holds (s : State) : Phase → Prop
  | .pending nonce => nonce ≤ s.nextNonce
  | .pricing last => s.lastSent = some last ∧ Clear s last.nonce
  | .sending o => Clear s o.nonce ∧ ∀ last ∈ s.lastSent, last.nonce = o.nonce → Bumped last o
  | _ => True

structure Inv (s : State) : Prop where
  pool : ∀ tx ∈ s.pool, s.nextNonce ≤ tx.fees.nonce
  sent : ∀ last ∈ s.lastSent, last.OneKind
  mined : ∀ m ∈ s.lastMinedNonce, m < s.nextNonce
  phase : s.phase.Holds s

/-! ### Fees -/

theorem le_bumpFee (v : ℕ) : 1125 * v ≤ 1000 * bumpFee v := by
  rw [bumpFee]
  omega

/-- A replacement outbids what it replaces. -/
theorem replacement_bumped {last : SentTxFees} (h : last.OneKind) (fee : Fees) (est : ℕ) :
    Bumped last (replacement last fee est) := by
  have hmax (a v : ℕ) : 1125 * v ≤ 1000 * max a (bumpFee v) :=
    (le_bumpFee v).trans (Nat.mul_le_mul_left _ (le_max_right _ _))
  obtain ⟨⟨maxFee, maxPriority, gasPrice⟩, nonce, gasLimit⟩ := last
  rcases h with ⟨hfee, hpriority, rfl⟩ | ⟨rfl, rfl, hprice⟩
  · obtain ⟨v, rfl⟩ := Option.isSome_iff_exists.mp hfee
    obtain ⟨w, rfl⟩ := Option.isSome_iff_exists.mp hpriority
    refine ⟨?_, ?_, ?_, ⟨_, rfl, le_max_right _ _⟩⟩
    · rintro v' ⟨⟩
      exact ⟨_, rfl, (hmax _ v).trans (Nat.mul_le_mul_left _ (le_max_left _ _))⟩
    · rintro w' ⟨⟩
      exact ⟨_, rfl, hmax _ w⟩
    · rintro v' ⟨⟩
  · obtain ⟨v, rfl⟩ := Option.isSome_iff_exists.mp hprice
    refine ⟨?_, ?_, ?_, ⟨_, rfl, le_max_right _ _⟩⟩
    · rintro v' ⟨⟩
    · rintro v' ⟨⟩
    · rintro v' ⟨⟩
      exact ⟨_, rfl, hmax _ v⟩

/-! ### Counts -/

section

variable {s : State} {n fuel : ℕ}

theorem State.occupied_iff : s.occupied n = true ↔ ∃ tx ∈ s.pool, tx.fees.nonce = n := by
  simp [occupied]

theorem State.le_pendingFrom : n ≤ s.pendingFrom fuel n := by
  induction fuel generalizing n with
  | zero => exact le_rfl
  | succ fuel ih =>
      rw [pendingFrom]
      split
      · exact (Nat.le_succ n).trans ih
      · exact le_rfl

/-- What is pending at the next nonce is counted. -/
theorem State.lt_pendingNonce (h : s.occupied s.nextNonce = true) :
    s.nextNonce < s.pendingNonce := by
  obtain ⟨tx, htx, -⟩ := occupied_iff.mp h
  obtain ⟨fuel, hfuel⟩ := Nat.exists_eq_succ_of_ne_zero (List.length_pos_of_mem htx).ne'
  rw [pendingNonce, hfuel, pendingFrom, if_pos h]
  exact le_pendingFrom

/-- A nonce that is floored is not known to be mined. -/
theorem State.lt_floorNonce {m : ℕ} (h : m ∈ s.lastMinedNonce) : m < s.floorNonce n := by
  have hm : s.lastMinedNonce = some m := h
  simp only [floorNonce, hm]
  split <;> omega

theorem State.floorNonce_le (hmined : ∀ m ∈ s.lastMinedNonce, m < s.nextNonce)
    (hn : n ≤ s.nextNonce) : s.floorNonce n ≤ s.nextNonce := by
  rw [floorNonce]
  split
  · rename_i m hm
    have := hmined m hm
    split <;> omega
  · exact hn

end

/-! ### One step -/

variable {s s' : State} {n : ℕ}

/-- A nonce stays clear while the memory stays and nothing unknown comes to it. -/
theorem Clear.mono (h : Clear s n) (hle : s.nextNonce ≤ s'.nextNonce)
    (hsent : s'.lastSent = s.lastSent) (hmined : s'.lastMinedNonce = s.lastMinedNonce)
    (hpool : ∀ tx ∈ s'.pool, tx.fees.nonce = n → tx ∈ s.pool) : Clear s' n where
  le := h.le.trans hle
  fresh m hm := h.fresh m (hmined ▸ hm)
  own tx htx hn := by
    have hknows := h.own tx (hpool tx htx hn) hn
    rwa [State.knows, ← hsent] at hknows

theorem Phase.Holds.mono {p : Phase} (h : p.Holds s) (hle : s.nextNonce ≤ s'.nextNonce)
    (hsent : s'.lastSent = s.lastSent) (hmined : s'.lastMinedNonce = s.lastMinedNonce)
    (hpool : ∀ tx ∈ s'.pool, ∀ n ∈ p.target, tx.fees.nonce = n → tx ∈ s.pool) : p.Holds s' := by
  cases p with
  | idle | latest | waiting => trivial
  | pending nonce => exact h.trans hle
  | pricing last =>
      exact ⟨hsent.trans h.1, h.2.mono hle hsent hmined fun tx htx => hpool tx htx _ rfl⟩
  | sending o =>
      refine ⟨h.1.mono hle hsent hmined fun tx htx => hpool tx htx _ rfl, ?_⟩
      rw [hsent]
      exact h.2

/-- **The decision**: with the counts as they are, the nonce is clear. -/
theorem choose_holds (hI : Inv s) {nonce : ℕ} (hle : nonce ≤ s.nextNonce) (hblind : s.blind = false) :
    (s.choose nonce s.pendingNonce).Holds s := by
  have hfloor := State.floorNonce_le hI.mined hle
  have hfresh (m : ℕ) (hm : m ∈ s.lastMinedNonce) := State.lt_floorNonce (n := nonce) hm
  -- only the next nonce may be occupied
  have hnext : ∀ tx ∈ s.pool, tx.fees.nonce = s.floorNonce nonce → tx.fees.nonce = s.nextNonce := by
    intro tx htx hn
    have := hI.pool tx htx
    omega
  rw [State.choose]
  split
  · trivial
  rename_i hguard
  cases hlast : s.lastSent with
  | none =>
      -- nothing is pending
      have hfree : s.occupied s.nextNonce ≠ true := by
        intro hocc
        have hlt := State.lt_pendingNonce hocc
        exact hguard ⟨by rw [hlast]; rfl, by omega⟩
      refine ⟨⟨hfloor, hfresh, fun tx htx hn => ?_⟩, fun last hmem => ?_⟩
      · exact absurd (State.occupied_iff.mpr ⟨tx, htx, hnext tx htx hn⟩) hfree
      · rw [hlast] at hmem
        cases hmem
  | some last =>
      have hclear : Clear s (s.floorNonce nonce) := by
        refine ⟨hfloor, hfresh, fun tx htx hn => ?_⟩
        by_contra hunknown
        refine Bool.eq_false_iff.mp hblind ?_
        rw [State.blind, hlast]
        exact List.any_eq_true.mpr ⟨tx, htx, by simp [hnext tx htx hn, hunknown]⟩
      dsimp only
      split
      · rename_i hn
        exact ⟨hlast, hn ▸ hclear⟩
      · rename_i hn
        refine ⟨hclear, fun last' hmem hn' => absurd hn' ?_⟩
        obtain rfl : last = last' := Option.some.inj (hlast.symm.trans hmem)
        exact hn

/-- What a step leaves alone but for the phase. -/
theorem Inv.phase_only (hI : Inv s) {p : Phase} (hp : p.Holds s) : Inv { s with phase := p } where
  pool := hI.pool
  sent := hI.sent
  mined := hI.mined
  phase := by
    refine hp.mono le_rfl rfl rfl fun tx htx _ _ _ => htx

/-- Transactions leave the pool, and the chain may move on. -/
theorem Inv.leave (hI : Inv s) {k : ℕ} {q : PoolTx → Bool} (hle : s.nextNonce ≤ k)
    (hq : ∀ tx ∈ s.pool.filter q, k ≤ tx.fees.nonce) :
    Inv { s with nextNonce := k, pool := s.pool.filter q } where
  pool := hq
  sent := hI.sent
  mined m hm := (hI.mined m hm).trans_le hle
  phase := hI.phase.mono hle rfl rfl fun _ htx _ _ _ => List.mem_of_mem_filter htx

/-- A transaction enters the pool. -/
theorem State.mem_enter {tx tx' : PoolTx} (h : tx' ∈ (s.enter tx).pool) :
    tx' = tx ∨ tx' ∈ s.pool ∧ tx'.fees.nonce ≠ tx.fees.nonce := by
  rcases List.mem_cons.mp h with rfl | h
  · exact .inl rfl
  · obtain ⟨hmem, hne⟩ := List.mem_filter.mp h
    exact .inr ⟨hmem, of_decide_eq_true hne⟩

theorem State.le_of_mem_enter (hI : Inv s) {tx tx' : PoolTx} (htx : s.nextNonce ≤ tx.fees.nonce)
    (h : tx' ∈ (s.enter tx).pool) : s.nextNonce ≤ tx'.fees.nonce := by
  rcases mem_enter h with rfl | ⟨h, -⟩
  · exact htx
  · exact hI.pool tx' h

/-- The transaction of another process enters the pool, not where the send is about to go. -/
theorem Inv.other (hI : Inv s) {tx : SentTxFees} (htx : s.nextNonce ≤ tx.nonce)
    (hne : ∀ n ∈ s.phase.target, tx.nonce ≠ n) : Inv (s.enter ⟨tx, false⟩) where
  pool _ h := State.le_of_mem_enter hI htx h
  sent := hI.sent
  mined := hI.mined
  phase := by
    refine hI.phase.mono le_rfl rfl rfl fun tx' htx' n hn hnonce => ?_
    rcases State.mem_enter htx' with rfl | ⟨h, -⟩
    · exact absurd hnonce (hne n hn)
    · exact h

/-- The transaction of a send enters the pool. -/
theorem Inv.taken (hI : Inv s) {tx : SentTxFees} (htx : s.nextNonce ≤ tx.nonce)
    {sent : Option SentTxFees} (hsent : ∀ last ∈ sent, last.OneKind) {p : Phase}
    (hp : ∀ t, p.Holds t) : Inv { s.enter ⟨tx, true⟩ with lastSent := sent, phase := p } where
  pool _ h := State.le_of_mem_enter hI htx h
  sent := hsent
  mined := hI.mined
  phase := hp _

/-- **One step.** -/
theorem Inv.next (hI : Inv s) {e : Event} (he : Fair s e) : Inv (next s e) := by
  cases e with
  | push p =>
      rw [Oracle.next]
      split
      · exact hI.phase_only (p := .latest) trivial
      · exact hI
  | latestCount n =>
      rw [Oracle.next]
      split
      · by_cases hn : isSafeInteger n = true
        · rw [if_pos hn]
          exact hI.phase_only (p := .pending n) he
        · rw [if_neg hn]
          exact hI.phase_only (p := .idle) trivial
      · exact hI
  | pendingCount n =>
      obtain ⟨rfl, hblind⟩ := he
      rw [Oracle.next]
      split
      · rename_i nonce hphase
        have hle : nonce ≤ s.nextNonce := by
          have := hI.phase
          rwa [hphase] at this
        split
        · exact hI.phase_only (choose_holds hI hle hblind)
        · exact hI.phase_only (p := .idle) trivial
      · exact hI
  | priced fee est =>
      rw [Oracle.next]
      split
      · rename_i last hphase
        have hpricing : Phase.Holds s (.pricing last) := hphase ▸ hI.phase
        obtain ⟨hlast, hclear⟩ := hpricing
        refine hI.phase_only (p := .sending (replacement last fee est)) ⟨hclear, ?_⟩
        rintro last' hmem -
        obtain rfl : last = last' := Option.some.inj (hlast.symm.trans hmem)
        exact replacement_bumped (hI.sent last hlast) fee est
      · exact hI
  | taken tx answered =>
      rw [Oracle.next]
      split
      · split
        · rename_i hfills
          obtain ⟨hfills, hle⟩ := hfills
          split
          · refine hI.taken hle (fun last hmem => ?_) fun _ => trivial
            obtain rfl : tx = last := Option.some.inj hmem
            exact hfills.oneKind
          · exact hI.taken hle hI.sent fun _ => trivial
        · exact hI
      · exact hI
  | receipt =>
      rw [Oracle.next]
      split
      · split
        · rename_i nonce _ hlt
          refine ⟨hI.pool, fun last hmem => (by cases hmem), fun m hm => ?_, trivial⟩
          obtain rfl : nonce = m := Option.some.inj hm
          exact hlt
        · exact hI
      · exact hI
  | fails => exact hI.phase_only (p := .idle) trivial
  | other tx =>
      rw [Oracle.next]
      split
      · rename_i hle
        exact hI.other hle he
      · exact hI
  | mine =>
      rw [Oracle.next]
      split
      · refine hI.leave (Nat.le_succ _) fun tx htx => ?_
        obtain ⟨hmem, hne⟩ := List.mem_filter.mp htx
        have hne : tx.fees.nonce ≠ s.nextNonce := of_decide_eq_true hne
        have hge := hI.pool tx hmem
        omega
      · exact hI
  | drop n => exact hI.leave le_rfl fun tx htx => hI.pool tx (List.mem_of_mem_filter htx)

/-! ### Runs -/

theorem State.Initial.inv (h : s.Initial) : Inv s where
  pool tx htx := (h.pool tx htx).2
  sent := by rw [h.lastSent]; rintro last ⟨⟩
  mined := by rw [h.lastMinedNonce]; rintro m ⟨⟩
  phase := by rw [h.phase]; trivial

/-- A send that is about to go out is safe. -/
theorem Inv.safe (hI : Inv s) {o : Overrides} (h : s.phase = .sending o) : Safe s o := by
  have hsending : Phase.Holds s (.sending o) := h ▸ hI.phase
  exact ⟨hsending.1.fresh, hsending.1.own, hsending.2⟩

/-- **No send collides**, in a run in which counts are answered fairly, no push reads them while
the writer remembers a send and something else is pending, and nobody sends in between. -/
theorem sends_safe (hs : s.Initial) {es : List Event} (hes : machine.Along Fair s es)
    {o : Overrides} (ho : (machine.run s es).phase = .sending o) : Safe (machine.run s es) o :=
  (Transducer.run_inv (fun _ _ hI he => hI.next he) hs.inv hes).safe ho

/-- A blind writer goes for a nonce that is taken, however well the nodes answer. -/
theorem blind_chooses (hI : Inv s) (hphase : s.phase = .pending s.nextNonce)
    (hsafe : isSafeInteger s.pendingNonce = true) (hblind : s.blind = true) :
    ∃ tx ∈ s.pool, s.knows tx = false ∧
      (next s (.pendingCount s.pendingNonce)).phase.target = some tx.fees.nonce := by
  obtain ⟨hsome, hany⟩ := Bool.and_eq_true_iff.mp hblind
  obtain ⟨tx, htx, hunknown⟩ := List.any_eq_true.mp hany
  obtain ⟨hn, hknows⟩ := Bool.and_eq_true_iff.mp hunknown
  have hn : tx.fees.nonce = s.nextNonce := of_decide_eq_true hn
  have hfloor : s.floorNonce s.nextNonce = s.nextNonce := by
    rw [State.floorNonce]
    split
    · rename_i m hm
      have := hI.mined m hm
      exact if_neg (by omega)
    · rfl
  obtain ⟨last, hlast⟩ := Option.isSome_iff_exists.mp hsome
  refine ⟨tx, htx, by simpa using hknows, ?_⟩
  simp only [next, hphase, hsafe, if_true, State.choose, hlast, hfloor, Option.isNone_some,
    Bool.false_eq_true, false_and, if_false, hn]
  split
  · rename_i h
    exact congrArg some h
  · rfl

/-! ### A stuck send, and one that was mined unseen -/

/-- A transaction of the account. -/
def sampleTx (nonce maxFeePerGas maxPriorityFeePerGas : ℕ) : SentTxFees :=
  ⟨⟨some maxFeePerGas, some maxPriorityFeePerGas, none⟩, nonce, 90000⟩

/-- The account before its nonce 5. -/
def sampleAccount : State := ⟨5, [], none, none, .idle⟩

theorem sampleAccount_initial : sampleAccount.Initial :=
  ⟨fun _ h => (by cases h), rfl, rfl, rfl⟩

/-- A push whose receipt does not come in time. -/
def timedOut : List Event :=
  [.push .pushTwapSample, .latestCount 5, .pendingCount 5, .taken (sampleTx 5 100 10) true, .fails]

/-- The next push replaces it. -/
def replacing : List Event :=
  timedOut ++ [.push .pushPrices, .latestCount 5, .pendingCount 6,
    .priced ⟨some 90, some 20, some 80⟩ 80000]

/-- It outbids what is stuck. -/
theorem sample_sends_safe : Safe (machine.run sampleAccount replacing)
    ⟨⟨some 113, some 20, none⟩, 5, some 90000⟩ :=
  sends_safe sampleAccount_initial (by decide +kernel) (by decide +kernel)

/-- The transaction is mined after all, and another process sends. -/
def overtaken : List Event :=
  timedOut ++ [.mine, .other (sampleTx 6 200 20), .push .pushPrices, .latestCount 6,
    .pendingCount 7]

/-- The next push goes to the nonce of the other process, although the nodes answer the counts as
they are. -/
theorem remembered_send_collides :
    machine.Along (fun s e => match e with
      | .latestCount n => n = s.nextNonce
      | .pendingCount n => n = s.pendingNonce
      | _ => True) sampleAccount overtaken ∧
    (machine.run sampleAccount overtaken).phase = .sending (plainOverrides 6) ∧
    (machine.run sampleAccount overtaken).pool = [⟨sampleTx 6 200 20, false⟩] ∧
    ¬ Safe (machine.run sampleAccount overtaken) (plainOverrides 6) := by
  have hpool : (machine.run sampleAccount overtaken).pool = [⟨sampleTx 6 200 20, false⟩] := by
    decide
  refine ⟨?_, by decide, hpool, fun h => ?_⟩
  · exact ⟨trivial, by decide, by decide, trivial, trivial, trivial, trivial, trivial, by decide,
      by decide, trivial⟩
  · have hknows := h.own ⟨sampleTx 6 200 20, false⟩ (by rw [hpool]; exact List.mem_cons_self) rfl
    cases Bool.and_eq_true_iff.mp hknows |>.1

end Ntt.Oracle
