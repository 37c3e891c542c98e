import Ntt.Relayer.Effects

/-!
# The Contracts of the Roles

What each task of the bot may assume of the others, and where it may do what. A delivery works on
the row of its message, under the lock of that message: it assumes that nobody else reserves or
records an attempt for the row, while the cron may confirm, fail or end it at any time. It owes in
return that it records only what it broadcast, with the wallet and nonce that the row holds.

How much may be assumed depends on the runs that are considered, which a `Regime` says.

## Main definitions

* `Inv`: what holds of the tables and the queue in every state.
* `Persists`, `Undisturbed`: the relies.
* `deliveryGuard`, `cronGuard`, `listenerGuard`: where each role may do what.
-/

namespace Ntt.Relayer

open Interleaving

/-- What the runs at hand leave out. -/
structure Regime where
  /-- The session of a message lock lives as long as its delivery. -/
  locked : Prop
  /-- The cron fails no row that is `submitting`, and one that is `submitted` only at a mined nonce
  and while it is not under delivery. -/
  unfailed : Prop
  /-- A row under delivery is ended by nobody else. -/
  unended : Prop
  /-- No broadcast is answered with a deferral. -/
  answered : Prop
  /-- The session of the leader lock lives as long as its cron pass. -/
  led : Prop

/-- An error that ends a row whatever its budget: a permanent one, an expired defer window, or a
deterministic revert. -/
def ErrorMessage.Final : ErrorMessage → Prop
  | .ofError (.permanent _) | .deferTimeout .. | .deterministicRevert => True
  | _ => False

/-! ### Rows -/

namespace Row

/-- The row holds a wallet with a nonce. -/
def Holds (w : Hex) (n : ℕ) (r : Row) : Prop := r.walletUsed = some w ∧ r.nonceUsed = some n

/-- A row may be dead-lettered with a message. -/
def Doomed (msg : ErrorMessage) (r : Row) : Prop :=
  r.status.terminal = true ∨ msg.Final ∨ r.maxRetries ≤ r.retryCount

/-- What the attempt recorded in a row has to do with its state and with the chain. -/
structure Fits (g : Regime) (s : World) (i : ℕ) (r : Row) : Prop where
  pending : r.status = .pending → r.walletUsed = none ∧ r.nonceUsed = none ∧ r.relayTxHash = none
  wallet : r.nonceUsed.isSome = true → r.walletUsed.isSome = true
  committed : r.status = .submitting ∨ r.status = .submitted → r.nonceUsed.isSome = true
  hash : r.status = .submitted → r.relayTxHash.isSome = true
  sent : r.status = .submitted ∨ r.status = .failed → ∀ h, r.relayTxHash = some h →
    ∃ w n, r.Holds w n ∧ ⟨r.destinationChainId, w, n, h, i⟩ ∈ s.sent
  mined : g.locked → g.unfailed → r.status = .failed → ∀ w n, r.Holds w n →
    n < s.accountNonce r.destinationChainId w
  deadLetter : g.locked → g.unfailed → r.status = .deadLetter →
    ∃ msg, r.errorMessage = some msg ∧ (msg.Final ∨ r.maxRetries ≤ r.retryCount)

/-- What others make of a row under delivery. -/
structure Others (g : Regime) (r r' : Row) : Prop where
  held : r'.status.terminal = false → r'.walletUsed = r.walletUsed ∧ r'.nonceUsed = r.nonceUsed ∧
    r'.relayTxHash = r.relayTxHash
  status : r'.status.terminal = false → r'.status = r.status ∨
    (r'.status = .failed ∧ r.status ≠ .submitting ∧ (g.unfailed → r.status ≠ .submitted))
  ended : g.unended → r'.status.terminal = true → r.status.terminal = true

end Row

/-- The invariant of the tables and the queue. -/
structure Inv (d : Deployment) (g : Regime) (s : World) : Prop where
  unique : KeysUnique s.transactions
  queued : ∀ m ∈ s.queue, HasKey s.transactions m.key
  published : ∀ m ∈ s.published, HasKey s.transactions m.key
  fits : ∀ (i : ℕ) (r : Row), s.transactions[i]? = some r → r.Fits g s i
  tracked : ∀ chain ∈ d.chains, ∀ relayer n, s.blockTracker (chain.chainId, relayer) = some n →
    (chain.genesisBlock : ℤ) - 1 ≤ n

/-! ### Relies -/

/-- What nobody takes back. -/
structure Persists (s s' : World) : Prop where
  row : ∀ (i : ℕ) (r : Row), s.transactions[i]? = some r →
    ∃ r', s'.transactions[i]? = some r' ∧ r.Same r'
  sent : ∀ b ∈ s.sent, b ∈ s'.sent
  cursor : ∀ (k : ChainId × Hex) (n : ℤ), s.blockTracker k = some n →
    ∃ n', s'.blockTracker k = some n' ∧ n ≤ n'
  accountNonce : ∀ c w, s.accountNonce c w ≤ s'.accountNonce c w

/-- The row of a key is only changed by the others as they may. -/
structure Undisturbed (g : Regime) (k : Key) (s s' : World) : Prop extends Persists s s' where
  others : g.locked → ∀ (i : ℕ) (r r' : Row), s.transactions[i]? = some r → r.key = k →
    s'.transactions[i]? = some r' → r.Others g r'

theorem Row.Others.refl (g : Regime) (r : Row) : r.Others g r where
  held _ := ⟨rfl, rfl, rfl⟩
  status _ := .inl rfl
  ended _ h := h

theorem Row.Others.trans {g : Regime} {r r' r'' : Row} (h : r.Others g r') (h' : r'.Others g r'')
    (hs : r'.Same r'') : r.Others g r'' := by
  have hback : r''.status.terminal = false → r'.status.terminal = false := by
    intro hnt
    by_contra hterm
    rw [hs.terminal (Bool.eq_true_of_not_eq_false hterm)] at hnt
    exact hterm hnt
  constructor
  · intro hnt
    obtain ⟨hw, hn, hh⟩ := h.held (hback hnt)
    obtain ⟨hw', hn', hh'⟩ := h'.held hnt
    exact ⟨hw'.trans hw, hn'.trans hn, hh'.trans hh⟩
  · intro hnt
    rcases h.status (hback hnt) with hst | ⟨hf, hns, hu⟩ <;>
      rcases h'.status hnt with hst' | ⟨hf', hns', hu'⟩
    · exact .inl (hst'.trans hst)
    · exact .inr ⟨hf', hst ▸ hns', fun hg => hst ▸ hu' hg⟩
    · exact .inr ⟨hst'.trans hf, hns, hu⟩
    · exact .inr ⟨hf', hns, hu⟩
  · exact fun hg ht => h.ended hg (h'.ended hg ht)

theorem Persists.refl (s : World) : Persists s s where
  row _ r hr := ⟨r, hr, .refl r⟩
  sent _ hb := hb
  cursor _ n hn := ⟨n, hn, Int.le_refl n⟩
  accountNonce _ _ := Nat.le_refl _

theorem Persists.trans {s s' s'' : World} (h : Persists s s') (h' : Persists s' s'') :
    Persists s s'' where
  row i r hr := by
    obtain ⟨r', hr', hsame⟩ := h.row i r hr
    obtain ⟨r'', hr'', hsame'⟩ := h'.row i r' hr'
    exact ⟨r'', hr'', hsame.trans hsame'⟩
  sent b hb := h'.sent b (h.sent b hb)
  cursor k n hn := by
    obtain ⟨n', hn', hle⟩ := h.cursor k n hn
    obtain ⟨n'', hn'', hle'⟩ := h'.cursor k n' hn'
    exact ⟨n'', hn'', hle.trans hle'⟩
  accountNonce c w := (h.accountNonce c w).trans (h'.accountNonce c w)

theorem Undisturbed.refl (g : Regime) (k : Key) (s : World) : Undisturbed g k s s where
  toPersists := .refl s
  others _ i r r' hr _ hr' := by
    obtain rfl := Option.some.inj (hr.symm.trans hr')
    exact .refl g r

theorem Undisturbed.trans {g : Regime} {k : Key} {s s' s'' : World} (h : Undisturbed g k s s')
    (h' : Undisturbed g k s' s'') : Undisturbed g k s s'' where
  toPersists := h.toPersists.trans h'.toPersists
  others hg i r r'' hr hk hr'' := by
    obtain ⟨r', hr', hsame⟩ := h.row i r hr
    obtain ⟨q, hq, hsame'⟩ := h'.row i r' hr'
    obtain rfl := Option.some.inj (hr''.symm.trans hq)
    have hk' := hsame.key.trans hk
    exact (h.others hg i r r' hr hk hr').trans (h'.others hg i r' r'' hr' hk' hr'') hsame'

/-! ### Guards -/

/-- The row of an id has the key, and a property. -/
def Own (k : Key) (id : ℕ) (P : Row → Prop) (s : World) : Prop :=
  ∃ r, s.transactions[id]? = some r ∧ r.key = k ∧ P r

section

variable {s s' : World} {k : Key} {id : ℕ} {P : Row → Prop} {recs : List TransactionRecord}

theorem Own.hasKey (ho : Own k id P s) : HasKey s.transactions k := by
  obtain ⟨r, hr, hk, -⟩ := ho
  exact ⟨id, r, hr, hk⟩

theorem HasKey.persists (hp : Persists s s') (hk : HasKey s.transactions k) :
    HasKey s'.transactions k := by
  obtain ⟨i, r, hr, hkey⟩ := hk
  obtain ⟨r', hr', hsame⟩ := hp.row i r hr
  exact ⟨i, r', hr', hsame.key.trans hkey⟩

theorem Own.persists (hP : ∀ r r' : Row, r.Same r' → P r → P r')
    (hp : Persists s s') (ho : Own k id P s) : Own k id P s' := by
  obtain ⟨r, hr, hkey, hPr⟩ := ho
  obtain ⟨r', hr', hsame⟩ := hp.row _ r hr
  exact ⟨r', hr', hsame.key.trans hkey, hP r r' hsame hPr⟩

theorem Own.of_rows (ho : Own k id P s)
    (hrows : s'.transactions = s.transactions) : Own k id P s' := by
  obtain ⟨r, hr, h⟩ := ho
  exact ⟨r, hrows ▸ hr, h⟩

/-- The rows of records that were read are there. -/
def Listed (recs : List TransactionRecord) (s : World) : Prop :=
  ∀ rec ∈ recs, Own rec.key rec.id (fun _ => True) s

theorem Listed.persists (hp : Persists s s') (hl : Listed recs s) :
    Listed recs s' :=
  fun rec hrec => (hl rec hrec).persists (fun _ _ _ h => h) hp

theorem Listed.effect {a : Act} {reply : a.Reply}
    (he : Effect s a reply s') (hl : Listed recs s) : Listed recs s' := by
  intro rec hrec
  obtain ⟨r, hr, hk, -⟩ := hl rec hrec
  obtain ⟨r', hr', hsame⟩ := he.same_row hr
  exact ⟨r', hr', hsame.key.trans hk, trivial⟩

theorem Row.Doomed.same {msg : ErrorMessage} {r r' : Row} (hs : r.Same r') (hd : r.Doomed msg) :
    r'.Doomed msg := by
  rcases hd with ht | hf | hb
  · exact .inl (by rw [hs.terminal ht]; exact ht)
  · exact .inr (.inl hf)
  · exact .inr (.inr (by rw [hs.maxRetries]; exact hb.trans hs.retryCount))

end

/-- The id of the row whose budget the last action used up. -/
def exhaustedLast {d : Deployment} : Past (atomics d) → Option ℕ
  | ⟨.incrementRetry id, some b⟩ :: _ => if b.exhausted then some id else none
  | ⟨.markFailed id _, some b⟩ :: _ => if b.exhausted then some id else none
  | _ => none

/-- After the budget of a row is used up, the row is dead-lettered. -/
def DoomedNext {d : Deployment} (h : Past (atomics d)) (a : Act) : Prop :=
  ∀ id, exhaustedLast h = some id → ∃ msg, a = .markDeadLetter id msg

/-- Where no row waits for its dead-lettering, any action may come. -/
theorem DoomedNext.of_none {d : Deployment} {h : Past (atomics d)} {a : Act}
    (hlast : exhaustedLast h = none) : DoomedNext h a := by
  intro id hid
  rw [hlast] at hid
  cases hid

/-- Counts 1 for a message that replaces a nonce. -/
def RelayMessage.replaces (m : RelayMessage) : ℤ := if m.replaceNonce.isSome then 1 else 0

/-- What the actions of a delivery have to do with the number of its broadcasts: each broadcast is
paid for by what follows it. -/
def score {d : Deployment} (m : RelayMessage) : Past (atomics d) → ℤ
  | [] => 0
  | ⟨.broadcast .., _⟩ :: h => score m h - 1
  | ⟨.markSubmitted .., true⟩ :: h => score m h + 1 - m.replaces
  | ⟨.incrementRetry _, some _⟩ :: h => score m h + 1
  | ⟨.nack _, _⟩ :: h => score m h - m.replaces
  | _ :: h => score m h

/-- Where a delivery does what. -/
def deliveryGuard {d : Deployment} (g : Regime) (m : RelayMessage) (h : Past (atomics d)) :
    Act → World → Prop
  | .insertPending _, _ | .recordScan .., _ | .initCursor .., _ | .publish _, _ => False
  | .reserve id c _, s => Own m.key id (fun r => c = r.destinationChainId) s
  | .broadcast id c w n, s => score m h = 0 ∧ Own m.key id (fun r => c = r.destinationChainId ∧
      (g.locked → (r.status.terminal = true ∧ ¬ g.unended) ∨
        (r.status.terminal = false ∧ r.Holds w n))) s
  | .markSubmitted id hash w n, s => Own m.key id (fun r =>
      ⟨r.destinationChainId, w, n, hash, id⟩ ∈ s.sent ∧
      (g.locked → r.status.terminal = true ∨ (r.Holds w n ∧
        (m.replaceNonce = none → r.status = .submitting) ∧
        (g.unfailed → r.status = .submitting ∨ r.status = .submitted)))) s
  | .markConfirmed id, s | .touch id, s | .incrementRetry id, s => Own m.key id (fun _ => True) s
  | .markFailed id _, s => Own m.key id (fun r => g.locked → r.status.terminal = true ∨
      r.status = .pending ∨ r.status = .failed) s
  | .markDeadLetter id msg, s => Own m.key id (fun r => g.locked → r.Doomed msg) s
  | .nack m', s => m' = m ∧ HasKey s.transactions m.key ∧
      (g.locked → g.answered → 0 ≤ score m h)
  | _, _ => True

/-- Where the cron does what. -/
def cronGuard {d : Deployment} (g : Regime) (h : Past (atomics d)) : Act → World → Prop
  | .insertPending _, _ | .recordScan .., _ | .initCursor .., _ | .nack _, _ | .reserve .., _
  | .broadcast .., _ | .markSubmitted .., _ => False
  | .publish m, s => HasKey s.transactions m.key ∧ (m.replaceNonce.isSome = true →
      ∃ id b h', h = ⟨.incrementRetry id, some b⟩ :: h' ∧ b.exhausted = false ∧
        Own m.key id (fun _ => True) s)
  | .markDeadLetter id msg, s => ∀ r, s.transactions[id]? = some r → g.unfailed → r.Doomed msg
  | _, _ => True

/-- A log that the bot relays: an `ExecutionRequested` of the relayer of a chain that correlates
with a Core message of its transaction. -/
def Correlates (d : Deployment) (chain : ChainConfig) (relayer : Hex) (b : ℕ)
    (log : ExecutionRequested) (ev : DecodedEvent) : Prop :=
  log ∈ d.source.logs chain.chainId b ∧ log.address = relayer ∧
    ∃ core receipt, chain.coreBridgeAddress = some core ∧
      d.source.receipt chain.chainId log.txHash = some receipt ∧
      correlate chain relayer core b log receipt = some ev

/-- Where a listener does what: it records exactly the events of a window that starts no later than
after the cursor. -/
def listenerGuard (d : Deployment) : Act → World → Prop
  | .insertPending _, _ | .nack _, _ | .reserve .., _ | .broadcast .., _ | .markSubmitted .., _
  | .markConfirmed _, _ | .touch _, _ | .incrementRetry _, _ | .markFailed .., _
  | .markDeadLetter .., _ => False
  | .publish m, s => HasKey s.transactions m.key ∧ m.replaceNonce = none
  | .initCursor c relayer genesis, _ => ∃ chain ∈ d.chains, c = chain.chainId ∧
      chain.specialRelayerAddress = some relayer ∧ genesis = chain.genesisBlock
  | .recordScan c relayer inputs toBlock, s => ∃ chain ∈ d.chains, c = chain.chainId ∧
      chain.specialRelayerAddress = some relayer ∧ ∃ cursor last : ℤ,
        s.blockTracker (c, relayer) = some last ∧ cursor ≤ last ∧
        (chain.genesisBlock : ℤ) - 1 ≤ cursor ∧
        (∀ (b : ℕ) (log : ExecutionRequested) (ev : DecodedEvent),
          Correlates d chain relayer b log ev → cursor < b → (b : ℤ) ≤ toBlock →
            eventToInsert d.maxRetries ev ∈ inputs) ∧
        ∀ input ∈ inputs, ∃ (b : ℕ) (log : ExecutionRequested) (ev : DecodedEvent),
          Correlates d chain relayer b log ev ∧ cursor < b ∧ (b : ℤ) ≤ toBlock ∧
            input = eventToInsert d.maxRetries ev
  | _, _ => True

/-- The choices made for an action of a task. -/
structure Allowed (g : Regime) (t : Task) (a : Act) (ch : Choice) (s : World) : Prop where
  failing : g.unfailed → t = .cron → ∀ id msg, a = .markFailed id msg →
    ∀ r, s.transactions[id]? = some r → r.status ≠ .submitting ∧
      (r.status = .submitted → ∀ w n, r.Holds w n → n < s.accountNonce r.destinationChainId w)
  answered : g.answered → ∀ id c w n, a = .broadcast id c w n →
    ∀ taken hash message, ch ≠ .sends taken hash (some (.defer message))

/-- The contract of a delivery. -/
def deliveryContract (d : Deployment) (g : Regime) (m : RelayMessage) (again : Bool) :
    Contract (atomics d) (Inv d g) where
  rely := Undisturbed g m.key
  allows := Allowed g (.delivery m again)
  guard h a s := DoomedNext h a ∧ deliveryGuard g m h a s
  final h s := exhaustedLast h = none ∧ (g.locked → g.answered → 0 ≤ m.replaces + score m h ∨
    ∃ id, Own m.key id (fun r => r.status.terminal = true) s)
  rely_refl := .refl g m.key
  rely_trans := .trans

/-- The contract of a cron pass. -/
def cronContract (d : Deployment) (g : Regime) : Contract (atomics d) (Inv d g) where
  rely := Persists
  allows := Allowed g .cron
  guard h a s := DoomedNext h a ∧ cronGuard g h a s
  final h _ := exhaustedLast h = none
  rely_refl := .refl
  rely_trans := .trans

/-- The contract of a scan and of the sweep. -/
def listenerContract (d : Deployment) (g : Regime) : Contract (atomics d) (Inv d g) where
  rely := Persists
  allows _ _ _ := True
  guard _ := listenerGuard d
  final _ _ := True
  rely_refl := .refl
  rely_trans := .trans

/-- The contract of a task. -/
def contract (d : Deployment) (g : Regime) : Task → Contract (atomics d) (Inv d g)
  | .scan _ | .sweep _ => listenerContract d g
  | .delivery m again => deliveryContract d g m again
  | .cron => cronContract d g

end Ntt.Relayer
