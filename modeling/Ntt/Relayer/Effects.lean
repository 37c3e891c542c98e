import Ntt.Relayer.System

/-!
# What the Actions of the Relayer Bot Can Do

`Effect` lists once what an action can do to the shared state, and `Edit` what an update can do to
a row; what follows about the bot uses these and not the queries.

## Main results

* `perform_effect`: every action has one of the listed effects.
* `Effect.row`: what becomes of a row; `Effect.source`: where a row comes from.
* `insertAll_spec`: what the insertions of a scan leave.
-/

namespace Ntt.Relayer

open Interleaving TransactionsRepo BlockTrackerRepo

/-- No two rows have the same key. -/
def KeysUnique (rows : List Row) : Prop :=
  ∀ (i j : ℕ) (r r' : Row), rows[i]? = some r → rows[j]? = some r' → r.key = r'.key → i = j

/-- There is a row with the key. -/
def HasKey (rows : List Row) (k : Key) : Prop := ∃ (i : ℕ) (r : Row), rows[i]? = some r ∧ r.key = k

def InsertPendingInput.key (input : InsertPendingInput) : Key :=
  (input.sourceChainId, input.eventTxHash)

/-- What an update does to the row of an id, by its reply. -/
inductive Edit (s : World) : (a : Act) → a.Reply → ℕ → Row → Row → Prop
  | reserve {id : ℕ} {c : ChainId} {nonces : Hex → ℕ} {w : Hex} {r : Row}
      (hst : r.status ∈ [TxStatus.pending, .failed, .submitting]) :
      Edit s (.reserve id c nonces) (.ok ⟨w, reserveNonce s.transactions w c (nonces w)⟩) id r
        { r with
          status := .submitting
          walletUsed := some w
          nonceUsed := some (reserveNonce s.transactions w c (nonces w))
          updatedAt := s.clock }
  | markSubmitted {id : ℕ} {h w : Hex} {n : ℕ} {r : Row}
      (hst : r.status ∈ [TxStatus.pending, .failed, .submitting, .submitted]) :
      Edit s (.markSubmitted id h w n) true id r
        { r with
          status := .submitted
          relayTxHash := some h
          walletUsed := some w
          nonceUsed := some n
          updatedAt := s.clock }
  | markConfirmed {id : ℕ} {r : Row}
      (hst : r.status ∈ [TxStatus.pending, .submitting, .submitted, .failed]) :
      Edit s (.markConfirmed id) true id r
        { r with status := .confirmed, nonceUsed := keptNonce r, updatedAt := s.clock }
  | touch {id : ℕ} {r : Row}
      (hst : r.status ∈ [TxStatus.pending, .submitting, .submitted, .failed]) :
      Edit s (.touch id) () id r { r with updatedAt := s.clock }
  | incrementRetry {id : ℕ} {r : Row} (hst : r.status ∈ [TxStatus.submitting, .submitted]) :
      Edit s (.incrementRetry id) (some ⟨r.retryCount + 1, r.maxRetries⟩) id r
        { r with retryCount := r.retryCount + 1, updatedAt := s.clock }
  | markFailed {id : ℕ} {msg : ErrorMessage} {r : Row}
      (hst : r.status ∈ [TxStatus.pending, .submitted, .failed]) :
      Edit s (.markFailed id msg) (some ⟨r.retryCount + 1, r.maxRetries⟩) id r
        { r with
          status := .failed
          errorMessage := some msg
          retryCount := r.retryCount + 1
          updatedAt := s.clock }
  | markDeadLetter {id : ℕ} {msg : ErrorMessage} {r : Row}
      (hst : r.status ∈ [TxStatus.pending, .submitting, .submitted, .failed]) :
      Edit s (.markDeadLetter id msg) true id r
        { r with
          status := .deadLetter
          errorMessage := some msg
          nonceUsed := keptNonce r
          updatedAt := s.clock }

/-- The row that an update is of. -/
def Act.updates : Act → Option ℕ
  | .reserve id _ _ | .markSubmitted id .. | .markConfirmed id | .touch id | .incrementRetry id
  | .markFailed id _ | .markDeadLetter id _ => some id
  | _ => none

/-- What an action does, by its reply. -/
inductive Effect (s : World) : (a : Act) → a.Reply → World → Prop
  | same {a : Act} {reply : a.Reply} : Effect s a reply s
  | edit {a : Act} {reply : a.Reply} {id : ℕ} {r r' : Row} (hr : s.transactions[id]? = some r)
      (he : Edit s a reply id r r') :
      Effect s a reply { s with transactions := s.transactions.set id r' }
  | insertPending {input : InsertPendingInput} {rec : TransactionRecord} {rows : List Row}
      (h : insertPending s.transactions s.clock input = (rec, rows)) :
      Effect s (.insertPending input) rec { s with transactions := rows }
  | initCursor {c : ChainId} {relayer : Hex} {genesis : ℕ} :
      Effect s (.initCursor c relayer genesis) ()
        { s with blockTracker := init s.blockTracker c relayer genesis }
  | recordScan {c : ChainId} {relayer : Hex} {inputs : List InsertPendingInput} {toBlock : ℤ}
      {recs : List TransactionRecord} {rows : List Row}
      (h : World.insertAll s.clock s.transactions inputs = (recs, rows)) :
      Effect s (.recordScan c relayer inputs toBlock) recs
        { s with
          transactions := rows
          blockTracker := advance s.blockTracker c relayer toBlock }
  | publish {msg : RelayMessage} :
      Effect s (.publish msg) ()
        { s with queue := s.queue ++ [msg], published := s.published ++ [msg] }
  | nack {msg : RelayMessage} : Effect s (.nack msg) () { s with queue := s.queue ++ [msg] }
  | broadcast {id : ℕ} {c : ChainId} {w h : Hex} {n : ℕ} {reply : Except RelayError Hex}
      (hmined : s.accountNonce c w ≤ n) (hnames : s.names ⟨c, w, n, h, id⟩ = true)
      (hreply : ∀ h', reply = .ok h' → h' = h) :
      Effect s (.broadcast id c w n) reply { s with sent := ⟨c, w, n, h, id⟩ :: s.sent }

section

variable {d : Deployment} {s s' : World} {id : ℕ} {states : List TxStatus} {change : Row → Row}
  {res : Option (Row × List Row)}

/-- An update writes the row or finds none in its states. -/
theorem updated_cases {b : Bool} (hres : res = update s.transactions id states change)
    (h : s.updated res = (b, s')) :
    (b = true ∧ ∃ r, s.transactions[id]? = some r ∧ r.status ∈ states ∧
      s' = { s with transactions := s.transactions.set id (change r) }) ∨
    (b = false ∧ s' = s ∧ ∀ r, s.transactions[id]? = some r → r.status ∉ states) := by
  subst hres
  cases hu : update s.transactions id states change with
  | none =>
      rw [hu] at h
      obtain ⟨rfl, rfl⟩ := Prod.mk.inj h
      exact .inr ⟨rfl, rfl, update_eq_none.mp hu⟩
  | some p =>
      obtain ⟨r', rows⟩ := p
      rw [hu] at h
      obtain ⟨r, hr, hst, -, rfl⟩ := update_eq_some.mp hu
      obtain ⟨rfl, rfl⟩ := Prod.mk.inj h
      exact .inl ⟨rfl, r, hr, hst, rfl⟩

/-- An update that returns the budget does, or finds no row in its states. -/
theorem budgeted_cases {b : Option Budget} (hres : res = update s.transactions id states change)
    (h : s.budgeted res = (b, s')) :
    (∃ r, s.transactions[id]? = some r ∧ r.status ∈ states ∧
      b = some ⟨(change r).retryCount, (change r).maxRetries⟩ ∧
      s' = { s with transactions := s.transactions.set id (change r) }) ∨
    (b = none ∧ s' = s ∧ ∀ r, s.transactions[id]? = some r → r.status ∉ states) := by
  subst hres
  cases hu : update s.transactions id states change with
  | none =>
      rw [hu] at h
      obtain ⟨rfl, rfl⟩ := Prod.mk.inj h
      exact .inr ⟨rfl, rfl, update_eq_none.mp hu⟩
  | some p =>
      obtain ⟨r', rows⟩ := p
      rw [hu] at h
      obtain ⟨r, hr, hst, rfl, rfl⟩ := update_eq_some.mp hu
      obtain ⟨rfl, rfl⟩ := Prod.mk.inj h
      exact .inl ⟨r, hr, hst, rfl, rfl⟩

/-- A reservation marks the row or finds none in its states. -/
theorem reserve_cases {c : ChainId} {w : Hex} {chainNonce : ℕ} {reply : Except RelayError Lease}
    (h : s.reserve id c w chainNonce = (reply, s')) :
    (∃ r, s.transactions[id]? = some r ∧ r.status ∈ [TxStatus.pending, .failed, .submitting] ∧
      reply = .ok ⟨w, reserveNonce s.transactions w c chainNonce⟩ ∧
      s' = { s with transactions := s.transactions.set id { r with
        status := .submitting
        walletUsed := some w
        nonceUsed := some (reserveNonce s.transactions w c chainNonce)
        updatedAt := s.clock } }) ∨
    ((∃ message, reply = .error (.retriable message)) ∧ s' = s ∧ ∀ r, s.transactions[id]? = some r →
      r.status ∉ [TxStatus.pending, .failed, .submitting]) := by
  simp only [World.reserve] at h
  split at h
  · rename_i r' rows hu
    obtain ⟨r, hr, hst, -, rfl⟩ := update_eq_some.mp hu
    obtain ⟨rfl, rfl⟩ := Prod.mk.inj h
    exact .inl ⟨r, hr, hst, rfl, rfl⟩
  · rename_i hu
    obtain ⟨rfl, rfl⟩ := Prod.mk.inj h
    exact .inr ⟨⟨_, rfl⟩, rfl, update_eq_none.mp hu⟩

/-- A reservation gives a wallet of the pool its next nonce, or fails and changes nothing. -/
theorem perform_reserve {c : ChainId} {nonces : Hex → ℕ} {ch : Choice}
    {reply : Except RelayError Lease}
    (h : perform d (.reserve id c nonces) ch s = some (reply, s')) :
    (∃ w r, ch = .wallet (some w) ∧ w ∈ d.wallets ∧ s.transactions[id]? = some r ∧
      r.status ∈ [TxStatus.pending, .failed, .submitting] ∧
      reply = .ok ⟨w, reserveNonce s.transactions w c (nonces w)⟩ ∧
      s' = { s with transactions := s.transactions.set id { r with
        status := .submitting
        walletUsed := some w
        nonceUsed := some (reserveNonce s.transactions w c (nonces w))
        updatedAt := s.clock } }) ∨
    (∃ err, reply = .error err) ∧ s' = s := by
  cases ch with
  | wallet w =>
      cases w with
      | none =>
          obtain ⟨rfl, rfl⟩ := Prod.mk.inj (Option.some.inj h)
          exact .inr ⟨⟨_, rfl⟩, rfl⟩
      | some w =>
          simp only [perform] at h
          split at h
          · rename_i hw
            rcases reserve_cases (Option.some.inj h) with ⟨r, hr, hst, rfl, rfl⟩ | ⟨⟨_, rfl⟩, rfl, -⟩
            · exact .inl ⟨w, r, rfl, hw, hr, hst, rfl, rfl⟩
            · exact .inr ⟨⟨_, rfl⟩, rfl⟩
          · cases h
  | _ => cases h

/-- Every action has one of the listed effects. -/
theorem perform_effect {a : Act} {ch : Choice} {reply : a.Reply}
    (h : perform d a ch s = some (reply, s')) : Effect s a reply s' := by
  cases a with
  | markSubmitted id hash w n =>
      rcases updated_cases rfl (Option.some.inj h) with ⟨rfl, r, hr, hst, rfl⟩ | ⟨-, rfl, -⟩
      · exact .edit hr (.markSubmitted hst)
      · exact .same
  | markConfirmed id =>
      rcases updated_cases rfl (Option.some.inj h) with ⟨rfl, r, hr, hst, rfl⟩ | ⟨-, rfl, -⟩
      · exact .edit hr (.markConfirmed hst)
      · exact .same
  | markDeadLetter id msg =>
      rcases updated_cases rfl (Option.some.inj h) with ⟨rfl, r, hr, hst, rfl⟩ | ⟨-, rfl, -⟩
      · exact .edit hr (.markDeadLetter hst)
      · exact .same
  | touch id =>
      obtain ⟨-, rfl⟩ := Prod.mk.inj (Option.some.inj h)
      rcases updated_cases (s := s) rfl (Prod.mk.eta (p := s.updated (touch s.transactions s.clock id))).symm
        with ⟨-, r, hr, hst, hs⟩ | ⟨-, hs, -⟩
      · rw [hs]
        exact .edit hr (.touch hst)
      · rw [hs]
        exact .same
  | incrementRetry id =>
      rcases budgeted_cases rfl (Option.some.inj h) with ⟨r, hr, hst, rfl, rfl⟩ | ⟨-, rfl, -⟩
      · exact .edit hr (.incrementRetry hst)
      · exact .same
  | markFailed id msg =>
      rcases budgeted_cases rfl (Option.some.inj h) with ⟨r, hr, hst, rfl, rfl⟩ | ⟨-, rfl, -⟩
      · exact .edit hr (.markFailed hst)
      · exact .same
  | reserve id c nonces =>
      rcases perform_reserve h with ⟨w, r, -, -, hr, hst, rfl, rfl⟩ | ⟨-, rfl⟩
      · exact .edit hr (.reserve hst)
      · exact .same
  | broadcast id c w n =>
      cases ch with
      | sends taken hash err =>
          cases taken with
          | true =>
              simp only [perform] at h
              split at h
              · rename_i hok
                obtain ⟨rfl, rfl⟩ := Prod.mk.inj (Option.some.inj h)
                refine .broadcast hok.1 hok.2 ?_
                intro h' hh'
                cases err with
                | none => exact (Except.ok.inj hh').symm
                | some e => cases hh'
              · cases h
          | false =>
              cases err with
              | none => cases h
              | some e =>
                  obtain ⟨rfl, rfl⟩ := Prod.mk.inj (Option.some.inj h)
                  exact .same
      | _ => cases h
  | insertPending input =>
      obtain ⟨rfl, rfl⟩ := Prod.mk.inj (Option.some.inj h)
      exact .insertPending rfl
  | recordScan c relayer inputs toBlock =>
      obtain ⟨rfl, rfl⟩ := Prod.mk.inj (Option.some.inj h)
      exact .recordScan rfl
  | initCursor c relayer genesis =>
      obtain ⟨rfl, rfl⟩ := Prod.mk.inj (Option.some.inj h)
      exact .initCursor
  | publish msg =>
      obtain ⟨rfl, rfl⟩ := Prod.mk.inj (Option.some.inj h)
      exact .publish
  | nack msg =>
      obtain ⟨rfl, rfl⟩ := Prod.mk.inj (Option.some.inj h)
      exact .nack
  | findBySourceEvent | selectByStatus | readCursor | ack | deadLetter | getLogs | dateNow =>
      obtain ⟨-, rfl⟩ := Prod.mk.inj (Option.some.inj h)
      exact .same
  | selectStaleByStatus | getBlockNumber | getTransactionReceipt | prepare | getTransactionCounts
  | getReceipt | isTxKnown =>
      -- a call whose answer is open changes nothing
      cases ch
      all_goals cases h
      all_goals exact .same

/-- A broadcast whose hash comes back was taken. -/
theorem perform_broadcast_ok {c : ChainId} {w hash : Hex} {n : ℕ} {ch : Choice}
    (h : perform d (.broadcast id c w n) ch s = some (.ok hash, s')) :
    s.accountNonce c w ≤ n ∧ s.names ⟨c, w, n, hash, id⟩ = true ∧
      s' = { s with sent := ⟨c, w, n, hash, id⟩ :: s.sent } := by
  cases ch with
  | sends taken hash' err =>
      cases taken with
      | true =>
          simp only [perform] at h
          split at h
          · rename_i hok
            obtain ⟨hreply, rfl⟩ := Prod.mk.inj (Option.some.inj h)
            cases err with
            | none =>
                obtain rfl := Except.ok.inj hreply
                exact ⟨hok.1, hok.2, rfl⟩
            | some e => cases hreply
          · cases h
      | false => cases err <;> cases h
  | _ => cases h

theorem effect_of {a : Act} {ch : Choice} {reply : (atomics d).Reply a}
    (h : (atomics d).perform a ch s = some (reply, s')) : Effect s a reply s' := perform_effect h

/-! ### Rows -/

/-- The parts of a row that no update changes. -/
structure Row.Same (r r' : Row) : Prop where
  key : r'.key = r.key
  destinationChainId : r'.destinationChainId = r.destinationChainId
  relayerAddress : r'.relayerAddress = r.relayerAddress
  payload : r'.payload = r.payload
  maxRetries : r'.maxRetries = r.maxRetries
  createdAt : r'.createdAt = r.createdAt
  retryCount : r.retryCount ≤ r'.retryCount
  terminal : r.status.terminal = true → r' = r

theorem Row.Same.refl (r : Row) : r.Same r :=
  ⟨rfl, rfl, rfl, rfl, rfl, rfl, Nat.le_refl _, fun _ => rfl⟩

theorem Row.Same.trans {r r' r'' : Row} (h : r.Same r') (h' : r'.Same r'') : r.Same r'' where
  key := h'.key.trans h.key
  destinationChainId := h'.destinationChainId.trans h.destinationChainId
  relayerAddress := h'.relayerAddress.trans h.relayerAddress
  payload := h'.payload.trans h.payload
  maxRetries := h'.maxRetries.trans h.maxRetries
  createdAt := h'.createdAt.trans h.createdAt
  retryCount := h.retryCount.trans h'.retryCount
  terminal ht := by
    obtain rfl := h.terminal ht
    exact h'.terminal ht

theorem Edit.updates {a : Act} {reply : a.Reply} {r r' : Row} (h : Edit s a reply id r r') :
    a.updates = some id := by
  cases h <;> rfl

theorem not_terminal_of_mem {states : List TxStatus} (hs : ∀ st ∈ states, st.terminal = false)
    {st : TxStatus} (h : st ∈ states) : st.terminal = false := hs st h

/-- An update happens in a state that is not terminal. -/
theorem Edit.not_terminal {a : Act} {reply : a.Reply} {r r' : Row} (h : Edit s a reply id r r') :
    r.status.terminal = false := by
  cases h with
  | reserve hst | markSubmitted hst | markConfirmed hst | touch hst | incrementRetry hst
  | markFailed hst | markDeadLetter hst => exact not_terminal_of_mem (by decide) hst

/-- The row that an action ends. -/
def Act.ends : Act → Option ℕ
  | .markConfirmed id | .markDeadLetter id _ => some id
  | _ => none

/-- An update that ends a row keeps its wallet, and its nonce if it has a hash. -/
theorem Edit.ends {a : Act} {reply : a.Reply} {r r' : Row} (h : Edit s a reply id r r')
    (hterm : r'.status.terminal = true) : a.ends = some id ∧ r'.walletUsed = r.walletUsed ∧
      r'.nonceUsed = keptNonce r := by
  have hnt := h.not_terminal
  cases h with
  | markConfirmed | markDeadLetter => exact ⟨rfl, rfl, rfl⟩
  | reserve | markSubmitted | markFailed => cases hterm
  | touch | incrementRetry =>
      rw [show r.status.terminal = true from hterm] at hnt
      cases hnt

/-- No update changes more than the state, the attempt and the budget of a row. -/
theorem Edit.same {a : Act} {reply : a.Reply} {r r' : Row} (h : Edit s a reply id r r') :
    r.Same r' := by
  have hst := h.not_terminal
  have hterm : r.status.terminal = true → r' = r := fun ht => by simp [hst] at ht
  cases h
  all_goals exact ⟨rfl, rfl, rfl, rfl, rfl, rfl, by simp, hterm⟩

end

/-! ### Insertions -/

/-- A table after the insertion of rows, each for one of the inputs, and at most one for a key. -/
structure Grows (now : ℕ) (inputs : List InsertPendingInput) (rows rows' : List Row) : Prop where
  news : ∃ news, rows' = rows ++ news ∧ ∀ r ∈ news, ∃ input ∈ inputs, r = pendingRow now input
  unique : KeysUnique rows → KeysUnique rows'
  has : ∀ input ∈ inputs, HasKey rows' input.key

section

variable {now : ℕ} {input : InsertPendingInput} {inputs : List InsertPendingInput}
  {rows rows' rows'' : List Row}

theorem Grows.refl (now : ℕ) (rows : List Row) : Grows now [] rows rows where
  news := ⟨[], (List.append_nil rows).symm, fun _ h => absurd h List.not_mem_nil⟩
  unique h := h
  has _ h := absurd h List.not_mem_nil

/-- Rows stay where they are. -/
theorem Grows.row (h : Grows now inputs rows rows') {i : ℕ} {r : Row} (hr : rows[i]? = some r) :
    rows'[i]? = some r := by
  obtain ⟨news, rfl, -⟩ := h.news
  rw [List.getElem?_append_left (List.getElem?_eq_some_iff.mp hr).1]
  exact hr

theorem HasKey.grows (h : Grows now inputs rows rows') {k : Key} (hk : HasKey rows k) :
    HasKey rows' k := by
  obtain ⟨i, r, hr, rfl⟩ := hk
  exact ⟨i, r, h.row hr, rfl⟩

/-- A row after insertions was there before, or is new. -/
theorem Grows.source (h : Grows now inputs rows rows') {i : ℕ} {r : Row} (hr : rows'[i]? = some r) :
    rows[i]? = some r ∨ (rows[i]? = none ∧ ∃ input ∈ inputs, r = pendingRow now input) := by
  obtain ⟨news, rfl, hnews⟩ := h.news
  rcases Nat.lt_or_ge i rows.length with hi | hi
  · rw [List.getElem?_append_left hi] at hr
    exact .inl hr
  · rw [List.getElem?_append_right hi] at hr
    exact .inr ⟨List.getElem?_eq_none hi, hnews r (List.mem_of_getElem? hr)⟩

theorem Grows.trans (h : Grows now [input] rows rows') (h' : Grows now inputs rows' rows'') :
    Grows now (input :: inputs) rows rows'' := by
  obtain ⟨news, rfl, hnews⟩ := h.news
  obtain ⟨news', rfl, hnews'⟩ := h'.news
  constructor
  · refine ⟨news ++ news', List.append_assoc _ _ _, fun r hr => ?_⟩
    rcases List.mem_append.mp hr with hr | hr
    · obtain ⟨i, hi, rfl⟩ := hnews r hr
      exact ⟨i, List.mem_cons.mpr (.inl (List.mem_singleton.mp hi)), rfl⟩
    · obtain ⟨i, hi, rfl⟩ := hnews' r hr
      exact ⟨i, List.mem_cons_of_mem _ hi, rfl⟩
  · exact fun hu => h'.unique (h.unique hu)
  · intro i hi
    rcases List.mem_cons.mp hi with rfl | hi
    · exact (h.has i List.mem_cons_self).grows h'
    · exact h'.has i hi

theorem insertPending_grows {rec : TransactionRecord}
    (h : insertPending rows now input = (rec, rows')) : Grows now [input] rows rows' := by
  obtain ⟨hrec, hkey, hrows⟩ := insertPending_spec h
  have hhas : ∀ i ∈ [input], HasKey rows' i.key := by
    intro i hi
    obtain rfl := List.mem_singleton.mp hi
    exact ⟨rec.id, rec.toRow, hrec, hkey⟩
  rcases hrows with rfl | ⟨hnone, -, rfl⟩
  · exact ⟨⟨[], (List.append_nil _).symm, fun r h => absurd h List.not_mem_nil⟩, fun hu => hu, hhas⟩
  · refine ⟨⟨[pendingRow now input], rfl, ?_⟩, ?_, hhas⟩
    · intro r hr
      exact ⟨input, List.mem_singleton_self _, List.mem_singleton.mp hr⟩
    · intro hu i j r r' hr hr' hkey'
      have hget : ∀ {i : ℕ} {r : Row}, (rows ++ [pendingRow now input])[i]? = some r →
          rows[i]? = some r ∨ (i = rows.length ∧ r = pendingRow now input) := by
        intro i r hr
        rcases Nat.lt_or_ge i rows.length with hi | hi
        · rw [List.getElem?_append_left hi] at hr
          exact .inl hr
        · have hlt := (List.getElem?_eq_some_iff.mp hr).1
          rw [List.length_append, List.length_singleton] at hlt
          obtain rfl : i = rows.length := by omega
          rw [List.getElem?_concat_length] at hr
          exact .inr ⟨rfl, (Option.some.inj hr).symm⟩
      -- the key of the new row is no other row's
      rcases hget hr with h₁ | ⟨rfl, rfl⟩ <;> rcases hget hr' with h₂ | ⟨rfl, rfl⟩
      · exact hu i j r r' h₁ h₂ hkey'
      · exact absurd hkey' (hnone i r h₁)
      · exact absurd hkey'.symm (hnone j r' h₂)
      · rfl

/-- **The insertions of a scan.** -/
theorem insertAll_spec {recs : List TransactionRecord}
    (h : World.insertAll now rows inputs = (recs, rows')) : Grows now inputs rows rows' ∧
      ∀ rec ∈ recs, rows'[rec.id]? = some rec.toRow := by
  induction inputs generalizing rows recs with
  | nil =>
      obtain ⟨rfl, rfl⟩ := Prod.mk.inj h
      exact ⟨Grows.refl now rows, fun rec hrec => absurd hrec List.not_mem_nil⟩
  | cons input inputs ih =>
      obtain ⟨rfl, rfl⟩ := Prod.mk.inj h
      have hfirst : Grows now [input] rows (insertPending rows now input).2 :=
        insertPending_grows rfl
      obtain ⟨hrest, hrecs⟩ := ih rfl
      refine ⟨hfirst.trans hrest, fun rec hrec => ?_⟩
      rcases List.mem_cons.mp hrec with rfl | hrec
      · exact hrest.row (insertPending_spec rfl).1
      · exact hrecs rec hrec

end

/-! ### What becomes of rows -/

/-- The rows that an action may insert. -/
def Act.inputs : Act → List InsertPendingInput
  | .insertPending input => [input]
  | .recordScan _ _ inputs _ => inputs
  | _ => []

section

variable {s s' : World} {a : Act} {reply : a.Reply}

/-- A row is left, or updated by the action. -/
theorem Effect.row (h : Effect s a reply s') {i : ℕ} {r : Row} (hr : s.transactions[i]? = some r) :
    ∃ r', s'.transactions[i]? = some r' ∧ (r' = r ∨ Edit s a reply i r r') := by
  cases h with
  | @edit _ _ id r₀ r₁ hr₀ he =>
      rcases eq_or_ne i id with rfl | hi
      · obtain rfl := Option.some.inj (hr.symm.trans hr₀)
        refine ⟨r₁, List.getElem?_set_self (List.getElem?_eq_some_iff.mp hr).1, .inr he⟩
      · exact ⟨r, (List.getElem?_set_ne hi.symm).trans hr, .inl rfl⟩
  | insertPending hins => exact ⟨r, (insertPending_grows hins).row hr, .inl rfl⟩
  | recordScan hins => exact ⟨r, (insertAll_spec hins).1.row hr, .inl rfl⟩
  | same | initCursor | publish | nack | broadcast => exact ⟨r, hr, .inl rfl⟩

/-- A row was there, was updated by the action, or was inserted by it. -/
theorem Effect.source (h : Effect s a reply s') {i : ℕ} {r' : Row}
    (hr' : s'.transactions[i]? = some r') :
    (∃ r, s.transactions[i]? = some r ∧ (r' = r ∨ Edit s a reply i r r')) ∨
      (s.transactions[i]? = none ∧ ∃ input ∈ a.inputs, r' = pendingRow s.clock input) := by
  cases h with
  | @edit _ _ id r₀ r₁ hr₀ he =>
      rcases eq_or_ne i id with rfl | hi
      · rw [List.getElem?_set_self (List.getElem?_eq_some_iff.mp hr₀).1] at hr'
        obtain rfl := Option.some.inj hr'
        exact .inl ⟨r₀, hr₀, .inr he⟩
      · rw [List.getElem?_set_ne hi.symm] at hr'
        exact .inl ⟨r', hr', .inl rfl⟩
  | insertPending hins =>
      rcases (insertPending_grows hins).source hr' with hr | hnew
      · exact .inl ⟨r', hr, .inl rfl⟩
      · exact .inr hnew
  | recordScan hins =>
      rcases (insertAll_spec hins).1.source hr' with hr | hnew
      · exact .inl ⟨r', hr, .inl rfl⟩
      · exact .inr hnew
  | same | initCursor | publish | nack | broadcast => exact .inl ⟨r', hr', .inl rfl⟩

theorem Effect.same_row (h : Effect s a reply s') {i : ℕ} {r : Row}
    (hr : s.transactions[i]? = some r) : ∃ r', s'.transactions[i]? = some r' ∧ r.Same r' := by
  obtain ⟨r', hr', rfl | he⟩ := h.row hr
  · exact ⟨r', hr', .refl r'⟩
  · exact ⟨r', hr', he.same⟩

theorem HasKey.effect (h : Effect s a reply s') {k : Key} (hk : HasKey s.transactions k) :
    HasKey s'.transactions k := by
  obtain ⟨i, r, hr, rfl⟩ := hk
  obtain ⟨r', hr', hsame⟩ := h.same_row hr
  exact ⟨i, r', hr', hsame.key⟩

theorem KeysUnique.set {rows : List Row} (hu : KeysUnique rows) {id : ℕ} {r r' : Row}
    (hr : rows[id]? = some r) (hk : r'.key = r.key) : KeysUnique (rows.set id r') := by
  have hkey : ∀ {i : ℕ} {q' : Row}, (rows.set id r')[i]? = some q' →
      ∃ q, rows[i]? = some q ∧ q'.key = q.key := by
    intro i q' hq'
    rcases eq_or_ne i id with rfl | hi
    · rw [List.getElem?_set_self (List.getElem?_eq_some_iff.mp hr).1] at hq'
      obtain rfl := Option.some.inj hq'
      exact ⟨r, hr, hk⟩
    · rw [List.getElem?_set_ne hi.symm] at hq'
      exact ⟨q', hq', rfl⟩
  intro i j q₁ q₂ h₁ h₂ h
  obtain ⟨p₁, hp₁, hk₁⟩ := hkey h₁
  obtain ⟨p₂, hp₂, hk₂⟩ := hkey h₂
  exact hu i j p₁ p₂ hp₁ hp₂ (hk₁.symm.trans (h.trans hk₂))

theorem KeysUnique.effect (h : Effect s a reply s') (hu : KeysUnique s.transactions) :
    KeysUnique s'.transactions := by
  cases h with
  | edit hr he => exact hu.set hr he.same.key
  | insertPending hins => exact (insertPending_grows hins).unique hu
  | recordScan hins => exact (insertAll_spec hins).1.unique hu
  | same | initCursor | publish | nack | broadcast => exact hu

/-- Only a broadcast hands a transaction to a chain. -/
theorem Effect.sent_cases (h : Effect s a reply s') : s'.sent = s.sent ∨
    ∃ id c w n hash, a = .broadcast id c w n ∧ s'.sent = ⟨c, w, n, hash, id⟩ :: s.sent := by
  cases h with
  | @broadcast id c w hash n => exact .inr ⟨id, c, w, n, hash, rfl, rfl⟩
  | same | edit | insertPending | initCursor | recordScan | publish | nack => exact .inl rfl

theorem Effect.sent (h : Effect s a reply s') {b : Broadcast} (hb : b ∈ s.sent) : b ∈ s'.sent := by
  rcases h.sent_cases with hs | ⟨id, c, w, n, hash, -, hs⟩
  · exact hs ▸ hb
  · exact hs ▸ List.mem_cons_of_mem _ hb

theorem Effect.accountNonce (h : Effect s a reply s') : s'.accountNonce = s.accountNonce := by
  cases h <;> rfl

/-- The actions that leave the `transactions` table. -/
def Act.leavesRows : Act → Bool
  | .insertPending _ | .reserve .. | .markSubmitted .. | .markConfirmed _ | .touch _
  | .incrementRetry _ | .markFailed .. | .markDeadLetter .. | .recordScan .. => false
  | _ => true

theorem Effect.rows (h : Effect s a reply s') (ha : a.leavesRows = true) :
    s'.transactions = s.transactions := by
  cases h with
  | edit hr he => cases he <;> cases ha
  | insertPending | recordScan => cases ha
  | same | initCursor | publish | nack | broadcast => rfl

/-- A cursor never moves backwards. -/
theorem Effect.cursor (h : Effect s a reply s') {k : ChainId × Hex} {n : ℤ}
    (hn : s.blockTracker k = some n) : ∃ n', s'.blockTracker k = some n' ∧ n ≤ n' := by
  cases h with
  | initCursor => exact ⟨n, init_of_some hn, Int.le_refl n⟩
  | recordScan => exact advance_of_some hn
  | same | edit | insertPending | publish | nack | broadcast => exact ⟨n, hn, Int.le_refl n⟩

/-- A cursor was there, is the first one of its chain, or was moved forward by a scan. -/
theorem Effect.cursor_source (h : Effect s a reply s') {c : ChainId} {relayer : Hex} {n : ℤ}
    (hn : s'.blockTracker (c, relayer) = some n) :
    s.blockTracker (c, relayer) = some n ∨
      (∃ genesis : ℕ, a = .initCursor c relayer genesis ∧ n = (genesis : ℤ) - 1) ∨
      ∃ inputs last, a = .recordScan c relayer inputs n ∧ s.blockTracker (c, relayer) = some last ∧
        last < n := by
  cases h with
  | @initCursor c' relayer' genesis =>
      rcases init_cases hn with hn | ⟨hk, rfl⟩
      · exact .inl hn
      · obtain ⟨rfl, rfl⟩ := Prod.mk.inj hk
        exact .inr (.inl ⟨genesis, rfl, rfl⟩)
  | @recordScan c' relayer' inputs toBlock recs rows hins =>
      rcases advance_cases hn with hn | ⟨hk, rfl, last, hlast, hlt⟩
      · exact .inl hn
      · obtain ⟨rfl, rfl⟩ := Prod.mk.inj hk
        exact .inr (.inr ⟨inputs, last, rfl, hlast, hlt⟩)
  | same | edit | insertPending | publish | nack | broadcast => exact .inl hn

end

end Ntt.Relayer
