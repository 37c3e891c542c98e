import Mathlib.Data.List.Basic
import Mathlib.Data.List.MinMax
import Mathlib.Data.List.Sort
import Ntt.Relayer.Basic

/-!
# The Tables of the Relayer Bot

The queries on the `transactions` and `block_tracker` tables, as functions of the table. A table
of rows is a list in the order of insertion. Every update has the shape `UPDATE … WHERE id = $1 AND
status IN (…)` (`update`), so that each `mark…` is the update with its own states and change.

## Main results

* `update_eq_some`, `update_eq_none`: what an update does, and when it updates no row.
* `mem_records`, `findBySourceEvent_eq_some`: what a query returns is in the table.
* `insertPending_spec`: the row of the key is returned, and it is a new one or the one there was.
* `reserveNonce_not_mem`, `le_reserveNonce`: a reserved nonce is held by no live row, and is no
  lower than the chain's.
-/

namespace Ntt.Relayer

/-! ### Rows -/

/-- The key under which a row is unique. -/
abbrev Key := ChainId × Hex

def Row.key (r : Row) : Key := (r.sourceChainId, r.eventTxHash)

/-- The states that are never left. -/
def TxStatus.terminal : TxStatus → Bool
  | .confirmed | .deadLetter => true
  | _ => false

/-- The states whose nonces are counted. -/
def TxStatus.counted : TxStatus → Bool
  | .submitting | .submitted | .confirmed => true
  | _ => false

/-- The rows of a table with their ids. -/
def records (rows : List Row) : List TransactionRecord := rows.mapIdx rowToRecord

theorem mem_records {rows : List Row} {rec : TransactionRecord} :
    rec ∈ records rows ↔ rows[rec.id]? = some rec.toRow := by
  rw [records, List.mem_mapIdx]
  constructor
  · rintro ⟨i, hi, rfl⟩
    exact List.getElem?_eq_getElem hi
  · intro h
    obtain ⟨hi, hr⟩ := List.getElem?_eq_some_iff.mp h
    refine ⟨rec.id, hi, ?_⟩
    rw [hr]
    rfl

namespace TransactionsRepo

/-- `UPDATE transactions SET … WHERE id = $1 AND status IN (…)`: the updated row with the table, if
there is one. -/
def update (rows : List Row) (id : ℕ) (states : List TxStatus) (change : Row → Row) :
    Option (Row × List Row) :=
  match rows[id]? with
  | some r => if r.status ∈ states then some (change r, rows.set id (change r)) else none
  | none => none

def findBySourceEvent (rows : List Row) (sourceChainId : ChainId) (eventTxHash : Hex) :
    Option TransactionRecord :=
  (records rows).find? fun r => r.sourceChainId = sourceChainId ∧ r.eventTxHash = eventTxHash

/-- The row that an insertion writes. -/
def pendingRow (now : ℕ) (input : InsertPendingInput) : Row where
  sourceChainId := input.sourceChainId
  destinationChainId := input.destinationChainId
  relayerAddress := input.relayerAddress
  eventTxHash := input.eventTxHash
  payload := input.payload
  status := .pending
  relayTxHash := none
  walletUsed := none
  nonceUsed := none
  retryCount := 0
  maxRetries := input.maxRetries
  errorMessage := none
  createdAt := now
  updatedAt := now

/-- Insert a pending row, or return the existing one. -/
def insertPending (rows : List Row) (now : ℕ) (input : InsertPendingInput) :
    TransactionRecord × List Row :=
  match findBySourceEvent rows input.sourceChainId input.eventTxHash with
  | some existing => (existing, rows)
  | none =>
      (rowToRecord rows.length (pendingRow now input), rows ++ [pendingRow now input])

def markSubmitting (rows : List Row) (now id : ℕ) (wallet : Hex) (nonce : ℕ) :
    Option (Row × List Row) :=
  update rows id [.pending, .failed, .submitting] fun r =>
    { r with
      status := .submitting
      walletUsed := some wallet
      nonceUsed := some nonce
      updatedAt := now }

def markSubmitted (rows : List Row) (now id : ℕ) (relayTxHash wallet : Hex) (nonce : ℕ) :
    Option (Row × List Row) :=
  update rows id [.pending, .failed, .submitting, .submitted] fun r =>
    { r with
      status := .submitted
      relayTxHash := some relayTxHash
      walletUsed := some wallet
      nonceUsed := some nonce
      updatedAt := now }

/-- `CASE WHEN relay_tx_hash IS NULL THEN NULL ELSE nonce_used END`. -/
def keptNonce (r : Row) : Option ℕ := if r.relayTxHash.isNone then none else r.nonceUsed

def markConfirmed (rows : List Row) (now id : ℕ) : Option (Row × List Row) :=
  update rows id [.pending, .submitting, .submitted, .failed] fun r =>
    { r with status := .confirmed, nonceUsed := keptNonce r, updatedAt := now }

def touch (rows : List Row) (now id : ℕ) : Option (Row × List Row) :=
  update rows id [.pending, .submitting, .submitted, .failed] fun r => { r with updatedAt := now }

def incrementRetry (rows : List Row) (now id : ℕ) : Option (Row × List Row) :=
  update rows id [.submitting, .submitted] fun r =>
    { r with retryCount := r.retryCount + 1, updatedAt := now }

def markFailed (rows : List Row) (now id : ℕ) (errorMessage : ErrorMessage) :
    Option (Row × List Row) :=
  update rows id [.pending, .submitted, .failed] fun r =>
    { r with
      status := .failed
      errorMessage := some errorMessage
      retryCount := r.retryCount + 1
      updatedAt := now }

/-- `status NOT IN ('confirmed', 'dead_letter')` lists the other states. -/
def markDeadLetter (rows : List Row) (now id : ℕ) (errorMessage : ErrorMessage) :
    Option (Row × List Row) :=
  update rows id [.pending, .submitting, .submitted, .failed] fun r =>
    { r with
      status := .deadLetter
      errorMessage := some errorMessage
      nonceUsed := keptNonce r
      updatedAt := now }

/-- The rows that a scan for stale ones matches; a date is in milliseconds. -/
def stale (rows : List Row) (status : TxStatus) (olderThanMs id : ℕ) : Option TransactionRecord :=
  (rows[id]?).bind fun r =>
    if r.status = status ∧ r.updatedAt < olderThanMs * 1000 then some (rowToRecord id r) else none

/-- Rows not touched since `olderThan`: `ids` are the rows in the order of the scan, without those
that somebody else has locked. -/
def selectStaleByStatus (rows : List Row) (status : TxStatus) (olderThanMs limit : ℕ)
    (ids : List ℕ) : List TransactionRecord :=
  (ids.dedup.filterMap (stale rows status olderThanMs)).take limit

/-- The order of a page: `ORDER BY created_at, id`. -/
abbrev PageOrder (uuid : ℕ → ℕ) (r r' : TransactionRecord) : Prop :=
  r.createdAt < r'.createdAt ∨ (r.createdAt = r'.createdAt ∧ uuid r.id ≤ uuid r'.id)

/-- Rows after the cursor of the previous page: a creation date in milliseconds and an id. -/
def afterCursor (uuid : ℕ → ℕ) (after : Option (ℕ × ℕ)) (r : TransactionRecord) : Bool :=
  match after with
  | none => true
  | some (createdAtMs, id) =>
      createdAtMs * 1000 < r.createdAt ∨
        (r.createdAt = createdAtMs * 1000 ∧ uuid id < uuid r.id)

/-- One keyset page of the rows in a status; `uuid` are the random ids in the order of insertion. -/
def selectByStatus (uuid : ℕ → ℕ) (rows : List Row) (status : TxStatus) (limit : ℕ)
    (after : Option (ℕ × ℕ)) : List TransactionRecord :=
  (((records rows).filter fun r => r.status = status ∧ afterCursor uuid after r = true).insertionSort
    (PageOrder uuid)).take limit

end TransactionsRepo

open TransactionsRepo

section

variable {rows rows' : List Row} {id : ℕ} {states : List TxStatus} {change : Row → Row} {r : Row}

theorem update_eq_some {r' : Row} :
    update rows id states change = some (r', rows') ↔ ∃ r, rows[id]? = some r ∧ r.status ∈ states ∧
      r' = change r ∧ rows' = rows.set id (change r) := by
  rw [update]
  cases h : rows[id]? with
  | none => simp
  | some r =>
      by_cases hr : r.status ∈ states
      · simp [hr, eq_comm]
      · simp [hr]

theorem update_eq_none :
    update rows id states change = none ↔ ∀ r, rows[id]? = some r → r.status ∉ states := by
  rw [update]
  cases h : rows[id]? with
  | none => simp
  | some r => simp

theorem findBySourceEvent_eq_some {c : ChainId} {h : Hex} {rec : TransactionRecord}
    (hf : findBySourceEvent rows c h = some rec) :
    rows[rec.id]? = some rec.toRow ∧ rec.key = (c, h) := by
  have hmem := mem_records.mp (List.mem_of_find?_eq_some hf)
  have hkey := List.find?_some hf
  simp only [decide_eq_true_eq] at hkey
  exact ⟨hmem, Prod.ext hkey.1 hkey.2⟩

theorem findBySourceEvent_eq_none {c : ChainId} {h : Hex} (hf : findBySourceEvent rows c h = none)
    {i : ℕ} (hr : rows[i]? = some r) : r.key ≠ (c, h) := by
  intro hkey
  have hmem : rowToRecord i r ∈ records rows := mem_records.mpr hr
  have := List.find?_eq_none.mp hf _ hmem
  simp only [decide_eq_true_eq] at this
  exact this ⟨congrArg Prod.fst hkey, congrArg Prod.snd hkey⟩

/-- Inserting returns the row of the key: a new pending row, or the one there was. -/
theorem insertPending_spec {now : ℕ} {input : InsertPendingInput} {rec : TransactionRecord}
    (h : insertPending rows now input = (rec, rows')) :
    rows'[rec.id]? = some rec.toRow ∧ rec.key = (input.sourceChainId, input.eventTxHash) ∧
      (rows' = rows ∨
        ((∀ (i : ℕ) (r : Row), rows[i]? = some r → r.key ≠ (input.sourceChainId, input.eventTxHash)) ∧
          rec = rowToRecord rows.length (pendingRow now input) ∧
          rows' = rows ++ [pendingRow now input])) := by
  rw [insertPending] at h
  split at h
  · rename_i existing hf
    obtain ⟨rfl, rfl⟩ := Prod.mk.inj h
    exact ⟨(findBySourceEvent_eq_some hf).1, (findBySourceEvent_eq_some hf).2, .inl rfl⟩
  · rename_i hf
    obtain ⟨rfl, rfl⟩ := Prod.mk.inj h
    refine ⟨?_, rfl, .inr ⟨fun i r hr => findBySourceEvent_eq_none hf hr, rfl, rfl⟩⟩
    exact List.getElem?_concat_length

theorem stale_eq_some {status : TxStatus} {olderThanMs : ℕ} {rec : TransactionRecord}
    (h : stale rows status olderThanMs id = some rec) :
    rows[rec.id]? = some rec.toRow ∧ rec.status = status := by
  obtain ⟨r, hr, hrec⟩ := Option.bind_eq_some_iff.mp h
  split at hrec
  · rename_i hst
    obtain rfl := Option.some.inj hrec
    exact ⟨hr, hst.1⟩
  · cases hrec

theorem mem_selectStaleByStatus {status : TxStatus} {olderThanMs limit : ℕ} {ids : List ℕ}
    {rec : TransactionRecord} (h : rec ∈ selectStaleByStatus rows status olderThanMs limit ids) :
    rows[rec.id]? = some rec.toRow ∧ rec.status = status := by
  obtain ⟨i, -, hi⟩ := List.mem_filterMap.mp (List.mem_of_mem_take h)
  exact stale_eq_some hi

theorem mem_selectByStatus {uuid : ℕ → ℕ} {status : TxStatus} {limit : ℕ} {after : Option (ℕ × ℕ)}
    {rec : TransactionRecord} (h : rec ∈ selectByStatus uuid rows status limit after) :
    rows[rec.id]? = some rec.toRow ∧ rec.status = status := by
  have hmem := List.mem_of_mem_take h
  rw [List.mem_insertionSort, List.mem_filter] at hmem
  simp only [decide_eq_true_eq] at hmem
  exact ⟨mem_records.mp hmem.1, hmem.2.1⟩

end

/-! ### Nonces -/

/-- A live row of a wallet on a chain: one whose nonce is counted. -/
def Row.countedFor (wallet : Hex) (chainId : ChainId) (r : Row) : Bool :=
  r.walletUsed = some wallet ∧ r.destinationChainId = chainId ∧ r.status.counted

/-- The committed nonces of a wallet on a chain. -/
def committedNonces (rows : List Row) (wallet : Hex) (chainId : ChainId) : List ℕ :=
  (rows.filter (Row.countedFor wallet chainId)).filterMap Row.nonceUsed

/-- One past the highest committed nonce. -/
def dbNext (rows : List Row) (address : Hex) (chainId : ChainId) : ℕ :=
  match (committedNonces rows address chainId).max? with
  | none => 0
  | some dbMax => dbMax + 1

/-- Next nonce of a wallet on a chain, given the chain's: a nonce below the next one that no live
row holds fills a gap. -/
def reserveNonce (rows : List Row) (address : Hex) (chainId : ChainId) (chainNonce : ℕ) : ℕ :=
  if chainNonce < dbNext rows address chainId ∧ chainNonce ∉ committedNonces rows address chainId then
    chainNonce
  else max (dbNext rows address chainId) chainNonce

theorem mem_committedNonces {rows : List Row} {wallet : Hex} {chainId : ChainId} {n : ℕ} :
    n ∈ committedNonces rows wallet chainId ↔
      ∃ r ∈ rows, r.countedFor wallet chainId = true ∧ r.nonceUsed = some n := by
  simp only [committedNonces, List.mem_filterMap, List.mem_filter, and_assoc]

theorem lt_dbNext {rows : List Row} {address : Hex} {chainId : ChainId} {n : ℕ}
    (h : n ∈ committedNonces rows address chainId) : n < dbNext rows address chainId := by
  rw [dbNext]
  split
  · rename_i hmax
    rw [List.max?_eq_none_iff.mp hmax] at h
    exact absurd h List.not_mem_nil
  · rename_i dbMax hmax
    exact Nat.lt_succ_of_le ((List.max?_eq_some_iff.mp hmax).2 n h)

/-- A reserved nonce is no lower than the chain's. -/
theorem le_reserveNonce (rows : List Row) (address : Hex) (chainId : ChainId) (chainNonce : ℕ) :
    chainNonce ≤ reserveNonce rows address chainId chainNonce := by
  rw [reserveNonce]
  split
  · exact Nat.le_refl _
  · exact Nat.le_max_right _ _

/-- **A reserved nonce is held by no live row.** -/
theorem reserveNonce_not_mem (rows : List Row) (address : Hex) (chainId : ChainId)
    (chainNonce : ℕ) : reserveNonce rows address chainId chainNonce ∉
      committedNonces rows address chainId := by
  rw [reserveNonce]
  split
  · rename_i h
    exact h.2
  · intro hmem
    have hlt := lt_dbNext hmem
    omega

/-! ### Cursors -/

/-- The `block_tracker` table: the last scanned block of each chain and relayer. -/
abbrev BlockTracker := ChainId × Hex → Option ℤ

namespace BlockTrackerRepo

/-- The insertion of a genesis row, where none exists. -/
def init (t : BlockTracker) (chainId : ChainId) (relayer : Hex) (genesisBlock : ℕ) : BlockTracker :=
  match t (chainId, relayer) with
  | some _ => t
  | none => Function.update t (chainId, relayer) (some ((genesisBlock : ℤ) - 1))

/-- Advance the cursor monotonically. -/
def advance (t : BlockTracker) (chainId : ChainId) (relayer : Hex) (newBlock : ℤ) : BlockTracker :=
  match t (chainId, relayer) with
  | some last =>
      if last < newBlock then Function.update t (chainId, relayer) (some newBlock) else t
  | none => t

variable {t : BlockTracker} {chainId : ChainId} {relayer : Hex} {k : ChainId × Hex} {n newBlock : ℤ}
  {genesisBlock : ℕ}

/-- A cursor that exists is left by the insertion. -/
theorem init_of_some (h : t k = some n) : init t chainId relayer genesisBlock k = some n := by
  cases hold : t (chainId, relayer) with
  | some last => simpa only [init, hold] using h
  | none =>
      simp only [init, hold]
      rw [Function.update_of_ne, h]
      rintro rfl
      rw [h] at hold
      cases hold

/-- A cursor that the insertion makes is the one before the genesis block. -/
theorem init_cases (h : init t chainId relayer genesisBlock k = some n) :
    t k = some n ∨ (k = (chainId, relayer) ∧ n = (genesisBlock : ℤ) - 1) := by
  cases hold : t (chainId, relayer) with
  | some last => exact .inl (by simpa only [init, hold] using h)
  | none =>
      simp only [init, hold] at h
      rcases eq_or_ne k (chainId, relayer) with rfl | hk
      · rw [Function.update_self] at h
        exact .inr ⟨rfl, (Option.some.inj h).symm⟩
      · rw [Function.update_of_ne hk] at h
        exact .inl h

/-- An advance leaves a cursor, or moves it forward to the new block. -/
theorem advance_cases (h : advance t chainId relayer newBlock k = some n) :
    t k = some n ∨ (k = (chainId, relayer) ∧ n = newBlock ∧ ∃ last, t k = some last ∧ last < n) := by
  cases hold : t (chainId, relayer) with
  | none => exact .inl (by simpa only [advance, hold] using h)
  | some last =>
      simp only [advance, hold] at h
      split at h
      · rename_i hlt
        rcases eq_or_ne k (chainId, relayer) with rfl | hk
        · rw [Function.update_self] at h
          obtain rfl := Option.some.inj h
          exact .inr ⟨rfl, rfl, last, hold, hlt⟩
        · rw [Function.update_of_ne hk] at h
          exact .inl h
      · exact .inl h

/-- After an advance, the cursor is at the new block or past it. -/
theorem le_advance (newBlock : ℤ) {last : ℤ} (h : t (chainId, relayer) = some last) :
    ∃ n, advance t chainId relayer newBlock (chainId, relayer) = some n ∧ newBlock ≤ n := by
  simp only [advance, h]
  split
  · exact ⟨newBlock, Function.update_self .., Int.le_refl _⟩
  · rename_i hle
    exact ⟨last, h, by omega⟩

/-- A cursor does not move backwards. -/
theorem advance_of_some (h : t k = some n) :
    ∃ n', advance t chainId relayer newBlock k = some n' ∧ n ≤ n' := by
  cases hold : t (chainId, relayer) with
  | none => exact ⟨n, by simpa only [advance, hold] using h, Int.le_refl n⟩
  | some last =>
      simp only [advance, hold]
      split
      · rename_i hlt
        rcases eq_or_ne k (chainId, relayer) with rfl | hk
        · obtain rfl := Option.some.inj (h.symm.trans hold)
          exact ⟨newBlock, Function.update_self .., Int.le_of_lt hlt⟩
        · exact ⟨n, (Function.update_of_ne hk ..).trans h, Int.le_refl n⟩
      · exact ⟨n, h, Int.le_refl n⟩

end BlockTrackerRepo

end Ntt.Relayer
