import Mathlib.Data.Prod.Lex
import Ntt.Lib.Keyset
import Ntt.Relayer.Effects
import Ntt.Relayer.Listener

/-!
# The Startup Sweep

The sweep pages through the pending rows by their keys, the creation time with the id, while
workers move rows out of the status and listeners insert new ones. Its loop has no bound, so it is
a machine here, with a step for each query, each row of a page and each turn; that it is the loop
of `republishPending`, page by page, is `program_select`, `program_publish` and `program_turn`.

A cursor is a date in milliseconds, and a row has its time in microseconds. So a cursor may lie
before the row that it was made of, and what is between the two is read again. This skips no row
(`published_of_waits`), but may publish one twice (`reads_again`), and end never. Where no pending
row lies there, a row is published once and the sweep ends (`sweep_sound`).

## Main results

* `others_of_effect`: what the bot does to the table is what the sweep relies on.
* `afterCursor_of_lt`: a cursor lies no later than its row.
* `Inv.step`, `Covers.step`, `work_step`: one step of the loop.
* `sweep_sound`: the runs in which a cursor separates what is read from what is not.
* `reads_again`, `fractional_row_published_twice`: the others.
-/

namespace Ntt.Relayer.Sweep

open TransactionsRepo

/-! ### The loop -/

/-- Where the sweep is in its loop. -/
inductive Loop where
  /-- Before the query of a page, with the last record of the page before. -/
  | select (last : Option TransactionRecord)
  /-- In a page, with the records that are left of it. -/
  | publish (left page : List TransactionRecord)
  | ended
deriving DecidableEq

/-- The cursor of the page after a record. -/
def cursor (last : TransactionRecord) : ℕ × ℕ := (last.createdAtMs, last.id)

namespace Loop

/-- With the reply to a query. -/
def queried (page : List TransactionRecord) : Loop := if page = [] then ended else publish page page

/-- At the end of a page. -/
def turned (batchSize : ℕ) (page : List TransactionRecord) : Loop :=
  if page.length < batchSize then ended else select page.getLast?

/-- The records that are left of the page. -/
def left : Loop → List TransactionRecord
  | publish left _ => left
  | _ => []

/-- The last record that was read. -/
def last : Loop → Option TransactionRecord
  | select last => last
  | publish _ page => page.getLast?
  | ended => none

end Loop

/-- The table, the loop, and the records that were published. -/
structure State where
  rows : List Row
  loop : Loop
  published : List TransactionRecord

/-- One step of the loop. -/
def step (uuid : ℕ → ℕ) (batchSize : ℕ) (s : State) : State :=
  match s.loop with
  | .select last =>
      { s with loop := .queried (selectByStatus uuid s.rows .pending batchSize (last.map cursor)) }
  | .publish (rec :: left) page =>
      { s with
        loop := .publish left page
        published := if rec.relayTxHash.isSome then s.published else s.published ++ [rec] }
  | .publish [] page => { s with loop := .turned batchSize page }
  | .ended => s

inductive Event where
  /-- The sweep makes a step. -/
  | sweep
  /-- A row is updated. -/
  | update (id : ℕ) (row : Row)
  /-- A scan inserts rows. -/
  | insert (rows : List Row)
deriving DecidableEq

def next (uuid : ℕ → ℕ) (batchSize : ℕ) (s : State) : Event → State
  | .sweep => step uuid batchSize s
  | .update id row => { s with rows := s.rows.set id row }
  | .insert rows => { s with rows := s.rows ++ rows }

/-- The sweep and the others. -/
def machine (uuid : ℕ → ℕ) (batchSize : ℕ) : Transducer State Event Unit where
  next := next uuid batchSize
  out _ _ := ()

/-- The sweep starts on a table. -/
def start (rows : List Row) : State := ⟨rows, .select none, []⟩

/-! ### The loop is the program's -/

section

variable {d : Deployment} {batchSize pages : ℕ}

/-- Publishes a record without a relay transaction. -/
def publishRecord (rec : TransactionRecord) : Prog d Unit :=
  if rec.relayTxHash.isSome then pure () else run (.publish (recordToMessage rec))

/-- What is left of the program, for at most a number of pages. -/
def Loop.program (batchSize pages : ℕ) : Loop → Prog d Unit
  | select last => republishPending batchSize pages (last.map cursor)
  | publish left page => do
      left.forM publishRecord
      if page.length < batchSize then pure ()
      else republishPending batchSize pages (page.getLast?.map cursor)
  | ended => pure ()

theorem program_select (last : Option TransactionRecord) :
    (Loop.select last).program (d := d) batchSize (pages + 1) =
      run (.selectByStatus .pending batchSize (last.map cursor)) >>= fun page =>
        (Loop.queried page).program batchSize pages := by
  rw [Loop.program, republishPending]
  congr 1
  funext page
  cases hlast : page.getLast? with
  | none =>
      rw [List.getLast?_eq_none_iff] at hlast
      rw [Loop.queried, if_pos hlast]
      rfl
  | some last =>
      have hne : page ≠ [] := fun h => by simp [h] at hlast
      rw [Loop.queried, if_neg hne, Loop.program, hlast]
      rfl

theorem program_publish (rec : TransactionRecord) (left page : List TransactionRecord) :
    (Loop.publish (rec :: left) page).program (d := d) batchSize pages =
      publishRecord rec >>= fun _ => (Loop.publish left page).program batchSize pages := by
  rw [Loop.program, Loop.program, publishRecord]
  change ((if _ then _ else _ : Prog d Unit) >>= fun _ => left.forM publishRecord) >>= _ = _
  split <;> rfl

theorem program_turn (page : List TransactionRecord) :
    (Loop.publish [] page).program (d := d) batchSize pages =
      (Loop.turned batchSize page).program batchSize pages := by
  rw [Loop.program, Loop.turned]
  split <;> rfl

end

/-! ### What the sweep relies on -/

section

variable {uuid : ℕ ↪ ℕ}

/-- The key by which the sweep pages. -/
def key (uuid : ℕ ↪ ℕ) (rec : TransactionRecord) : ℕ ×ₗ ℕ := toLex (rec.createdAt, uuid rec.id)

/-- The row stays pending with no relay transaction. -/
def State.Waits (s : State) (id : ℕ) : Prop :=
  ∃ row ∈ s.rows[id]?, row.status = .pending ∧ row.relayTxHash = none

/-- What others do: no update changes a creation time or makes a row pending, and the rows that
are inserted have later keys than those that are there. -/
def Others (uuid : ℕ ↪ ℕ) (s : State) : Event → Prop
  | .sweep => True
  | .update id row => ∀ old ∈ s.rows[id]?,
      row.createdAt = old.createdAt ∧ (row.status = .pending → old.status = .pending)
  | .insert rows => ∀ old ∈ records s.rows, ∀ new ∈ records (s.rows ++ rows),
      s.rows.length ≤ new.id → key uuid old < key uuid new

/-- Of the rows that still are pending, those after the cursor of a record come after the record
too. -/
def Separates (uuid : ℕ ↪ ℕ) (rows : List Row) (last : TransactionRecord) : Prop :=
  ∀ rec ∈ records rows, rec.status = .pending →
    afterCursor uuid (some (cursor last)) rec = true → key uuid last < key uuid rec

/-- A next page is asked for only where the cursor separates. -/
def Separated (uuid : ℕ ↪ ℕ) (s : State) : Event → Prop
  | .sweep => ∀ rec ∈ s.loop.last, s.loop = .select (some rec) → Separates uuid s.rows rec
  | _ => True

instance (s : State) : (e : Event) → Decidable (Others uuid s e)
  | .sweep => inferInstanceAs (Decidable True)
  | .update id row => inferInstanceAs (Decidable (∀ old ∈ s.rows[id]?,
      row.createdAt = old.createdAt ∧ (row.status = .pending → old.status = .pending)))
  | .insert rows => inferInstanceAs (Decidable (∀ old ∈ records s.rows,
      ∀ new ∈ records (s.rows ++ rows), s.rows.length ≤ new.id → key uuid old < key uuid new))

instance (rows : List Row) (last : TransactionRecord) : Decidable (Separates uuid rows last) :=
  inferInstanceAs (Decidable (∀ rec ∈ records rows, rec.status = .pending →
    afterCursor uuid (some (cursor last)) rec = true → key uuid last < key uuid rec))

instance (s : State) : (e : Event) → Decidable (Separated uuid s e)
  | .sweep => inferInstanceAs (Decidable (∀ rec ∈ s.loop.last, s.loop = .select (some rec) →
      Separates uuid s.rows rec))
  | .update .. | .insert _ => inferInstanceAs (Decidable True)

/-! ### Keys -/

section

variable {a b last rec : TransactionRecord}

theorem key_le : key uuid a ≤ key uuid b ↔
    a.createdAt < b.createdAt ∨ (a.createdAt = b.createdAt ∧ uuid a.id ≤ uuid b.id) :=
  Prod.Lex.toLex_le_toLex

theorem key_lt : key uuid a < key uuid b ↔
    a.createdAt < b.createdAt ∨ (a.createdAt = b.createdAt ∧ uuid a.id < uuid b.id) :=
  Prod.Lex.toLex_lt_toLex

theorem pageOrder_iff : PageOrder uuid a b ↔ key uuid a ≤ key uuid b := key_le.symm

instance : Std.Total (PageOrder uuid) where
  total a b := (le_total (key uuid a) (key uuid b)).imp pageOrder_iff.mpr pageOrder_iff.mpr

instance : IsTrans TransactionRecord (PageOrder uuid) where
  trans _ _ _ hab hbc :=
    pageOrder_iff.mpr ((pageOrder_iff.mp hab).trans (pageOrder_iff.mp hbc))

theorem id_eq_of_key_eq (h : key uuid a = key uuid b) : a.id = b.id :=
  uuid.injective (congrArg (fun k => (ofLex k).2) h)

/-- A cursor lies no later than its row. -/
theorem afterCursor_of_lt (h : key uuid last < key uuid rec) :
    afterCursor uuid (some (cursor last)) rec = true := by
  have hle := Nat.div_mul_le_self last.createdAt 1000
  rw [key_lt] at h
  refine decide_eq_true ?_
  change last.createdAt / 1000 * 1000 < rec.createdAt ∨
    (rec.createdAt = last.createdAt / 1000 * 1000 ∧ uuid last.id < uuid rec.id)
  omega

theorem afterCursor_mono {after : Option (ℕ × ℕ)} (ha : afterCursor uuid after a = true)
    (h : key uuid a ≤ key uuid b) : afterCursor uuid after b = true := by
  cases after with
  | none => rfl
  | some c =>
      rw [afterCursor, decide_eq_true_eq] at ha ⊢
      rw [key_le] at h
      omega

end

/-! ### The others -/

theorem getElem?_mem_records {rows : List Row} {id : ℕ} {row : Row} (h : rows[id]? = some row) :
    rowToRecord id row ∈ records rows := mem_records.mpr h

/-- Rows that are made later have later keys. -/
theorem others_insert {s : State} {now : ℕ} {inputs : List InsertPendingInput} {news : List Row}
    (hclock : ∀ r ∈ s.rows, r.createdAt < now)
    (hnews : ∀ r ∈ news, ∃ input ∈ inputs, r = pendingRow now input) :
    Others uuid s (.insert news) := by
  intro old hold new hnew hid
  have hnew := mem_records.mp hnew
  rw [List.getElem?_append_right hid] at hnew
  obtain ⟨input, -, heq⟩ := hnews _ (List.mem_of_getElem? hnew)
  have hnow : new.createdAt = now := congrArg Row.createdAt heq
  rw [key_lt, hnow]
  exact .inl (hclock _ (List.mem_of_getElem? (mem_records.mp hold)))

theorem edit_others {s : World} {a : Act} {reply : a.Reply} {id : ℕ}
    {r r' : Row} (h : Edit s a reply id r r') :
    r'.createdAt = r.createdAt ∧ (r'.status = .pending → r.status = .pending) := by
  refine ⟨h.same.createdAt, fun hst => ?_⟩
  cases h with
  | touch | incrementRetry => exact hst
  | reserve | markSubmitted | markConfirmed | markFailed | markDeadLetter => cases hst

/-- **What the bot does to the table** is what the sweep relies on: an action leaves the table,
updates a row, or inserts rows with the time of its transaction. -/
theorem others_of_effect {w w' : World} {a : Act} {reply : a.Reply} (h : Effect w a reply w')
    (hclock : ∀ r ∈ w.transactions, r.createdAt < w.clock) {s : State}
    (hs : s.rows = w.transactions) (batchSize : ℕ) :
    w'.transactions = w.transactions ∨ ∃ e, e ≠ .sweep ∧ Others uuid s e ∧
      (next uuid batchSize s e).rows = w'.transactions := by
  rw [← hs] at hclock
  cases h with
  | same | initCursor | publish | nack | broadcast => exact .inl rfl
  | @edit _ _ id r r' hr he =>
      refine .inr ⟨.update id r', by simp, fun old hold => ?_, ?_⟩
      · rw [hs, hr] at hold
        obtain rfl := Option.some.inj hold
        exact edit_others he
      · rw [next, hs]
  | insertPending hins =>
      obtain ⟨news, hrows, hnews⟩ := (insertPending_grows hins).news
      exact .inr ⟨.insert news, by simp, others_insert hclock hnews, by rw [next, hs, hrows]⟩
  | recordScan hins =>
      obtain ⟨news, hrows, hnews⟩ := (insertAll_spec hins).1.news
      exact .inr ⟨.insert news, by simp, others_insert hclock hnews, by rw [next, hs, hrows]⟩

/-! ### Pages -/

section

variable {rows : List Row} {batchSize : ℕ} {last : Option TransactionRecord}
  {rec : TransactionRecord}

theorem records_ids (rows : List Row) :
    (records rows).map TransactionRecord.id = List.range rows.length := by
  refine List.ext_getElem? fun i => ?_
  rcases Nat.lt_or_ge i rows.length with hi | hi
  · simp [records, rowToRecord, List.getElem?_range hi, List.getElem?_eq_getElem hi]
  · simp [records, hi]

/-- The rows that a query is for. -/
def awaiting (uuid : ℕ ↪ ℕ) (rows : List Row) (last : Option TransactionRecord) :
    List TransactionRecord :=
  (records rows).filter fun r => r.status = .pending ∧ afterCursor uuid (last.map cursor) r = true

theorem mem_awaiting : rec ∈ awaiting uuid rows last ↔ rec ∈ records rows ∧
    rec.status = .pending ∧ afterCursor uuid (last.map cursor) rec = true := by
  simp [awaiting]

theorem selectByStatus_eq : selectByStatus uuid rows .pending batchSize (last.map cursor) =
    Keyset.page (PageOrder uuid) batchSize (awaiting uuid rows last) := rfl

/-- The records of a page have rising keys. -/
theorem page_sorted : (Keyset.page (PageOrder uuid) batchSize (awaiting uuid rows last)).Pairwise
    fun a b => key uuid a < key uuid b := by
  have hids : ((awaiting uuid rows last).map TransactionRecord.id).Nodup :=
    List.Nodup.sublist ((List.filter_sublist).map _) (records_ids rows ▸ List.nodup_range)
  have hne := List.pairwise_map.mp
    (Keyset.nodup_map_page (r := PageOrder uuid) (n := batchSize) hids)
  refine (List.Pairwise.and Keyset.pairwise_page hne).imp fun {a b} h => ?_
  exact lt_of_le_of_ne (pageOrder_iff.mp h.1) fun heq => h.2 (id_eq_of_key_eq heq)

end

/-! ### Nothing twice -/

/-- A record has the time of its row. -/
def Listed (rows : List Row) (rec : TransactionRecord) : Prop :=
  ∃ row ∈ rows[rec.id]?, row.createdAt = rec.createdAt

/-- What is published and what is left of the page have rising keys, none of them past the last
record that was read. -/
structure Inv (uuid : ℕ ↪ ℕ) (s : State) : Prop where
  listed : ∀ rec ∈ s.published ++ s.loop.left, Listed s.rows rec
  sorted : (s.published ++ s.loop.left).Pairwise fun a b => key uuid a < key uuid b
  bounded : ∀ rec ∈ s.published ++ s.loop.left, s.loop = .ended ∨
    ∃ last ∈ s.loop.last, key uuid rec ≤ key uuid last

section

variable {s : State} {batchSize : ℕ}

theorem Listed.of_mem {rows : List Row} {rec : TransactionRecord} (h : rec ∈ records rows) :
    Listed rows rec := ⟨rec.toRow, mem_records.mp h, rfl⟩

theorem Listed.next (batchSize : ℕ) {rec : TransactionRecord} (h : Listed s.rows rec) {e : Event}
    (he : Others uuid s e) : Listed (next uuid batchSize s e).rows rec := by
  obtain ⟨row, hrow, hcreated⟩ := h
  obtain ⟨hid, -⟩ := List.getElem?_eq_some_iff.mp hrow
  cases e with
  | sweep =>
      have hrows : (step uuid batchSize s).rows = s.rows := by
        rw [step]
        split <;> rfl
      exact ⟨row, (congrArg (·[rec.id]?) hrows).trans hrow, hcreated⟩
  | update id row' =>
      rcases eq_or_ne id rec.id with rfl | hne
      · refine ⟨row', List.getElem?_set_self hid, ?_⟩
        exact (he row hrow).1.trans hcreated
      · exact ⟨row, (List.getElem?_set_ne hne).trans hrow, hcreated⟩
  | insert rows => exact ⟨row, (List.getElem?_append_left hid).trans hrow, hcreated⟩

/-- The records of a next page come after those that were read. -/
theorem Inv.queried (hI : Inv uuid s) {last : Option TransactionRecord} (hs : s.loop = .select last)
    (hsep : Separated uuid s .sweep) : Inv uuid (step uuid batchSize s) := by
  have hold : ∀ rec ∈ s.published, ∃ l, last = some l ∧ key uuid rec ≤ key uuid l := by
    intro rec hrec
    have hb := hI.bounded rec (List.mem_append_left _ hrec)
    rw [hs] at hb
    obtain ⟨l, hl, hle⟩ := hb.resolve_left (by simp)
    exact ⟨l, hl, hle⟩
  have hsorted : s.published.Pairwise fun a b => key uuid a < key uuid b :=
    (List.pairwise_append.mp hI.sorted).1
  have hlisted : ∀ rec ∈ s.published, Listed s.rows rec := fun rec hrec =>
    hI.listed rec (List.mem_append_left _ hrec)
  simp only [step, hs, selectByStatus_eq]
  generalize hpage : Keyset.page (PageOrder uuid) batchSize (awaiting uuid s.rows last) = page
  have hlater : ∀ rec ∈ s.published, ∀ new ∈ page, key uuid rec < key uuid new := by
    intro rec hrec new hnew
    obtain ⟨l, rfl, hle⟩ := hold rec hrec
    rw [← hpage] at hnew
    obtain ⟨hmem, hst, hafter⟩ := mem_awaiting.mp (Keyset.mem_of_mem_page hnew)
    exact hle.trans_lt (hsep l (by rw [hs]; rfl) hs new hmem hst hafter)
  by_cases hne : page = []
  · rw [Loop.queried, if_pos hne]
    exact ⟨fun rec hrec => (List.mem_append.mp hrec).elim (hlisted rec)
      fun h => absurd h List.not_mem_nil,
      (List.append_nil s.published).symm ▸ hsorted, fun _ _ => .inl rfl⟩
  · obtain ⟨last', hlast'⟩ := Option.isSome_iff_exists.mp (List.getLast?_isSome.mpr hne)
    have hle : ∀ new ∈ page, key uuid new ≤ key uuid last' := by
      intro new hnew
      rw [← hpage] at hnew hlast'
      exact pageOrder_iff.mp (Keyset.page_rel_last hlast' hnew)
    rw [Loop.queried, if_neg hne]
    refine ⟨fun rec hrec => ?_, ?_, fun rec hrec => .inr ⟨last', hlast', ?_⟩⟩
    · rcases List.mem_append.mp hrec with hrec | hrec
      · exact hlisted rec hrec
      · rw [← hpage] at hrec
        exact .of_mem (mem_awaiting.mp (Keyset.mem_of_mem_page hrec)).1
    · exact List.pairwise_append.mpr ⟨hsorted, hpage ▸ page_sorted, hlater⟩
    · rcases List.mem_append.mp hrec with hrec | hrec
      · exact (hlater rec hrec last' (List.mem_of_getLast? hlast')).le
      · exact hle rec hrec

theorem Inv.step (hI : Inv uuid s) (hsep : Separated uuid s .sweep) :
    Inv uuid (Sweep.step uuid batchSize s) := by
  obtain ⟨rows, loop, published⟩ := s
  match loop with
  | .select last => exact hI.queried rfl hsep
  | .publish (rec :: left) page =>
      have hsub : ((if rec.relayTxHash.isSome then published else published ++ [rec]) ++
          left).Sublist (published ++ rec :: left) := by
        split
        · exact List.Sublist.append_left (List.sublist_cons_self rec left) published
        · rw [List.append_assoc]
          exact List.Sublist.refl _
      exact ⟨fun r hr => hI.listed r (hsub.subset hr), hI.sorted.sublist hsub,
        fun r hr => .inr ((hI.bounded r (hsub.subset hr)).resolve_left (by simp))⟩
  | .publish [] page =>
      by_cases hshort : page.length < batchSize
      · simp only [Sweep.step, Loop.turned, if_pos hshort]
        exact ⟨hI.listed, hI.sorted, fun _ _ => .inl rfl⟩
      · simp only [Sweep.step, Loop.turned, if_neg hshort]
        exact ⟨hI.listed, hI.sorted, fun r hr => .inr ((hI.bounded r hr).resolve_left (by simp))⟩
  | .ended => exact hI

theorem Inv.next (hI : Inv uuid s) {e : Event} (he : Others uuid s e) (hsep : Separated uuid s e) :
    Inv uuid (Sweep.next uuid batchSize s e) := by
  cases e with
  | sweep => exact hI.step hsep
  | update id row => exact ⟨fun rec hrec => (hI.listed rec hrec).next batchSize he,
      hI.sorted, hI.bounded⟩
  | insert rows => exact ⟨fun rec hrec => (hI.listed rec hrec).next batchSize he,
      hI.sorted, hI.bounded⟩

theorem Inv.nodup (hI : Inv uuid s) : (s.published.map TransactionRecord.id).Nodup := by
  have hsorted := (List.pairwise_append.mp hI.sorted).1
  refine List.pairwise_map.mpr (hsorted.imp_of_mem fun {a b} ha hb hlt heq => hlt.ne ?_)
  obtain ⟨row, hrow, hcreated⟩ := hI.listed a (List.mem_append_left _ ha)
  obtain ⟨row', hrow', hcreated'⟩ := hI.listed b (List.mem_append_left _ hb)
  rw [heq] at hrow
  obtain rfl := Option.some.inj (hrow.symm.trans hrow')
  rw [key, key, heq, ← hcreated, hcreated']

theorem Inv.start (rows : List Row) : Inv uuid (start rows) where
  listed _ h := absurd h List.not_mem_nil
  sorted := List.Pairwise.nil
  bounded _ h := absurd h List.not_mem_nil

end

/-! ### Nothing skipped -/

/-- A record that waits is published where the sweep is past it, or is left of the page. -/
def Covers (uuid : ℕ ↪ ℕ) (batchSize : ℕ) (s : State) (rec : TransactionRecord) : Prop :=
  match s.loop with
  | .select last => (∃ l ∈ last, key uuid rec ≤ key uuid l) → rec.id ∈ s.published.map (·.id)
  | .publish left page =>
      page.length < batchSize ∨ (∃ l ∈ page.getLast?, key uuid rec ≤ key uuid l) →
        rec.id ∈ s.published.map (·.id) ∨ ∃ r ∈ left, r.id = rec.id ∧ r.relayTxHash = none
  | .ended => rec.id ∈ s.published.map (·.id)

section

variable {s : State} {batchSize : ℕ}

/-- **A query** leaves no record out that is past the page before. -/
theorem Covers.queried (hb : 0 < batchSize) {last : Option TransactionRecord}
    (hs : s.loop = .select last) {rec : TransactionRecord} (hrec : rec ∈ records s.rows)
    (hst : rec.status = .pending) (hhash : rec.relayTxHash = none)
    (h : Covers uuid batchSize s rec) : Covers uuid batchSize (step uuid batchSize s) rec := by
  rw [Covers, hs] at h
  -- a record that the cursor leaves out is not past the last one
  have hpast : rec ∉ awaiting uuid s.rows last → rec.id ∈ s.published.map (·.id) := by
    intro hnot
    cases last with
    | none => exact absurd (mem_awaiting.mpr ⟨hrec, hst, rfl⟩) hnot
    | some l =>
        refine h ⟨l, rfl, not_lt.mp fun hlt => hnot ?_⟩
        exact mem_awaiting.mpr ⟨hrec, hst, afterCursor_of_lt hlt⟩
  rw [Covers]
  simp only [step, hs, selectByStatus_eq]
  by_cases hne : Keyset.page (PageOrder uuid) batchSize (awaiting uuid s.rows last) = []
  · simp only [Loop.queried, if_pos hne]
    refine hpast ?_
    rw [Keyset.page_eq_nil hb hne]
    exact List.not_mem_nil
  · simp only [Loop.queried, if_neg hne]
    intro hreach
    by_cases hmem : rec ∈ awaiting uuid s.rows last
    · rcases Keyset.mem_page_or (r := PageOrder uuid) (n := batchSize) hmem with
        hpage | ⟨hfull, hle⟩
      · exact .inr ⟨rec, hpage, rfl, hhash⟩
      · obtain ⟨l, hl, hle'⟩ := hreach.resolve_left (by omega)
        have hpage := List.mem_of_getLast? hl
        have hid := id_eq_of_key_eq (le_antisymm hle' (pageOrder_iff.mp (hle l hpage)))
        have hrow := mem_records.mp (mem_awaiting.mp (Keyset.mem_of_mem_page hpage)).1
        have hrow' := mem_records.mp hrec
        rw [hid, hrow] at hrow'
        refine .inr ⟨l, hpage, hid.symm, ?_⟩
        rw [← hhash, Option.some.inj hrow']
    · exact .inl (hpast hmem)

theorem Covers.step (hb : 0 < batchSize) {rec : TransactionRecord} (hrec : rec ∈ records s.rows)
    (hst : rec.status = .pending) (hhash : rec.relayTxHash = none)
    (h : Covers uuid batchSize s rec) :
    Covers uuid batchSize (Sweep.step uuid batchSize s) rec := by
  obtain ⟨rows, loop, published⟩ := s
  match loop with
  | .select last => exact h.queried hb rfl hrec hst hhash
  | .publish (r :: left) page =>
      intro hreach
      change rec.id ∈ (if r.relayTxHash.isSome then published else published ++ [r]).map (·.id) ∨ _
      rcases h hreach with hpub | ⟨r', hr', hid, hnone⟩
      · left
        split
        · exact hpub
        · rw [List.map_append]
          exact List.mem_append_left _ hpub
      · rcases List.mem_cons.mp hr' with rfl | hleft
        · left
          rw [hnone, ← hid]
          simp
        · exact .inr ⟨r', hleft, hid, hnone⟩
  | .publish [] page =>
      have hdone := fun hreach => (h hreach).resolve_right fun ⟨_, hr, _⟩ => List.not_mem_nil hr
      by_cases hshort : page.length < batchSize
      · simp only [Covers, Sweep.step, Loop.turned, if_pos hshort]
        exact hdone (.inl hshort)
      · simp only [Covers, Sweep.step, Loop.turned, if_neg hshort]
        exact fun hreach => hdone (.inr hreach)
  | .ended => exact h

/-- What is covered depends on the time and the id of a record only. -/
theorem Covers.congr {rec rec' : TransactionRecord} (h : Covers uuid batchSize s rec)
    (hcreated : rec'.createdAt = rec.createdAt) (hid : rec'.id = rec.id) :
    Covers uuid batchSize s rec' := by
  have hkey : key uuid rec' = key uuid rec := by rw [key, key, hcreated, hid]
  rw [Covers, hkey, hid]
  exact h

/-- The row of an id is covered. -/
def Covered (uuid : ℕ ↪ ℕ) (batchSize id : ℕ) (s : State) : Prop :=
  ∃ row ∈ s.rows[id]?, Covers uuid batchSize s (rowToRecord id row)

/-- **One step** of the sweep or of the others covers a row that waits. -/
theorem covered_next (hb : 0 < batchSize) {id : ℕ} {e : Event} (he : Others uuid s e)
    (hwait : s.Waits id) (h : Covered uuid batchSize id s) :
    Covered uuid batchSize id (next uuid batchSize s e) := by
  obtain ⟨old, hold, hst, hhash⟩ := hwait
  obtain ⟨row, hrow, hcov⟩ := h
  obtain rfl := Option.some.inj (hold.symm.trans hrow)
  obtain ⟨row', hrow', hcreated⟩ := (Listed.of_mem (getElem?_mem_records hold)).next
    batchSize he
  have hcov' : Covers uuid batchSize (next uuid batchSize s e) (rowToRecord id old) := by
    cases e with
    | sweep => exact hcov.step hb (getElem?_mem_records hold) hst hhash
    | update | insert => exact hcov
  exact ⟨row', hrow', hcov'.congr hcreated rfl⟩

/-- **Along a run** a row that waits stays covered. -/
theorem covered_run (hb : 0 < batchSize) {rows : List Row} {es : List Event} {id : ℕ}
    (hothers : (machine uuid batchSize).Along (Others uuid) (start rows) es)
    (hwaits : (machine uuid batchSize).Along (fun s _ => s.Waits id) (start rows) es)
    (hrow : (start rows).Waits id) :
    Covered uuid batchSize id ((machine uuid batchSize).run (start rows) es) := by
  have hstart : Covered uuid batchSize id (start rows) := by
    obtain ⟨row, hrow, -⟩ := hrow
    refine ⟨row, hrow, ?_⟩
    rintro ⟨l, hl, -⟩
    cases hl
  have hnext : ∀ s e, Covered uuid batchSize id s → Others uuid s e ∧ s.Waits id →
      Covered uuid batchSize id ((machine uuid batchSize).next s e) :=
    fun s e h hok => covered_next hb hok.1 hok.2 h
  exact Transducer.run_inv hnext hstart (hothers.and hwaits)

/-- **Nothing is skipped**: when the sweep ends, a row that waited all the time is published. -/
theorem published_of_waits (hb : 0 < batchSize) {rows : List Row} {es : List Event} {id : ℕ}
    (hothers : (machine uuid batchSize).Along (Others uuid) (start rows) es)
    (hwaits : (machine uuid batchSize).Along (fun s _ => s.Waits id) (start rows) es)
    (hended : ((machine uuid batchSize).run (start rows) es).loop = .ended) :
    id ∈ ((machine uuid batchSize).run (start rows) es).published.map TransactionRecord.id := by
  cases es with
  | nil => cases hended
  | cons e es =>
      obtain ⟨row, -, hcov⟩ := covered_run hb hothers hwaits hwaits.1
      rw [Covers, hended] at hcov
      exact hcov

/-- **The sweep goes back** where a cursor does not separate: the next page has a record that is
not past the last one that was read. -/
theorem reads_again (hb : 0 < batchSize) {last : TransactionRecord}
    (hs : s.loop = .select (some last)) (hsep : ¬ Separates uuid s.rows last) :
    ∃ r ∈ (step uuid batchSize s).loop.left, key uuid r ≤ key uuid last := by
  simp only [Separates, not_forall, not_lt] at hsep
  obtain ⟨rec, hrec, hst, hafter, hle⟩ := hsep
  have hmem : rec ∈ awaiting uuid s.rows (some last) := mem_awaiting.mpr ⟨hrec, hst, hafter⟩
  simp only [step, hs, selectByStatus_eq]
  rcases Keyset.mem_page_or (r := PageOrder uuid) (n := batchSize) hmem with hpage | ⟨hfull, hpage⟩
  · rw [Loop.queried, if_neg (List.ne_nil_of_mem hpage)]
    exact ⟨rec, hpage, hle⟩
  · obtain ⟨r, hr⟩ := List.exists_mem_of_length_pos (hb.trans_le hfull)
    rw [Loop.queried, if_neg (List.ne_nil_of_mem hr)]
    exact ⟨r, hr, (pageOrder_iff.mp (hpage r hr)).trans hle⟩

end

/-! ### An end -/

section

variable {s : State} {batchSize : ℕ}

/-- The rows that are pending past a record. -/
def pendingPast (uuid : ℕ ↪ ℕ) (rows : List Row) (last : Option TransactionRecord) : ℕ :=
  (records rows).countP fun r => r.status = .pending ∧ ∀ l ∈ last, key uuid l < key uuid r

/-- What the sweep still has to do, if no row is inserted. -/
def work (uuid : ℕ ↪ ℕ) (batchSize : ℕ) (s : State) : ℕ :=
  match s.loop with
  | .select last => 3 * pendingPast uuid s.rows last + 1
  | .publish left page =>
      left.length + 1 + if page.length < batchSize then 0
        else 3 * pendingPast uuid s.rows page.getLast? + 1
  | .ended => 0

theorem work_eq_zero (h : work uuid batchSize s = 0) : s.loop = .ended := by
  rw [work] at h
  split at h
  · omega
  · omega
  · assumption

/-- A page is what is no longer past its last record. -/
theorem pendingPast_page {rows : List Row} {last : Option TransactionRecord}
    {last' : TransactionRecord} (hlast :
      (Keyset.page (PageOrder uuid) batchSize (awaiting uuid rows last)).getLast? = some last')
    (hsep : ∀ l ∈ last, Separates uuid rows l) :
    (Keyset.page (PageOrder uuid) batchSize (awaiting uuid rows last)).length +
      pendingPast uuid rows (some last') ≤ pendingPast uuid rows last := by
  have hlen := Keyset.length_page_add hlast
  have hmem := mem_awaiting.mp (Keyset.mem_of_mem_page (List.mem_of_getLast? hlast))
  have hwhole : (awaiting uuid rows last).length ≤ pendingPast uuid rows last := by
    rw [awaiting, ← List.countP_eq_length_filter]
    refine List.countP_mono_left fun r hr h => ?_
    obtain ⟨hst, hafter⟩ := of_decide_eq_true h
    refine decide_eq_true ⟨hst, fun l hl => ?_⟩
    obtain rfl := Option.mem_def.mp hl
    exact hsep l rfl r hr hst hafter
  have hpast : pendingPast uuid rows (some last') ≤
      (awaiting uuid rows last).countP fun r => ¬ PageOrder uuid r last' := by
    rw [awaiting, List.countP_filter]
    refine List.countP_mono_left fun r _ h => ?_
    obtain ⟨hst, hlt⟩ := of_decide_eq_true h
    have hlt := hlt last' rfl
    simp only [Bool.and_eq_true, decide_eq_true_eq, pageOrder_iff]
    exact ⟨hlt.not_ge, hst, afterCursor_mono hmem.2.2 hlt.le⟩
  omega

theorem work_step (batchSize : ℕ) (hsep : Separated uuid s .sweep) (hs : s.loop ≠ .ended) :
    work uuid batchSize (step uuid batchSize s) < work uuid batchSize s := by
  obtain ⟨rows, loop, published⟩ := s
  match loop with
  | .select last =>
      simp only [step, selectByStatus_eq]
      by_cases hne : Keyset.page (PageOrder uuid) batchSize (awaiting uuid rows last) = []
      · rw [Loop.queried, if_pos hne]
        exact Nat.succ_pos _
      · obtain ⟨last', hlast'⟩ := Option.isSome_iff_exists.mp (List.getLast?_isSome.mpr hne)
        have hsep' : ∀ l ∈ last, Separates uuid rows l := by
          intro l hl
          obtain rfl := Option.mem_def.mp hl
          exact hsep l rfl rfl
        have hpage := pendingPast_page hlast' hsep'
        have hpos := List.length_pos_iff.mpr hne
        simp only [Loop.queried, if_neg hne, work, hlast']
        split <;> omega
  | .publish (rec :: left) page =>
      simp only [step, work, List.length_cons]
      omega
  | .publish [] page =>
      simp only [step, work, Loop.turned, List.length_nil]
      by_cases hshort : page.length < batchSize
      · simp only [if_pos hshort]
        omega
      · simp only [if_neg hshort]
        omega
  | .ended => exact absurd rfl hs

theorem countP_set_le {α : Type*} {p : α → Bool} {xs : List α} {i : ℕ} {a : α}
    (h : ∀ b ∈ xs[i]?, p a = true → p b = true) : (xs.set i a).countP p ≤ xs.countP p := by
  induction xs generalizing i with
  | nil => exact Nat.le_refl _
  | cons b xs ih =>
      cases i with
      | zero =>
          have hb := h b rfl
          rw [List.set_cons_zero, List.countP_cons, List.countP_cons]
          cases ha : p a with
          | false => simp
          | true => simp [hb ha]
      | succ i =>
          have hxs := ih (i := i) h
          rw [List.set_cons_succ, List.countP_cons, List.countP_cons]
          omega

theorem records_set (rows : List Row) (id : ℕ) (row : Row) :
    records (rows.set id row) = (records rows).set id (rowToRecord id row) := by
  rw [records, records, List.mapIdx_set]

/-- An update adds nothing to what is pending. -/
theorem pendingPast_update {id : ℕ} {row : Row} (he : Others uuid s (.update id row))
    (last : Option TransactionRecord) :
    pendingPast uuid (s.rows.set id row) last ≤ pendingPast uuid s.rows last := by
  rw [pendingPast, records_set]
  refine countP_set_le fun old hold h => ?_
  rw [records, List.getElem?_mapIdx] at hold
  obtain ⟨row', hrow', rfl⟩ := Option.map_eq_some_iff.mp hold
  obtain ⟨hcreated, hpending⟩ := he row' hrow'
  obtain ⟨hst, hlt⟩ := of_decide_eq_true h
  refine decide_eq_true ⟨hpending hst, fun l hl => ?_⟩
  have hkey : key uuid (rowToRecord id row) = key uuid (rowToRecord id row') :=
    congrArg (fun t => toLex (t, uuid id)) hcreated
  exact hkey ▸ hlt l hl

/-- An event that is no insertion. -/
def Event.inserts : Event → Bool
  | .insert _ => true
  | _ => false

/-- **An end.** With no more insertions, the sweep ends within as many steps as it has work. -/
theorem ended_of_work {es : List Event}
    (hothers : (machine uuid batchSize).Along (Others uuid) s es)
    (hsep : (machine uuid batchSize).Along (Separated uuid) s es)
    (hes : ∀ e ∈ es, e.inserts = false) (hwork : work uuid batchSize s ≤ es.count .sweep) :
    ((machine uuid batchSize).run s es).loop = .ended := by
  induction es generalizing s with
  | nil => exact work_eq_zero (Nat.le_zero.mp hwork)
  | cons e es ih =>
      refine ih hothers.2 hsep.2 (fun e' he' => hes e' (List.mem_cons_of_mem _ he')) ?_
      cases e with
      | sweep =>
          rw [List.count_cons_self] at hwork
          change work uuid batchSize (step uuid batchSize s) ≤ _
          by_cases hs : s.loop = .ended
          · rw [step, hs, work, hs]
            exact Nat.zero_le _
          · have := work_step batchSize hsep.1 hs
            omega
      | update id row =>
          rw [List.count_cons_of_ne (by simp)] at hwork
          refine Nat.le_trans ?_ hwork
          change work uuid batchSize { s with rows := s.rows.set id row } ≤ _
          have hle := pendingPast_update hothers.1
          rw [work, work]
          obtain ⟨rows, loop, published⟩ := s
          cases loop with
          | select last =>
              have := hle last
              simp only at this ⊢
              omega
          | publish left page =>
              have := hle page.getLast?
              simp only at this ⊢
              split <;> omega
          | ended => exact Nat.le_refl _
      | insert rows => cases hes _ (List.mem_cons_self ..)

end

/-! ### The sweep -/

/-- **The startup sweep.** Where no pending row lies between a cursor and its row, no row is
published twice, every row that waits from before the sweep until its end is published, and once no
more rows are inserted the sweep ends. -/
theorem sweep_sound {batchSize : ℕ} (hb : 0 < batchSize) {rows : List Row} {es : List Event}
    (hothers : (machine uuid batchSize).Along (Others uuid) (start rows) es)
    (hsep : (machine uuid batchSize).Along (Separated uuid) (start rows) es) :
    let s := (machine uuid batchSize).run (start rows) es
    (s.published.map TransactionRecord.id).Nodup ∧
    (s.loop = .ended → ∀ id,
      (machine uuid batchSize).Along (fun s _ => s.Waits id) (start rows) es →
        id ∈ s.published.map TransactionRecord.id) ∧
    ∃ n, ∀ es', (machine uuid batchSize).Along (Others uuid) s es' →
      (machine uuid batchSize).Along (Separated uuid) s es' → (∀ e ∈ es', e.inserts = false) →
        n ≤ es'.count .sweep → ((machine uuid batchSize).run s es').loop = .ended := by
  have hnext : ∀ s e, Inv uuid s → Others uuid s e ∧ Separated uuid s e →
      Inv uuid ((machine uuid batchSize).next s e) := fun s e hI hok => hI.next hok.1 hok.2
  have hI := Transducer.run_inv hnext (Inv.start rows) (hothers.and hsep)
  exact ⟨hI.nodup, fun hended id hwaits => published_of_waits hb hothers hwaits hended,
    work uuid batchSize ((machine uuid batchSize).run (start rows) es), fun es' => ended_of_work⟩

end

/-! ### Rows of whole milliseconds, and one that is not -/

/-- A pending row. -/
def sampleRow (n : UInt8) (createdAt : ℕ) : Row :=
  pendingRow createdAt ⟨2, 4, [], [n], Sample.message [n] 0 |>.transactionData, 5⟩

/-- Ids in the order of insertion. -/
def sampleIds : ℕ ↪ ℕ := ⟨id, Function.injective_id⟩

/-- Three rows of one transaction, of which a worker takes the second, and a row that is inserted
meanwhile. -/
def sampleRows : List Row := [sampleRow 1 5000, sampleRow 2 5000, sampleRow 3 5000]

def sampleEvents : List Event :=
  [.sweep, .update 1 { sampleRow 2 5000 with status := .submitting }, .sweep, .sweep,
    .insert [sampleRow 4 6000], .sweep, .sweep]

theorem sample_sweep_sound :
    let s := (machine sampleIds 2).run (start sampleRows) sampleEvents
    (s.published.map TransactionRecord.id).Nodup ∧
    (s.loop = .ended → ∀ id,
      (machine sampleIds 2).Along (fun s _ => s.Waits id) (start sampleRows) sampleEvents →
        id ∈ s.published.map TransactionRecord.id) ∧
    ∃ n, ∀ es', (machine sampleIds 2).Along (Others sampleIds) s es' →
      (machine sampleIds 2).Along (Separated sampleIds) s es' → (∀ e ∈ es', e.inserts = false) →
        n ≤ es'.count .sweep → ((machine sampleIds 2).run s es').loop = .ended :=
  sweep_sound (by decide) (by decide +kernel) (by decide +kernel)

/-- The sweep turns around a row. -/
def Turns (row : Row) (s : State) : Prop :=
  s.rows = [row] ∧ s.loop ∈ [.select none, .select (some (rowToRecord 0 row)),
    .publish [rowToRecord 0 row] [rowToRecord 0 row], .publish [] [rowToRecord 0 row]]

theorem turns_next {s : State} (h : Turns (sampleRow 1 5001) s) :
    Turns (sampleRow 1 5001) (next sampleIds 1 s .sweep) := by
  obtain ⟨rows, loop, published⟩ := s
  obtain ⟨hrows, hloop⟩ := h
  obtain rfl := hrows
  refine ⟨?_, ?_⟩
  · rw [next, step]
    split <;> rfl
  · -- where the loop goes does not depend on what is published
    have hpub : (next sampleIds 1 ⟨[sampleRow 1 5001], loop, published⟩ .sweep).loop =
        (next sampleIds 1 ⟨[sampleRow 1 5001], loop, []⟩ .sweep).loop := by
      simp only [next, step]
      split <;> rfl
    rw [hpub]
    clear hpub
    change loop ∈ _ at hloop
    revert loop
    decide +kernel

/-- A row with a fraction of a millisecond, read in pages of one, is published twice, and the sweep
does not end. -/
theorem fractional_row_published_twice :
    (∀ n, (machine sampleIds 1).Along (Others sampleIds) (start [sampleRow 1 5001])
      (List.replicate n .sweep)) ∧
    (¬ (((machine sampleIds 1).run (start [sampleRow 1 5001])
      (List.replicate 5 .sweep)).published.map TransactionRecord.id).Nodup) ∧
    ∀ n, ((machine sampleIds 1).run (start [sampleRow 1 5001])
      (List.replicate n .sweep)).loop ≠ .ended := by
  have hsweeps : ∀ n, ∀ e ∈ List.replicate n Event.sweep, e = .sweep := fun n e he =>
    (List.mem_replicate.mp he).2
  refine ⟨fun n => ?_, by decide +kernel, fun n hended => ?_⟩
  · refine Transducer.Along.mono ?_ (Transducer.along_of_forall (hsweeps n))
    rintro s e rfl
    exact trivial
  · have hnext : ∀ s e, Turns (sampleRow 1 5001) s → e = .sweep →
        Turns (sampleRow 1 5001) ((machine sampleIds 1).next s e) := by
      rintro s e h rfl
      exact turns_next h
    have hturns := Transducer.run_inv hnext (s := start [sampleRow 1 5001]) ⟨rfl, by decide +kernel⟩
      (Transducer.along_of_forall (hsweeps n))
    have hloop := hturns.2
    rw [hended] at hloop
    simp at hloop

end Ntt.Relayer.Sweep
