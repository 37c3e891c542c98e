import Ntt.Lib.Transducer
import Mathlib.Algebra.Group.Nat.Defs
import Mathlib.Tactic.Common

/-!
# The Oracle Writer

`RpcOracleWriter` of the oracle service, as far as it chooses nonces and fees. A push is one `send`:
it asks a node for two counts of the account's transactions, takes a nonce, prices a replacement if
the nonce is that of its last send, hands the transaction to the node and waits for the receipt. An
error that is thrown ends the send. The sends of a writer follow one another, since the service
awaits each.

The state is that of the account, as the chain and the nodes have it, with the memory of the writer
and the call that its send awaits. What the writer computes between two calls is done in one step.
Other processes use the same key, and transactions are mined or dropped at any time.
-/

namespace Ntt.Oracle

/-! ### Fees -/

/-- The fee fields of a transaction. -/
structure Fees where
  maxFeePerGas : Option ℕ
  maxPriorityFeePerGas : Option ℕ
  gasPrice : Option ℕ
deriving DecidableEq, Repr

/-- Fee fields of a sent tx, kept until it is confirmed mined. -/
structure SentTxFees extends Fees where
  nonce : ℕ
  gasLimit : ℕ
deriving DecidableEq, Repr

/-- What a send sets of its transaction; the rest is filled in by the library. -/
structure Overrides extends Fees where
  nonce : ℕ
  gasLimit : Option ℕ
deriving DecidableEq, Repr

/-- 12.5 percent more, and a little. -/
def bumpFee (v : ℕ) : ℕ := v * 1125 / 1000 + 1

/-- `Number.isSafeInteger` -/
def isSafeInteger (n : ℕ) : Bool := n < 2 ^ 53

/-- The overrides of a send that replaces nothing. -/
def plainOverrides (nonce : ℕ) : Overrides := ⟨⟨none, none, none⟩, nonce, none⟩

/-- The overrides of a replacement: the current market fees, but at least the bumped ones, and a gas
limit that is not lower. -/
def replacement (last : SentTxFees) (fee : Fees) (est : ℕ) : Overrides where
  toFees :=
    match last.maxFeePerGas, last.gasPrice with
    | some maxFee, _ =>
        let maxPriorityFeePerGas :=
          max (fee.maxPriorityFeePerGas.getD 0) (bumpFee (last.maxPriorityFeePerGas.getD 0))
        { maxFeePerGas :=
            some (max (max (fee.maxFeePerGas.getD 0) (bumpFee maxFee)) maxPriorityFeePerGas)
          maxPriorityFeePerGas := some maxPriorityFeePerGas
          gasPrice := none }
    | none, some gasPrice => ⟨none, none, some (max (fee.gasPrice.getD 0) (bumpFee gasPrice))⟩
    | none, none => ⟨none, none, none⟩
  nonce := last.nonce
  gasLimit := some (max est last.gasLimit)

/-- A transaction has one kind of fees. -/
def Fees.OneKind (f : Fees) : Prop :=
  (f.maxFeePerGas.isSome ∧ f.maxPriorityFeePerGas.isSome ∧ f.gasPrice = none) ∨
    (f.maxFeePerGas = none ∧ f.maxPriorityFeePerGas = none ∧ f.gasPrice.isSome)

instance (f : Fees) : Decidable f.OneKind := inferInstanceAs (Decidable (_ ∨ _))

/-- What the library makes of overrides. -/
structure Overrides.Fills (o : Overrides) (tx : SentTxFees) : Prop where
  nonce : tx.nonce = o.nonce
  maxFeePerGas : ∀ v ∈ o.maxFeePerGas, tx.maxFeePerGas = some v
  maxPriorityFeePerGas : ∀ v ∈ o.maxPriorityFeePerGas, tx.maxPriorityFeePerGas = some v
  gasPrice : ∀ v ∈ o.gasPrice, tx.gasPrice = some v
  gasLimit : ∀ v ∈ o.gasLimit, tx.gasLimit = v
  oneKind : tx.OneKind

instance (o : Overrides) (tx : SentTxFees) : Decidable (o.Fills tx) :=
  decidable_of_iff (tx.nonce = o.nonce ∧ (∀ v ∈ o.maxFeePerGas, tx.maxFeePerGas = some v) ∧
    (∀ v ∈ o.maxPriorityFeePerGas, tx.maxPriorityFeePerGas = some v) ∧
    (∀ v ∈ o.gasPrice, tx.gasPrice = some v) ∧ (∀ v ∈ o.gasLimit, tx.gasLimit = v) ∧ tx.OneKind)
    ⟨fun ⟨h₁, h₂, h₃, h₄, h₅, h₆⟩ => ⟨h₁, h₂, h₃, h₄, h₅, h₆⟩,
      fun ⟨h₁, h₂, h₃, h₄, h₅, h₆⟩ => ⟨h₁, h₂, h₃, h₄, h₅, h₆⟩⟩

/-! ### The account and the writer -/

/-- A pending transaction of the account, by the writer or by another process. -/
structure PoolTx where
  fees : SentTxFees
  own : Bool
deriving DecidableEq, Repr

/-- The call that a send awaits. -/
inductive Phase where
  | idle
  /-- `eth_getTransactionCount` of `latest`. -/
  | latest
  /-- `eth_getTransactionCount` of `pending`. -/
  | pending (nonce : ℕ)
  /-- The fees and the estimate for a replacement of the last send. -/
  | pricing (last : SentTxFees)
  /-- The node takes the transaction. -/
  | sending (overrides : Overrides)
  /-- The receipt. -/
  | waiting (nonce : ℕ)
deriving DecidableEq, Repr

structure State where
  /-- The next nonce that the chain mines. -/
  nextNonce : ℕ
  pool : List PoolTx
  lastSent : Option SentTxFees
  lastMinedNonce : Option ℕ
  phase : Phase
deriving DecidableEq, Repr

namespace State

variable (s : State)

/-- A transaction is pending at a nonce. -/
def occupied (nonce : ℕ) : Bool := s.pool.any (·.fees.nonce = nonce)

/-- The next nonce after pending transactions without a gap. -/
def pendingFrom : ℕ → ℕ → ℕ
  | 0, nonce => nonce
  | fuel + 1, nonce => if s.occupied nonce then pendingFrom fuel (nonce + 1) else nonce

/-- The count of the account's transactions with the pending ones. -/
def pendingNonce : ℕ := s.pendingFrom s.pool.length s.nextNonce

/-- A transaction enters the pool, in the place of the one at its nonce. -/
def enter (tx : PoolTx) : State :=
  { s with pool := tx :: s.pool.filter (·.fees.nonce ≠ tx.fees.nonce) }

/-- The nonce of a send: the account's, unless it is known to be mined. -/
def floorNonce (nonce : ℕ) : ℕ :=
  match s.lastMinedNonce with
  | some m => if nonce ≤ m then m + 1 else nonce
  | none => nonce

/-- The counts are there: a send without a memory waits for unknown transactions, and the others
take a nonce. -/
def choose (nonce pendingNonce : ℕ) : Phase :=
  if s.lastSent.isNone ∧ pendingNonce > nonce then .idle
  else
    match s.lastSent with
    | some last =>
        if last.nonce = s.floorNonce nonce then .pricing last
        else .sending (plainOverrides (s.floorNonce nonce))
    | none => .sending (plainOverrides (s.floorNonce nonce))

end State

/-- The pushes of the writer, which differ in what they send. -/
inductive Push where
  | pushPrices
  | pushTwapSample
deriving DecidableEq, Repr

/-- What may happen next. -/
inductive Event where
  /-- A push comes to its send. -/
  | push (p : Push)
  /-- A node answers the first count. -/
  | latestCount (n : ℕ)
  /-- A node answers the second count. -/
  | pendingCount (n : ℕ)
  /-- The fees and the estimate for a replacement. -/
  | priced (fee : Fees) (est : ℕ)
  /-- A node takes the transaction; its answer may be lost. -/
  | taken (tx : SentTxFees) (answered : Bool)
  /-- The receipt comes in time. -/
  | receipt
  /-- The call that is awaited fails, or times out. -/
  | fails
  /-- Another process sends a transaction. -/
  | other (tx : SentTxFees)
  /-- The transaction at the next nonce is mined. -/
  | mine
  /-- The transaction at a nonce is dropped. -/
  | drop (nonce : ℕ)

/-- A step of the writer, of a node or of another process. What cannot happen changes nothing:
nodes take no transaction at a nonce that is mined, and there is no receipt before. -/
def next (s : State) : Event → State
  | .push _ => if s.phase = .idle then { s with phase := .latest } else s
  | .latestCount n =>
      match s.phase with
      | .latest => { s with phase := if isSafeInteger n then .pending n else .idle }
      | _ => s
  | .pendingCount n =>
      match s.phase with
      | .pending nonce => { s with phase := if isSafeInteger n then s.choose nonce n else .idle }
      | _ => s
  | .priced fee est =>
      match s.phase with
      | .pricing last => { s with phase := .sending (replacement last fee est) }
      | _ => s
  | .taken tx answered =>
      match s.phase with
      | .sending overrides =>
          if overrides.Fills tx ∧ s.nextNonce ≤ tx.nonce then
            if answered then
              { s.enter ⟨tx, true⟩ with lastSent := some tx, phase := .waiting tx.nonce }
            else { s.enter ⟨tx, true⟩ with phase := .idle }
          else s
      | _ => s
  | .receipt =>
      match s.phase with
      | .waiting nonce =>
          if nonce < s.nextNonce then
            { s with lastSent := none, lastMinedNonce := some nonce, phase := .idle }
          else s
      | _ => s
  | .fails => { s with phase := .idle }
  | .other tx => if s.nextNonce ≤ tx.nonce then s.enter ⟨tx, false⟩ else s
  | .mine =>
      if s.occupied s.nextNonce then
        { s with nextNonce := s.nextNonce + 1, pool := s.pool.filter (·.fees.nonce ≠ s.nextNonce) }
      else s
  | .drop nonce => { s with pool := s.pool.filter (·.fees.nonce ≠ nonce) }

/-- The writer with its account. -/
def machine : Transducer State Event Unit where
  next := next
  out _ _ := ()

/-- A new writer: other processes may have used the account. -/
structure State.Initial (s : State) : Prop where
  pool : ∀ tx ∈ s.pool, tx.own = false ∧ s.nextNonce ≤ tx.fees.nonce
  lastSent : s.lastSent = none
  lastMinedNonce : s.lastMinedNonce = none
  phase : s.phase = .idle

end Ntt.Oracle
