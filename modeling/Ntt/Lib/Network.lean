import Mathlib.Logic.Function.Basic
import Ntt.Lib.Machine

/-!
# Networks of Contracts

Contracts on different chains do not call each other. What one of them does reaches another only
as something that is said there later: what the environment of a contract may say depends on what
all the contracts have committed. A network is a family of contracts with such environments, and a
step of it is a transaction on one chain: a run of the call machine (`Ntt.Lib.Machine`), nested
calls and all, from a storage with no call pending to another one. The transactions of different
chains come in any order.

## Main results

* `Network.Reachable.inv`: an invariant of each contract, which may depend on what the network has
  committed, holds in every reachable state. The contracts are shown sound one by one, each in the
  environment of the moment; what is committed later only has to keep the invariants of the others.
-/

namespace Reentrant

/-- Contracts, each on a chain of its own, and what their environments may do once the network has
committed a storage for each. -/
structure Network (ι : Type) (X : Interface) (σ ε : Type) where
  /-- The contract of a chain. -/
  contract : ι → Contract X σ ε
  /-- Its environment. -/
  environment : (ι → σ) → (i : ι) → Environment X σ (contract i).Entry

namespace Network

variable {ι : Type} [DecidableEq ι] {X : Interface} {σ ε : Type} {N : Network ι X σ ε}

variable (N) in
/-- A transaction on one chain. -/
inductive Step : (ι → σ) → (ι → σ) → Prop
  | transaction {s : ι → σ} (i : ι) {t : σ} :
      Reentrant.Reachable (N.contract i) (N.environment s i) (s i) ⟨t, []⟩ →
      Step s (Function.update s i t)

variable (N) in
/-- The states that some order of transactions leads to. -/
def Reachable (init : ι → σ) : (ι → σ) → Prop := Relation.ReflTransGen N.Step init

/-- What shows an invariant of every contract, together with a property that they have between
transactions: each contract is sound in the environment of the moment, a transaction within the
rely keeps the property, and the invariants of the other contracts. -/
structure Keeps (N : Network ι X σ ε) (E : (ι → σ) → ι → Rely X σ) (idle : ι → σ → Prop) :
    Prop where
  closed : ∀ s i, (E s i).Closed
  sound : ∀ s i, Sound (N.contract i) (N.environment s i) (E s i)
  idle : ∀ s i t, (E s i).rely (s i) t → idle i (s i) → idle i t
  mono : ∀ s i t, (E s i).rely (s i) t → ∀ j u, (E s j).inv u →
    (E (Function.update s i t) j).inv u

/-- The invariants hold of every reachable state of the network. Induction on the transactions. -/
theorem Reachable.inv {E : (ι → σ) → ι → Rely X σ} {idle : ι → σ → Prop}
    (hN : N.Keeps E idle) {init s : ι → σ} (hinit : ∀ i, (E init i).inv (init i))
    (hidle : ∀ i, idle i (init i)) (h : N.Reachable init s) :
    ∀ i, (E s i).inv (s i) ∧ idle i (s i) := by
  induction h with
  | refl => exact fun i => ⟨hinit i, hidle i⟩
  | @tail s _ _ hstep ih =>
      obtain ⟨i, hrun⟩ := hstep
      rename_i t
      have hinv : (E s i).inv t := hrun.inv (hN.closed s i) (hN.sound s i) (ih i).1
      have hrel : (E s i).rely (s i) t :=
        hrun.rely_of_idle (hN.closed s i) (hN.sound s i) (ih i).1 rfl
      intro j
      by_cases hj : j = i
      · subst hj
        rw [Function.update_self]
        exact ⟨hN.mono s j t hrel j t hinv, hN.idle s j t hrel (ih j).2⟩
      · rw [Function.update_of_ne hj]
        exact ⟨hN.mono s i t hrel j (s j) (ih j).1, (ih j).2⟩

/-- A transaction after others. -/
theorem Reachable.transaction {init s : ι → σ} (h : N.Reachable init s) (i : ι) {t : σ}
    (hrun : Reentrant.Reachable (N.contract i) (N.environment s i) (s i) ⟨t, []⟩) :
    N.Reachable init (Function.update s i t) :=
  h.tail (.transaction i hrun)

end Network

end Reentrant
