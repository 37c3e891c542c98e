import Mathlib.Algebra.BigOperators.Group.Finset.Basic
import Mathlib.Data.Fintype.Basic

/-!
# Tallies

A tally is a sum over the keys with a property, when there are finitely many of them.

## Main results

* `Tally.insert`: a key that gets the property adds its quantity.
* `Tally.unique`: there is one sum.
* `Tally.sum_change`: a sum over all keys where the quantity of one of them changes.
* `Tally.sum_eq_of_pairs`: sums over keys that are paired one to one.
-/

/-- The keys with a property are finitely many, and a quantity sums to a number over them. -/
def Tally {κ : Type*} (p : κ → Prop) (f : κ → ℕ) (n : ℕ) : Prop :=
  ∃ keys : Finset κ, (∀ k, k ∈ keys ↔ p k) ∧ ∑ k ∈ keys, f k = n

namespace Tally

variable {κ : Type*} {p p' : κ → Prop} {f f' : κ → ℕ} {n : ℕ}

/-- Nothing is tallied where no key has the property. -/
theorem zero (h : ∀ k, ¬ p k) : Tally p f 0 :=
  ⟨∅, fun k => ⟨fun hk => absurd hk (Finset.notMem_empty k), fun hk => absurd hk (h k)⟩, rfl⟩

/-- A tally reads the keys with the property only. -/
theorem congr (h : Tally p f n) (hp : ∀ k, p' k ↔ p k) (hf : ∀ k, p k → f' k = f k) :
    Tally p' f' n := by
  obtain ⟨keys, hkeys, hsum⟩ := h
  refine ⟨keys, fun k => (hkeys k).trans (hp k).symm, ?_⟩
  rw [← hsum]
  exact Finset.sum_congr rfl fun k hk => hf k ((hkeys k).mp hk)

/-- A key that gets the property adds its quantity. -/
theorem insert (h : Tally p f n) {k : κ} (hk : ¬ p k) (hp : ∀ k', p' k' ↔ k' = k ∨ p k')
    (hf : ∀ k', p k' → f' k' = f k') : Tally p' f' (n + f' k) := by
  classical
  obtain ⟨keys, hkeys, hsum⟩ := h
  have hnot : k ∉ keys := fun hmem => hk ((hkeys k).mp hmem)
  refine ⟨Insert.insert k keys, fun k' => ?_, ?_⟩
  · rw [Finset.mem_insert, hkeys k', hp k']
  · rw [Finset.sum_insert hnot, Nat.add_comm, ← hsum]
    exact congrArg (· + f' k) (Finset.sum_congr rfl fun k' hk' => hf k' ((hkeys k').mp hk'))

theorem unique {m : ℕ} (h : Tally p f n) (h' : Tally p f m) : n = m := by
  obtain ⟨keys, hkeys, rfl⟩ := h
  obtain ⟨keys', hkeys', rfl⟩ := h'
  have heq : keys = keys' := Finset.ext fun k => (hkeys k).trans (hkeys' k).symm
  rw [heq]

/-- A sum over all keys changes as the quantity of the one key that changes. -/
theorem sum_change [Fintype κ] {μ : Type*} [AddCommMonoid μ] (q q' : κ → μ) (k : κ)
    (h : ∀ k', k' ≠ k → q' k' = q k') : ∑ k', q' k' + q k = ∑ k', q k' + q' k := by
  classical
  have hrest : ∑ k' ∈ Finset.univ.erase k, q' k' = ∑ k' ∈ Finset.univ.erase k, q k' :=
    Finset.sum_congr rfl fun k' hk' => h k' (Finset.ne_of_mem_erase hk')
  rw [← Finset.add_sum_erase _ q' (Finset.mem_univ k),
    ← Finset.add_sum_erase _ q (Finset.mem_univ k), hrest]
  ac_rfl

/-- Two sums are equal when the keys that count in them are paired one to one, with equal
quantities. -/
theorem sum_eq_of_pairs {κ' : Type*} [Fintype κ] [Fintype κ'] {μ : Type*} [AddCommMonoid μ]
    {q : κ → μ} {q' : κ' → μ} (P : κ → κ' → Prop) (hleft : ∀ k, q k ≠ 0 → ∃ k', P k k')
    (hright : ∀ k', q' k' ≠ 0 → ∃ k, P k k') (hq : ∀ k k', P k k' → q k = q' k')
    (hfun : ∀ k k₁ k₂, P k k₁ → P k k₂ → k₁ = k₂) (hinj : ∀ k₁ k₂ k', P k₁ k' → P k₂ k' → k₁ = k₂) :
    ∑ k, q k = ∑ k', q' k' := by
  have hchoose (k : κ) (hk : q k ≠ 0) : P k (hleft k hk).choose := (hleft k hk).choose_spec
  refine Finset.sum_bij_ne_zero (fun k _ hk => (hleft k hk).choose) (fun _ _ _ => Finset.mem_univ _)
    (fun k₁ _ h₁ k₂ _ h₂ heq => ?_) (fun k' _ hk' => ?_) fun k _ hk => hq _ _ (hchoose k hk)
  · exact hinj k₁ k₂ _ (hchoose k₁ h₁) (heq ▸ hchoose k₂ h₂)
  · obtain ⟨k, hk⟩ := hright k' hk'
    have hne : q k ≠ 0 := hq k k' hk ▸ hk'
    exact ⟨k, Finset.mem_univ k, hne, hfun k _ _ (hchoose k hne) hk⟩

end Tally
