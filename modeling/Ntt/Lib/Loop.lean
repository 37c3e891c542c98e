import Mathlib.Tactic.Common

/-!
# While Loops

A `Loop` has a condition and a body that may fail. `Loop.Run` derives where a loop ends and after
how many rounds. There is no budget: a loop that goes on for ever, or whose body fails, has no run.

## Main results

* `Loop.Run.unique`: the last state and the number of rounds are determined.
* `Loop.exists_run`: a loop that counts down ends, after as many rounds as it counted, and keeps
  its invariant.
-/

/-- A loop over the variables `σ`: when it goes on, and what a round does. -/
structure Loop (ε σ : Type*) where
  condition : σ → Bool
  body : σ → Except ε σ

namespace Loop

variable {ε σ : Type*} {L : Loop ε σ} {s t t' : σ} {n n' : ℕ}

/-- The loop ends after exactly `n` rounds, in the state `t`. -/
inductive Run (L : Loop ε σ) : σ → ℕ → σ → Prop
  | exit {s : σ} (h : L.condition s = false) : Run L s 0 s
  | round {s s' t : σ} {n : ℕ} (h : L.condition s = true) (hbody : L.body s = .ok s')
      (hrun : Run L s' n t) : Run L s (n + 1) t

/-- Where a loop ends is determined, and after how many rounds. -/
theorem Run.unique (h : L.Run s n t) (h' : L.Run s n' t') : n' = n ∧ t' = t := by
  induction h generalizing n' with
  | exit hexit =>
      cases h' with
      | exit => exact ⟨rfl, rfl⟩
      | round hgo => exact absurd (hexit.symm.trans hgo) Bool.false_ne_true
  | round hgo hbody _ ih =>
      cases h' with
      | exit hexit => exact absurd (hexit.symm.trans hgo) Bool.false_ne_true
      | round _ hbody' hrun' =>
          obtain rfl := Except.ok.inj (hbody.symm.trans hbody')
          obtain ⟨rfl, rfl⟩ := ih hrun'
          exact ⟨rfl, rfl⟩

/-- A run is the only one from its state. -/
theorem Run.iff (h : L.Run s n t) : L.Run s n' t' ↔ n' = n ∧ t' = t := by
  constructor
  · exact h.unique
  · rintro ⟨rfl, rfl⟩
    exact h

/-- **Countdown.** When every round counts down by one, and the loop goes on while the count is
positive, it ends after as many rounds as the count says. Induction on the count. -/
theorem exists_run {I : σ → Prop} {m : σ → ℕ}
    (hcondition : ∀ s, I s → (L.condition s = true ↔ 0 < m s))
    (hbody : ∀ s, I s → L.condition s = true →
      ∃ s', L.body s = .ok s' ∧ I s' ∧ m s' + 1 = m s) (hs : I s) :
    ∃ t, L.Run s (m s) t ∧ I t ∧ m t = 0 := by
  induction hn : m s generalizing s with
  | zero =>
      have hexit : L.condition s = false := by
        rw [← Bool.not_eq_true, hcondition s hs]
        omega
      exact ⟨s, .exit hexit, hs, hn⟩
  | succ n ih =>
      have hgo : L.condition s = true := (hcondition s hs).mpr (by omega)
      obtain ⟨s', hok, hs', hdown⟩ := hbody s hs hgo
      obtain ⟨t, hrun, ht, hzero⟩ := ih hs' (by omega)
      exact ⟨t, .round hgo hok hrun, ht, hzero⟩

end Loop
