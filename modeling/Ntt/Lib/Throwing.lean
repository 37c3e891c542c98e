import Ntt.Lib.Interleaving

/-!
# Programs that Throw

A program of atomic actions that ends with a value or throws, and what can then be tried instead.
`Meets` says that it obeys a contract from any state, and what its past is at the end. The rules are
those of a logic in which only the past is described.

* `Prog.meets_pure`, `Prog.meets_throw`, `Prog.meets_perform`: the programs of at most one action;
* `Prog.meets_bind`: one program after another, unless the first throws;
* `Prog.meets_orElse`: one program instead of another that throws;
* `Prog.meets_forM`: a loop that ends at the first throw.
-/

namespace Interleaving

variable {σ α β : Type} {A : Atomics σ} {I : σ → Prop}

/-- A program that ends without a value when it throws. -/
abbrev Prog (A : Atomics σ) (α : Type) : Type := OptionT (Proc A) α

namespace Prog

/-- The program obeys the contract from any state, and ends with the postcondition. -/
def Meets (C : Contract A I) (p : Prog A α) (Q : Option α → Past A → Prop) (h : Past A) : Prop :=
  ∀ s, I s → p.run.Obeys C (fun r h _ => Q r h) h s

variable {C : Contract A I} {Q Q' : Option α → Past A → Prop} {h : Past A}

theorem Meets.mono {p : Prog A α} (hp : p.Meets C Q h) (hQ : ∀ r h, Q r h → Q' r h) :
    p.Meets C Q' h := fun s hI => (hp s hI).mono fun r h _ _ => hQ r h

theorem meets_pure {a : α} (hQ : Q (some a) h) : (pure a : Prog A α).Meets C Q h :=
  fun _ _ _ _ _ => hQ

theorem meets_throw (hQ : Q none h) : (failure : Prog A α).Meets C Q h := fun _ _ _ _ _ => hQ

/-- An action that answers with a value or throws, and what its answer says. -/
theorem meets_perform {a : A.Act} {f : A.Reply a → Option α} (hg : ∀ s, I s → C.guard h a s)
    (hQ : ∀ s c r s', I s → A.perform a c s = some (r, s') → Q (f r) (⟨a, r⟩ :: h)) :
    Meets C (OptionT.mk (.act a fun r => .done (f r))) Q h := by
  intro s hI t hIt _
  refine ⟨hg t hIt, fun c r u _ hu _ => ?_⟩
  exact fun _ _ _ => hQ t c r u hIt hu

theorem meets_bind {p : Prog A β} {f : β → Prog A α}
    (hp : p.Meets C (fun r h => match r with
      | some b => (f b).Meets C Q h
      | none => Q none h) h) : (p >>= f).Meets C Q h := by
  intro s hI
  rw [OptionT.run_bind]
  refine Proc.obeys_bind ((hp s hI).mono ?_) hI
  rintro (_ | b) h' s' hI' hr
  · exact fun _ _ _ => hr
  · exact hr s' hI'

theorem meets_orElse {p q : Prog A α}
    (hp : p.Meets C (fun r h => match r with
      | some a => Q (some a) h
      | none => q.Meets C Q h) h) : (p <|> q).Meets C Q h := by
  intro s hI
  rw [OptionT.run_orElse]
  refine Proc.obeys_bind ((hp s hI).mono ?_) hI
  rintro (_ | a) h' s' hI' hr
  · exact hr s' hI'
  · exact fun _ _ _ => hr

/-- A loop whose rounds keep a property of the past, also when they throw. -/
theorem meets_forM {P : Past A → Prop} {xs : List β} {f : β → Prog A PUnit}
    (hf : ∀ x ∈ xs, ∀ h, P h → (f x).Meets C (fun _ h => P h) h) (hP : P h) :
    (xs.forM f).Meets C (fun _ h => P h) h := by
  induction xs generalizing h with
  | nil => exact meets_pure hP
  | cons x xs ih =>
      refine meets_bind ((hf x List.mem_cons_self h hP).mono ?_)
      rintro (_ | _) h' hP'
      · exact hP'
      · exact ih (fun y hy => hf y (List.mem_cons_of_mem _ hy)) hP'

end Prog

end Interleaving
