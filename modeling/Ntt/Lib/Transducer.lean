import Mathlib.Algebra.Group.Defs
import Mathlib.Data.List.Forall2
import Mathlib.Data.List.Induction

/-!
# Machines that Answer

A `Transducer` takes inputs one by one, moves from state to state, and answers each. A step that
may fail makes one (`Transducer.ofExcept`): a failure changes nothing and is the answer.

## Main results

* `Transducer.run_inv`: what every step preserves holds after every run.
* `Transducer.step_unique`: a step into what every step preserves happens once in a run.
* `Transducer.IsPart.run`: a run of a machine is a run of each part, for the inputs that reach it.
* `Transducer.lockstep`: a relation of the states of two machines that survives every input and
  makes the answers correspond does so along every run.
-/

/-- A machine that answers each input. -/
structure Transducer (σ ι ω : Type*) where
  next : σ → ι → σ
  out : σ → ι → ω

namespace Transducer

variable {σ τ ι κ ω ω' : Type*}

/-- The machine of a step that may fail: a failure changes nothing, and is the answer. -/
def ofExcept {ε : Type*} (step : σ → ι → Except ε (σ × ω)) : Transducer σ ι (Except ε ω) where
  next s i := ((step s i).map Prod.fst).toOption.getD s
  out s i := (step s i).map Prod.snd

section

variable {ε : Type*} {step : σ → ι → Except ε (σ × ω)} {s : σ} {i : ι}

theorem ofExcept_of_ok {s' : σ} {w : ω} (h : step s i = .ok (s', w)) :
    (ofExcept step).next s i = s' ∧ (ofExcept step).out s i = .ok w := by
  simp [ofExcept, h, Except.map, Except.toOption]

theorem ofExcept_of_error {e : ε} (h : step s i = .error e) :
    (ofExcept step).next s i = s ∧ (ofExcept step).out s i = .error e := by
  simp [ofExcept, h, Except.map, Except.toOption]

end

/-- What holds of the state that a step leaves, and of the state where it fails, holds after it. -/
theorem ofExcept_next {ε : Type*} {step : σ → ι → Except ε (σ × ω)} {s : σ} {i : ι}
    {inv : σ → Prop} (hs : inv s) (h : ∀ s' w, step s i = .ok (s', w) → inv s') :
    inv ((ofExcept step).next s i) := by
  cases hstep : step s i with
  | error e =>
      rw [(ofExcept_of_error hstep).1]
      exact hs
  | ok r =>
      rw [(ofExcept_of_ok hstep).1]
      exact h r.1 r.2 hstep

/-- The state after a list of inputs. -/
def run (M : Transducer σ ι ω) (s : σ) : List ι → σ
  | [] => s
  | i :: is => M.run (M.next s i) is

/-- The answers to a list of inputs. -/
def outs (M : Transducer σ ι ω) (s : σ) : List ι → List ω
  | [] => []
  | i :: is => M.out s i :: M.outs (M.next s i) is

/-- Every input of a list is allowed in the state where it comes. -/
def Along (M : Transducer σ ι ω) (ok : σ → ι → Prop) (s : σ) : List ι → Prop
  | [] => True
  | i :: is => ok s i ∧ M.Along ok (M.next s i) is

/-- What is allowed in any state is allowed along. -/
theorem along_of_forall {M : Transducer σ ι ω} {ok : ι → Prop} {is : List ι} {s : σ}
    (h : ∀ i ∈ is, ok i) : M.Along (fun _ => ok) s is := by
  induction is generalizing s with
  | nil => trivial
  | cons i is ih =>
      exact ⟨h i (List.mem_cons_self ..), ih fun j hj => h j (List.mem_cons_of_mem _ hj)⟩

theorem Along.mono {M : Transducer σ ι ω} {ok ok' : σ → ι → Prop} (h : ∀ s i, ok s i → ok' s i)
    {is : List ι} {s : σ} (hok : M.Along ok s is) : M.Along ok' s is := by
  induction is generalizing s with
  | nil => trivial
  | cons i is ih => exact ⟨h s i hok.1, ih hok.2⟩

theorem Along.and {M : Transducer σ ι ω} {ok ok' : σ → ι → Prop} {is : List ι} {s : σ}
    (h : M.Along ok s is) (h' : M.Along ok' s is) : M.Along (fun s i => ok s i ∧ ok' s i) s is := by
  induction is generalizing s with
  | nil => trivial
  | cons i is ih => exact ⟨⟨h.1, h'.1⟩, ih h.2 h'.2⟩

instance (M : Transducer σ ι ω) (ok : σ → ι → Prop) [∀ s i, Decidable (ok s i)] (s : σ) :
    (is : List ι) → Decidable (M.Along ok s is)
  | [] => inferInstanceAs (Decidable True)
  | i :: is =>
      have := instDecidableAlong M ok (M.next s i) is
      inferInstanceAs (Decidable (_ ∧ _))

theorem along_true {M : Transducer σ ι ω} {is : List ι} {s : σ} :
    M.Along (fun _ _ => True) s is := along_of_forall fun _ _ => trivial

/-- **Lockstep.** A relation that survives every input allowed on both sides relates the states
after any list of them, and the answers correspond one by one. -/
theorem lockstep {M : Transducer σ ι ω} {N : Transducer τ κ ω'} {f : ι → κ} {R : σ → τ → Prop}
    {S : ω → ω' → Prop} {ok : σ → ι → Prop} {ok' : τ → κ → Prop}
    (hstep : ∀ s t i, R s t → ok s i → ok' t (f i) → S (M.out s i) (N.out t (f i)) ∧
      R (M.next s i) (N.next t (f i))) {is : List ι} {s : σ} {t : τ} (hr : R s t)
    (hok : M.Along ok s is) (hok' : N.Along ok' t (is.map f)) :
    List.Forall₂ S (M.outs s is) (N.outs t (is.map f)) ∧ R (M.run s is) (N.run t (is.map f)) := by
  induction is generalizing s t with
  | nil => exact ⟨.nil, hr⟩
  | cons i is ih =>
      obtain ⟨hout, hnext⟩ := hstep s t i hr hok.1 hok'.1
      obtain ⟨houts, hrun⟩ := ih hnext hok.2 hok'.2
      exact ⟨.cons hout houts, hrun⟩

theorem run_append (M : Transducer σ ι ω) (s : σ) (is js : List ι) :
    M.run s (is ++ js) = M.run (M.run s is) js := by
  induction is generalizing s with
  | nil => rfl
  | cons i is ih => exact ih (M.next s i)

/-- The sum of a quantity over the steps of a run. -/
def total {α : Type*} [AddMonoid α] (M : Transducer σ ι ω) (f : σ → ι → α) (s : σ) : List ι → α
  | [] => 0
  | i :: is => f s i + M.total f (M.next s i) is

theorem total_concat {α : Type*} [AddMonoid α] (M : Transducer σ ι ω) (f : σ → ι → α) (s : σ)
    (is : List ι) (i : ι) : M.total f s (is ++ [i]) = M.total f s is + f (M.run s is) i := by
  induction is generalizing s with
  | nil => exact (add_zero _).trans (zero_add _).symm
  | cons j is ih =>
      change f s j + M.total f (M.next s j) (is ++ [i]) = _
      rw [ih, ← add_assoc]
      rfl

/-- The last input of a run either fails and changes nothing, or leaves the state after the run. -/
theorem ofExcept_run_concat {ε : Type*} (step : σ → ι → Except ε (σ × ω)) (s : σ) (is : List ι)
    (i : ι) :
    (∃ e, (ofExcept step).run s (is ++ [i]) = (ofExcept step).run s is ∧
        (ofExcept step).out ((ofExcept step).run s is) i = .error e) ∨
      ∃ w, step ((ofExcept step).run s is) i = .ok ((ofExcept step).run s (is ++ [i]), w) ∧
        (ofExcept step).out ((ofExcept step).run s is) i = .ok w := by
  rw [run_append]
  cases h : step ((ofExcept step).run s is) i with
  | error e => exact .inl ⟨e, ofExcept_of_error h⟩
  | ok r =>
      obtain ⟨s', w⟩ := r
      obtain ⟨hnext, hout⟩ := ofExcept_of_ok h
      refine .inr ⟨w, ?_, hout⟩
      change Except.ok (s', w) = Except.ok ((ofExcept step).next _ i, w)
      rw [hnext]

theorem along_append {M : Transducer σ ι ω} {ok : σ → ι → Prop} {s : σ} {is js : List ι} :
    M.Along ok s (is ++ js) ↔ M.Along ok s is ∧ M.Along ok (M.run s is) js := by
  induction is generalizing s with
  | nil => exact (and_iff_right trivial).symm
  | cons i is ih => exact (and_congr_right fun _ => ih).trans and_assoc.symm

/-- **Invariants.** What every allowed input preserves holds after any list of them. -/
theorem run_inv {M : Transducer σ ι ω} {inv : σ → Prop} {ok : σ → ι → Prop}
    (hstep : ∀ s i, inv s → ok s i → inv (M.next s i)) {s : σ} {is : List ι} (hs : inv s)
    (hok : M.Along ok s is) : inv (M.run s is) := by
  induction is generalizing s with
  | nil => exact hs
  | cons i is ih => exact ih (hstep s i hs hok.1) hok.2

/-- What every step keeps holds from the step that establishes it. -/
theorem run_of_next {M : Transducer σ ι ω} {P : σ → Prop} (hkeep : ∀ s i, P s → P (M.next s i))
    {s : σ} {before after : List ι} {i : ι} (h : P (M.next (M.run s before) i)) :
    P (M.run s (before ++ i :: after)) := by
  rw [run_append]
  change P (M.run (M.next (M.run s before) i) after)
  exact run_inv (fun s j hs _ => hkeep s j hs) h along_true

/-- **Once.** A step into a predicate that every step keeps is the only one of its run. -/
theorem step_unique {M : Transducer σ ι ω} {P : σ → Prop} (hstep : ∀ s i, P s → P (M.next s i))
    {s : σ} {is before before' after after' : List ι} {i i' : ι} (h : is = before ++ i :: after)
    (h' : is = before' ++ i' :: after') (hn : ¬ P (M.run s before))
    (hp : P (M.run s (before ++ [i]))) (hn' : ¬ P (M.run s before'))
    (hp' : P (M.run s (before' ++ [i']))) : before = before' := by
  rw [run_append] at hp hp'
  rw [h] at h'
  -- the one that comes later starts after the other, where the predicate holds
  obtain ⟨middle, hmiddle, hi⟩ | ⟨middle, hmiddle, hi⟩ := List.append_eq_append_iff.mp h'
  · cases middle with
    | nil => exact (List.append_nil before).symm.trans hmiddle.symm
    | cons j middle =>
        obtain ⟨rfl, -⟩ := List.cons.inj hi
        refine absurd ?_ hn'
        rw [hmiddle]
        exact run_of_next hstep hp
  · cases middle with
    | nil => exact hmiddle.trans (List.append_nil before')
    | cons j middle =>
        obtain ⟨rfl, -⟩ := List.cons.inj hi
        refine absurd ?_ hn
        rw [hmiddle]
        exact run_of_next hstep hp'

/-! ### Parts of a machine -/

/-- The inputs that reach a part of a machine. -/
def inputsOf (M : Transducer σ ι ω) (f : σ → ι → Option κ) (s : σ) : List ι → List κ
  | [] => []
  | i :: is => (f s i).toList ++ M.inputsOf f (M.next s i) is

/-- A part of the state is a machine of its own, for the inputs that reach it. -/
structure IsPart (M : Transducer σ ι ω) (N : Transducer τ κ ω') (g : σ → τ)
    (f : σ → ι → Option κ) : Prop where
  reached : ∀ s i k, f s i = some k → g (M.next s i) = N.next (g s) k
  unreached : ∀ s i, f s i = none → g (M.next s i) = g s

/-- A run of the machine is a run of its part. -/
theorem IsPart.run {M : Transducer σ ι ω} {N : Transducer τ κ ω'} {g : σ → τ}
    {f : σ → ι → Option κ} (h : M.IsPart N g f) (s : σ) (is : List ι) :
    g (M.run s is) = N.run (g s) (M.inputsOf f s is) := by
  induction is generalizing s with
  | nil => rfl
  | cons i is ih =>
      change g (M.run (M.next s i) is) = _
      rw [ih, inputsOf]
      cases hf : f s i with
      | none => rw [h.unreached s i hf, Option.toList_none, List.nil_append]
      | some k =>
          rw [h.reached s i k hf, Option.toList_some, List.singleton_append]
          rfl

theorem inputsOf_append (M : Transducer σ ι ω) (f : σ → ι → Option κ) (s : σ) (is js : List ι) :
    M.inputsOf f s (is ++ js) = M.inputsOf f s is ++ M.inputsOf f (M.run s is) js := by
  induction is generalizing s with
  | nil => rfl
  | cons i is ih =>
      rw [List.cons_append, inputsOf, inputsOf, ih, List.append_assoc]
      rfl

/-- An input of the part comes from an input of the machine. -/
theorem exists_of_inputsOf {M : Transducer σ ι ω} {f : σ → ι → Option κ} {s : σ} {is : List ι}
    {ks ks' : List κ} {k : κ} (h : M.inputsOf f s is = ks ++ k :: ks') :
    ∃ before i after, is = before ++ i :: after ∧ M.inputsOf f s before = ks ∧
      f (M.run s before) i = some k := by
  induction is generalizing s ks with
  | nil => simp [inputsOf] at h
  | cons i is ih =>
      have next {ks : List κ} (h : M.inputsOf f (M.next s i) is = ks ++ k :: ks') :
          ∃ before j after, i :: is = (i :: before) ++ j :: after ∧
            M.inputsOf f s (i :: before) = (f s i).toList ++ ks ∧
              f (M.run s (i :: before)) j = some k := by
        obtain ⟨before, j, after, rfl, rfl, hj⟩ := ih h
        exact ⟨before, j, after, rfl, rfl, hj⟩
      rw [inputsOf] at h
      cases hf : f s i with
      | none =>
          rw [hf, Option.toList_none, List.nil_append] at h
          obtain ⟨before, j, after, hi, hks, hj⟩ := next h
          rw [hf, Option.toList_none, List.nil_append] at hks
          exact ⟨i :: before, j, after, hi, hks, hj⟩
      | some k₀ =>
          rw [hf, Option.toList_some, List.singleton_append] at h
          cases ks with
          | nil => exact ⟨[], i, is, rfl, rfl, hf.trans (congrArg some (List.cons.inj h).1)⟩
          | cons k₁ ks =>
              obtain ⟨rfl, htail⟩ := List.cons.inj h
              obtain ⟨before, j, after, hi, hks, hj⟩ := next htail
              rw [hf, Option.toList_some, List.singleton_append] at hks
              exact ⟨i :: before, j, after, hi, hks, hj⟩

/-- What does not hold first and holds at last comes to hold at some step. -/
theorem exists_step {M : Transducer σ ι ω} {P : σ → Prop} {s : σ} {is : List ι} (hs : ¬ P s)
    (h : P (M.run s is)) : ∃ before i after, is = before ++ i :: after ∧ ¬ P (M.run s before) ∧
      P (M.run s (before ++ [i])) := by
  induction is using List.reverseRecOn with
  | nil => exact absurd h hs
  | append_singleton is i ih =>
      by_cases hp : P (M.run s is)
      · obtain ⟨before, j, after, rfl, hbefore, hj⟩ := ih hp
        exact ⟨before, j, after ++ [i], by simp, hbefore, hj⟩
      · exact ⟨is, i, [], rfl, hp, h⟩

theorem run_append_singleton (M : Transducer σ ι ω) (s : σ) (is : List ι) (i : ι) :
    M.run s (is ++ [i]) = M.next (M.run s is) i := by
  rw [run_append]
  rfl

/-- A part of the state that inputs may write stays as it is where none does. -/
theorem no_write {α : Type*} {M : Transducer σ ι ω} {f : σ → α} {w : σ → ι → Option α}
    (h : ∀ s i, f (M.next s i) = (w s i).getD (f s)) {s : σ} {is : List ι}
    (hnone : M.Along (fun s i => w s i = none) s is) : f (M.run s is) = f s := by
  induction is generalizing s with
  | nil => rfl
  | cons i is ih =>
      refine (ih hnone.2).trans ?_
      rw [h, hnone.1, Option.getD_none]

/-- It holds what was written last. -/
theorem last_write {α : Type*} {M : Transducer σ ι ω} {f : σ → α} {w : σ → ι → Option α}
    (h : ∀ s i, f (M.next s i) = (w s i).getD (f s)) (s : σ) (is : List ι) :
    M.Along (fun s i => w s i = none) s is ∨
      ∃ before i after v, is = before ++ i :: after ∧ w (M.run s before) i = some v ∧
        M.Along (fun s j => w s j = none) (M.run s (before ++ [i])) after ∧
        f (M.run s is) = v := by
  induction is using List.reverseRecOn with
  | nil => exact .inl trivial
  | append_singleton is j ih =>
      have hrun := M.run_append_singleton s is j
      cases hw : w (M.run s is) j with
      | some v => exact .inr ⟨is, j, [], v, rfl, hw, trivial, by rw [hrun, h, hw]; rfl⟩
      | none =>
          have hf : f (M.run s (is ++ [j])) = f (M.run s is) := by
            rw [hrun, h, hw]
            rfl
          obtain hnone | ⟨before, i, after, v, rfl, hi, hafter, heq⟩ := ih
          · exact .inl (along_append.mpr ⟨hnone, hw, trivial⟩)
          · refine .inr ⟨before, i, after ++ [j], v, by simp, hi, ?_, hf.trans heq⟩
            refine along_append.mpr ⟨hafter, ?_, trivial⟩
            rw [← run_append, List.append_assoc]
            exact hw

end Transducer
