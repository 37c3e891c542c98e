import Ntt.Lib.Resumption

/-!
# What a Program Writes

A weakest precondition says what holds after a program. `Writes` says what the program itself did
to the storage on the way: from one moment at which it has control to the next at which it gives it
up, only steps of a relation. What nested calls do in between is theirs.

A program that writes by such steps leaves alone every view that the steps do (`Leaves`), and stays
within every rely that they stay within (`Writes.within`).
-/

namespace Reentrant

open Relation

variable {X : Interface} {σ ε α β V : Type}

/-- All calls are of a kind, and between them the storage only goes through steps of a relation. -/
def Res.Writes (P : X.Ext → Prop) (step : σ → σ → Prop) : σ → Res X σ ε α → Prop
  | s₀, .ret _ s => ReflTransGen step s₀ s
  | _, .revert _ => True
  | s₀, .call x s k =>
      (P x ∧ ReflTransGen step s₀ s) ∧ ∀ r s', (k r s').Writes P step s'

/-- A program that only makes calls of a kind, and only writes by steps of a relation. -/
structure Writes (P : X.Ext → Prop) (step : σ → σ → Prop) (m : Prog X σ ε α) : Prop where
  run : ∀ s, (m.run s).Writes P step s

/-- A program that only makes calls of a kind, and leaves a view of the storage alone. -/
abbrev Leaves (P : X.Ext → Prop) (f : σ → V) (m : Prog X σ ε α) : Prop :=
  Writes P (fun s s' => f s' = f s) m

variable {P P' : X.Ext → Prop} {step step' : σ → σ → Prop}

namespace Res

theorem Writes.head {s₀ s : σ} {r : Res X σ ε α} (hr : r.Writes P step s)
    (hs : ReflTransGen step s₀ s) : r.Writes P step s₀ := by
  cases r with
  | ret a s' => exact hs.trans hr
  | revert e => trivial
  | call x s' k => exact ⟨⟨hr.1.1, hs.trans hr.1.2⟩, hr.2⟩

theorem Writes.bind {s₀ : σ} {r : Res X σ ε α} {g : α → σ → Res X σ ε β}
    (hr : r.Writes P step s₀) (hg : ∀ a s, (g a s).Writes P step s) :
    (r.bind g).Writes P step s₀ := by
  induction r generalizing s₀ with
  | ret a s => exact (hg a s).head hr
  | revert e => trivial
  | call x s k ih => exact ⟨hr.1, fun rep s' => ih rep s' (hr.2 rep s')⟩

theorem Writes.mono (hP : ∀ x, P x → P' x) (hstep : ∀ s s', step s s' → step' s s') {s₀ : σ}
    {r : Res X σ ε α} (hr : r.Writes P step s₀) : r.Writes P' step' s₀ := by
  induction r generalizing s₀ with
  | ret a s => exact ReflTransGen.mono hstep _ _ hr
  | revert e => trivial
  | call x s k ih =>
      exact ⟨⟨hP x hr.1.1, ReflTransGen.mono hstep _ _ hr.1.2⟩, fun rep s' => ih rep s' (hr.2 rep s')⟩

/-- Calls of two kinds are of both. -/
theorem Writes.calls {s₀ s₁ : σ} {r : Res X σ ε α} (hr : r.Writes P step s₀)
    (hr' : r.Writes P' step' s₁) : r.Writes (fun x => P x ∧ P' x) step s₀ := by
  induction r generalizing s₀ s₁ with
  | ret a s => exact hr
  | revert e => trivial
  | call x s k ih =>
      exact ⟨⟨⟨hr.1.1, hr'.1.1⟩, hr.1.2⟩, fun rep s' => ih rep s' (hr.2 rep s') (hr'.2 rep s')⟩

/-- Where every call is of the kind and every write is a step, there is nothing to show. -/
theorem Writes.of_forall (hP : ∀ x, P x) (hstep : ∀ s s', step s s') (s₀ : σ)
    (r : Res X σ ε α) : r.Writes P step s₀ := by
  induction r generalizing s₀ with
  | ret a s => exact .single (hstep s₀ s)
  | revert e => trivial
  | call x s k ih => exact ⟨⟨hP x, .single (hstep s₀ s)⟩, fun rep s' => ih rep s' s'⟩

/-- What steps keep within a rely, they keep however many they are. -/
theorem steps_within {E : Rely X σ} {J : σ → Prop} (hE : E.Closed)
    (hstep : ∀ s s', step s s' → J s → J s' ∧ E.rely s s') {s₀ s : σ}
    (h : ReflTransGen step s₀ s) (hJ : J s₀) : J s ∧ E.rely s₀ s := by
  induction h with
  | refl => exact ⟨hJ, hE.refl s₀⟩
  | tail _ hlast ih =>
      obtain ⟨hJ', hr⟩ := hstep _ _ hlast ih.1
      exact ⟨hJ', hE.trans ih.2 hr⟩

/-- A stronger invariant than that of a rely is kept by a program that writes by steps which keep
it, if nested calls cannot break it, and closed calls do not. -/
theorem Writes.wp {E : Rely X σ} {J : σ → Prop} (hE : E.Closed) (hinv : ∀ s, J s → E.inv s)
    (hstable : ∀ s s', J s → E.inv s' → E.rely s s' → J s')
    (hstep : ∀ s s', step s s' → J s → J s' ∧ E.rely s s')
    (heff : ∀ x s r s', P x → E.closed x = true → J s → E.effect x s r s' → J s' ∧ E.rely s s')
    {s₀ s : σ} {r : Res X σ ε α} (hw : r.Writes P step s) (hJ : J s) (hr : E.rely s₀ s) :
    r.wp E fun _ s' => J s' ∧ E.rely s₀ s' := by
  induction r generalizing s with
  | ret a s' =>
      obtain ⟨hJ', hr'⟩ := steps_within hE hstep hw hJ
      exact ⟨hJ', hE.trans hr hr'⟩
  | revert e => trivial
  | call x s' k ih =>
      obtain ⟨⟨hx, hs⟩, hk⟩ := hw
      obtain ⟨hJ', hr'⟩ := steps_within hE hstep hs hJ
      cases hc : E.closed x with
      | true =>
          rw [wp_call_of_closed hc]
          intro rep t he
          obtain ⟨hJ'', hr''⟩ := heff x s' rep t hx hc hJ' he
          exact ih rep t (hk rep t) hJ'' (hE.trans hr (hE.trans hr' hr''))
      | false =>
          rw [wp_call_of_open hc]
          exact ⟨hinv s' hJ', fun rep t _ hi hr'' => ih rep t (hk rep t) (hstable s' t hJ' hi hr'')
            (hE.trans hr (hE.trans hr' hr''))⟩

end Res

namespace Writes

variable {m m' : Prog X σ ε α} {g : α → Prog X σ ε β}

theorem bind (hm : Writes P step m) (hg : ∀ a, Writes P step (g a)) : Writes P step (m >>= g) :=
  ⟨fun s => (hm.run s).bind fun a => (hg a).run⟩

theorem pure (a : α) : Writes P step (pure a : Prog X σ ε α) := ⟨fun _ => .refl⟩

theorem get : Writes P step (get : Prog X σ ε σ) := ⟨fun _ => .refl⟩

theorem modify {g : σ → σ} (h : ∀ s, step s (g s)) :
    Writes P step (modify g : Prog X σ ε Unit) := ⟨fun s => .single (h s)⟩

theorem revert (e : ε) : Writes P step (revert e : Prog X σ ε α) := ⟨fun _ => trivial⟩

theorem revertIf (c : Prop) [Decidable c] (e : ε) :
    Writes P step (revertIf c e : Prog X σ ε Unit) := by
  refine ⟨fun s => ?_⟩
  rw [run_revertIf]
  split
  · trivial
  · exact ReflTransGen.refl

theorem liftExcept (x : Except ε α) : Writes P step (liftExcept x : Prog X σ ε α) := by
  cases x with
  | ok a => exact ⟨fun _ => .refl⟩
  | error e => exact ⟨fun _ => trivial⟩

theorem call {x : X.Ext} (hx : P x) : Writes P step (call x : Prog X σ ε (X.Reply x)) :=
  ⟨fun _ => ⟨⟨hx, .refl⟩, fun _ _ => .refl⟩⟩

theorem ite {c : Prop} [Decidable c] (hm : Writes P step m) (hm' : Writes P step m') :
    Writes P step (if c then m else m') := by
  split
  · exact hm
  · exact hm'

theorem of_forall (hP : ∀ x, P x) (hstep : ∀ s s', step s s') (m : Prog X σ ε α) :
    Writes P step m := ⟨fun s => .of_forall hP hstep s (m.run s)⟩

theorem mono (hm : Writes P step m) (hP : ∀ x, P x → P' x)
    (hstep : ∀ s s', step s s' → step' s s') : Writes P' step' m :=
  ⟨fun s => (hm.run s).mono hP hstep⟩

/-- What writes by steps within a rely stays within it, if the closed calls that it makes do. -/
theorem within {E : Rely X σ} (hm : Writes P step m) (hE : E.Closed)
    (hstep : ∀ s s', step s s' → E.inv s → E.inv s' ∧ E.rely s s')
    (heff : ∀ x s r s', P x → E.closed x = true → E.inv s → E.effect x s r s' →
      E.inv s' ∧ E.rely s s') : Within E m :=
  fun s hi =>
    (hm.run s).wp hE (fun _ h => h) (fun _ _ _ h _ => h) hstep heff hi (hE.refl s)

end Writes

/-- Steps that leave a view alone leave it alone, however many. -/
theorem eq_of_steps {f : σ → V} {s s' : σ} (h : ReflTransGen (fun s s' => f s' = f s) s s') :
    f s' = f s := by
  induction h with
  | refl => rfl
  | tail _ hlast ih => exact hlast.trans ih

end Reentrant
