import Mathlib.Data.List.Forall2
import Ntt.Lib.Machine

/-!
# Two Contracts in Lockstep

Two contracts with the same entry points run side by side: the environment makes the same move
on both. It enters the same entry point, gives the same reply, or lets the innermost call fail.
Some external calls are **silent**: they are answered at once, always with the same reply, so
that one of the two contracts may make more of them than the other.

`Res.Agrees` relates what is left of a call on either side: both end, with related results and
storages; or both revert; or both make the same external call, and go on alike after every reply.
There is one excuse: the left side may revert alone, if the right side then ends up in storages
with a given property. A run is excused from there on.

## Main results

* `Res.Agrees.bind`: sequencing.
* `JointStep.aligned`: a move keeps two sides aligned, unless it is excused.
* `aligned_of_run`: so does a run, from related storages, none of whose moves is excused.
-/

namespace Reentrant

variable {X : Interface} {σ τ ε α β γ δ : Type}

namespace Res

/-- What is left of a call, run through its silent calls. -/
def advance (silent : (x : X.Ext) → Option (X.Reply x)) : Res X σ ε α → Res X σ ε α
  | .ret a s => .ret a s
  | .revert e => .revert e
  | .call x s k =>
      match silent x with
      | some r => (k r s).advance silent
      | none => .call x s k

/-- The storage that the environment sees, where there is one. -/
def storage? : Res X σ ε α → Option σ
  | .ret _ s => some s
  | .revert _ => none
  | .call _ s _ => some s

/-- Past its silent calls, the storage that the environment sees has a property. -/
def Shows (silent : (x : X.Ext) → Option (X.Reply x)) (U : σ → Prop) (r : Res X σ ε α) : Prop :=
  ∀ s ∈ (r.advance silent).storage?, U s

/-- What is left of a call on either side leads to the same moves, unless it is excused. -/
inductive Agrees (silent : (x : X.Ext) → Option (X.Reply x)) (R : σ → τ → Prop) (U : τ → Prop)
    (V : α → β → Prop) : Res X σ ε α → Res X τ ε β → Prop
  | ret {a : α} {b : β} {s : σ} {t : τ} :
      V a b → R s t → Agrees silent R U V (.ret a s) (.ret b t)
  | revert (e e' : ε) : Agrees silent R U V (.revert e) (.revert e')
  | call {x : X.Ext} {s : σ} {t : τ} {k : X.Reply x → σ → Res X σ ε α}
      {k' : X.Reply x → τ → Res X τ ε β} :
      silent x = none → R s t → (∀ r s' t', R s' t' → Agrees silent R U V (k r s') (k' r t')) →
      Agrees silent R U V (.call x s k) (.call x t k')
  | silent_left {x : X.Ext} {s : σ} {k : X.Reply x → σ → Res X σ ε α} {r : X.Reply x}
      {q : Res X τ ε β} :
      silent x = some r → Agrees silent R U V (k r s) q → Agrees silent R U V (.call x s k) q
  | silent_right {x : X.Ext} {t : τ} {k : X.Reply x → τ → Res X τ ε β} {r : X.Reply x}
      {q : Res X σ ε α} :
      silent x = some r → Agrees silent R U V q (k r t) → Agrees silent R U V q (.call x t k)
  | excused {e : ε} {q : Res X τ ε β} :
      q.Shows silent U → Agrees silent R U V (.revert e) q

section

variable {silent : (x : X.Ext) → Option (X.Reply x)} {R : σ → τ → Prop} {U : τ → Prop}

theorem advance_call_none {x : X.Ext} {s : σ} {k : X.Reply x → σ → Res X σ ε α}
    (hx : silent x = none) : (Res.call x s k).advance silent = .call x s k := by
  rw [advance, hx]

theorem advance_call_some {x : X.Ext} {s : σ} {k : X.Reply x → σ → Res X σ ε α} {r : X.Reply x}
    (hx : silent x = some r) : (Res.call x s k).advance silent = (k r s).advance silent := by
  rw [advance, hx]

theorem Shows.mono {U U' : τ → Prop} (h : ∀ t, U t → U' t) {q : Res X τ ε β}
    (hq : q.Shows silent U) : q.Shows silent U' :=
  fun t ht => h t (hq t ht)

/-- Past its silent calls, a program reverts, or calls out from a storage with a property. -/
def Stops (silent : (x : X.Ext) → Option (X.Reply x)) (U : σ → Prop) (r : Res X σ ε α) : Prop :=
  match r.advance silent with
  | .ret _ _ => False
  | .revert _ => True
  | .call _ s _ => U s

theorem Stops.shows {q : Res X τ ε β} (hq : q.Stops silent U) : q.Shows silent U := by
  unfold Stops at hq
  intro t ht
  cases hend : q.advance silent with
  | ret b u => rw [hend] at hq; exact hq.elim
  | revert e => rw [hend] at ht; cases ht
  | call x u k =>
      rw [hend] at hq ht
      cases ht
      exact hq

theorem stops_revert (e : ε) : (Res.revert e : Res X τ ε β).Stops silent U := trivial

theorem stops_call {x : X.Ext} {t : τ} {k : X.Reply x → τ → Res X τ ε β}
    (hx : silent x = none) (ht : U t) : (Res.call x t k).Stops silent U := by
  rw [Stops, advance_call_none hx]
  exact ht

/-- What stops does so whatever comes after. Induction on what is left. -/
theorem Stops.bind {q : Res X τ ε β} {g : β → τ → Res X τ ε δ} (hq : q.Stops silent U) :
    (q.bind g).Stops silent U := by
  induction q with
  | ret b t => exact hq.elim
  | revert e => trivial
  | call x t k ih =>
      cases hx : silent x with
      | some r =>
          rw [Stops, advance_call_some hx] at hq
          rw [Stops, Res.bind, advance_call_some hx]
          exact ih r t hq
      | none =>
          rw [Stops, advance_call_none hx] at hq
          exact stops_call hx hq

/-- A property that a continuation does not end is still seen. Induction on what is left. -/
theorem Shows.bind {U' : τ → Prop} {q : Res X τ ε β} {g : β → τ → Res X τ ε δ}
    (hU : ∀ t, U t → U' t) (hq : q.Shows silent U) (hg : ∀ b t, U t → (g b t).Shows silent U') :
    (q.bind g).Shows silent U' := by
  induction q with
  | ret b t => exact hg b t (hq t rfl)
  | revert e => exact fun _ h => nomatch h
  | call x t k ih =>
      cases hx : silent x with
      | some r =>
          intro u hu
          rw [Res.bind, advance_call_some hx] at hu
          refine ih r t (fun u hu => hq u ?_) u hu
          rwa [advance_call_some hx]
      | none =>
          intro u hu
          rw [Res.bind, advance_call_none hx] at hu
          refine hU u (hq u ?_)
          rw [advance_call_none hx]
          exact hu

namespace Agrees

variable {V : α → β → Prop} {W : γ → δ → Prop} {r : Res X σ ε α} {q : Res X τ ε β}

/-- More can be excused, and less known of the results. -/
theorem weaken {U' : τ → Prop} {V' : α → β → Prop} (hU : ∀ t, U t → U' t)
    (hV : ∀ a b, V a b → V' a b) (h : r.Agrees silent R U V q) : r.Agrees silent R U' V' q := by
  induction h with
  | ret hv hr => exact .ret (hV _ _ hv) hr
  | revert e e' => exact .revert e e'
  | call hx hr _ ih => exact .call hx hr ih
  | silent_left hx _ ih => exact .silent_left hx ih
  | silent_right hx _ ih => exact .silent_right hx ih
  | excused hq => exact .excused (hq.mono hU)

/-- Sequencing. Induction on the agreement of the first parts. -/
theorem bind {U' : τ → Prop} {f : α → σ → Res X σ ε γ} {g : β → τ → Res X τ ε δ}
    (h : r.Agrees silent R U V q) (hU : ∀ t, U t → U' t)
    (hf : ∀ a b s t, V a b → R s t → (f a s).Agrees silent R U' W (g b t))
    (hg : ∀ b t, U t → (g b t).Shows silent U') :
    (r.bind f).Agrees silent R U' W (q.bind g) := by
  induction h with
  | ret hv hr => exact hf _ _ _ _ hv hr
  | revert e e' => exact .revert e e'
  | call hx hr _ ih => exact .call hx hr ih
  | silent_left hx _ ih => exact .silent_left hx ih
  | silent_right hx _ ih => exact .silent_right hx ih
  | excused hq => exact .excused (hq.bind hU hg)

end Agrees

/-- Where control leaves two sides that agree: both have ended, or both make the same call. -/
inductive Meets (silent : (x : X.Ext) → Option (X.Reply x)) (R : σ → τ → Prop) (U : τ → Prop)
    (V : α → β → Prop) : Res X σ ε α → Res X τ ε β → Prop
  | ret {a : α} {b : β} {s : σ} {t : τ} :
      V a b → R s t → Meets silent R U V (.ret a s) (.ret b t)
  | revert (e e' : ε) : Meets silent R U V (.revert e) (.revert e')
  | call {x : X.Ext} {s : σ} {t : τ} {k : X.Reply x → σ → Res X σ ε α}
      {k' : X.Reply x → τ → Res X τ ε β} :
      R s t → (∀ r s' t', R s' t' → (k r s').Agrees silent R U V (k' r t')) →
      Meets silent R U V (.call x s k) (.call x t k')

/-- Two sides that agree meet where control leaves them, unless the left one reverts alone, and
the right one shows the excuse. -/
theorem Agrees.meets {V : α → β → Prop} {r : Res X σ ε α} {q : Res X τ ε β}
    (h : r.Agrees silent R U V q) :
    (r.advance silent).Meets silent R U V (q.advance silent) ∨
      (∃ e, r.advance silent = .revert e) ∧ ∃ t ∈ (q.advance silent).storage?, U t := by
  induction h with
  | ret hv hr => exact .inl (.ret hv hr)
  | revert e e' => exact .inl (.revert e e')
  | call hx hr hk _ =>
      rw [advance_call_none hx, advance_call_none hx]
      exact .inl (.call hr hk)
  | silent_left hx _ ih =>
      rw [advance_call_some hx]
      exact ih
  | silent_right hx _ ih =>
      rw [advance_call_some hx]
      exact ih
  | @excused e q hq =>
      cases hend : q.advance silent with
      | revert e' => exact .inl (.revert e e')
      | ret b t => exact .inr ⟨⟨e, rfl⟩, t, rfl, hq t (by rw [hend]; rfl)⟩
      | call x t k => exact .inr ⟨⟨e, rfl⟩, t, rfl, hq t (by rw [hend]; rfl)⟩

end

end Res

/-! ### The two machines -/

/-- One of the two machines, with the outcomes of the calls that have ended, newest first. -/
structure Side (X : Interface) (σ ε : Type) extends Config X σ ε where
  /-- Whether each call succeeded. -/
  outcomes : List Bool

/-- Where control ends up, with the outcome. -/
def Side.settle (saved : σ) (stack : List (Frame X σ ε)) (outcomes : List Bool) :
    Res X σ ε Unit → Side X σ ε
  | .ret _ s => ⟨⟨s, stack⟩, true :: outcomes⟩
  | .revert _ => ⟨⟨saved, stack⟩, false :: outcomes⟩
  | .call x s k => ⟨⟨s, ⟨saved, x, k⟩ :: stack⟩, outcomes⟩

/-- One move of the environment on both machines. -/
inductive JointStep {Entry : Type} (silent : (x : X.Ext) → Option (X.Reply x))
    (admits : Entry → Prop) (body : Entry → Prog X σ ε Unit) (body' : Entry → Prog X τ ε Unit) :
    Side X σ ε × Side X τ ε → Side X σ ε × Side X τ ε → Prop
  | enter {c : Side X σ ε} {d : Side X τ ε} (e : Entry) : admits e →
      JointStep silent admits body body' (c, d)
        (.settle c.st c.stack c.outcomes (((body e).run c.st).advance silent),
          .settle d.st d.stack d.outcomes (((body' e).run d.st).advance silent))
  | resume {x : X.Ext} {s saved : σ} {t saved' : τ} {k : X.Reply x → σ → Res X σ ε Unit}
      {k' : X.Reply x → τ → Res X τ ε Unit} {fs : List (Frame X σ ε)} {gs : List (Frame X τ ε)}
      {os os' : List Bool} (r : X.Reply x) :
      JointStep silent admits body body'
        (⟨⟨s, ⟨saved, x, k⟩ :: fs⟩, os⟩, ⟨⟨t, ⟨saved', x, k'⟩ :: gs⟩, os'⟩)
        (.settle saved fs os ((k r s).advance silent),
          .settle saved' gs os' ((k' r t).advance silent))
  | abort {s : σ} {t : τ} {f : Frame X σ ε} {g : Frame X τ ε} {fs : List (Frame X σ ε)}
      {gs : List (Frame X τ ε)} {os os' : List Bool} :
      JointStep silent admits body body' (⟨⟨s, f :: fs⟩, os⟩, ⟨⟨t, g :: gs⟩, os'⟩)
        (⟨⟨f.saved, fs⟩, false :: os⟩, ⟨⟨g.saved, gs⟩, false :: os'⟩)

/-- Two suspended calls wait for the same external call, and go on alike after every reply. -/
inductive Frame.Alike (silent : (x : X.Ext) → Option (X.Reply x)) (R : σ → τ → Prop)
    (U : τ → Prop) : Frame X σ ε → Frame X τ ε → Prop
  | mk {x : X.Ext} {s : σ} {t : τ} {k : X.Reply x → σ → Res X σ ε Unit}
      {k' : X.Reply x → τ → Res X τ ε Unit} :
      R s t → (∀ r s' t', R s' t' → (k r s').Agrees silent R U (fun _ _ => True) (k' r t')) →
      Alike silent R U ⟨s, x, k⟩ ⟨t, x, k'⟩

/-- The same calls have ended with the same outcomes, the storages are related, and the same
calls are suspended. -/
structure Aligned (silent : (x : X.Ext) → Option (X.Reply x)) (R : σ → τ → Prop) (U : τ → Prop)
    (c : Side X σ ε) (d : Side X τ ε) : Prop where
  outcomes : c.outcomes = d.outcomes
  storage : R c.st d.st
  stack : List.Forall₂ (Frame.Alike silent R U) c.stack d.stack

section

variable {silent : (x : X.Ext) → Option (X.Reply x)} {R : σ → τ → Prop} {U : τ → Prop}
  {Entry : Type} {admits : Entry → Prop} {body : Entry → Prog X σ ε Unit}
  {body' : Entry → Prog X τ ε Unit}

/-- The same external calls are in progress. -/
theorem Aligned.ext_eq {c : Side X σ ε} {d : Side X τ ε} (h : Aligned silent R U c d) :
    c.stack.map (·.ext) = d.stack.map (·.ext) := by
  have hstack := h.stack
  generalize c.stack = fs at hstack
  generalize d.stack = gs at hstack
  induction hstack with
  | nil => rfl
  | cons hf _ ih =>
      obtain ⟨-, -⟩ := hf
      rw [List.map_cons, List.map_cons, ih]

/-- The right side shows the excuse, and the two differ: one call has ended on the left that has
not ended, or not in the same way, on the right. -/
def Excused (U : τ → Prop) (c : Side X σ ε) (d : Side X τ ε) : Prop :=
  U d.st ∧ (c.outcomes ≠ d.outcomes ∨ c.stack.length ≠ d.stack.length)

/-- Settling two sides that agree keeps them aligned, unless it is excused. -/
theorem Res.Agrees.settle {r : Res X σ ε Unit} {q : Res X τ ε Unit} {saved : σ} {saved' : τ}
    {fs : List (Frame X σ ε)} {gs : List (Frame X τ ε)} {os : List Bool}
    (h : r.Agrees silent R U (fun _ _ => True) q) (hsaved : R saved saved')
    (hstack : List.Forall₂ (Frame.Alike silent R U) fs gs) :
    Aligned silent R U (Side.settle saved fs os (r.advance silent))
        (Side.settle saved' gs os (q.advance silent)) ∨
      Excused U (Side.settle saved fs os (r.advance silent))
        (Side.settle saved' gs os (q.advance silent)) := by
  rcases h.meets with hmeets | ⟨⟨e, he⟩, t, ht, hut⟩
  · generalize r.advance silent = r' at hmeets
    generalize q.advance silent = q' at hmeets
    cases hmeets with
    | ret _ hr => exact .inl ⟨rfl, hr, hstack⟩
    | revert e e' => exact .inl ⟨rfl, hsaved, hstack⟩
    | call hr hk => exact .inl ⟨rfl, hr, .cons (.mk hsaved hk) hstack⟩
  · rw [he]
    generalize q.advance silent = q' at ht
    cases q' with
    | revert e => cases ht
    | ret b u =>
        cases ht
        exact .inr ⟨hut, .inl (by simp [Side.settle])⟩
    | call x u k =>
        cases ht
        refine .inr ⟨hut, .inr ?_⟩
        have hlen := List.Forall₂.length_eq hstack
        simp only [Side.settle, List.length_cons]
        omega

/-- A move keeps two sides aligned, unless it is excused. -/
theorem JointStep.aligned {p p' : Side X σ ε × Side X τ ε}
    (hbody : ∀ e s t, admits e → R s t →
      ((body e).run s).Agrees silent R U (fun _ _ => True) ((body' e).run t))
    (h : JointStep silent admits body body' p p') (hp : Aligned silent R U p.1 p.2) :
    Aligned silent R U p'.1 p'.2 ∨ Excused U p'.1 p'.2 := by
  cases h with
  | @enter c d e he =>
      obtain ⟨hos, hst, hstack⟩ := hp
      dsimp only at hos hst hstack ⊢
      rw [hos]
      exact (hbody e _ _ he hst).settle hst hstack
  | resume r =>
      obtain ⟨hos, hst, hstack⟩ := hp
      dsimp only at hos hst hstack ⊢
      subst hos
      cases hstack with
      | cons hf hstack =>
          cases hf with
          | mk hsaved hk => exact (hk r _ _ hst).settle hsaved hstack
  | abort =>
      obtain ⟨hos, -, hstack⟩ := hp
      dsimp only at hos hstack ⊢
      subst hos
      cases hstack with
      | cons hf hstack =>
          cases hf with
          | mk hsaved hk => exact .inl ⟨rfl, hsaved, hstack⟩

/-- Two machines that start from related storages stay aligned along a run that never shows the
excuse. Induction on the run. -/
theorem aligned_of_run {s : σ} {t : τ} {p : Side X σ ε × Side X τ ε}
    (hbody : ∀ e s t, admits e → R s t →
      ((body e).run s).Agrees silent R U (fun _ _ => True) ((body' e).run t))
    (hst : R s t)
    (h : Relation.ReflTransGen
      (fun p p' => JointStep silent admits body body' p p' ∧ ¬ U p'.2.st)
      (⟨⟨s, []⟩, []⟩, ⟨⟨t, []⟩, []⟩) p) : Aligned silent R U p.1 p.2 := by
  induction h with
  | refl => exact ⟨rfl, hst, .nil⟩
  | tail _ hstep ih =>
      obtain ⟨hstep, hU⟩ := hstep
      exact (hstep.aligned hbody ih).resolve_right fun hexcused => hU hexcused.1

end

end Reentrant
