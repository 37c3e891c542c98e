import Ntt.Lib.Resumption

/-!
# The Call Machine: Nested Calls and Rollback

A contract is a family of entry points, each a re-entrant program (`Ntt.Lib.Resumption`). This
module runs it against an arbitrary environment. A configuration holds the current storage and
the stack of suspended calls, innermost first; each frame remembers the storage its call was
entered with. While control is outside, the environment may

* enter any admitted entry point, whether or not calls are suspended: a **re-entrant** call
  when they are;
* let the innermost suspended call resume with any admitted reply;
* let the innermost suspended call fail: everything since its entry is rolled back, nested
  calls included.

Closed calls are answered within the step that makes them, or fail it.

## Main results

* `Reachable.inv`: if every admitted entry point, from the invariant, has a weakest
  precondition that restores the invariant within the rely, the invariant holds in every
  reachable configuration, including those where calls are suspended.
* `Reachable.rely_of_idle`: between transactions, the storage is related to the initial one.
* `Reachable.drive`: calls made one after another, whose external calls are answered one by one,
  without nested calls, are a run of the machine.
-/

namespace Reentrant

variable {X : Interface} {σ ε : Type}

/-- A contract: its entry points and the program each of them runs. -/
structure Contract (X : Interface) (σ ε : Type) where
  /-- An entry point, with the caller, the arguments and the block it is called in. -/
  Entry : Type
  /-- The program of an entry point. -/
  body : Entry → Prog X σ ε Unit

/-- The environment of a contract: how it answers, and which entry points it may call when. -/
structure Environment (X : Interface) (σ Entry : Type) extends World X σ where
  /-- The calls that the environment can make on a storage. -/
  admits : σ → Entry → Prop

/-- A suspended call: the storage it was entered with, the external call it waits for and its
continuation. -/
structure Frame (X : Interface) (σ ε : Type) where
  /-- The storage to return to when the call reverts. -/
  saved : σ
  /-- The external call in progress. -/
  ext : X.Ext
  /-- What is left to do once it returns. -/
  resume : X.Reply ext → σ → Res X σ ε Unit

/-- A configuration: the storage and the suspended calls, innermost first. -/
structure Config (X : Interface) (σ ε : Type) where
  /-- The current storage. -/
  st : σ
  /-- The suspended calls. -/
  stack : List (Frame X σ ε)

/-- Runs a program through its closed calls, to the point where control leaves the contract:
a result, a revert, or an open call. -/
inductive Runs (W : World X σ) : Res X σ ε Unit → Res X σ ε Unit → Prop
  | ret (s : σ) : Runs W (.ret () s) (.ret () s)
  | revert (e : ε) : Runs W (.revert e) (.revert e)
  | stop {x : X.Ext} {s : σ} {k : X.Reply x → σ → Res X σ ε Unit} :
      W.closed x = false → Runs W (.call x s k) (.call x s k)
  | closed {x : X.Ext} {s s' : σ} {k : X.Reply x → σ → Res X σ ε Unit} {r : X.Reply x}
      {o : Res X σ ε Unit} :
      W.closed x = true → W.effect x s r s' → Runs W (k r s') o → Runs W (.call x s k) o
  | fail {x : X.Ext} {s : σ} {k : X.Reply x → σ → Res X σ ε Unit} (e : ε) :
      W.closed x = true → Runs W (.call x s k) (.revert e)

/-- Where control ends up: a result keeps the new storage, a revert restores the saved one,
and an external call suspends. -/
def settle (saved : σ) (stack : List (Frame X σ ε)) : Res X σ ε Unit → Config X σ ε
  | .ret _ s => ⟨s, stack⟩
  | .revert _ => ⟨saved, stack⟩
  | .call x s k => ⟨s, ⟨saved, x, k⟩ :: stack⟩

/-- One move of the environment. -/
inductive Step (C : Contract X σ ε) (V : Environment X σ C.Entry) :
    Config X σ ε → Config X σ ε → Prop
  | enter {c : Config X σ ε} {o : Res X σ ε Unit} (e : C.Entry) :
      V.admits c.st e → Runs V.toWorld ((C.body e).run c.st) o → Step C V c (settle c.st c.stack o)
  | resume {s : σ} {f : Frame X σ ε} {fs : List (Frame X σ ε)} {r : X.Reply f.ext}
      {o : Res X σ ε Unit} :
      V.answers f.ext r → Runs V.toWorld (f.resume r s) o →
      Step C V ⟨s, f :: fs⟩ (settle f.saved fs o)
  | abort {s : σ} {f : Frame X σ ε} {fs : List (Frame X σ ε)} :
      Step C V ⟨s, f :: fs⟩ ⟨f.saved, fs⟩

/-- The configurations that some run reaches from the initial storage with no call pending. -/
def Reachable (C : Contract X σ ε) (V : Environment X σ C.Entry) (init : σ) :
    Config X σ ε → Prop :=
  Relation.ReflTransGen (Step C V) ⟨init, []⟩

/-! ### Soundness of weakest preconditions -/

/-- Running through closed calls keeps the weakest precondition. -/
theorem Runs.wp {E : Rely X σ} {Q : Unit → σ → Prop} {r o : Res X σ ε Unit}
    (h : Runs E.toWorld r o) (hr : r.wp E Q) : o.wp E Q := by
  induction h with
  | ret s => exact hr
  | revert e => exact hr
  | stop hx => exact hr
  | closed hx heff _ ih =>
      rw [Res.wp_call_of_closed hx] at hr
      exact ih (hr _ _ heff)
  | fail e hx => trivial

/-- Where a run stops to call out, the call is open. -/
theorem Runs.is_open {W : World X σ} {r : Res X σ ε Unit} {x : X.Ext} {s : σ}
    {k : X.Reply x → σ → Res X σ ε Unit} (h : Runs W r (.call x s k)) : W.closed x = false := by
  generalize hq : Res.call x s k = q at h
  induction h with
  | ret | revert | fail => cases hq
  | stop hx => cases hq; exact hx
  | closed _ _ _ ih => exact ih hq

/-- What a body owes: to restore the invariant, within the rely of where it started. -/
def Guarantee (E : Rely X σ) (s₀ : σ) (r : Res X σ ε Unit) : Prop :=
  r.wp E fun _ s => E.inv s ∧ E.rely s₀ s

/-- A suspended call is in order when its continuation meets the guarantee of its entry on
everything the environment can still hand it. -/
def FrameOk (E : Rely X σ) (f : Frame X σ ε) (cur : σ) : Prop :=
  ∃ s, E.rely s cur ∧ ∀ r s', E.answers f.ext r → E.inv s' → E.rely s s' →
    Guarantee E f.saved (f.resume r s')

/-- A stack is in order when every suspended call is, and the idle storage below all of them
is related to the initial one. -/
def StackOk (E : Rely X σ) (init : σ) : List (Frame X σ ε) → σ → Prop
  | [], cur => E.rely init cur
  | f :: fs, cur => FrameOk E f cur ∧ E.inv f.saved ∧ StackOk E init fs f.saved

section

variable {E : Rely X σ} {init : σ} {fs : List (Frame X σ ε)} {cur cur' : σ}

/-- A stack stays in order while nested calls move the storage within the rely. -/
theorem StackOk.mono (hE : E.Closed) (h : StackOk E init fs cur) (hr : E.rely cur cur') :
    StackOk E init fs cur' := by
  cases fs with
  | nil => exact hE.trans h hr
  | cons f fs =>
      obtain ⟨⟨s, hs, hk⟩, hi, hfs⟩ := h
      exact ⟨⟨s, hE.trans hs hr, hk⟩, hi, hfs⟩

/-- Settling a program that meets its guarantee leaves everything in order. -/
theorem Guarantee.settle (hE : E.Closed) {saved : σ} {r o : Res X σ ε Unit}
    (hg : Guarantee E saved r) (hrun : Runs E.toWorld r o) (hi : E.inv saved)
    (hfs : StackOk E init fs saved) :
    E.inv (settle saved fs o).st ∧
      StackOk E init (settle saved fs o).stack (settle saved fs o).st := by
  have ho := hrun.wp hg
  cases o with
  | ret a s => exact ⟨ho.1, hfs.mono hE ho.2⟩
  | revert e => exact ⟨hi, hfs⟩
  | call x s k =>
      rw [Res.wp_call_of_open hrun.is_open] at ho
      exact ⟨ho.1, ⟨s, hE.refl s, ho.2⟩, hi, hfs⟩

end

/-- The guarantee is met by every admitted entry point, from every storage in the invariant. -/
def Sound (C : Contract X σ ε) (V : Environment X σ C.Entry) (E : Rely X σ) : Prop :=
  V.toWorld = E.toWorld ∧ ∀ e s, V.admits s e → E.inv s → Guarantee E s ((C.body e).run s)

section

variable {C : Contract X σ ε} {V : Environment X σ C.Entry} {E : Rely X σ} {init : σ}
  {c : Config X σ ε}

/-- One move of the environment leaves everything in order. -/
theorem Step.ok (hE : E.Closed) (hC : Sound C V E) {c' : Config X σ ε} (h : Step C V c c')
    (hc : E.inv c.st ∧ StackOk E init c.stack c.st) :
    E.inv c'.st ∧ StackOk E init c'.stack c'.st := by
  obtain ⟨hV, hbody⟩ := hC
  cases h with
  | enter e hadm hrun =>
      exact (hbody e _ hadm hc.1).settle hE (hV ▸ hrun) hc.1 hc.2
  | resume hrep hrun =>
      obtain ⟨hi, ⟨s, hs, hk⟩, hsaved, hfs⟩ := hc
      exact (hk _ _ (hV ▸ hrep) hi hs).settle hE (hV ▸ hrun) hsaved hfs
  | abort => exact ⟨hc.2.2.1, hc.2.2.2⟩

/-- Every reachable configuration is in order. Induction on the run. -/
theorem Reachable.ok (hE : E.Closed) (hC : Sound C V E) (hinit : E.inv init)
    (h : Reachable C V init c) : E.inv c.st ∧ StackOk E init c.stack c.st := by
  induction h with
  | refl => exact ⟨hinit, hE.refl init⟩
  | tail _ hstep ih => exact hstep.ok hE hC ih

/-- The invariant holds wherever the environment is in control. -/
theorem Reachable.inv (hE : E.Closed) (hC : Sound C V E) (hinit : E.inv init)
    (h : Reachable C V init c) : E.inv c.st :=
  (Reachable.ok hE hC hinit h).1

/-- With no call suspended, the storage is related to the initial one. -/
theorem Reachable.rely_of_idle (hE : E.Closed) (hC : Sound C V E) (hinit : E.inv init)
    (h : Reachable C V init c) (hidle : c.stack = []) : E.rely init c.st := by
  have := (Reachable.ok hE hC hinit h).2
  rwa [hidle] at this

end

/-! ### What suspended calls wait for -/

/-- Wherever a program stops to call out, the call and what is left to do are in a set. -/
def StopsIn (W : World X σ) (P : (x : X.Ext) → (X.Reply x → σ → Res X σ ε Unit) → Prop)
    (r : Res X σ ε Unit) : Prop :=
  ∀ x s k, Runs W r (.call x s k) → P x k

section

variable {W : World X σ} {P : (x : X.Ext) → (X.Reply x → σ → Res X σ ε Unit) → Prop} {α : Type}
  {s : σ}

theorem StopsIn.ret : StopsIn (ε := ε) W P (.ret () s) := by
  intro x s' k h
  cases h

theorem StopsIn.revert (e : ε) : StopsIn W P (.revert e) := by
  intro x s' k h
  cases h

theorem StopsIn.bind_revertIf {c : Prop} [Decidable c] {e : ε} {f : Unit → σ → Res X σ ε Unit}
    (h : ¬ c → StopsIn W P (f () s)) :
    StopsIn W P (((revertIf c e : Prog X σ ε Unit).run s).bind f) := by
  rw [run_revertIf]
  split
  · exact .revert e
  · rename_i hc
    exact h hc

theorem StopsIn.bind_liftExcept {y : Except ε α} {f : α → σ → Res X σ ε Unit}
    (h : ∀ a, StopsIn W P (f a s)) :
    StopsIn W P (((liftExcept y : Prog X σ ε α).run s).bind f) := by
  cases y with
  | error e => exact .revert e
  | ok a => exact h a

theorem StopsIn.call_closed {x : X.Ext} {k : X.Reply x → σ → Res X σ ε Unit}
    (hx : W.closed x = true) (h : ∀ r s', StopsIn W P (k r s')) :
    StopsIn W P (.call x s k) := by
  intro x' s' k' hrun
  cases hrun with
  | stop hopen => rw [hx] at hopen; cases hopen
  | closed _ _ hrun => exact h _ _ _ _ _ hrun

theorem StopsIn.call_open {x : X.Ext} {k : X.Reply x → σ → Res X σ ε Unit}
    (hx : W.closed x = false) (h : P x k) : StopsIn W P (.call x s k) := by
  intro x' s' k' hrun
  cases hrun with
  | stop => exact h
  | closed hclosed => rw [hx] at hclosed; cases hclosed

end

/-- In every reachable configuration, suspended calls wait as the programs leave them. -/
theorem Reachable.forall_frames {C : Contract X σ ε} {V : Environment X σ C.Entry} {init : σ}
    {P : (x : X.Ext) → (X.Reply x → σ → Res X σ ε Unit) → Prop} {c : Config X σ ε}
    (hbody : ∀ e s, StopsIn V.toWorld P ((C.body e).run s))
    (hresume : ∀ x k, P x k → ∀ r s, StopsIn V.toWorld P (k r s))
    (h : Reachable C V init c) : ∀ f ∈ c.stack, P f.ext f.resume := by
  induction h with
  | refl => exact List.forall_mem_nil _
  | tail _ hstep ih =>
      cases hstep with
      | @enter c o e _ hrun =>
          cases o with
          | ret | revert => exact ih
          | call x s k => exact List.forall_mem_cons.mpr ⟨hbody e _ _ _ _ hrun, ih⟩
      | @resume s f fs r o _ hrun =>
          obtain ⟨hf, hfs⟩ := List.forall_mem_cons.mp ih
          cases o with
          | ret | revert => exact hfs
          | call x s' k => exact List.forall_mem_cons.mpr ⟨hresume _ _ hf _ _ _ _ _ hrun, hfs⟩
      | abort => exact (List.forall_mem_cons.mp ih).2

/-! ### Runs without nested calls -/

section

variable {κ : Type}

/-- The answers of a function are answers of the world: a closed call gets one of its effects,
an open call gets an admitted reply and leaves the storage. -/
def Answers (W : World X σ) (o : (x : X.Ext) → σ → κ → Except ε (X.Reply x × σ × κ)) : Prop :=
  ∀ x s k r s' k', o x s k = .ok (r, s', k') →
    if W.closed x then W.effect x s r s' else W.answers x r ∧ s' = s

/-- What is left of a call, driven to its end, is a run of the machine. Induction on what is
left: a closed call extends the run within its step, an open call ends the step and starts the
next one with the frame it leaves. -/
theorem steps_of_drive {C : Contract X σ ε} {V : Environment X σ C.Entry}
    {o : (x : X.Ext) → σ → κ → Except ε (X.Reply x × σ × κ)} (ho : Answers V.toWorld o)
    {saved s' : σ} {fs : List (Frame X σ ε)} {r : Res X σ ε Unit} {k k' : κ}
    (hr : r.drive o k = .ok ((), s', k')) {c : Config X σ ε}
    (hc : ∀ p, Runs V.toWorld r p → Step C V c (settle saved fs p)) :
    Relation.ReflTransGen (Step C V) c ⟨s', fs⟩ := by
  induction r generalizing c k with
  | ret a s =>
      obtain rfl : s = s' := congrArg (fun p => p.2.1) (Except.ok.inj hr)
      exact .single (hc _ (.ret s))
  | revert e => cases hr
  | call x s f ih =>
      rw [Res.drive] at hr
      split at hr
      · rename_i rep s₁ k₁ hrep
        have hans := ho x s k rep s₁ k₁ hrep
        split at hans
        · rename_i hx
          exact ih rep s₁ hr fun p hp => hc p (.closed hx hans hp)
        · rename_i hx
          obtain ⟨hadm, rfl⟩ := hans
          refine .head (hc _ (.stop (Bool.eq_false_iff.mpr hx))) (ih rep s₁ hr fun p hp => ?_)
          exact Step.resume (f := ⟨saved, x, f⟩) hadm hp
      · cases hr

/-- Where only closed calls are answered, what is driven to its end is a run through them. -/
theorem Runs.of_drive {W : World X σ}
    {o : (x : X.Ext) → σ → κ → Except ε (X.Reply x × σ × κ)} (ho : Answers W o)
    (hclosed : ∀ x s k p, o x s k = .ok p → W.closed x = true) {r : Res X σ ε Unit} {s' : σ}
    {k k' : κ} (hr : r.drive o k = .ok ((), s', k')) : Runs W r (.ret () s') := by
  induction r generalizing k with
  | ret a s =>
      obtain rfl : s = s' := congrArg (fun p => p.2.1) (Except.ok.inj hr)
      exact .ret s
  | revert e => cases hr
  | call x s f ih =>
      rw [Res.drive] at hr
      split at hr
      · rename_i rep s₁ k₁ hrep
        have hx := hclosed x s k _ hrep
        have hans := ho x s k rep s₁ k₁ hrep
        rw [if_pos hx] at hans
        exact .closed hx hans (ih rep s₁ hr)
      · cases hr

/-- Makes calls one after another, with their external calls answered by a function. -/
def Contract.drive (C : Contract X σ ε)
    (o : (x : X.Ext) → σ → κ → Except ε (X.Reply x × σ × κ)) :
    List C.Entry → σ → κ → Except ε σ
  | [], s, _ => .ok s
  | e :: es, s, k =>
      match ((C.body e).run s).drive o k with
      | .ok ((), s', k') => C.drive o es s' k'
      | .error err => .error err

/-- A call whose external calls are answered one by one is a run. -/
theorem Reachable.drive_call {C : Contract X σ ε} {V : Environment X σ C.Entry} {init : σ}
    {o : (x : X.Ext) → σ → κ → Except ε (X.Reply x × σ × κ)} (ho : Answers V.toWorld o)
    {e : C.Entry} {s s' : σ} {k : κ} (h : Reachable C V init ⟨s, []⟩) (he : V.admits s e)
    (hd : C.drive o [e] s k = .ok s') : Reachable C V init ⟨s', []⟩ := by
  simp only [Contract.drive] at hd
  split at hd
  · rename_i s₁ k₁ hr
    obtain rfl : s₁ = s' := Except.ok.inj hd
    exact h.trans (steps_of_drive ho hr fun _ hp => Step.enter e he hp)
  · cases hd

/-- Calls made one after another, without nested calls, are a run. Induction on the calls. -/
theorem Reachable.drive {C : Contract X σ ε} {V : Environment X σ C.Entry} {init : σ}
    {o : (x : X.Ext) → σ → κ → Except ε (X.Reply x × σ × κ)} (ho : Answers V.toWorld o)
    {es : List C.Entry} (hadm : ∀ s, ∀ e ∈ es, V.admits s e) {s s' : σ} {k : κ}
    (h : Reachable C V init ⟨s, []⟩) (hd : C.drive o es s k = .ok s') :
    Reachable C V init ⟨s', []⟩ := by
  induction es generalizing s k with
  | nil =>
      obtain rfl : s = s' := Except.ok.inj hd
      exact h
  | cons e es ih =>
      rw [Contract.drive] at hd
      split at hd
      · rename_i s₁ k₁ hr
        refine ih (fun s e he => hadm s e (List.mem_cons_of_mem _ he)) ?_ hd
        exact h.trans (steps_of_drive ho hr fun _ hp =>
          Step.enter e (hadm s e List.mem_cons_self) hp)
      · cases hd

/-- A check of where calls lead shows a run that leads there. -/
theorem exists_of_any {x : Except ε σ} {p : σ → Bool}
    (h : x.toOption.any p = true) : ∃ s, x = .ok s ∧ p s = true := by
  cases x with
  | ok s => exact ⟨s, rfl, h⟩
  | error e => cases h

end

end Reentrant
