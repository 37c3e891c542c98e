import Ntt.Lib.Machine

/-!
# Histories of Completed Calls

The call machine keeps the storage and the suspended calls, and forgets which calls were made. Here
the storage gets a second component that the programs do not touch: the calls that came to their
end, newest first, each with the storage that it was made on (`Contract.recorded`). A call that
fails is rolled back with what it recorded, and so are the calls nested in it.

The recorded machine has the runs of the plain one (`Reachable.recorded`). What a program does with
the second component beside it follows the program (`Prog.lift` and the lemmas on its weakest
precondition).
-/

namespace Reentrant

variable {X : Interface} {σ γ ε α β : Type}

/-- What is left of a call, beside a component of the storage that it does not touch. -/
def Res.lift : Res X σ ε α → γ → Res X (σ × γ) ε α
  | .ret a s, g => .ret a (s, g)
  | .revert e, _ => .revert e
  | .call x s k, g => .call x (s, g) fun r p => (k r p.1).lift p.2

/-- A program beside a component of the storage that it does not touch. -/
def Prog.lift (γ : Type) (m : Prog X σ ε α) : Prog X (σ × γ) ε α := fun p => (m.run p.1).lift p.2

theorem Res.lift_bind (r : Res X σ ε α) (f : α → σ → Res X σ ε β) (g : γ) :
    (r.bind f).lift g = (r.lift g).bind fun a p => (f a p.1).lift p.2 := by
  induction r generalizing g with
  | ret | revert => rfl
  | call x s k ih => simp only [bind, lift, ih]

/-! ### Weakest preconditions -/

section

variable {E : Rely X (σ × γ)} {p : σ × γ}

@[simp] theorem wp_lift_bind {Q : β → σ × γ → Prop} {m : Prog X σ ε α} {f : α → Prog X σ ε β} :
    (((m >>= f).lift γ).run p).wp E Q ↔
      ((m.lift γ).run p).wp E fun a p' => (((f a).lift γ).run p').wp E Q := by
  change (((m.run p.1).bind fun a => (f a).run).lift p.2).wp E Q ↔ _
  rw [Res.lift_bind, Res.wp_bind]
  rfl

@[simp] theorem wp_lift_pure {Q : α → σ × γ → Prop} {a : α} :
    (((pure a : Prog X σ ε α).lift γ).run p).wp E Q ↔ Q a p := Iff.rfl

@[simp] theorem wp_lift_get {Q : σ → σ × γ → Prop} :
    (((get : Prog X σ ε σ).lift γ).run p).wp E Q ↔ Q p.1 p := Iff.rfl

@[simp] theorem wp_lift_modify {Q : Unit → σ × γ → Prop} {f : σ → σ} :
    (((modify f : Prog X σ ε Unit).lift γ).run p).wp E Q ↔ Q () (f p.1, p.2) := Iff.rfl

@[simp] theorem wp_lift_revertIf {Q : Unit → σ × γ → Prop} {c : Prop} [Decidable c] {e : ε} :
    (((revertIf c e : Prog X σ ε Unit).lift γ).run p).wp E Q ↔ (¬ c → Q () p) := by
  by_cases h : c <;> simp [Prog.run, Prog.lift, revertIf, h, Res.lift, Res.wp]

@[simp] theorem wp_lift_liftExcept {Q : α → σ × γ → Prop} {x : Except ε α} :
    (((liftExcept x : Prog X σ ε α).lift γ).run p).wp E Q ↔ ∀ a, x = .ok a → Q a p := by
  cases x <;> simp [Prog.run, Prog.lift, liftExcept, Res.lift, Res.wp]

@[simp] theorem wp_lift_ite {Q : α → σ × γ → Prop} {c : Prop} [Decidable c] {m m' : Prog X σ ε α} :
    (((if c then m else m').lift γ).run p).wp E Q ↔
      (c → ((m.lift γ).run p).wp E Q) ∧ (¬ c → ((m'.lift γ).run p).wp E Q) := by
  split <;> simp_all

/-- A program that calls first. -/
theorem wp_lift_call {x : X.Ext} {Q : X.Reply x → σ × γ → Prop} :
    (((call x : Prog X σ ε _).lift γ).run p).wp E Q ↔
      ((call x : Prog X (σ × γ) ε _).run p).wp E Q := Iff.rfl

end

/-! ### The recorded machine -/

/-- A world beside a component of the storage that closed calls do not touch. -/
def World.lift (γ : Type) (W : World X σ) : World X (σ × γ) where
  closed := W.closed
  effect x p r p' := W.effect x p.1 r p'.1 ∧ p'.2 = p.2
  answers := W.answers

/-- A call that came to its end. -/
structure Completed (σ η : Type) where
  entry : η
  /-- The storage that it was made on. -/
  before : σ
deriving DecidableEq

/-- The storage, and the calls so far. -/
abbrev Recorded (σ η : Type) : Type := σ × List (Completed σ η)

/-- Records that a call came to its end. -/
def record {η : Type} (c : Completed σ η) : Prog X (Recorded σ η) ε Unit :=
  modify fun p => (p.1, c :: p.2)

/-- A contract that records its calls. -/
def Contract.recorded (C : Contract X σ ε) : Contract X (Recorded σ C.Entry) ε where
  Entry := C.Entry
  body e := do
    let p ← get
    (C.body e).lift _
    record ⟨e, p.1⟩

/-- A recorded call does what the call does, and records it. -/
theorem wp_recorded {C : Contract X σ ε} {E : Rely X (Recorded σ C.Entry)} (e : C.Entry)
    (p : Recorded σ C.Entry) {Q : Unit → Recorded σ C.Entry → Prop} :
    ((C.recorded.body e).run p).wp E Q ↔ (((C.body e).lift _).run p).wp E fun _ p' =>
      Q () (p'.1, ⟨e, p.1⟩ :: p'.2) := by
  change ((((C.body e).lift _).run p).bind fun _ => (record ⟨e, p.1⟩).run).wp E Q ↔ _
  rw [Res.wp_bind]
  rfl

/-- The same environment. -/
def Environment.recorded {η : Type} (V : Environment X σ η) : Environment X (Recorded σ η) η where
  toWorld := V.toWorld.lift _
  admits p e := V.admits p.1 e

section

variable {η : Type}

/-- What is left of a recorded call. -/
def Res.recorded (c : Completed σ η) (r : Res X σ ε Unit) (h : List (Completed σ η)) :
    Res X (Recorded σ η) ε Unit :=
  (r.lift h).bind fun _ => (record c).run

/-- A suspended call and the recorded one. -/
inductive FrameMatches : Frame X (Recorded σ η) ε → Frame X σ ε → Prop
  | mk (saved : σ) (h : List (Completed σ η)) (c : Completed σ η) (x : X.Ext)
      (k : X.Reply x → σ → Res X σ ε Unit) :
      FrameMatches ⟨(saved, h), x, fun r p => (k r p.1).recorded c p.2⟩ ⟨saved, x, k⟩

/-- A configuration and the recorded one. -/
def ConfigMatches (c' : Config X (Recorded σ η) ε) (c : Config X σ ε) : Prop :=
  c'.st.1 = c.st ∧ List.Forall₂ FrameMatches c'.stack c.stack

/-- What runs runs recorded. -/
theorem Runs.recorded {W : World X σ} {r o : Res X σ ε Unit} (h : Runs W r o)
    (c : Completed σ η) (history : List (Completed σ η)) :
    Runs (W.lift _) (r.recorded c history) (o.recorded c history) := by
  induction h with
  | ret s => exact .ret _
  | revert e => exact .revert e
  | stop hx => exact .stop hx
  | @closed x s s' k r o hx heff _ ih =>
      have hlift : (W.lift (List (Completed σ η))).effect x (s, history) r (s', history) := ⟨heff, rfl⟩
      exact .closed hx hlift ih
  | fail err hx => exact .fail err hx

/-- Where a recorded call ends up. -/
theorem settle_matches {saved : σ} {fs : List (Frame X σ ε)}
    {fs' : List (Frame X (Recorded σ η) ε)} (hfs : List.Forall₂ FrameMatches fs' fs)
    (o : Res X σ ε Unit) (c : Completed σ η) (h history : List (Completed σ η)) :
    ConfigMatches (settle (saved, history) fs' (o.recorded c h)) (settle saved fs o) := by
  cases o with
  | ret _ s => exact ⟨rfl, hfs⟩
  | revert err => exact ⟨rfl, hfs⟩
  | call x s k => exact ⟨rfl, .cons (.mk saved history c x k) hfs⟩

end

variable {C : Contract X σ ε} {V : Environment X σ C.Entry}

/-- One move, recorded. -/
theorem Step.recorded {c d : Config X σ ε}
    {c' : Config X (Recorded σ C.Entry) ε} (h : Step C V c d) (hc : ConfigMatches c' c) :
    ∃ d', Step C.recorded V.recorded c' d' ∧ ConfigMatches d' d := by
  obtain ⟨⟨s', history⟩, stack'⟩ := c'
  obtain ⟨rfl, hstack⟩ := hc
  cases h with
  | enter e hadm hrun =>
      exact ⟨_, .enter (C := C.recorded) e hadm (hrun.recorded ⟨e, c.st⟩ history),
        settle_matches hstack _ ⟨e, c.st⟩ history history⟩
  | resume hrep hrun =>
      cases hstack with
      | cons hf hfs =>
          obtain ⟨saved, before, call, x, k⟩ := hf
          exact ⟨_, .resume (f := ⟨(saved, before), x, fun r p => (k r p.1).recorded call p.2⟩)
            hrep (hrun.recorded call history), settle_matches hfs _ call history before⟩
  | abort =>
      cases hstack with
      | cons hf hfs =>
          obtain ⟨saved, before, call, x, k⟩ := hf
          exact ⟨_, .abort, rfl, hfs⟩

/-- **The recorded machine has every run.** -/
theorem Reachable.recorded {init : σ} {c : Config X σ ε} (h : Reachable C V init c) :
    ∃ c', Reachable C.recorded V.recorded (init, []) c' ∧ ConfigMatches c' c := by
  induction h with
  | refl => exact ⟨⟨(init, []), []⟩, .refl, rfl, .nil⟩
  | tail _ hstep ih =>
      obtain ⟨c', hreach, hmatches⟩ := ih
      obtain ⟨d', hstep', hmatches'⟩ := hstep.recorded hmatches
      exact ⟨d', hreach.tail hstep', hmatches'⟩

end Reentrant
