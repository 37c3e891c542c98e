import Mathlib.Logic.Relation
import Mathlib.Tactic.Common

/-!
# Re-entrant Programs as Resumptions

A contract function does not run in one piece: whenever it calls another contract, control
leaves it, the callee may call back into the contract, and the function resumes on whatever
storage those nested calls left behind. This module gives such functions a shallow semantics.
A program is a function from the storage to a `Res`, which is either a returned value with the
final storage, a revert, or an external call together with the storage at that moment and the
continuation that resumes on the callee's reply and the storage found on return.

The calls a program can make are described by an `Interface`. A `World` says how they are
answered. A **closed** call is answered at once, by an effect relation: the EVM's `STATICCALL`
is one, and so is a callee that is known not to call back. Any other call is **open**: it hands
control to the environment.

## Reasoning

`Res.wp` is the weakest precondition of a program against a `Rely`: a world, an invariant that
has to hold wherever control leaves the program, and a relation that bounds what nested calls
may do to the storage. A revert satisfies every postcondition, since it leaves no trace. The
module `Ntt.Lib.Machine` proves this reading sound for a machine with an explicit stack of
suspended calls and rollback.

* `Res.wp_bind`, `Res.wp_mono`: sequencing, and weakening of the postcondition;
* `wp_get`, `wp_modify`, `wp_revertIf`, `wp_liftExcept`, `wp_call_open`, `wp_call_closed`: the
  primitives;
* `Res.wp_and`: two weakest preconditions, each with its own invariant, as one;
* `Res.wp_close`: an open call may be closed, if its effect stays within the rely;
* `Within`: programs that restore the invariant within the rely, closed under the ways to
  build programs.
-/

namespace Reentrant

/-- The external calls of a contract: their names with their arguments, and the type of the
reply to each. -/
structure Interface where
  /-- An external call with its arguments. -/
  Ext : Type
  /-- What the callee returns. -/
  Reply : Ext → Type

/-- What is left of a call: a result, a revert, or an external call with the storage at the
moment of the call and the continuation that takes the reply and the storage on return. -/
inductive Res (X : Interface) (σ ε α : Type) where
  | ret (a : α) (s : σ)
  | revert (e : ε)
  | call (x : X.Ext) (s : σ) (k : X.Reply x → σ → Res X σ ε α)

/-- A contract function: from the storage it starts in to what is left of it. -/
def Prog (X : Interface) (σ ε α : Type) : Type := σ → Res X σ ε α

variable {X : Interface} {σ ε α β : Type}

/-- Starts a program on a storage. -/
def Prog.run (m : Prog X σ ε α) (s : σ) : Res X σ ε α := m s

/-- Sequencing of what is left of a call with a continuation. -/
def Res.bind : Res X σ ε α → (α → σ → Res X σ ε β) → Res X σ ε β
  | .ret a s, f => f a s
  | .revert e, _ => .revert e
  | .call x s k, f => .call x s fun r s' => (k r s').bind f

instance : Monad (Prog X σ ε) where
  pure a := fun s => .ret a s
  bind m f := fun s => (m.run s).bind fun a => (f a).run

/-- The storage as it is now. -/
def get : Prog X σ ε σ := fun s => .ret s s

/-- Changes the storage. -/
def modify (f : σ → σ) : Prog X σ ε Unit := fun s => .ret () (f s)

/-- Reverts the whole call. -/
def revert (e : ε) : Prog X σ ε α := fun _ => .revert e

/-- Reverts the whole call when the condition holds. -/
def revertIf (c : Prop) [Decidable c] (e : ε) : Prog X σ ε Unit := fun s =>
  if c then .revert e else .ret () s

/-- Calls out, and resumes with the reply. -/
def call (x : X.Ext) : Prog X σ ε (X.Reply x) := fun s => .call x s fun r s' => .ret r s'

/-- A pure computation that can fail is a program that can revert. -/
def liftExcept : Except ε α → Prog X σ ε α
  | .ok a => fun s => .ret a s
  | .error e => fun _ => .revert e

instance : MonadLift (Except ε) (Prog X σ ε) where
  monadLift := liftExcept

/-- Answers every call of a program by a function of the call and the storage, with a memory of
its own and no nested calls. -/
def Res.drive {κ : Type} (o : (x : X.Ext) → σ → κ → Except ε (X.Reply x × σ × κ)) :
    Res X σ ε α → κ → Except ε (α × σ × κ)
  | .ret a s, k => .ok (a, s, k)
  | .revert e, _ => .error e
  | .call x s f, k =>
      match o x s k with
      | .ok (r, s', k') => (f r s').drive o k'
      | .error e => .error e

@[simp] theorem run_bind (m : Prog X σ ε α) (f : α → Prog X σ ε β) (s : σ) :
    (m >>= f).run s = (m.run s).bind fun a => (f a).run := rfl

@[simp] theorem run_pure (a : α) (s : σ) : (pure a : Prog X σ ε α).run s = .ret a s := rfl

@[simp] theorem monadLift_eq_liftExcept (x : Except ε α) :
    (monadLift x : Prog X σ ε α) = liftExcept x := rfl

/-- A conditional inside a program. -/
@[simp] theorem run_ite (c : Prop) [Decidable c] (m m' : Prog X σ ε α) (s : σ) :
    (if c then m else m').run s = if c then m.run s else m'.run s := by
  split <;> rfl

@[simp] theorem Res.bind_ret (a : α) (s : σ) (f : α → σ → Res X σ ε β) :
    (Res.ret a s).bind f = f a s := rfl

@[simp] theorem Res.bind_revert (e : ε) (f : α → σ → Res X σ ε β) :
    (Res.revert e : Res X σ ε α).bind f = .revert e := rfl

theorem Res.bind_assoc {γ : Type} (r : Res X σ ε α) (f : α → σ → Res X σ ε β)
    (g : β → σ → Res X σ ε γ) : (r.bind f).bind g = r.bind fun a s => (f a s).bind g := by
  induction r with
  | ret | revert => rfl
  | call x s k ih => simp only [bind, ih]

/-- Answering a sequence is answering its parts one after the other. -/
theorem Res.drive_bind {κ : Type} (o : (x : X.Ext) → σ → κ → Except ε (X.Reply x × σ × κ))
    (r : Res X σ ε α) (f : α → σ → Res X σ ε β) (k : κ) :
    (r.bind f).drive o k = r.drive o k >>= fun p => (f p.1 p.2.1).drive o p.2.2 := by
  induction r generalizing k with
  | ret | revert => rfl
  | call x s g ih =>
      simp only [bind, drive]
      cases o x s k with
      | ok p => exact ih p.1 p.2.1 p.2.2
      | error e => rfl

theorem run_get (s : σ) : (get : Prog X σ ε σ).run s = .ret s s := rfl

theorem run_modify (f : σ → σ) (s : σ) :
    (modify f : Prog X σ ε Unit).run s = .ret () (f s) := rfl

theorem run_revertIf (c : Prop) [Decidable c] (e : ε) (s : σ) :
    (revertIf c e : Prog X σ ε Unit).run s = if c then .revert e else .ret () s := rfl

theorem run_liftExcept_ok (a : α) (s : σ) :
    (liftExcept (.ok a) : Prog X σ ε α).run s = .ret a s := rfl

theorem run_liftExcept_error (e : ε) (s : σ) :
    (liftExcept (.error e) : Prog X σ ε α).run s = .revert e := rfl

/-! ### Answered primitives -/

section

variable {κ : Type} {o : (x : X.Ext) → σ → κ → Except ε (X.Reply x × σ × κ)} {s : σ} {k : κ}

theorem drive_ret_eq_ok {a : α} {p : α × σ × κ} :
    (Res.ret a s : Res X σ ε α).drive o k = .ok p ↔ p = (a, s, k) := by
  simp only [Res.drive, Except.ok.injEq, eq_comm]

theorem drive_revertIf_eq_ok {c : Prop} [Decidable c] {e : ε} {p : Unit × σ × κ} :
    ((revertIf c e : Prog X σ ε Unit).run s).drive o k = .ok p ↔ ¬ c ∧ p = ((), s, k) := by
  by_cases h : c <;> simp [run_revertIf, h, Res.drive, eq_comm]

theorem drive_liftExcept_eq_ok {x : Except ε α} {p : α × σ × κ} :
    ((liftExcept x : Prog X σ ε α).run s).drive o k = .ok p ↔ ∃ a, x = .ok a ∧ p = (a, s, k) := by
  cases x <;> simp [Prog.run, liftExcept, Res.drive, eq_comm]

end

/-! ### Weakest preconditions -/

/-- How the calls of an interface are answered. -/
structure World (X : Interface) (σ : Type) where
  /-- A closed call is answered at once: no nested call happens. -/
  closed : X.Ext → Bool
  /-- The reply that a closed call can give, and the storage that it leaves. -/
  effect : (x : X.Ext) → σ → X.Reply x → σ → Prop
  /-- The replies that an open call can give. -/
  answers : (x : X.Ext) → X.Reply x → Prop

/-- What a program may assume about its environment, and owes it in return: an invariant of
the storage that holds wherever control changes hands, and a relation that bounds what nested
calls do to the storage. -/
structure Rely (X : Interface) (σ : Type) extends World X σ where
  /-- Holds of the storage whenever control leaves or enters the contract. -/
  inv : σ → Prop
  /-- Bounds what nested calls do to the storage. -/
  rely : σ → σ → Prop

/-- The weakest precondition: a closed call has its effect, an open call hands the environment
a storage in the invariant and takes back one that the rely allows. -/
def Res.wp (E : Rely X σ) (Q : α → σ → Prop) : Res X σ ε α → Prop
  | .ret a s => Q a s
  | .revert _ => True
  | .call x s k =>
      if E.closed x then ∀ r s', E.effect x s r s' → (k r s').wp E Q
      else E.inv s ∧ ∀ r s', E.answers x r → E.inv s' → E.rely s s' → (k r s').wp E Q

section

variable {E : Rely X σ} {Q Q' : α → σ → Prop}

/-- The weakest precondition of a closed call. -/
theorem Res.wp_call_of_closed {x : X.Ext} {s : σ} {k : X.Reply x → σ → Res X σ ε α}
    (hx : E.closed x = true) :
    (Res.call x s k).wp E Q ↔ ∀ r s', E.effect x s r s' → (k r s').wp E Q := by
  simp only [Res.wp, hx, if_true]

/-- The weakest precondition of an open call. -/
theorem Res.wp_call_of_open {x : X.Ext} {s : σ} {k : X.Reply x → σ → Res X σ ε α}
    (hx : E.closed x = false) :
    (Res.call x s k).wp E Q ↔ E.inv s ∧
      ∀ r s', E.answers x r → E.inv s' → E.rely s s' → (k r s').wp E Q := by
  simp only [Res.wp, hx, if_false, Bool.false_eq_true]

/-- The postcondition can be weakened. -/
theorem Res.wp_mono (h : ∀ a s, Q a s → Q' a s) {r : Res X σ ε α} (hr : r.wp E Q) :
    r.wp E Q' := by
  induction r with
  | ret a s => exact h a s hr
  | revert e => trivial
  | call x s k ih =>
      cases hx : E.closed x with
      | true =>
          rw [wp_call_of_closed hx] at hr ⊢
          exact fun r s' he => ih r s' (hr r s' he)
      | false =>
          rw [wp_call_of_open hx] at hr ⊢
          exact ⟨hr.1, fun r s' hrep hi hrel => ih r s' (hr.2 r s' hrep hi hrel)⟩

/-- Any number of postconditions, as one. -/
theorem Res.wp_forall {ι : Type} [Nonempty ι] {Q : ι → α → σ → Prop} {r : Res X σ ε α}
    (h : ∀ i, r.wp E (Q i)) : r.wp E fun a s => ∀ i, Q i a s := by
  induction r with
  | ret a s => exact h
  | revert e => trivial
  | call x s k ih =>
      cases hx : E.closed x with
      | true =>
          simp only [wp_call_of_closed hx] at h ⊢
          exact fun r s' he => ih r s' fun i => h i r s' he
      | false =>
          simp only [wp_call_of_open hx] at h ⊢
          exact ⟨(h (Classical.arbitrary ι)).1, fun r s' hrep hi hrel =>
            ih r s' fun i => (h i).2 r s' hrep hi hrel⟩

/-- Sequencing: the continuation's precondition is the first part's postcondition. -/
@[simp] theorem Res.wp_bind {Q : β → σ → Prop} (r : Res X σ ε α)
    (f : α → σ → Res X σ ε β) :
    (r.bind f).wp E Q ↔ r.wp E fun a s => (f a s).wp E Q := by
  induction r with
  | ret a s => rfl
  | revert e => rfl
  | call x s k ih =>
      cases hx : E.closed x with
      | true => simp only [Res.bind, wp_call_of_closed hx, ih]
      | false => simp only [Res.bind, wp_call_of_open hx, ih]

@[simp] theorem wp_ret (a : α) (s : σ) : (Res.ret a s : Res X σ ε α).wp E Q ↔ Q a s := Iff.rfl

@[simp] theorem wp_get {Q : σ → σ → Prop} (s : σ) :
    ((get : Prog X σ ε σ).run s).wp E Q ↔ Q s s := Iff.rfl

@[simp] theorem wp_modify {Q : Unit → σ → Prop} (f : σ → σ) (s : σ) :
    ((modify f : Prog X σ ε Unit).run s).wp E Q ↔ Q () (f s) := Iff.rfl

@[simp] theorem wp_revert (e : ε) (s : σ) : ((revert e : Prog X σ ε α).run s).wp E Q := trivial

@[simp] theorem wp_revertIf {Q : Unit → σ → Prop} (c : Prop) [Decidable c] (e : ε) (s : σ) :
    ((revertIf c e : Prog X σ ε Unit).run s).wp E Q ↔ (¬ c → Q () s) := by
  by_cases h : c <;> simp [Prog.run, revertIf, h, Res.wp]

@[simp] theorem wp_liftExcept (x : Except ε α) (s : σ) :
    ((liftExcept x : Prog X σ ε α).run s).wp E Q ↔ ∀ a, x = .ok a → Q a s := by
  cases x <;> simp [Prog.run, liftExcept, Res.wp]

/-- An open call: control leaves with the invariant, and comes back with it. -/
theorem wp_call_open {x : X.Ext} {Q : X.Reply x → σ → Prop} (hx : E.closed x = false) (s : σ) :
    ((call x : Prog X σ ε _).run s).wp E Q ↔
      E.inv s ∧ ∀ r s', E.answers x r → E.inv s' → E.rely s s' → Q r s' :=
  Res.wp_call_of_open hx

/-- A closed call has its effect. -/
theorem wp_call_closed {x : X.Ext} {Q : X.Reply x → σ → Prop} (hx : E.closed x = true) (s : σ) :
    ((call x : Prog X σ ε _).run s).wp E Q ↔ ∀ r s', E.effect x s r s' → Q r s' :=
  Res.wp_call_of_closed hx

/-- The weakest precondition of a conditional. -/
@[simp] theorem Res.wp_ite (c : Prop) [Decidable c] (r r' : Res X σ ε α) :
    (if c then r else r').wp E Q ↔ (c → r.wp E Q) ∧ (¬ c → r'.wp E Q) := by
  split <;> simp_all

end

/-! ### Changing the environment -/

/-- Two environments of one world, as one. -/
def Rely.and (E F : Rely X σ) : Rely X σ where
  toWorld := E.toWorld
  inv s := E.inv s ∧ F.inv s
  rely s s' := E.rely s s' ∧ F.rely s s'

/-- Two proofs about a program, each with its own invariant, are one about both. -/
theorem Res.wp_and {E F : Rely X σ} (hw : E.toWorld = F.toWorld) {Q Q' : α → σ → Prop}
    {r : Res X σ ε α} (h : r.wp E Q) (h' : r.wp F Q') :
    r.wp (E.and F) fun a s => Q a s ∧ Q' a s := by
  obtain ⟨W, inv, rel⟩ := E
  obtain ⟨W', inv', rel'⟩ := F
  obtain rfl : W = W' := hw
  induction r with
  | ret a s => exact ⟨h, h'⟩
  | revert e => trivial
  | call x s k ih =>
      cases hx : W.closed x with
      | true =>
          rw [wp_call_of_closed hx] at h h' ⊢
          exact fun r s' he => ih r s' (h r s' he) (h' r s' he)
      | false =>
          rw [wp_call_of_open hx] at h h' ⊢
          exact ⟨⟨h.1, h'.1⟩, fun r s' hrep hi hrel =>
            ih r s' (h.2 r s' hrep hi.1 hrel.1) (h'.2 r s' hrep hi.2 hrel.2)⟩

/-- A world closes more calls than another: what was closed has fewer effects, what was open
and is not any more stays within the rely, and what is open still gives fewer answers. -/
structure Closes (W : World X σ) (E : Rely X σ) : Prop where
  closed : ∀ x, E.closed x = true → W.closed x = true ∧
    ∀ s r s', W.effect x s r s' → E.effect x s r s'
  open_closed : ∀ x, E.closed x = false → W.closed x = true → ∀ s r s', E.inv s →
    W.effect x s r s' → E.answers x r ∧ E.inv s' ∧ E.rely s s'
  open_open : ∀ x, E.closed x = false → W.closed x = false → ∀ r, W.answers x r → E.answers x r

/-- What is proved with a call open holds with it closed. -/
theorem Res.wp_close {W : World X σ} {E : Rely X σ} (hW : Closes W E) {Q : α → σ → Prop}
    {r : Res X σ ε α} (h : r.wp E Q) : r.wp { E with toWorld := W } Q := by
  induction r with
  | ret a s => exact h
  | revert e => trivial
  | call x s k ih =>
      cases hE : E.closed x with
      | true =>
          obtain ⟨hx, heff⟩ := hW.closed x hE
          rw [wp_call_of_closed hE] at h
          rw [wp_call_of_closed hx]
          exact fun r s' he => ih r s' (h r s' (heff s r s' he))
      | false =>
          rw [wp_call_of_open hE] at h
          cases hx : W.closed x with
          | true =>
              rw [wp_call_of_closed hx]
              intro r s' he
              obtain ⟨hrep, hi, hrel⟩ := hW.open_closed x hE hx s r s' h.1 he
              exact ih r s' (h.2 r s' hrep hi hrel)
          | false =>
              rw [wp_call_of_open hx]
              exact ⟨h.1, fun r s' hrep hi hrel =>
                ih r s' (h.2 r s' (hW.open_open x hE hx r hrep) hi hrel)⟩

/-! ### Programs that keep within the rely -/

/-- A rely that can be followed along a run. -/
structure Rely.Closed (E : Rely X σ) : Prop where
  refl : ∀ s, E.rely s s
  trans : ∀ {s t u}, E.rely s t → E.rely t u → E.rely s u

/-- From the invariant, a program restores the invariant within the rely. -/
def Within (E : Rely X σ) (m : Prog X σ ε α) : Prop :=
  ∀ s, E.inv s → (m.run s).wp E fun _ s' => E.inv s' ∧ E.rely s s'

namespace Within

variable {E : Rely X σ} {m m' : Prog X σ ε α} {f : α → Prog X σ ε β}

/-- What comes before a program is remembered. -/
theorem wp (hE : E.Closed) (hm : Within E m) {s₀ s : σ} (hs : E.inv s) (hr : E.rely s₀ s) :
    (m.run s).wp E fun _ s' => E.inv s' ∧ E.rely s₀ s' :=
  Res.wp_mono (fun _ _ h => ⟨h.1, hE.trans hr h.2⟩) (hm s hs)

theorem bind (hE : E.Closed) (hm : Within E m) (hf : ∀ a, Within E (f a)) :
    Within E (m >>= f) := by
  intro s hs
  rw [run_bind, Res.wp_bind]
  exact Res.wp_mono (fun a s' h => (hf a).wp hE h.1 h.2) (hm s hs)

theorem pure (hE : E.Closed) (a : α) : Within E (pure a : Prog X σ ε α) :=
  fun s hs => ⟨hs, hE.refl s⟩

theorem get (hE : E.Closed) : Within E (Reentrant.get : Prog X σ ε σ) :=
  fun s hs => ⟨hs, hE.refl s⟩

theorem modify {f : σ → σ} (hf : ∀ s, E.inv s → E.inv (f s) ∧ E.rely s (f s)) :
    Within E (Reentrant.modify f : Prog X σ ε Unit) := hf

theorem revert (e : ε) : Within E (Reentrant.revert e : Prog X σ ε α) := fun _ _ => trivial

theorem revertIf (hE : E.Closed) (c : Prop) [Decidable c] (e : ε) :
    Within E (Reentrant.revertIf c e : Prog X σ ε Unit) :=
  fun s hs => (wp_revertIf c e s).mpr fun _ => ⟨hs, hE.refl s⟩

theorem liftExcept (hE : E.Closed) (x : Except ε α) :
    Within E (Reentrant.liftExcept x : Prog X σ ε α) :=
  fun s hs => (wp_liftExcept x s).mpr fun _ _ => ⟨hs, hE.refl s⟩

theorem call_open {x : X.Ext} (hx : E.closed x = false) :
    Within E (call x : Prog X σ ε (X.Reply x)) :=
  fun s hs => (wp_call_open hx s).mpr ⟨hs, fun _ _ _ hi hr => ⟨hi, hr⟩⟩

theorem call_closed {x : X.Ext} (hx : E.closed x = true)
    (heff : ∀ s r s', E.inv s → E.effect x s r s' → E.inv s' ∧ E.rely s s') :
    Within E (call x : Prog X σ ε (X.Reply x)) :=
  fun s hs => (wp_call_closed hx s).mpr fun r s' he => heff s r s' hs he

theorem ite {c : Prop} [Decidable c] (hm : Within E m) (hm' : Within E m') :
    Within E (if c then m else m') := by
  split
  · exact hm
  · exact hm'

end Within

end Reentrant
