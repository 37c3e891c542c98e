import Ntt.Lib.Machine
import Ntt.Lib.Writes

/-!
# Two Contracts as One System

Programs are proved correct one contract at a time, each against an environment that may do
anything the rely allows. Here two contracts become one machine, whose storage is the pair of
theirs: a **callee**, and a **caller** some of whose calls are calls of the callee. Such a call is
not answered by the environment any more; the callee's program runs in its place, on the callee's
own storage, and hands control away wherever it calls out (`Contract.link`).

A program becomes part of a system by `Prog.inside`: its storage is a `Part` of that of the
system, and its calls are programs of the system.

## Reasoning

A relation between the two storages is a third invariant beside those of the two contracts
(`Rely.joint`). Most programs touch nothing that the relation reads, and `Leaves` says so of a
program, by itself and once.

* `Res.wp_inside`: what is proved of a program alone holds of it inside a system, if it leaves
  the view that the system relies on;
* `guarantee_toLeft`, `guarantee_linked`: so the callee's programs, and those of the caller's that
  do not call the callee, owe the system nothing new;
* `wp_inside_bind`, `wp_inside_get`, ...: for the others, the weakest precondition goes through the
  program as always.

A program on a part of a storage can also keep its own calls (`Prog.on`). What it keeps to on the
part it keeps to on the whole (`Within.on`).
-/

namespace Reentrant

variable {X Y Z : Interface} {σ τ ρ ε ε' α β V : Type}

/-! ### Programs inside a system -/

/-- A part of a storage. -/
structure Part (ρ σ : Type) where
  /-- Reads the part. -/
  get : ρ → σ
  /-- Replaces the part. -/
  set : ρ → σ → ρ
  get_set : ∀ p s, get (set p s) = s
  set_get : ∀ p, set p (get p) = p
  set_set : ∀ p s s', set (set p s) s' = set p s'

attribute [simp] Part.get_set Part.set_get Part.set_set

/-- The first of two storages. -/
@[simps] def Part.fst : Part (σ × τ) σ where
  get := Prod.fst
  set p s := (s, p.2)
  get_set _ _ := rfl
  set_get _ := rfl
  set_set _ _ _ := rfl

/-- The second of two storages. -/
@[simps] def Part.snd : Part (σ × τ) τ where
  get := Prod.snd
  set p t := (p.1, t)
  get_set _ _ := rfl
  set_get _ := rfl
  set_set _ _ _ := rfl

/-- What is left of a call, on a part of the system's storage, its calls being programs of the
system. -/
def Res.inside (L : Part ρ σ) (h : (x : X.Ext) → Prog Z ρ ε (X.Reply x)) :
    Res X σ ε α → ρ → Res Z ρ ε α
  | .ret a s, p => .ret a (L.set p s)
  | .revert e, _ => .revert e
  | .call x s k, p => ((h x).run (L.set p s)).bind fun r p' => (k r (L.get p')).inside L h p'

/-- A program inside a system. -/
def Prog.inside (L : Part ρ σ) (h : (x : X.Ext) → Prog Z ρ ε (X.Reply x)) (m : Prog X σ ε α) :
    Prog Z ρ ε α := fun p => (m.run (L.get p)).inside L h p

section

variable {L : Part ρ σ} {h : (x : X.Ext) → Prog Z ρ ε (X.Reply x)}

/-- What is left of a call does not read the part that it replaces. -/
theorem Res.inside_set (r : Res X σ ε α) (p : ρ) (s : σ) :
    r.inside L h (L.set p s) = r.inside L h p := by
  cases r <;> simp only [inside, Part.set_set]

theorem Res.inside_bind (r : Res X σ ε α) (f : α → σ → Res X σ ε β) (p : ρ) :
    (r.bind f).inside L h p =
      (r.inside L h p).bind fun a p' => (f a (L.get p')).inside L h p' := by
  induction r generalizing p with
  | ret a s => simp only [bind, inside, Part.get_set, inside_set]
  | revert e => rfl
  | call x s k ih => simp only [bind, inside, ih, bind_assoc]

variable {J : Rely Z ρ} {p : ρ}

@[simp] theorem wp_inside_bind {Q : β → ρ → Prop} {m : Prog X σ ε α} {f : α → Prog X σ ε β} :
    (((m >>= f).inside L h).run p).wp J Q ↔
      ((m.inside L h).run p).wp J fun a p' => (((f a).inside L h).run p').wp J Q := by
  change (((m.run (L.get p)).bind fun a => (f a).run).inside L h p).wp J Q ↔ _
  rw [Res.inside_bind, Res.wp_bind]
  rfl

@[simp] theorem wp_inside_pure {Q : α → ρ → Prop} {a : α} :
    (((pure a : Prog X σ ε α).inside L h).run p).wp J Q ↔ Q a p := by
  change Q a (L.set p (L.get p)) ↔ _
  rw [L.set_get]

@[simp] theorem wp_inside_get {Q : σ → ρ → Prop} :
    (((get : Prog X σ ε σ).inside L h).run p).wp J Q ↔ Q (L.get p) p := by
  change Q (L.get p) (L.set p (L.get p)) ↔ _
  rw [L.set_get]

@[simp] theorem wp_inside_modify {Q : Unit → ρ → Prop} {f : σ → σ} :
    (((modify f : Prog X σ ε Unit).inside L h).run p).wp J Q ↔ Q () (L.set p (f (L.get p))) :=
  Iff.rfl

@[simp] theorem wp_inside_revertIf {Q : Unit → ρ → Prop} {c : Prop} [Decidable c] {e : ε} :
    (((revertIf c e : Prog X σ ε Unit).inside L h).run p).wp J Q ↔ (¬ c → Q () p) := by
  by_cases hc : c <;> simp [Prog.run, Prog.inside, revertIf, hc, Res.inside, Res.wp]

@[simp] theorem wp_inside_liftExcept {Q : α → ρ → Prop} {x : Except ε α} :
    (((liftExcept x : Prog X σ ε α).inside L h).run p).wp J Q ↔ ∀ a, x = .ok a → Q a p := by
  cases x <;> simp [Prog.run, Prog.inside, liftExcept, Res.inside, Res.wp]

@[simp] theorem wp_inside_ite {Q : α → ρ → Prop} {c : Prop} [Decidable c] {m m' : Prog X σ ε α} :
    (((if c then m else m').inside L h).run p).wp J Q ↔
      (c → ((m.inside L h).run p).wp J Q) ∧ (¬ c → ((m'.inside L h).run p).wp J Q) := by
  split <;> simp_all

/-- A call inside a system is the program that it stands for. -/
theorem wp_inside_call {x : X.Ext} {Q : X.Reply x → ρ → Prop} :
    (((call x : Prog X σ ε _).inside L h).run p).wp J Q ↔ ((h x).run p).wp J Q := by
  have hrun : ((call x : Prog X σ ε _).inside L h).run p =
      ((h x).run p).bind fun r p' => .ret r p' := by
    change ((h x).run (L.set p (L.get p))).bind (fun r p' => .ret r (L.set p' (L.get p'))) = _
    simp only [Part.set_get]
  rw [hrun, Res.wp_bind]
  rfl

end

/-! ### Proofs inside a system -/

/-- A system in which the calls of a program do what the program was proved with, and keep a
fact about the system that reads of the program's part no more than a view. -/
structure Handles (L : Part ρ σ) (h : (x : X.Ext) → Prog Z ρ ε (X.Reply x)) (P : X.Ext → Prop)
    (E : Rely X σ) (J : Rely Z ρ) (f : σ → V) (G : ρ → Prop) : Prop where
  view : ∀ p s, f s = f (L.get p) → G p → G (L.set p s)
  closed : ∀ x p, P x → E.closed x = true → G p →
    ((h x).run p).wp J fun r p' => E.effect x (L.get p) r (L.get p') ∧ G p'
  is_open : ∀ x p, P x → E.closed x = false → E.inv (L.get p) → G p →
    ((h x).run p).wp J fun r p' =>
      (E.answers x r ∧ E.inv (L.get p') ∧ E.rely (L.get p) (L.get p')) ∧ G p'

/-- **What is proved of a program alone holds inside a system**, beside a fact about the system
that the program leaves alone. -/
theorem Res.wp_inside {L : Part ρ σ} {h : (x : X.Ext) → Prog Z ρ ε (X.Reply x)}
    {P : X.Ext → Prop} {E : Rely X σ} {J : Rely Z ρ} {f : σ → V} {G : ρ → Prop}
    (hH : Handles L h P E J f G) {Q : α → σ → Prop} {r : Res X σ ε α} (hr : r.wp E Q) {p : ρ}
    (hl : r.Writes P (fun s s' => f s' = f s) (L.get p)) (hp : G p) :
    (r.inside L h p).wp J fun a p' => Q a (L.get p') ∧ G p' := by
  induction r generalizing p with
  | ret a s => exact ⟨by rwa [L.get_set], hH.view p s (eq_of_steps hl) hp⟩
  | revert e => trivial
  | call x s k ih =>
      obtain ⟨⟨hx, hs⟩, hk⟩ := hl
      have hG := hH.view p s (eq_of_steps hs) hp
      rw [inside, wp_bind]
      cases hE : E.closed x with
      | true =>
          rw [wp_call_of_closed hE] at hr
          refine wp_mono (fun rep p' h => ?_) (hH.closed x _ hx hE hG)
          rw [L.get_set] at h
          exact ih rep _ (hr rep _ h.1) (hk rep _) h.2
      | false =>
          rw [wp_call_of_open hE] at hr
          have hs : E.inv (L.get (L.set p s)) := (L.get_set p s).symm ▸ hr.1
          refine wp_mono (fun rep p' h => ?_) (hH.is_open x _ hx hE hs hG)
          rw [L.get_set] at h
          exact ih rep _ (hr.2 rep _ h.1.1 h.1.2.1 h.1.2.2) (hk rep _) h.2

/-! ### Programs on a part of a storage -/

/-- A program on a part of a storage, with its own calls. -/
def Prog.on (L : Part ρ σ) (m : Prog X σ ε α) : Prog X ρ ε α := m.inside L call

/-- A world around a part of a storage, in which a closed call leaves the rest alone. -/
def World.on (W : World X σ) (L : Part ρ σ) : World X ρ where
  closed := W.closed
  effect x p r p' := ∃ s, W.effect x (L.get p) r s ∧ p' = L.set p s
  answers := W.answers

/-- What is known of a part, of the whole. -/
def Rely.on (E : Rely X σ) (L : Part ρ σ) : Rely X ρ where
  toWorld := E.toWorld.on L
  inv p := E.inv (L.get p)
  rely p p' := E.rely (L.get p) (L.get p')

/-- A fact about the whole that nested calls keep, and that reads of the part no more than a
view. -/
theorem handles_on {L : Part ρ σ} {P : X.Ext → Prop} {E : Rely X σ} {J : Rely X ρ} {f : σ → V}
    {G : ρ → Prop} (hclosed : ∀ x, J.closed x = E.closed x)
    (heffect : ∀ x p r p', J.effect x p r p' → ∃ s, E.effect x (L.get p) r s ∧ p' = L.set p s)
    (hanswers : ∀ x r, J.answers x r → E.answers x r)
    (hinv : ∀ x p, P x → E.closed x = false → E.inv (L.get p) → G p → J.inv p)
    (hstable : ∀ p p', G p → J.inv p' → J.rely p p' →
      E.inv (L.get p') ∧ E.rely (L.get p) (L.get p') ∧ G p')
    (hview : ∀ p s, f s = f (L.get p) → G p → G (L.set p s))
    (heff : ∀ x s r s', E.closed x = true → E.effect x s r s' → f s' = f s) :
    Handles (ε := ε) L call P E J f G where
  view := hview
  closed x p _ hx hG := by
    refine (wp_call_closed ((hclosed x).trans hx) p).mpr ?_
    rintro r _ he
    obtain ⟨s, hs, rfl⟩ := heffect x p r _ he
    rw [L.get_set]
    exact ⟨hs, hview p s (heff x _ r s hx hs) hG⟩
  is_open x p hP hx hi hG := by
    refine (wp_call_open ((hclosed x).trans hx) p).mpr
      ⟨hinv x p hP hx hi hG, fun r p' hr hi' hrel => ?_⟩
    obtain ⟨hs, hrs, hG'⟩ := hstable p p' hG hi' hrel
    exact ⟨⟨hanswers x r hr, hs, hrs⟩, hG'⟩

/-- What a program returns without a call on a part, it returns on the whole. -/
theorem run_on_ret {L : Part ρ σ} {m : Prog X σ ε α} {p : ρ} {a : α} {s : σ}
    (h : m.run (L.get p) = .ret a s) : (m.on L).run p = .ret a (L.set p s) := by
  change (m.run (L.get p)).inside L Reentrant.call p = _
  rw [h, Res.inside]

/-- What a program keeps to on a part, it keeps to on the whole. -/
theorem Within.on {L : Part ρ σ} {E : Rely X σ} {m : Prog X σ ε α} (hm : Within E m) :
    Within (E.on L) (m.on L) := by
  intro p hp
  have hH : Handles (ε := ε) L call (fun _ => True) E (E.on L) (fun _ => ()) fun _ => True :=
    handles_on (fun _ => rfl) (fun _ _ _ _ h => h) (fun _ _ h => h) (fun _ _ _ _ h _ => h)
      (fun _ _ _ hi hr => ⟨hi, hr, trivial⟩) (fun _ _ _ _ => trivial) fun _ _ _ _ _ _ => rfl
  exact Res.wp_mono (fun _ _ h => h.1)
    (Res.wp_inside hH (hm (L.get p) hp) (.of_forall (fun _ => trivial) (fun _ _ => rfl) _ _)
      trivial)

/-- What a program writes on a part, it writes on the whole. -/
theorem Res.Writes.on {L : Part ρ σ} {P : X.Ext → Prop} {step : σ → σ → Prop}
    {step' : ρ → ρ → Prop} (hL : ∀ p s s', step s s' → step' (L.set p s) (L.set p s'))
    {r : Res X σ ε α} {p : ρ} (h : r.Writes P step (L.get p)) :
    (r.inside L Reentrant.call p).Writes P step' p := by
  have hlift (p : ρ) (s : σ) (hs : Relation.ReflTransGen step (L.get p) s) :
      Relation.ReflTransGen step' p (L.set p s) := by
    have hp : Relation.ReflTransGen step' (L.set p (L.get p)) (L.set p s) :=
      Relation.ReflTransGen.lift (L.set p) (hL p) _ _ hs
    rwa [L.set_get] at hp
  induction r generalizing p with
  | ret a s => exact hlift p s h
  | revert e => trivial
  | call x s k ih =>
      exact ⟨⟨h.1.1, hlift p s h.1.2⟩, fun rep p' => ih rep (L.get p') (h.2 rep (L.get p'))⟩

theorem Writes.on {L : Part ρ σ} {P : X.Ext → Prop} {step : σ → σ → Prop}
    {step' : ρ → ρ → Prop} {m : Prog X σ ε α} (hm : Writes P step m)
    (hL : ∀ p s s', step s s' → step' (L.set p s) (L.set p s')) : Writes P step' (m.on L) :=
  ⟨fun p => (hm.run (L.get p)).on hL⟩

/-! ### Errors -/

/-- Translates the error that what is left of a call reverts with. -/
def Res.mapError (f : ε → ε') : Res X σ ε α → Res X σ ε' α
  | .ret a s => .ret a s
  | .revert e => .revert (f e)
  | .call x s k => .call x s fun r s' => (k r s').mapError f

/-- Translates the errors of a program. -/
def Prog.mapError (f : ε → ε') (m : Prog X σ ε α) : Prog X σ ε' α := fun s => (m.run s).mapError f

theorem run_mapError_ret {m : Prog X σ ε α} {f : ε → ε'} {s s' : σ} {a : α}
    (h : m.run s = .ret a s') : (m.mapError f).run s = .ret a s' := by
  change (m.run s).mapError f = _
  rw [h, Res.mapError]

@[simp] theorem Res.wp_mapError {E : Rely X σ} {Q : α → σ → Prop} {f : ε → ε'}
    (r : Res X σ ε α) : (r.mapError f).wp E Q ↔ r.wp E Q := by
  induction r with
  | ret | revert => rfl
  | call x s k ih =>
      cases hx : E.closed x with
      | true => simp only [mapError, wp_call_of_closed hx, ih]
      | false => simp only [mapError, wp_call_of_open hx, ih]

theorem Res.Writes.mapError {P : X.Ext → Prop} {step : σ → σ → Prop} {f : ε → ε'} {s₀ : σ}
    {r : Res X σ ε α} (h : r.Writes P step s₀) : (r.mapError f).Writes P step s₀ := by
  induction r generalizing s₀ with
  | ret a s => exact h
  | revert e => trivial
  | call x s k ih => exact ⟨h.1, fun rep s' => ih rep s' (h.2 rep s')⟩

theorem Writes.mapError {P : X.Ext → Prop} {step : σ → σ → Prop} {m : Prog X σ ε α} (f : ε → ε')
    (hm : Writes P step m) : Writes P step (m.mapError f) := ⟨fun s => (hm.run s).mapError⟩

@[simp] theorem wp_mapError_run {E : Rely X σ} {Q : α → σ → Prop} {f : ε → ε'} {m : Prog X σ ε α}
    {s : σ} : ((m.mapError f).run s).wp E Q ↔ (m.run s).wp E Q := Res.wp_mapError (m.run s)

theorem Within.mapError {E : Rely X σ} {m : Prog X σ ε α} (f : ε → ε') (hm : Within E m) :
    Within E (m.mapError f) := fun s hs => wp_mapError_run.mpr (hm s hs)

/-! ### Two contracts -/

/-- The calls of two contracts. -/
def Interface.sum (X Y : Interface) : Interface := ⟨X.Ext ⊕ Y.Ext, Sum.elim X.Reply Y.Reply⟩

/-- Two worlds, side by side: a closed call leaves the other contract alone. -/
def World.sum (W : World X σ) (W' : World Y τ) : World (X.sum Y) (σ × τ) where
  closed := Sum.elim W.closed W'.closed
  effect
    | .inl x, p, r, p' => W.effect x p.1 r p'.1 ∧ p'.2 = p.2
    | .inr y, p, r, p' => W'.effect y p.2 r p'.2 ∧ p'.1 = p.1
  answers
    | .inl x, r => W.answers x r
    | .inr y, r => W'.answers y r

/-- The invariants of two contracts with a relation between their storages, and both relies. -/
def Rely.joint (E : Rely X σ) (F : Rely Y τ) (J : σ × τ → Prop) : Rely (X.sum Y) (σ × τ) where
  toWorld := E.toWorld.sum F.toWorld
  inv p := E.inv p.1 ∧ F.inv p.2 ∧ J p
  rely p p' := E.rely p.1 p'.1 ∧ F.rely p.2 p'.2

theorem Rely.joint_closed {E : Rely X σ} {F : Rely Y τ} (hE : E.Closed) (hF : F.Closed)
    (J : σ × τ → Prop) : (E.joint F J).Closed where
  refl p := ⟨hE.refl p.1, hF.refl p.2⟩
  trans h h' := ⟨hE.trans h.1 h'.1, hF.trans h.2 h'.2⟩

/-- A call of the callee, in the system. -/
def callLeft (x : X.Ext) : Prog (X.sum Y) (σ × τ) ε (X.Reply x) := call (X := X.sum Y) (.inl x)

/-- A call of the caller that is not to the callee, in the system. -/
def callRight (y : Y.Ext) : Prog (X.sum Y) (σ × τ) ε (Y.Reply y) := call (X := X.sum Y) (.inr y)

/-- A program of the callee in the system. -/
def Prog.toLeft (m : Prog X σ ε α) : Prog (X.sum Y) (σ × τ) ε α := m.inside .fst callLeft

/-- A call of the caller in the system: the callee's program, if it is one. -/
def linkedCall (callee : (y : Y.Ext) → Option (Prog X σ ε (Y.Reply y))) (y : Y.Ext) :
    Prog (X.sum Y) (σ × τ) ε (Y.Reply y) :=
  match callee y with
  | none => callRight y
  | some m => m.toLeft

/-- A program of the caller in the system. -/
def Prog.linked (callee : (y : Y.Ext) → Option (Prog X σ ε (Y.Reply y))) (m : Prog Y τ ε α) :
    Prog (X.sum Y) (σ × τ) ε α := m.inside .snd (linkedCall callee)

/-- Two contracts as one: which calls of the caller are the callee's may depend on the entry that
makes them. -/
def Contract.link (C : Contract X σ ε) (D : Contract Y τ ε)
    (callee : D.Entry → (y : Y.Ext) → Option (Prog X σ ε (Y.Reply y))) :
    Contract (X.sum Y) (σ × τ) ε where
  Entry := C.Entry ⊕ D.Entry
  body
    | .inl e => (C.body e).toLeft
    | .inr e => (D.body e).linked (callee e)

/-- The environments of two contracts, as one. -/
def Environment.sum {η η' : Type} (U : Environment X σ η) (U' : Environment Y τ η') :
    Environment (X.sum Y) (σ × τ) (η ⊕ η') where
  toWorld := U.toWorld.sum U'.toWorld
  admits p := Sum.elim (U.admits p.1) (U'.admits p.2)

section

variable {E : Rely X σ} {F : Rely Y τ} {J : σ × τ → Prop} {p : σ × τ}

theorem wp_callLeft_closed {x : X.Ext} {Q : X.Reply x → σ × τ → Prop} (hx : E.closed x = true) :
    ((callLeft x : Prog (X.sum Y) (σ × τ) ε _).run p).wp (E.joint F J) Q ↔
      ∀ r p', E.effect x p.1 r p'.1 ∧ p'.2 = p.2 → Q r p' :=
  wp_call_closed (X := X.sum Y) (E := E.joint F J) (x := .inl x) hx p

theorem wp_callLeft_open {x : X.Ext} {Q : X.Reply x → σ × τ → Prop} (hx : E.closed x = false) :
    ((callLeft x : Prog (X.sum Y) (σ × τ) ε _).run p).wp (E.joint F J) Q ↔
      (E.joint F J).inv p ∧ ∀ r p', E.answers x r → (E.joint F J).inv p' →
        (E.joint F J).rely p p' → Q r p' :=
  wp_call_open (X := X.sum Y) (E := E.joint F J) (x := .inl x) hx p

theorem wp_callRight_closed {y : Y.Ext} {Q : Y.Reply y → σ × τ → Prop} (hy : F.closed y = true) :
    ((callRight y : Prog (X.sum Y) (σ × τ) ε _).run p).wp (E.joint F J) Q ↔
      ∀ r p', F.effect y p.2 r p'.2 ∧ p'.1 = p.1 → Q r p' :=
  wp_call_closed (X := X.sum Y) (E := E.joint F J) (x := .inr y) hy p

theorem wp_callRight_open {y : Y.Ext} {Q : Y.Reply y → σ × τ → Prop} (hy : F.closed y = false) :
    ((callRight y : Prog (X.sum Y) (σ × τ) ε _).run p).wp (E.joint F J) Q ↔
      (E.joint F J).inv p ∧ ∀ r p', F.answers y r → (E.joint F J).inv p' →
        (E.joint F J).rely p p' → Q r p' :=
  wp_call_open (X := X.sum Y) (E := E.joint F J) (x := .inr y) hy p

/-- What the system keeps while a program of the callee runs: the caller's invariant, what its
storage can have become, and the relation. -/
theorem handles_toLeft {f : σ → V} (hF : F.Closed)
    (hview : ∀ s s' t, f s' = f s → J (s, t) → J (s', t))
    (heff : ∀ x s r s', E.closed x = true → E.effect x s r s' → f s' = f s) (t : τ) :
    Handles (ε := ε) .fst callLeft (fun _ => True) E (E.joint F J) f
      fun p => F.inv p.2 ∧ F.rely t p.2 ∧ J p where
  view := by
    rintro ⟨s, t'⟩ s' hs ⟨hi, hr, hJ⟩
    exact ⟨hi, hr, hview s s' t' hs hJ⟩
  closed := by
    rintro x ⟨s, t'⟩ - hx ⟨hi, hr, hJ⟩
    refine (wp_callLeft_closed hx).mpr ?_
    rintro r ⟨s', t''⟩ ⟨he, rfl⟩
    exact ⟨he, hi, hr, hview s s' _ (heff x s r s' hx he) hJ⟩
  is_open := by
    rintro x ⟨s, t'⟩ - hx hs ⟨hi, hr, hJ⟩
    refine (wp_callLeft_open hx).mpr ⟨⟨hs, hi, hJ⟩, ?_⟩
    rintro r ⟨s', t''⟩ hrep ⟨hs', hi', hJ'⟩ ⟨hrs, hrt⟩
    exact ⟨⟨hrep, hs', hrs⟩, hi', hF.trans hr hrt, hJ'⟩

/-- A program of the callee meets its guarantee in the system. -/
theorem guarantee_toLeft {f : σ → V} (hF : F.Closed)
    (hview : ∀ s s' t, f s' = f s → J (s, t) → J (s', t))
    (heff : ∀ x s r s', E.closed x = true → E.effect x s r s' → f s' = f s)
    {m : Prog X σ ε Unit} (hm : Leaves (fun _ => True) f m)
    (hi : (E.joint F J).inv p) (hg : Guarantee E p.1 (m.run p.1)) :
    Guarantee (E.joint F J) p (m.toLeft.run p) := by
  have h := Res.wp_inside (handles_toLeft hF hview heff p.2) hg (p := p) (hm.run p.1)
    ⟨hi.2.1, hF.refl p.2, hi.2.2⟩
  exact Res.wp_mono (fun _ p' h => ⟨⟨h.1.1, h.2.1, h.2.2.2⟩, h.1.2, h.2.2.1⟩) h

variable {callee : (y : Y.Ext) → Option (Prog X σ ε (Y.Reply y))}

/-- What the system keeps while a program of the caller runs that does not call the callee. -/
theorem handles_linked {f : τ → V} (hE : E.Closed)
    (hview : ∀ s t t', f t' = f t → J (s, t) → J (s, t'))
    (heff : ∀ y t r t', F.closed y = true → F.effect y t r t' → f t' = f t) (s : σ) :
    Handles .snd (linkedCall callee) (fun y => callee y = none) F (E.joint F J) f
      fun p => E.inv p.1 ∧ E.rely s p.1 ∧ J p where
  view := by
    rintro ⟨s', t⟩ t' ht ⟨hi, hr, hJ⟩
    exact ⟨hi, hr, hview s' t t' ht hJ⟩
  closed := by
    rintro y ⟨s', t⟩ hnone hy ⟨hi, hr, hJ⟩
    rw [linkedCall, hnone]
    refine (wp_callRight_closed hy).mpr ?_
    rintro r ⟨s'', t'⟩ ⟨he, rfl⟩
    exact ⟨he, hi, hr, hview _ t t' (heff y t r t' hy he) hJ⟩
  is_open := by
    rintro y ⟨s', t⟩ hnone hy ht ⟨hi, hr, hJ⟩
    rw [linkedCall, hnone]
    refine (wp_callRight_open hy).mpr ⟨⟨hi, ht, hJ⟩, ?_⟩
    rintro r ⟨s'', t'⟩ hrep ⟨hi', ht', hJ'⟩ ⟨hrs, hrt⟩
    exact ⟨⟨hrep, ht', hrt⟩, hi', hE.trans hr hrs, hJ'⟩

/-- A program of the caller that does not call the callee meets its guarantee in the system. -/
theorem guarantee_linked {f : τ → V} (hE : E.Closed)
    (hview : ∀ s t t', f t' = f t → J (s, t) → J (s, t'))
    (heff : ∀ y t r t', F.closed y = true → F.effect y t r t' → f t' = f t)
    {m : Prog Y τ ε Unit} (hm : Leaves (fun y => callee y = none) f m)
    (hi : (E.joint F J).inv p) (hg : Guarantee F p.2 (m.run p.2)) :
    Guarantee (E.joint F J) p ((m.linked callee).run p) := by
  have h := Res.wp_inside (handles_linked hE hview heff p.1) hg (p := p) (hm.run p.2)
    ⟨hi.1, hE.refl p.1, hi.2.2⟩
  exact Res.wp_mono (fun _ p' h => ⟨⟨h.2.1, h.1.1, h.2.2.2⟩, h.2.2.1, h.1.2⟩) h

end

end Reentrant
