import Ntt.Lib.Resumption

/-!
# Traces of Re-entrant Programs

A weakest precondition speaks of the storage that a program leaves. This module speaks of the
calls that it makes: a program is run with every call answered one way or another, and what is
remembered of the calls is its **trace**. Nothing is assumed of the nested calls but what the
answering relation says, so that a fact about all traces holds whatever control does while it
is outside.

A run ends in an `Outcome`: it returns, it reverts, or it awaits the answer to a call. Every
prefix of a run that stops at a call is a run too.

## Main results

* `Res.ends_bind_returned`, `Res.ends_bind_reverted`, `Res.ends_bind_awaiting`: the trace of a
  sequence is that of its parts one after the other.
* `Res.always_ret`, `Res.always_call`: the rules for programs that cannot but return.
* `Res.ends_of_drive`: answering every call by a function is one run.
-/

namespace Reentrant

variable {X : Interface} {σ ε α β Λ : Type}

/-- How calls may be answered: the call and the storage at that moment, the reply and the
storage on return, and what is remembered of it. -/
abbrev Answering (X : Interface) (σ Λ : Type) : Type :=
  (x : X.Ext) → σ → X.Reply x → σ → Λ → Prop

/-- Where a run ends. -/
inductive Outcome (X : Interface) (σ ε α : Type) where
  | returned (a : α) (s : σ)
  | reverted (e : ε)
  | awaiting (x : X.Ext) (s : σ)

/-- The runs of what is left of a call, with what is remembered of the calls made. -/
inductive Res.Ends (L : Answering X σ Λ) : Res X σ ε α → List Λ → Outcome X σ ε α → Prop
  | ret (a : α) (s : σ) : Ends L (.ret a s) [] (.returned a s)
  | revert (e : ε) : Ends L (.revert e) [] (.reverted e)
  | await (x : X.Ext) (s : σ) (k : X.Reply x → σ → Res X σ ε α) :
      Ends L (.call x s k) [] (.awaiting x s)
  | call {x : X.Ext} {s s' : σ} {k : X.Reply x → σ → Res X σ ε α} {r : X.Reply x} {l : Λ}
      {ls : List Λ} {o : Outcome X σ ε α} :
      L x s r s' l → Ends L (k r s') ls o → Ends L (.call x s k) (l :: ls) o

namespace Res

variable {L : Answering X σ Λ} {ls : List Λ} {o : Outcome X σ ε α} {r : Res X σ ε α}
  {f : α → σ → Res X σ ε β}

@[simp] theorem ends_ret {a : α} {s : σ} :
    (ret a s : Res X σ ε α).Ends L ls o ↔ ls = [] ∧ o = .returned a s := by
  constructor
  · rintro ⟨⟩
    exact ⟨rfl, rfl⟩
  · rintro ⟨rfl, rfl⟩
    exact .ret a s

@[simp] theorem ends_revert {e : ε} :
    (revert e : Res X σ ε α).Ends L ls o ↔ ls = [] ∧ o = .reverted e := by
  constructor
  · rintro ⟨⟩
    exact ⟨rfl, rfl⟩
  · rintro ⟨rfl, rfl⟩
    exact .revert e

/-- A run of a call stops there, or goes on with an answer. -/
theorem ends_call {x : X.Ext} {s : σ} {k : X.Reply x → σ → Res X σ ε α} :
    (call x s k).Ends L ls o ↔ (ls = [] ∧ o = .awaiting x s) ∨
      ∃ r s' l ls', L x s r s' l ∧ (k r s').Ends L ls' o ∧ ls = l :: ls' := by
  constructor
  · rintro (_ | _ | _ | ⟨hl, h⟩)
    · exact .inl ⟨rfl, rfl⟩
    · exact .inr ⟨_, _, _, _, hl, h, rfl⟩
  · rintro (⟨rfl, rfl⟩ | ⟨r, s', l, ls', hl, h, rfl⟩)
    · exact .await x s k
    · exact .call hl h

/-- One answer is enough for a run to exist. -/
theorem exists_ends_call {x : X.Ext} {s : σ} {k : X.Reply x → σ → Res X σ ε α} {r : X.Reply x}
    {l : Λ} (s' : σ) (hl : L x s r s' l) (h : ∃ ls, (k r s').Ends L ls o) :
    ∃ ls, (call x s k).Ends L ls o := by
  obtain ⟨ls, h⟩ := h
  exact ⟨l :: ls, .call hl h⟩

/-- Returning from a sequence. -/
theorem ends_bind_returned {b : β} {t : σ} : (r.bind f).Ends L ls (.returned b t) ↔
    ∃ ls₁ a s ls₂, r.Ends L ls₁ (.returned a s) ∧ (f a s).Ends L ls₂ (.returned b t) ∧
      ls = ls₁ ++ ls₂ := by
  induction r generalizing ls with
  | ret a s => simp
  | revert e => simp
  | call x s k ih =>
      simp only [bind, ends_call, ih, reduceCtorEq, and_false, false_or]
      constructor
      · rintro ⟨r, s', l, ls', hl, ⟨ls₁, a, t', ls₂, h₁, h₂, rfl⟩, rfl⟩
        exact ⟨l :: ls₁, a, t', ls₂, ⟨r, s', l, ls₁, hl, h₁, rfl⟩, h₂, rfl⟩
      · rintro ⟨_, a, t', ls₂, ⟨r, s', l, ls₁, hl, h₁, rfl⟩, h₂, rfl⟩
        exact ⟨r, s', l, ls₁ ++ ls₂, hl, ⟨ls₁, a, t', ls₂, h₁, h₂, rfl⟩, rfl⟩

/-- Reverting in a sequence. -/
theorem ends_bind_reverted {e : ε} : (r.bind f).Ends L ls (.reverted e) ↔
    r.Ends L ls (.reverted e) ∨ ∃ ls₁ a s ls₂, r.Ends L ls₁ (.returned a s) ∧
      (f a s).Ends L ls₂ (.reverted e) ∧ ls = ls₁ ++ ls₂ := by
  induction r generalizing ls with
  | ret a s => simp
  | revert e' => simp
  | call x s k ih =>
      simp only [bind, ends_call, ih, reduceCtorEq, and_false, false_or]
      constructor
      · rintro ⟨r, s', l, ls', hl, h | ⟨ls₁, a, t, ls₂, h₁, h₂, rfl⟩, rfl⟩
        · exact .inl ⟨r, s', l, ls', hl, h, rfl⟩
        · exact .inr ⟨l :: ls₁, a, t, ls₂, ⟨r, s', l, ls₁, hl, h₁, rfl⟩, h₂, rfl⟩
      · rintro (⟨r, s', l, ls', hl, h, rfl⟩ | ⟨_, a, t, ls₂, ⟨r, s', l, ls₁, hl, h₁, rfl⟩, h₂, rfl⟩)
        · exact ⟨r, s', l, ls', hl, .inl h, rfl⟩
        · exact ⟨r, s', l, ls₁ ++ ls₂, hl, .inr ⟨ls₁, a, t, ls₂, h₁, h₂, rfl⟩, rfl⟩

/-- Waiting for a call in a sequence. -/
theorem ends_bind_awaiting {x : X.Ext} {t : σ} : (r.bind f).Ends L ls (.awaiting x t) ↔
    r.Ends L ls (.awaiting x t) ∨ ∃ ls₁ a s ls₂, r.Ends L ls₁ (.returned a s) ∧
      (f a s).Ends L ls₂ (.awaiting x t) ∧ ls = ls₁ ++ ls₂ := by
  induction r generalizing ls with
  | ret a s => simp
  | revert e' => simp
  | call y s k ih =>
      simp only [bind, ends_call, ih, Outcome.awaiting.injEq]
      constructor
      · rintro (⟨rfl, rfl, rfl⟩ | ⟨r, s', l, ls', hl, h | ⟨ls₁, a, t, ls₂, h₁, h₂, rfl⟩, rfl⟩)
        · exact .inl (.inl ⟨rfl, rfl, rfl⟩)
        · exact .inl (.inr ⟨r, s', l, ls', hl, h, rfl⟩)
        · exact .inr ⟨l :: ls₁, a, t, ls₂, .inr ⟨r, s', l, ls₁, hl, h₁, rfl⟩, h₂, rfl⟩
      · rintro ((⟨rfl, rfl, rfl⟩ | ⟨r, s', l, ls', hl, h, rfl⟩) |
          ⟨_, a, t, ls₂, (⟨-, h⟩ | ⟨r, s', l, ls₁, hl, h₁, rfl⟩), h₂, rfl⟩)
        · exact .inl ⟨rfl, rfl, rfl⟩
        · exact .inr ⟨r, s', l, ls', hl, .inl h, rfl⟩
        · cases h
        · exact .inr ⟨r, s', l, ls₁ ++ ls₂, hl, .inr ⟨ls₁, a, t, ls₂, h₁, h₂, rfl⟩, rfl⟩

end Res

/-! ### The primitives -/

section

variable {L : Answering X σ Λ} {ls : List Λ} {s : σ}

@[simp] theorem ends_get {o : Outcome X σ ε σ} :
    ((get : Prog X σ ε σ).run s).Ends L ls o ↔ ls = [] ∧ o = .returned s s :=
  Res.ends_ret

@[simp] theorem ends_modify {g : σ → σ} {o : Outcome X σ ε Unit} :
    ((modify g : Prog X σ ε Unit).run s).Ends L ls o ↔ ls = [] ∧ o = .returned () (g s) :=
  Res.ends_ret

@[simp] theorem ends_fail {e : ε} {o : Outcome X σ ε α} :
    ((revert e : Prog X σ ε α).run s).Ends L ls o ↔ ls = [] ∧ o = .reverted e :=
  Res.ends_revert

@[simp] theorem ends_revertIf {c : Prop} [Decidable c] {e : ε} {o : Outcome X σ ε Unit} :
    ((revertIf c e : Prog X σ ε Unit).run s).Ends L ls o ↔
      ls = [] ∧ (c ∧ o = .reverted e ∨ ¬ c ∧ o = .returned () s) := by
  by_cases h : c <;> simp [run_revertIf, h]

@[simp] theorem ends_liftExcept {x : Except ε α} {o : Outcome X σ ε α} :
    ((liftExcept x : Prog X σ ε α).run s).Ends L ls o ↔
      ls = [] ∧ ((∃ e, x = .error e ∧ o = .reverted e) ∨ ∃ a, x = .ok a ∧ o = .returned a s) := by
  cases x with
  | ok a => simp [run_liftExcept_ok]
  | error e => simp [run_liftExcept_error]

/-- A check in a sequence: it reverts, or the sequence goes on. -/
theorem ends_bind_revertIf {c : Prop} [Decidable c] {e : ε} {f : Unit → σ → Res X σ ε β}
    {o : Outcome X σ ε β} : (((revertIf c e : Prog X σ ε Unit).run s).bind f).Ends L ls o ↔
      c ∧ ls = [] ∧ o = .reverted e ∨ ¬ c ∧ (f () s).Ends L ls o := by
  by_cases h : c <;> simp [run_revertIf, h]

/-- A computation that can fail in a sequence. -/
theorem ends_bind_liftExcept {x : Except ε α} {f : α → σ → Res X σ ε β} {o : Outcome X σ ε β} :
    (((liftExcept x : Prog X σ ε α).run s).bind f).Ends L ls o ↔
      (∃ e, x = .error e ∧ ls = [] ∧ o = .reverted e) ∨
        ∃ a, x = .ok a ∧ (f a s).Ends L ls o := by
  cases x with
  | ok a => simp [run_liftExcept_ok]
  | error e => simp [run_liftExcept_error]

/-- A single call that returns. -/
@[simp] theorem ends_ext_returned {x : X.Ext} {r : X.Reply x} {t : σ} :
    ((call x : Prog X σ ε _).run s).Ends L ls (.returned r t) ↔ ∃ l, L x s r t l ∧ ls = [l] := by
  change (Res.call x s fun r s' => .ret r s').Ends L ls _ ↔ _
  simp only [Res.ends_call, Res.ends_ret, reduceCtorEq, and_false, false_or,
    Outcome.returned.injEq]
  constructor
  · rintro ⟨r, s', l, ls', hl, ⟨rfl, rfl, rfl⟩, rfl⟩
    exact ⟨l, hl, rfl⟩
  · rintro ⟨l, hl, rfl⟩
    exact ⟨r, t, l, [], hl, ⟨rfl, rfl, rfl⟩, rfl⟩

/-- A single call does not revert by itself. -/
@[simp] theorem not_ends_ext_reverted {x : X.Ext} {e : ε} :
    ¬ ((call x : Prog X σ ε _).run s).Ends L ls (.reverted e) := by
  change ¬ (Res.call x s fun r s' => .ret r s').Ends L ls _
  simp [Res.ends_call]

/-- A single call is what is waited for. -/
@[simp] theorem ends_ext_awaiting {x y : X.Ext} {t : σ} :
    ((call x : Prog X σ ε _).run s).Ends L ls (.awaiting y t) ↔ ls = [] ∧ y = x ∧ t = s := by
  change (Res.call x s fun r s' => .ret r s').Ends L ls _ ↔ _
  simp [Res.ends_call]

/-- The runs of a conditional. -/
theorem Res.ends_ite {c : Prop} [Decidable c] {r r' : Res X σ ε α} {o : Outcome X σ ε α} :
    (if c then r else r').Ends L ls o ↔ c ∧ r.Ends L ls o ∨ ¬ c ∧ r'.Ends L ls o := by
  by_cases h : c <;> simp [h]

end

/-- What every answer leaves behind is all that a trace holds. -/
theorem Res.Ends.forall_mem {L : Answering X σ Λ} {P : Λ → Prop}
    (hL : ∀ x s r s' l, L x s r s' l → P l) {r : Res X σ ε α} {ls : List Λ}
    {o : Outcome X σ ε α} (h : r.Ends L ls o) : ∀ l ∈ ls, P l := by
  induction h with
  | ret | revert | await => exact fun _ hl => absurd hl List.not_mem_nil
  | call hl _ ih => exact List.forall_mem_cons.mpr ⟨hL _ _ _ _ _ hl, ih⟩

/-! ### Events -/

/-- A call with its reply. -/
structure Event (X : Interface) where
  ext : X.Ext
  reply : X.Reply ext

/-- Any answer to any call, whatever the nested calls do; the call and its reply are
remembered. -/
def anyAnswer : Answering X σ (Event X) := fun x _ r _ e => e = ⟨x, r⟩

/-! ### Programs all of whose calls are of one kind -/

/-- What a run that returns remembers of each call has a property. -/
def Only (L : Answering X σ Λ) (P : Λ → Prop) (m : Prog X σ ε α) : Prop :=
  ∀ s ls a t, (m.run s).Ends L ls (.returned a t) → ∀ l ∈ ls, P l

namespace Only

variable {L : Answering X σ Λ} {P : Λ → Prop} {m m' : Prog X σ ε α} {f : α → Prog X σ ε β}

theorem bind (hm : Only L P m) (hf : ∀ a, Only L P (f a)) : Only L P (m >>= f) := by
  intro s ls b t h
  rw [run_bind, Res.ends_bind_returned] at h
  obtain ⟨ls₁, a, s', ls₂, h₁, h₂, rfl⟩ := h
  intro l hl
  rcases List.mem_append.mp hl with hl | hl
  · exact hm s ls₁ a s' h₁ l hl
  · exact hf a s' ls₂ b t h₂ l hl

theorem pure (a : α) : Only L P (pure a : Prog X σ ε α) := by
  intro s ls b t h
  obtain ⟨rfl, -⟩ := Res.ends_ret.mp h
  exact fun _ hl => absurd hl List.not_mem_nil

theorem get : Only L P (Reentrant.get : Prog X σ ε σ) := by
  intro s ls b t h
  obtain ⟨rfl, -⟩ := ends_get.mp h
  exact fun _ hl => absurd hl List.not_mem_nil

theorem modify (g : σ → σ) : Only L P (Reentrant.modify g : Prog X σ ε Unit) := by
  intro s ls b t h
  obtain ⟨rfl, -⟩ := ends_modify.mp h
  exact fun _ hl => absurd hl List.not_mem_nil

theorem revert (e : ε) : Only L P (Reentrant.revert e : Prog X σ ε α) := by
  intro s ls b t h
  obtain ⟨-, h⟩ := ends_fail.mp h
  cases h

theorem revertIf (c : Prop) [Decidable c] (e : ε) :
    Only L P (Reentrant.revertIf c e : Prog X σ ε Unit) := by
  intro s ls b t h
  obtain ⟨rfl, -⟩ := ends_revertIf.mp h
  exact fun _ hl => absurd hl List.not_mem_nil

theorem liftExcept (x : Except ε α) : Only L P (Reentrant.liftExcept x : Prog X σ ε α) := by
  intro s ls b t h
  obtain ⟨rfl, -⟩ := ends_liftExcept.mp h
  exact fun _ hl => absurd hl List.not_mem_nil

theorem ext {x : X.Ext} (hx : ∀ s r s' l, L x s r s' l → P l) :
    Only L P (call x : Prog X σ ε (X.Reply x)) := by
  intro s ls r t h
  obtain ⟨l, hl, rfl⟩ := ends_ext_returned.mp h
  intro l' hl'
  obtain rfl := List.mem_singleton.mp hl'
  exact hx s r t _ hl

theorem ite {c : Prop} [Decidable c] (hm : Only L P m) (hm' : Only L P m') :
    Only L P (if c then m else m') := by
  split
  · exact hm
  · exact hm'

end Only

/-! ### Programs that cannot but return -/

/-- Every run returns, with a trace and a result as stated. -/
def Res.Always (L : Answering X σ Λ) (r : Res X σ ε α) (Q : List Λ → α → σ → Prop) : Prop :=
  (∀ ls e, ¬ r.Ends L ls (.reverted e)) ∧ ∀ ls a s, r.Ends L ls (.returned a s) → Q ls a s

namespace Res

variable {L : Answering X σ Λ} {Q : List Λ → α → σ → Prop}

@[simp] theorem always_ret {a : α} {s : σ} :
    (ret a s : Res X σ ε α).Always L Q ↔ Q [] a s := by
  constructor
  · exact fun h => h.2 [] a s (.ret a s)
  · intro h
    refine ⟨fun ls e he => ?_, fun ls b t hb => ?_⟩
    · obtain ⟨-, h'⟩ := ends_ret.mp he
      cases h'
    · obtain ⟨rfl, h'⟩ := ends_ret.mp hb
      obtain ⟨rfl, rfl⟩ := Outcome.returned.inj h'
      exact h

@[simp] theorem not_always_revert {e : ε} : ¬ (revert e : Res X σ ε α).Always L Q :=
  fun h => h.1 [] e (.revert e)

/-- A call always returns if it does with every answer. -/
theorem always_call {x : X.Ext} {s : σ} {k : X.Reply x → σ → Res X σ ε α} :
    (call x s k).Always L Q ↔
      ∀ r s' l, L x s r s' l → (k r s').Always L fun ls => Q (l :: ls) := by
  constructor
  · rintro ⟨hrev, hret⟩ r s' l hl
    exact ⟨fun ls e h => hrev _ e (.call hl h), fun ls a t h => hret _ a t (.call hl h)⟩
  · intro h
    constructor
    · intro ls e he
      obtain ⟨-, h'⟩ | ⟨r, s', l, ls', hl, hk, rfl⟩ := ends_call.mp he
      · cases h'
      · exact (h r s' l hl).1 ls' e hk
    · intro ls a t ha
      obtain ⟨-, h'⟩ | ⟨r, s', l, ls', hl, hk, rfl⟩ := ends_call.mp ha
      · cases h'
      · exact (h r s' l hl).2 ls' a t hk

end Res

/-! ### Answering by a function -/

/-- Calls answered one by one, by a function whose answers are admitted, are a run. -/
theorem Res.ends_of_drive {κ : Type} {L : Answering X σ Λ}
    {o : (x : X.Ext) → σ → κ → Except ε (X.Reply x × σ × κ)}
    (ho : ∀ x s k r s' k', o x s k = .ok (r, s', k') → ∃ l, L x s r s' l) {r : Res X σ ε α}
    {k k' : κ} {a : α} {s' : σ} (h : r.drive o k = .ok (a, s', k')) :
    ∃ ls, r.Ends L ls (.returned a s') := by
  induction r generalizing k with
  | ret b s =>
      cases h
      exact ⟨[], .ret a s'⟩
  | revert e => cases h
  | call x s f ih =>
      rw [drive] at h
      split at h
      · rename_i rep s₁ k₁ hrep
        obtain ⟨l, hl⟩ := ho x s k rep s₁ k₁ hrep
        obtain ⟨ls, hls⟩ := ih rep s₁ h
        exact ⟨l :: ls, .call hl hls⟩
      · cases h

end Reentrant
