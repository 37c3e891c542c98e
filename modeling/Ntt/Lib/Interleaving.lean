import Mathlib.Algebra.Order.BigOperators.Group.List
import Mathlib.Data.List.Basic
import Mathlib.Tactic.Abel
import Ntt.Lib.Transducer

/-!
# Processes that Share a State

A process does one atomic action after another on a state that it shares with others. Between two
of its actions the others act, and it may crash at any point. A `Proc` is such a program; a
`System` says which tasks there are, what program each runs, under which session lock it runs, and
what else may happen to the state. A lock is held from the start of its task to the end, or until
the session that holds it is lost, of which the task does not learn.

## Reasoning

`Proc.Obeys` says of a program that each of its actions is done where a `Contract` allows it, as
long as the others change the state within the contract's `rely`. What a program knows of the
state it learns from replies and keeps through what the others do.

* `Proc.obeys_done`, `Proc.obeys_act`, `Proc.obeys_perform`, `Proc.obeys_bind`, `Proc.obeys_forM`,
  `Proc.Obeys.frame`: the rules for programs;
* `Disciplined`: the contracts of a system fit together;
* `Disciplined.sound`, `Sound.guard`, `Sound.final`: then, along every run, each action is done and
  each process ends where its contract allows it;
* `Disciplined.always`: the induction rule for what holds in every configuration of a run;
* `Config.total_set`, `Config.total_concat`, `Sound.total_le_one`: sums over the processes.
-/

namespace Interleaving

/-- The atomic actions on a shared state. What an action leaves open, such as what a node answers,
is its choice; an action does not happen in the way of a choice that it does not admit. -/
structure Atomics (σ : Type) where
  Act : Type
  Reply : Act → Type
  Choice : Type
  perform : (a : Act) → Choice → σ → Option (Reply a × σ)

variable {σ α β : Type} {A : Atomics σ}

/-- What is left of a program: nothing, or an action and what follows on its reply. -/
inductive Proc (A : Atomics σ) (α : Type) : Type where
  | done (a : α)
  | act (a : A.Act) (k : A.Reply a → Proc A α)

/-- What a process has done so far: its actions with their replies, the last one first. -/
abbrev Past (A : Atomics σ) : Type := List (Σ a : A.Act, A.Reply a)

/-- What a program may assume of the others, and where it may do what. -/
structure Contract (A : Atomics σ) (inv : σ → Prop) where
  /-- Bounds what the others do to the state. -/
  rely : σ → σ → Prop
  /-- The choices that are made for an action. -/
  allows : A.Act → A.Choice → σ → Prop
  /-- Where a process with this past may do this action. -/
  guard : Past A → A.Act → σ → Prop
  /-- Where a process with this past may end. -/
  final : Past A → σ → Prop
  rely_refl : ∀ s, rely s s
  rely_trans : ∀ {s t u}, rely s t → rely t u → rely s u

namespace Proc

/-- A program followed by another. -/
def bind : Proc A α → (α → Proc A β) → Proc A β
  | .done a, f => f a
  | .act a k, f => .act a fun r => (k r).bind f

instance : Monad (Proc A) where
  pure := .done
  bind := bind

/-- The program of one action. -/
def perform (a : A.Act) : Proc A (A.Reply a) := .act a .done

/-- There is something left to do. -/
def live : Proc A α → Bool
  | .done _ => false
  | .act _ _ => true

@[simp] theorem bind_eq (p : Proc A α) (f : α → Proc A β) : p >>= f = p.bind f := rfl

@[simp] theorem pure_eq (a : α) : (pure a : Proc A α) = .done a := rfl

@[simp] theorem done_bind (a : α) (f : α → Proc A β) : (Proc.done a : Proc A α).bind f = f a := rfl

@[simp] theorem perform_bind (a : A.Act) (f : A.Reply a → Proc A β) :
    (perform a).bind f = .act a f := rfl

/-- Every action of the program is done where the contract allows it, and it ends with the
postcondition, whatever the others do within the rely. -/
def Obeys {I : σ → Prop} (C : Contract A I) (Q : α → Past A → σ → Prop) :
    Proc A α → Past A → σ → Prop
  | .done a, h, s => ∀ s', I s' → C.rely s s' → Q a h s'
  | .act a k, h, s => ∀ s', I s' → C.rely s s' → C.guard h a s' ∧
      ∀ c r s'', C.allows a c s' → A.perform a c s' = some (r, s'') → I s'' →
        (k r).Obeys C Q (⟨a, r⟩ :: h) s''

section

variable {I : σ → Prop} {C : Contract A I} {Q Q' : α → Past A → σ → Prop} {h : Past A} {s s' : σ}

/-- What the others do leaves a program obedient. -/
theorem Obeys.rely {p : Proc A α} (hp : p.Obeys C Q h s) (hs : C.rely s s') : p.Obeys C Q h s' := by
  cases p with
  | done a => exact fun t hI ht => hp t hI (C.rely_trans hs ht)
  | act a k => exact fun t hI ht => hp t hI (C.rely_trans hs ht)

/-- The postcondition can be weakened. -/
theorem Obeys.mono {p : Proc A α} (hp : p.Obeys C Q h s) (hQ : ∀ a h s, I s → Q a h s → Q' a h s) :
    p.Obeys C Q' h s := by
  induction p generalizing h s with
  | done a => exact fun t hI ht => hQ a h t hI (hp t hI ht)
  | act a k ih =>
      intro t hI ht
      obtain ⟨hg, hk⟩ := hp t hI ht
      exact ⟨hg, fun c r u ha hu hI' => ih r (hk c r u ha hu hI')⟩

/-- Sequencing: the continuation's precondition is the first part's postcondition. -/
theorem obeys_bind {Q : β → Past A → σ → Prop} {p : Proc A α} {f : α → Proc A β}
    (hp : p.Obeys C (fun a h s => (f a).Obeys C Q h s) h s) (hI : I s) :
    (p.bind f).Obeys C Q h s := by
  induction p generalizing h s with
  | done a => exact hp s hI (C.rely_refl s)
  | act a k ih =>
      intro t hIt ht
      obtain ⟨hg, hk⟩ := hp t hIt ht
      exact ⟨hg, fun c r u ha hu hIu => ih r (hk c r u ha hu hIu) hIu⟩

/-- A program that is done, with a postcondition that the others keep. -/
theorem obeys_done {a : α} (hQ : Q a h s) (hst : ∀ s', I s' → C.rely s s' → Q a h s → Q a h s') :
    (Proc.done a : Proc A α).Obeys C Q h s := fun s' hI hs => hst s' hI hs hQ

/-- An action: what is known before it is kept by the others, and gives the guard and what is
needed after each reply. -/
theorem obeys_act {P : σ → Prop} {a : A.Act} {k : A.Reply a → Proc A α} (hP : P s)
    (hst : ∀ s', I s' → C.rely s s' → P s → P s')
    (hg : ∀ s, I s → P s → C.guard h a s)
    (hk : ∀ s c r s', I s → P s → C.allows a c s → A.perform a c s = some (r, s') → I s' →
      (k r).Obeys C Q (⟨a, r⟩ :: h) s') :
    (Proc.act a k).Obeys C Q h s := by
  intro t hI ht
  have hPt := hst t hI ht hP
  exact ⟨hg t hI hPt, fun c r u ha hu hIu => hk t c r u hI hPt ha hu hIu⟩

/-- An action followed by a program. -/
theorem obeys_perform {Q : β → Past A → σ → Prop} {P : σ → Prop} {a : A.Act}
    {f : A.Reply a → Proc A β} (hP : P s) (hst : ∀ s', I s' → C.rely s s' → P s → P s')
    (hg : ∀ s, I s → P s → C.guard h a s)
    (hk : ∀ s c r s', I s → P s → C.allows a c s → A.perform a c s = some (r, s') → I s' →
      (f r).Obeys C Q (⟨a, r⟩ :: h) s') :
    (perform a >>= f).Obeys C Q h s :=
  obeys_act hP hst hg hk

/-- What nobody changes still holds at the end. -/
theorem Obeys.frame {F : σ → Prop} {p : Proc A α}
    (hst : ∀ s s', I s' → C.rely s s' → F s → F s')
    (hact : ∀ s a c r s', A.perform a c s = some (r, s') → F s → F s')
    (hp : p.Obeys C Q h s) (hF : F s) : p.Obeys C (fun a h s => Q a h s ∧ F s) h s := by
  induction p generalizing h s with
  | done a => exact fun t hI ht => ⟨hp t hI ht, hst s t hI ht hF⟩
  | act a k ih =>
      intro t hI ht
      obtain ⟨hg, hk⟩ := hp t hI ht
      refine ⟨hg, fun c r u ha hu hI' => ih r (hk c r u ha hu hI') ?_⟩
      exact hact t a c r u hu (hst s t hI ht hF)

/-- A loop over a list: each round starts from what the one before leaves. -/
theorem obeys_forM {P : Past A → σ → Prop} {xs : List β} {f : β → Proc A PUnit}
    (hst : ∀ h s s', I s' → C.rely s s' → P h s → P h s')
    (hf : ∀ x ∈ xs, ∀ h s, I s → P h s → (f x).Obeys C (fun _ h s => P h s) h s)
    {h : Past A} {s : σ} (hI : I s) (hP : P h s) :
    (xs.forM f).Obeys C (fun _ h s => P h s) h s := by
  induction xs generalizing h s with
  | nil => exact obeys_done hP fun s' hI' hs => hst h s s' hI' hs
  | cons x xs ih =>
      refine obeys_bind ((hf x List.mem_cons_self h s hI hP).mono ?_) hI
      intro _ h' s' hI' hP'
      exact ih (fun y hy => hf y (List.mem_cons_of_mem _ hy)) hI' hP'

end

end Proc

/-! ### Systems -/

/-- A system of processes: the tasks, their programs and their locks, and what else happens to the
state. -/
structure System (σ : Type) extends Atomics σ where
  Task : Type
  Lock : Type
  [decLock : DecidableEq Lock]
  body : Task → Proc toAtomics Unit
  /-- The session lock under which a task runs; without it, the task is not started. -/
  lock : Task → Option Lock
  /-- What starting a task does to the state, if it can be started. -/
  start : Task → σ → Option σ
  Env : Type
  env : Env → σ → Option σ

/-- A process of a system. -/
structure Thread (S : System σ) where
  task : S.Task
  /-- The session of its lock is alive. -/
  held : Bool
  /-- It has not crashed. -/
  alive : Bool
  left : Proc S.toAtomics Unit
  past : Past S.toAtomics

/-- The shared state with the processes, ended ones included. -/
structure Config (S : System σ) where
  state : σ
  threads : List (Thread S)

/-- What may happen next. -/
inductive Event (S : System σ) where
  | start (t : S.Task)
  | act (i : ℕ) (c : S.Choice)
  | crash (i : ℕ)
  | lose (i : ℕ)
  | env (e : S.Env)

variable {S : System σ}

/-- A process at the start of its task. -/
def Thread.new (t : S.Task) : Thread S := ⟨t, true, true, S.body t, []⟩

/-- A process after an action. -/
def Thread.after (t : Thread S) (a : S.Act) (r : S.Reply a) (k : Proc S.toAtomics Unit) : Thread S :=
  { t with left := k, past := ⟨a, r⟩ :: t.past }

/-- It has not crashed and is not done. -/
def Thread.live (t : Thread S) : Bool := t.alive && t.left.live

/-- The process holds the lock. -/
def Thread.holds (t : Thread S) (l : S.Lock) : Prop :=
  t.live = true ∧ t.held = true ∧ S.lock t.task = some l

instance (t : Thread S) (l : S.Lock) : Decidable (t.holds l) :=
  have := S.decLock
  inferInstanceAs (Decidable (_ ∧ _ ∧ _))

/-- No process holds the lock of the task. -/
def Config.free (c : Config S) (t : S.Task) : Bool :=
  match S.lock t with
  | none => true
  | some l => c.threads.all fun t' => ¬ t'.holds l

/-- What an event does, if it can happen. -/
def step (c : Config S) : Event S → Option (Config S)
  | .start t =>
      if c.free t then
        (S.start t c.state).map fun s => ⟨s, c.threads ++ [Thread.new t]⟩
      else none
  | .act i ch =>
      match c.threads[i]? with
      | none => none
      | some t =>
          match t.alive, t.left with
          | true, .act a k =>
              (S.perform a ch c.state).map fun p => ⟨p.2, c.threads.set i (t.after a p.1 (k p.1))⟩
          | _, _ => none
  | .crash i =>
      (c.threads[i]?).map fun t => { c with threads := c.threads.set i { t with alive := false } }
  | .lose i =>
      (c.threads[i]?).map fun t => { c with threads := c.threads.set i { t with held := false } }
  | .env e => (S.env e c.state).map fun s => { c with state := s }

/-- The machine of the events of a system. An event that cannot happen changes nothing. -/
def machine (S : System σ) : Transducer (Config S) (Event S) Unit where
  next c e := (step c e).getD c
  out _ _ := ()

/-- The steps of a system. -/
inductive Step (c : Config S) : Event S → Config S → Prop
  | start {t : S.Task} {s' : σ} (hfree : ∀ l, S.lock t = some l → ∀ t' ∈ c.threads, ¬ t'.holds l)
      (hs : S.start t c.state = some s') :
      Step c (.start t) ⟨s', c.threads ++ [Thread.new t]⟩
  | act {i : ℕ} {t : Thread S} {a : S.Act} {k : S.Reply a → Proc S.toAtomics Unit} {ch : S.Choice}
      {r : S.Reply a} {s' : σ} (ht : c.threads[i]? = some t) (hv : t.alive = true)
      (ha : t.left = .act a k) (hp : S.perform a ch c.state = some (r, s')) :
      Step c (.act i ch) ⟨s', c.threads.set i (t.after a r (k r))⟩
  | crash {i : ℕ} {t : Thread S} (ht : c.threads[i]? = some t) :
      Step c (.crash i) { c with threads := c.threads.set i { t with alive := false } }
  | lose {i : ℕ} {t : Thread S} (ht : c.threads[i]? = some t) :
      Step c (.lose i) { c with threads := c.threads.set i { t with held := false } }
  | env {e : S.Env} {s' : σ} (hs : S.env e c.state = some s') :
      Step c (.env e) { c with state := s' }

theorem Config.free_spec {c : Config S} {t : S.Task} (h : c.free t = true) (l : S.Lock)
    (hl : S.lock t = some l) : ∀ t' ∈ c.threads, ¬ t'.holds l := by
  intro t' ht'
  simp only [Config.free, hl, List.all_eq_true] at h
  simpa using h t' ht'

theorem Step.of_step {c c' : Config S} {e : Event S} (h : step c e = some c') : Step c e c' := by
  cases e with
  | start t =>
      simp only [step] at h
      split at h
      · rename_i hfree
        obtain ⟨s', hs, rfl⟩ := Option.map_eq_some_iff.mp h
        exact .start (Config.free_spec hfree) hs
      · cases h
  | act i ch =>
      simp only [step] at h
      split at h
      · cases h
      · rename_i t ht
        split at h
        · rename_i a k hv ha
          obtain ⟨⟨r, s'⟩, hp, rfl⟩ := Option.map_eq_some_iff.mp h
          exact .act ht hv ha hp
        · cases h
  | crash i =>
      obtain ⟨t, ht, rfl⟩ := Option.map_eq_some_iff.mp h
      exact .crash ht
  | lose i =>
      obtain ⟨t, ht, rfl⟩ := Option.map_eq_some_iff.mp h
      exact .lose ht
  | env e =>
      obtain ⟨s', hs, rfl⟩ := Option.map_eq_some_iff.mp h
      exact .env hs

/-- An event does nothing or is a step. -/
theorem next_cases (c : Config S) (e : Event S) :
    (machine S).next c e = c ∨ Step c e ((machine S).next c e) := by
  cases h : step c e with
  | none => exact .inl (by simp only [machine, h, Option.getD_none])
  | some c' =>
      refine .inr ?_
      simp only [machine, h, Option.getD_some]
      exact .of_step h

/-! ### Discipline -/

/-- The contracts of a system fit together in the runs whose events meet a condition: programs obey
them, and what a process does within its contract is within the rely of the others, unless they
exclude each other by a lock whose sessions are kept. -/
structure Disciplined (S : System σ) {I : σ → Prop} (C : S.Task → Contract S.toAtomics I)
    (kept : S.Lock → Prop) (cond : Config S → Event S → Prop) : Prop where
  body : ∀ {t : S.Task} {s s' : σ}, S.start t s = some s' → I s → I s' →
    (S.body t).Obeys (C t) (fun _ => (C t).final) [] s'
  start : ∀ {t : S.Task} {s s' : σ}, S.start t s = some s' → I s → I s' ∧ ∀ t', (C t').rely s s'
  env : ∀ {e : S.Env} {s s' : σ}, S.env e s = some s' → I s → I s' ∧ ∀ t', (C t').rely s s'
  lose : ∀ {c : Config S} {i : ℕ} {t : Thread S} {l : S.Lock}, cond c (.lose i) →
    c.threads[i]? = some t → S.lock t.task = some l → ¬ kept l
  act : ∀ {c : Config S} {i : ℕ} {ch : S.Choice} {t : Thread S} {a : S.Act}
    {k : S.Reply a → Proc S.toAtomics Unit} {r : S.Reply a} {s' : σ},
    c.threads[i]? = some t → t.alive = true → t.left = .act a k → cond c (.act i ch) →
    I c.state → (C t.task).guard t.past a c.state →
    S.perform a ch c.state = some (r, s') → (C t.task).allows a ch c.state ∧ I s' ∧
      ∀ (j : ℕ) (t' : Thread S), c.threads[j]? = some t' → t'.live = true →
        (∀ l, kept l → S.lock t.task = some l → S.lock t'.task ≠ some l) →
        (C t'.task).rely c.state s'

/-- Contracts that fit together in some runs do so in fewer. -/
theorem Disciplined.mono {I : σ → Prop} {C : S.Task → Contract S.toAtomics I} {kept : S.Lock → Prop}
    {cond cond' : Config S → Event S → Prop} (hD : Disciplined S C kept cond)
    (h : ∀ c e, cond' c e → cond c e) : Disciplined S C kept cond' where
  body := hD.body
  start := hD.start
  env := hD.env
  lose hc := hD.lose (h _ _ hc)
  act ht hv ha hc := hD.act ht hv ha (h _ _ hc)

/-- The invariant holds, every process obeys what is left of its contract, and kept locks are
held by one process each. -/
structure Sound {I : σ → Prop} (C : S.Task → Contract S.toAtomics I) (kept : S.Lock → Prop)
    (c : Config S) : Prop where
  inv : I c.state
  obeys : ∀ {i : ℕ} {t : Thread S}, c.threads[i]? = some t → t.live = true →
    t.left.Obeys (C t.task) (fun _ => (C t.task).final) t.past c.state
  held : ∀ {i : ℕ} {t : Thread S} {l : S.Lock}, c.threads[i]? = some t →
    S.lock t.task = some l → kept l → t.held = true
  excl : ∀ {i j : ℕ} {t t' : Thread S} {l : S.Lock}, c.threads[i]? = some t →
    c.threads[j]? = some t' → t.holds l → t'.holds l → i = j

theorem Sound.init {I : σ → Prop} {C : S.Task → Contract S.toAtomics I} {kept : S.Lock → Prop}
    {s : σ} (hI : I s) : Sound C kept ⟨s, []⟩ where
  inv := hI
  obeys h := by simp at h
  held h := by simp at h
  excl h := by simp at h

section

variable {I : σ → Prop} {C : S.Task → Contract S.toAtomics I} {kept : S.Lock → Prop}
  {cond : Config S → Event S → Prop} {c c' : Config S} {e : Event S}

theorem Thread.live_of_act {t : Thread S} {a : S.Act} {k : S.Reply a → Proc S.toAtomics Unit}
    (hv : t.alive = true) (ha : t.left = .act a k) : t.live = true := by
  simp [Thread.live, hv, ha, Proc.live]

/-- What is left of a process that acts. -/
theorem Sound.act (hs : Sound C kept c) {i : ℕ} {t : Thread S} {a : S.Act}
    {k : S.Reply a → Proc S.toAtomics Unit} (ht : c.threads[i]? = some t) (hv : t.alive = true)
    (ha : t.left = .act a k) : (C t.task).guard t.past a c.state ∧
      ∀ ch r s', (C t.task).allows a ch c.state → S.perform a ch c.state = some (r, s') → I s' →
        (k r).Obeys (C t.task) (fun _ => (C t.task).final) (⟨a, r⟩ :: t.past) s' := by
  have hob := hs.obeys ht (Thread.live_of_act hv ha)
  rw [ha] at hob
  exact hob c.state hs.inv ((C t.task).rely_refl _)

/-- An action of a run is done where its contract allows it. -/
theorem Sound.guard (hs : Sound C kept c) {i : ℕ} {t : Thread S} {a : S.Act}
    {k : S.Reply a → Proc S.toAtomics Unit} (ht : c.threads[i]? = some t) (hv : t.alive = true)
    (ha : t.left = .act a k) : (C t.task).guard t.past a c.state :=
  (hs.act ht hv ha).1

/-- A process that is done after an action ends where its contract allows it. -/
theorem Sound.final (hs : Sound C kept c) {i : ℕ} {t : Thread S} {a : S.Act}
    {k : S.Reply a → Proc S.toAtomics Unit} {ch : S.Choice} {r : S.Reply a} {s' : σ}
    (ht : c.threads[i]? = some t) (hv : t.alive = true) (ha : t.left = .act a k)
    (hallow : (C t.task).allows a ch c.state) (hp : S.perform a ch c.state = some (r, s'))
    (hI : I s') (hend : (t.after a r (k r)).live = false) :
    (C t.task).final (⟨a, r⟩ :: t.past) s' := by
  have hob := (hs.act ht hv ha).2 ch r s' hallow hp hI
  have hleft : (k r).live = false := by simpa [Thread.live, Thread.after, hv] using hend
  cases hk : k r with
  | done u =>
      rw [hk] at hob
      exact hob s' hI ((C t.task).rely_refl _)
  | act a' k' => simp [hk, Proc.live] at hleft

/-- Two live processes with the same kept lock are one. -/
theorem Sound.unique (hs : Sound C kept c) {i j : ℕ} {t t' : Thread S} {l : S.Lock}
    (ht : c.threads[i]? = some t) (ht' : c.threads[j]? = some t') (hl : S.lock t.task = some l)
    (hl' : S.lock t'.task = some l) (hk : kept l) (hv : t.live = true) (hv' : t'.live = true) :
    i = j :=
  hs.excl ht ht' ⟨hv, hs.held ht hl hk, hl⟩ ⟨hv', hs.held ht' hl' hk, hl'⟩

/-- Replacing a process by one that holds no more than it does keeps what is known of the locks
and of the others, whose rely covers what happens to the state. -/
theorem Sound.set (hs : Sound C kept c) {i : ℕ} {t u : Thread S} {s' : σ}
    (ht : c.threads[i]? = some t) (hI : I s') (hu : u.task = t.task)
    (hob : u.live = true → u.left.Obeys (C u.task) (fun _ => (C u.task).final) u.past s')
    (hheld : ∀ l, S.lock t.task = some l → kept l → u.held = true)
    (hholds : ∀ l, u.holds l → t.holds l)
    (hrely : ∀ j t', j ≠ i → c.threads[j]? = some t' → t'.live = true →
      t'.left.Obeys (C t'.task) (fun _ => (C t'.task).final) t'.past s') :
    Sound C kept ⟨s', c.threads.set i u⟩ := by
  have hlt : i < c.threads.length := (List.getElem?_eq_some_iff.mp ht).1
  have hget : ∀ {j : ℕ} {t' : Thread S}, (c.threads.set i u)[j]? = some t' →
      (j = i ∧ t' = u) ∨ (j ≠ i ∧ c.threads[j]? = some t') := by
    intro j t' h
    rcases eq_or_ne j i with rfl | hj
    · rw [List.getElem?_set_self hlt] at h
      exact .inl ⟨rfl, (Option.some.inj h).symm⟩
    · rw [List.getElem?_set_ne hj.symm] at h
      exact .inr ⟨hj, h⟩
  constructor
  · exact hI
  · intro j t' h hv
    rcases hget h with ⟨rfl, rfl⟩ | ⟨hj, h'⟩
    · exact hob hv
    · exact hrely j t' hj h' hv
  · intro j t' l h hl hk
    rcases hget h with ⟨rfl, rfl⟩ | ⟨-, h'⟩
    · exact hheld l (hu ▸ hl) hk
    · exact hs.held h' hl hk
  · intro j j' t₁ t₂ l h₁ h₂ hh₁ hh₂
    rcases hget h₁ with ⟨rfl, rfl⟩ | ⟨-, h₁'⟩ <;> rcases hget h₂ with ⟨rfl, rfl⟩ | ⟨-, h₂'⟩
    · rfl
    · exact hs.excl ht h₂' (hholds l hh₁) hh₂
    · exact hs.excl h₁' ht hh₁ (hholds l hh₂)
    · exact hs.excl h₁' h₂' hh₁ hh₂

/-- **One step.** -/
theorem Disciplined.step (hD : Disciplined S C kept cond) (hs : Sound C kept c) (hc : cond c e)
    (h : Step c e c') : Sound C kept c' := by
  cases h with
  | @start t s' hfree hstart =>
      obtain ⟨hI, hrely⟩ := hD.start hstart hs.inv
      have hget : ∀ {j : ℕ} {t' : Thread S}, (c.threads ++ [Thread.new t])[j]? = some t' →
          c.threads[j]? = some t' ∨ (j = c.threads.length ∧ t' = Thread.new t) := by
        intro j t' h
        rcases Nat.lt_or_ge j c.threads.length with hj | hj
        · rw [List.getElem?_append_left hj] at h
          exact .inl h
        · rw [List.getElem?_append_right hj] at h
          obtain ⟨hlt, heq⟩ := List.getElem?_eq_some_iff.mp h
          simp only [List.length_singleton] at hlt
          refine .inr ⟨by omega, ?_⟩
          simpa using heq.symm
      constructor
      · exact hI
      · intro j t' h hv
        rcases hget h with h' | ⟨-, rfl⟩
        · exact (hs.obeys h' hv).rely (hrely _)
        · exact hD.body hstart hs.inv hI
      · intro j t' l h hl hk
        rcases hget h with h' | ⟨-, rfl⟩
        · exact hs.held h' hl hk
        · rfl
      · intro i j t₁ t₂ l h₁ h₂ hh₁ hh₂
        rcases hget h₁ with h₁' | ⟨rfl, rfl⟩ <;> rcases hget h₂ with h₂' | ⟨rfl, rfl⟩
        · exact hs.excl h₁' h₂' hh₁ hh₂
        · exact absurd hh₁ (hfree l hh₂.2.2 _ (List.mem_of_getElem? h₁'))
        · exact absurd hh₂ (hfree l hh₁.2.2 _ (List.mem_of_getElem? h₂'))
        · rfl
  | @act i t a k ch r s' ht hv ha hp =>
      have hguard := hs.guard ht hv ha
      obtain ⟨hallow, hI, hrely⟩ := hD.act ht hv ha hc hs.inv hguard hp
      have hlive := Thread.live_of_act hv ha
      have hheld : ∀ l, S.lock t.task = some l → kept l → t.held = true :=
        fun l hl hk => hs.held ht hl hk
      refine hs.set ht hI rfl ?_ hheld ?_ ?_
      · exact fun _ => (hs.act ht hv ha).2 ch r s' hallow hp hI
      · exact fun l hh => ⟨hlive, hh.2⟩
      · intro j t' hj ht' hlive'
        refine (hs.obeys ht' hlive').rely (hrely j t' ht' hlive' ?_)
        intro l hk hl hl'
        exact hj (hs.unique ht' ht hl' hl hk hlive' hlive)
  | @crash i t ht =>
      have hheld : ∀ l, S.lock t.task = some l → kept l → t.held = true :=
        fun l hl hk => hs.held ht hl hk
      refine hs.set ht hs.inv rfl (fun hv => by simp [Thread.live] at hv) hheld ?_
        fun j t' _ ht' => hs.obeys ht'
      rintro l ⟨hv, -⟩
      simp [Thread.live] at hv
  | @lose i t ht =>
      have hob := hs.obeys ht
      refine hs.set ht hs.inv rfl hob ?_ ?_ fun j t' _ ht' => hs.obeys ht'
      · exact fun l hl hk => absurd hk (hD.lose hc ht hl)
      · rintro l ⟨-, hh, -⟩
        simp at hh
  | @env ev s' henv =>
      obtain ⟨hI, hrely⟩ := hD.env henv hs.inv
      exact ⟨hI, fun h hv => (hs.obeys h hv).rely (hrely _), fun h => hs.held h, fun h => hs.excl h⟩

/-- **Induction on a run.** What holds at first and is kept by every step that meets the
condition, from where every process obeys its contract, holds after every run. -/
theorem Disciplined.always (hD : Disciplined S C kept cond) {J : Config S → Prop}
    (hstep : ∀ c e c', Sound C kept c → J c → cond c e → Step c e c' → J c') {es : List (Event S)}
    (hs : Sound C kept c) (hJ : J c) (hes : (machine S).Along cond c es) :
    Sound C kept ((machine S).run c es) ∧ J ((machine S).run c es) := by
  have hnext : ∀ c e, Sound C kept c ∧ J c → cond c e →
      Sound C kept ((machine S).next c e) ∧ J ((machine S).next c e) := by
    rintro c e ⟨hs, hJ⟩ hc
    rcases next_cases c e with h | h
    · rw [h]
      exact ⟨hs, hJ⟩
    · exact ⟨hD.step hs hc h, hstep c e _ hs hJ hc h⟩
  exact Transducer.run_inv hnext ⟨hs, hJ⟩ hes

/-- Every process of a run obeys its contract. -/
theorem Disciplined.sound (hD : Disciplined S C kept cond) {es : List (Event S)}
    (hs : Sound C kept c) (hes : (machine S).Along cond c es) : Sound C kept ((machine S).run c es) :=
  (hD.always (J := fun _ => True) (fun _ _ _ _ _ _ _ => trivial) hs trivial hes).1

end

/-! ### The last process -/

section

variable {s s' : σ} {ts : List (Thread S)}

theorem next_start {t : S.Task} (hfree : ∀ l, S.lock t = some l → ∀ t' ∈ ts, ¬ t'.holds l)
    (hs : S.start t s = some s') :
    (machine S).next ⟨s, ts⟩ (.start t) = ⟨s', ts ++ [Thread.new t]⟩ := by
  have hok : Config.free ⟨s, ts⟩ t = true := by
    simp only [Config.free]
    cases hl : S.lock t with
    | none => rfl
    | some l => simpa using hfree l hl
  simp [machine, step, hok, hs]

theorem next_last {t : Thread S} {a : S.Act} {k : S.Reply a → Proc S.toAtomics Unit}
    {ch : S.Choice} {r : S.Reply a} (hv : t.alive = true) (ha : t.left = .act a k)
    (hp : S.perform a ch s = some (r, s')) :
    (machine S).next ⟨s, ts ++ [t]⟩ (.act ts.length ch) = ⟨s', ts ++ [t.after a r (k r)]⟩ := by
  simp [machine, step, hv, ha, hp]

end

/-! ### Sums over the processes -/

/-- The sum of a quantity over the processes. -/
def Config.total (f : Thread S → ℤ) (c : Config S) : ℤ := (c.threads.map f).sum

section

variable {c : Config S} {s : σ} {f g : Thread S → ℤ} {i : ℕ} {t u : Thread S}

theorem Config.total_concat :
    Config.total f ⟨s, c.threads ++ [u]⟩ = c.total f + f u := by
  simp [Config.total]

theorem Config.total_set (ht : c.threads[i]? = some t) :
    Config.total f ⟨s, c.threads.set i u⟩ = c.total f - f t + f u := by
  obtain ⟨hi, rfl⟩ := List.getElem?_eq_some_iff.mp ht
  simp only [Config.total, List.map_set, List.sum_set', List.length_map, hi, dif_pos,
    List.getElem_map]
  abel

/-- A process that is replaced by one of the same quantity. -/
theorem Config.total_set_same (ht : c.threads[i]? = some t) (hf : f u = f t) :
    Config.total f ⟨s, c.threads.set i u⟩ = c.total f := by
  rw [Config.total_set ht, hf, sub_add_cancel]

theorem Config.total_add : c.total (fun t => f t + g t) = c.total f + c.total g :=
  List.sum_map_add

theorem Config.total_eq_zero (h : ∀ t ∈ c.threads, f t = 0) : c.total f = 0 := by
  refine List.sum_eq_zero fun x hx => ?_
  obtain ⟨t, ht, rfl⟩ := List.mem_map.mp hx
  exact h t ht

theorem Config.total_nonneg (h : ∀ t ∈ c.threads, 0 ≤ f t) : 0 ≤ c.total f := by
  refine List.sum_nonneg fun x hx => ?_
  obtain ⟨t, ht, rfl⟩ := List.mem_map.mp hx
  exact h t ht

/-- A quantity of at most one, positive for one process at most. -/
theorem Config.total_le_one (hle : ∀ t ∈ c.threads, f t ≤ 1)
    (huniq : ∀ (i j : ℕ) (t t' : Thread S), c.threads[i]? = some t → c.threads[j]? = some t' →
      0 < f t → 0 < f t' → i = j) : c.total f ≤ 1 := by
  simp only [Config.total]
  induction hts : c.threads generalizing c with
  | nil => simp
  | cons t ts ih =>
      rw [hts] at hle huniq
      have hrest := ih (c := ⟨c.state, ts⟩) (fun u hu => hle u (List.mem_cons_of_mem _ hu))
        (fun i j t t' hi hj hp hp' => Nat.succ_injective (huniq (i + 1) (j + 1) t t' hi hj hp hp')) rfl
      have ht := hle t List.mem_cons_self
      simp only [List.map_cons, List.sum_cons]
      rcases Int.lt_or_le 0 (f t) with hpos | hneg
      · -- nothing else is positive
        have hnone : (ts.map f).sum ≤ (ts.map fun _ => 0).sum := by
          refine List.sum_le_sum fun u hu => ?_
          obtain ⟨j, hj⟩ := List.mem_iff_getElem?.mp hu
          by_contra hlt
          exact absurd (huniq 0 (j + 1) t u rfl hj hpos (by omega)) (by omega)
        simp only [List.map_const', List.sum_replicate, nsmul_zero] at hnone
        omega
      · omega

/-- A quantity of at most one, positive only for a live process with a kept lock. -/
theorem Sound.total_le_one {I : σ → Prop} {C : S.Task → Contract S.toAtomics I}
    {kept : S.Lock → Prop} (hs : Sound C kept c) {l : S.Lock} (hk : kept l)
    (hle : ∀ t ∈ c.threads, f t ≤ 1)
    (hlock : ∀ t ∈ c.threads, 0 < f t → t.live = true ∧ S.lock t.task = some l) :
    c.total f ≤ 1 := by
  refine Config.total_le_one hle fun i j t t' ht ht' hp hp' => ?_
  obtain ⟨hv, hl⟩ := hlock t (List.mem_of_getElem? ht) hp
  obtain ⟨hv', hl'⟩ := hlock t' (List.mem_of_getElem? ht') hp'
  exact hs.unique ht ht' hl hl' hk hv hv'

end

end Interleaving
