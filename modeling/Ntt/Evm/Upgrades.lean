import Ntt.Evm.Implementation

/-!
# Upgrades Are Whole

An upgrade changes the slot of a proxy before the new code migrates the storage and the old code
checks the new one, and a migration may call out. A call that is nested in it finds the storage
migrating and initializing: it cannot upgrade, migrate or initialize again. So whatever the
implementations do with their own storage, the events of a proxy are one initialization at most and
then upgrades, each complete, with the next version, and approved by the code that it replaced.

## Main results

* `Lifecycle`: the events of a proxy at rest.
* `Phase`: what the slots and the events are wherever control is outside: at rest, or in the middle
  of an initialization or of an upgrade.
* `upgrades_whole`: every run goes through these, and what every implementation keeps of the storage
  is kept over upgrades.
* `run_upgrade`: the owner's upgrade goes through, if the migration does and the checks pass.
* `Lifecycle.versions_eq`: each version is reached once, in order.
* `Lifecycle.immutables_eq`: where no migration asks for other immutables, they stay the same.
-/

namespace Ntt

open Reentrant

variable {X : Interface} {σ ε ι κ α : Type}

namespace Deployment

variable (D : Deployment X σ ε ι κ) (first : Address) (start : UInt64) (before : List ProxyEvent)

/-! ### Histories -/

/-- The events of a proxy after it was at rest with an implementation, a version and earlier events,
and the version and the implementation that it has then. -/
inductive Lifecycle : List ProxyEvent → UInt64 → Address → Prop
  | deployed : Lifecycle before start first
  | initialized : start = 0 → Lifecycle (.Initialized 1 :: before) 1 first
  | upgraded {log : List ProxyEvent} {v : UInt64} {a b : Address}
      {old new : Implementation X σ ε ι κ} : Lifecycle log v a → v.toNat + 1 < 2 ^ 64 →
      D.code a = some old → D.code b = some new →
      (new.KeepsImmutables → old._checkImmutables new.immutables = .ok ()) →
      Lifecycle (.Initialized (v + 1) :: .Upgraded b :: log) (v + 1) b

/-- What the slots and the events are where control is outside. -/
inductive Phase : Control → List ProxyEvent → Prop
  | settled {log : List ProxyEvent} {v : UInt64} {a : Address} :
      D.Lifecycle first start before log v a → Phase ⟨a, v, false, false, false⟩ log
  | initializing : start = 0 → Phase ⟨first, 1, true, false, false⟩ before
  | migrating {log : List ProxyEvent} {v : UInt64} {a b : Address} {exempt : Bool}
      {new : Implementation X σ ε ι κ} : D.Lifecycle first start before log v a →
      v.toNat + 1 < 2 ^ 64 → D.code b = some new → (new.KeepsImmutables → exempt = false) →
      Phase ⟨b, v + 1, true, true, exempt⟩ (.Upgraded b :: log)

/-- What nested calls make of the slots and the events: nothing while the storage is
initializing. -/
structure Moves (c : Control) (log : List ProxyEvent) (c' : Control) (log' : List ProxyEvent) :
    Prop where
  suffix : log <:+ log'
  initializing : c'.initializing = c.initializing
  held : c.initializing = true → c' = c ∧ log' = log

/-- In a phase, with an implementation of a kind in the slot. -/
structure InPhase (A : Implementation X σ ε ι κ → Prop) (c : Control) (log : List ProxyEvent) :
    Prop where
  phase : D.Phase first start before c log
  kind : ∀ I, D.code c.implementation = some I → A I

/-- The invariant of a proxy, over that of what is deployed. -/
def proxying (A : Implementation X σ ε ι κ → Prop) (E : Rely X σ) : Rely X (ProxyState σ) where
  toWorld := E.toWorld.on appPart
  inv s := D.InPhase first start before A s.control s.log ∧ E.inv s.app
  rely s s' := Moves s.control s.log s'.control s'.log ∧ E.rely s.app s'.app

/-- What the implementations keep of the storage. The first is of a kind, and they only approve of
that kind. All migrations keep it, but those of another kind give control to nobody; the calls of
the kind do, and its initialization where that can still happen. -/
structure Keeps (A : Implementation X σ ε ι κ → Prop) (E : Rely X σ)
    (admits : σ → Context → κ → Prop) : Prop where
  closed : E.Closed
  first : ∀ I, D.code first = some I → A I
  upgrade : ∀ a b old new, D.code a = some old → D.code b = some new → A old →
    (new.KeepsImmutables → old._checkImmutables new.immutables = .ok ()) → A new
  initialization : start = 0 → ∀ a I ctx, D.code a = some I → A I →
    Within E (I._initializeStorage ctx true)
  migration : ∀ a I ctx, D.code a = some I → Within (E.on .fst) (I._migrate ctx)
  silent : ∀ a I ctx, D.code a = some I → ¬ A I →
    Writes (fun x => E.closed x = true) (fun _ _ => True) (I._migrate ctx)
  body : ∀ a I ctx k s, D.code a = some I → A I → admits s ctx k → E.inv s →
    Guarantee E s ((I.body ctx k).run s)

variable {D first start before} {A : Implementation X σ ε ι κ → Prop} {E : Rely X σ}
  {admits : σ → Context → κ → Prop} {log log' : List ProxyEvent} {v : UInt64} {a : Address}
  {c c' : Control} {s : ProxyState σ}

theorem Moves.refl (c : Control) (log : List ProxyEvent) : Moves c log c log :=
  ⟨List.suffix_rfl, rfl, fun _ => ⟨rfl, rfl⟩⟩

theorem Moves.trans {c'' : Control} {log'' : List ProxyEvent} (h : Moves c log c' log')
    (h' : Moves c' log' c'' log'') : Moves c log c'' log'' := by
  refine ⟨h.suffix.trans h'.suffix, h'.initializing.trans h.initializing, fun hc => ?_⟩
  obtain ⟨hc₁, hl₁⟩ := h.held hc
  obtain ⟨hc₂, hl₂⟩ := h'.held (hc₁ ▸ hc)
  exact ⟨hc₂.trans hc₁, hl₂.trans hl₁⟩

theorem proxying_closed (hE : E.Closed) : (D.proxying first start before A E).Closed where
  refl s := ⟨.refl _ _, hE.refl s.app⟩
  trans h h' := ⟨h.1.trans h'.1, hE.trans h.2 h'.2⟩

theorem succ_ne_zero {v : UInt64} (h : v.toNat + 1 < 2 ^ 64) : v + 1 ≠ 0 := by
  intro h0
  have := congrArg UInt64.toNat h0
  rw [UInt64.toNat_add] at this
  simp at this
  omega

/-- A proxy at version zero was only deployed. -/
theorem Lifecycle.of_zero (h : D.Lifecycle first start before log 0 a) :
    start = 0 ∧ log = before ∧ a = first := by
  generalize hv : (0 : UInt64) = v at h
  cases h with
  | deployed => exact ⟨rfl, rfl, rfl⟩
  | initialized => cases hv
  | upgraded _ hlt => exact absurd hv.symm (succ_ne_zero hlt)

/-- There is code in the slot. -/
theorem Lifecycle.code (h : D.Lifecycle first start before log v a)
    (hfirst : ∃ I, D.code first = some I) : ∃ I, D.code a = some I := by
  cases h with
  | deployed | initialized => exact hfirst
  | upgraded _ _ _ hnew => exact ⟨_, hnew⟩

/-! ### Programs of the proxy -/

@[simp] theorem wp_control {J : Rely X (ProxyState σ)} {Q : Control → ProxyState σ → Prop} :
    ((control : ProxyProg X σ ε Control).run s).wp J Q ↔ Q s.control s := Iff.rfl

@[simp] theorem wp_setControl {J : Rely X (ProxyState σ)} {f : Control → Control}
    {Q : Unit → ProxyState σ → Prop} :
    ((setControl f : ProxyProg X σ ε Unit).run s).wp J Q ↔
      Q () { s with control := f s.control } := Iff.rfl

@[simp] theorem wp_emit {J : Rely X (ProxyState σ)} {e : ProxyEvent}
    {Q : Unit → ProxyState σ → Prop} :
    ((emit e : ProxyProg X σ ε Unit).run s).wp J Q ↔ Q () { s with log := e :: s.log } := Iff.rfl

/-- The code in the slot is run, or the call reverts. -/
theorem wp_current {J : Rely X (ProxyState σ)} {Q : Implementation X σ ε ι κ → ProxyState σ → Prop}
    (h : ∀ I, D.code s.control.implementation = some I → Q I s) : (D.current.run s).wp J Q := by
  rw [current, run_bind, Res.wp_bind, wp_control]
  split
  · rename_i I hI
    exact h I hI
  · trivial

/-- A program on the deployed contract's storage, while a fact holds about the slots and the events
that nested calls keep. -/
theorem wp_onApp {K : Control → List ProxyEvent → Prop}
    (hphase : ∀ c l, K c l → D.InPhase first start before A c l)
    (hstable : ∀ c l c' l', K c l → D.InPhase first start before A c' l' → Moves c l c' l' →
      K c' l')
    {m : Prog X σ ε α} {Q : α → σ → Prop} (hm : (m.run s.app).wp E Q) (h : K s.control s.log) :
    ((onApp m).run s).wp (D.proxying first start before A E) fun a s' =>
      Q a s'.app ∧ K s'.control s'.log := by
  have hH : Handles (ε := UpgradeError ε) appPart call (fun _ => True) E
      (D.proxying first start before A E) (fun _ => ()) fun s => K s.control s.log :=
    handles_on (fun _ => rfl) (fun _ _ _ _ he => he) (fun _ _ hr => hr)
      (fun _ _ _ _ hi hk => ⟨hphase _ _ hk, hi⟩)
      (fun _ _ hk hi hr => ⟨hi.2, hr.2, hstable _ _ _ _ hk hi.1 hr.1⟩) (fun _ _ _ hk => hk)
      fun _ _ _ _ _ _ => rfl
  exact Res.wp_inside hH ((Res.wp_mapError _).mpr hm)
    (.of_forall (fun _ => trivial) (fun _ _ => rfl) _ _) h

/-- What a migration does: it gives control away only if it is of the kind, and if it does not ask
for other immutables, it leaves the flag. -/
theorem migration_writes (hD : D.Keeps first start A E admits) {b : Address}
    {new : Implementation X σ ε ι κ} (hnew : D.code b = some new) (ctx : Context) (s : σ × Bool) :
    ((new._migrate ctx).run s).Writes (fun x => E.closed x = true ∨ A new)
      (fun s s' => (new.KeepsImmutables → s'.2 = false) = (new.KeepsImmutables → s.2 = false))
      s := by
  have hwrites : ((new._migrate ctx).run s).Writes (fun _ => True)
      (fun s s' => (new.KeepsImmutables → s'.2 = false) = (new.KeepsImmutables → s.2 = false))
      s := by
    by_cases hkeeps : new.KeepsImmutables
    · exact ((hkeeps ctx).run s).mono (fun _ h => h) fun s s' h => by rw [h]
    · exact .of_forall (fun _ => trivial) (fun _ _ => by simp [hkeeps]) s _
  by_cases hA : A new
  · exact hwrites.mono (fun _ _ => .inr hA) fun _ _ h => h
  · exact (hwrites.calls ((hD.silent b new ctx hnew hA).run s)).mono (fun _ h => .inl h.2)
      fun _ _ h => h

/-- A migration, in the middle of an upgrade. -/
theorem wp_onMigration (hD : D.Keeps first start A E admits) {a b : Address}
    {new : Implementation X σ ε ι κ} {ctx : Context}
    (hlife : D.Lifecycle first start before log v a) (hlt : v.toNat + 1 < 2 ^ 64)
    (hnew : D.code b = some new) (hi : E.inv s.app)
    (hc : s.control = ⟨b, v + 1, true, true, false⟩) (hlog : s.log = .Upgraded b :: log) :
    ((onMigration (new._migrate ctx)).run s).wp (D.proxying first start before A E) fun _ s' =>
      (E.inv s'.app ∧ E.rely s.app s'.app) ∧ ∃ exempt,
        s'.control = ⟨b, v + 1, true, true, exempt⟩ ∧ (new.KeepsImmutables → exempt = false) ∧
          s'.log = .Upgraded b :: log := by
  have hH : Handles (ε := UpgradeError ε) migrationPart call (fun x => E.closed x = true ∨ A new)
      (E.on .fst) (D.proxying first start before A E)
      (fun s : σ × Bool => new.KeepsImmutables → s.2 = false) fun s =>
        ∃ exempt, s.control = ⟨b, v + 1, true, true, exempt⟩ ∧
          (new.KeepsImmutables → exempt = false) ∧ s.log = .Upgraded b :: log := by
    refine handles_on (fun _ => rfl) ?_ (fun _ _ hr => hr) ?_ ?_ ?_ ?_
    · rintro x p r _ ⟨s', he, rfl⟩
      exact ⟨_, ⟨s', he, rfl⟩, rfl⟩
    · rintro x p hx hopen hi ⟨exempt, hc, hkeeps, hlog⟩
      obtain hx | hA := hx
      · exact absurd (hx.symm.trans hopen) (by decide)
      · refine ⟨?_, hi⟩
        rw [hc, hlog]
        refine ⟨.migrating hlife hlt hnew hkeeps, fun I hI => ?_⟩
        rwa [Option.some.inj (hI.symm.trans hnew)]
    · rintro p p' ⟨exempt, hc, hkeeps, hlog⟩ hi hr
      obtain ⟨hc', hlog'⟩ := hr.1.held (by rw [hc])
      exact ⟨hi.2, hr.2, exempt, hc'.trans hc, hkeeps, hlog'.trans hlog⟩
    · rintro p s' hview ⟨exempt, hc, hkeeps, hlog⟩
      refine ⟨s'.2, congrArg ({ · with migratesImmutables := s'.2 }) hc, cast hview.symm ?_, hlog⟩
      rwa [migrationPart_get, hc]
    · rintro x s r _ - ⟨s', -, rfl⟩
      rfl
  exact Res.wp_inside hH
    ((Res.wp_mapError _).mpr (hD.migration b new ctx hnew (migrationPart.get s) hi))
    (migration_writes hD hnew ctx _).mapError ⟨false, hc, fun _ => rfl, hlog⟩

/-! ### Calls -/

/-- Calls of what is deployed. -/
theorem call_guarantee (hD : D.Keeps first start A E admits) {I : Implementation X σ ε ι κ}
    (hI : D.code s.control.implementation = some I) {ctx : Context} {k : κ}
    (hadm : admits s.app ctx k) (hs : (D.proxying first start before A E).inv s) :
    Guarantee (D.proxying first start before A E) s ((onApp (I.body ctx k)).run s) := by
  refine Res.wp_mono ?_ (wp_onApp (D := D) (E := E)
    (K := fun c l => D.InPhase first start before A c l ∧ Moves s.control s.log c l)
    (fun _ _ h => h.1) (fun _ _ _ _ h hphase hmoves => ⟨hphase, h.2.trans hmoves⟩)
    (hD.body _ I ctx k s.app hI (hs.1.kind I hI) hadm hs.2) ⟨hs.1, .refl _ _⟩)
  rintro _ s' ⟨⟨hi, hr⟩, hphase, hmoves⟩
  exact ⟨⟨hphase, hi⟩, hmoves, hr⟩

/-- An initialization starts at version zero, and ends at version one. -/
theorem initialize_guarantee (hD : D.Keeps first start A E admits) {I : Implementation X σ ε ι κ}
    (hI : D.code s.control.implementation = some I) {ctx : Context} {codeLength : ℕ}
    (hcode : codeLength ≠ 0) (hs : (D.proxying first start before A E).inv s) :
    Guarantee (D.proxying first start before A E) s
      ((I.initializeProxy D.proxy codeLength ctx).run s) := by
  obtain ⟨c, app, log⟩ := s
  simp only [Guarantee, Implementation.initializeProxy, Implementation._checkDelegateCall,
    initializer, run_bind, Res.wp_bind, wp_revertIf, wp_control]
  intro _ hsetup
  obtain ⟨⟨hphase, hkind⟩, hi⟩ := hs
  cases hphase with
  | @settled _ v a' hlife =>
      obtain rfl : v = 0 := by simpa [hcode] using hsetup
      obtain ⟨hstart, rfl, rfl⟩ := hlife.of_zero
      simp only [Bool.not_false, if_true, run_bind, Res.wp_bind, wp_setControl, wp_control]
      refine Res.wp_mono ?_ (wp_onApp (D := D) (E := E)
        (K := fun c l => c = ⟨a', 1, true, false, false⟩ ∧ l = log) ?_ ?_
        (hD.initialization hstart a' I ctx hI (hkind I hI) app hi) ⟨rfl, rfl⟩)
      · rintro _ ⟨c, app', log⟩ ⟨⟨hi', hr'⟩, rfl, rfl⟩
        exact ⟨⟨⟨.settled (.initialized hstart), hkind⟩, hi'⟩,
          ⟨List.suffix_cons _ _, rfl, fun h => absurd h Bool.false_ne_true⟩, hr'⟩
      · rintro c l ⟨rfl, rfl⟩
        exact ⟨.initializing hstart, hkind⟩
      · rintro c l c' l' ⟨rfl, rfl⟩ - hmoves
        exact hmoves.held rfl
  | initializing => simp [hcode] at hsetup
  | migrating => simp [hcode] at hsetup

/-- Nobody migrates but an upgrade. -/
theorem migrate_guarantee {I : Implementation X σ ε ι κ} {ctx : Context}
    (hs : (D.proxying first start before A E).inv s) :
    Guarantee (D.proxying first start before A E) s ((I.migrate D.proxy ctx).run s) := by
  obtain ⟨c, app, log⟩ := s
  simp only [Guarantee, Implementation.migrate, Implementation._checkDelegateCall, reinitializer,
    run_bind, Res.wp_bind, wp_revertIf, wp_control, wp_setControl, not_or]
  rintro - - - ⟨hinit, -⟩ hmigrating
  cases hs.1.phase with
  | settled => exact absurd rfl hmigrating
  | initializing | migrating => exact absurd rfl hinit

/-- An upgrade, from rest to rest. -/
theorem upgrade_guarantee (hD : D.Keeps first start A E admits) {I : Implementation X σ ε ι κ}
    (hI : D.code s.control.implementation = some I) {ctx : Context} {newImplementation : Address}
    (hs : (D.proxying first start before A E).inv s) :
    Guarantee (D.proxying first start before A E) s
      ((D.upgrade I ctx newImplementation).run s) := by
  obtain ⟨c, app, log⟩ := s
  simp only [Guarantee, upgrade, _upgrade, _upgradeTo, Implementation._checkDelegateCall,
    run_bind, Res.wp_bind, wp_revertIf, wp_control, wp_setControl, wp_emit, wp_get]
  intro _ _ _ _ _
  refine wp_current fun new hnew => ?_
  simp only [Implementation.migrate, Implementation._checkDelegateCall, reinitializer,
    run_bind, Res.wp_bind, wp_revertIf, wp_control, wp_setControl, wp_emit, not_or, not_le]
  rintro - - hlt ⟨hinit, -⟩ -
  obtain ⟨⟨hphase, hkind⟩, hi⟩ := hs
  cases hphase with
  | @settled _ v a hlife =>
      refine Res.wp_mono ?_ (wp_onMigration hD hlife hlt hnew hi rfl rfl)
      rintro _ ⟨c, app', log'⟩ ⟨⟨hi', hr'⟩, exempt, rfl, hkeeps, rfl⟩
      have hdone (happroved : new.KeepsImmutables → I._checkImmutables new.immutables = .ok ()) :
          ((D.proxying first start before A E).inv
            ⟨⟨newImplementation, v + 1, false, false, false⟩, app',
              .Initialized (v + 1) :: .Upgraded newImplementation :: log⟩ ∧
          (D.proxying first start before A E).rely ⟨⟨a, v, false, false, false⟩, app, log⟩
            ⟨⟨newImplementation, v + 1, false, false, false⟩, app',
              .Initialized (v + 1) :: .Upgraded newImplementation :: log⟩) := by
        refine ⟨⟨⟨.settled (.upgraded hlife hlt hI hnew happroved), fun J hJ => ?_⟩, hi'⟩,
          ⟨(List.suffix_cons _ _).trans (List.suffix_cons _ _), rfl,
            fun h => absurd h Bool.false_ne_true⟩, hr'⟩
        rw [Option.some.inj (hJ.symm.trans hnew)]
        exact hD.upgrade a newImplementation I new hI hnew (hkind I hI) happroved
      cases exempt with
      | true => exact hdone fun hk => absurd (hkeeps hk) (by decide)
      | false =>
          simp only [wp_setControl, run_bind, Res.wp_bind, if_true]
          refine wp_current fun new' hnew' => (wp_liftExcept _ _).mpr ?_
          obtain rfl : new = new' := Option.some.inj (hnew.symm.trans hnew')
          intro u hu
          refine hdone fun _ => ?_
          cases hcheck : I._checkImmutables new.immutables with
          | ok => rfl
          | error e => rw [hcheck] at hu; cases hu
  | initializing | migrating => exact absurd rfl hinit

/-! ### Upgrades that go through -/

theorem run_control (s : ProxyState σ) :
    (control : ProxyProg X σ ε Control).run s = .ret s.control s := rfl

theorem run_setControl (f : Control → Control) (s : ProxyState σ) :
    (setControl f : ProxyProg X σ ε Unit).run s = .ret () { s with control := f s.control } := rfl

theorem run_emit (e : ProxyEvent) (s : ProxyState σ) :
    (emit e : ProxyProg X σ ε Unit).run s = .ret () { s with log := e :: s.log } := rfl

theorem run_current {I : Implementation X σ ε ι κ}
    (h : D.code s.control.implementation = some I) : D.current.run s = .ret I s := by
  simp only [current, run_bind, run_control, Res.bind_ret, h, run_pure]

/-- A proxy is not one of its implementations. -/
theorem run_checkDelegateCall {I : Implementation X σ ε ι κ} (h : D.code a = some I) :
    (I._checkDelegateCall D.proxy).run s = .ret () s := by
  rw [Implementation._checkDelegateCall, run_revertIf, if_neg]
  rw [D.this_eq a I h]
  intro heq
  have hnone := D.proxy_code
  rw [heq, h] at hnone
  cases hnone

/-- The migration of an upgrade. -/
theorem run_migrate {b : Address} {new : Implementation X σ ε ι κ} {ctx : Context} {app app' : σ}
    {exempt : Bool} (hnew : D.code b = some new) (hvalue : ctx.value = 0)
    (hlt : v.toNat + 1 < 2 ^ 64)
    (hmigrate : (new._migrate ctx).run (app, false) = .ret () (app', exempt)) :
    (new.migrate D.proxy ctx).run ⟨⟨b, v, false, true, false⟩, app, log⟩ =
      .ret () ⟨⟨b, v + 1, false, true, exempt⟩, app', .Initialized (v + 1) :: log⟩ := by
  have hle : ¬ v ≥ v + 1 := by
    rw [ge_iff_le, UInt64.le_iff_toNat_le, UInt64.toNat_add]
    have : (1 : UInt64).toNat = 1 := rfl
    omega
  have hrun : (onMigration (new._migrate ctx)).run ⟨⟨b, v + 1, true, true, false⟩, app, log⟩ =
      .ret () ⟨⟨b, v + 1, true, true, exempt⟩, app', log⟩ :=
    run_on_ret (L := migrationPart) (p := ⟨⟨b, v + 1, true, true, false⟩, app, log⟩)
      (run_mapError_ret hmigrate)
  simp only [Implementation.migrate, reinitializer, run_bind, run_revertIf, run_control,
    run_setControl, run_emit, run_checkDelegateCall hnew, Res.bind_ret, hvalue, ne_eq,
    not_true_eq_false, if_false, ge_iff_le, Nat.not_le.mpr hlt, Bool.false_eq_true, false_or,
    hle, Bool.true_eq_false, hrun]

/-- The owner's upgrade goes through, where the migration of the new code does, and the code that is
replaced approves of it. -/
theorem run_upgrade {b : Address} {old new : Implementation X σ ε ι κ} {ctx : Context}
    {codeLength : ℕ} {app' : σ} {exempt : Bool} (hold : D.code a = some old)
    (hnew : D.code b = some new) (hc : s.control = ⟨a, v, false, false, false⟩)
    (howner : old.owner s.app = ctx.sender) (hvalue : ctx.value = 0) (hlt : v.toNat + 1 < 2 ^ 64)
    (hmigrate : (new._migrate { ctx with sender := D.proxy, value := 0 }).run (s.app, false) =
      .ret () (app', exempt))
    (hcheck : exempt = false → old._checkImmutables new.immutables = .ok ()) :
    (D.body ⟨ctx, codeLength, .upgrade b⟩).run s =
      .ret () ⟨⟨b, v + 1, false, false, false⟩, app',
        .Initialized (v + 1) :: .Upgraded b :: s.log⟩ := by
  obtain ⟨control, app, log⟩ := s
  obtain rfl : control = ⟨a, v, false, false, false⟩ := hc
  have hmigrated : (new.migrate D.proxy { ctx with sender := D.proxy, value := 0 }).run
      ⟨⟨b, v, false, true, false⟩, app, .Upgraded b :: log⟩ =
        .ret () ⟨⟨b, v + 1, false, true, exempt⟩, app',
          .Initialized (v + 1) :: .Upgraded b :: log⟩ :=
    run_migrate hnew rfl hlt hmigrate
  rw [body, run_bind, run_current (s := ⟨⟨a, v, false, false, false⟩, app, log⟩) hold, Res.bind_ret]
  simp only [upgrade, _upgrade, _upgradeTo, run_bind, run_revertIf, run_get, run_control,
    run_setControl, run_emit, run_checkDelegateCall hold, Res.bind_ret, hvalue, howner, hnew,
    ne_eq, not_true_eq_false, if_false, reduceCtorEq, Bool.false_eq_true]
  rw [run_current (s := ⟨⟨b, v, false, true, false⟩, app, .Upgraded b :: log⟩) hnew, Res.bind_ret,
    run_bind, hmigrated, Res.bind_ret, run_bind, run_control, Res.bind_ret]
  cases exempt with
  | true => rfl
  | false =>
      simp only [if_true, run_bind]
      rw [run_current (s := ⟨⟨b, v + 1, false, true, false⟩, app', _⟩) hnew, Res.bind_ret,
        hcheck rfl]
      rfl

/-! ### Every run -/

/-- Every call of a proxy keeps it in its phases. -/
theorem proxy_sound (hD : D.Keeps first start A E admits) :
    Sound D.contract (proxyEnvironment E.toWorld admits) (D.proxying first start before A E) := by
  refine ⟨rfl, fun e s hadm hs => ?_⟩
  obtain ⟨ctx, codeLength, call⟩ := e
  obtain ⟨hcode, hcall⟩ := hadm
  change ((D.body ⟨ctx, codeLength, call⟩).run s).wp _ _
  rw [body, run_bind, Res.wp_bind]
  refine wp_current fun I hI => ?_
  cases call with
  | initializeProxy => exact initialize_guarantee hD hI hcode hs
  | migrate => exact migrate_guarantee hs
  | upgrade newImplementation => exact upgrade_guarantee hD hI hs
  | call k => exact call_guarantee hD hI (hcall k rfl) hs

/-- The versions that events report. -/
def versions (log : List ProxyEvent) : List ℕ :=
  log.filterMap fun
    | .Initialized version => some version.toNat
    | .Upgraded _ => none

/-- Each version is reached once, in order. -/
theorem Lifecycle.versions_eq (h : D.Lifecycle first start before log v a) :
    start.toNat ≤ v.toNat ∧
      versions log =
        (List.range' (start.toNat + 1) (v.toNat - start.toNat)).reverse ++ versions before := by
  induction h with
  | deployed => simp [versions]
  | initialized h => simp [versions, h]
  | @upgraded log v a b old new _ hlt _ _ _ ih =>
      obtain ⟨hle, hversions⟩ := ih
      have hsucc : (v + 1).toNat = v.toNat + 1 := by
        rw [UInt64.toNat_add]
        exact Nat.mod_eq_of_lt hlt
      have hsub : v.toNat + 1 - start.toNat = v.toNat - start.toNat + 1 := by omega
      refine ⟨by omega, ?_⟩
      have hcons : versions (.Initialized (v + 1) :: .Upgraded b :: log) =
          (v + 1).toNat :: versions log := rfl
      have hlast : start.toNat + 1 + 1 * (v.toNat - start.toNat) = v.toNat + 1 := by omega
      rw [hcons, hversions, hsucc, hsub, List.range'_concat, List.reverse_append, hlast]
      rfl

/-- Where no migration asks for other immutables, and the checks compare all of them, they stay the
same. -/
theorem Lifecycle.immutables_eq (hkeeps : ∀ a I, D.code a = some I → I.KeepsImmutables)
    (hcheck : ∀ a I i, D.code a = some I → I._checkImmutables i = .ok () → i = I.immutables)
    {I J : Implementation X σ ε ι κ} (hJ : D.code first = some J)
    (h : D.Lifecycle first start before log v a) (hI : D.code a = some I) :
    I.immutables = J.immutables := by
  induction h generalizing I with
  | deployed | initialized => rw [Option.some.inj (hI.symm.trans hJ)]
  | @upgraded log v a b old new _ _ hold hnew happroved ih =>
      rw [← ih hold, ← hcheck a old _ hold (happroved (hkeeps b new hnew)),
        Option.some.inj (hI.symm.trans hnew)]

/-- **Upgrades are whole.** After a proxy was at rest, wherever control is outside it is at rest or
in the middle of its initialization or of one upgrade, and the storage of what is deployed keeps
what the implementations keep. Between transactions it is at rest, with an implementation of the
kind; each version was reached once, in order, and what happened stays. -/
theorem upgrades_whole (hD : D.Keeps first start A E admits) {app : σ} (happ : E.inv app)
    {c : Config X (ProxyState σ) (UpgradeError ε)}
    (h : Reachable D.contract (proxyEnvironment E.toWorld admits)
      ⟨⟨first, start, false, false, false⟩, app, before⟩ c) :
    D.Phase first start before c.st.control c.st.log ∧ E.inv c.st.app ∧
      (∀ I, D.code c.st.control.implementation = some I → A I) ∧
      (c.stack = [] → ∃ v a, D.Lifecycle first start before c.st.log v a ∧
        c.st.control = ⟨a, v, false, false, false⟩ ∧ E.rely app c.st.app ∧
        versions c.st.log =
          (List.range' (start.toNat + 1) (v.toNat - start.toNat)).reverse ++ versions before ∧
        ∀ d, Relation.ReflTransGen (Step D.contract (proxyEnvironment E.toWorld admits)) c d →
          d.stack = [] → c.st.log <:+ d.st.log ∧ E.rely c.st.app d.st.app) := by
  have hclosed : (D.proxying first start before A E).Closed := proxying_closed hD.closed
  have hrest : (D.proxying first start before A E).inv
      ⟨⟨first, start, false, false, false⟩, app, before⟩ :=
    ⟨⟨.settled .deployed, hD.first⟩, happ⟩
  have hinv := h.inv hclosed (proxy_sound hD) hrest
  refine ⟨hinv.1.phase, hinv.2, hinv.1.kind, fun hidle => ?_⟩
  have hr := h.rely_of_idle hclosed (proxy_sound hD) hrest hidle
  obtain ⟨⟨control, s, log⟩, stack⟩ := c
  obtain rfl : stack = [] := hidle
  have hphase := hinv.1.phase
  have hinit : control.initializing = false := hr.1.initializing
  cases hphase with
  | settled hlife =>
      refine ⟨_, _, hlife, rfl, hr.2, hlife.versions_eq.2, fun d hd hidle' => ?_⟩
      have hr' := Reachable.rely_of_idle hclosed (proxy_sound hD) hinv hd hidle'
      exact ⟨hr'.1.suffix, hr'.2⟩
  | initializing | migrating => cases hinit

end Deployment

end Ntt
