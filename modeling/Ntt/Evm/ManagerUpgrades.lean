import Ntt.Evm.Refinement
import Ntt.Evm.Runs
import Ntt.Evm.Upgrades

/-!
# Upgrades of a Manager

A manager is an implementation behind a proxy. Its initialization sets the owner and the outbound
limit, its migration checks the registry and the threshold, and the code that is replaced compares
the token, the mode, the chain and the rate limit duration with those of the new code. Of the chain
id of its fork a manager makes nothing but a check, so the histories of two managers that only
differ in it are the same.

## Main results

* `initialize_history`: the initialization leaves a storage from which histories start.
* `manager_keeps`: what the managers of a deployment keep of the storage.
* `run_migrate`: the migration never fails on the storage of a history, and changes nothing.
* `manager_upgrades`: over any run, upgrades to any managers included, the immutables stay the same
  and the storage is a history, so that what is proved of one manager holds of the proxy; and an
  upgrade of the owner to a manager with these immutables always goes through.
-/

namespace Ntt

open Reentrant

/-- The reasons for which a manager refuses its deployment. -/
inductive DeploymentError where
  | notInitializing
  | unexpectedDeployer (expectedOwner owner : Address)
  | unexpectedMsgValue
  | manager (e : Error)
deriving DecidableEq, Repr

/-- The immutables that an upgrade compares. -/
structure NttManagerImmutables where
  token : Address
  mode : Mode
  chainId : UInt16
  rateLimitDuration : UInt64
deriving DecidableEq, Repr

/-- A manager as the code at an address. -/
abbrev ManagerImplementation : Type :=
  Implementation managerInterface State DeploymentError NttManagerImmutables NttManager.Call

/-- A proxy with managers. -/
abbrev ManagerDeployment : Type :=
  Deployment managerInterface State DeploymentError NttManagerImmutables NttManager.Call

/-- A program of a manager's deployment. -/
abbrev DeploymentProg (α : Type) : Type := Prog managerInterface State DeploymentError α

namespace NttManager

variable (M : NttManager)

/-! ### Initialization -/

/-- Writes the storage, outside the log of the actions. -/
def setStorage (f : Storage → Storage) : DeploymentProg Unit :=
  modify fun s => { s with storage := f s.storage }

/-- `onlyInitializing`. -/
def onlyInitializing (initializing : Bool) : DeploymentProg Unit :=
  revertIf (initializing = false) .notInitializing

/-- `__PausedOwnable_init`. -/
def _PausedOwnable_init (initializing : Bool) (initialPauser owner : Address) :
    DeploymentProg Unit := do
  onlyInitializing initializing
  setStorage ({ · with paused := false })
  setStorage ({ · with pauser := initialPauser })
  revertIf (owner = 0) (.manager (.ownableInvalidOwner 0))
  setStorage ({ · with owner })

/-- `__ReentrancyGuard_init`. -/
def _ReentrancyGuard_init (initializing : Bool) : DeploymentProg Unit := do
  onlyInitializing initializing
  setStorage ({ · with entered := false })

/-- `__NttManager_init`. -/
def _NttManager_init (deployer : Address) (ctx : Context) (initializing : Bool) :
    DeploymentProg Unit := do
  onlyInitializing initializing
  revertIf (ctx.sender ≠ deployer) (.unexpectedDeployer deployer ctx.sender)
  revertIf (ctx.value ≠ 0) .unexpectedMsgValue
  _PausedOwnable_init initializing ctx.sender ctx.sender
  _ReentrancyGuard_init initializing
  let decimals ← tokenDecimals.mapError .manager
  (M.setOutboundLimitTrimmed ctx (.max decimals)).mapError .manager

/-- `_checkThresholdInvariants` and `_checkTransceiversInvariants`. -/
def checkInvariants : ManagerProg Unit := do
  let st ← load
  st.quorum.checkThresholdInvariants
  st.registry.checkTransceiversInvariants

/-- `_initialize`. -/
def _initializeStorage (deployer : Address) (ctx : Context) (initializing : Bool) :
    DeploymentProg Unit := do
  M._NttManager_init deployer ctx initializing
  checkInvariants.mapError .manager

/-! ### Upgrades -/

/-- `_migrate`. -/
def _migrate : Prog managerInterface (State × Bool) DeploymentError Unit :=
  Prog.on .fst (checkInvariants.mapError .manager)

/-- What an upgrade compares. -/
def immutables : NttManagerImmutables where
  token := M.token
  mode := M.mode
  chainId := M.chainId
  rateLimitDuration := M.rateLimitDuration

/-- `_checkImmutables`, against those that the calls to itself return. -/
def _checkImmutables (i : NttManagerImmutables) : Except Error Unit := do
  assert (i.token = M.token)
  assert (i.mode = M.mode)
  assert (i.chainId = M.chainId)
  assert (i.rateLimitDuration = M.rateLimitDuration)

/-- A manager as an implementation, at an address. -/
def implementation (this deployer : Address) : ManagerImplementation where
  _this := this
  immutables := M.immutables
  _initializeStorage := M._initializeStorage deployer
  _migrate _ := _migrate
  _checkImmutables i := (M._checkImmutables i).mapError .manager
  owner s := s.storage.owner
  body ctx k := (M.body ctx k).mapError .manager

/-- A manager with other immutables. -/
def withImmutables (i : NttManagerImmutables) (evmChainId : ℕ) : NttManager :=
  { M with
    token := i.token
    mode := i.mode
    chainId := i.chainId
    rateLimitDuration := i.rateLimitDuration
    evmChainId := evmChainId }

/-- The storage behind a proxy that nobody initialized: there is no owner, and no limit. -/
def uninitialized (token : Ledger) : State := ⟨.initial 0 .zero, token, []⟩

variable {M} {R : Rules} {init : Storage} {deployer owner : Address} {limit : RateLimitParams}
  {ctx : Context} {s : State}

/-! ### Checks and migrations -/

/-- All immutables are compared. -/
theorem _checkImmutables_eq_ok {i : NttManagerImmutables} {u : Unit} :
    M._checkImmutables i = .ok u ↔ i = M.immutables := by
  obtain ⟨token, mode, chainId, rateLimitDuration⟩ := i
  simp [_checkImmutables, immutables]

theorem implementation_check_eq_ok {this : Address} {i : NttManagerImmutables} :
    (M.implementation this deployer)._checkImmutables i = .ok () ↔ i = M.immutables := by
  change Except.mapError DeploymentError.manager (M._checkImmutables i) = .ok () ↔ _
  cases h : M._checkImmutables i with
  | ok u => exact ⟨fun _ => _checkImmutables_eq_ok.mp h, fun _ => rfl⟩
  | error e =>
      refine ⟨fun hok => (by cases hok), fun hi => ?_⟩
      have hok : M._checkImmutables i = .ok () := _checkImmutables_eq_ok.mpr hi
      rw [hok] at h
      cases h

/-- The checks call nobody and write nothing. -/
theorem writes_checkInvariants : Writes (fun _ => False) (fun s s' => s' = s) checkInvariants :=
  .bind (.bind .get fun _ => .pure _) fun _ => .bind (.liftExcept _) fun _ => .liftExcept _

/-- They pass where the registry and the threshold are in order. -/
theorem run_checkInvariants (h : s.storage.quorum.Inv) : checkInvariants.run s = .ret () s := by
  have hthreshold : s.storage.quorum.checkThresholdInvariants = .ok () := by
    have heq := Quorum.checkThresholdInvariants_eq h.registry s.storage.quorum.threshold
    rw [if_neg (Nat.not_lt.mpr h.threshold_le), if_neg] at heq
    · exact heq
    · rintro ⟨hne, h0⟩
      exact absurd (h0 ▸ h.threshold_pos hne) (by decide)
  have hregistry : s.storage.registry.checkTransceiversInvariants = .ok () :=
    h.registry.checkTransceiversInvariants_eq
  simp only [checkInvariants, run_bind, run_load, Res.bind_ret, monadLift_eq_liftExcept,
    hthreshold, hregistry, run_liftExcept_ok]

/-- A migration calls nobody and writes nothing. -/
theorem writes_migrate : Writes (fun _ => False) (fun s s' => s' = s) _migrate :=
  (writes_checkInvariants.mapError DeploymentError.manager).on fun _ _ _ h => by rw [h]

theorem keepsImmutables (M : NttManager) (this deployer : Address) :
    (M.implementation this deployer).KeepsImmutables :=
  fun _ => writes_migrate.mono (fun _ h => h.elim) fun _ _ h => by rw [h]

theorem within_checkInvariants : Within (M.safety R init) checkInvariants := by
  have hE := M.safety_closed R init
  refine writes_checkInvariants.within hE ?_ fun _ _ _ _ hf => hf.elim
  intro s s' h hs
  rw [h]
  exact ⟨hs, hE.refl s⟩

/-! ### Managers that only differ in their fork -/

/-- A manager that differs from another in the chain id of its fork only. -/
def IsFork (M : NttManager) (I : ManagerImplementation) : Prop :=
  ∃ n this deployer, I = (M.withImmutables M.immutables n).implementation this deployer

/-- The implementations are builds of one manager, with any immutables. -/
def Builds (M : NttManager) (D : ManagerDeployment) : Prop :=
  ∀ a I, D.code a = some I → ∃ i n deployer, I = (M.withImmutables i n).implementation a deployer

theorem permitted_fork {n : ℕ} {st : Storage} {log : List LogEntry} {a : Action} :
    (M.withImmutables M.immutables n).Permitted R ctx st log a ↔ M.Permitted R ctx st log a := by
  cases a <;> exact Iff.rfl

/-- A history carries over to a manager that permits the same actions. -/
theorem History.of_permitted {N : NttManager} {st : Storage} {log : List LogEntry}
    (hp : ∀ {ctx st log a}, M.Permitted R ctx st log a → N.Permitted R ctx st log a)
    (h : M.History R init log st) : N.History R init log st := by
  induction h with
  | nil => exact .nil
  | cons _ ha ih => exact .cons ih (hp ha)

theorem history_fork {n : ℕ} {st : Storage} {log : List LogEntry} :
    (M.withImmutables M.immutables n).History R init log st ↔ M.History R init log st :=
  ⟨.of_permitted permitted_fork.mp, .of_permitted permitted_fork.mpr⟩

theorem safety_fork {n : ℕ} :
    (M.withImmutables M.immutables n).safety R init = M.safety R init := by
  simp only [safety, history_fork]

variable {D : ManagerDeployment} {first : Address}

/-- What the code approves of is a fork. -/
theorem IsFork.upgrade (hD : M.Builds D) {b : Address} {old new : ManagerImplementation}
    (hnew : D.code b = some new) (hold : M.IsFork old)
    (happroved : new.KeepsImmutables → old._checkImmutables new.immutables = .ok ()) :
    M.IsFork new := by
  obtain ⟨n, this, d, rfl⟩ := hold
  obtain ⟨i, n', d', rfl⟩ := hD b new hnew
  have hcheck : ((M.withImmutables M.immutables n).implementation this d)._checkImmutables i =
      .ok () := happroved (keepsImmutables _ _ _)
  have hi := implementation_check_eq_ok.mp hcheck
  obtain rfl : i = M.immutables := hi
  exact ⟨n', b, d', rfl⟩

theorem IsFork.immutables_eq {I : ManagerImplementation} (h : M.IsFork I) :
    I.immutables = M.immutables := by
  obtain ⟨n, this, d, rfl⟩ := h
  rfl

/-- A fork passes the checks of another. -/
theorem IsFork.check {I J : ManagerImplementation} (hI : M.IsFork I)
    (hJ : J.immutables = M.immutables) : I._checkImmutables J.immutables = .ok () := by
  obtain ⟨n, this, d, rfl⟩ := hI
  exact implementation_check_eq_ok.mpr hJ

/-- The managers keep their histories, over upgrades too. -/
theorem manager_keeps (hD : M.Builds D)
    (hfirst : D.code first = some (M.implementation first deployer)) :
    D.Keeps first 1 M.IsFork (M.safety R (.initial owner limit))
      fun s ctx k => R.calls s.storage s.log ctx k where
  closed := M.safety_closed R (.initial owner limit)
  first I hI := ⟨M.evmChainId, first, deployer, Option.some.inj (hI.symm.trans hfirst)⟩
  upgrade _ b _ _ _ hnew hold happroved := hold.upgrade hD hnew happroved
  initialization h := absurd h (by decide)
  migration a I _ hI := by
    obtain ⟨i, n, d, rfl⟩ := hD a I hI
    exact (within_checkInvariants.mapError DeploymentError.manager).on
  silent a I _ hI _ := by
    obtain ⟨i, n, d, rfl⟩ := hD a I hI
    exact writes_migrate.mono (fun _ h => h.elim) fun _ _ _ => trivial
  body a I ctx k s _ hI hadm hs := by
    obtain ⟨n, this, d, rfl⟩ := hI
    have hsound : Sound (M.withImmutables M.immutables n).contract R.environment
        ((M.withImmutables M.immutables n).safety R (.initial owner limit)) := sound
    rw [safety_fork] at hsound
    exact wp_mapError_run.mpr (hsound.2 (ctx, k) s hadm hs)

/-! ### Initialization -/

/-- The initialization leaves a storage from which histories of its caller start. -/
theorem wp_initializeStorage {token : Ledger} :
    ((M._initializeStorage deployer ctx true).run (uninitialized token)).wp
      (M.safety R (.initial ctx.sender .zero)) fun _ s =>
        (M.safety R (.initial ctx.sender .zero)).inv s := by
  simp only [_initializeStorage, _NttManager_init, _PausedOwnable_init, _ReentrancyGuard_init,
    onlyInitializing, setStorage, run_bind, Res.wp_bind, wp_revertIf, wp_modify, wp_mapError_run,
    wp_tokenDecimals]
  intro _ _ _ _ _ _ d _
  have hinit : (M.safety R (.initial ctx.sender .zero)).inv
      ⟨.initial ctx.sender .zero, token, []⟩ := .nil
  refine Res.wp_mono (fun _ s hs => ?_) (setOutboundLimitTrimmed_within _ _ hinit)
  exact Res.wp_mono (fun _ _ h => h.1) (within_checkInvariants s hs.1)

/-- What the first call of a proxy leaves, when it is its initialization. -/
theorem initialize_history (hfirst : D.code first = some (M.implementation first deployer))
    {token : Ledger} {codeLength : ℕ} {s₀ : ProxyState State}
    (h : Runs (R.world.on appPart) ((D.body ⟨ctx, codeLength, .initializeProxy⟩).run
      (.fresh first (uninitialized token))) (.ret () s₀)) :
    s₀.control = ⟨first, 1, false, false, false⟩ ∧ s₀.log = [.Initialized 1] ∧
      M.History R (.initial ctx.sender .zero) s₀.app.log s₀.app.storage := by
  refine h.wp (E := D.proxying first 0 [] (fun _ => True) (M.safety R (.initial ctx.sender .zero)))
    (Q := fun _ s => s.control = ⟨first, 1, false, false, false⟩ ∧ s.log = [.Initialized 1] ∧
      M.History R (.initial ctx.sender .zero) s.app.log s.app.storage) ?_
  rw [Deployment.body, run_bind, Res.wp_bind]
  refine Deployment.wp_current fun I hI => ?_
  obtain rfl : M.implementation first deployer = I := Option.some.inj (hfirst.symm.trans hI)
  simp only [Implementation.initializeProxy, Implementation._checkDelegateCall, initializer,
    run_bind, Res.wp_bind, wp_revertIf, Deployment.wp_control, Deployment.wp_setControl,
    ProxyState.fresh, Bool.not_false, if_true]
  intro _ _
  refine Res.wp_mono ?_ (Deployment.wp_onApp (D := D)
    (K := fun c l => c = ⟨first, 1, true, false, false⟩ ∧ l = []) ?_ ?_
    wp_initializeStorage ⟨rfl, rfl⟩)
  · rintro _ ⟨c, app, log⟩ ⟨happ, rfl, rfl⟩
    exact ⟨rfl, rfl, happ⟩
  · rintro c l ⟨rfl, rfl⟩
    exact ⟨.initializing rfl, fun _ _ => trivial⟩
  · rintro c l c' l' ⟨rfl, rfl⟩ - hmoves
    exact hmoves.held rfl

/-! ### Upgrades -/

/-- A migration passes where the registry and the threshold are in order. -/
theorem run_migrate {exempt : Bool} (h : s.storage.quorum.Inv) :
    _migrate.run (s, exempt) = .ret () (s, exempt) :=
  run_on_ret (L := .fst) (p := (s, exempt)) (run_mapError_ret (run_checkInvariants h))

/-- **Upgrades of a manager.** After its initialization, over any calls and any upgrades to builds
of managers, the storage is a history of the manager that it was initialized with, so that what is
proved of its histories holds of the proxy. The immutables of the code in the slot stay the same.
Between transactions the proxy is at rest, with each version reached once, in order; and then every
upgrade of the owner to a build with the same immutables goes through, and leaves the storage of
the manager as it is. -/
theorem manager_upgrades (hD : M.Builds D)
    (hfirst : D.code first = some (M.implementation first deployer))
    {token : Ledger} {codeLength : ℕ} {s₀ : ProxyState State}
    (hinit : Runs (R.world.on appPart) ((D.body ⟨ctx, codeLength, .initializeProxy⟩).run
      (.fresh first (uninitialized token))) (.ret () s₀))
    {c : Config managerInterface (ProxyState State) (UpgradeError DeploymentError)}
    (h : Reachable D.contract
      (proxyEnvironment R.world fun s ctx k => R.calls s.storage s.log ctx k) s₀ c) :
    M.History R (.initial ctx.sender .zero) c.st.app.log c.st.app.storage ∧
      (∀ I, D.code c.st.control.implementation = some I → I.immutables = M.immutables) ∧
      (c.stack = [] → ∃ v a, D.Lifecycle first 1 [.Initialized 1] c.st.log v a ∧
        c.st.control = ⟨a, v, false, false, false⟩ ∧
        Deployment.versions c.st.log = (List.range' 1 v.toNat).reverse ∧
        ∀ ctx' m b I, D.code b = some I → I.immutables = M.immutables →
          ctx'.sender = c.st.app.storage.owner → ctx'.value = 0 → v.toNat + 1 < 2 ^ 64 →
          (D.body ⟨ctx', m, .upgrade b⟩).run c.st =
            .ret () ⟨⟨b, v + 1, false, false, false⟩, c.st.app,
              .Initialized (v + 1) :: .Upgraded b :: c.st.log⟩) := by
  obtain ⟨control, app, log⟩ := s₀
  obtain ⟨rfl, rfl, happ⟩ := initialize_history hfirst hinit
  obtain ⟨-, hhistory, hkind, hidle⟩ := Deployment.upgrades_whole (manager_keeps hD hfirst) happ h
  refine ⟨hhistory, fun I hI => (hkind I hI).immutables_eq, fun hstack => ?_⟩
  obtain ⟨v, a, hlife, hc, -, hversions, -⟩ := hidle hstack
  refine ⟨v, a, hlife, hc, ?_, fun ctx' m b J hJ hsame howner hvalue hv => ?_⟩
  · obtain ⟨n, hn⟩ := Nat.exists_eq_add_of_le' (Deployment.Lifecycle.versions_eq hlife).1
    rw [hversions, hn]
    simp [Deployment.versions, List.range'_succ]
  · obtain ⟨old, hold⟩ := hlife.code ⟨_, hfirst⟩
    have hfork : M.IsFork old := hkind old (by rw [hc]; exact hold)
    obtain ⟨i, n, d, rfl⟩ := hD b J hJ
    obtain ⟨n', this, d', rfl⟩ := hfork
    exact Deployment.run_upgrade hold hJ hc howner.symm hvalue hv
      (run_migrate hhistory.quorum_inv) fun _ => IsFork.check ⟨n', this, d', rfl⟩ hsame

/-! ### A deployment -/

/-- The sample manager behind a proxy, with a second build for another fork. -/
def sampleDeployment : ManagerDeployment where
  proxy := 0x1000
  code a :=
    let M := sample fun _ => sampleDigest
    if a = 0x11 then some (M.implementation a 0xA)
    else if a = 0x12 then some ((M.withImmutables M.immutables 10).implementation a 0xB)
    else none
  this_eq a I h := by
    split_ifs at h <;> cases h <;> rfl
  proxy_code := by decide

/-- The token reports 18 decimals, and nothing else is answered. -/
def respondDecimals :
    (x : Ext) → ProxyState State → Unit →
      Except (UpgradeError DeploymentError) (x.Reply × ProxyState State × Unit)
  | .tokenDecimals, s, u => .ok ((18 : UInt8), s, u)
  | .balanceOf _, _, _ | .quoteDeliveryPrice .., _, _ | .safeTransferFrom .., _, _
  | .burn _, _, _ | .mint .., _, _ | .safeTransfer .., _, _ | .sendMessage .., _, _
  | .transferTransceiverOwnership .., _, _ | .sendValue .., _, _ => .error .panic

theorem builds_sampleDeployment : (sample fun _ => sampleDigest).Builds sampleDeployment := by
  intro a I h
  simp only [sampleDeployment] at h
  split_ifs at h <;> cases h
  · exact ⟨(sample fun _ => sampleDigest).immutables, 1, 0xA, rfl⟩
  · exact ⟨(sample fun _ => sampleDigest).immutables, 10, 0xB, rfl⟩

theorem answers_respondDecimals :
    Answers (X := managerInterface) (Rules.any.world.on appPart) respondDecimals := by
  intro x s u r s' u' h
  cases x <;> cases h
  exact ⟨s.app, ⟨rfl, trivial⟩, rfl⟩

theorem closed_of_respondDecimals (x : Ext) (s : ProxyState State) (u : Unit)
    (p : x.Reply × ProxyState State × Unit) (h : respondDecimals x s u = .ok p) :
    (Rules.any.world.on (ρ := ProxyState State) appPart).closed x = true := by
  cases x <;> cases h
  rfl

/-- The sample proxy is upgraded after its initialization. -/
theorem sample_manager_upgrades : ∃ s : ProxyState State,
    (sample fun _ => sampleDigest).History .any (.initial 0xA .zero) s.app.log s.app.storage ∧
      s.control = ⟨0x12, 2, false, false, false⟩ ∧
      s.log = [.Initialized 2, .Upgraded 0x12, .Initialized 1] := by
  obtain ⟨⟨_, ⟨control, app, log⟩, _⟩, hs₀, -⟩ := exists_of_any (p := fun _ => true)
    (x := ((sampleDeployment.body ⟨sampleContext 0xA, 1, .initializeProxy⟩).run
      (.fresh 0x11 (uninitialized .empty))).drive respondDecimals ()) (by decide +kernel)
  have hinit := Runs.of_drive answers_respondDecimals closed_of_respondDecimals hs₀
  obtain ⟨rfl, rfl, -⟩ := initialize_history (M := sample fun _ => sampleDigest) rfl hinit
  obtain ⟨-, -, hidle⟩ := manager_upgrades builds_sampleDeployment rfl hinit .refl
  obtain ⟨v, a, -, hc, -, hupgrade⟩ := hidle rfl
  obtain rfl : 1 = v := congrArg Control.initialized hc
  have hrun := hupgrade (sampleContext app.storage.owner) 1 0x12 _ rfl rfl rfl rfl (by decide)
  have hruns : Runs (Rules.any.world.on appPart) ((sampleDeployment.body
      ⟨sampleContext app.storage.owner, 1, .upgrade 0x12⟩).run
        ⟨⟨0x11, 1, false, false, false⟩, app, [.Initialized 1]⟩)
      (.ret () ⟨⟨0x12, 2, false, false, false⟩, app,
        [.Initialized 2, .Upgraded 0x12, .Initialized 1]⟩) := by
    rw [hrun]
    exact .ret _
  have hstep := Step.enter (C := sampleDeployment.contract)
    (V := proxyEnvironment Rules.any.world fun s ctx k => Rules.any.calls s.storage s.log ctx k)
    (c := ⟨⟨⟨0x11, 1, false, false, false⟩, app, [.Initialized 1]⟩, []⟩)
    ⟨sampleContext app.storage.owner, 1, .upgrade 0x12⟩
    ⟨Nat.one_ne_zero, fun _ h => by cases h⟩ hruns
  obtain ⟨hhistory, -, -⟩ := manager_upgrades builds_sampleDeployment rfl hinit (.single hstep)
  exact ⟨_, hhistory, rfl, rfl⟩

end NttManager

end Ntt
