import Ntt.Evm.State
import Ntt.Lib.Linking
import Ntt.Lib.Machine

/-!
# Proxies and Their Implementations

`Implementation` and `Initializable` of the contracts, as programs over the storage of a proxy. The
storage has two parts: what the base contracts keep in slots of their own (`Control`), and the
storage of what is deployed. An `Implementation` is the code at an address: its immutables, and the
functions that the base contract leaves to those that inherit it, each a program on the storage
that it knows of. A `Deployment` says which implementations there are, and a call of its proxy runs
the one in the slot.

An upgrade replaces the code under a storage, and runs the new code's migration before the old
code's checks. Meanwhile the storage says that it is migrating and initializing; calls from
anywhere may be nested in the migration.

## Main definitions

* `Implementation`, `Deployment`: the code at an address, and a proxy with all of them.
* `Deployment._upgrade`, `Implementation.migrate`, `initializer`, `reinitializer`: the programs.
* `Deployment.contract`: a proxy as a machine, whose calls run the code in its slot.
-/

namespace Ntt

open Reentrant

/-! ### Storage -/

/-- What the base contracts keep in their own slots. -/
structure Control where
  /-- The slot of the implementation. -/
  implementation : Address
  /-- The version that the storage is initialized to. -/
  initialized : UInt64
  initializing : Bool
  isMigrating : Bool
  migratesImmutables : Bool
deriving DecidableEq, Repr

/-- The events of the base contracts. -/
inductive ProxyEvent where
  | Initialized (version : UInt64)
  | Upgraded (implementation : Address)
deriving DecidableEq, Repr

/-- The storage of a proxy, and the events so far, newest first. -/
structure ProxyState (σ : Type) where
  control : Control
  /-- The storage of what is deployed. -/
  app : σ
  log : List ProxyEvent

/-- The reasons for which a call of a proxy reverts. -/
inductive UpgradeError (ε : Type) where
  | onlyDelegateCall
  | notMigrating
  | invalidInitialization
  /-- The new implementation is not a contract. -/
  | notAContract (implementation : Address)
  | ownableUnauthorizedAccount (account : Address)
  | nonPayable
  /-- A failed assertion, or an overflow. -/
  | panic
  /-- What the deployed contract reverts with. -/
  | app (e : ε)
deriving DecidableEq, Repr

section

variable {σ : Type}

/-- The storage of what is deployed. -/
@[simps] def appPart : Part (ProxyState σ) σ where
  get := ProxyState.app
  set p s := { p with app := s }
  get_set _ _ := rfl
  set_get _ := rfl
  set_set _ _ _ := rfl

/-- The same, with the flag that a migration can set. -/
@[simps] def migrationPart : Part (ProxyState σ) (σ × Bool) where
  get p := (p.app, p.control.migratesImmutables)
  set p s := { p with control := { p.control with migratesImmutables := s.2 }, app := s.1 }
  get_set _ _ := rfl
  set_get _ := rfl
  set_set _ _ _ := rfl

end

/-! ### Implementations -/

variable {X : Interface} {σ ε ι κ : Type}

/-- A program of a proxy. -/
abbrev ProxyProg (X : Interface) (σ ε α : Type) : Type := Prog X (ProxyState σ) (UpgradeError ε) α

/-- An implementation: its address and its immutables, the functions that the base contract leaves
open, and its external functions. -/
structure Implementation (X : Interface) (σ ε ι κ : Type) where
  _this : Address
  immutables : ι
  /-- `_initialize`: reads whether the storage is initializing, and changes its own part. -/
  _initializeStorage : Context → Bool → Prog X σ ε Unit
  /-- Changes its own part, and can set the flag that the immutables differ. -/
  _migrate : Context → Prog X (σ × Bool) ε Unit
  /-- Compares its immutables with those that the calls to itself return. -/
  _checkImmutables : ι → Except ε Unit
  owner : σ → Address
  body : Context → κ → Prog X σ ε Unit

/-- A program on the storage of what is deployed, as one of the proxy. -/
def onApp {α : Type} (m : Prog X σ ε α) : ProxyProg X σ ε α :=
  Prog.on appPart (m.mapError .app)

/-- A migration, as a program of the proxy. -/
def onMigration {α : Type} (m : Prog X (σ × Bool) ε α) : ProxyProg X σ ε α :=
  Prog.on migrationPart (m.mapError .app)

/-- Reads the slots of the base contracts. -/
def control : ProxyProg X σ ε Control := do
  return (← get).control

/-- Writes the slots of the base contracts. -/
def setControl (f : Control → Control) : ProxyProg X σ ε Unit :=
  modify fun s => { s with control := f s.control }

/-- Emits an event. -/
def emit (e : ProxyEvent) : ProxyProg X σ ε Unit := modify fun s => { s with log := e :: s.log }

/-- The modifier `initializer`; the code of a contract under construction has length zero. -/
def initializer (codeLength : ℕ) (body : ProxyProg X σ ε Unit) : ProxyProg X σ ε Unit := do
  let c ← control
  let isTopLevelCall := !c.initializing
  let initialSetup := c.initialized == 0 && isTopLevelCall
  let construction := c.initialized == 1 && codeLength == 0
  revertIf (initialSetup = false ∧ construction = false) .invalidInitialization
  setControl ({ · with initialized := 1 })
  if isTopLevelCall then setControl ({ · with initializing := true })
  body
  if isTopLevelCall then do
    setControl ({ · with initializing := false })
    emit (.Initialized 1)

/-- The modifier `reinitializer`. -/
def reinitializer (version : UInt64) (body : ProxyProg X σ ε Unit) : ProxyProg X σ ε Unit := do
  let c ← control
  revertIf (c.initializing = true ∨ c.initialized ≥ version) .invalidInitialization
  setControl ({ · with initialized := version })
  setControl ({ · with initializing := true })
  body
  setControl ({ · with initializing := false })
  emit (.Initialized version)

namespace Implementation

variable (I : Implementation X σ ε ι κ)

/-- `_checkDelegateCall`, at an address. -/
def _checkDelegateCall (this : Address) : ProxyProg X σ ε Unit :=
  revertIf (this = I._this) .onlyDelegateCall

/-- `initialize`, payable. -/
def initializeProxy (this : Address) (codeLength : ℕ) (ctx : Context) : ProxyProg X σ ε Unit := do
  I._checkDelegateCall this
  initializer codeLength do
    let c ← control
    onApp (I._initializeStorage ctx c.initializing)

/-- `migrate`. -/
def migrate (this : Address) (ctx : Context) : ProxyProg X σ ε Unit := do
  revertIf (ctx.value ≠ 0) .nonPayable
  I._checkDelegateCall this
  let c ← control
  revertIf (c.initialized.toNat + 1 ≥ 2 ^ 64) .panic
  reinitializer (c.initialized + 1) do
    let c ← control
    revertIf (c.isMigrating = false) .notMigrating
    onMigration (I._migrate ctx)

/-- A migration that does not ask for other immutables. -/
def KeepsImmutables : Prop := ∀ ctx, Leaves (fun _ => True) Prod.snd (I._migrate ctx)

end Implementation

/-- A proxy, and the implementations by address. -/
structure Deployment (X : Interface) (σ ε ι κ : Type) where
  proxy : Address
  code : Address → Option (Implementation X σ ε ι κ)
  /-- An implementation knows its address from its constructor. -/
  this_eq : ∀ a I, code a = some I → I._this = a
  proxy_code : code proxy = none

/-- A call of a proxy. -/
inductive ProxyCall (κ : Type) where
  | initializeProxy
  | migrate
  | upgrade (newImplementation : Address)
  | call (k : κ)

/-- A call of a proxy in its context; the code of a proxy has length zero while its constructor
runs. -/
structure ProxyEntry (κ : Type) where
  ctx : Context
  codeLength : ℕ
  call : ProxyCall κ

namespace Deployment

variable (D : Deployment X σ ε ι κ)

/-- The code that a call of the proxy runs. -/
def current : ProxyProg X σ ε (Implementation X σ ε ι κ) := do
  let c ← control
  match D.code c.implementation with
  | some I => return I
  | none => revert (.notAContract c.implementation)

/-- `_upgradeTo`. -/
def _upgradeTo (newImplementation : Address) : ProxyProg X σ ε Unit := do
  revertIf (D.code newImplementation = none) (.notAContract newImplementation)
  setControl ({ · with implementation := newImplementation })
  emit (.Upgraded newImplementation)

/-- `_upgrade`, of the code that is replaced: the calls to itself run the new code. -/
def _upgrade (I : Implementation X σ ε ι κ) (ctx : Context) (newImplementation : Address) :
    ProxyProg X σ ε Unit := do
  I._checkDelegateCall D.proxy
  D._upgradeTo newImplementation
  let c ← control
  revertIf (c.isMigrating = true) .panic
  setControl ({ · with isMigrating := true })
  let new ← D.current
  new.migrate D.proxy { ctx with sender := D.proxy, value := 0 }
  let c ← control
  if c.migratesImmutables = false then do
    let new ← D.current
    Reentrant.liftExcept ((I._checkImmutables new.immutables).mapError .app)
  setControl ({ · with migratesImmutables := false })
  setControl ({ · with isMigrating := false })

/-- `upgrade`. -/
def upgrade (I : Implementation X σ ε ι κ) (ctx : Context) (newImplementation : Address) :
    ProxyProg X σ ε Unit := do
  revertIf (ctx.value ≠ 0) .nonPayable
  let s ← get
  revertIf (I.owner s.app ≠ ctx.sender) (.ownableUnauthorizedAccount ctx.sender)
  D._upgrade I ctx newImplementation

/-- The program of a call. -/
def body (e : ProxyEntry κ) : ProxyProg X σ ε Unit := do
  let I ← D.current
  match e.call with
  | .initializeProxy => I.initializeProxy D.proxy e.codeLength e.ctx
  | .migrate => I.migrate D.proxy e.ctx
  | .upgrade newImplementation => D.upgrade I e.ctx newImplementation
  | .call k => onApp (I.body e.ctx k)

/-- A proxy as a machine. -/
def contract : Contract X (ProxyState σ) (UpgradeError ε) where
  Entry := ProxyEntry κ
  body := D.body

end Deployment

/-- Around a proxy that was constructed, with the calls of the deployed contract that can be made on
its storage. -/
def proxyEnvironment (W : World X σ) (admits : σ → Context → κ → Prop) :
    Environment X (ProxyState σ) (ProxyEntry κ) where
  toWorld := W.on appPart
  admits s e := e.codeLength ≠ 0 ∧ ∀ k, e.call = .call k → admits s.app e.ctx k

/-- The storage of a proxy that nobody initialized yet. -/
def ProxyState.fresh (implementation : Address) (app : σ) : ProxyState σ where
  control := ⟨implementation, 0, false, false, false⟩
  app := app
  log := []

end Ntt
