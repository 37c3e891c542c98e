import Ntt.Solana.Inbox
import Ntt.Solana.ReceiveMessage
import Ntt.Solana.UnverifiedMessage

/-!
# Both Solana Programs

The manager and the transceiver are programs of their own. The transceiver stores the message of a
VAA in an account, once it has checked the emitter and the signatures of the guardians. The manager
redeems any account that belongs to the transceiver and deserializes as a message. An account of the
transceiver may also be a body that anybody has uploaded, or a peer: what tells them apart is the
discriminator.

`Deployment.machine` takes the calls of both programs in any order. The manager is a part of it
(`manager_isPart`), so that what holds of every run of the manager holds here.

## Main results

* `Deployment.call_step`: what a call does to the accounts of the transceiver.
* `redeemed_received`: a message that is redeemed was received.
* `votes_received`: the votes of the transceiver, along a run.
* `paid_received`: what is paid was received, if the transceiver is needed for the threshold.
-/

namespace Ntt.Solana

open BigEndian Wire

variable {L : Type}

/-! ### The accounts -/

/-- The accounts that belong to the transceiver program. -/
inductive TransceiverAccount where
  | message (key : UInt16 × Bytes32)
  | body (key : Pubkey × UInt64)
  | peer (chain : UInt16)
deriving DecidableEq

/-- The accounts of both programs: the messages are found by chain and id. -/
structure Accounts (L : Type) where
  manager : State L
  peers : UInt16 → Option Bytes32
  messages : UInt16 × Bytes32 → Option Bytes
  bodies : VaaBodies

/-- The transceiver program as deployed has no accounts yet. -/
def Accounts.initial (manager : State L) : Accounts L where
  manager
  peers _ := none
  messages _ := none
  bodies _ := none

/-- The calls to either program. The manager can redeem what any program claims to be a message. -/
inductive Call (L : Type) where
  | manager (i : Instruction L)
  | redeem (transceiver : Pubkey) (transceiverMessage : TransceiverAccount)
  | setTransceiverPeer (owner : Pubkey) (chainId : ChainId) (address : Bytes32)
  | upload (i : UploadInstruction)
  | receiveMessageInstructionData (vaaBody : VaaBodyBytes)
  | receiveMessageAccount (payer : Pubkey) (seed : UInt64)

/-- How a call fails. -/
inductive CallError where
  | manager (e : Error)
  | account (e : AccountError)
  | receive (e : ReceiveError)
  | upload (e : UploadError)
deriving DecidableEq, Repr

/-- The account that an instruction redeems, if it does. -/
def Instruction.transceiverMessage : Instruction L → Option MessageAccount
  | .redeem _ transceiverMessage => some transceiverMessage
  | _ => none

/-- The program that this account belongs to. -/
def Instruction.messageOwner (i : Instruction L) : Option Pubkey :=
  i.transceiverMessage.map MessageAccount.owner

/-! ### The programs -/

/-- Both programs, and what they use. -/
structure Deployment (L : Type) where
  runtime : Runtime
  token : TokenProgram L
  anchor : AnchorIo
  /-- The address of the transceiver program. -/
  transceiver : Pubkey
  /-- Whether the runtime creates an account of a size. -/
  creates : ℕ → Bool
  /-- Whether the guardians have signed the hash of a body. -/
  verifyHash : Int64 → Bytes → Bool
  VAA_BODY_DISCRIMINATOR : Bytes
  TRANSCEIVER_PEER_DISCRIMINATOR : Bytes
  peerBump : UInt16 → UInt8

namespace Deployment

/-- What the programs rely on: among others that no two types of accounts have one discriminator. -/
structure Lawful (D : Deployment L) : Prop where
  anchor : D.anchor.Lawful
  io : D.runtime.io.Lawful
  vaaBody : D.VAA_BODY_DISCRIMINATOR.length = 8 ∧
    D.VAA_BODY_DISCRIMINATOR ≠ D.anchor.DISCRIMINATOR
  transceiverPeer : D.TRANSCEIVER_PEER_DISCRIMINATOR.length = 8 ∧
    D.TRANSCEIVER_PEER_DISCRIMINATOR ≠ D.anchor.DISCRIMINATOR

variable (D : Deployment L) (A : Accounts L) (now : Int64)

/-- The account of a body: its span behind the length, in the space of the account. -/
def vaaBodyData (vaaBody : VaaBody) : Bytes :=
  let data := (beBytes 4 vaaBody.span.length).reverse ++ vaaBody.span
  D.VAA_BODY_DISCRIMINATOR ++ (data ++ List.replicate (vaaBody.space - 8 - data.length) 0)

def peerData (chain : UInt16) (address : Bytes32) : Bytes :=
  D.TRANSCEIVER_PEER_DISCRIMINATOR ++ (packUint8 (D.peerBump chain) ++ packBytes32 address)

/-- The bytes of an account of the transceiver program. -/
def data : TransceiverAccount → Option Bytes
  | .message key => A.messages key
  | .body key => (A.bodies key).map D.vaaBodyData
  | .peer chain => (A.peers chain).map (D.peerData chain)

/-- An instruction of the manager. -/
def callManager (i : Instruction L) : Except CallError (Accounts L × Option Event) := do
  let (manager, e) ← (A.manager.apply D.runtime D.token now i).mapError .manager
  return ({ A with manager }, e)

/-- `set_transceiver_peer`: the account is created, so that a peer is set once. -/
def setTransceiverPeer (owner : Pubkey) (chainId : ChainId) (address : Bytes32) :
    Except CallError (Accounts L) := do
  (A.manager.hasOneOwner owner).mapError .manager
  if (A.peers chainId.id).isSome then throw (.manager .accountAlreadyInUse)
  return { A with peers := Function.update A.peers chainId.id (some address) }

/-- Stores the message of a body. -/
def receive (vaaBody : VaaBodyBytes) : Except CallError (Accounts L) := do
  let (key, account) ← (receiveMessage D.anchor A.manager.config A.peers A.messages
    (D.verifyHash now) vaaBody).mapError .receive
  return { A with messages := Function.update A.messages key (some account) }

def apply : Call L → Except CallError (Accounts L × Option Event)
  | .manager i =>
      -- the messages that the transceiver program owns are its accounts
      if i.messageOwner = some D.transceiver then throw (.manager .external)
      else D.callManager A now i
  | .redeem transceiver transceiverMessage => do
      let data ← (loadAccount (D.data A transceiverMessage)).mapError .manager
      let message ← (ValidatedTransceiverMessage.tryDeserialize D.anchor data).mapError .account
      D.callManager A now (.redeem transceiver ⟨D.transceiver, message⟩)
  | .setTransceiverPeer owner chainId address => do
      return (← setTransceiverPeer A owner chainId address, none)
  | .upload i => do
      let bodies ← (i.execute D.creates A.bodies).mapError .upload
      return ({ A with bodies }, none)
  | .receiveMessageInstructionData vaaBody => do return (← D.receive A now vaaBody, none)
  | .receiveMessageAccount payer seed => do
      let message ← (loadAccount (A.bodies (payer, seed))).mapError .manager
      let A ← D.receive A now ⟨message.span⟩
      -- the account is closed
      return ({ A with bodies := Function.update A.bodies (payer, seed) none }, none)

/-- Both programs as a machine of timed calls. -/
def machine : Transducer (Accounts L) (Int64 × Call L) (Except CallError (Option Event)) :=
  .ofExcept fun A o => D.apply A o.1 o.2

/-! ### The manager as a part -/

/-- The instruction of the manager that a call comes down to. -/
def managerCall (o : Int64 × Call L) : Option (Int64 × Instruction L) :=
  match o.2 with
  | .manager i => if i.messageOwner = some D.transceiver then none else some (o.1, i)
  | .redeem transceiver transceiverMessage =>
      match D.data A transceiverMessage with
      | none => none
      | some data =>
          match ValidatedTransceiverMessage.tryDeserialize D.anchor data with
          | .ok message => some (o.1, .redeem transceiver ⟨D.transceiver, message⟩)
          | .error _ => none
  | _ => none

/-- The instructions of the manager in a run. -/
def managerCalls (calls : List (Int64 × Call L)) : List (Int64 × Instruction L) :=
  D.machine.inputsOf D.managerCall A calls

/-! ### What was received -/

/-- The body that a call takes from its arguments or from an account. -/
def vaaBody (A : Accounts L) : Call L → Option VaaBodyBytes
  | .receiveMessageInstructionData vaaBody => some vaaBody
  | .receiveMessageAccount payer seed => (A.bodies (payer, seed)).map fun vaaBody => ⟨vaaBody.span⟩
  | _ => none

/-- A call receives a message: the guardians have signed a body for this chain that holds it, and
whose emitter is the peer of its chain. -/
structure Receives (o : Int64 × Call L) (header : VaaHeader) (m : ValidatedTransceiverMessage) :
    Prop where
  unpaused : A.manager.config.paused = false
  body : ∃ body payload, vaaBody A o.2 = some body ∧ D.verifyHash o.1 body.span = true ∧
    (VaaHeader.read D.anchor.io).run body.span = .ok (header, payload) ∧
    body.transceiverMessageData D.anchor = .ok m.message
  fromChain : m.fromChain = ⟨header.emitterChain⟩
  peer : A.peers header.emitterChain = some header.emitterAddress
  toChain : m.message.nttManagerPayload.payload.toChain = A.manager.config.chainId

/-- The owner has set the peer of a chain, which had none. -/
def SetByOwner (calls : List (Int64 × Call L)) (chain : UInt16) (address : Bytes32) : Prop :=
  ∃ before o after owner, calls = before ++ o :: after ∧
    o.2 = .setTransceiverPeer owner ⟨chain⟩ address ∧
    (D.machine.run A before).manager.config.owner = owner ∧
    (D.machine.run A before).peers chain = none

/-- A message was received in one of the calls, from a peer that the owner had set. -/
def Received (calls : List (Int64 × Call L)) (m : ValidatedTransceiverMessage) : Prop :=
  ∃ before o after header, calls = before ++ o :: after ∧
    D.Receives (D.machine.run A before) o header m ∧
    D.SetByOwner A before header.emitterChain header.emitterAddress

/-- The ids of the other transceivers that are enabled. -/
def others : Finset ℕ :=
  match A.manager.registeredTransceivers D.transceiver with
  | some account => A.manager.config.enabledTransceivers.positions.erase account.id.toNat
  | none => A.manager.config.enabledTransceivers.positions

/-- The other transceivers alone do not reach the threshold. -/
def Needed : Prop := (D.others A).card < A.manager.config.threshold.toNat

variable {D A} {now} {A' : Accounts L} {o : Int64 × Call L} {e : Option Event}

theorem callManager_eq_ok {i : Instruction L} : D.callManager A now i = .ok (A', e) ↔
    ∃ manager, A.manager.apply D.runtime D.token now i = .ok (manager, e) ∧
      A' = { A with manager } := by
  simp only [callManager, Except.bind_eq_ok, mapError_eq_ok, Except.pure_eq_ok, Prod.exists,
    Prod.mk.injEq]
  constructor
  · rintro ⟨manager, _, h, rfl, rfl⟩
    exact ⟨manager, h, rfl⟩
  · rintro ⟨manager, h, rfl⟩
    exact ⟨manager, e, h, rfl, rfl⟩

/-- A call that comes down to an instruction of the manager does what this does. -/
theorem apply_of_managerCall {o' : Int64 × Instruction L} (h : D.managerCall A o = some o') :
    D.apply A o.1 o.2 = D.callManager A o'.1 o'.2 ∧
      (o'.2.messageOwner = some D.transceiver → ∃ t account data m,
        D.data A account = some data ∧
        ValidatedTransceiverMessage.tryDeserialize D.anchor data = .ok m ∧
        o'.2 = .redeem t ⟨D.transceiver, m⟩) := by
  obtain ⟨now, call⟩ := o
  cases call with
  | manager i =>
      simp only [managerCall] at h
      split at h
      · cases h
      · rename_i howner
        obtain rfl := Option.some.inj h
        exact ⟨if_neg howner, fun hmem => absurd hmem howner⟩
  | redeem t account =>
      simp only [managerCall] at h
      cases hdata : D.data A account with
      | none => simp [hdata] at h
      | some data =>
          cases hm : ValidatedTransceiverMessage.tryDeserialize D.anchor data with
          | error e => simp [hdata, hm] at h
          | ok m =>
              simp only [hdata, hm, Option.some.injEq] at h
              subst h
              refine ⟨?_, fun _ => ⟨t, account, data, m, hdata, hm, rfl⟩⟩
              have hload : (loadAccount (D.data A account)).mapError CallError.manager = .ok data :=
                mapError_eq_ok.mpr (loadAccount_eq_ok.mpr hdata)
              rw [apply, hload]
              change (do let message ← (ValidatedTransceiverMessage.tryDeserialize D.anchor
                data).mapError CallError.account; _) = _
              rw [mapError_eq_ok.mpr hm]
              rfl
  | setTransceiverPeer | upload | receiveMessageInstructionData | receiveMessageAccount => cases h

theorem receive_manager {body : VaaBodyBytes} (h : D.receive A now body = .ok A') :
    A'.manager = A.manager := by
  simp only [receive, Except.bind_eq_ok, Except.pure_eq_ok] at h
  obtain ⟨_, -, rfl⟩ := h
  rfl

/-- Any other call leaves the manager alone, and makes nothing known. -/
theorem manager_of_apply (h : D.managerCall A o = none) (hstep : D.apply A o.1 o.2 = .ok (A', e)) :
    A'.manager = A.manager ∧ e = none := by
  obtain ⟨now, call⟩ := o
  cases call with
  | manager i =>
      simp only [managerCall] at h
      split at h
      · rename_i howner
        rw [apply, if_pos howner] at hstep
        cases hstep
      · cases h
  | redeem t account =>
      simp only [apply, Except.bind_eq_ok, mapError_eq_ok, loadAccount_eq_ok] at hstep
      obtain ⟨data, hdata, m, hm, -⟩ := hstep
      simp [managerCall, hdata, hm] at h
  | setTransceiverPeer owner chainId address =>
      obtain ⟨hset, rfl⟩ := Except.return_eq_ok.mp hstep
      simp only [setTransceiverPeer, Except.bind_eq_ok] at hset
      obtain ⟨_, -, hset⟩ := hset
      split at hset
      · cases hset
      · obtain rfl := Except.ok.inj hset
        exact ⟨rfl, rfl⟩
  | upload i =>
      simp only [apply, Except.bind_eq_ok, Except.pure_eq_ok, Prod.mk.injEq] at hstep
      obtain ⟨_, -, rfl, rfl⟩ := hstep
      exact ⟨rfl, rfl⟩
  | receiveMessageInstructionData vaaBody =>
      obtain ⟨hreceive, rfl⟩ := Except.return_eq_ok.mp hstep
      exact ⟨receive_manager hreceive, rfl⟩
  | receiveMessageAccount payer seed =>
      simp only [apply, Except.bind_eq_ok, Except.pure_eq_ok, Prod.mk.injEq] at hstep
      obtain ⟨_, -, A₁, hreceive, hA, rfl⟩ := hstep
      have hmanager : A₁.manager = A.manager := receive_manager hreceive
      exact ⟨hA ▸ hmanager, rfl⟩

variable (D) in
/-- **The manager is a part of the machine.** -/
theorem manager_isPart : D.machine.IsPart (Program.machine D.runtime D.token) Accounts.manager
    D.managerCall where
  reached A o o' h := by
    have hstep := (apply_of_managerCall h).1
    cases hmanager : A.manager.apply D.runtime D.token o'.1 o'.2 with
    | error e =>
        have herror : D.apply A o.1 o.2 = .error (.manager e) := by
          rw [hstep, callManager, hmanager]
          rfl
        rw [machine, (Transducer.ofExcept_of_error herror).1, Program.machine,
          (Transducer.ofExcept_of_error hmanager).1]
    | ok r =>
        have hok : D.apply A o.1 o.2 = .ok ({ A with manager := r.1 }, r.2) :=
          hstep.trans (callManager_eq_ok.mpr ⟨r.1, hmanager, rfl⟩)
        rw [machine, (Transducer.ofExcept_of_ok hok).1, Program.machine,
          (Transducer.ofExcept_of_ok hmanager).1]
  unreached A o h := by
    cases hstep : D.apply A o.1 o.2 with
    | error e => rw [machine, (Transducer.ofExcept_of_error hstep).1]
    | ok r =>
        rw [machine, (Transducer.ofExcept_of_ok hstep).1]
        exact (manager_of_apply h hstep).1

/-! ### What a call does to the transceiver -/

/-- What a call does to the peers and messages of the transceiver: nothing, or the owner sets a
peer, or a message is received. -/
inductive CallStep (D : Deployment L) (A A' : Accounts L) (o : Int64 × Call L) : Prop
  | other : A'.peers = A.peers → A'.messages = A.messages → CallStep D A A' o
  | peer {owner chainId address} : o.2 = .setTransceiverPeer owner chainId address →
      A.manager.config.owner = owner → A.peers chainId.id = none →
      A'.peers = Function.update A.peers chainId.id (some address) → A'.messages = A.messages →
      CallStep D A A' o
  | message {header m account} : D.Receives A o header m →
      ValidatedTransceiverMessage.tryDeserialize D.anchor account = .ok m → A'.peers = A.peers →
      A'.messages = Function.update A.messages
        (header.emitterChain, m.message.nttManagerPayload.id) (some account) →
      CallStep D A A' o

/-- A body that is received, by whatever call takes it. -/
theorem receive_spec (hB : D.anchor.Lawful) {body : VaaBodyBytes}
    (hbody : vaaBody A o.2 = some body) (h : D.receive A o.1 body = .ok A') : A'.bodies = A.bodies ∧ CallStep D A A' o := by
  simp only [receive, Except.bind_eq_ok, mapError_eq_ok, Except.pure_eq_ok, Prod.exists] at h
  obtain ⟨key, id, account, hreceive, rfl⟩ := h
  obtain ⟨header, payload, data, hheader, hdata, hkey, hpeer, hchain, haccount⟩ :=
    receiveMessage_checks hB hreceive
  simp only [receiveMessage, Except.bind_eq_ok, Except.pure_eq_ok, mapError_eq_ok,
    requireReceived_eq_ok] at hreceive
  obtain ⟨_, hunpaused, _, -, _, -, _, -, _, -, _, -, _, -, _, -, _, -, _, hverified, -⟩ := hreceive
  refine ⟨rfl, .message ⟨hunpaused, ⟨body, payload, hbody, hverified, hheader, hdata⟩, rfl, hpeer,
    hchain⟩ haccount rfl ?_⟩
  rw [hkey]

theorem call_step (hB : D.anchor.Lawful) (h : D.apply A o.1 o.2 = .ok (A', e)) :
    CallStep D A A' o := by
  obtain ⟨now, call⟩ := o
  have manager {i : Instruction L} (h : D.callManager A now i = .ok (A', e)) :
      CallStep D A A' (now, call) := by
    obtain ⟨manager, -, rfl⟩ := callManager_eq_ok.mp h
    exact .other rfl rfl
  cases call with
  | manager i =>
      rw [apply] at h
      split at h
      · cases h
      · exact manager h
  | redeem t account =>
      simp only [apply, Except.bind_eq_ok] at h
      obtain ⟨_, -, _, -, h⟩ := h
      exact manager h
  | setTransceiverPeer owner chainId address =>
      obtain ⟨hset, rfl⟩ := Except.return_eq_ok.mp h
      simp only [setTransceiverPeer, State.hasOneOwner, Except.bind_eq_ok, mapError_eq_ok,
        require_eq_ok] at hset
      obtain ⟨_, howner, hset⟩ := hset
      split at hset
      · cases hset
      · rename_i hnone
        obtain rfl := Except.ok.inj hset
        exact .peer rfl howner (Option.not_isSome_iff_eq_none.mp hnone) rfl rfl
  | upload i =>
      simp only [apply, Except.bind_eq_ok, Except.pure_eq_ok, Prod.mk.injEq] at h
      obtain ⟨_, -, rfl, -⟩ := h
      exact .other rfl rfl
  | receiveMessageInstructionData body =>
      obtain ⟨hreceive, rfl⟩ := Except.return_eq_ok.mp h
      exact (receive_spec hB rfl hreceive).2
  | receiveMessageAccount payer seed =>
      simp only [apply, Except.bind_eq_ok, mapError_eq_ok, loadAccount_eq_ok, Except.pure_eq_ok,
        Prod.mk.injEq] at h
      obtain ⟨body, hbody, A₁, h, rfl, -⟩ := h
      have hstep := (receive_spec (o := (now, .receiveMessageAccount payer seed)) hB
        (by rw [vaaBody, hbody]; rfl) h).2
      cases hstep with
      | other hpeers hmessages => exact .other hpeers hmessages
      | peer hop => cases hop
      | message hreceives haccount hpeers hmessages =>
          exact .message hreceives haccount hpeers hmessages

/-! ### Along a run -/

variable {A₀ : Accounts L} {calls : List (Int64 × Call L)}

theorem SetByOwner.append {chain : UInt16} {address : Bytes32}
    (h : D.SetByOwner A₀ calls chain address) (more : List (Int64 × Call L)) :
    D.SetByOwner A₀ (calls ++ more) chain address := by
  obtain ⟨before, o, after, owner, rfl, hset⟩ := h
  exact ⟨before, o, after ++ more, owner, by simp, hset⟩

theorem Received.append {m : ValidatedTransceiverMessage} (h : D.Received A₀ calls m)
    (more : List (Int64 × Call L)) : D.Received A₀ (calls ++ more) m := by
  obtain ⟨before, o, after, header, rfl, hreceives⟩ := h
  exact ⟨before, o, after ++ more, header, by simp, hreceives⟩

/-- A peer of the transceiver is never replaced. -/
theorem peers_kept (hB : D.anchor.Lawful) {chain : UInt16} {address : Bytes32}
    (h : A.peers chain = some address) (calls : List (Int64 × Call L)) :
    (D.machine.run A calls).peers chain = some address := by
  induction calls generalizing A with
  | nil => exact h
  | cons o calls ih =>
      refine ih ?_
      cases hstep : D.apply A o.1 o.2 with
      | error e => rw [machine, (Transducer.ofExcept_of_error hstep).1, h]
      | ok r =>
          rw [machine, (Transducer.ofExcept_of_ok hstep).1]
          cases call_step hB hstep with
          | other hpeers => rw [hpeers, h]
          | message _ _ hpeers => rw [hpeers, h]
          | @peer owner chainId address' _ _ hnone hpeers =>
              have hne : chain ≠ chainId.id := by
                rintro rfl
                rw [h] at hnone
                cases hnone
              rw [hpeers, Function.update_of_ne hne, h]

/-- **The accounts of the transceiver**, after any calls: every peer was set by the owner, and every
message was received. Induction on the calls, from the last. -/
theorem accounts_sound (hB : D.anchor.Lawful) (s₀ : State L) (calls : List (Int64 × Call L)) :
    let A := D.machine.run (.initial s₀) calls
    (∀ chain address, A.peers chain = some address →
      D.SetByOwner (.initial s₀) calls chain address) ∧
    ∀ key data, A.messages key = some data → ∃ m,
      ValidatedTransceiverMessage.tryDeserialize D.anchor data = .ok m ∧
        D.Received (.initial s₀) calls m := by
  induction calls using List.reverseRecOn with
  | nil => exact ⟨fun _ _ h => (nomatch h), fun _ _ h => (nomatch h)⟩
  | append_singleton calls o ih =>
      obtain ⟨hpeers, hmessages⟩ := ih
      have hpeers' chain address h := (hpeers chain address h).append [o]
      have hmessages' key data (h : (D.machine.run (.initial s₀) calls).messages key = some data) :
          ∃ m, ValidatedTransceiverMessage.tryDeserialize D.anchor data = .ok m ∧
            D.Received (.initial s₀) (calls ++ [o]) m := by
        obtain ⟨m, hm, hreceived⟩ := hmessages key data h
        exact ⟨m, hm, hreceived.append [o]⟩
      obtain ⟨_, hsame, -⟩ | ⟨_, hstep, -⟩ := Transducer.ofExcept_run_concat
        (fun A o => D.apply A o.1 o.2) (.initial s₀) calls o
      · change D.machine.run _ _ = D.machine.run _ _ at hsame
        rw [hsame]
        exact ⟨hpeers', hmessages'⟩
      · change D.apply (D.machine.run _ calls) o.1 o.2 = .ok (D.machine.run _ (calls ++ [o]), _)
          at hstep
        generalize D.machine.run (.initial s₀) (calls ++ [o]) = A' at hstep ⊢
        cases call_step hB hstep with
        | other hp hm => exact ⟨hp ▸ hpeers', hm ▸ hmessages'⟩
        | @peer owner chainId address hop howner hnone hp hm =>
            refine ⟨fun chain address' h => ?_, hm ▸ hmessages'⟩
            rw [hp] at h
            rcases eq_or_ne chain chainId.id with rfl | hne
            · rw [Function.update_self] at h
              obtain rfl := Option.some.inj h
              exact ⟨calls, o, [], owner, rfl, hop, howner, hnone⟩
            · rw [Function.update_of_ne hne] at h
              exact hpeers' chain address' h
        | @message header m account hreceives haccount hp hm =>
            refine ⟨hp ▸ hpeers', fun key data h => ?_⟩
            rw [hm] at h
            rcases eq_or_ne key (header.emitterChain, m.message.nttManagerPayload.id) with rfl | hne
            · rw [Function.update_self] at h
              obtain rfl := Option.some.inj h
              exact ⟨m, haccount, calls, o, [], header, rfl, hreceives,
                hpeers _ _ hreceives.peer⟩
            · rw [Function.update_of_ne hne] at h
              exact hmessages' key data h

/-- An account that deserializes as a message is one: bodies and peers have other discriminators. -/
theorem message_of_deserialize (hD : D.Lawful) {account : TransceiverAccount} {data : Bytes}
    {m : ValidatedTransceiverMessage} (hdata : D.data A account = some data)
    (hm : ValidatedTransceiverMessage.tryDeserialize D.anchor data = .ok m) :
    ∃ key, A.messages key = some data := by
  obtain ⟨rest, hlayout⟩ := (ValidatedTransceiverMessage.tryDeserialize_eq_ok hD.anchor).mp hm
  have other {discriminator bytes : Bytes} (hne : discriminator.length = 8 ∧
      discriminator ≠ D.anchor.DISCRIMINATOR) (h : discriminator ++ bytes = data) : False := by
    rw [hlayout] at h
    exact hne.2 (List.append_inj_left h (hne.1.trans hD.anchor.discriminator.symm))
  cases account with
  | message key => exact ⟨key, hdata⟩
  | body key =>
      obtain ⟨body, -, hbody⟩ := Option.map_eq_some_iff.mp hdata
      exact (other hD.vaaBody hbody).elim
  | peer chain =>
      obtain ⟨address, -, hpeer⟩ := Option.map_eq_some_iff.mp hdata
      exact (other hD.transceiverPeer hpeer).elim

/-- **What is redeemed was received.** A message of the transceiver that the manager has redeemed in
a run was received before, in a VAA of the peer. -/
theorem redeemed_received (hD : D.Lawful) {s₀ : State L} {t : Pubkey} {m : MessageAccount}
    (h : State.Voted D.runtime D.token s₀ (D.managerCalls (.initial s₀) calls) t m)
    (howner : m.owner = D.transceiver) : D.Received (.initial s₀) calls m.data := by
  obtain ⟨_, o', _, _, hcalls, hop, -⟩ := h
  obtain ⟨before, o, after, rfl, -, ho⟩ := Transducer.exists_of_inputsOf hcalls
  obtain ⟨t', account, data, m', hdata, hm', hop'⟩ := (apply_of_managerCall ho).2
    (by rw [hop, ← howner]; rfl)
  obtain ⟨-, rfl⟩ := Instruction.redeem.inj (hop.symm.trans hop')
  obtain ⟨key, hkey⟩ := message_of_deserialize hD hdata hm'
  obtain ⟨m'', hm'', hreceived⟩ := (accounts_sound hD.anchor s₀ before).2 key data hkey
  obtain rfl := Except.ok.inj (hm'.symm.trans hm'')
  exact hreceived.append _

end Deployment

/-! ### What an item records -/

namespace State

variable {R : Runtime} {T : TokenProgram L} {s s' : State L} {now : Int64}

/-- A transceiver votes with messages that it owns, and that are for this program. -/
theorem Voted.redeems {s₀ : State L} (h₀ : s₀.Registry) {calls : List (Int64 × Instruction L)}
    {t : Pubkey} {m : MessageAccount} (h : Voted R T s₀ calls t m) :
    m.owner = t ∧ m.data.message.recipientNttManager = R.programId := by
  obtain ⟨before, o, after, s', rfl, -, hredeem, -⟩ := h
  obtain ⟨account, key, amount, item, votes, hredeems, -⟩ := redeem_spec hredeem
  exact ⟨hredeems.owner.trans ((registry_run R T h₀ before).address t account
    hredeems.registered).1, hredeems.recipient⟩

/-- The item that a vote finds is new, or the one that exists. -/
theorem AllInit.recordedItem_cases (hs : s.AllInit) (key : Bytes32) (amount : UInt64)
    (recipient : Pubkey) :
    ((s.recordedItem key amount recipient).amount = amount ∧
      (s.recordedItem key amount recipient).recipientAddress = recipient) ∨
    s.inboxItems key = some (s.recordedItem key amount recipient) := by
  cases hitem : s.inboxItems key with
  | none =>
      have hzero : s.itemFor key = .zeroed := by rw [itemFor, hitem]; rfl
      rw [recordedItem, hzero]
      exact .inl ⟨rfl, rfl⟩
  | some item =>
      have hsome : s.itemFor key = item := by rw [itemFor, hitem]; rfl
      have hinit := hs key item hitem
      rw [(hs.recordedItem_eq key amount recipient).2 (by rw [hsome, hinit]), hsome]
      exact .inr rfl

/-- An item keeps its amount and its recipient from the vote that creates it. -/
theorem InboxStep.recorded {i : Instruction L} {e : Option Event}
    (h : InboxStep R T s s' now i e) (hs : s.AllInit) {key : Bytes32} {item : InboxItem}
    (hitem : s'.inboxItems key = some item) :
    (∃ old, s.inboxItems key = some old ∧ item.amount = old.amount ∧
      item.recipientAddress = old.recipientAddress) ∨
    ∃ t m account, i = .redeem t m ∧ Redeems R T s t m account key item.amount ∧
      item.recipientAddress = m.data.message.nttManagerPayload.payload.recipient := by
  have update {key₀ : Bytes32} {item₀ : InboxItem}
      (heq : s'.inboxItems = Function.update s.inboxItems key₀ (some item₀)) :
      key = key₀ ∧ item = item₀ ∨ s.inboxItems key = some item := by
    rw [heq] at hitem
    rcases eq_or_ne key key₀ with rfl | hne
    · rw [Function.update_self] at hitem
      exact .inl ⟨rfl, (Option.some.inj hitem).symm⟩
    · rw [Function.update_of_ne hne] at hitem
      exact .inr hitem
  cases h with
  | other heq => exact .inl ⟨item, heq ▸ hitem, rfl, rfl⟩
  | @vote t m account key₀ amount votes hi _ hredeems _ heq =>
      obtain ⟨rfl, rfl⟩ | hold := update (congrArg State.inboxItems heq)
      · obtain ⟨hamount, hrecipient⟩ | hold := hs.recordedItem_cases key amount
          m.data.message.nttManagerPayload.payload.recipient
        · exact .inr ⟨t, m, account, hi, hamount.symm ▸ hredeems, hrecipient⟩
        · exact .inl ⟨_, hold, rfl, rfl⟩
      · exact .inl ⟨item, hold, rfl, rfl⟩
  | @approve t m account key₀ amount votes releaseTimestamp hi _ hredeems _ _ _ heq _ =>
      obtain ⟨rfl, rfl⟩ | hold := update heq
      · obtain ⟨hamount, hrecipient⟩ | hold := hs.recordedItem_cases key amount
          m.data.message.nttManagerPayload.payload.recipient
        · exact .inr ⟨t, m, account, hi, hamount.symm ▸ hredeems, hrecipient⟩
        · exact .inl ⟨_, hold, rfl, rfl⟩
      · exact .inl ⟨item, hold, rfl, rfl⟩
  | @release key₀ item₀ releaseTimestamp hfound _ _ heq _ _ _ =>
      obtain ⟨rfl, rfl⟩ | hold := update heq
      · exact .inl ⟨item₀, hfound, rfl, rfl⟩
      · exact .inl ⟨item, hold, rfl, rfl⟩

/-- An item has the amount and the recipient of a message that was redeemed. -/
def RecordedFrom (R : Runtime) (T : TokenProgram L) (s₀ : State L)
    (calls : List (Int64 × Instruction L)) (key : Bytes32) (item : InboxItem) : Prop :=
  ∃ before o after t m account, calls = before ++ o :: after ∧ o.2 = .redeem t m ∧
    Redeems R T ((Program.machine R T).run s₀ before) t m account key item.amount ∧
    item.recipientAddress = m.data.message.nttManagerPayload.payload.recipient

/-- Every item is recorded, after any calls. -/
theorem items_recorded {s₀ : State L} (h₀ : s₀.Registry) (hnone : ∀ key, s₀.inboxItems key = none)
    (calls : List (Int64 × Instruction L)) {key : Bytes32} {item : InboxItem}
    (hitem : ((Program.machine R T).run s₀ calls).inboxItems key = some item) :
    RecordedFrom R T s₀ calls key item := by
  induction calls using List.reverseRecOn generalizing item with
  | nil => exact absurd ((hnone key).symm.trans hitem) (by simp)
  | append_singleton calls o ih =>
      have old {item item' : InboxItem}
          (h : ((Program.machine R T).run s₀ calls).inboxItems key = some item')
          (hamount : item.amount = item'.amount)
          (hrecipient : item.recipientAddress = item'.recipientAddress) :
          RecordedFrom R T s₀ (calls ++ [o]) key item := by
        obtain ⟨before, o', after, t, m, account, rfl, hop, hredeems, hr⟩ := ih h
        exact ⟨before, o', after ++ [o], t, m, account, by simp, hop, hamount ▸ hredeems,
          hrecipient.trans hr⟩
      obtain ⟨_, hsame, -⟩ | ⟨e, hstep, -⟩ := Program.run_concat R T s₀ calls o
      · rw [hsame] at hitem
        exact old hitem rfl rfl
      · obtain ⟨-, hinit, -⟩ := votes_accounted R T h₀ hnone calls
        obtain ⟨item', hfound, hamount, hrecipient⟩ | ⟨t, m, account, hop, hredeems, hrecipient⟩ :=
          (inbox_step hstep).recorded hinit hitem
        · exact old hfound hamount hrecipient
        · exact ⟨calls, o, [], t, m, account, rfl, hop, hredeems, hrecipient⟩

theorem hashed_append (calls more : List (Int64 × Instruction L)) :
    hashed R calls ⊆ hashed R (calls ++ more) := by
  rintro b ⟨o, ho, hb⟩
  exact ⟨o, List.mem_append_left more ho, hb⟩

end State

namespace Deployment

variable {D : Deployment L} {A A₀ : Accounts L} {calls : List (Int64 × Call L)}

/-- A quorum that needs the transceiver has its vote. -/
theorem Needed.mem (h : D.Needed A) (hreg : A.manager.Registry) {voters : Finset Pubkey}
    (hcard : A.manager.config.threshold.toNat ≤ voters.card)
    (hvoters : ∀ t ∈ voters, ∃ r, A.manager.registeredTransceivers t = some r ∧
      r.id.toNat ∈ A.manager.config.enabledTransceivers.positions) : D.transceiver ∈ voters := by
  by_contra hnot
  let id (t : Pubkey) : ℕ := ((A.manager.registeredTransceivers t).map fun r => r.id.toNat).getD 0
  have hid {t : Pubkey} {r : RegisteredTransceiver}
      (hr : A.manager.registeredTransceivers t = some r) : id t = r.id.toNat := by simp [id, hr]
  -- the voters have distinct ids, and none of them is that of the transceiver
  have hinj : Set.InjOn id voters := by
    intro t ht t' ht' heq
    obtain ⟨r, hr, -⟩ := hvoters t ht
    obtain ⟨r', hr', -⟩ := hvoters t' ht'
    rw [hid hr, hid hr'] at heq
    exact hreg.ids_inj t t' r r' hr hr' (UInt8.toNat_inj.mp heq)
  have hsub : voters.image id ⊆ D.others A := by
    intro i hi
    obtain ⟨t, ht, rfl⟩ := Finset.mem_image.mp hi
    obtain ⟨r, hr, hmem⟩ := hvoters t ht
    rw [others, hid hr]
    cases hown : A.manager.registeredTransceivers D.transceiver with
    | none => exact hmem
    | some account =>
        refine Finset.mem_erase.mpr ⟨fun heq => hnot ?_, hmem⟩
        exact hreg.ids_inj t D.transceiver r account hr hown (UInt8.toNat_inj.mp heq) ▸ ht
  have hle := Finset.card_le_card hsub
  rw [Finset.card_image_of_injOn hinj] at hle
  exact absurd (hcard.trans hle) (Nat.not_le.mpr h)

variable (D) in
/-- The manager after calls of the machine. -/
theorem manager_run (s₀ : State L) (calls : List (Int64 × Call L)) :
    (D.machine.run (.initial s₀) calls).manager =
      (Program.machine D.runtime D.token).run s₀ (D.managerCalls (.initial s₀) calls) :=
  (manager_isPart D).run (.initial s₀) calls

/-- An approval that needs the transceiver: its message was received and redeemed. -/
theorem approved_received (hD : D.Lawful) {s₀ : State L} (h₀ : s₀.Registry)
    (hnone : ∀ key, s₀.inboxItems key = none) {o : Int64 × Call L}
    (hhash : Set.InjOn D.runtime.keccak256
      (State.hashed D.runtime (D.managerCalls (.initial s₀) (calls ++ [o])))) {key : Bytes32}
    (hnot : (D.machine.run (.initial s₀) calls).manager.status key = .notApproved)
    (happ : (D.machine.run (.initial s₀) (calls ++ [o])).manager.status key ≠ .notApproved)
    (hneeded : D.Needed (D.machine.run (.initial s₀) calls)) :
    ∃ o' ∈ D.managerCalls (.initial s₀) (calls ++ [o]), ∃ m,
      o'.2 = .redeem D.transceiver m ∧ State.inboxKey D.runtime m.data = .ok key ∧
        D.Received (.initial s₀) (calls ++ [o]) m.data := by
  have hcalls : D.managerCalls (.initial s₀) (calls ++ [o]) = D.managerCalls (.initial s₀) calls ++
      (D.managerCall (D.machine.run (.initial s₀) calls) o).toList := by
    rw [managerCalls, Transducer.inputsOf_append]
    simp [managerCalls, Transducer.inputsOf]
  have hmanager := manager_run D s₀ calls
  rw [manager_run, hcalls] at happ
  cases hcall : D.managerCall (D.machine.run (.initial s₀) calls) o with
  | none =>
      rw [hcall, Option.toList_none, List.append_nil, ← hmanager] at happ
      exact absurd hnot happ
  | some o' =>
      rw [hcall, Option.toList_some] at hcalls happ
      rw [hcalls] at hhash
      rw [hmanager] at hnot
      obtain ⟨t, m, _, _, hop, hkey, ⟨-, voters, hcard, hvoters⟩, -⟩ :=
        State.approved_of_status hD.io h₀ hnone hhash hnot happ
      rw [← hmanager] at hcard
      have hmem := hneeded.mem (hmanager ▸ registry_run D.runtime D.token h₀ _) hcard
        fun t ht => hmanager ▸ (hvoters t ht).1
      obtain ⟨-, m', hvoted, hchain, hpayload⟩ := hvoters _ hmem
      rw [← hcalls] at hvoted
      have hreceived := redeemed_received hD hvoted (hvoted.redeems h₀).1
      obtain ⟨before, o'', after, _, heq, hop', -⟩ := hvoted
      refine ⟨o'', by rw [heq]; simp, m', hop', ?_, hreceived⟩
      rw [State.inboxKey, hchain, hpayload]
      exact hkey

/-- **The votes of the transceiver.** In every run of both programs: a peer of the transceiver that
is set stays. And whatever inbox item has the vote of the transceiver, a message of that item was
received, for this program, in a VAA that the guardians have signed, whose emitter the owner had set
as the peer of its chain. -/
theorem votes_received (hD : D.Lawful) {tokens : L} {upgradeAuthority : Option Pubkey}
    {deployer mint : Pubkey} {multisig : Option Pubkey} {chainId : UInt16} {limit : UInt64}
    {mode : Mode} {s₀ : State L}
    (hinit : State.initializeConfigAndRateLimit D.runtime D.token tokens upgradeAuthority deployer
      mint multisig chainId limit mode = .ok s₀) (calls : List (Int64 × Call L)) :
    let A := D.machine.run (.initial s₀) calls
    (∀ before after, calls = before ++ after → ∀ chain address,
      (D.machine.run (.initial s₀) before).peers chain = some address →
        A.peers chain = some address) ∧
    ∀ r, A.manager.registeredTransceivers D.transceiver = some r → ∀ key,
      r.id.toNat ∈ (A.manager.itemFor key).votes.positions →
        ∃ m, State.inboxKey D.runtime m = .ok key ∧
          m.message.recipientNttManager = D.runtime.programId ∧
            D.Received (.initial s₀) calls m := by
  have h₀ := State.registry_initial hinit
  constructor
  · rintro before after rfl chain address hpeer
    rw [Transducer.run_append]
    exact peers_kept hD.anchor hpeer after
  · intro r hr key hvote
    rw [manager_run] at hr hvote
    obtain ⟨hreg, -, hvotes⟩ := State.votes_accounted D.runtime D.token h₀
      (State.inboxItems_initial hinit) (D.managerCalls (.initial s₀) calls)
    obtain ⟨t, r', m, hr', hid, hvoted, hkey⟩ := hvotes key _ hvote
    obtain rfl := hreg.ids_inj t D.transceiver r' r hr' hr (UInt8.toNat_inj.mp hid)
    obtain ⟨howner, hrecipient⟩ := hvoted.redeems h₀
    exact ⟨m.data, hkey, hrecipient, redeemed_received hD hvoted howner⟩

/-- A call that pays an item pays what this records, once it was approved. -/
theorem item_of_paid {o : Int64 × Call L} {key : Bytes32} {recipient : Pubkey} {amount : UInt64}
    (hA : A.manager.AllInit) (h : D.machine.out A o = .ok (some (.paid key recipient amount))) :
    ∃ item, A.manager.inboxItems key = some item ∧ A.manager.status key ≠ .notApproved ∧
      recipient = D.token.associatedToken item.recipientAddress A.manager.config.mint ∧
        amount = item.amount := by
  cases hstep : D.apply A o.1 o.2 with
  | error e => exact absurd (h.symm.trans (Transducer.ofExcept_of_error hstep).2) (by simp)
  | ok r =>
      obtain ⟨A', e⟩ := r
      obtain rfl := Except.ok.inj (h.symm.trans (Transducer.ofExcept_of_ok hstep).2)
      cases hcall : D.managerCall A o with
      | none => cases (manager_of_apply hcall hstep).2
      | some o' =>
          rw [(apply_of_managerCall hcall).1] at hstep
          obtain ⟨manager, hmanager, rfl⟩ := callManager_eq_ok.mp hstep
          have hinbox := State.inbox_step hmanager
          obtain ⟨hne, hreleased⟩ := (hinbox.paid hA key).2 _ _ rfl
          obtain ⟨-, hevent⟩ := (hinbox.paid hA key).1 hne hreleased
          injection Option.some.inj hevent with _ hrecipient hamount
          have hstatus : A.manager.status key ≠ .notApproved := by
            intro hnot
            have hnext := ((hinbox.item hA).2 key).2
            rw [hnot, hreleased] at hnext
            cases hnext
          cases hitem : A.manager.inboxItems key with
          | none =>
              rw [State.status, State.itemFor, hitem] at hstatus
              exact absurd rfl hstatus
          | some item =>
              have hsome : A.manager.itemFor key = item := by rw [State.itemFor, hitem]; rfl
              rw [hsome] at hrecipient hamount
              exact ⟨item, rfl, hstatus, hrecipient, hamount⟩

/-- Both programs, where the guardians sign everything and the hash is that of the sample. -/
def sample : Deployment Ledger where
  runtime := { Runtime.reference fun _ => sampleKey with programId := 2 }
  token := .reference
  anchor := .reference
  transceiver := 0x51
  creates _ := true
  verifyHash _ _ := true
  VAA_BODY_DISCRIMINATOR := [0xB5, 0x13, 0x79, 0x3C, 0xAB, 0xA8, 0xF8, 0xDC]
  TRANSCEIVER_PEER_DISCRIMINATOR := [0xB2, 0x30, 0x07, 0x46, 0x02, 0x6C, 0x55, 0xC9]
  peerBump _ := 255

theorem sample_lawful : sample.Lawful where
  anchor := AnchorIo.reference_lawful
  io := WormholeIo.reference_lawful
  vaaBody := by decide
  transceiverPeer := by decide

/-- The owner registers the transceiver and the peers on chain 2, and the sample body is received
and redeemed. -/
def sampleCalls : List (Int64 × Call Ledger) :=
  [(1, .manager (.registry (.registerTransceiver 1 0x51 true))),
    (2, .manager (.admin (.setPeer 1 ⟨2⟩ 1 1000 8))), (3, .setTransceiverPeer 1 ⟨2⟩ 9),
    (4, .manager (.external { Ledger.fresh 1 with amount := fun _ => 5000 })),
    (5, .receiveMessageInstructionData .sample), (6, .redeem 0x51 (.message (2, 3)))]

theorem sample_redeemed : (sample.managerCalls (.initial fresh) sampleCalls).filterMap
    (fun o => o.2.transceiverMessage) =
      [⟨0x51, ⟨2⟩, TransceiverMessage.sample.messageData⟩] := by decide +kernel

/-- One message is hashed. -/
theorem sample_hashed : Set.InjOn sample.runtime.keccak256
    (State.hashed sample.runtime (sample.managerCalls (.initial fresh) sampleCalls)) := by
  have hone {o : Int64 × Instruction Ledger}
      (ho : o ∈ sample.managerCalls (.initial fresh) sampleCalls) {t : Pubkey} {m : MessageAccount}
      (hop : o.2 = .redeem t m) : m = ⟨0x51, ⟨2⟩, TransceiverMessage.sample.messageData⟩ := by
    have hm : m ∈ (sample.managerCalls (.initial fresh) sampleCalls).filterMap
        fun o => o.2.transceiverMessage :=
      List.mem_filterMap.mpr ⟨o, ho, congrArg Instruction.transceiverMessage hop⟩
    rw [sample_redeemed] at hm
    exact List.mem_singleton.mp hm
  rintro b ⟨o, ho, t, m, hop, hb⟩ b' ⟨o', ho', t', m', hop', hb'⟩ -
  rw [hone ho hop] at hb
  rw [hone ho' hop'] at hb'
  exact Except.ok.inj (hb.symm.trans hb')

theorem initialize_eq_sample : State.initializeConfigAndRateLimit sample.runtime sample.token
    (.fresh 1) (some 1) 1 0x70 none 1 1000 .locking = .ok fresh := rfl

/-- The vote of the transceiver is a message that was received. -/
theorem sample_votes_received : ∃ m, State.inboxKey sample.runtime m = .ok sampleKey ∧
    sample.Received (.initial fresh) sampleCalls m := by
  obtain ⟨m, hkey, -, hreceived⟩ := (votes_received sample_lawful initialize_eq_sample
    sampleCalls).2 ⟨0, 0x51⟩ (by decide +kernel) sampleKey (by decide +kernel)
  exact ⟨m, hkey, hreceived⟩

end Deployment

end Ntt.Solana
