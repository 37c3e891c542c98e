import Ntt.Solana.Registry

/-!
# The Ownership of the Solana Program

The owner of the program also decides about its upgrades: the upgrade authority, which the loader
keeps, is to be the owner's. The owner hands both over in one step, or nominates an address, and
until that address claims the ownership, or the owner takes it back, the upgrade authority is with
the **upgrade lock**, an address that only the program signs for.

The loader takes orders from others than the program: whoever has the upgrade authority may pass it
on at any time (`Move.setUpgradeAuthority`). The lock cannot, and so no nomination is lost.

## Main results

* `State.OfficeStep`: what a move does to owner, nomination and upgrade authority (`office_step`).
* `nominated_iff`: what is pending is the nomination that stands.
* `ownership_handover`: how the ownership changes hands.
-/

namespace Ntt.Solana

variable {L : Type}

/-- The loader passes the upgrade authority on where the one that has it asks for that. -/
def Runtime.LoaderLawful (R : Runtime) : Prop :=
  ∀ current authority newAuthority a, R.setUpgradeAuthority current authority newAuthority = .ok a ↔
    current = some authority ∧ a = newAuthority

/-- An instruction of the program, or of the loader. -/
inductive Move (L : Type) where
  | instruction (i : Instruction L)
  /-- The one that has the upgrade authority passes it on, or makes the program immutable. -/
  | setUpgradeAuthority (authority : Pubkey) (newAuthority : Option Pubkey)

/-- The address that signs for a move of the ownership or of the upgrade authority. -/
def Move.signer : Move L → Option Pubkey
  | .instruction (.admin (.transferOwnership owner _)) => some owner
  | .instruction (.admin (.transferOwnershipOneStepUnchecked owner _)) => some owner
  | .instruction (.admin (.claimOwnership newOwner)) => some newOwner
  | .setUpgradeAuthority authority _ => some authority
  | _ => none

/-- What a move makes of the nomination. -/
def Move.nominates : Move L → Option (Option Pubkey)
  | .instruction (.admin (.transferOwnership _ newOwner)) => some (some newOwner)
  | .instruction (.admin (.transferOwnershipOneStepUnchecked _ _)) => some none
  | .instruction (.admin (.claimOwnership _)) => some none
  | _ => none

variable (R : Runtime) (T : TokenProgram L)

/-- A move at a time. -/
def State.applyMove (self : State L) (now : Int64) : Move L → Except Error (State L × Option Event)
  | .instruction i => self.apply R T now i
  | .setUpgradeAuthority authority newAuthority => do
      require (self.upgradeAuthority = some authority) .external
      return ({ self with upgradeAuthority := newAuthority }, none)

/-- The program and its loader as a machine of timed moves. -/
def Ownership.machine : Transducer (State L) (Int64 × Move L) (Except Error (Option Event)) :=
  .ofExcept fun s o => s.applyMove R T o.1 o.2

/-- Only the program signs for the upgrade lock. -/
def Signed (o : Int64 × Move L) : Prop := o.2.signer ≠ some R.upgradeLock

instance (o : Int64 × Move L) : Decidable (Signed R o) := inferInstanceAs (Decidable (_ ≠ _))

variable {R T} {now : Int64} {s s' : State L} {e : Option Event}

namespace State

/-- Owner, nomination and upgrade authority stay as they are. -/
structure SameOffice (s s' : State L) : Prop where
  owner : s'.config.owner = s.config.owner
  pendingOwner : s'.config.pendingOwner = s.config.pendingOwner
  upgradeAuthority : s'.upgradeAuthority = s.upgradeAuthority

/-- What a move does to owner, nomination and upgrade authority. -/
inductive OfficeStep (R : Runtime) (s s' : State L) : Move L → Prop
  | other {m} : m.nominates = none → SameOffice s s' → OfficeStep R s s' m
  | loader {authority newAuthority} : s.upgradeAuthority = some authority →
      s' = { s with upgradeAuthority := newAuthority } →
      OfficeStep R s s' (.setUpgradeAuthority authority newAuthority)
  | nominate {newOwner} : s'.config.owner = s.config.owner →
      s'.config.pendingOwner = some newOwner → s'.upgradeAuthority = some R.upgradeLock →
      (s.upgradeAuthority = some R.upgradeLock ∨ s.upgradeAuthority = some s.config.owner) →
      OfficeStep R s s' (.instruction (.admin (.transferOwnership s.config.owner newOwner)))
  | oneStep {newOwner} : s'.config.owner = newOwner → s'.config.pendingOwner = none →
      s'.upgradeAuthority = some newOwner → s.upgradeAuthority = some s.config.owner →
      OfficeStep R s s'
        (.instruction (.admin (.transferOwnershipOneStepUnchecked s.config.owner newOwner)))
  | claim {newOwner} : s'.config.owner = newOwner → s'.config.pendingOwner = none →
      s'.upgradeAuthority = some newOwner → s.upgradeAuthority = some R.upgradeLock →
      (s.config.pendingOwner = some newOwner ∨ s.config.owner = newOwner) →
      OfficeStep R s s' (.instruction (.admin (.claimOwnership newOwner)))

theorem registry_sameOffice {r : RegistryInstruction} (h : s.applyRegistry r = .ok s') :
    SameOffice s s' := by
  cases r with
  | registerTransceiver owner t executable =>
      obtain ⟨-, _, _, _, -, rfl, hid⟩ := registerTransceiver_spec h
      exact ⟨rfl, rfl, rfl⟩
  | deregisterTransceiver owner t =>
      obtain ⟨_, _, -, -, -, rfl⟩ := deregisterTransceiver_spec h
      exact ⟨rfl, rfl, rfl⟩
  | setThreshold owner threshold =>
      obtain ⟨-, -, rfl⟩ := setThreshold_spec h
      exact ⟨rfl, rfl, rfl⟩

theorem redeem_sameOffice {t : Pubkey} {m : MessageAccount} (h : s.redeem R T now t m = .ok s') :
    SameOffice s s' := by
  obtain ⟨_, _, _, _, _, -, -, -, ⟨-, rfl⟩ | ⟨-, -, _, _, _, -, hconsume, rfl⟩⟩ := redeem_spec h
  · exact ⟨rfl, rfl, rfl⟩
  · obtain ⟨_, _, rfl, -⟩ := consumeInbound_spec hconsume
    exact ⟨rfl, rfl, rfl⟩

theorem releaseInbound_sameOffice {key : Bytes32} (multisig : Option Pubkey) (revert : Bool)
    {i : Instruction L}
    (hi : i = .releaseInboundMint key multisig revert ∨ i = .releaseInboundUnlock key revert)
    (h : s.apply R T now i = .ok (s', e)) : SameOffice s s' := by
  obtain ⟨rfl, -⟩ | ⟨_, _, _, _, -, -, -, -, -, -, rfl, -⟩ := releaseInbound_spec hi h
  · exact ⟨rfl, rfl, rfl⟩
  · exact ⟨rfl, rfl, rfl⟩

theorem transfer_sameOffice {source outboxItem : Pubkey} {args : TransferArgs} {i : Instruction L}
    (hi : i = .transferBurn source outboxItem args ∨ i = .transferLock source outboxItem args)
    (h : s.apply R T now i = .ok (s', e)) : SameOffice s s' := by
  obtain ⟨_, _, _, _, _, _, _, _, -, -, -, -, rfl, -⟩ := transfer_spec hi h
  exact ⟨rfl, rfl, rfl⟩

theorem mark_sameOffice {outboxItem t : Pubkey} {i : Instruction L}
    (hi : i = .markOutboxItemAsReleased outboxItem t ∨
      ∃ revert, i = .releaseOutbound outboxItem t revert)
    (h : s.apply R T now i = .ok (s', e)) : SameOffice s s' := by
  obtain ⟨_, hmark, -⟩ := releaseOutbound_spec hi h
  obtain ⟨_, _, -, -, -, -, -, ⟨-, -, rfl⟩ | ⟨-, -, _, -, rfl⟩⟩ :=
    markOutboxItemAsReleased_spec hmark
  · exact ⟨rfl, rfl, rfl⟩
  · exact ⟨rfl, rfl, rfl⟩

/-- The instructions of the owner, and the claim. -/
theorem admin_office (hR : R.LoaderLawful) {a : AdminInstruction}
    (h : s.applyAdmin R now a = .ok s') : OfficeStep R s s' (.instruction (.admin a)) := by
  cases a with
  | setPeer owner chainId address limit tokenDecimals =>
      simp only [applyAdmin, setPeer, Except.bind_eq_ok, Except.pure_eq_ok] at h
      obtain ⟨_, -, _, -, _, -, rfl⟩ := h
      exact .other rfl ⟨rfl, rfl, rfl⟩
  | setOutboundLimit owner limit =>
      simp only [applyAdmin, setOutboundLimit, Except.bind_eq_ok, Except.pure_eq_ok] at h
      obtain ⟨_, -, _, -, rfl⟩ := h
      exact .other rfl ⟨rfl, rfl, rfl⟩
  | setInboundLimit owner limit chainId =>
      simp only [applyAdmin, setInboundLimit, Except.bind_eq_ok, Except.pure_eq_ok] at h
      obtain ⟨_, -, _, -, _, -, rfl⟩ := h
      exact .other rfl ⟨rfl, rfl, rfl⟩
  | setPaused owner paused =>
      simp only [applyAdmin, setPaused, Except.bind_eq_ok, Except.pure_eq_ok] at h
      obtain ⟨_, -, rfl⟩ := h
      exact .other rfl ⟨rfl, rfl, rfl⟩
  | transferOwnership owner newOwner =>
      simp only [applyAdmin, transferOwnership, hasOneOwner, Except.bind_eq_ok,
        require_eq_ok] at h
      obtain ⟨_, rfl, h⟩ := h
      split at h
      · simp only [Except.bind_eq_ok, hR _ _ _ _, Except.pure_eq_ok] at h
        obtain ⟨_, ⟨hauthority, rfl⟩, rfl⟩ := h
        exact .nominate rfl rfl rfl (.inr hauthority)
      · rename_i hlock
        obtain rfl := Except.ok.inj h
        exact .nominate rfl rfl (not_not.mp hlock) (.inl (not_not.mp hlock))
  | transferOwnershipOneStepUnchecked owner newOwner =>
      simp only [applyAdmin, transferOwnershipOneStepUnchecked, hasOneOwner, Except.bind_eq_ok,
        require_eq_ok, hR _ _ _ _, Except.pure_eq_ok] at h
      obtain ⟨_, rfl, _, ⟨hauthority, rfl⟩, rfl⟩ := h
      exact .oneStep rfl rfl rfl hauthority
  | claimOwnership newOwner =>
      simp only [applyAdmin, claimOwnership, Except.bind_eq_ok, require_eq_ok, hR _ _ _ _,
        Except.pure_eq_ok] at h
      obtain ⟨_, hmay, _, ⟨hauthority, rfl⟩, rfl⟩ := h
      exact .claim rfl rfl rfl hauthority hmay

/-- What any move does to the office. -/
theorem office_step (hR : R.LoaderLawful) {m : Move L}
    (h : s.applyMove R T now m = .ok (s', e)) : OfficeStep R s s' m := by
  cases m with
  | setUpgradeAuthority authority newAuthority =>
      simp only [applyMove, Except.bind_eq_ok, require_eq_ok, Except.pure_eq_ok,
        Prod.mk.injEq] at h
      obtain ⟨_, hauthority, rfl, -⟩ := h
      exact .loader hauthority rfl
  | instruction i =>
      cases i with
      | registry r => exact .other rfl (registry_sameOffice (Except.return_eq_ok.mp h).1)
      | admin a => exact admin_office hR (Except.return_eq_ok.mp h).1
      | tokenAuthority a =>
          have heq := applyTokenAuthority_spec (Except.return_eq_ok.mp h).1
          exact .other rfl ⟨by rw [heq], by rw [heq], by rw [heq]⟩
      | redeem t m => exact .other rfl (redeem_sameOffice (Except.return_eq_ok.mp h).1)
      | releaseInboundMint key multisig revert =>
          exact .other rfl (releaseInbound_sameOffice multisig revert (.inl rfl) h)
      | releaseInboundUnlock key revert =>
          exact .other rfl (releaseInbound_sameOffice none revert (.inr rfl) h)
      | transferBurn source outboxItem args => exact .other rfl (transfer_sameOffice (.inl rfl) h)
      | transferLock source outboxItem args => exact .other rfl (transfer_sameOffice (.inr rfl) h)
      | markOutboxItemAsReleased outboxItem t => exact .other rfl (mark_sameOffice (R := R) (T := T) (.inl rfl) h)
      | releaseOutbound outboxItem t revert =>
          exact .other rfl (mark_sameOffice (R := R) (T := T) (.inr ⟨revert, rfl⟩) h)
      | external tokens =>
          obtain ⟨rfl, -⟩ := Prod.mk.inj (Except.ok.inj h)
          exact .other rfl ⟨rfl, rfl, rfl⟩

end State

/-! ### Runs -/

section Runs

variable (R T) (s₀ : State L)

/-- What a move writes to the nomination in a state: nothing when it fails. -/
def writesNomination (s : State L) (o : Int64 × Move L) : Option (Option Pubkey) :=
  match (Ownership.machine R T).out s o with
  | .error _ => none
  | .ok _ => o.2.nominates

/-- The owner nominated an address, and since then no nomination was made, taken back or used. -/
def NominatedOwner (calls : List (Int64 × Move L)) (newOwner : Pubkey) : Prop :=
  let M := Ownership.machine R T
  let owner := (M.run s₀ calls).config.owner
  ∃ before now after,
    let o := (now, Move.instruction (.admin (.transferOwnership owner newOwner)))
    calls = before ++ o :: after ∧ M.out (M.run s₀ before) o = .ok none ∧
      M.Along (fun s o => writesNomination R T s o = none) (M.run s₀ (before ++ [o])) after

variable {R T s₀}

variable (R T s₀) in
/-- The last move of a run either fails and changes nothing, or leaves the state after the run. -/
theorem Ownership.run_concat (calls : List (Int64 × Move L)) (o : Int64 × Move L) :
    let M := Ownership.machine R T
    (∃ e, M.run s₀ (calls ++ [o]) = M.run s₀ calls ∧ M.out (M.run s₀ calls) o = .error e) ∨
      ∃ e, (M.run s₀ calls).applyMove R T o.1 o.2 = .ok (M.run s₀ (calls ++ [o]), e) ∧
        M.out (M.run s₀ calls) o = .ok e :=
  Transducer.ofExcept_run_concat ..

/-- The pending owner is what was written last. -/
theorem pendingOwner_next (hR : R.LoaderLawful) (s : State L) (o : Int64 × Move L) :
    ((Ownership.machine R T).next s o).config.pendingOwner =
      (writesNomination R T s o).getD s.config.pendingOwner := by
  cases hstep : s.applyMove R T o.1 o.2 with
  | error e =>
      obtain ⟨hnext, hout⟩ : (Ownership.machine R T).next s o = s ∧
        (Ownership.machine R T).out s o = .error e := Transducer.ofExcept_of_error hstep
      rw [writesNomination, hnext, hout, Option.getD_none]
  | ok r =>
      obtain ⟨hnext, hout⟩ : (Ownership.machine R T).next s o = r.1 ∧
        (Ownership.machine R T).out s o = .ok r.2 := Transducer.ofExcept_of_ok hstep
      rw [writesNomination, hnext, hout]
      obtain ⟨now, m⟩ := o
      cases State.office_step hR hstep with
      | other hm hsame => rw [hm, hsame.pendingOwner, Option.getD_none]
      | loader _ hs => rw [hs]; rfl
      | nominate _ hpending _ _ => exact hpending
      | oneStep _ hnone _ _ => exact hnone
      | claim _ hnone _ _ _ => exact hnone

/-- A move that writes a nomination and does not fail. -/
theorem writesNomination_eq_some {s : State L} {o : Int64 × Move L} {v : Option Pubkey}
    (h : writesNomination R T s o = some v) :
    ∃ e, (Ownership.machine R T).out s o = .ok e ∧ o.2.nominates = some v ∧
      s.applyMove R T o.1 o.2 = .ok ((Ownership.machine R T).next s o, e) := by
  cases hstep : s.applyMove R T o.1 o.2 with
  | error e =>
      have hout : (Ownership.machine R T).out s o = .error e :=
        (Transducer.ofExcept_of_error hstep).2
      rw [writesNomination, hout] at h
      cases h
  | ok r =>
      obtain ⟨hnext, hout⟩ : (Ownership.machine R T).next s o = r.1 ∧
        (Ownership.machine R T).out s o = .ok r.2 := Transducer.ofExcept_of_ok hstep
      rw [writesNomination, hout] at h
      exact ⟨r.2, hout, h, by rw [hnext]⟩

/-- Where no nomination is made, taken back or used, the owner stays the same. -/
theorem owner_kept (hR : R.LoaderLawful) {s : State L} {calls : List (Int64 × Move L)}
    (h : (Ownership.machine R T).Along (fun s o => writesNomination R T s o = none) s calls) :
    ((Ownership.machine R T).run s calls).config.owner = s.config.owner := by
  induction calls generalizing s with
  | nil => rfl
  | cons o calls ih =>
      obtain ⟨ho, hcalls⟩ := h
      refine (ih hcalls).trans ?_
      cases hstep : s.applyMove R T o.1 o.2 with
      | error e =>
          have hnext : (Ownership.machine R T).next s o = s :=
            (Transducer.ofExcept_of_error hstep).1
          rw [hnext]
      | ok r =>
          obtain ⟨hnext, hout⟩ : (Ownership.machine R T).next s o = r.1 ∧
            (Ownership.machine R T).out s o = .ok r.2 := Transducer.ofExcept_of_ok hstep
          rw [hnext]
          rw [writesNomination, hout] at ho
          obtain ⟨now, m⟩ := o
          cases State.office_step hR hstep with
          | other _ hsame => exact hsame.owner
          | loader _ hs => rw [hs]
          | nominate howner _ _ _ => exact howner
          | oneStep _ _ _ _ => cases ho
          | claim _ _ _ _ _ => cases ho

/-- **What is pending is the nomination that stands.** -/
theorem nominated_iff (hR : R.LoaderLawful) (hnone : s₀.config.pendingOwner = none)
    (calls : List (Int64 × Move L)) (newOwner : Pubkey) :
    ((Ownership.machine R T).run s₀ calls).config.pendingOwner = some newOwner ↔
      NominatedOwner R T s₀ calls newOwner := by
  constructor
  · intro hpending
    obtain hkept | ⟨before, o, after, v, rfl, hwrite, hafter, hv⟩ :=
      Transducer.last_write (f := fun s : State L => s.config.pendingOwner)
        (pendingOwner_next hR) s₀ calls
    · have := Transducer.no_write (f := fun s : State L => s.config.pendingOwner)
        (pendingOwner_next hR) hkept
      rw [hpending, hnone] at this
      cases this
    · obtain rfl : v = some newOwner := hv.symm.trans hpending
      obtain ⟨e, hout, hnominates, hstep⟩ := writesNomination_eq_some hwrite
      obtain ⟨now, m⟩ := o
      have hrun : (Ownership.machine R T).run s₀ (before ++ (now, m) :: after) =
          (Ownership.machine R T).run ((Ownership.machine R T).run s₀ (before ++ [(now, m)]))
            after := by
        rw [← Transducer.run_append, List.append_assoc, List.singleton_append]
      cases State.office_step hR hstep with
      | other hm _ =>
          rw [hm] at hnominates
          cases hnominates
      | loader _ _ => cases hnominates
      | nominate howner _ _ _ =>
          obtain rfl := Option.some.inj (Option.some.inj hnominates)
          obtain rfl : none = e := (Except.return_eq_ok.mp hstep).2
          refine ⟨before, now, after, ?_⟩
          rw [hrun, owner_kept hR hafter, Transducer.run_append_singleton, howner]
          exact ⟨rfl, hout, hafter⟩
      | oneStep _ _ _ _ => cases hnominates
      | claim _ _ _ _ _ => cases hnominates
  · rintro ⟨before, now, after, hcalls, hout, hafter⟩
    rw [hcalls, ← List.singleton_append, ← List.append_assoc, Transducer.run_append,
      Transducer.no_write (f := fun s : State L => s.config.pendingOwner) (pendingOwner_next hR)
        hafter, Transducer.run_append_singleton, pendingOwner_next hR, writesNomination, hout]
    rfl

/-- While a nomination is pending, the lock has the upgrade authority. -/
def State.Locked (R : Runtime) (s : State L) : Prop :=
  s.config.pendingOwner ≠ none → s.upgradeAuthority = some R.upgradeLock

theorem State.Locked.next (hR : R.LoaderLawful) {m : Move L} (hsigned : Signed R (now, m))
    (h : s.Locked R) (hstep : s.applyMove R T now m = .ok (s', e)) : s'.Locked R := by
  intro hpending
  cases office_step hR hstep with
  | other _ hsame =>
      rw [hsame.upgradeAuthority]
      exact h (hsame.pendingOwner ▸ hpending)
  | loader hauthority hs =>
      subst hs
      have hlock := hauthority.symm.trans (h hpending)
      exact absurd hlock hsigned
  | nominate _ _ hlock _ => exact hlock
  | oneStep _ hnone _ _ => exact absurd hnone hpending
  | claim _ hnone _ _ _ => exact absurd hnone hpending

theorem locked_run (hR : R.LoaderLawful) (hnone : s₀.config.pendingOwner = none)
    {calls : List (Int64 × Move L)} (hsigned : ∀ o ∈ calls, Signed R o) :
    ((Ownership.machine R T).run s₀ calls).Locked R := by
  have hinit : s₀.Locked R := fun h => absurd hnone h
  refine Transducer.run_inv ?_ hinit
    (Transducer.along_of_forall hsigned)
  intro s o hs ho
  exact Transducer.ofExcept_next hs fun s' e hstep => hs.next hR ho hstep

/-- A claim of the nominee, or of the owner, of what the lock has. -/
theorem claim_succeeds (hR : R.LoaderLawful) {newOwner : Pubkey}
    (hlock : s.upgradeAuthority = some R.upgradeLock)
    (h : s.config.pendingOwner = some newOwner ∨ s.config.owner = newOwner) (now : Int64) :
    s.applyMove R T now (.instruction (.admin (.claimOwnership newOwner))) =
      .ok ({ s with
        config := { s.config with pendingOwner := none, owner := newOwner }
        upgradeAuthority := some newOwner }, none) := by
  have hset := (hR s.upgradeAuthority R.upgradeLock newOwner newOwner).mpr ⟨hlock, rfl⟩
  have hmay : require (s.config.pendingOwner = some newOwner ∨ s.config.owner = newOwner)
      (.ntt .invalidPendingOwner) = .ok () := require_eq_ok.mpr h
  simp only [State.applyMove, State.apply, State.applyAdmin, State.claimOwnership, hmay, hset]
  rfl

variable (R T s₀) in
/-- How the ownership changes hands at a move: by the owner in one step, or to an address that
claims, and signs for, the nomination that stands. -/
def ChangesHands (calls : List (Int64 × Move L)) (m : Move L) (s' : State L) : Prop :=
  let s := (Ownership.machine R T).run s₀ calls
  (s.config.pendingOwner = none ∧
      m = .instruction (.admin (.transferOwnershipOneStepUnchecked s.config.owner s'.config.owner)))
    ∨ (m = .instruction (.admin (.claimOwnership s'.config.owner)) ∧
      NominatedOwner R T s₀ calls s'.config.owner)

theorem changesHands_of_step (hR : R.LoaderLawful) (hnone : s₀.config.pendingOwner = none)
    {calls : List (Int64 × Move L)} {m : Move L} (hsigned : ∀ o ∈ calls, Signed R o)
    (hm : Signed R (now, m))
    (hstep : ((Ownership.machine R T).run s₀ calls).applyMove R T now m = .ok (s', e))
    (hchange : s'.config.owner ≠ ((Ownership.machine R T).run s₀ calls).config.owner) :
    ChangesHands R T s₀ calls m s' ∧ s'.upgradeAuthority = some s'.config.owner ∧
      s'.config.pendingOwner = none := by
  cases State.office_step hR hstep with
  | other _ hsame => exact absurd hsame.owner hchange
  | loader _ hs => exact absurd (by rw [hs]) hchange
  | nominate howner _ _ _ => exact absurd howner hchange
  | oneStep howner hnone' hauthority hbefore =>
      subst howner
      refine ⟨.inl ⟨?_, rfl⟩, hauthority, hnone'⟩
      by_contra hpending
      -- the lock would be the owner, and sign
      have hlock := hbefore.symm.trans (locked_run hR hnone hsigned hpending)
      exact hm hlock
  | claim howner hnone' hauthority hbefore hmay =>
      subst howner
      obtain hpending | hsame := hmay
      · exact ⟨.inr ⟨rfl, (nominated_iff hR hnone calls _).mp hpending⟩, hauthority, hnone'⟩
      · exact absurd hsame.symm hchange

end Runs

theorem State.pendingOwner_initial {tokens : L} {upgradeAuthority : Option Pubkey}
    {deployer mint : Pubkey} {multisig : Option Pubkey} {chainId : UInt16} {limit : UInt64}
    {mode : Mode} (h : initializeConfigAndRateLimit R T tokens upgradeAuthority deployer mint
      multisig chainId limit mode = .ok s) : s.config.pendingOwner = none := by
  simp only [initializeConfigAndRateLimit, Except.bind_eq_ok, Except.pure_eq_ok] at h
  obtain ⟨_, -, _, -, _, -, rfl⟩ := h
  rfl

/-- **The handover of the ownership.** In every run of the program and its loader, what is pending
is the nomination that the present owner made last, and the lock has the upgrade authority as long
as it is. Then the nominee can claim, and the owner can take it back, at any time, and the one that
does has the upgrade authority again. And the owner only ever changes by the owner's one step, which
fails while a nomination is pending, or by the nominee's claim; the new owner then has the upgrade
authority. -/
theorem ownership_handover (hR : R.LoaderLawful) {tokens : L} {upgradeAuthority : Option Pubkey}
    {deployer mint : Pubkey} {multisig : Option Pubkey} {chainId : UInt16} {limit : UInt64}
    {mode : Mode} {s₀ : State L}
    (hinit : State.initializeConfigAndRateLimit R T tokens upgradeAuthority deployer mint multisig
      chainId limit mode = .ok s₀) (calls : List (Int64 × Move L))
    (hsigned : ∀ o ∈ calls, Signed R o) :
    let M := Ownership.machine R T
    let s := M.run s₀ calls
    (∀ newOwner, s.config.pendingOwner = some newOwner ↔ NominatedOwner R T s₀ calls newOwner) ∧
      (s.config.pendingOwner ≠ none → s.upgradeAuthority = some R.upgradeLock ∧
        ∀ now newOwner, s.config.pendingOwner = some newOwner ∨ s.config.owner = newOwner →
          ∃ s', s.applyMove R T now (.instruction (.admin (.claimOwnership newOwner))) =
              .ok (s', none) ∧ s'.config.owner = newOwner ∧
            s'.upgradeAuthority = some newOwner ∧ s'.config.pendingOwner = none) ∧
      ∀ o, Signed R o → let s' := M.run s₀ (calls ++ [o])
        s'.config.owner ≠ s.config.owner → ChangesHands R T s₀ calls o.2 s' ∧
          s'.upgradeAuthority = some s'.config.owner ∧ s'.config.pendingOwner = none := by
  intro M s
  have hnone := State.pendingOwner_initial hinit
  refine ⟨nominated_iff hR hnone calls, fun hpending => ?_, ?_⟩
  · have hlock := locked_run hR hnone hsigned hpending
    exact ⟨hlock, fun now newOwner h => ⟨_, claim_succeeds hR hlock h now, rfl, rfl, rfl⟩⟩
  · intro o ho s' hchange
    obtain ⟨e, hrun, -⟩ | ⟨e, hstep, -⟩ := Ownership.run_concat R T s₀ calls o
    · exact absurd (congrArg (fun s => s.config.owner) hrun) hchange
    · exact changesHands_of_step hR hnone hsigned ho hstep hchange

/-! ### A deployment -/

theorem Runtime.reference_loaderLawful (keccak256 : Bytes → Bytes32) :
    (Runtime.reference keccak256).LoaderLawful := by
  intro current authority newAuthority a
  by_cases h : current = some authority <;> simp [Runtime.reference, h, eq_comm]

/-- The owner nominates the address 0x91, and then 0x92; a nominee that was replaced cannot claim. -/
def sampleNominations : List (Int64 × Move Ledger) :=
  [(1, .instruction (.admin (.transferOwnership 1 0x91))),
    (2, .instruction (.admin (.transferOwnership 1 0x92))),
    (3, .instruction (.admin (.claimOwnership 0x91)))]

/-- The other nominee can, and then owns the program and has its upgrade authority. -/
theorem sample_ownership_handover :
    let R := Runtime.reference fun _ => 0
    let M := Ownership.machine R .reference
    let claim : Move Ledger := .instruction (.admin (.claimOwnership 0x92))
    let s' := M.run fresh (sampleNominations ++ [(4, claim)])
    (M.run fresh sampleNominations).config.owner = 1 ∧ s'.config.owner = 0x92 ∧
      ChangesHands R .reference fresh sampleNominations claim s' ∧
      s'.upgradeAuthority = some s'.config.owner ∧ s'.config.pendingOwner = none := by
  intro R M claim s'
  have hsigned : ∀ o ∈ sampleNominations, Signed R o := by
    intro o ho
    simp only [sampleNominations, List.mem_cons, List.not_mem_nil, or_false] at ho
    rcases ho with rfl | rfl | rfl <;> decide
  obtain ⟨-, -, hchange⟩ := ownership_handover (Runtime.reference_loaderLawful fun _ => 0)
    (initialize_eq_fresh fun _ => 0) sampleNominations hsigned
  have howner : s'.config.owner = 0x92 := by decide +kernel
  have hbefore : (M.run fresh sampleNominations).config.owner = 1 := by decide +kernel
  refine ⟨hbefore, howner, hchange (4, claim) (by decide) ?_⟩
  change s'.config.owner ≠ (M.run fresh sampleNominations).config.owner
  rw [howner, hbefore]
  decide

end Ntt.Solana
