import Ntt.Solana.Registry

/-!
# The Mint Authority of the Solana Program

The program controls the mint while its token authority is the mint authority, or a multisig is
that needs one signature and has the token authority among its signers. The owner hands the mint
authority over in one step, or nominates an address, which claims it.

A nomination that is claimed, replaced or taken back is gone. One that is pending when the
authority leaves in another way stays, and stands again when the authority comes back. Where none
is left over then (`NoneLeftOver`), every claim is of a nomination that the owner made since the
program last got the control.

## Main results

* `State.AuthorityStep`: what an instruction does to the mint authority (`authority_step`).
* `authority_handover`: how the authority leaves the control of the program.
-/

namespace Ntt.Solana

variable {L : Type} (R : Runtime) (T : TokenProgram L)

/-- An authority that the program controls. -/
def Controls (tokens : L) (authority : Pubkey) : Prop :=
  authority = R.tokenAuthority ∨ ∃ multisig, T.multisig tokens authority = some multisig ∧
    multisig.m = 1 ∧ R.tokenAuthority ∈ multisig.signers

/-- The program controls its mint. -/
def State.Controlled (s : State L) : Prop :=
  ∃ authority, T.mintAuthority s.tokens s.config.mint = some authority ∧
    Controls R T s.tokens authority

/-- An instruction that makes, takes back or uses a nomination. -/
def Instruction.nominates : Instruction L → Bool
  | .tokenAuthority (.setTokenAuthority ..) | .tokenAuthority (.revertTokenAuthority ..)
  | .tokenAuthority (.claimTokenAuthority ..)
  | .tokenAuthority (.claimTokenAuthorityToMultisig ..) => true
  | _ => false

/-- An instruction that takes the mint authority for the program. -/
def Instruction.accepts : Instruction L → Bool
  | .tokenAuthority (.acceptTokenAuthority ..)
  | .tokenAuthority (.acceptTokenAuthorityFromMultisig ..) => true
  | _ => false

/-- What other programs do. -/
def Instruction.isExternal : Instruction L → Bool
  | .external _ => true
  | _ => false

/-- An address claims its nomination, and proves that it signs. -/
def Claims (tokens : L) (i : Instruction L) (authority : Pubkey) : Prop :=
  (∃ multisig rentPayer, i = .tokenAuthority (.claimTokenAuthority multisig rentPayer authority)) ∨
    ∃ multisig rentPayer remaining,
      i = .tokenAuthority (.claimTokenAuthorityToMultisig multisig rentPayer authority remaining) ∧
        T.validateOwner tokens ⟨authority, false⟩ remaining = .ok ()

variable {R T}

theorem checkMultisig_spec {tokens : L} {multisig : Option Pubkey} {u : Unit}
    (h : checkMultisig R T tokens multisig = .ok u) :
    Controls R T tokens (multisig.getD R.tokenAuthority) := by
  cases multisig with
  | none => exact .inl rfl
  | some key =>
      simp only [checkMultisig, Except.bind_eq_ok, loadAccount_eq_ok, require_eq_ok] at h
      obtain ⟨multisig, hmultisig, hone, hmem⟩ := h
      exact .inr ⟨multisig, hmultisig, hone, hmem⟩

namespace State

variable {s s' : State L} {now : Int64}

/-- The control is the same where the authorities of the tokens and the mint are. -/
theorem controlled_iff (hmint : s'.config.mint = s.config.mint)
    (h : T.SameAuthorities s.tokens s'.tokens) : s'.Controlled R T ↔ s.Controlled R T := by
  rw [Controlled, Controlled, hmint, h.1]
  simp only [Controls, h.2]

/-- The mint authority after it was set. -/
theorem mintAuthority_of_setAuthority (hT : T.Lawful) {authority : AccountMeta}
    {signers : List AccountMeta} {newAuthority : Pubkey} {tokens : L}
    (h : T.setAuthority s.tokens s.config.mint authority signers newAuthority = .ok tokens) :
    T.mintAuthority tokens s.config.mint = some newAuthority := by
  obtain ⟨-, -, hset, -⟩ := hT.setAuthority h
  rw [hset, Function.update_self]

/-- The control after the mint authority was set. -/
theorem controlled_setAuthority_iff (hT : T.Lawful) {authority : AccountMeta}
    {signers : List AccountMeta} {newAuthority : Pubkey} {tokens : L}
    (h : T.setAuthority s.tokens s.config.mint authority signers newAuthority = .ok tokens) :
    State.Controlled R T { s with tokens } ↔ Controls R T s.tokens newAuthority := by
  have hnew := mintAuthority_of_setAuthority hT h
  obtain ⟨-, -, -, hmultisig⟩ := hT.setAuthority h
  simp only [Controlled, Controls, hnew, hmultisig, Option.some.injEq, exists_eq_left']

theorem claimFrom_spec {multisig : Option Pubkey} {newAuthority : Pubkey} {tokens : L}
    (h : s.claimFrom R T multisig newAuthority = .ok tokens) : ∃ authority signers,
      authority.key = multisig.getD R.tokenAuthority ∧
        T.setAuthority s.tokens s.config.mint authority signers newAuthority = .ok tokens := by
  cases multisig with
  | none => exact ⟨_, _, rfl, h⟩
  | some key => exact ⟨_, _, rfl, h⟩

/-- What an instruction does to the mint authority and the nomination. -/
inductive AuthorityStep (R : Runtime) (T : TokenProgram L) (s s' : State L) (i : Instruction L) :
    Prop
  | other : i.nominates = false → s'.pendingTokenAuthority = s.pendingTokenAuthority →
      (s'.Controlled R T ↔ s.Controlled R T) → AuthorityStep R T s s' i
  | accept : i.accepts = true → s'.pendingTokenAuthority = s.pendingTokenAuthority →
      s'.Controlled R T → AuthorityStep R T s s' i
  | external {tokens} : i = .external tokens → s' = { s with tokens } → AuthorityStep R T s s' i
  | oneStep {owner multisig newAuthority} :
      i = .tokenAuthority (.setTokenAuthorityOneStepUnchecked owner multisig newAuthority) →
      s.config.owner = owner → s.config.paused = true → s.Controlled R T →
      s'.pendingTokenAuthority = s.pendingTokenAuthority → AuthorityStep R T s s' i
  | nominate {owner multisig newAuthority rentPayer} {pending : PendingTokenAuthority} :
      i = .tokenAuthority (.setTokenAuthority owner multisig newAuthority rentPayer) →
      s.config.owner = owner → s'.Controlled R T → s'.pendingTokenAuthority = some pending →
      pending.pendingAuthority = newAuthority → AuthorityStep R T s s' i
  | revert {multisig rentPayer owner} :
      i = .tokenAuthority (.revertTokenAuthority multisig rentPayer owner) →
      (s'.Controlled R T ↔ s.Controlled R T) → s'.pendingTokenAuthority = none →
      AuthorityStep R T s s' i
  | claim {newAuthority} {pending : PendingTokenAuthority} : Claims T s.tokens i newAuthority →
      s.config.paused = true → s.pendingTokenAuthority = some pending →
      pending.pendingAuthority = newAuthority → s'.pendingTokenAuthority = none →
      T.mintAuthority s'.tokens s'.config.mint = some newAuthority → AuthorityStep R T s s' i

theorem claimTokenAuthorityAccounts_spec {multisig : Option Pubkey} {rentPayer : Pubkey}
    {pending : PendingTokenAuthority}
    (h : s.claimTokenAuthorityAccounts R T multisig rentPayer = .ok pending) :
    s.config.paused = true ∧ s.pendingTokenAuthority = some pending := by
  simp only [claimTokenAuthorityAccounts, isPaused, Except.bind_eq_ok, require_eq_ok,
    loadAccount_eq_ok, Except.pure_eq_ok] at h
  obtain ⟨_, hpaused, _, -, _, hpending, _, -, rfl⟩ := h
  exact ⟨hpaused, hpending⟩

theorem setTokenAuthorityAccounts_spec {owner : Pubkey} {multisig : Option Pubkey} {u : Unit}
    (h : s.setTokenAuthorityAccounts R T owner multisig = .ok u) :
    s.config.owner = owner ∧ s.config.paused = true ∧
      Controls R T s.tokens (multisig.getD R.tokenAuthority) := by
  simp only [setTokenAuthorityAccounts, hasOneOwner, isPaused, Except.bind_eq_ok,
    require_eq_ok] at h
  obtain ⟨_, howner, _, hpaused, hmultisig⟩ := h
  exact ⟨howner, hpaused, checkMultisig_spec hmultisig⟩

/-- An instruction for the mint authority. -/
theorem tokenAuthority_step (hT : T.Lawful) {i : TokenAuthorityInstruction}
    (h : s.applyTokenAuthority R T i = .ok s') : AuthorityStep R T s s' (.tokenAuthority i) := by
  cases i with
  | acceptTokenAuthority currentAuthority multisig =>
      simp only [applyTokenAuthority, acceptTokenAuthority, Except.bind_eq_ok,
        Except.pure_eq_ok] at h
      obtain ⟨_, -, _, hmultisig, tokens, hset, rfl⟩ := h
      exact .accept rfl rfl
        ((controlled_setAuthority_iff hT hset).mpr (checkMultisig_spec hmultisig))
  | acceptTokenAuthorityFromMultisig currentMultisigAuthority remaining multisig =>
      simp only [applyTokenAuthority, acceptTokenAuthorityFromMultisig, Except.bind_eq_ok,
        Except.pure_eq_ok] at h
      obtain ⟨_, -, _, hmultisig, _, -, tokens, hset, rfl⟩ := h
      exact .accept rfl rfl
        ((controlled_setAuthority_iff hT hset).mpr (checkMultisig_spec hmultisig))
  | setTokenAuthorityOneStepUnchecked owner multisig newAuthority =>
      simp only [applyTokenAuthority, setTokenAuthorityOneStepUnchecked, Except.bind_eq_ok,
        Except.pure_eq_ok] at h
      obtain ⟨_, haccounts, tokens, hclaim, rfl⟩ := h
      obtain ⟨howner, hpaused, hcontrols⟩ := setTokenAuthorityAccounts_spec haccounts
      obtain ⟨authority, signers, hkey, hset⟩ := claimFrom_spec hclaim
      obtain ⟨hcurrent, -⟩ := hT.setAuthority hset
      rw [hkey] at hcurrent
      exact .oneStep rfl howner hpaused ⟨_, hcurrent, hcontrols⟩ rfl
  | setTokenAuthority owner multisig newAuthority rentPayer =>
      simp only [applyTokenAuthority, setTokenAuthority, Except.bind_eq_ok, require_eq_ok,
        Except.pure_eq_ok] at h
      obtain ⟨_, haccounts, _, hauthority, rfl⟩ := h
      obtain ⟨howner, -, hcontrols⟩ := setTokenAuthorityAccounts_spec haccounts
      exact .nominate rfl howner ⟨_, hauthority, hcontrols⟩ rfl rfl
  | revertTokenAuthority multisig rentPayer owner =>
      simp only [applyTokenAuthority, revertTokenAuthority, Except.bind_eq_ok,
        Except.pure_eq_ok] at h
      obtain ⟨_, -, _, -, rfl⟩ := h
      exact .revert rfl Iff.rfl rfl
  | claimTokenAuthority multisig rentPayer newAuthority =>
      simp only [applyTokenAuthority, claimTokenAuthority, Except.bind_eq_ok, require_eq_ok,
        Except.pure_eq_ok] at h
      obtain ⟨pending, haccounts, _, hpending, tokens, hclaim, rfl⟩ := h
      obtain ⟨hpaused, hsome⟩ := claimTokenAuthorityAccounts_spec haccounts
      obtain ⟨_, _, -, hset⟩ := claimFrom_spec hclaim
      exact .claim (.inl ⟨multisig, rentPayer, rfl⟩) hpaused hsome hpending.symm rfl
        (mintAuthority_of_setAuthority (s := s) hT hset)
  | claimTokenAuthorityToMultisig multisig rentPayer newMultisigAuthority remaining =>
      simp only [applyTokenAuthority, claimTokenAuthorityToMultisig, Except.bind_eq_ok,
        require_eq_ok, Except.pure_eq_ok] at h
      obtain ⟨pending, haccounts, _, hpending, _, -, _, hsigned, tokens, hclaim, rfl⟩ := h
      obtain ⟨hpaused, hsome⟩ := claimTokenAuthorityAccounts_spec haccounts
      obtain ⟨_, _, -, hset⟩ := claimFrom_spec hclaim
      exact .claim (.inr ⟨multisig, rentPayer, remaining, rfl, hsigned⟩) hpaused hsome
        hpending.symm rfl (mintAuthority_of_setAuthority (s := s) hT hset)

/-- The nomination, the mint and the authorities of the token program stay as they are. -/
structure SameMint (T : TokenProgram L) (s s' : State L) : Prop where
  pending : s'.pendingTokenAuthority = s.pendingTokenAuthority
  mint : s'.config.mint = s.config.mint
  authorities : T.SameAuthorities s.tokens s'.tokens

theorem SameMint.of_eq (hpending : s'.pendingTokenAuthority = s.pendingTokenAuthority)
    (hmint : s'.config.mint = s.config.mint) (htokens : s'.tokens = s.tokens) :
    SameMint T s s' := by
  refine ⟨hpending, hmint, ?_⟩
  rw [htokens]
  exact ⟨rfl, rfl⟩

theorem registry_sameMint {r : RegistryInstruction} (h : s.applyRegistry r = .ok s') :
    SameMint T s s' := by
  cases r with
  | registerTransceiver owner t executable =>
      obtain ⟨-, _, _, _, -, rfl, -⟩ := registerTransceiver_spec h
      exact .of_eq rfl rfl rfl
  | deregisterTransceiver owner t =>
      obtain ⟨_, _, -, -, -, rfl⟩ := deregisterTransceiver_spec h
      exact .of_eq rfl rfl rfl
  | setThreshold owner threshold =>
      obtain ⟨-, -, rfl⟩ := setThreshold_spec h
      exact .of_eq rfl rfl rfl

theorem redeem_sameMint {t : Pubkey} {m : MessageAccount} (h : s.redeem R T now t m = .ok s') :
    SameMint T s s' := by
  obtain ⟨_, _, _, _, _, -, -, -, ⟨-, rfl⟩ | ⟨-, -, _, _, _, -, hconsume, rfl⟩⟩ := redeem_spec h
  · exact .of_eq rfl rfl rfl
  · obtain ⟨_, _, rfl, -⟩ := consumeInbound_spec hconsume
    exact .of_eq rfl rfl rfl

theorem releaseInbound_sameMint (hT : T.Lawful) {key : Bytes32} (multisig : Option Pubkey)
    (revert : Bool) {e : Option Event} {i : Instruction L}
    (hi : i = .releaseInboundMint key multisig revert ∨ i = .releaseInboundUnlock key revert)
    (h : s.apply R T now i = .ok (s', e)) : SameMint T s s' := by
  obtain ⟨rfl, -⟩ | ⟨item, _, minted, tokens, -, -, -, -, hminted, hpaid, rfl, -⟩ :=
    releaseInbound_spec hi h
  · exact .of_eq rfl rfl rfl
  · have hpay : T.SameAuthorities minted tokens := (hT.transferChecked hpaid).1
    refine ⟨rfl, rfl, ?_⟩
    obtain ⟨-, hmint⟩ | ⟨-, rfl⟩ := hminted
    · have hmint : T.SameAuthorities s.tokens minted := by
        cases multisig with
        | none => exact hT.mintTo hmint
        | some key => exact hT.mintTo hmint
      exact ⟨hpay.1.trans hmint.1, hpay.2.trans hmint.2⟩
    · exact hpay

theorem transfer_sameMint (hT : T.Lawful) {source outboxItem : Pubkey} {args : TransferArgs}
    {e : Option Event} {i : Instruction L}
    (hi : i = .transferBurn source outboxItem args ∨ i = .transferLock source outboxItem args)
    (h : s.apply R T now i = .ok (s', e)) : SameMint T s s' := by
  obtain ⟨_, _, _, tokens, _, _, _, _, htransfers, -, -, -, rfl, -⟩ := transfer_spec hi h
  obtain ⟨moved, hmoved, hrest⟩ := htransfers.moved
  have hmove : T.SameAuthorities s.tokens moved := (hT.transferChecked hmoved).1
  refine ⟨rfl, rfl, ?_⟩
  obtain ⟨-, hburn, -⟩ | ⟨-, rfl, -⟩ := hrest
  · obtain ⟨hburned, -⟩ := hT.burn hburn
    exact ⟨hburned.1.trans hmove.1, hburned.2.trans hmove.2⟩
  · exact hmove

theorem mark_sameMint {outboxItem t : Pubkey} {e : Option Event} {i : Instruction L}
    (hi : i = .markOutboxItemAsReleased outboxItem t ∨
      ∃ revert, i = .releaseOutbound outboxItem t revert)
    (h : s.apply R T now i = .ok (s', e)) : SameMint T s s' := by
  obtain ⟨_, hmark, -⟩ := releaseOutbound_spec hi h
  obtain ⟨_, _, -, -, -, -, -, ⟨-, -, rfl⟩ | ⟨-, -, _, -, rfl⟩⟩ :=
    markOutboxItemAsReleased_spec hmark
  · exact .of_eq rfl rfl rfl
  · exact .of_eq rfl rfl rfl

/-- What any instruction does to the mint authority. -/
theorem authority_step (hT : T.Lawful) {i : Instruction L} {e : Option Event}
    (h : s.apply R T now i = .ok (s', e)) : AuthorityStep R T s s' i := by
  have other (hi : i.nominates = false) (hsame : SameMint T s s') : AuthorityStep R T s s' i :=
    .other hi hsame.pending (controlled_iff hsame.mint hsame.authorities)
  cases i with
  | registry r => exact other rfl (registry_sameMint (Except.return_eq_ok.mp h).1)
  | admin a =>
      obtain ⟨hconfig, heq⟩ := applyAdmin_spec (Except.return_eq_ok.mp h).1
      have hmint : s'.config.mint = s.config.mint := by
        rw [show s'.config = _ from hconfig]
      exact other rfl (.of_eq (by rw [heq]) hmint (by rw [heq]))
  | tokenAuthority a => exact tokenAuthority_step hT (Except.return_eq_ok.mp h).1
  | redeem t m => exact other rfl (redeem_sameMint (Except.return_eq_ok.mp h).1)
  | releaseInboundMint key multisig revert =>
      exact other rfl (releaseInbound_sameMint hT multisig revert (.inl rfl) h)
  | releaseInboundUnlock key revert =>
      exact other rfl (releaseInbound_sameMint hT none revert (.inr rfl) h)
  | transferBurn source outboxItem args => exact other rfl (transfer_sameMint hT (.inl rfl) h)
  | transferLock source outboxItem args => exact other rfl (transfer_sameMint hT (.inr rfl) h)
  | markOutboxItemAsReleased outboxItem t => exact other rfl (mark_sameMint (.inl rfl) h)
  | releaseOutbound outboxItem t revert =>
      exact other rfl (mark_sameMint (.inr ⟨revert, rfl⟩) h)
  | external tokens =>
      obtain ⟨rfl, rfl⟩ := Prod.mk.inj (Except.ok.inj h)
      exact .external rfl rfl

end State

/-! ### Runs -/

section Runs

variable (R T) (s₀ : State L)

/-- The owner nominated an address; since then the program has kept the control, and no instruction
has made, taken back or used a nomination. -/
inductive Nominated : List (Int64 × Instruction L) → Pubkey → Prop
  | made {calls now owner multisig newAuthority rentPayer} :
      ((Program.machine R T).run s₀ calls).config.owner = owner →
      (Program.machine R T).out ((Program.machine R T).run s₀ calls) (now,
        .tokenAuthority (.setTokenAuthority owner multisig newAuthority rentPayer)) = .ok none →
      ((Program.machine R T).run s₀ (calls ++ [(now,
        .tokenAuthority (.setTokenAuthority owner multisig newAuthority rentPayer))])).Controlled
          R T →
      Nominated (calls ++ [(now,
        .tokenAuthority (.setTokenAuthority owner multisig newAuthority rentPayer))]) newAuthority
  | kept {calls o authority} : Nominated calls authority →
      ((Program.machine R T).run s₀ (calls ++ [o])).Controlled R T →
      (o.2.nominates = true →
        ∃ e, (Program.machine R T).out ((Program.machine R T).run s₀ calls) o = .error e) →
      Nominated (calls ++ [o]) authority

/-- How an instruction may take the mint authority out of the control of the program: while it is
paused, by the owner in one step, or by an address that claims the nomination that stands. -/
def HandsOver (calls : List (Int64 × Instruction L)) (i : Instruction L)
    (s' : State L) : Prop :=
  let s := (Program.machine R T).run s₀ calls
  s.config.paused = true ∧
    ((∃ multisig newAuthority, i = .tokenAuthority
        (.setTokenAuthorityOneStepUnchecked s.config.owner multisig newAuthority)) ∨
      ∃ authority, Claims T s.tokens i authority ∧
        T.mintAuthority s'.tokens s'.config.mint = some authority ∧
        Nominated R T s₀ calls authority)

variable {s₀}

/-- No nomination is left over when the program gets the control back. -/
def NoneLeftOver (s : State L) (o : Int64 × Instruction L) : Prop :=
  (o.2.accepts = true → s.Controlled R T ∨ s.pendingTokenAuthority = none) ∧
    ∀ tokens, o.2 = .external tokens → State.Controlled R T { s with tokens } →
      s.Controlled R T ∨ s.pendingTokenAuthority = none

variable {R T}

theorem Nominated.controlled {calls : List (Int64 × Instruction L)} {authority : Pubkey}
    (h : Nominated R T s₀ calls authority) :
    ((Program.machine R T).run s₀ calls).Controlled R T := by
  cases h with
  | made howner hout hcontrolled => exact hcontrolled
  | kept hnominated hcontrolled hfailed => exact hcontrolled

/-- A nomination that stands after an instruction was made by it or stood before. -/
theorem Nominated.of_concat (calls : List (Int64 × Instruction L)) {o : Int64 × Instruction L}
    {authority : Pubkey} (h : Nominated R T s₀ (calls ++ [o]) authority) :
    o.2.nominates = true ∨ Nominated R T s₀ calls authority := by
  generalize hcalls : calls ++ [o] = all at h
  cases h with
  | made _ _ _ =>
      obtain ⟨-, rfl⟩ := List.append_singleton_inj.mp hcalls
      exact .inl rfl
  | kept h _ _ =>
      obtain ⟨rfl, -⟩ := List.append_singleton_inj.mp hcalls
      exact .inr h

theorem nominates_eq_false_of_accepts {i : Instruction L} (h : i.accepts = true) :
    i.nominates = false := by
  cases i with
  | tokenAuthority a => cases a <;> first | rfl | cases h
  | _ => cases h

/-- In a state that the program controls, the nomination that is pending stands. -/
def Stands (R : Runtime) (T : TokenProgram L) (s₀ : State L)
    (calls : List (Int64 × Instruction L)) : Prop :=
  ∀ pending, ((Program.machine R T).run s₀ calls).pendingTokenAuthority = some pending →
    ((Program.machine R T).run s₀ calls).Controlled R T →
      Nominated R T s₀ calls pending.pendingAuthority

/-- An instruction that leaves no nomination over keeps that so. -/
theorem stands_concat (hT : T.Lawful) {calls : List (Int64 × Instruction L)}
    {o : Int64 × Instruction L} (h : Stands R T s₀ calls)
    (hok : NoneLeftOver R T ((Program.machine R T).run s₀ calls) o) :
    Stands R T s₀ (calls ++ [o]) := by
  intro pending hpending hcontrolled
  obtain ⟨e, hrun, hout⟩ | ⟨e, happly, hout⟩ := Program.run_concat R T s₀ calls o
  · rw [hrun] at hpending
    have hbefore := hcontrolled
    rw [hrun] at hbefore
    exact .kept (h pending hpending hbefore) hcontrolled fun _ => ⟨e, hout⟩
  · -- a nomination that stays pending stood before, and the control was there before
    have keep (hi : o.2.nominates = false)
        (hbefore : ((Program.machine R T).run s₀ calls).Controlled R T ∨
          ((Program.machine R T).run s₀ calls).pendingTokenAuthority = none)
        (hsame : ((Program.machine R T).run s₀ (calls ++ [o])).pendingTokenAuthority =
          ((Program.machine R T).run s₀ calls).pendingTokenAuthority) :
        Nominated R T s₀ (calls ++ [o]) pending.pendingAuthority := by
      rw [hsame] at hpending
      obtain hbefore | hnone := hbefore
      · refine .kept (h pending hpending hbefore) hcontrolled fun hn => ?_
        rw [hi] at hn
        cases hn
      · rw [hnone] at hpending
        cases hpending
    cases State.authority_step hT happly with
    | other hi hsame hiff => exact keep hi (.inl (hiff.mp hcontrolled)) hsame
    | accept hi hsame => exact keep (nominates_eq_false_of_accepts hi) (hok.1 hi) hsame
    | @external tokens hi heq =>
        have hafter := hcontrolled
        rw [heq] at hafter
        exact keep (by rw [hi]; rfl) (hok.2 tokens hi hafter) (by rw [heq])
    | oneStep hi howner hpaused hbefore hsame => exact keep (by rw [hi]; rfl) (.inl hbefore) hsame
    | nominate hi howner hafter hsome hauthority =>
        obtain ⟨now, i⟩ := o
        obtain rfl : i = _ := hi
        obtain ⟨-, rfl⟩ := Except.return_eq_ok.mp happly
        rw [hsome] at hpending
        obtain rfl := Option.some.inj hpending
        subst hauthority
        exact .made howner hout hafter
    | revert hi hiff hnone =>
        rw [hnone] at hpending
        cases hpending
    | claim hclaims hpaused hsome hauthority hnone hnew =>
        rw [hnone] at hpending
        cases hpending

theorem stands_run (hT : T.Lawful) (hnone : s₀.pendingTokenAuthority = none)
    (calls : List (Int64 × Instruction L))
    (hok : (Program.machine R T).Along (NoneLeftOver R T) s₀ calls) : Stands R T s₀ calls := by
  induction calls using List.reverseRecOn with
  | nil =>
      intro pending hpending hcontrolled
      change s₀.pendingTokenAuthority = some pending at hpending
      rw [hnone] at hpending
      cases hpending
  | append_singleton calls o ih =>
      obtain ⟨hcalls, ho, -⟩ := Transducer.along_append.mp hok
      exact stands_concat hT (ih hcalls) ho

/-- An instruction that takes the authority out of the control, where the nomination stands. -/
theorem handsOver_of_stands (hT : T.Lawful) {calls : List (Int64 × Instruction L)}
    {o : Int64 × Instruction L} (h : Stands R T s₀ calls) (hi : o.2.isExternal = false)
    (hbefore : ((Program.machine R T).run s₀ calls).Controlled R T)
    (hafter : ¬ ((Program.machine R T).run s₀ (calls ++ [o])).Controlled R T) :
    HandsOver R T s₀ calls o.2 ((Program.machine R T).run s₀ (calls ++ [o])) := by
  obtain ⟨e, hrun, -⟩ | ⟨e, happly, -⟩ := Program.run_concat R T s₀ calls o
  · rw [hrun] at hafter
    exact absurd hbefore hafter
  · cases State.authority_step hT happly with
    | other _ _ hiff => exact absurd (hiff.mpr hbefore) hafter
    | accept _ _ hcontrolled => exact absurd hcontrolled hafter
    | external hexternal =>
        rw [hexternal] at hi
        cases hi
    | oneStep hi howner hpaused =>
        rw [← howner] at hi
        exact ⟨hpaused, .inl ⟨_, _, hi⟩⟩
    | nominate _ _ hcontrolled => exact absurd hcontrolled hafter
    | revert _ hiff => exact absurd (hiff.mpr hbefore) hafter
    | claim hclaims hpaused hsome hauthority _ hnew =>
        have hnominated := h _ hsome hbefore
        rw [hauthority] at hnominated
        exact ⟨hpaused, .inr ⟨_, hclaims, hnew, hnominated⟩⟩

end Runs

theorem State.pendingTokenAuthority_initial {tokens : L} {upgradeAuthority : Option Pubkey}
    {deployer mint : Pubkey} {multisig : Option Pubkey} {chainId : UInt16} {limit : UInt64}
    {mode : Mode} {s : State L} (h : initializeConfigAndRateLimit R T tokens upgradeAuthority
      deployer mint multisig chainId limit mode = .ok s) : s.pendingTokenAuthority = none := by
  simp only [initializeConfigAndRateLimit, Except.bind_eq_ok, Except.pure_eq_ok] at h
  obtain ⟨_, -, _, -, _, -, rfl⟩ := h
  rfl

/-- **The handover of the mint authority.** In a run that leaves no nomination over when the
program gets the control back, the authority leaves the control by an instruction of the program
only while it is paused, and only by the owner in one step, or to an address that claims, and
signs for, a nomination that the owner made since the program last got the control, and that was
not replaced, taken back or used since. -/
theorem authority_handover (R : Runtime) {T : TokenProgram L} (hT : T.Lawful) {tokens : L}
    {upgradeAuthority : Option Pubkey} {deployer mint : Pubkey} {multisig : Option Pubkey}
    {chainId : UInt16} {limit : UInt64} {mode : Mode} {s₀ : State L}
    (hinit : State.initializeConfigAndRateLimit R T tokens upgradeAuthority deployer mint multisig
      chainId limit mode = .ok s₀) (calls : List (Int64 × Instruction L))
    (hok : (Program.machine R T).Along (NoneLeftOver R T) s₀ calls) (before o after)
    (hcalls : calls = before ++ o :: after) (hi : o.2.isExternal = false)
    (hbefore : ((Program.machine R T).run s₀ before).Controlled R T)
    (hafter : ¬ ((Program.machine R T).run s₀ (before ++ [o])).Controlled R T) :
    HandsOver R T s₀ before o.2 ((Program.machine R T).run s₀ (before ++ [o])) := by
  rw [hcalls] at hok
  have hstands := stands_run hT (State.pendingTokenAuthority_initial hinit) before
    (Transducer.along_append.mp hok).1
  exact handsOver_of_stands hT hstands hi hbefore hafter

/-! ### A nomination that is left over -/

theorem State.controlled_of_mintAuthority {s : State L}
    (h : T.mintAuthority s.tokens s.config.mint = some R.tokenAuthority) : s.Controlled R T :=
  ⟨_, h, .inl rfl⟩

theorem State.not_controlled_of_mintAuthority {s : State L} (authority : Pubkey)
    (h : T.mintAuthority s.tokens s.config.mint = some authority)
    (hne : authority ≠ R.tokenAuthority) (hnone : T.multisig s.tokens authority = none) :
    ¬ s.Controlled R T := by
  rintro ⟨a, ha, hcontrols⟩
  rw [h] at ha
  obtain rfl := Option.some.inj ha
  obtain heq | ⟨_, hmultisig, -⟩ := hcontrols
  · exact hne heq
  · rw [hnone] at hmultisig
    cases hmultisig

/-- A program that mints, has the mint authority, and whose owner has the address 1. -/
def freshMinting : State Ledger :=
  { fresh with
    config := { fresh.config with mode := .burning }
    tokens := .fresh 0xA2 }

theorem initialize_eq_freshMinting :
    State.initializeConfigAndRateLimit (.reference fun _ => 0) .reference (.fresh 0xA2) (some 1) 1
      0x70 none 1 1000 .burning = .ok freshMinting := rfl

/-- The owner pauses the program, and nominates the address 0x91. -/
def nominated : List (Int64 × Instruction Ledger) :=
  [(1, .admin (.setPaused 1 true)), (2, .tokenAuthority (.setTokenAuthority 1 none 0x91 1))]

/-- The nominated address claims the mint authority. -/
def claimed : Int64 × Instruction Ledger := (5, .tokenAuthority (.claimTokenAuthority none 1 0x91))

/-- The owner hands the authority to the address 0x92 instead, which gives it back. -/
def movedAndBack : List (Int64 × Instruction Ledger) :=
  [(3, .tokenAuthority (.setTokenAuthorityOneStepUnchecked 1 none 0x92)),
    (4, .tokenAuthority (.acceptTokenAuthority 0x92 none))]

theorem nominated_handsOver :
    let M := Program.machine (.reference fun _ => 0) .reference
    HandsOver (.reference fun _ => 0) .reference freshMinting nominated claimed.2
      (M.run freshMinting (nominated ++ [claimed])) := by
  intro M
  have hok : M.Along (NoneLeftOver (.reference fun _ => 0) .reference) freshMinting
      (nominated ++ [claimed]) := by
    refine ⟨⟨?_, ?_⟩, ⟨?_, ?_⟩, ⟨?_, ?_⟩, trivial⟩ <;> rintro ⟨⟩ <;> rintro ⟨⟩
  refine authority_handover _ TokenProgram.reference_lawful initialize_eq_freshMinting
    (nominated ++ [claimed]) hok nominated claimed [] rfl rfl ?_ ?_
  · exact State.controlled_of_mintAuthority (by decide +kernel)
  · exact State.not_controlled_of_mintAuthority 0x91 (by decide +kernel) (by decide) rfl

/-- The claim is then of a nomination that was made before the program last got the control. -/
theorem leftOver_not_handsOver :
    let M := Program.machine (.reference fun _ => 0) .reference
    let calls := nominated ++ movedAndBack
    (M.run freshMinting calls).Controlled (.reference fun _ => 0) .reference ∧
      ¬ (M.run freshMinting (calls ++ [claimed])).Controlled (.reference fun _ => 0) .reference ∧
      ¬ HandsOver (.reference fun _ => 0) .reference freshMinting calls claimed.2
        (M.run freshMinting (calls ++ [claimed])) := by
  intro M calls
  refine ⟨State.controlled_of_mintAuthority (by decide +kernel),
    State.not_controlled_of_mintAuthority 0x91 (by decide +kernel) (by decide) rfl, ?_⟩
  rintro ⟨-, ⟨_, _, ⟨⟩⟩ | ⟨authority, -, -, hnominated⟩⟩
  -- the one instruction before the acceptance took the control away
  obtain hn | hbefore := Nominated.of_concat
    (nominated ++ [(3, .tokenAuthority (.setTokenAuthorityOneStepUnchecked 1 none 0x92))])
    hnominated
  · cases hn
  · exact State.not_controlled_of_mintAuthority 0x92 (by decide +kernel) (by decide) rfl
      hbefore.controlled

end Ntt.Solana
