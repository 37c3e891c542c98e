import Ntt.Solana.Steps

/-!
# Registry and Threshold of the Solana Program

The ids of transceivers come from a counter of eight bits, and the map of the enabled ones has 128.
A registration that would need the bit 128 fails as a whole, so the counter stays at 128 or below
and every id has its bit. A transceiver that is registered again keeps its id.

The threshold is one before the first registration. From then on some transceiver is enabled, and
the threshold is at most their number.

## Main results

* `State.Registry`: the invariant, which every instruction keeps (`Registry.apply`).
* `transceivers_in_order`: registry and threshold in every state of a run.
-/

namespace Ntt.Solana

variable {L : Type} {R : Runtime} {T : TokenProgram L}

namespace State

variable {s s' : State L} {now : Int64}

/-- Nothing changes of registry and threshold. -/
structure SameRegistry (s s' : State L) : Prop where
  registered : s'.registeredTransceivers = s.registeredTransceivers
  next : s'.config.nextTransceiverId = s.config.nextTransceiverId
  enabled : s'.config.enabledTransceivers = s.config.enabledTransceivers
  threshold : s'.config.threshold = s.config.threshold

theorem redeem_sameRegistry {t : Pubkey} {m : MessageAccount}
    (h : s.redeem R T now t m = .ok s') : SameRegistry s s' := by
  obtain ⟨_, _, _, _, _, -, -, -, ⟨-, rfl⟩ | ⟨-, -, _, _, _, -, hconsume, rfl⟩⟩ := redeem_spec h
  · exact ⟨rfl, rfl, rfl, rfl⟩
  · obtain ⟨_, _, rfl, -⟩ := consumeInbound_spec hconsume
    exact ⟨rfl, rfl, rfl, rfl⟩

/-- Only an instruction for the registry changes registry or threshold. -/
theorem registry_or_same {i : Instruction L} {e : Option Event}
    (h : s.apply R T now i = .ok (s', e)) :
    (∃ r, i = .registry r ∧ s.applyRegistry r = .ok s') ∨ SameRegistry s s' := by
  have release (key multisig revert)
      (hi : i = .releaseInboundMint key multisig revert ∨ i = .releaseInboundUnlock key revert) :
      SameRegistry s s' := by
    obtain ⟨rfl, -⟩ | ⟨_, _, _, _, -, -, -, -, -, -, rfl, -⟩ := releaseInbound_spec hi h
    · exact ⟨rfl, rfl, rfl, rfl⟩
    · exact ⟨rfl, rfl, rfl, rfl⟩
  have transfer {source outboxItem args}
      (hi : i = .transferBurn source outboxItem args ∨ i = .transferLock source outboxItem args) :
      SameRegistry s s' := by
    obtain ⟨_, _, _, _, _, _, _, _, -, -, -, -, rfl, -⟩ := transfer_spec hi h
    exact ⟨rfl, rfl, rfl, rfl⟩
  have mark {outboxItem t} (hi : i = .markOutboxItemAsReleased outboxItem t ∨
      ∃ revert, i = .releaseOutbound outboxItem t revert) : SameRegistry s s' := by
    obtain ⟨_, hmark, -⟩ := releaseOutbound_spec hi h
    obtain ⟨_, _, -, -, -, -, -, ⟨-, -, rfl⟩ | ⟨-, -, _, -, rfl⟩⟩ :=
      markOutboxItemAsReleased_spec hmark
    · exact ⟨rfl, rfl, rfl, rfl⟩
    · exact ⟨rfl, rfl, rfl, rfl⟩
  cases i with
  | registry r => exact .inl ⟨r, rfl, (Except.return_eq_ok.mp h).1⟩
  | admin i =>
      obtain ⟨hconfig, heq⟩ := applyAdmin_spec (Except.return_eq_ok.mp h).1
      refine .inr ⟨?_, ?_, ?_, ?_⟩
      · rw [heq]
      all_goals rw [show s'.config = _ from hconfig]
  | tokenAuthority i =>
      rw [applyTokenAuthority_spec (Except.return_eq_ok.mp h).1]
      exact .inr ⟨rfl, rfl, rfl, rfl⟩
  | redeem t m => exact .inr (redeem_sameRegistry (Except.return_eq_ok.mp h).1)
  | releaseInboundMint key multisig revert => exact .inr (release key multisig revert (.inl rfl))
  | releaseInboundUnlock key revert => exact .inr (release key none revert (.inr rfl))
  | transferBurn source outboxItem args => exact .inr (transfer (.inl rfl))
  | transferLock source outboxItem args => exact .inr (transfer (.inr rfl))
  | markOutboxItemAsReleased outboxItem t => exact .inr (mark (.inl rfl))
  | releaseOutbound outboxItem t revert => exact .inr (mark (.inr ⟨revert, rfl⟩))
  | external tokens =>
      obtain ⟨rfl, -⟩ := Prod.mk.inj (Except.ok.inj h)
      exact .inr ⟨rfl, rfl, rfl, rfl⟩

/-! ### The invariant -/

/-- The invariant of registry and threshold. -/
structure Registry (s : State L) : Prop where
  /-- The account of a transceiver belongs to it, and is set. -/
  address : ∀ t r, s.registeredTransceivers t = some r →
    r.transceiverAddress = t ∧ t ≠ Pubkey.default
  id_lt : ∀ t r, s.registeredTransceivers t = some r →
    r.id.toNat < s.config.nextTransceiverId.toNat
  ids_inj : ∀ t t' r r', s.registeredTransceivers t = some r →
    s.registeredTransceivers t' = some r' → r.id = r'.id → t = t'
  next_le : s.config.nextTransceiverId.toNat ≤ 128
  enabled : ∀ i ∈ s.config.enabledTransceivers.positions,
    ∃ t r, s.registeredTransceivers t = some r ∧ r.id.toNat = i
  threshold_pos : 1 ≤ s.config.threshold.toNat
  /-- Before the first registration the threshold is one. -/
  threshold_le : s.config.threshold.toNat ≤ s.config.enabledTransceivers.positions.card ∨
    (∀ t, s.registeredTransceivers t = none) ∧ s.config.threshold.toNat = 1

theorem SameRegistry.registry (h : SameRegistry s s') (hs : s.Registry) : s'.Registry := by
  obtain ⟨hreg, hnext, henabled, hthreshold⟩ := h
  constructor
  · rw [hreg]
    exact hs.address
  · rw [hreg, hnext]
    exact hs.id_lt
  · rw [hreg]
    exact hs.ids_inj
  · rw [hnext]
    exact hs.next_le
  · rw [hreg, henabled]
    exact hs.enabled
  · rw [hthreshold]
    exact hs.threshold_pos
  · rw [hreg, henabled, hthreshold]
    exact hs.threshold_le

/-- The account that a registration leaves is the one that there was, or has the next id. -/
theorem Registry.registerTransceiver {owner t : Pubkey} {executable : Bool} (hs : s.Registry)
    (h : s.registerTransceiver owner t executable = .ok s') : s'.Registry ∧
      (∀ t' r, s.registeredTransceivers t' = some r → s'.registeredTransceivers t' = some r) ∧
      ∃ r, s'.registeredTransceivers t = some r ∧ r.id.toNat < 128 ∧
        r.id.toNat ∈ s'.config.enabledTransceivers.positions := by
  obtain ⟨hne, r, enabled, next, hset, rfl, hcase⟩ := registerTransceiver_spec h
  obtain ⟨hlt, hpos⟩ := Bitmap.positions_set_true hset
  have hmem : r.id.toNat ∈ enabled.positions := by
    rw [hpos]
    exact Finset.mem_insert_self ..
  have hthreshold : s.config.threshold.toNat ≤ enabled.positions.card := by
    obtain hle | ⟨-, hone⟩ := hs.threshold_le
    · rw [hpos]
      exact hle.trans (Finset.card_le_card (Finset.subset_insert _ _))
    · rw [hone]
      exact Finset.card_pos.mpr ⟨_, hmem⟩
  obtain ⟨-, hreg, rfl⟩ | ⟨hzero, rfl, hfits, rfl⟩ := hcase
  · -- registered again: the account stays
    have hsame : Function.update s.registeredTransceivers t (some r) =
        s.registeredTransceivers := by rw [← hreg, Function.update_eq_self]
    refine ⟨⟨?_, ?_, ?_, hs.next_le, ?_, hs.threshold_pos, .inl hthreshold⟩, ?_, r,
      Function.update_self .., hlt, hmem⟩
    · simp only [hsame]
      exact hs.address
    · simp only [hsame]
      exact hs.id_lt
    · simp only [hsame]
      exact hs.ids_inj
    · simp only [hsame, hpos]
      intro i hi
      rcases Finset.mem_insert.mp hi with rfl | hi
      · exact ⟨t, r, hreg, rfl⟩
      · exact hs.enabled i hi
    · simp only [hsame]
      exact fun _ _ hr => hr
  · -- a new transceiver: no account is its own, and no id is the next one
    have hnone : s.registeredTransceivers t = none := by
      cases hreg : s.registeredTransceivers t with
      | none => rfl
      | some r =>
          rw [hreg] at hzero
          obtain ⟨heq, hne⟩ := hs.address t r hreg
          exact absurd (heq.symm.trans hzero) hne
    have hnext : (s.config.nextTransceiverId + 1).toNat =
        s.config.nextTransceiverId.toNat + 1 := by
      have hle := hs.next_le
      exact UInt8.toNat_add_one (by omega)
    have hother : ∀ t' r', s.registeredTransceivers t' = some r' → t' ≠ t := by
      rintro t' r' hr' rfl
      rw [hnone] at hr'
      cases hr'
    have hold : ∀ t' r', s.registeredTransceivers t' = some r' →
        Function.update s.registeredTransceivers t (some ⟨s.config.nextTransceiverId, t⟩) t' =
          some r' := by
      intro t' r' hr'
      rw [Function.update_of_ne (hother t' r' hr')]
      exact hr'
    have hcases : ∀ t' r', Function.update s.registeredTransceivers t
        (some ⟨s.config.nextTransceiverId, t⟩) t' = some r' →
          (t' = t ∧ r' = ⟨s.config.nextTransceiverId, t⟩) ∨
            s.registeredTransceivers t' = some r' := by
      intro t' r' hr'
      rcases eq_or_ne t' t with rfl | hne'
      · rw [Function.update_self] at hr'
        exact .inl ⟨rfl, (Option.some.inj hr').symm⟩
      · rw [Function.update_of_ne hne'] at hr'
        exact .inr hr'
    refine ⟨⟨?_, ?_, ?_, ?_, ?_, hs.threshold_pos, .inl hthreshold⟩, hold, _,
      Function.update_self .., hlt, hmem⟩
    · intro t' r' hr'
      rcases hcases t' r' hr' with ⟨rfl, rfl⟩ | hr'
      · exact ⟨rfl, hne⟩
      · exact hs.address t' r' hr'
    · intro t' r' hr'
      simp only [hnext]
      rcases hcases t' r' hr' with ⟨rfl, rfl⟩ | hr'
      · exact Nat.lt_succ_self _
      · exact (hs.id_lt t' r' hr').trans (Nat.lt_succ_self _)
    · intro t₁ t₂ r₁ r₂ hr₁ hr₂ hid
      rcases hcases t₁ r₁ hr₁ with ⟨h₁, hr₁'⟩ | hold₁ <;>
        rcases hcases t₂ r₂ hr₂ with ⟨h₂, hr₂'⟩ | hold₂
      · rw [h₁, h₂]
      · have hid_lt := hs.id_lt t₂ r₂ hold₂
        rw [← hid, hr₁'] at hid_lt
        exact absurd hid_lt (lt_irrefl _)
      · have hid_lt := hs.id_lt t₁ r₁ hold₁
        rw [hid, hr₂'] at hid_lt
        exact absurd hid_lt (lt_irrefl _)
      · exact hs.ids_inj t₁ t₂ r₁ r₂ hold₁ hold₂ hid
    · simp only [hnext]
      exact Nat.succ_le_of_lt hlt
    · intro i hi
      simp only [hpos] at hi
      rcases Finset.mem_insert.mp hi with rfl | hi
      · exact ⟨t, _, Function.update_self .., rfl⟩
      · obtain ⟨t', r', hr', hid⟩ := hs.enabled i hi
        exact ⟨t', r', hold t' r' hr', hid⟩

/-- **Every instruction keeps registry and threshold in order**, and the ids that were given. -/
theorem Registry.apply {i : Instruction L} {e : Option Event} (hs : s.Registry)
    (h : s.apply R T now i = .ok (s', e)) : s'.Registry ∧
      ∀ t r, s.registeredTransceivers t = some r → s'.registeredTransceivers t = some r := by
  obtain ⟨r, rfl, hr⟩ | hsame := registry_or_same h
  · cases r with
    | registerTransceiver owner t executable =>
        obtain ⟨hs', hkept, -⟩ := hs.registerTransceiver hr
        exact ⟨hs', hkept⟩
    | deregisterTransceiver owner t =>
        obtain ⟨enabled, threshold, hsub, hsome, hmin, rfl⟩ := deregisterTransceiver_spec hr
        have hpos := Finset.card_pos.mpr hsome
        have hthreshold := hs.threshold_pos
        refine ⟨⟨hs.address, hs.id_lt, hs.ids_inj, hs.next_le,
          fun i hi => hs.enabled i (hsub hi), ?_, .inl ?_⟩, fun _ _ hr => hr⟩
        · simp only [hmin]
          omega
        · simp only [hmin]
          exact min_le_left _ _
    | setThreshold owner threshold =>
        obtain ⟨hpos, hle, rfl⟩ := setThreshold_spec hr
        exact ⟨⟨hs.address, hs.id_lt, hs.ids_inj, hs.next_le, hs.enabled, hpos, .inl hle⟩,
          fun _ _ hr => hr⟩
  · refine ⟨hsame.registry hs, fun t r hr => ?_⟩
    rw [hsame.registered]
    exact hr

/-- A program that was just initialized. -/
theorem registry_initial {tokens : L} {upgradeAuthority : Option Pubkey} {deployer mint : Pubkey}
    {multisig : Option Pubkey} {chainId : UInt16} {limit : UInt64} {mode : Mode}
    (h : initializeConfigAndRateLimit R T tokens upgradeAuthority deployer mint multisig chainId
      limit mode = .ok s) : s.Registry := by
  simp only [initializeConfigAndRateLimit, Except.bind_eq_ok, Except.pure_eq_ok] at h
  obtain ⟨_, -, _, -, _, -, rfl⟩ := h
  refine ⟨?_, ?_, ?_, Nat.zero_le _, ?_, le_refl 1, .inr ⟨fun _ => rfl, rfl⟩⟩
  · intro t r hr
    cases hr
  · intro t r hr
    cases hr
  · intro t t' r r' hr
    cases hr
  · intro i hi
    change i ∈ Bitmap.new.positions at hi
    rw [Bitmap.positions_new] at hi
    exact absurd hi (Finset.notMem_empty i)

/-- A registration does not run out of ids before it runs out of bits. -/
theorem Registry.no_overflow (hs : s.Registry) (owner t : Pubkey) (executable : Bool) :
    s.registerTransceiver owner t executable ≠ .error (.panic .overflow) := by
  have hnext : s.config.nextTransceiverId ≠ 255 := by
    intro heq
    have hle := hs.next_le
    rw [heq] at hle
    exact absurd hle (by decide)
  intro h
  simp only [State.registerTransceiver, hasOneOwner, bind_eq_error, require_eq_error,
    mapError_eq_error, reduceCtorEq, and_false, false_or, exists_false] at h
  obtain ⟨-, -, -, -, -, -, hinit | ⟨_, -, _, -, h⟩⟩ := h
  · rw [initTransceiver] at hinit
    split at hinit
    · rw [bind_eq_error, require_eq_error] at hinit
      obtain ⟨hnot, -⟩ | ⟨_, -, h⟩ := hinit
      · exact hnot hnext
      · cases h
    · cases hinit
  · cases h

/-- A new transceiver gets the next id, and the counter does not wrap. -/
theorem Registry.toNat_next (hs : s.Registry) {i : Instruction L} {e : Option Event}
    (h : s.apply R T now i = .ok (s', e)) :
    s.config.nextTransceiverId.toNat ≤ s'.config.nextTransceiverId.toNat := by
  obtain ⟨r, rfl, hr⟩ | hsame := registry_or_same h
  · cases r with
    | registerTransceiver owner t executable =>
        obtain ⟨-, r, _, next, -, rfl, ⟨-, -, rfl⟩ | ⟨-, -, -, rfl⟩⟩ := registerTransceiver_spec hr
        · exact le_rfl
        · have hle := hs.next_le
          change s.config.nextTransceiverId.toNat ≤ (s.config.nextTransceiverId + 1).toNat
          rw [UInt8.toNat_add_one (by omega)]
          exact Nat.le_succ _
    | deregisterTransceiver owner t =>
        obtain ⟨_, _, -, -, -, rfl⟩ := deregisterTransceiver_spec hr
        exact le_rfl
    | setThreshold owner threshold =>
        obtain ⟨-, -, rfl⟩ := setThreshold_spec hr
        exact le_rfl
  · rw [hsame.next]

end State

open Solana.State

/-- Instructions of any kind keep registry and threshold in order. -/
theorem registry_run (R : Runtime) (T : TokenProgram L) {s : State L} (hs : s.Registry)
    (calls : List (Int64 × Instruction L)) : ((Program.machine R T).run s calls).Registry :=
  Transducer.run_inv (fun _ _ hs _ => Transducer.ofExcept_next hs fun _ _ h => (hs.apply h).1) hs
    Transducer.along_true

/-- A transceiver has its account, and the registry is in order. -/
def State.Registers (t : Pubkey) (r : RegisteredTransceiver) (s : State L) : Prop :=
  s.Registry ∧ s.registeredTransceivers t = some r

/-- A registered transceiver keeps its id. -/
theorem registered_run (R : Runtime) (T : TokenProgram L) {s : State L} (hs : s.Registry)
    (calls : List (Int64 × Instruction L)) {t : Pubkey} {r : RegisteredTransceiver}
    (hr : s.registeredTransceivers t = some r) :
    ((Program.machine R T).run s calls).registeredTransceivers t = some r := by
  have hrun : Registers t r ((Program.machine R T).run s calls) := by
    refine Transducer.run_inv (fun s o hs _ => ?_) ⟨hs, hr⟩ Transducer.along_true
    refine Transducer.ofExcept_next hs fun s' e h => ?_
    obtain ⟨hs', hkept⟩ := hs.1.apply h
    exact ⟨hs', hkept t r hs.2⟩
  exact hrun.2

/-- **Registry and threshold, in every state that instructions lead to.** The registered
transceivers have distinct ids below the counter, which they keep; the enabled bits are ids of
registered transceivers; the threshold is at least one, and from the first registration on at most
the number of enabled ones. The counter does not wrap, and every id has a bit of the map. -/
theorem transceivers_in_order (R : Runtime) (T : TokenProgram L) {tokens : L}
    {upgradeAuthority : Option Pubkey} {deployer mint : Pubkey} {multisig : Option Pubkey}
    {chainId : UInt16} {limit : UInt64} {mode : Mode} {s₀ : State L}
    (hinit : initializeConfigAndRateLimit R T tokens upgradeAuthority deployer mint multisig
      chainId limit mode = .ok s₀) (calls : List (Int64 × Instruction L)) :
    let s := (Program.machine R T).run s₀ calls
    let enabled := s.config.enabledTransceivers.positions
    (∀ t t' r r', s.registeredTransceivers t = some r → s.registeredTransceivers t' = some r' →
      r.id = r'.id → t = t') ∧
    (∀ t r, s.registeredTransceivers t = some r → r.id < s.config.nextTransceiverId ∧
      ∀ more, (((Program.machine R T).run s₀ (calls ++ more)).registeredTransceivers t =
        some r)) ∧
    (∀ i ∈ enabled, ∃ t r, s.registeredTransceivers t = some r ∧ r.id.toNat = i) ∧
    1 ≤ s.config.threshold.toNat ∧
    ((∃ t r, s.registeredTransceivers t = some r) → s.config.threshold.toNat ≤ enabled.card) ∧
    (s.config.nextTransceiverId.toNat ≤ 128 ∧
      ∀ now i e s', s.apply R T now i = .ok (s', e) →
        s.config.nextTransceiverId.toNat ≤ s'.config.nextTransceiverId.toNat) ∧
    ∀ owner t executable,
      s.registerTransceiver owner t executable ≠ .error (.panic .overflow) ∧
      ∀ s', s.registerTransceiver owner t executable = .ok s' → ∃ r,
        s'.registeredTransceivers t = some r ∧ r.id.toNat < 128 ∧
          r.id.toNat ∈ s'.config.enabledTransceivers.positions := by
  intro s enabled
  have hs : s.Registry := registry_run R T (registry_initial hinit) calls
  refine ⟨hs.ids_inj, fun t r hr => ⟨UInt8.lt_iff_toNat_lt.mpr (hs.id_lt t r hr), fun more => ?_⟩,
    hs.enabled, hs.threshold_pos, ?_, ⟨hs.next_le, fun _ _ _ _ h => hs.toNat_next h⟩,
    fun owner t executable => ⟨hs.no_overflow owner t executable, fun s' h => ?_⟩⟩
  · rw [Transducer.run_append]
    exact registered_run R T hs more hr
  · rintro ⟨t, r, hr⟩
    obtain hle | ⟨hnone, -⟩ := hs.threshold_le
    · exact hle
    · rw [hnone t] at hr
      cases hr
  · exact (hs.registerTransceiver h).2.2

/-- A program that locks tokens, whose owner has the address 1. -/
def fresh : State Ledger where
  config := ⟨1, none, 0x70, .locking, ⟨1⟩, 0, 1, .new, false, 0xA2 + 0x70⟩
  upgradeAuthority := some 1
  registeredTransceivers := fun _ => none
  peers := fun _ => none
  inboxRateLimits := fun _ => none
  outboxRateLimit := .new 1000
  inboxItems := fun _ => none
  outboxItems := fun _ => none
  pendingTokenAuthority := none
  tokens := .fresh 1

theorem initialize_eq_fresh (keccak256 : Bytes → Bytes32) :
    initializeConfigAndRateLimit (.reference keccak256) .reference (.fresh 1) (some 1) 1 0x70 none 1
      1000 .locking = .ok fresh := rfl

/-- Two transceivers and a threshold of two, of which one is disabled and registered again. -/
def twoTransceivers : List (Int64 × Instruction Ledger) :=
  [(0, .registry (.registerTransceiver 1 0x51 true)),
    (0, .registry (.registerTransceiver 1 0x52 true)), (0, .registry (.setThreshold 1 2)),
    (0, .registry (.deregisterTransceiver 1 0x51)),
    (0, .registry (.registerTransceiver 1 0x51 true))]

theorem twoTransceivers_registry :
    let s := (Program.machine (.reference fun _ => 0) .reference).run fresh twoTransceivers
    s.registeredTransceivers 0x51 = some ⟨0, 0x51⟩ ∧
      s.config.threshold.toNat ≤ s.config.enabledTransceivers.positions.card := by
  intro s
  have hreg : s.registeredTransceivers 0x51 = some ⟨0, 0x51⟩ := by decide +kernel
  obtain ⟨-, -, -, -, hle, -⟩ := transceivers_in_order (.reference fun _ => 0) .reference
    (initialize_eq_fresh _) twoTransceivers
  exact ⟨hreg, hle ⟨0x51, _, hreg⟩⟩

end Ntt.Solana
