import Ntt.Sui.State

/-!
# Registry and Threshold of the Sui Manager

What the calls of the admin keep of the registry and the threshold. The registered ids are the
numbers below the counter, one each. The threshold never exceeds the number of enabled bits, and is
zero exactly while none is enabled: the admin can disable every transceiver.

`enable_transceiver` takes any id. Where it is only called with registered ones (`EnablesRegistered`),
every enabled bit is a transceiver.

## Main results

* `State.Governed`: the invariant, which every call keeps (`Governed.apply`).
* `registry_invariant`: the invariant in every state that calls lead to.
-/

namespace Ntt.Sui

open Sui.State

namespace State

variable {τ : Type}

/-- The invariant of registry and threshold. -/
structure Governed (s : State τ) : Prop where
  registry : s.transceivers.Ok
  threshold_le : s.threshold.toNat ≤ s.transceivers.enabledBitmap.positions.card
  threshold_pos : s.transceivers.enabledBitmap.positions.Nonempty → 0 < s.threshold.toNat

variable {s s' : State τ} {now : UInt64}

/-- What the check of the threshold establishes. -/
theorem checkThresholdInvariants_eq_ok {u : Unit} : s.checkThresholdInvariants = .ok u ↔
    s.threshold.toNat ≤ s.transceivers.enabledBitmap.positions.card ∧
      (s.transceivers.enabledBitmap.positions.Nonempty → 0 < s.threshold.toNat) := by
  have hcount := s.transceivers.enabledBitmap.toNat_countOnes
  have hle : s.threshold ≤ s.transceivers.enabledBitmap.countOnes ↔
      s.threshold.toNat ≤ s.transceivers.enabledBitmap.positions.card := by
    rw [UInt8.le_iff_toNat_le, hcount]
  have hsome : s.transceivers.enabledBitmap.countOnes > 0 ↔
      s.transceivers.enabledBitmap.positions.Nonempty := by
    rw [gt_iff_lt, UInt8.lt_iff_toNat_lt, hcount, ← Finset.card_pos]
    rfl
  have hpos : s.threshold > 0 ↔ 0 < s.threshold.toNat := UInt8.lt_iff_toNat_lt
  simp only [checkThresholdInvariants, Except.bind_eq_ok, assert_eq_ok, hle]
  by_cases h : s.transceivers.enabledBitmap.positions.Nonempty
  · rw [if_pos (hsome.mpr h), assert_eq_ok, hpos]
    exact ⟨fun ⟨_, hle, hpos⟩ => ⟨hle, fun _ => hpos⟩, fun ⟨hle, hpos⟩ => ⟨(), hle, hpos h⟩⟩
  · rw [if_neg fun hc => h (hsome.mp hc)]
    exact ⟨fun ⟨_, hle, _⟩ => ⟨hle, fun hc => absurd hc h⟩, fun ⟨hle, _⟩ => ⟨(), hle, rfl⟩⟩

theorem SameQuorum.governed (h : SameQuorum s s') (hs : s.Governed) : s'.Governed := by
  obtain ⟨htrans, hthreshold⟩ := h
  refine ⟨htrans ▸ hs.registry, ?_, ?_⟩
  · rw [htrans, hthreshold]
    exact hs.threshold_le
  · rw [htrans, hthreshold]
    exact hs.threshold_pos

theorem Governed.of_check (hr : s.transceivers.Ok) (hc : s.checkThresholdInvariants = .ok ()) :
    s.Governed := by
  obtain ⟨hle, hpos⟩ := checkThresholdInvariants_eq_ok.mp hc
  exact ⟨hr, hle, hpos⟩

/-- **Every call keeps registry and threshold in order.** -/
theorem Governed.apply [DecidableEq τ] {F : Framework} {W : Wormhole} {op : Op τ}
    {paid : Option (Bytes32 × UInt64)} (hs : s.Governed)
    (h : s.apply F W now op = .ok (s', paid)) : s'.Governed := by
  cases op with
  | redeem t validatedMessage decimals =>
      exact (redeem_sameQuorum (Except.return_eq_ok.mp h).1).governed hs
  | release fromChainId message decimals =>
      obtain ⟨_, hrelease, -⟩ := apply_release_eq_ok.mp h
      exact (release_spec hrelease).1.governed hs
  | registerTransceiver t stateObjectId =>
      obtain ⟨hr, hc, -⟩ := registerTransceiver_spec (Except.return_eq_ok.mp h).1
      exact .of_check (hs.registry.registerTransceiver hr) hc
  | enableTransceiver id =>
      obtain ⟨hr, hc, -⟩ := enableTransceiver_spec (Except.return_eq_ok.mp h).1
      obtain ⟨-, hnext, htrans, -⟩ := TransceiverRegistry.enableTransceiver_spec hr
      exact .of_check (hs.registry.of_eq hnext htrans) hc
  | disableTransceiver id =>
      obtain ⟨hr, hc, -⟩ := disableTransceiver_spec (Except.return_eq_ok.mp h).1
      obtain ⟨hnext, htrans, -⟩ := TransceiverRegistry.disableTransceiver_spec hr
      exact .of_check (hs.registry.of_eq hnext htrans) hc
  | setThreshold n =>
      obtain ⟨htrans, hc, -⟩ := setThreshold_spec (Except.return_eq_ok.mp h).1
      exact .of_check (htrans ▸ hs.registry) hc
  | setPeer chain address tokenDecimals inboundLimit =>
      exact (setPeer_spec (Except.return_eq_ok.mp h).1).1.governed hs
  | pause =>
      obtain ⟨heq, -⟩ := Prod.mk.inj (Except.ok.inj h)
      exact SameQuorum.governed (heq ▸ ⟨rfl, rfl⟩) hs
  | unpause =>
      obtain ⟨heq, -⟩ := Prod.mk.inj (Except.ok.inj h)
      exact SameQuorum.governed (heq ▸ ⟨rfl, rfl⟩) hs

theorem Governed.threshold_eq_zero (h : s.Governed) :
    s.threshold = 0 ↔ s.transceivers.enabledBitmap.positions = ∅ := by
  rw [← UInt8.toNat_inj]
  constructor
  · intro hzero
    by_contra hne
    have hpos := h.threshold_pos (Finset.nonempty_iff_ne_empty.mpr hne)
    exact hpos.ne' hzero
  · intro hnone
    have hle := h.threshold_le
    rw [hnone, Finset.card_empty] at hle
    exact Nat.le_zero.mp hle

/-! ### Enabled bits as transceivers -/

/-- Every enabled bit is the id of a registered transceiver. -/
def BitsRegistered (s : State τ) : Prop :=
  ∀ i ∈ s.transceivers.enabledBitmap.positions,
    ∃ e ∈ s.transceivers.transceivers, e.2.id.toNat = i

/-- A call that does not enable an id which is not registered. -/
def EnablesRegistered (s : State τ) (o : UInt64 × Op τ) : Prop :=
  match o.2 with
  | .enableTransceiver id => ∃ e ∈ s.transceivers.transceivers, e.2.id = id
  | _ => True

theorem SameQuorum.bitsRegistered (h : SameQuorum s s') (hs : s.BitsRegistered) :
    s'.BitsRegistered := by
  rw [BitsRegistered, h.1]
  exact hs

theorem BitsRegistered.apply [DecidableEq τ] {F : Framework} {W : Wormhole} {op : Op τ}
    {paid : Option (Bytes32 × UInt64)} (hs : s.BitsRegistered) (ho : EnablesRegistered s (now, op))
    (h : s.apply F W now op = .ok (s', paid)) : s'.BitsRegistered := by
  cases op with
  | redeem t validatedMessage decimals =>
      exact (redeem_sameQuorum (Except.return_eq_ok.mp h).1).bitsRegistered hs
  | release fromChainId message decimals =>
      obtain ⟨_, hrelease, -⟩ := apply_release_eq_ok.mp h
      exact (release_spec hrelease).1.bitsRegistered hs
  | registerTransceiver t stateObjectId =>
      obtain ⟨hr, -⟩ := registerTransceiver_spec (Except.return_eq_ok.mp h).1
      obtain ⟨-, -, -, htrans, hpos⟩ := TransceiverRegistry.registerTransceiver_spec hr
      intro i hi
      rw [hpos, Finset.mem_insert] at hi
      rw [htrans]
      obtain rfl | hi := hi
      · exact ⟨_, List.mem_append_right _ (List.mem_singleton_self _), rfl⟩
      · obtain ⟨e, he, hid⟩ := hs i hi
        exact ⟨e, List.mem_append_left _ he, hid⟩
  | enableTransceiver id =>
      obtain ⟨hr, -, -⟩ := enableTransceiver_spec (Except.return_eq_ok.mp h).1
      obtain ⟨-, -, htrans, hpos⟩ := TransceiverRegistry.enableTransceiver_spec hr
      intro i hi
      rw [hpos, Finset.mem_insert] at hi
      rw [htrans]
      obtain rfl | hi := hi
      · obtain ⟨e, he, hid⟩ := ho
        exact ⟨e, he, congrArg UInt8.toNat hid⟩
      · exact hs i hi
  | disableTransceiver id =>
      obtain ⟨hr, -⟩ := disableTransceiver_spec (Except.return_eq_ok.mp h).1
      obtain ⟨-, htrans, hpos⟩ := TransceiverRegistry.disableTransceiver_spec hr
      intro i hi
      rw [hpos] at hi
      rw [htrans]
      exact hs i (Finset.mem_of_mem_erase hi)
  | setThreshold n =>
      obtain ⟨htrans, -, -⟩ := setThreshold_spec (Except.return_eq_ok.mp h).1
      rw [BitsRegistered, htrans]
      exact hs
  | setPeer chain address tokenDecimals inboundLimit =>
      exact (setPeer_spec (Except.return_eq_ok.mp h).1).1.bitsRegistered hs
  | pause =>
      obtain ⟨heq, -⟩ := Prod.mk.inj (Except.ok.inj h)
      exact SameQuorum.bitsRegistered (heq ▸ ⟨rfl, rfl⟩) hs
  | unpause =>
      obtain ⟨heq, -⟩ := Prod.mk.inj (Except.ok.inj h)
      exact SameQuorum.bitsRegistered (heq ▸ ⟨rfl, rfl⟩) hs

/-- The registered transceivers that are enabled. -/
def enabledTransceivers (s : State τ) : List (τ × TransceiverInfo) :=
  s.transceivers.transceivers.filter fun e =>
    decide (e.2.id.toNat ∈ s.transceivers.enabledBitmap.positions)

/-- Where every enabled bit is registered, there are at most as many bits as enabled
transceivers. -/
theorem BitsRegistered.card_le (h : s.BitsRegistered) :
    s.transceivers.enabledBitmap.positions.card ≤ s.enabledTransceivers.length := by
  have hsub : s.transceivers.enabledBitmap.positions ⊆
      (s.enabledTransceivers.map fun e => e.2.id.toNat).toFinset := by
    intro i hi
    obtain ⟨e, he, rfl⟩ := h i hi
    exact List.mem_toFinset.mpr (List.mem_map.mpr
      ⟨e, List.mem_filter.mpr ⟨he, decide_eq_true hi⟩, rfl⟩)
  calc s.transceivers.enabledBitmap.positions.card
      ≤ (s.enabledTransceivers.map fun e => e.2.id.toNat).toFinset.card :=
        Finset.card_le_card hsub
    _ ≤ (s.enabledTransceivers.map fun e => e.2.id.toNat).length := List.toFinset_card_le _
    _ = s.enabledTransceivers.length := List.length_map ..

/-- A state that was just created. -/
theorem governed_new {id : Bytes32} {chainId : UInt16} {mode : Mode} {treasuryCap : Option UInt64}
    (h : new id chainId mode treasuryCap = .ok s) : s.Governed ∧ s.BitsRegistered := by
  simp only [new, Except.bind_eq_ok, Except.pure_eq_ok] at h
  obtain ⟨_, -, rfl⟩ := h
  have hnone : Bitmap.empty.positions = ∅ := BitSet.positions_zero
  refine ⟨⟨.new, Nat.zero_le _, fun hne => ?_⟩, fun i hi => ?_⟩
  · change Bitmap.empty.positions.Nonempty at hne
    rw [hnone] at hne
    exact absurd hne Finset.not_nonempty_empty
  · change i ∈ Bitmap.empty.positions at hi
    rw [hnone] at hi
    exact absurd hi (Finset.notMem_empty i)

/-- Calls of any kind keep registry and threshold in order. -/
theorem governed_run [DecidableEq τ] (F : Framework) (W : Wormhole) (hs : s.Governed)
    (calls : List (UInt64 × Op τ)) : ((Manager.machine F W).run s calls).Governed :=
  Transducer.run_inv (fun _ _ hs _ => Transducer.ofExcept_next hs fun _ _ h => hs.apply h) hs
    Transducer.along_true

/-- **Registry and threshold, in every state that calls lead to.** The registered types have
distinct ids below the counter; the threshold is at most the number of enabled bits, and zero
exactly while there is none. Where only registered ids are enabled, every enabled bit is a
registered transceiver. -/
theorem registry_invariant [DecidableEq τ] (F : Framework) (W : Wormhole) {id : Bytes32}
    {chainId : UInt16} {mode : Mode} {treasuryCap : Option UInt64} {s₀ : State τ}
    (hnew : new id chainId mode treasuryCap = .ok s₀) (calls : List (UInt64 × Op τ)) :
    let s := (Manager.machine F W).run s₀ calls
    let registered := s.transceivers.transceivers
    let enabled := s.transceivers.enabledBitmap.positions
    ((registered.map Prod.fst).Nodup ∧ (registered.map fun e => e.2.id).Nodup ∧
      ∀ e ∈ registered, e.2.id < s.transceivers.nextId) ∧
    (s.threshold.toNat ≤ enabled.card ∧ (s.threshold = 0 ↔ enabled = ∅)) ∧
    ((Manager.machine F W).Along EnablesRegistered s₀ calls →
      (∀ i ∈ enabled, ∃ e ∈ registered, e.2.id.toNat = i) ∧ enabled.card ≤ registered.length ∧
        s.threshold.toNat ≤ s.enabledTransceivers.length ∧
          (1 ≤ s.threshold.toNat ↔ s.enabledTransceivers ≠ [])) := by
  intro s registered enabled
  obtain ⟨hgov₀, hbits₀⟩ := governed_new hnew
  have hgov : s.Governed := governed_run F W hgov₀ calls
  refine ⟨⟨hgov.registry.keys_nodup, hgov.registry.ids_nodup, fun e he => ?_⟩,
    ⟨hgov.threshold_le, hgov.threshold_eq_zero⟩, fun hok => ?_⟩
  · exact UInt8.lt_iff_toNat_lt.mpr (hgov.registry.exists_id_iff.mp ⟨e, he, rfl⟩)
  · have hbits : s.BitsRegistered := Transducer.run_inv
      (fun _ _ hs ho => Transducer.ofExcept_next hs fun _ _ h => hs.apply ho h) hbits₀ hok
    have hle := hbits.card_le
    have hlength : s.enabledTransceivers.length ≤ registered.length := List.length_filter_le _ _
    refine ⟨hbits, hle.trans hlength, hgov.threshold_le.trans hle, ?_⟩
    constructor
    · intro hpos hnil
      have := hgov.threshold_le.trans hle
      rw [hnil, List.length_nil] at this
      omega
    · intro hne
      obtain ⟨e, he⟩ := List.exists_mem_of_ne_nil _ hne
      have hmem := of_decide_eq_true (List.mem_filter.mp he).2
      exact hgov.threshold_pos ⟨_, hmem⟩

/-- A state that was just created, for two types of transceivers. -/
def fresh : State Bool where
  id := 17
  chainId := 21
  mode := .locking
  treasuryCap := none
  balance := 0
  threshold := 0
  peers := fun _ => none
  outboundRateLimit := .new 0xFFFFFFFFFFFFFFFF
  inbox := fun _ => none
  transceivers := .new
  paused := false
  version := 0

/-- Two transceivers and a threshold of two, of which one is disabled. -/
def twoTransceivers : List (UInt64 × Op Bool) :=
  [(0, .registerTransceiver false 1), (0, .registerTransceiver true 2), (0, .setThreshold 2),
    (0, .disableTransceiver 1)]

/-- The state after that. -/
def oneLeft : State Bool := (Manager.machine .reference .reference).run fresh twoTransceivers

theorem new_eq_fresh : new 17 21 .locking none = .ok fresh := rfl

theorem oneLeft_registry :
    oneLeft.threshold.toNat ≤ oneLeft.transceivers.enabledBitmap.positions.card ∧
      oneLeft.threshold.toNat ≤ oneLeft.enabledTransceivers.length := by
  rw [oneLeft]
  have hok : (Manager.machine .reference .reference).Along EnablesRegistered fresh
      twoTransceivers := ⟨trivial, trivial, trivial, trivial, trivial⟩
  obtain ⟨-, ⟨hle, -⟩, hbits⟩ :=
    registry_invariant .reference .reference new_eq_fresh twoTransceivers
  obtain ⟨-, -, hle', -⟩ := hbits hok
  exact ⟨hle, hle'⟩

/-- The state after an id is enabled that no transceiver has. -/
def strayBit : State Bool := (Manager.machine .reference .reference).run fresh
  [(0, .registerTransceiver false 1), (0, .enableTransceiver 5), (0, .setThreshold 2)]

/-- The state after the only transceiver is disabled. -/
def noneEnabled : State Bool := (Manager.machine .reference .reference).run fresh
  [(0, .registerTransceiver false 1), (0, .disableTransceiver 0)]

/-- A bit is enabled that is no transceiver's, and the threshold is above the number of
transceivers; and a manager whose only transceiver is disabled has a threshold of zero. -/
theorem stray_bit_enabled :
    (5 ∈ strayBit.transceivers.enabledBitmap.positions ∧
      (strayBit.transceivers.transceivers.map fun e => e.2.id) = [0] ∧
      strayBit.transceivers.enabledBitmap.positions.card = 2 ∧ strayBit.threshold = 2 ∧
      strayBit.enabledTransceivers.length = 1) ∧
    noneEnabled.transceivers.transceivers.length = 1 ∧ noneEnabled.threshold = 0 := by
  decide +kernel

end State

end Ntt.Sui
