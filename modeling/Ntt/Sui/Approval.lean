import Ntt.Sui.Quorum

/-!
# Redemption Approval on Sui

An item of the inbox is approved by the vote that reaches the threshold, and votes count while
their transceivers are enabled. Every bit of an item's votes was set by a transceiver that is
registered under it, through a message of the peer that was registered for its chain
(`votes_accounted`). So there are at least as many voters as the threshold, each registered and
enabled at that moment.

The threshold is zero while every transceiver is disabled, and then the vote of a disabled one is
enough. An approval has its quorum when the threshold is not zero.

## Main results

* `State.inbox_cases`: what a call does to an item of the inbox.
* `State.approval_quorum`: every approval of a run has a quorum exactly when its threshold is not
  zero.
-/

namespace Ntt.Sui

namespace State

variable {τ : Type} {s s' : State τ} {now : UInt64}

/-- The status of a message; one that was never voted for is not approved. -/
def status (s : State τ) (key : InboxKey) : ReleaseStatus := (s.itemFor key).releaseStatus

theorem itemFor_setInboxItem (key key' : InboxKey) (item : InboxItem) :
    (s.setInboxItem key item).itemFor key' = if key' = key then item else s.itemFor key' := by
  rw [itemFor, setInboxItem]
  by_cases h : key' = key
  · subst h
    simp
  · simp [h, itemFor]

theorem itemFor_of_inbox (h : s'.inbox = s.inbox) (key : InboxKey) :
    s'.itemFor key = s.itemFor key := by
  rw [itemFor, itemFor, h]

variable [DecidableEq τ]

/-- What a call does to an item: nothing; or it adds the vote of a registered transceiver, and
leaves the status as it is or approves the item with its quorum; or it releases one that was
approved. -/
theorem inbox_cases {F : Framework} {W : Wormhole} {op : Op τ}
    {paid : Option (Bytes32 × UInt64)} (h : s.apply F W now op = .ok (s', paid)) (key : InboxKey) :
    s'.itemFor key = s.itemFor key ∨
    (∃ t validatedMessage decimals info, op = .redeem t validatedMessage decimals ∧
      Redeems W s validatedMessage key ∧ (t, info) ∈ s.transceivers.transceivers ∧
      (s'.itemFor key).votes.positions = insert info.id.toNat (s.itemFor key).votes.positions ∧
      (s'.status key = s.status key ∨ s.threshold ≤
        (s'.itemFor key).countEnabledVotes s.transceivers.enabledBitmap)) ∨
    ((s'.itemFor key).votes = (s.itemFor key).votes ∧ s.status key ≠ .notApproved) := by
  cases op with
  | redeem t validatedMessage decimals =>
      obtain ⟨key₀, s₁, hredeems, hvote, hafter⟩ := redeem_spec (Except.return_eq_ok.mp h).1
      obtain ⟨info, votes, hinfo, hvotes, hs₁⟩ := vote_spec hvote
      have hitem₁ := itemFor_setInboxItem (s := s) key₀ key { s.itemFor key₀ with votes }
      rw [← hs₁] at hitem₁
      by_cases hkey : key = key₀
      · subst hkey
        rw [if_pos rfl] at hitem₁
        have hpositions := Bitmap.positions_enable hvotes
        refine .inr (.inl ⟨t, validatedMessage, decimals, info, rfl, hredeems, hinfo, ?_⟩)
        obtain rfl | ⟨s₂, item, releaseTimestamp, _, hitem, hcount, -, -, -, rfl⟩ := hafter
        · rw [status, hitem₁]
          exact ⟨hpositions, .inl rfl⟩
        · -- the approved item is the one that was voted for
          obtain rfl : s₁.itemFor key = item := by
            rw [itemFor, hitem]
            rfl
          obtain ⟨htrans, hthreshold⟩ := vote_sameQuorum hvote
          rw [itemFor_setInboxItem, if_pos rfl, hitem₁]
          rw [hthreshold, htrans, hitem₁] at hcount
          exact ⟨hpositions, .inr hcount⟩
      · rw [if_neg hkey] at hitem₁
        refine .inl ?_
        obtain rfl | ⟨s₂, item, releaseTimestamp, _, -, -, -, -, hconsume, rfl⟩ := hafter
        · exact hitem₁
        · obtain ⟨-, hinbox⟩ := consumeInbound_sameQuorum hconsume
          rw [itemFor_setInboxItem, if_neg hkey, itemFor_of_inbox hinbox]
          exact hitem₁
  | release fromChainId message decimals =>
      obtain ⟨_, hrelease, -⟩ := apply_release_eq_ok.mp h
      obtain ⟨-, item, hitem, hstatus, hinbox⟩ := release_spec hrelease
      by_cases hkey : key = ⟨fromChainId, message⟩
      · have hitem' : s.itemFor key = item := by
          rw [itemFor, hkey, hitem]
          rfl
        refine .inr (.inr ⟨?_, ?_⟩)
        · rw [hitem', itemFor, hinbox, hkey, Function.update_self]
          rfl
        · rwa [status, hitem']
      · refine .inl ?_
        rw [itemFor, hinbox, Function.update_of_ne hkey]
        rfl
  | registerTransceiver t stateObjectId =>
      exact .inl (itemFor_of_inbox (registerTransceiver_spec (Except.return_eq_ok.mp h).1).2.2 key)
  | enableTransceiver id =>
      exact .inl (itemFor_of_inbox (enableTransceiver_spec (Except.return_eq_ok.mp h).1).2.2 key)
  | disableTransceiver id =>
      exact .inl (itemFor_of_inbox (disableTransceiver_spec (Except.return_eq_ok.mp h).1).2.2 key)
  | setThreshold n =>
      exact .inl (itemFor_of_inbox (setThreshold_spec (Except.return_eq_ok.mp h).1).2.2 key)
  | setPeer chain address tokenDecimals inboundLimit =>
      exact .inl (itemFor_of_inbox (setPeer_spec (Except.return_eq_ok.mp h).1).2 key)
  | pause =>
      obtain ⟨rfl, -⟩ := Prod.mk.inj (Except.ok.inj h)
      exact .inl rfl
  | unpause =>
      obtain ⟨rfl, -⟩ := Prod.mk.inj (Except.ok.inj h)
      exact .inl rfl

/-- A registered transceiver stays registered. -/
theorem registered_of_apply {F : Framework} {W : Wormhole} {op : Op τ}
    {paid : Option (Bytes32 × UInt64)} (h : s.apply F W now op = .ok (s', paid))
    {e : τ × TransceiverInfo} (he : e ∈ s.transceivers.transceivers) :
    e ∈ s'.transceivers.transceivers := by
  cases op with
  | redeem t validatedMessage decimals =>
      rwa [(redeem_sameQuorum (Except.return_eq_ok.mp h).1).1]
  | release fromChainId message decimals =>
      obtain ⟨_, hrelease, -⟩ := apply_release_eq_ok.mp h
      rwa [(release_spec hrelease).1.1]
  | registerTransceiver t stateObjectId =>
      have hr := (registerTransceiver_spec (Except.return_eq_ok.mp h).1).1
      rw [(TransceiverRegistry.registerTransceiver_spec hr).2.2.2.1]
      exact List.mem_append_left _ he
  | enableTransceiver id =>
      have hr := (enableTransceiver_spec (Except.return_eq_ok.mp h).1).1
      rwa [(TransceiverRegistry.enableTransceiver_spec hr).2.2.1]
  | disableTransceiver id =>
      have hr := (disableTransceiver_spec (Except.return_eq_ok.mp h).1).1
      rwa [(TransceiverRegistry.disableTransceiver_spec hr).2.1]
  | setThreshold n =>
      rwa [(setThreshold_spec (Except.return_eq_ok.mp h).1).1]
  | setPeer chain address tokenDecimals inboundLimit =>
      rwa [(setPeer_spec (Except.return_eq_ok.mp h).1).1.1]
  | pause =>
      obtain ⟨rfl, -⟩ := Prod.mk.inj (Except.ok.inj h)
      exact he
  | unpause =>
      obtain ⟨rfl, -⟩ := Prod.mk.inj (Except.ok.inj h)
      exact he

/-! ### Votes along a run -/

variable (F : Framework) (W : Wormhole)

/-- A call by which a transceiver votes for a message: a redemption that succeeds, of a message
from the peer of its chain. -/
def Votes (s : State τ) (o : UInt64 × Op τ) (t : τ) (key : InboxKey) : Prop :=
  ∃ validatedMessage decimals s', o.2 = .redeem t validatedMessage decimals ∧
    s.redeem W o.1 t validatedMessage decimals = .ok s' ∧ Redeems W s validatedMessage key

/-- A transceiver has voted for a message in one of the calls. -/
def Voted (s₀ : State τ) (calls : List (UInt64 × Op τ)) (t : τ) (key : InboxKey) : Prop :=
  ∃ before o after, calls = before ++ o :: after ∧
    Votes W ((Manager.machine F W).run s₀ before) o t key

variable {F W} {s₀ : State τ} {calls : List (UInt64 × Op τ)} {key : InboxKey}

theorem Voted.append {t : τ} (h : Voted F W s₀ calls t key) (o : UInt64 × Op τ) :
    Voted F W s₀ (calls ++ [o]) t key := by
  obtain ⟨before, o', after, rfl, hvotes⟩ := h
  exact ⟨before, o', after ++ [o], by simp, hvotes⟩

/-- The bit `i` of an item is the vote of a registered transceiver. -/
def Accounted (F : Framework) (W : Wormhole) (s₀ : State τ) (calls : List (UInt64 × Op τ))
    (s : State τ) (key : InboxKey) (i : ℕ) : Prop :=
  ∃ t info, (t, info) ∈ s.transceivers.transceivers ∧ info.id.toNat = i ∧
    Voted F W s₀ calls t key

/-- A vote that was accounted for still is, after one more call. -/
theorem Accounted.append {o : UInt64 × Op τ} {i : ℕ} (h : Accounted F W s₀ calls s key i)
    (hsub : ∀ e ∈ s.transceivers.transceivers, e ∈ s'.transceivers.transceivers) :
    Accounted F W s₀ (calls ++ [o]) s' key i := by
  obtain ⟨t, info, hinfo, hid, hvoted⟩ := h
  exact ⟨t, info, hsub _ hinfo, hid, hvoted.append o⟩

/-- **Every vote is accounted for**, after any calls. Induction on the calls, from the last. -/
theorem votes_accounted (F : Framework) (W : Wormhole) {s₀ : State τ}
    (h₀ : ∀ key, (s₀.itemFor key).votes.positions = ∅) (calls : List (UInt64 × Op τ))
    (key : InboxKey) :
    ∀ i ∈ (((Manager.machine F W).run s₀ calls).itemFor key).votes.positions,
      Accounted F W s₀ calls ((Manager.machine F W).run s₀ calls) key i := by
  induction calls using List.reverseRecOn with
  | nil =>
      intro i hi
      have hnone : i ∈ (s₀.itemFor key).votes.positions := hi
      rw [h₀] at hnone
      exact absurd hnone (Finset.notMem_empty i)
  | append_singleton calls o ih =>
      rw [Transducer.run_append]
      set s := (Manager.machine F W).run s₀ calls with hs
      change ∀ i ∈ (((Manager.machine F W).next s o).itemFor key).votes.positions,
        Accounted F W s₀ (calls ++ [o]) ((Manager.machine F W).next s o) key i
      cases hstep : s.apply F W o.1 o.2 with
      | error e =>
          rw [Manager.machine, (Transducer.ofExcept_of_error hstep).1]
          exact fun i hi => (ih i hi).append fun _ he => he
      | ok r =>
          have hsub : ∀ e ∈ s.transceivers.transceivers, e ∈ r.1.transceivers.transceivers :=
            fun _ he => registered_of_apply hstep he
          rw [Manager.machine, (Transducer.ofExcept_of_ok hstep).1]
          intro i hi
          obtain hsame | ⟨t, validatedMessage, decimals, info, hop, hredeems, hinfo, hpos, -⟩ |
            ⟨hsame, -⟩ := inbox_cases hstep key
          · rw [hsame] at hi
            exact (ih i hi).append hsub
          · rw [hpos, Finset.mem_insert] at hi
            obtain rfl | hi := hi
            · rw [hop] at hstep
              exact ⟨t, info, hsub _ hinfo, rfl, calls, o, [], rfl, validatedMessage, decimals,
                r.1, hop, (Except.return_eq_ok.mp hstep).1, hredeems⟩
            · exact (ih i hi).append hsub
          · rw [hsame] at hi
            exact (ih i hi).append hsub

/-! ### Approvals -/

/-- The quorum of a message: a threshold that is not zero, and as many transceivers that are
registered, enabled and have voted for it. -/
structure Quorate (F : Framework) (W : Wormhole) (s₀ : State τ) (calls : List (UInt64 × Op τ))
    (s : State τ) (key : InboxKey) : Prop where
  threshold_pos : 1 ≤ s.threshold.toNat
  voters : ∃ voters : Finset τ, s.threshold.toNat ≤ voters.card ∧ ∀ t ∈ voters,
    (∃ info, (t, info) ∈ s.transceivers.transceivers ∧
      info.id.toNat ∈ s.transceivers.enabledBitmap.positions) ∧ Voted F W s₀ calls t key

/-- A redemption that comes while the threshold is not zero. -/
def RedeemsUnderThreshold (s : State τ) (o : UInt64 × Op τ) : Prop :=
  match o.2 with
  | .redeem .. => 1 ≤ s.threshold.toNat
  | _ => True

/-- A call that approves a message is a redemption, by the vote that reaches the threshold. -/
theorem approves_of_status {o : UInt64 × Op τ} (hnot : s.status key = .notApproved)
    (happ : ((Manager.machine F W).next s o).status key ≠ .notApproved) :
    (∃ t validatedMessage decimals, o.2 = .redeem t validatedMessage decimals) ∧
      ((Manager.machine F W).next s o).transceivers = s.transceivers ∧
      s.threshold.toNat ≤ ((((Manager.machine F W).next s o).itemFor key).votes.positions ∩
        s.transceivers.enabledBitmap.positions).card := by
  cases hstep : s.apply F W o.1 o.2 with
  | error e =>
      rw [Manager.machine, (Transducer.ofExcept_of_error hstep).1] at happ
      exact absurd hnot happ
  | ok r =>
      rw [Manager.machine, (Transducer.ofExcept_of_ok hstep).1] at happ ⊢
      obtain hsame | ⟨t, validatedMessage, decimals, info, hop, -, -, -, hstatus | hcount⟩ |
        ⟨-, hstatus⟩ := inbox_cases hstep key
      · rw [status, hsame] at happ
        exact absurd hnot happ
      · exact absurd (hstatus.trans hnot) happ
      · rw [hop] at hstep
        refine ⟨⟨t, validatedMessage, decimals, hop⟩,
          (redeem_sameQuorum (Except.return_eq_ok.mp hstep).1).1, ?_⟩
        rw [UInt8.le_iff_toNat_le, InboxItem.countEnabledVotes, Bitmap.toNat_countOnes,
          Bitmap.positions_and] at hcount
        exact hcount
      · exact absurd hnot hstatus

omit [DecidableEq τ] in
/-- Nobody has voted yet. -/
theorem votes_new {id : Bytes32} {chainId : UInt16} {mode : Mode} {treasuryCap : Option UInt64}
    (h : new id chainId mode treasuryCap = .ok s) (key : InboxKey) :
    (s.itemFor key).votes.positions = ∅ := by
  simp only [new, Except.bind_eq_ok, Except.pure_eq_ok] at h
  obtain ⟨_, -, rfl⟩ := h
  exact BitSet.positions_zero

/-- An approval has as many voters as the threshold, each of them registered and enabled. -/
theorem exists_quorum (hgov : s₀.Governed) (h₀ : ∀ key, (s₀.itemFor key).votes.positions = ∅)
    {before : List (UInt64 × Op τ)} {o : UInt64 × Op τ}
    (hnot : ((Manager.machine F W).run s₀ before).status key = .notApproved)
    (happ : ((Manager.machine F W).run s₀ (before ++ [o])).status key ≠ .notApproved) :
    ∃ voters : Finset τ,
      ((Manager.machine F W).run s₀ before).threshold.toNat ≤ voters.card ∧ ∀ t ∈ voters,
        (∃ info, (t, info) ∈ ((Manager.machine F W).run s₀ before).transceivers.transceivers ∧
          info.id.toNat ∈
            ((Manager.machine F W).run s₀ before).transceivers.enabledBitmap.positions) ∧
        Voted F W s₀ (before ++ [o]) t key := by
  have hgov := governed_run F W hgov before
  have hvotes := votes_accounted F W h₀ (before ++ [o]) key
  rw [Transducer.run_append] at happ hvotes
  set s := (Manager.machine F W).run s₀ before
  obtain ⟨-, htrans, hcount⟩ := approves_of_status hnot happ
  -- every enabled vote has its own voter
  obtain ⟨voters, hcard, hvoters, -⟩ := BitSet.exists_voters
    (P := fun i t => ∃ info, (t, info) ∈ s.transceivers.transceivers ∧ info.id.toNat = i ∧
      Voted F W s₀ (before ++ [o]) t key)
    (fun i hi => by
      obtain ⟨t, info, hinfo, hid, hvoted⟩ := hvotes i (Finset.mem_inter.mp hi).1
      rw [show (Transducer.run (Manager.machine F W) s [o]).transceivers = s.transceivers
        from htrans] at hinfo
      exact ⟨t, info, hinfo, hid, hvoted⟩)
    (fun i j t hi hj => by
      obtain ⟨info, hinfo, rfl, -⟩ := hi
      obtain ⟨info', hinfo', rfl, -⟩ := hj
      rw [hgov.registry.info_unique hinfo hinfo'])
  refine ⟨voters, hcard ▸ hcount, fun t ht => ?_⟩
  obtain ⟨i, hi, info, hinfo, rfl, hvoted⟩ := hvoters t ht
  exact ⟨⟨info, hinfo, (Finset.mem_inter.mp hi).2⟩, hvoted⟩

/-- **Every approval of a run has its quorum exactly when the threshold is not zero then.** In a
run whose redemptions all come while it is not zero, every approval has its quorum. -/
theorem approval_quorum (F : Framework) (W : Wormhole) {id : Bytes32} {chainId : UInt16}
    {mode : Mode} {treasuryCap : Option UInt64} {s₀ : State τ}
    (hnew : new id chainId mode treasuryCap = .ok s₀) (calls : List (UInt64 × Op τ)) :
    (∀ before o after key, calls = before ++ o :: after →
      ((Manager.machine F W).run s₀ before).status key = .notApproved →
      ((Manager.machine F W).run s₀ (before ++ [o])).status key ≠ .notApproved →
      (Quorate F W s₀ (before ++ [o]) ((Manager.machine F W).run s₀ before) key ↔
        1 ≤ ((Manager.machine F W).run s₀ before).threshold.toNat)) ∧
    ((Manager.machine F W).Along RedeemsUnderThreshold s₀ calls →
      ∀ before o after key, calls = before ++ o :: after →
        ((Manager.machine F W).run s₀ before).status key = .notApproved →
        ((Manager.machine F W).run s₀ (before ++ [o])).status key ≠ .notApproved →
        Quorate F W s₀ (before ++ [o]) ((Manager.machine F W).run s₀ before) key) := by
  have hgov := (governed_new hnew).1
  have h₀ := votes_new hnew
  refine ⟨fun before o after key _ hnot happ => ⟨Quorate.threshold_pos,
    fun hpos => ⟨hpos, exists_quorum hgov h₀ hnot happ⟩⟩, ?_⟩
  rintro hok before o after key rfl hnot happ
  refine ⟨?_, exists_quorum hgov h₀ hnot happ⟩
  have ho := (Transducer.along_append.mp hok).2.1
  rw [Transducer.run_append] at happ
  obtain ⟨⟨t, validatedMessage, decimals, hop⟩, -⟩ := approves_of_status hnot happ
  rw [RedeemsUnderThreshold, hop] at ho
  exact ho

/-- A transfer of 100 units to this chain. -/
def sampleTransfer : NativeTokenTransfer := ⟨⟨100, 8⟩, 3, 4, 21, none⟩

/-- The transfer in a message of the peer on chain 2. -/
def sampleKey : InboxKey := ⟨2, ⟨1, 5, sampleTransfer⟩⟩

/-- The message as a transceiver validates it. -/
def sampleMessage : ValidatedTransceiverMessage :=
  ⟨2, ⟨42, 17, ⟨1, 5, (sampleTransfer.toBytes .reference).toOption.getD []⟩⟩⟩

/-- A manager with one transceiver and a peer on chain 2. -/
def oneTransceiver : List (UInt64 × Op Bool) :=
  [(0, .registerTransceiver false 1), (0, .setPeer 2 42 8 1000)]

/-- The vote of the transceiver. -/
def sampleVote : UInt64 × Op Bool := (0, .redeem false sampleMessage 8)

theorem sample_approval_quorum :
    Quorate .reference .reference fresh (oneTransceiver ++ [sampleVote])
      ((Manager.machine .reference .reference).run fresh oneTransceiver) sampleKey := by
  have hpos : 1 ≤ ((Manager.machine .reference .reference).run fresh
      oneTransceiver).threshold.toNat := by decide +kernel
  have hok : (Manager.machine .reference .reference).Along RedeemsUnderThreshold fresh
      (oneTransceiver ++ [sampleVote]) :=
    Transducer.along_append.mpr ⟨⟨trivial, trivial, trivial⟩, hpos, trivial⟩
  exact (approval_quorum .reference .reference new_eq_fresh _).2 hok oneTransceiver sampleVote []
    sampleKey rfl (by decide +kernel) (by decide +kernel)

/-- The vote of the only transceiver, while it is disabled. -/
theorem disabled_vote_approves :
    let before := oneTransceiver ++ [(0, .disableTransceiver 0)]
    let s := (Manager.machine .reference .reference).run fresh before
    let s' := (Manager.machine .reference .reference).run fresh (before ++ [sampleVote])
    s.status sampleKey = .notApproved ∧ s'.status sampleKey = .releaseAfter 0 ∧
      s.threshold = 0 ∧ s.transceivers.enabledBitmap.positions = ∅ ∧
      ¬ Quorate .reference .reference fresh (before ++ [sampleVote]) s sampleKey := by
  intro before s s'
  have hzero : s.threshold = 0 := by decide +kernel
  refine ⟨by decide +kernel, by decide +kernel, hzero, by decide +kernel, fun h => ?_⟩
  have hpos := h.threshold_pos
  rw [hzero] at hpos
  exact absurd hpos (by decide)

end State

end Ntt.Sui
