import Ntt.Relayer.Contracts

/-!
# Deliveries Obey Their Contract

What a delivery knows of the row of its message, from the read at its start to its last action:
unless somebody else has ended the row, it is still as the delivery left it, or as it was when the
delivery read it, but for having been failed.

## Main results

* `processDelivery_obeys`: a delivery obeys its contract.
-/

namespace Ntt.Relayer

open Interleaving TransactionsRepo

variable {d : Deployment} {g : Regime} {m : RelayMessage} {again : Bool} {rec : TransactionRecord}
  {s s' : World} {h : Past (atomics d)} {P Q : Row → Prop}

/-! ### Knowledge -/

/-- What a delivery knows of the row of its record: others may have ended it, or it has a
property. -/
def Knows (g : Regime) (m : RelayMessage) (rec : TransactionRecord) (P : Row → Prop) (s : World) :
    Prop :=
  ∃ r, s.transactions[rec.id]? = some r ∧ r.key = m.key ∧
    r.destinationChainId = rec.destinationChainId ∧
    (g.locked → (r.status.terminal = true ∧ ¬ g.unended) ∨ (r.status.terminal = false ∧ P r))

/-- Others keep the property of a row that they do not end. -/
def Lasting (g : Regime) (P : Row → Prop) : Prop :=
  ∀ r r', r.Others g r' → r'.status.terminal = false → P r → P r'

theorem Knows.own (hk : Knows g m rec P s) : Own m.key rec.id (fun _ => True) s := by
  obtain ⟨r, hr, hkey, -, -⟩ := hk
  exact ⟨r, hr, hkey, trivial⟩

theorem Knows.mono (hk : Knows g m rec P s) (h : ∀ r, P r → Q r) : Knows g m rec Q s := by
  obtain ⟨r, hr, hkey, hdest, hP⟩ := hk
  exact ⟨r, hr, hkey, hdest, fun hg => (hP hg).imp_right fun hP => ⟨hP.1, h r hP.2⟩⟩

theorem Knows.of_rows (hk : Knows g m rec P s) (hrows : s'.transactions = s.transactions) :
    Knows g m rec P s' := by
  obtain ⟨r, hr, h⟩ := hk
  exact ⟨r, hrows ▸ hr, h⟩

/-- What a delivery knows survives what the others do. -/
theorem Knows.undisturbed (hP : Lasting g P) (hu : Undisturbed g m.key s s')
    (hk : Knows g m rec P s) : Knows g m rec P s' := by
  obtain ⟨r, hr, hkey, hdest, hknown⟩ := hk
  obtain ⟨r', hr', hsame⟩ := hu.row _ r hr
  refine ⟨r', hr', hsame.key.trans hkey, hsame.destinationChainId.trans hdest, fun hg => ?_⟩
  have hoth := hu.others hg _ r r' hr hkey hr'
  rcases hknown hg with ⟨hterm, hend⟩ | ⟨hnt, hPr⟩
  · rw [hsame.terminal hterm]
    exact .inl ⟨hterm, hend⟩
  · cases hterm : r'.status.terminal with
    | true => exact .inl ⟨rfl, fun hge => by simp [hoth.ended hge hterm] at hnt⟩
    | false => exact .inr ⟨rfl, hP r r' hoth hterm hPr⟩

/-! ### Failures -/

/-- The row of the message is ended. -/
abbrev Ended (m : RelayMessage) (id : ℕ) : World → Prop :=
  Own m.key id fun r => r.status.terminal = true

theorem Ended.persists {id : ℕ} (hu : Persists s s') (he : Ended m id s) : Ended m id s' :=
  Own.persists (fun r r' hs ht => by rw [hs.terminal ht]; exact ht) hu he

/-- A row that an update ends is ended by it, unless it was before. -/
theorem ended_of_updated {id : ℕ} {r : Row} {change : Row → Row} {res : Option (Row × List Row)}
    {b : Bool} (hr : s.transactions[id]? = some r) (hkey : r.key = m.key)
    (hres : res = update s.transactions id [.pending, .submitting, .submitted, .failed] change)
    (hchange : (change r).key = r.key ∧ (change r).status.terminal = true)
    (h : s.updated res = (b, s')) : Ended m id s' := by
  rcases updated_cases hres h with ⟨-, r₀, hr₀, -, rfl⟩ | ⟨-, rfl, hnone⟩
  · obtain rfl := Option.some.inj (hr.symm.trans hr₀)
    exact ⟨_, List.getElem?_set_self (List.getElem?_eq_some_iff.mp hr).1, hchange.1.trans hkey,
      hchange.2⟩
  · refine ⟨r, hr, hkey, ?_⟩
    have := hnone r hr
    cases hst : r.status <;> simp [hst, TxStatus.terminal] at this ⊢

/-- A last action that leaves the rows, from what is known of them. -/
theorem last_obeys {a : Act} (ha : a.leavesRows = true) {P : World → Prop} (hP : P s)
    (hst : ∀ s s', Undisturbed g m.key s s' → P s → P s')
    (hrows : ∀ s s', s'.transactions = s.transactions → P s → P s')
    (hguard : ∀ s, P s → DoomedNext h a ∧ deliveryGuard g m h a s)
    (hfinal : ∀ (reply : a.Reply) (s : World), P s →
      (deliveryContract d g m again).final (⟨a, reply⟩ :: h) s) :
    (run (d := d) a).Obeys (deliveryContract d g m again)
      (fun _ => (deliveryContract d g m again).final) h s := by
  refine Proc.obeys_act (P := P) hP (fun s' _ hu => hst _ s' hu) (fun s _ => hguard s) ?_
  intro s ch reply s' _ hP _ hp _ s'' _ hu
  exact hfinal reply s'' (hst s' s'' hu (hrows s s' ((effect_of hp).rows ha) hP))

/-- The row of the message is marked, and so is the message. -/
theorem giveUp_obeys {msg : ErrorMessage} (hown : Own m.key rec.id (fun r => g.locked → r.Doomed msg) s)
    (hlast : ∀ id, exhaustedLast h = some id → id = rec.id) :
    (giveUp (d := d) m rec msg).Obeys (deliveryContract d g m again)
      (fun _ => (deliveryContract d g m again).final) h s := by
  refine Proc.obeys_perform (P := Own m.key rec.id fun r => g.locked → r.Doomed msg) hown ?_ ?_ ?_
  · intro s' _ hu
    exact Own.persists (fun r r' hs hd hg => (hd hg).same hs) hu.toPersists
  · intro s _ hown
    exact ⟨fun id hid => ⟨msg, by rw [hlast id hid]⟩, hown⟩
  · intro s ch reply s' _ hown _ hp _
    obtain ⟨r, hr, hkey, -⟩ := hown
    -- the row is ended now, by this update or by an earlier one
    have hterm : Ended m rec.id s' :=
      ended_of_updated hr hkey rfl ⟨rfl, rfl⟩ (Option.some.inj hp)
    refine last_obeys rfl hterm (fun _ _ hu => Ended.persists hu.toPersists)
      (fun _ _ hrows he => he.of_rows hrows) ?_ ?_
    · exact fun s _ => ⟨.of_none rfl, trivial⟩
    · exact fun _ _ he => ⟨rfl, fun _ _ => .inr ⟨rec.id, he⟩⟩

/-- Putting a message back takes the credit of its replacement with it. -/
theorem nack_obeys (hkey : HasKey s.transactions m.key)
    (hscore : g.locked → g.answered → 0 ≤ score m h) (hlast : exhaustedLast h = none) :
    (run (d := d) (.nack m)).Obeys (deliveryContract d g m again)
      (fun _ => (deliveryContract d g m again).final) h s := by
  refine last_obeys rfl (P := fun s => HasKey s.transactions m.key) hkey ?_ ?_ ?_ ?_
  · exact fun _ _ hu hk => hk.persists hu.toPersists
  · exact fun _ _ hrows hk => hrows ▸ hk
  · exact fun s hk => ⟨.of_none hlast, rfl, hk, hscore⟩
  · refine fun reply s _ => ⟨rfl, fun hl hg => .inl ?_⟩
    have := hscore hl hg
    simp only [score]
    omega

theorem deferLater_obeys (hown : Own m.key rec.id (fun _ => True) s)
    (hscore : g.locked → g.answered → 0 ≤ score m h) (hlast : exhaustedLast h = none) :
    (deferLater (d := d) m rec).Obeys (deliveryContract d g m again)
      (fun _ => (deliveryContract d g m again).final) h s := by
  refine Proc.obeys_perform (P := Own m.key rec.id fun _ => True) hown ?_ ?_ ?_
  · exact fun s' _ hu => Own.persists (fun _ _ _ h => h) hu.toPersists
  · exact fun s _ hown => ⟨.of_none hlast, hown⟩
  · exact fun s ch reply s' _ hown _ hp _ =>
      nack_obeys (hown.hasKey.effect (effect_of hp)) hscore rfl

/-- A delivery of a fresh message is over at a row that is no longer submitting. -/
theorem ack_obeys (rec : TransactionRecord) (hlast : exhaustedLast h = none)
    (hfinal : g.locked → g.answered → 0 ≤ m.replaces + score m h ∨ Ended m rec.id s) :
    (run (d := d) (.ack m)).Obeys (deliveryContract d g m again)
      (fun _ => (deliveryContract d g m again).final) h s := by
  refine last_obeys rfl (P := fun s => g.locked → g.answered →
    0 ≤ m.replaces + score m h ∨ Ended m rec.id s) hfinal ?_ ?_ ?_ ?_
  · exact fun s s' hu h hl hg => (h hl hg).imp_right (Ended.persists hu.toPersists)
  · exact fun s s' hrows h hl hg => (h hl hg).imp_right fun he => he.of_rows hrows
  · exact fun s _ => ⟨.of_none hlast, trivial⟩
  · exact fun _ s h => ⟨rfl, fun hl hg => (h hl hg).imp_right fun he => ⟨rec.id, he⟩⟩

/-- A row of a fresh message is submitting, as long as it is not ended. -/
def FreshSubmitting (m : RelayMessage) (r : Row) : Prop :=
  m.replaceNonce = none → r.status = .submitting

theorem FreshSubmitting.lasting : Lasting g (FreshSubmitting m) := by
  intro r r' ho hnt hf hm
  rcases ho.status hnt with hst | ⟨-, hns, -⟩
  · exact hst.trans (hf hm)
  · exact absurd (hf hm) hns

theorem replaces_of_some {n : ℕ} (hm : m.replaceNonce = some n) : m.replaces = 1 := by
  simp [RelayMessage.replaces, hm]

theorem replaces_of_none (hm : m.replaceNonce = none) : m.replaces = 0 := by
  simp [RelayMessage.replaces, hm]

/-- After an attempt that is charged to a row: the row ends with its budget, or the message is put
back. -/
theorem charged_obeys {budget : Budget} {r : Row} {msg : ErrorMessage}
    (hr : s.transactions[rec.id]? = some r) (hkey : r.key = m.key)
    (hbudget : budget = ⟨r.retryCount, r.maxRetries⟩)
    (hlast : exhaustedLast h = if budget.exhausted then some rec.id else none)
    (hscore : g.locked → g.answered → 0 ≤ score m h) :
    (if budget.exhausted then giveUp m rec msg else run (.nack m)).Obeys
      (deliveryContract d g m again) (fun _ => (deliveryContract d g m again).final) h s := by
  split
  · rename_i hex
    rw [if_pos hex] at hlast
    refine giveUp_obeys ⟨r, hr, hkey, fun _ => .inr (.inr ?_)⟩ fun id hid => ?_
    · rw [hbudget] at hex
      exact of_decide_eq_true hex
    · exact Option.some.inj (hid.symm.trans hlast)
  · rename_i hex
    rw [if_neg hex] at hlast
    exact nack_obeys ⟨rec.id, r, hr, hkey⟩ hscore hlast

/-- Another failed attempt on a committed nonce: the row keeps it while the budget lasts. -/
theorem incrementRetry_obeys {err : RelayError}
    (hk : Knows g m rec (FreshSubmitting m) s) (hlast : exhaustedLast h = none)
    (hscore : -1 ≤ score m h) :
    (run (d := d) (.incrementRetry rec.id) >>= fun budget =>
      match budget with
      | none => run (.ack m)
      | some budget =>
          if budget.exhausted then giveUp m rec (.ofError err) else run (.nack m)).Obeys
    (deliveryContract d g m again) (fun _ => (deliveryContract d g m again).final) h s := by
  refine Proc.obeys_perform (P := Knows g m rec (FreshSubmitting m)) hk ?_ ?_ ?_
  · exact fun s' _ hu hk => hk.undisturbed FreshSubmitting.lasting hu
  · exact fun s _ hk => ⟨.of_none hlast, hk.own⟩
  · intro s ch reply s' _ hk _ hp _
    obtain ⟨r, hr, hkey, -, hknown⟩ := hk
    rcases budgeted_cases rfl (Option.some.inj hp) with ⟨r₀, hr₀, -, rfl, rfl⟩ | ⟨rfl, rfl, hnone⟩
    · obtain rfl := Option.some.inj (hr.symm.trans hr₀)
      have hlt := (List.getElem?_eq_some_iff.mp hr).1
      refine charged_obeys (List.getElem?_set_self hlt) hkey rfl rfl fun _ _ => ?_
      simp only [score]
      omega
    · -- the row has left the states of an attempt
      refine ack_obeys rec rfl fun hl _ => ?_
      cases hm : m.replaceNonce with
      | some n =>
          refine .inl ?_
          rw [replaces_of_some hm]
          simp only [score]
          omega
      | none =>
          refine .inr ⟨r, hr, hkey, ?_⟩
          rcases hknown hl with ⟨ht, -⟩ | ⟨-, hsub⟩
          · exact ht
          · exact absurd (hsub hm) fun hst => hnone r hr (by simp [hst])

/-- **After a nonce is committed.** Each failure keeps the nonce, or ends the row. -/
theorem handleSubmittingFailure_obeys {err : RelayError}
    (hk : Knows g m rec (FreshSubmitting m) s) (hlast : exhaustedLast h = none)
    (hscore : -1 ≤ score m h)
    (hdefer : ∀ message, err = .defer message → g.answered → 0 ≤ score m h) :
    (handleSubmittingFailure (d := d) m rec err).Obeys (deliveryContract d g m again)
      (fun _ => (deliveryContract d g m again).final) h s := by
  cases err with
  | permanent message =>
      refine giveUp_obeys ?_ fun id hid => ?_
      · obtain ⟨r, hr, hkey, -⟩ := hk
        exact ⟨r, hr, hkey, fun _ => .inr (.inl trivial)⟩
      · rw [hlast] at hid
        cases hid
  | defer message => exact deferLater_obeys hk.own (fun _ hg => hdefer message rfl hg) hlast
  | retriable message => exact incrementRetry_obeys hk hlast hscore
  | allWalletsBusy => exact incrementRetry_obeys hk hlast hscore

/-- A row without a committed nonce, as long as it is not ended. -/
def Uncommitted (r : Row) : Prop := r.status = .pending ∨ r.status = .failed

theorem Uncommitted.lasting : Lasting g Uncommitted := by
  intro r r' ho hnt hu
  rcases ho.status hnt with hst | ⟨hf, -⟩
  · exact hu.imp hst.trans hst.trans
  · exact .inr hf

/-- A row without a committed nonce may be failed. -/
theorem Knows.uncommitted (hk : Knows g m rec Uncommitted s) : Own m.key rec.id (fun r => g.locked →
    r.status.terminal = true ∨ r.status = .pending ∨ r.status = .failed) s := by
  obtain ⟨r, hr, hkey, -, hknown⟩ := hk
  exact ⟨r, hr, hkey, fun hl => (hknown hl).imp And.left And.right⟩

/-- What a delivery knows after it has failed the row. -/
theorem failAndGiveUp_obeys {msg : ErrorMessage} (hk : Knows g m rec Uncommitted s)
    (hlast : exhaustedLast h = none) (hmsg : msg.Final) :
    (failAndGiveUp (d := d) m rec msg).Obeys (deliveryContract d g m again)
      (fun _ => (deliveryContract d g m again).final) h s := by
  refine Proc.obeys_perform (P := Knows g m rec Uncommitted) hk ?_ ?_ ?_
  · exact fun s' _ hu hk => hk.undisturbed Uncommitted.lasting hu
  · exact fun s _ hk => ⟨.of_none hlast, hk.uncommitted⟩
  · intro s ch reply s' _ hk _ hp _
    obtain ⟨r, hr, hkey, -, -⟩ := hk
    obtain ⟨r', hr', hsame⟩ := (effect_of hp).same_row hr
    refine giveUp_obeys ⟨r', hr', hsame.key.trans hkey, fun _ => .inr (.inl hmsg)⟩ fun id hid => ?_
    cases reply with
    | none => cases hid
    | some b =>
        simp only [exhaustedLast] at hid
        split at hid
        · exact (Option.some.inj hid).symm
        · cases hid

/-- **Before a nonce is committed.** The row is failed, or left. -/
theorem handleDeliveryFailure_obeys {err : RelayError} (hk : Knows g m rec Uncommitted s)
    (hlast : exhaustedLast h = none) (hscore : score m h = 0) :
    (handleDeliveryFailure (d := d) m rec err).Obeys (deliveryContract d g m again)
      (fun _ => (deliveryContract d g m again).final) h s := by
  cases err with
  | allWalletsBusy => exact deferLater_obeys hk.own (fun _ _ => by omega) hlast
  | permanent message => exact failAndGiveUp_obeys hk hlast trivial
  | defer message =>
      refine Proc.obeys_perform (P := Knows g m rec Uncommitted) hk ?_ ?_ ?_
      · exact fun s' _ hu hk => hk.undisturbed Uncommitted.lasting hu
      · exact fun s _ _ => ⟨.of_none hlast, trivial⟩
      · intro s ch reply s' _ hk _ hp _
        have hk' := hk.of_rows ((effect_of hp).rows rfl)
        dsimp only
        split
        · exact failAndGiveUp_obeys hk' rfl trivial
        · refine deferLater_obeys hk'.own (fun _ _ => ?_) rfl
          simp only [score]
          omega
  | retriable message =>
      refine Proc.obeys_perform (P := Knows g m rec Uncommitted) hk ?_ ?_ ?_
      · exact fun s' _ hu hk => hk.undisturbed Uncommitted.lasting hu
      · exact fun s _ hk => ⟨.of_none hlast, hk.uncommitted⟩
      · intro s ch reply s' _ hk _ hp _
        obtain ⟨r, hr, hkey, -, hknown⟩ := hk
        rcases budgeted_cases rfl (Option.some.inj hp) with ⟨r₀, hr₀, -, rfl, rfl⟩ | ⟨rfl, rfl, hnone⟩
        · obtain rfl := Option.some.inj (hr.symm.trans hr₀)
          have hlt := (List.getElem?_eq_some_iff.mp hr).1
          refine charged_obeys (List.getElem?_set_self hlt) hkey rfl rfl fun _ _ => ?_
          simp only [score]
          omega
        · -- no row updated means that somebody else has ended it
          simp only [Option.all_none, if_true]
          refine giveUp_obeys ⟨r, hr, hkey, fun hl => .inl ?_⟩ fun id hid => (by cases hid)
          rcases hknown hl with ⟨ht, -⟩ | ⟨-, hst⟩
          · exact ht
          · exact absurd hst fun hst => hnone r hr (by rcases hst with h | h <;> simp [h])

/-! ### Attempts -/

/-- A row holds the wallet and nonce of a lease, and that of a fresh message is submitting. -/
def Leased (m : RelayMessage) (lease : Lease) (r : Row) : Prop :=
  r.Holds lease.address lease.nonce ∧ FreshSubmitting m r

theorem Row.Holds.lasting {w : Hex} {n : ℕ} : Lasting g (Row.Holds w n) := by
  intro r r' ho hnt hh
  obtain ⟨hw, hn, -⟩ := ho.held hnt
  exact ⟨hw.trans hh.1, hn.trans hh.2⟩

theorem Lasting.and (hP : Lasting g P) (hQ : Lasting g Q) : Lasting g fun r => P r ∧ Q r :=
  fun r r' ho hnt h => ⟨hP r r' ho hnt h.1, hQ r r' ho hnt h.2⟩

theorem Leased.lasting {lease : Lease} : Lasting g (Leased m lease) :=
  Row.Holds.lasting.and FreshSubmitting.lasting

/-- A row whose attempt may be recorded. -/
def Recordable (g : Regime) (r : Row) : Prop :=
  g.unfailed → r.status = .submitting ∨ r.status = .submitted

theorem Recordable.lasting : Lasting g (Recordable g) := by
  intro r r' ho hnt hrec hg
  rcases ho.status hnt with hst | ⟨-, hns, hu⟩
  · exact (hrec hg).imp hst.trans hst.trans
  · exact absurd (hrec hg) (not_or.mpr ⟨hns, hu hg⟩)

/-- **The broadcast.** What is recorded is what was sent, with the wallet and nonce of the row. -/
theorem broadcastLease_obeys {lease : Lease} (hk : Knows g m rec (Leased m lease) s)
    (hlast : exhaustedLast h = none) (hscore : score m h = 0) :
    (broadcastLease (d := d) m rec lease).Obeys (deliveryContract d g m again)
      (fun _ => (deliveryContract d g m again).final) h s := by
  refine Proc.obeys_perform (P := Knows g m rec (Leased m lease)) hk ?_ ?_ ?_
  · exact fun s' _ hu hk => hk.undisturbed Leased.lasting hu
  · rintro s _ ⟨r, hr, hkey, hdest, hknown⟩
    refine ⟨.of_none hlast, hscore, r, hr, hkey, hdest.symm, ?_⟩
    exact fun hl => (hknown hl).imp_right fun h => ⟨h.1, h.2.1⟩
  · intro s ch reply s' hI hk hallow hp _
    have hk' := hk.of_rows ((effect_of hp).rows rfl)
    cases reply with
    | error err =>
        refine handleSubmittingFailure_obeys (hk'.mono fun r h => h.2) rfl ?_ ?_
        · simp only [score, hscore]
          omega
        · rintro message rfl hg
          -- a deferred broadcast is left out where broadcasts are answered
          cases ch with
          | sends taken hash err' =>
              have herr : err' = some (.defer message) := by
                cases taken <;> cases err' <;> simp only [atomics, perform] at hp
                all_goals first | (split at hp <;> simp_all) | simp_all
              subst herr
              exact absurd rfl (hallow.answered hg _ _ _ _ rfl _ _ _)
          | _ => cases hp
    | ok hash =>
        obtain ⟨hmined, -, rfl⟩ := perform_broadcast_ok hp
        let P := fun r => Leased m lease r ∧ Recordable g r
        have hP : Lasting g P := Leased.lasting.and Recordable.lasting
        have hknow : Knows g m rec P
            { s with sent := ⟨rec.destinationChainId, lease.address, lease.nonce, hash, rec.id⟩ :: s.sent } := by
          obtain ⟨r, hr, hkey, hdest, hknown⟩ := hk
          refine ⟨r, hr, hkey, hdest, fun hl => (hknown hl).imp_right fun h => ⟨h.1, h.2, fun hu => ?_⟩⟩
          -- the nonce of a failed row would be mined
          have hfits := hI.fits _ r hr
          cases hst : r.status with
          | submitting => exact .inl rfl
          | submitted => exact .inr rfl
          | pending =>
              have := (hfits.pending hst).2.1
              rw [h.2.1.2] at this
              cases this
          | failed =>
              have hlt := hfits.mined hl hu hst _ _ h.2.1
              rw [hdest] at hlt
              omega
          | confirmed | deadLetter => simp [hst, TxStatus.terminal] at h
        refine Proc.obeys_perform (P := fun s => Knows g m rec P s ∧
          ⟨rec.destinationChainId, lease.address, lease.nonce, hash, rec.id⟩ ∈ s.sent)
          ⟨hknow, List.mem_cons_self⟩ ?_ ?_ ?_
        · exact fun s' _ hu h => ⟨h.1.undisturbed hP hu, hu.sent _ h.2⟩
        · rintro s _ ⟨⟨r, hr, hkey, hdest, hknown⟩, hsent⟩
          refine ⟨.of_none rfl, r, hr, hkey, hdest ▸ hsent, fun hl => ?_⟩
          exact (hknown hl).imp And.left fun h => ⟨h.2.1.1, h.2.1.2, h.2.2⟩
        · rintro s ch reply s' _ ⟨⟨r, hr, hkey, -, -⟩, -⟩ _ hp _
          rcases updated_cases rfl (Option.some.inj hp) with ⟨rfl, -⟩ | ⟨rfl, rfl, hnone⟩
          · refine ack_obeys rec rfl fun _ _ => .inl ?_
            simp only [score, hscore]
            omega
          · refine ack_obeys rec rfl fun _ _ => .inr ⟨r, hr, hkey, ?_⟩
            have := hnone r hr
            cases hst : r.status <;> simp [hst, TxStatus.terminal] at this ⊢

/-- What a delivery knows of the row that it has read. -/
def AtRead (m : RelayMessage) (rec : TransactionRecord) (r : Row) : Prop :=
  match resubmitLease m rec with
  | some lease => Leased m lease r
  | none => Uncommitted r

theorem AtRead.lasting : Lasting g (AtRead m rec) := by
  intro r r' ho hnt h
  simp only [AtRead] at h ⊢
  cases hl : resubmitLease m rec with
  | some lease =>
      simp only [hl] at h ⊢
      exact Leased.lasting r r' ho hnt h
  | none =>
      simp only [hl] at h ⊢
      exact Uncommitted.lasting r r' ho hnt h

theorem routePreCommitFailure_obeys {err : RelayError} (hk : Knows g m rec (AtRead m rec) s)
    (hlast : exhaustedLast h = none) (hscore : score m h = 0) :
    (routePreCommitFailure (d := d) m rec err).Obeys (deliveryContract d g m again)
      (fun _ => (deliveryContract d g m again).final) h s := by
  rw [routePreCommitFailure]
  cases hl : resubmitLease m rec with
  | some lease =>
      have hk' := hk.mono (Q := FreshSubmitting m) fun r h => by
        simp only [AtRead, hl] at h
        exact h.2
      exact handleSubmittingFailure_obeys hk' hlast (by omega) fun _ _ _ => by omega
  | none =>
      have hk' := hk.mono (Q := Uncommitted) fun r h => by simpa only [AtRead, hl] using h
      exact handleDeliveryFailure_obeys hk' hlast hscore

/-- What is known after a nonce was secured, or was not. -/
def Secured (g : Regime) (m : RelayMessage) (rec : TransactionRecord) :
    Except RelayError Lease → Past (atomics d) → World → Prop
  | .ok lease, h, s => Knows g m rec (Leased m lease) s ∧ exhaustedLast h = none ∧ score m h = 0
  | .error _, h, s => Knows g m rec (AtRead m rec) s ∧ exhaustedLast h = none ∧ score m h = 0

theorem Secured.undisturbed {res : Except RelayError Lease} (hu : Undisturbed g m.key s s')
    (hs : Secured g m rec res h s) : Secured g m rec res h s' := by
  cases res with
  | ok lease => exact ⟨hs.1.undisturbed Leased.lasting hu, hs.2⟩
  | error err => exact ⟨hs.1.undisturbed AtRead.lasting hu, hs.2⟩

theorem secured_obeys {res : Except RelayError Lease} (hs : Secured g m rec res h s) :
    (pure res : Prog d _).Obeys (deliveryContract d g m again) (Secured g m rec) h s :=
  Proc.obeys_done hs fun _ _ hu hs => hs.undisturbed hu

/-- **The nonce.** It is the one that the row holds, or a new one that the row gets. -/
theorem secureNonce_obeys (hk : Knows g m rec (AtRead m rec) s) (hlast : exhaustedLast h = none)
    (hscore : score m h = 0) : (secureNonce (d := d) m rec).Obeys (deliveryContract d g m again)
      (Secured g m rec) h s := by
  rw [secureNonce]
  cases hl : resubmitLease m rec with
  | some lease =>
      dsimp only
      split
      · refine secured_obeys ⟨hk.mono fun r h => ?_, hlast, hscore⟩
        simpa only [AtRead, hl] using h
      · exact secured_obeys ⟨hk, hlast, hscore⟩
  | none =>
      refine Proc.obeys_perform (P := Knows g m rec (AtRead m rec)) hk ?_ ?_ ?_
      · exact fun s' _ hu hk => hk.undisturbed AtRead.lasting hu
      · exact fun s _ _ => ⟨.of_none hlast, trivial⟩
      · intro s ch reply s' _ hk _ hp _
        have hk' := hk.of_rows ((effect_of hp).rows rfl)
        cases reply with
        | error err => exact secured_obeys ⟨hk', rfl, hscore⟩
        | ok nonces =>
            refine Proc.obeys_act (P := Knows g m rec (AtRead m rec)) hk' ?_ ?_ ?_
            · exact fun s' _ hu hk => hk.undisturbed AtRead.lasting hu
            · rintro s _ ⟨r, hr, hkey, hdest, -⟩
              exact ⟨.of_none rfl, r, hr, hkey, hdest.symm⟩
            · intro s ch reply s' _ hk _ hp _
              rcases perform_reserve hp with ⟨w, r, -, -, hr, -, rfl, rfl⟩ | ⟨⟨err, rfl⟩, rfl⟩
              · obtain ⟨r₀, hr₀, hkey, hdest, -⟩ := hk
                obtain rfl := Option.some.inj (hr.symm.trans hr₀)
                have hlt := (List.getElem?_eq_some_iff.mp hr).1
                refine secured_obeys ⟨⟨_, List.getElem?_set_self hlt, hkey, hdest, fun _ => ?_⟩, rfl,
                  hscore⟩
                exact .inr ⟨rfl, ⟨rfl, rfl⟩, fun _ => rfl⟩
              · exact secured_obeys ⟨hk, rfl, hscore⟩

/-- **The attempt.** -/
theorem attempt_obeys (hk : Knows g m rec (AtRead m rec) s) (hlast : exhaustedLast h = none)
    (hscore : score m h = 0) : (attempt (d := d) m rec).Obeys (deliveryContract d g m again)
      (fun _ => (deliveryContract d g m again).final) h s := by
  refine Proc.obeys_perform (P := Knows g m rec (AtRead m rec)) hk ?_ ?_ ?_
  · exact fun s' _ hu hk => hk.undisturbed AtRead.lasting hu
  · exact fun s _ _ => ⟨.of_none hlast, trivial⟩
  · intro s ch reply s' _ hk _ hp hI
    have hk' := hk.of_rows ((effect_of hp).rows rfl)
    match reply with
    | .error err => exact routePreCommitFailure_obeys hk' rfl hscore
    | .ok .alreadyConsumed =>
        refine Proc.obeys_perform (P := Own m.key rec.id fun _ => True) hk'.own ?_ ?_ ?_
        · exact fun s' _ hu => Own.persists (fun _ _ _ h => h) hu.toPersists
        · exact fun s _ hown => ⟨.of_none rfl, hown⟩
        · rintro s ch reply s' _ ⟨r, hr, hkey, -⟩ _ hp _
          have hterm : Ended m rec.id s' :=
            ended_of_updated hr hkey rfl ⟨rfl, rfl⟩ (Option.some.inj hp)
          exact ack_obeys rec rfl fun _ _ => .inr hterm
    | .ok .ready =>
        have hsec : (secureNonce (d := d) m rec).Obeys (deliveryContract d g m again)
            (Secured g m rec) (⟨.prepare rec rec.retryCount, .ok .ready⟩ :: h) s' :=
          secureNonce_obeys hk' rfl hscore
        refine Proc.obeys_bind (hsec.mono ?_) hI
        intro res h' s' _ hs
        cases res with
        | error err => exact routePreCommitFailure_obeys hs.1 hs.2.1 hs.2.2
        | ok lease => exact broadcastLease_obeys hs.1 hs.2.1 hs.2.2

/-- What the guards at the start leave. -/
theorem atRead_of_guards (hfits : rec.toRow.Fits g s rec.id) (hskip : skip m rec.status = false)
    (hreplace : ¬ (m.replaceNonce.isSome = true ∧ rec.nonceUsed ≠ m.replaceNonce)) :
    rec.status.terminal = false ∧ AtRead m rec rec.toRow := by
  have hheld : rec.status = .submitting ∨ rec.status = .submitted →
      ∃ w n, rec.walletUsed = some w ∧ rec.nonceUsed = some n := by
    intro hst
    have hn := hfits.committed hst
    obtain ⟨n, hn'⟩ := Option.isSome_iff_exists.mp hn
    obtain ⟨w, hw⟩ := Option.isSome_iff_exists.mp (hfits.wallet hn)
    exact ⟨w, n, hw, hn'⟩
  constructor
  · cases hst : rec.status <;> simp [hst, skip, TxStatus.terminal] at hskip ⊢
  · cases hm : m.replaceNonce with
    | some n =>
        have hn : rec.nonceUsed = some n := by
          by_contra hne
          exact hreplace ⟨by simp [hm], by rw [hm]; exact hne⟩
        cases hw : rec.walletUsed with
        | some w =>
            simp only [AtRead, resubmitLease, resubmitNonce, hm, hw]
            exact ⟨⟨hw, hn⟩, fun h => by rw [hm] at h; cases h⟩
        | none =>
            have := hfits.wallet (by simp [hn])
            simp [hw] at this
    | none =>
        cases hst : rec.status with
        | submitting =>
            obtain ⟨w, n, hw, hn⟩ := hheld (.inl hst)
            simp only [AtRead, resubmitLease, resubmitNonce, hm, hst, if_true, hw, hn]
            exact ⟨⟨hw, hn⟩, fun _ => hst⟩
        | pending | failed =>
            simp only [AtRead, resubmitLease, resubmitNonce, hm, hst, reduceCtorEq, if_false]
            simp [Uncommitted, hst]
        | submitted | confirmed | deadLetter => simp [hst, skip, hm] at hskip

theorem processRecord_obeys (hr : s.transactions[rec.id]? = some rec.toRow) (hkey : rec.key = m.key)
    (hI : Inv d g s) (hlast : exhaustedLast h = none) (hscore : score m h = 0) :
    (processRecord (d := d) m rec).Obeys (deliveryContract d g m again)
      (fun _ => (deliveryContract d g m again).final) h s := by
  have hack : (run (d := d) (.ack m)).Obeys (deliveryContract d g m again)
      (fun _ => (deliveryContract d g m again).final) h s := by
    refine ack_obeys rec hlast fun _ _ => .inl ?_
    rw [hscore, RelayMessage.replaces]
    split <;> omega
  rw [processRecord]
  split
  · exact hack
  · rename_i hskip
    split
    · exact hack
    · rename_i hreplace
      obtain ⟨hnt, hread⟩ := atRead_of_guards (hI.fits _ _ hr) (Bool.eq_false_iff.mpr hskip) hreplace
      exact attempt_obeys ⟨rec.toRow, hr, hkey, rfl, fun _ => .inr ⟨hnt, hread⟩⟩ hlast hscore

/-- **A delivery obeys its contract.** -/
theorem processDelivery_obeys (hkey : HasKey s.transactions m.key) :
    (processDelivery (d := d) m).Obeys (deliveryContract d g m again)
      (fun _ => (deliveryContract d g m again).final) [] s := by
  refine Proc.obeys_perform (P := fun s => HasKey s.transactions m.key) hkey ?_ ?_ ?_
  · exact fun s' _ hu hk => hk.persists hu.toPersists
  · exact fun s _ _ => ⟨.of_none rfl, trivial⟩
  · rintro s ch reply s' hI ⟨i, r, hr, hk⟩ _ hp hI'
    obtain ⟨hfind, rfl⟩ := Prod.mk.inj (Option.some.inj hp)
    cases reply with
    | none => exact absurd hk (findBySourceEvent_eq_none hfind hr)
    | some existing =>
        obtain ⟨hrow, hkey'⟩ := findBySourceEvent_eq_some hfind
        exact processRecord_obeys hrow hkey' hI rfl rfl

end Ntt.Relayer
