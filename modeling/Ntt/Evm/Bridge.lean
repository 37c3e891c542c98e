import Mathlib.Data.Fintype.BigOperators
import Ntt.Evm.Accounts
import Ntt.Lib.Network

/-!
# Conservation of Value across Managers

A bridge is a family of managers of one token, one on each chain, locking or burning it, with any
decimals. The managers do not see each other: a message reaches another chain only as a vote of an
enabled transceiver, and a transceiver votes only for what a manager has sent. The owners set any
peers, with the true decimals of the tokens of the bridge. Everything else is as free as for one
manager: the order of the transactions of all chains, calls nested in a transaction, the
thresholds, limits and pauses, and what the users of the tokens do with them.

After any transactions, the value that was ever locked or burned by transfers is the value that
was ever unlocked or minted, for messages or as refunds, and the value that is on its way: sent
and not executed, or in a queue at either end.

## Main results

* `Bridge.value_conserved`: the equation.
* `Bridge.custody_covers`: what the locking managers hold covers the supply of the burned
  tokens, and all that is on its way.
* `Bridge.hub_pays`: an unlock of the one locking manager never lacks funds.
-/

namespace Ntt

open Reentrant

/-- Managers of one token, on chains of their own, with one hash function. -/
structure Bridge (ι : Type) where
  /-- The manager on a chain. -/
  manager : ι → NttManager
  /-- The decimals of its token. -/
  decimals : ι → UInt8
  keccak256 : Bytes → Bytes32
  chainId_inj : Function.Injective fun i => (manager i).chainId
  keccak256_eq : ∀ i, (manager i).keccak256 = keccak256
  bytes_lawful : ∀ i, (manager i).bytes.Lawful

/-- A message was handed to the transceivers. -/
def SentIn (log : List LogEntry) (m : NttManagerMessage) : Prop :=
  ∃ e ∈ log, ∃ n chain peer transceivers, e.act = .send n chain m peer transceivers

/-- A manager as deployed, beside a token that it has not touched. -/
structure Deployed (s : State) : Prop where
  storage : s.storage = .initial s.storage.owner s.storage.outboundLimit
  log : s.log = []
  taken : s.token.taken = 0
  given : s.token.given = 0
  consistent : s.token.Consistent

namespace Bridge

variable {ι : Type} (B : Bridge ι)

/-- What may be called on a chain, once the chains have come to these states: enabled transceivers
vote for messages that were sent from where they say, and the decimals of the peers are true. -/
def rules (s : ι → State) (i : ι) : NttManager.Rules where
  decimals d := d = B.decimals i
  calls st _ ctx
    | .attestationReceived chain _ m =>
        (st.registry.transceiverInfos ctx.sender).enabled = true →
          ∃ k, (B.manager k).chainId = chain ∧ SentIn (s k).log m
    | .setPeer chain _ decimals _ => ∀ k, (B.manager k).chainId = chain → decimals = B.decimals k
    | _ => True

/-- The managers and the users of their tokens, as a network. -/
def network : Network ι managerInterface State Error where
  contract i := (B.manager i).chain
  environment s i := (B.manager i).chainEnvironment (B.rules s i) (B.decimals i)

/-- The message of a sequence of chain `i` was executed, as a digest, on the chain `j` that it was
sent to. -/
def ExecutedAs (s : ι → State) (j : ι) (d : Bytes32) (i : ι) (n : UInt64) : Prop :=
  ∃ t since m, outStatus n (s i).log = .sent t since ∧
    (B.manager j).chainId = t.recipientChain ∧ (B.manager i).messageOf n t = .ok m ∧
    (B.manager j).digest (B.manager i).chainId m = .ok d ∧
    ((s j).storage.messageAttestations d).executed = true

/-- The message of a sequence was executed. -/
def Delivered (s : ι → State) (i : ι) (n : UInt64) : Prop := ∃ j d, B.ExecutedAs s j d i n

open Classical in
/-- The value that was sent from a chain and is not executed. -/
noncomputable def transitValue (s : ι → State) (i : ι) : ℚ :=
  ∑ n, if B.Delivered s i n then 0 else (outStatus n (s i).log).sentValue

/-- The value that is on its way: sent and not executed, or in a queue at either end. -/
noncomputable def pending [Fintype ι] (s : ι → State) : ℚ :=
  ∑ i, B.transitValue s i + ∑ i, outboundValue (s i).storage + ∑ i, inboundValue (s i).storage

/-- What was hashed on the chains, and what was sent. -/
def said (s : ι → State) : Set Bytes :=
  {b | (∃ i, b ∈ hashed (s i).log) ∨ ∃ i m encoded, SentIn (s i).log m ∧
    encodeNttManagerMessage m = .ok encoded ∧ b = digestBytes (B.manager i).chainId encoded}

/-- The hash of a chain does not collide where that of the bridge does not. -/
theorem injOn {bytes : Set Bytes} (i : ι) (h : Set.InjOn B.keccak256 bytes) :
    Set.InjOn (B.manager i).keccak256 bytes := B.keccak256_eq i ▸ h

end Bridge

namespace NttManager

variable {M : NttManager} {R R' : Rules} {owner : Address} {limit : RateLimitParams}

/-- A sequence whose message was sent has it in the log. -/
theorem History.sentIn {st : Storage} {log : List LogEntry}
    (h : M.History R (.initial owner limit) log st) {n : UInt64} {t : Transfer}
    {since : Option UInt64} (ht : outStatus n log = .sent t since) {m : NttManagerMessage}
    (hm : M.messageOf n t = .ok m) : SentIn log m := by
  induction h with
  | nil => cases ht
  | @cons log st ctx a hlog ha ih =>
      have older (hold : outStatus n log = .sent t since) : SentIn (⟨a, ctx, st⟩ :: log) m := by
        obtain ⟨e, he, hsent⟩ := ih hold
        exact ⟨e, List.mem_cons_of_mem _ he, hsent⟩
      cases a with
      | send n' chain m' peer transceivers =>
          by_cases hn : n' = n
          · subst hn
            obtain ⟨-, -, -, -, t', since', ht', -, -, hm', -⟩ := ha
            simp only [outStatus_cons, OutStatus.step, ht', if_true, OutStatus.sent.injEq] at ht
            rw [ht.1, hm] at hm'
            cases hm'
            exact ⟨_, List.mem_cons_self, n', chain, peer, transceivers, rfl⟩
          · exact older (by simpa [OutStatus.step, hn] using ht)
      | useMessageSequence n' _ | enqueueOutbound n' _ | releaseOutbound n' | withdrawOutbound n'
        | outboundTransferCancelled n' _ _ _ =>
          by_cases hn : n' = n <;> cases hs : outStatus n log <;>
            simp_all [OutStatus.step]
      | _ => exact older ht

/-- More rules permit more. -/
theorem Permitted.mono (hd : ∀ d, R.decimals d → R'.decimals d)
    (hc : ∀ st log ctx e, R.calls st log ctx e → R'.calls st log ctx e) {ctx : Context}
    {st : Storage} {log : List LogEntry} {a : Action} (h : M.Permitted R ctx st log a) :
    M.Permitted R' ctx st log a := by
  cases a with
  | quorum op q => exact h.imp_left (hc _ _ _ _)
  | setPeer chain peer => exact h.imp_left (.imp fun _ => hc _ _ _ _)
  | attest => exact h.imp_left (hc _ _ _ _)
  | execute => exact h.imp_right (.imp_right (.imp_right (.imp_right (.imp_left (hc _ _ _ _)))))
  | enqueueInbound =>
      obtain ⟨m, d, hdec, h⟩ := h
      exact ⟨m, d, hd d hdec, h⟩
  | transferRedeemed =>
      obtain ⟨d, hdec, huntrim, h⟩ := h
      exact ⟨d, hd d hdec, huntrim, h.imp_right fun ⟨m, d', hdec', h⟩ => ⟨m, d', hd d' hdec', h⟩⟩
  | useMessageSequence =>
      obtain ⟨he, hn, hlt, hs, ⟨st', log', e, hcall, hasks⟩, d, hdec, ht⟩ := h
      exact ⟨he, hn, hlt, hs, ⟨st', log', e, hc _ _ _ _ hcall, hasks⟩, d, hd d hdec, ht⟩
  | outboundTransferCancelled =>
      obtain ⟨he, hr, t, since, d, hdec, h⟩ := h
      exact ⟨he, hr, t, since, d, hd d hdec, h⟩
  | _ => exact h

theorem History.mono (hd : ∀ d, R.decimals d → R'.decimals d)
    (hc : ∀ st log ctx e, R.calls st log ctx e → R'.calls st log ctx e) {init st : Storage}
    {log : List LogEntry} (h : M.History R init log st) : M.History R' init log st := by
  induction h with
  | nil => exact .nil
  | cons _ ha ih => exact .cons ih (ha.mono hd hc)

end NttManager

namespace Bridge

open NttManager

variable {ι : Type} {B : Bridge ι} {init s : ι → State}

variable (B) in
/-- The accounts of a chain, once the chains have come to these states. -/
def accounts (init s : ι → State) (i : ι) : Rely managerInterface State :=
  (B.manager i).accounts (B.rules s i)
    (.initial (init i).storage.owner (init i).storage.outboundLimit) (B.decimals i)
    (init i).token.supply

/-- What is sent on one chain keeps the accounts of the others. -/
theorem keeps [DecidableEq ι] : B.network.Keeps (B.accounts init) fun _ u => u.storage.entered = false where
  closed _ _ := accounts_closed
  sound _ _ := chain_sound rfl
  idle _ _ _ hrel hidle := hrel.2.1.trans hidle
  mono s i t hrel j u hinv := by
    have hgrow : ∀ st log ctx e, (B.rules s j).calls st log ctx e →
        (B.rules (Function.update s i t) j).calls st log ctx e := by
      intro st log ctx e hc
      cases e with
      | attestationReceived chain source m =>
          intro henabled
          obtain ⟨k, hk, e, he, hsent⟩ := hc henabled
          refine ⟨k, hk, e, ?_, hsent⟩
          by_cases hki : k = i
          · subst hki
            rw [Function.update_self]
            exact hrel.1.1.subset he
          · rwa [Function.update_of_ne hki]
      | _ => exact hc
    have hdecimals : ∀ d, (B.rules s j).decimals d →
        (B.rules (Function.update s i t) j).decimals d := fun _ hd => hd
    exact ⟨History.mono hdecimals hgrow hinv.1, hinv.2⟩

/-- What holds of a chain between transactions: its log is a history, and its books are in order
with nothing begun. -/
structure Settled (B : Bridge ι) (init s : ι → State) (i : ι) : Prop where
  history : (B.manager i).History (B.rules s i)
    (.initial (init i).storage.owner (init i).storage.outboundLimit) (s i).log (s i).storage
  books : (B.manager i).Books (init i).token.supply ∅ ∅ ∅ (s i)

/-- A manager as deployed is settled. -/
theorem deployed_books {M : NttManager} {u : State} (h : Deployed u) :
    M.Books u.token.supply ∅ ∅ ∅ u where
  taken := by rw [h.taken, h.log]; rfl
  given := by rw [h.given, h.log]; rfl
  consistent := h.consistent
  backed := by
    unfold Backed
    cases M.mode <;> simp [h.taken]
  inbound d hd := by rw [h.log] at hd; cases hd
  inFlight n hn := by rw [h.log] at hn; cases hn
  isWithdrawn n hn := by rw [h.log] at hn; cases hn

/-- Every chain is settled after any transactions. -/
theorem settled_of_reachable [DecidableEq ι] (hinit : ∀ i, Deployed (init i))
    (h : B.network.Reachable init s) (i : ι) : B.Settled init s i := by
  have hstart (i : ι) : (B.accounts init init i).inv (init i) := by
    refine ⟨?_, (deployed_books (hinit i)).mono subset_rfl (Set.empty_subset _) subset_rfl⟩
    have hnil {M : NttManager} {R : Rules} {x st : Storage} (hst : st = x) :
        M.History R x [] st := hst ▸ .nil
    change (B.manager i).History _ _ (init i).log (init i).storage
    rw [(hinit i).log]
    exact hnil (hinit i).storage
  have hidle (i : ι) : (init i).storage.entered = false := by rw [(hinit i).storage]; rfl
  obtain ⟨⟨hhistory, hbooks⟩, hentered⟩ := h.inv keeps hstart hidle i
  refine ⟨hhistory, hbooks.mono subset_rfl (fun n hn => ?_) subset_rfl⟩
  rw [Set.mem_ofPred_eq, hentered] at hn
  cases hn

namespace Settled

variable {i j : ι} (h : B.Settled init s i)
include h

/-- A message sent from a chain is that of a sequence. -/
theorem sent {m : NttManagerMessage} (hm : SentIn (s i).log m) :
    ∃ n t since, outStatus n (s i).log = .sent t since ∧
      (B.manager i).messageOf n t = .ok m := by
  obtain ⟨e, he, n, chain, peer, transceivers, hact⟩ := hm
  obtain ⟨t, since, ht, hmessage, -⟩ := h.history.sent_of_send he hact
  exact ⟨n, t, since, ht, hmessage⟩

/-- What a transfer records can be untrimmed where it comes from and where it goes. -/
theorem decimals_le {n : UInt64} {t : Transfer}
    (ht : (outStatus n (s i).log).transfer = some t) :
    t.amount.getDecimals.toNat ≤ (B.decimals i).toNat ∧
      ∀ k, (B.manager k).chainId = t.recipientChain →
        t.amount.getDecimals.toNat ≤ min 8 (B.decimals k).toNat := by
  obtain ⟨older, st, hbefore, htrims⟩ := h.history.trims (fun _ hd => hd) ht
  refine ⟨htrims.value.2, fun k hk => ?_⟩
  have hpeer := hbefore.peer_decimals
    (P := fun chain d => ∀ k, (B.manager k).chainId = chain → d = B.decimals k)
    (fun _ _ _ _ _ _ _ hcall => hcall) htrims.1 k hk
  rw [(trim_eq_ok.mp htrims.2.1).1, toNat_wireDecimals, hpeer]
  omega

/-- A message that was executed was sent from where it says, if the hash does not collide. -/
theorem executed_sent (hhash : Set.InjOn B.keccak256 (B.said s)) {e : LogEntry}
    (he : e ∈ (s i).log) {chain : UInt16} {source d : Bytes32} {m : NttManagerMessage}
    (hact : e.act = .execute chain source m d) :
    ∃ k, (B.manager k).chainId = chain ∧ SentIn (s k).log m := by
  obtain ⟨newer, older, hlog⟩ := List.append_of_mem he
  have hhistory := h.history
  rw [hlog] at hhistory
  obtain ⟨hbefore, ha⟩ := hhistory.before
  rw [hact] at ha
  obtain ⟨hpos, voters, -, hlen, hvoters⟩ := hbefore.voters_of_approved ha.2.1
  obtain ⟨v, hv⟩ := List.exists_mem_of_length_pos (hpos.trans hlen)
  obtain ⟨-, vote, hvote, chain', m', index, -, hvoteact, hdigest⟩ := hvoters v hv
  obtain ⟨_, _, rfl⟩ := List.append_of_mem hvote
  have hpermitted := hbefore.before.2
  rw [hvoteact] at hpermitted
  obtain ⟨k, hk, hsent⟩ := hpermitted.1 hpermitted.2.1
  -- the vote was for the same message
  have hsame := digest_inj (B.injOn i hhash) ha.1 hdigest
    (fun b hb => .inl ⟨i, e, he, chain, m, b, by rw [hact]; rfl, hb, rfl⟩)
    (fun b hb => .inl ⟨i, vote, by rw [hlog]; simp, chain', m', b, by rw [hvoteact]; rfl, hb, rfl⟩)
  exact ⟨k, hk.trans hsame.1.symm, hsame.2 ▸ hsent⟩

end Settled

/-- What was executed on a chain is what was sent to it. -/
theorem executedAs_of_executed (h : ∀ i, B.Settled init s i)
    (hhash : Set.InjOn B.keccak256 (B.said s)) {j : ι} {d : Bytes32} {m : NttManagerMessage}
    (hm : executedMessage d (s j).log = some m) : ∃ i n t since,
      outStatus n (s i).log = .sent t since ∧ (B.manager i).messageOf n t = .ok m ∧
      B.ExecutedAs s j d i n := by
  obtain ⟨e, he, chain, source, hact⟩ := execute_of_executedMessage hm
  obtain ⟨i, hi, hsent⟩ := (h j).executed_sent hhash he hact
  obtain ⟨n, t, since, ht, hmessage⟩ := (h i).sent hsent
  -- something was done for the digest, so its message is for this chain
  have hne : inStatus d (s j).log ≠ .none := fun hnone => by
    rw [executedMessage_of_none hnone] at hm
    cases hm
  obtain ⟨m', t', hm', hparse, hchain⟩ := (h j).history.executed_here hne
    (Bool.not_eq_true _ ▸ fun hopen => (h j).books.inbound d hopen)
  obtain rfl : m = m' := Option.some.inj (hm.symm.trans hm')
  rw [parse_encodeTransfer (B.bytes_lawful j) hmessage] at hparse
  cases hparse
  have hdigest : (B.manager j).digest chain m = .ok d := by
    obtain ⟨newer, older, hlog⟩ := List.append_of_mem he
    have hhistory := (h j).history
    rw [hlog] at hhistory
    have ha := hhistory.before.2
    rw [hact] at ha
    exact ha.1
  exact ⟨i, n, t, since, ht, hmessage, t, since, m, ht, hchain.symm, hmessage, hi ▸ hdigest,
    ((h j).history.executed_iff d).mpr hne⟩

/-- Digests with one hash are of one sequence. -/
theorem executedAs_inj (h : ∀ i, B.Settled init s i) (hhash : Set.InjOn B.keccak256 (B.said s))
    {j i i' : ι} {d : Bytes32} {n n' : UInt64} (hp : B.ExecutedAs s j d i n)
    (hp' : B.ExecutedAs s j d i' n') : i = i' ∧ n = n' := by
  obtain ⟨t, since, m, ht, -, hm, hd, -⟩ := hp
  obtain ⟨t', since', m', ht', -, hm', hd', -⟩ := hp'
  obtain ⟨hchain, rfl⟩ := digest_inj (B.injOn j hhash) hd hd'
    (fun b hb => .inr ⟨i, m, b, (h i).history.sentIn ht hm, hb, rfl⟩)
    (fun b hb => .inr ⟨i', m', b, (h i').history.sentIn ht' hm', hb, rfl⟩)
  refine ⟨B.chainId_inj hchain, ?_⟩
  -- the sequence is the identifier of the message
  simp only [messageOf, encodeTransfer, Except.bind_eq_ok, Except.pure_eq_ok] at hm hm'
  obtain ⟨_, -, hm⟩ := hm
  obtain ⟨_, -, hm'⟩ := hm'
  have hid : BitVec.ofNat 256 n.toNat = BitVec.ofNat 256 n'.toNat :=
    congrArg NttManagerMessage.id (hm.trans hm'.symm)
  have hnat := congrArg BitVec.toNat hid
  have := n.toNat_lt
  have := n'.toNat_lt
  rw [BitVec.toNat_ofNat, BitVec.toNat_ofNat, Nat.mod_eq_of_lt (by omega),
    Nat.mod_eq_of_lt (by omega)] at hnat
  exact UInt64.toNat_inj.mp hnat

/-- A digest and its sequence have one value. -/
theorem value_executedAs (h : ∀ i, B.Settled init s i) (hhash : Set.InjOn B.keccak256 (B.said s))
    {j i : ι} {d : Bytes32} {n : UInt64} (hp : B.ExecutedAs s j d i n) :
    (B.manager j).executedValue (s j).log d = (outStatus n (s i).log).sentValue := by
  obtain ⟨t, since, m, ht, hchain, hm, hd, hexec⟩ := hp
  have hne := ((h j).history.executed_iff d).mp hexec
  obtain ⟨m', -, hm', -⟩ := (h j).history.executed_here hne
    (Bool.not_eq_true _ ▸ fun hopen => (h j).books.inbound d hopen)
  obtain ⟨i', n', t', since', ht', hmessage', hp'⟩ := executedAs_of_executed h hhash hm'
  obtain ⟨rfl, rfl⟩ := executedAs_inj h hhash ⟨t, since, m, ht, hchain, hm, hd, hexec⟩ hp'
  rw [ht] at ht'
  cases ht'
  obtain rfl : m = m' := Except.ok.inj (hm.symm.trans hmessage')
  rw [executedValue, hm', Option.elim_some, messageValue,
    parse_encodeTransfer (B.bytes_lawful j) hm, ht]
  rfl

open Classical in
/-- The value executed on all chains is the value delivered from all chains. -/
theorem sum_executedValue_eq [Fintype ι] (h : ∀ i, B.Settled init s i)
    (hhash : Set.InjOn B.keccak256 (B.said s)) :
    ∑ j, ∑ d, (B.manager j).executedValue (s j).log d =
      ∑ i, ∑ n, if B.Delivered s i n then (outStatus n (s i).log).sentValue else 0 := by
  rw [← Fintype.sum_prod_type', ← Fintype.sum_prod_type']
  refine Tally.sum_eq_of_pairs (fun p q => B.ExecutedAs s p.1 p.2 q.1 q.2) ?_ ?_ ?_ ?_ ?_
  · rintro ⟨j, d⟩ hvalue
    have hsome : ∃ m, executedMessage d (s j).log = some m := by
      cases hm : executedMessage d (s j).log with
      | none => exact absurd (by simp [executedValue, hm]) hvalue
      | some m => exact ⟨m, rfl⟩
    obtain ⟨m, hm⟩ := hsome
    obtain ⟨i, n, -, -, -, -, hp⟩ := executedAs_of_executed h hhash hm
    exact ⟨(i, n), hp⟩
  · rintro ⟨i, n⟩ hvalue
    have hdelivered : B.Delivered s i n := by
      by_contra hnot
      exact hvalue (if_neg hnot)
    obtain ⟨j, d, hp⟩ := hdelivered
    exact ⟨(j, d), hp⟩
  · rintro ⟨j, d⟩ ⟨i, n⟩ hp
    rw [value_executedAs h hhash hp, if_pos ⟨j, d, hp⟩]
  · rintro ⟨j, d⟩ ⟨i, n⟩ ⟨i', n'⟩ hp hp'
    obtain ⟨rfl, rfl⟩ := executedAs_inj h hhash hp hp'
    rfl
  · rintro ⟨j, d⟩ ⟨j', d'⟩ ⟨i, n⟩ ⟨t, since, m, ht, hchain, hm, hd, -⟩
      ⟨t', since', m', ht', hchain', hm', hd', -⟩
    rw [ht] at ht'
    cases ht'
    obtain rfl := B.chainId_inj (hchain.trans hchain'.symm)
    obtain rfl : m = m' := Except.ok.inj (hm.symm.trans hm')
    obtain rfl : d = d' := Except.ok.inj (hd.symm.trans hd')
    rfl

/-- The value sent from a chain is in transit, or was delivered. -/
theorem sum_sentValue (i : ι) : ∑ n, (outStatus n (s i).log).sentValue = B.transitValue s i +
    ∑ n, open Classical in if B.Delivered s i n then (outStatus n (s i).log).sentValue else 0 := by
  classical
  rw [transitValue, ← Finset.sum_add_distrib]
  refine Finset.sum_congr rfl fun n _ => ?_
  by_cases hd : B.Delivered s i n <;> simp [hd]

/-- What was executed on a settled chain fits. -/
theorem Settled.allFit (h : ∀ i, B.Settled init s i) (hhash : Set.InjOn B.keccak256 (B.said s))
    (i : ι) : (B.manager i).AllFit (B.decimals i) (s i).log := by
  intro e he chain source m d hact t hparse hchain
  obtain ⟨k, -, hsent⟩ := (h i).executed_sent hhash he hact
  obtain ⟨n, t', since, ht, hmessage⟩ := (h k).sent hsent
  rw [parse_encodeTransfer (B.bytes_lawful i) hmessage] at hparse
  cases hparse
  exact ((h k).decimals_le (n := n) (t := t') (by rw [ht]; rfl)).2 i hchain.symm

/-- The equation, for chains that are settled. -/
theorem Settled.conserved [Fintype ι] (h : ∀ i, B.Settled init s i)
    (hhash : Set.InjOn B.keccak256 (B.said s)) :
    ∑ i, Decimal.value (s i).token.taken (B.decimals i).toNat =
      ∑ i, Decimal.value (s i).token.given (B.decimals i).toNat + B.pending s := by
  have haccounts (i : ι) := idle_accounts (R := B.rules s i) (fun _ hd => hd)
    (h i).history (h i).books (Settled.allFit h hhash i)
  have hsum := Finset.sum_congr rfl fun i (_ : i ∈ Finset.univ) => haccounts i
  simp only [Finset.sum_add_distrib] at hsum
  rw [sum_executedValue_eq h hhash] at hsum
  rw [Finset.sum_congr rfl fun i (_ : i ∈ Finset.univ) => sum_sentValue (B := B) (s := s) i,
    Finset.sum_add_distrib] at hsum
  rw [pending]
  linarith

theorem value_nonneg (a : TrimmedAmount) : 0 ≤ a.value := Decimal.value_nonneg _ _

theorem sentValue_nonneg (o : OutStatus) : 0 ≤ o.sentValue := by
  cases o <;> simp [OutStatus.sentValue, value_nonneg]

theorem transitValue_nonneg (i : ι) : 0 ≤ B.transitValue s i := by
  classical
  refine Finset.sum_nonneg fun n _ => ?_
  by_cases hd : B.Delivered s i n <;> simp [hd, sentValue_nonneg]

theorem outboundValue_nonneg (st : Storage) : 0 ≤ outboundValue st :=
  Finset.sum_nonneg fun _ _ => value_nonneg _

theorem inboundValue_nonneg (st : Storage) : 0 ≤ inboundValue st :=
  Finset.sum_nonneg fun _ _ => value_nonneg _

/-- What is on its way at one place is part of all that is on its way. -/
theorem le_pending [Fintype ι] (i : ι) : B.transitValue s i ≤ B.pending s ∧
    outboundValue (s i).storage ≤ B.pending s ∧ inboundValue (s i).storage ≤ B.pending s := by
  have htransit := Finset.sum_nonneg fun i (_ : i ∈ Finset.univ) =>
    transitValue_nonneg (B := B) (s := s) i
  have hout := Finset.sum_nonneg fun i (_ : i ∈ Finset.univ) => outboundValue_nonneg (s i).storage
  have hin := Finset.sum_nonneg fun i (_ : i ∈ Finset.univ) => inboundValue_nonneg (s i).storage
  have h₁ := Finset.single_le_sum (f := B.transitValue s) (fun i _ => transitValue_nonneg i)
    (Finset.mem_univ i)
  have h₂ := Finset.single_le_sum (f := fun i => outboundValue (s i).storage)
    (fun i _ => outboundValue_nonneg _) (Finset.mem_univ i)
  have h₃ := Finset.single_le_sum (f := fun i => inboundValue (s i).storage)
    (fun i _ => inboundValue_nonneg _) (Finset.mem_univ i)
  rw [pending]
  refine ⟨?_, ?_, ?_⟩ <;> linarith

theorem amount_le_inboundValue (st : Storage) (d : Bytes32) :
    (st.inboundQueue d).amount.value ≤ inboundValue st :=
  Finset.single_le_sum (f := fun d => (st.inboundQueue d).amount.value)
    (fun _ _ => value_nonneg _) (Finset.mem_univ d)

theorem amount_le_outboundValue (st : Storage) (n : UInt64) :
    (st.outboundQueue n).amount.value ≤ outboundValue st :=
  Finset.single_le_sum (f := fun n => (st.outboundQueue n).amount.value)
    (fun _ _ => value_nonneg _) (Finset.mem_univ n)

theorem sentValue_le_transitValue {i : ι} {n : UInt64} (hnot : ¬ B.Delivered s i n) :
    (outStatus n (s i).log).sentValue ≤ B.transitValue s i := by
  classical
  have := Finset.single_le_sum
    (f := fun k => if B.Delivered s i k then 0 else (outStatus k (s i).log).sentValue)
    (fun k _ => by by_cases hd : B.Delivered s i k <;> simp [hd, sentValue_nonneg])
    (Finset.mem_univ n)
  rwa [if_neg hnot] at this

/-- What the locking managers hold covers the rest, for chains that are settled. -/
theorem Settled.custody [Fintype ι] (h : ∀ i, B.Settled init s i)
    (hissued : ∀ i, (B.manager i).mode = .burning → (init i).token.supply = 0)
    (hhash : Set.InjOn B.keccak256 (B.said s)) :
    ∑ i with (B.manager i).mode = .burning,
        Decimal.value (s i).token.supply (B.decimals i).toNat + B.pending s ≤
      ∑ i with (B.manager i).mode = .locking,
        Decimal.value ((s i).token.balance (B.manager i).this) (B.decimals i).toNat := by
  have hconserved := Settled.conserved h hhash
  let covers (i : ι) : ℚ :=
    (if (B.manager i).mode = .locking then
      Decimal.value ((s i).token.balance (B.manager i).this) (B.decimals i).toNat else 0) -
    if (B.manager i).mode = .burning then
      Decimal.value (s i).token.supply (B.decimals i).toNat else 0
  have hcovers (i : ι) : Decimal.value (s i).token.taken (B.decimals i).toNat ≤
      Decimal.value (s i).token.given (B.decimals i).toNat + covers i := by
    have hb := (h i).books.backed
    unfold Backed at hb
    cases hmode : (B.manager i).mode with
    | locking =>
        rw [hmode] at hb
        have := Decimal.value_le_iff (d := (B.decimals i).toNat).mpr hb
        rw [Decimal.value_add] at this
        simp only [covers, hmode, if_true, reduceCtorEq, if_false, sub_zero]
        linarith
    | burning =>
        simp only [hmode, hissued i hmode, Nat.zero_add] at hb
        have := Decimal.value_le_iff (d := (B.decimals i).toNat).mpr hb
        rw [Decimal.value_add] at this
        simp only [covers, hmode, if_true, reduceCtorEq, if_false, zero_sub]
        linarith
  have hsum := Finset.sum_le_sum fun i (_ : i ∈ Finset.univ) => hcovers i
  rw [Finset.sum_add_distrib, hconserved] at hsum
  simp only [covers, Finset.sum_sub_distrib] at hsum
  rw [Finset.sum_filter, Finset.sum_filter]
  linarith

/-- The message that an action hands to the transceivers. -/
def sentMessage : Action → Option NttManagerMessage
  | .send _ _ m _ _ => some m
  | _ => none

/-- What a log says of messages is said of one of them, that is sent from one chain. -/
def saysOnly (chain : UInt16) (p : UInt16 × NttManagerMessage) (log : List LogEntry) : Bool :=
  log.all fun e => (e.act.about == none || e.act.about == some p) &&
    (sentMessage e.act == none || (sentMessage e.act).map (Prod.mk chain) == some p)

/-- No hash collides on a single message. -/
theorem injOn_said {p : UInt16 × NttManagerMessage}
    (h : ∀ i, saysOnly (B.manager i).chainId p (s i).log = true) :
    Set.InjOn B.keccak256 (B.said s) := by
  have hone : ∀ b ∈ B.said s, ∃ encoded, encodeNttManagerMessage p.2 = .ok encoded ∧
      b = digestBytes p.1 encoded := by
    simp only [saysOnly, List.all_eq_true, Bool.and_eq_true, Bool.or_eq_true, beq_iff_eq] at h
    rintro b (⟨i, e, he, chain, m, encoded, hact, henc, rfl⟩ | ⟨i, m, encoded, hsent, henc, rfl⟩)
    · have habout := (h i e he).1
      simp only [hact, reduceCtorEq, Option.some.injEq, false_or] at habout
      subst habout
      exact ⟨encoded, henc, rfl⟩
    · obtain ⟨e, he, n, chain, peer, transceivers, hact⟩ := hsent
      have hsent := (h i e he).2
      simp only [hact, sentMessage, reduceCtorEq, Option.map_some, Option.some.injEq,
        false_or] at hsent
      subst hsent
      exact ⟨encoded, henc, rfl⟩
  intro b hb b' hb' _
  obtain ⟨encoded, henc, rfl⟩ := hone b hb
  obtain ⟨encoded', henc', rfl⟩ := hone b' hb'
  rw [Except.ok.inj (henc.symm.trans henc')]

/-- A manager on chain 4 that burns a token of 6 decimals. -/
def sampleSpoke : NttManager :=
  { sample fun _ => sampleDigest with this := 0x1001, mode := .burning, chainId := 4 }

/-- A bridge of two chains: tokens of 18 decimals are locked on chain 2. -/
def sampleBridge : Bridge Bool where
  manager spoke := if spoke then sampleSpoke else sample fun _ => sampleDigest
  decimals spoke := if spoke then 6 else 18
  keccak256 _ := sampleDigest
  chainId_inj := by decide
  keccak256_eq spoke := by cases spoke <;> rfl
  bytes_lawful spoke := by cases spoke <;> exact BytesParsing.reference_lawful

/-- The managers as deployed; the account `0x5000` has ten tokens on chain 2. -/
def sampleInit (spoke : Bool) : State :=
  if spoke then { sampleState with storage := .initial 0xA ⟨.max 6, .max 6, 0⟩ }
  else { sampleState with token := Ledger.empty.mint 0x5000 (10 ^ 19) }

/-- The message of the first transfer, of five tokens to the account `0x4000` on chain 4. -/
def sampleCrossing : NttManagerMessage where
  id := 0
  sender := padAddress 0x5000
  payload := packBytes4 NTT_PREFIX ++ packUint8 6 ++ packUint64 5000000 ++
    packBytes32 (padAddress 0x2000) ++ packBytes32 (padAddress 0x4000) ++ packUint16 4

/-- What happens on a chain: the owner sets things up; on chain 2 the tokens are sent, on chain 4
the transceiver votes for their message. -/
def sampleTransaction (spoke : Bool) : List Entry :=
  if spoke then
    [.call (sampleContext 0xA) (.setTransceiver 0x72),
      .call (sampleContext 0xA) (.setPeer 2 (padAddress 0x1000) 18 (10 ^ 9)),
      .call (sampleContext 0x72) (.attestationReceived 2 (padAddress 0x1000) sampleCrossing)]
  else
    [.call (sampleContext 0xA) (.setTransceiver 0x71),
      .call (sampleContext 0xA) (.setPeer 4 (padAddress 0x1001) 6 (10 ^ 18)),
      .call (sampleContext 0xA) (.setOutboundLimit (10 ^ 20)),
      .call (sampleContext 0x5000) (.transfer (5 * 10 ^ 18) 4 (padAddress 0x4000)
        (padAddress 0x5000) false [0])]

theorem deployed_sampleInit (spoke : Bool) : Deployed (sampleInit spoke) := by
  have hempty : Ledger.empty.Consistent := by simp [Ledger.Consistent, Ledger.empty]
  cases spoke with
  | false => exact ⟨rfl, rfl, rfl, rfl, hempty.mint⟩
  | true => exact ⟨rfl, rfl, rfl, rfl, hempty⟩

/-- The rules allow what happens on the first chain, and on the second one once the message is
sent. -/
theorem sampleTransaction_admitted {s : Bool → State} (spoke : Bool)
    (hsent : spoke = true → SentIn (s false).log sampleCrossing) (u : State) (e : Entry)
    (he : e ∈ sampleTransaction spoke) : (sampleBridge.network.environment s spoke).admits u e := by
  have hspoke : ∀ k, (sampleBridge.manager k).chainId = 4 → 6 = sampleBridge.decimals k := by
    decide
  have hhub : ∀ k, (sampleBridge.manager k).chainId = 2 → 18 = sampleBridge.decimals k := by
    decide
  cases spoke with
  | false =>
      simp only [sampleTransaction, Bool.false_eq_true, if_false, List.mem_cons, List.not_mem_nil,
        or_false] at he
      rcases he with rfl | rfl | rfl | rfl
      · exact ⟨trivial, by decide⟩
      · exact ⟨hspoke, by decide⟩
      · exact ⟨trivial, by decide⟩
      · exact ⟨trivial, by decide⟩
  | true =>
      simp only [sampleTransaction, if_true, List.mem_cons, List.not_mem_nil, or_false] at he
      rcases he with rfl | rfl | rfl
      · exact ⟨trivial, by decide⟩
      · exact ⟨hhub, by decide⟩
      · exact ⟨fun _ => ⟨false, rfl, hsent rfl⟩, by decide⟩

/-- The five tokens of the first chain are locked, and minted on the second one. -/
theorem sample_crossing : ∃ s, sampleBridge.network.Reachable sampleInit s ∧
    Set.InjOn sampleBridge.keccak256 (sampleBridge.said s) ∧
    (s false).token.taken = 5 * 10 ^ 18 ∧ (s true).token.given = 5 * 10 ^ 6 ∧
    (s true).token.supply = 5 * 10 ^ 6 := by
  obtain ⟨hub, hhub, hp⟩ := exists_of_any (x := (sampleBridge.manager false).chain.drive
    ((sampleBridge.manager false).respondToken 18) (sampleTransaction false) (sampleInit false) ())
    (p := fun u => u.token.taken == 5 * 10 ^ 18 && saysOnly 2 (2, sampleCrossing) u.log &&
      u.log.any fun e => sentMessage e.act == some sampleCrossing) (by decide +kernel)
  obtain ⟨spoke, hspoke, hq⟩ := exists_of_any (x := (sampleBridge.manager true).chain.drive
    ((sampleBridge.manager true).respondToken 6) (sampleTransaction true) (sampleInit true) ())
    (p := fun u => u.token.given == 5 * 10 ^ 6 && u.token.supply == 5 * 10 ^ 6 &&
      saysOnly 4 (2, sampleCrossing) u.log) (by decide +kernel)
  simp only [Bool.and_eq_true, beq_iff_eq] at hp hq
  obtain ⟨⟨htaken, hsays⟩, hany⟩ := hp
  obtain ⟨⟨hgiven, hsupply⟩, hsays'⟩ := hq
  have hsent : SentIn hub.log sampleCrossing := by
    obtain ⟨e, he, hact⟩ := List.any_eq_true.mp hany
    rw [beq_iff_eq] at hact
    refine ⟨e, he, ?_⟩
    cases ha : e.act with
    | send n chain m peer transceivers =>
        rw [ha, sentMessage, Option.some.injEq] at hact
        exact ⟨n, chain, peer, transceivers, by rw [hact]⟩
    | _ => simp [ha, sentMessage] at hact
  have hfirst : sampleBridge.network.Reachable sampleInit
      (Function.update sampleInit false hub) :=
    Network.Reachable.transaction .refl false (Reachable.drive (answers_respondToken _ 18)
      (sampleTransaction_admitted false fun h => nomatch h) .refl hhub)
  have hsecond := hfirst.transaction true (t := spoke)
    (Reachable.drive (answers_respondToken _ 6)
      (sampleTransaction_admitted true fun _ => by simpa using hsent) .refl hspoke)
  refine ⟨_, hsecond, injOn_said (p := (2, sampleCrossing)) fun i => ?_, by simpa using htaken,
    by simpa using hgiven, by simpa using hsupply⟩
  cases i with
  | false => exact hsays
  | true => exact hsays'

end Bridge

end Ntt
