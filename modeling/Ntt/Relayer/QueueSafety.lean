import Ntt.Relayer.QueueContracts

/-!
# Messages in the Redis Queue

A message that is published is kept in its stream or its delay set until it is acked or
dead-lettered, with one exception. The pump adds a member of the delay set to the stream and removes
it from the set afterwards; a consumer that gets the added entry and nacks it in between puts the
same member into the set, and the pump then removes it.

A process that has put a message elsewhere *takes* the entry that it came from: it deletes it as its
last command. The invariant is that a message is in the delay set or has an entry that nobody takes,
and that it has such an entry while the pump moves it.
-/

namespace Ntt.Relayer.RedisStreams

open Interleaving

/-! ### What is kept -/

section

variable {o : Options}

/-- The process is about to delete an entry of a message that it has put elsewhere. -/
def takes (t : Thread (queue o)) (p : ChainId) (id : ℕ) : Prop :=
  t.live = true ∧ secured t.past = true ∧
    ∃ d ∈ t.task.delivery, d.partition = p ∧ d.receiptHandle = id

/-- The process has added a member of the delay set to the stream and is about to remove it. -/
def moves (t : Thread (queue o)) (m : RelayMessage) : Prop :=
  t.live = true ∧ moved t.past = some m

/-- The delay set of a message has it. -/
def Delayed (s : Redis) (m : RelayMessage) : Prop := ∃ x ∈ s.retry m.chainId, x.1 = m

/-- The stream of a message has an entry of it. -/
def Streamed (s : Redis) (m : RelayMessage) : Prop :=
  ∃ e ∈ (s.streams m.chainId).entries, e.data = m

instance (t : Thread (queue o)) (p : ChainId) (id : ℕ) : Decidable (takes t p id) :=
  inferInstanceAs (Decidable (_ ∧ _ ∧ _))

instance (t : Thread (queue o)) (m : RelayMessage) : Decidable (moves t m) :=
  inferInstanceAs (Decidable (_ ∧ _))

instance (s : Redis) (m : RelayMessage) : Decidable (Delayed s m) :=
  inferInstanceAs (Decidable (∃ x ∈ s.retry m.chainId, x.1 = m))

instance (s : Redis) (m : RelayMessage) : Decidable (Streamed s m) :=
  inferInstanceAs (Decidable (∃ e ∈ (s.streams m.chainId).entries, e.data = m))

/-- It has one that no process takes. -/
def Lasting (c : Config (queue o)) (m : RelayMessage) : Prop :=
  ∃ e ∈ (c.state.streams m.chainId).entries, e.data = m ∧
    ∀ t ∈ c.threads, ¬ takes t m.chainId e.id

/-- The pump moves the message. -/
def Moving (c : Config (queue o)) (m : RelayMessage) : Prop := ∃ t ∈ c.threads, moves t m

/-- The stream has another entry of the message of a delivery, which no process takes. -/
def Spare (c : Config (queue o)) (d : Delivery) : Prop :=
  ∃ e ∈ (c.state.streams d.partition).entries, e.data = d.message ∧ e.id ≠ d.receiptHandle ∧
    ∀ t ∈ c.threads, ¬ takes t d.partition e.id

instance (c : Config (queue o)) (m : RelayMessage) : Decidable (Moving c m) :=
  inferInstanceAs (Decidable (∃ t ∈ c.threads, moves t m))

instance (c : Config (queue o)) (d : Delivery) : Decidable (Spare c d) :=
  inferInstanceAs (Decidable (∃ e ∈ (c.state.streams d.partition).entries, e.data = d.message ∧
    e.id ≠ d.receiptHandle ∧ ∀ t ∈ c.threads, ¬ takes t d.partition e.id))

/-- Each unsettled message is in its delay set or lasts in its stream, the latter while it is
moved. -/
structure Kept (c : Config (queue o)) : Prop where
  made : ∀ t ∈ c.threads, ∀ d ∈ t.task.delivery, d ∈ c.state.deliveries
  kept : ∀ m ∈ c.state.unsettled, Delayed c.state m ∨ Lasting c m
  moving : ∀ t ∈ c.threads, ∀ m ∈ c.state.unsettled, moves t m → Lasting c m

theorem moved_cons {a : Command} {r : Option a.Value} {done : Done} {m : RelayMessage}
    (h : moved (⟨a, r⟩ :: done) = some m) :
    (∃ p, a = .xadd .pumpDelayed p m ∧ r ≠ none) ∨ moved done = some m := by
  cases a with
  | xadd sender p m' =>
      cases sender <;> cases r <;> simp_all [moved]
  | zrem p m' =>
      cases r with
      | none => exact .inr h
      | some v => simp [moved] at h
  | _ => simp [moved] at h

variable {c : Config (queue o)} {t : Thread (queue o)} {a : Command} {r : Option a.Value}
  {k : Proc redis Unit} {m : RelayMessage}

theorem moves_after (ht : t.live = true) (hm : moves (t.after a r k) m) :
    (∃ p, a = .xadd .pumpDelayed p m ∧ r ≠ none) ∨ moves t m :=
  (moved_cons hm.2).imp_right fun h => ⟨ht, h⟩

theorem takes_after (ht : t.live = true) {p : ChainId} {id : ℕ} (hu : takes (t.after a r k) p id) :
    secures ⟨a, r⟩ = true ∨ takes t p id := by
  obtain ⟨-, hs, hd⟩ := hu
  rcases Bool.or_eq_true_iff.mp hs with hs | hs
  · exact .inl hs
  · exact .inr ⟨ht, hs, hd⟩

theorem Lasting.streamed (h : Lasting c m) : Streamed c.state m := by
  obtain ⟨e, he, hm, -⟩ := h
  exact ⟨e, he, hm⟩

/-- An entry that stays and that a process does not come to take. -/
theorem Lasting.set {i : ℕ} {u : Thread (queue o)} {s' : Redis} (h : Lasting c m)
    (hkeep : ∀ e ∈ (c.state.streams m.chainId).entries, e.data = m →
      (∀ t ∈ c.threads, ¬ takes t m.chainId e.id) →
      e ∈ (s'.streams m.chainId).entries ∧ ¬ takes u m.chainId e.id) :
    Lasting ⟨s', c.threads.set i u⟩ m := by
  obtain ⟨e, he, hm, hfree⟩ := h
  obtain ⟨he', hu⟩ := hkeep e he hm hfree
  refine ⟨e, he', hm, fun t ht => ?_⟩
  rcases List.mem_or_eq_of_mem_set ht with ht | rfl
  · exact hfree t ht
  · exact hu

/-- What a process that changes has to leave. -/
theorem Kept.set (hk : Kept c) {i : ℕ} {t u : Thread (queue o)} {s' : Redis}
    (ht : c.threads[i]? = some t) (htask : u.task = t.task)
    (hmade : c.state.deliveries ⊆ s'.deliveries)
    (hkept : ∀ m ∈ s'.unsettled, Delayed s' m ∨ Lasting ⟨s', c.threads.set i u⟩ m)
    (hmoving : ∀ m ∈ s'.unsettled, Moving c m ∨ moves u m →
      Lasting ⟨s', c.threads.set i u⟩ m) : Kept ⟨s', c.threads.set i u⟩ := by
  refine ⟨?_, hkept, ?_⟩
  · intro t' ht' d hd
    rcases List.mem_or_eq_of_mem_set ht' with ht' | rfl
    · exact hmade (hk.made t' ht' d hd)
    · rw [htask] at hd
      exact hmade (hk.made t (List.mem_of_getElem? ht) d hd)
  · intro t' ht' m hm hmoves
    rcases List.mem_or_eq_of_mem_set ht' with ht' | rfl
    · exact hmoving m hm (.inl ⟨t', ht', hmoves⟩)
    · exact hmoving m hm (.inr hmoves)

/-- A step after which entries still last. -/
theorem Kept.mono (hk : Kept c) {i : ℕ} {t u : Thread (queue o)} {s' : Redis}
    (ht : c.threads[i]? = some t) (htask : u.task = t.task)
    (hmade : c.state.deliveries ⊆ s'.deliveries)
    (hmono : ∀ m ∈ s'.unsettled, Lasting c m → Lasting ⟨s', c.threads.set i u⟩ m)
    (hold : ∀ m ∈ s'.unsettled, m ∈ c.state.unsettled ∨ Lasting ⟨s', c.threads.set i u⟩ m)
    (hdelayed : ∀ m ∈ s'.unsettled, Delayed c.state m →
      Delayed s' m ∨ Lasting ⟨s', c.threads.set i u⟩ m)
    (hmoves : ∀ m ∈ s'.unsettled, moves u m →
      moves t m ∨ Lasting ⟨s', c.threads.set i u⟩ m) : Kept ⟨s', c.threads.set i u⟩ := by
  refine hk.set ht htask hmade ?_ ?_
  · intro m hm
    rcases hold m hm with hm' | hl
    · rcases hk.kept m hm' with hd | hl
      · exact hdelayed m hm hd
      · exact .inr (hmono m hm hl)
    · exact .inr hl
  · intro m hm hmove
    rcases hold m hm with hm' | hl
    · rcases hmove with ⟨t', ht', hmove⟩ | hmove
      · exact hmono m hm (hk.moving t' ht' m hm' hmove)
      · rcases hmoves m hm hmove with hmove | hl
        · exact hmono m hm (hk.moving t (List.mem_of_getElem? ht) m hm' hmove)
        · exact hl
    · exact hl

/-- A step after which the same messages are in the same places. -/
theorem Kept.same (hk : Kept c) {i : ℕ} {u : Thread (queue o)} {s' : Redis}
    (ht : c.threads[i]? = some t) (htask : u.task = t.task)
    (hmade : c.state.deliveries ⊆ s'.deliveries)
    (hsame : ∀ p, (c.state.streams p).entries ⊆ (s'.streams p).entries)
    (hretry : s'.retry = c.state.retry) (hunsettled : s'.unsettled = c.state.unsettled)
    (htakes : ∀ p id, takes u p id → takes t p id) (hmoves : ∀ m, moves u m → moves t m) :
    Kept ⟨s', c.threads.set i u⟩ := by
  refine hk.mono ht htask hmade ?_ ?_ ?_ ?_
  · intro m _ hl
    refine hl.set fun e he _ hfree => ⟨hsame _ he, fun hu => ?_⟩
    exact hfree t (List.mem_of_getElem? ht) (htakes _ _ hu)
  · exact fun m hm => .inl (hunsettled ▸ hm)
  · intro m _ hd
    simp only [Delayed, hretry]
    exact .inl hd
  · exact fun m _ hm => .inl (hmoves m hm)

/-- A command that neither secures nor adds a message. -/
theorem Kept.quiet (hk : Kept c) {i : ℕ} {s' : Redis} (ht : c.threads[i]? = some t)
    (hlive : t.live = true) (hmade : c.state.deliveries ⊆ s'.deliveries)
    (hsame : ∀ p, (c.state.streams p).entries ⊆ (s'.streams p).entries)
    (hretry : s'.retry = c.state.retry) (hunsettled : s'.unsettled = c.state.unsettled)
    (hsec : secures ⟨a, r⟩ = false) (hadd : ∀ p m, a = .xadd .pumpDelayed p m → r = none) :
    Kept ⟨s', c.threads.set i (t.after a r k)⟩ := by
  refine hk.same ht rfl hmade hsame hretry hunsettled ?_ ?_
  · intro p id hu
    rcases takes_after hlive hu with hs | htakes
    · rw [hsec] at hs
      cases hs
    · exact htakes
  · intro m hm
    rcases moves_after hlive hm with ⟨p, hp, hr⟩ | hm
    · exact absurd (hadd p m hp) hr
    · exact hm

theorem entries_setStream {s : Redis} {p : ChainId} {stream : MessageStream} (q : ChainId) :
    ((s.setStream p stream).streams q).entries =
      if q = p then stream.entries else (s.streams q).entries := by
  simp only [Redis.setStream, Function.update_apply]
  split <;> rfl

/-- A stream that keeps its entries. -/
theorem subset_setStream {s : Redis} {p : ChainId} {stream : MessageStream}
    (h : (s.streams p).entries ⊆ stream.entries) (q : ChainId) :
    (s.streams q).entries ⊆ ((s.setStream p stream).streams q).entries := by
  rw [entries_setStream]
  split
  · rename_i hq
    exact hq ▸ h
  · exact List.Subset.refl _

theorem exec_deliveries {s s' : Redis} {ch : Choice} {v : a.Value}
    (h : s.exec a ch = some (v, s')) : s.deliveries ⊆ s'.deliveries := by
  cases a with
  | xadd sender p m =>
      simp only [Redis.exec] at h
      split at h
      all_goals
        simp only [Option.some.injEq, Prod.mk.injEq] at h
        exact h.2 ▸ List.Subset.refl _
  | xdel sender p id =>
      simp only [Redis.exec, Option.some.injEq, Prod.mk.injEq] at h
      obtain ⟨-, rfl⟩ := h
      split <;> exact List.Subset.refl _
  | zrangebyscore p now =>
      simp only [Redis.exec, Option.ite_none_right_eq_some, Option.some.injEq, Prod.mk.injEq] at h
      exact h.2.2 ▸ List.Subset.refl _
  | xreadgroup p count =>
      simp only [Redis.exec, Option.some.injEq, Prod.mk.injEq] at h
      exact h.2 ▸ List.subset_append_left _ _
  | xautoclaim p minIdle count =>
      simp only [Redis.exec, Option.ite_none_right_eq_some, Option.some.injEq, Prod.mk.injEq] at h
      exact h.2.2 ▸ List.subset_append_left _ _
  | _ =>
      simp only [Redis.exec, Option.some.injEq, Prod.mk.injEq] at h
      exact h.2 ▸ List.Subset.refl _

/-- An entry that is added lasts: no process takes an entry that was not delivered. -/
theorem Lasting.added (hk : Kept c) (hs : Routed c.state) {i : ℕ} {u : Thread (queue o)}
    {s' : Redis} (ht : c.threads[i]? = some t) (hu : u.task = t.task)
    (he : ⟨(c.state.streams m.chainId).lastGeneratedId + 1, m⟩ ∈ (s'.streams m.chainId).entries) :
    Lasting ⟨s', c.threads.set i u⟩ m := by
  refine ⟨_, he, rfl, fun t' ht' => ?_⟩
  rintro ⟨-, -, d, hd, hp, hid⟩
  have hmade : d ∈ c.state.deliveries := by
    rcases List.mem_or_eq_of_mem_set ht' with ht' | rfl
    · exact hk.made t' ht' d hd
    · rw [hu] at hd
      exact hk.made t (List.mem_of_getElem? ht) d hd
  have hle := hs.handle d hmade
  rw [hp, hid] at hle
  simp only at hle
  omega

/-- Adding an entry keeps what is there, and the message of the entry lasts. -/
theorem Kept.add (hk : Kept c) (hs : Routed c.state) {i : ℕ} {s' : Redis} {sender : Sender}
    (ht : c.threads[i]? = some t) (hlive : t.live = true)
    (hmade : c.state.deliveries ⊆ s'.deliveries)
    (hsame : ∀ p, (c.state.streams p).entries ⊆ (s'.streams p).entries)
    (he : ⟨(c.state.streams m.chainId).lastGeneratedId + 1, m⟩ ∈ (s'.streams m.chainId).entries)
    (hretry : s'.retry = c.state.retry)
    (hunsettled : ∀ m' ∈ s'.unsettled, m' = m ∨ m' ∈ c.state.unsettled)
    (ha : a = .xadd sender m.chainId m) : Kept ⟨s', c.threads.set i (t.after a r k)⟩ := by
  have hadded := Lasting.added hk hs ht (u := t.after a r k) rfl he
  refine hk.mono ht rfl hmade ?_ ?_ ?_ ?_
  · intro m' _ hl
    refine hl.set fun e he _ hfree => ⟨hsame _ he, fun hu => ?_⟩
    rcases takes_after hlive hu with hsec | htakes
    · simp [ha, secures] at hsec
    · exact hfree t (List.mem_of_getElem? ht) htakes
  · intro m' hm'
    rcases hunsettled m' hm' with rfl | hm'
    · exact .inr hadded
    · exact .inl hm'
  · intro m' _ hd
    simp only [Delayed, hretry]
    exact .inl hd
  · intro m' _ hm'
    rcases moves_after hlive hm' with ⟨p, hp, -⟩ | hm'
    · obtain ⟨-, -, rfl⟩ : sender = .pumpDelayed ∧ m.chainId = p ∧ m = m' := by
        simpa [ha] using hp
      exact .inr hadded
    · exact .inl hm'

/-- The pump removes a member from the delay set: the member lasts in the stream. -/
theorem Kept.remove (hk : Kept c) {i : ℕ} {p : ChainId} {r : Option Unit} {k : Proc redis Unit}
    (ht : c.threads[i]? = some t) (hlive : t.live = true) (hm : moved t.past = some m) :
    Kept ⟨c.state.setRetry p ((c.state.retry p).filter fun x => x.1 ≠ m),
      c.threads.set i (t.after (Command.zrem p m) r k)⟩ := by
  have hmono : ∀ m', Lasting c m' → Lasting
      ⟨c.state.setRetry p ((c.state.retry p).filter fun x => x.1 ≠ m),
        c.threads.set i (t.after (Command.zrem p m) r k)⟩ m' := by
    intro m' hl
    refine hl.set fun e he _ hfree => ⟨he, fun hu => ?_⟩
    rcases takes_after hlive hu with hsec | htakes
    · simp [secures] at hsec
    · exact hfree t (List.mem_of_getElem? ht) htakes
  refine hk.mono ht rfl (List.Subset.refl _) (fun m' _ => hmono m') (fun _ => .inl) ?_ ?_
  · rintro m' hm' ⟨x, hx, hxm⟩
    rcases eq_or_ne m' m with rfl | hne
    · exact .inr (hmono m' (hk.moving t (List.mem_of_getElem? ht) m' hm' ⟨hlive, hm⟩))
    · refine .inl ⟨x, ?_, hxm⟩
      simp only [Redis.setRetry, Function.update_apply]
      split
      · rename_i hp
        rw [hp] at hx
        exact List.mem_filter.mpr ⟨hx, by simpa [hxm] using hne⟩
      · exact hx
  · intro m' _ hm'
    rcases moves_after hlive hm' with ⟨q, hq, -⟩ | hm'
    · cases hq
    · exact .inl hm'

/-- A process comes to take entries of the message of its delivery only. -/
theorem Lasting.other (h : Lasting c m) (hs : Routed c.state) (hk : Kept c) {i : ℕ} {s' : Redis}
    {d : Delivery} (ht : c.threads[i]? = some t) (hd : t.task.delivery = some d)
    (hm : m ≠ d.message)
    (hsame : ∀ p, (c.state.streams p).entries ⊆ (s'.streams p).entries) :
    Lasting ⟨s', c.threads.set i (t.after a r k)⟩ m := by
  refine h.set fun e he hdata _ => ⟨hsame _ he, ?_⟩
  rintro ⟨-, -, d', hd', hp, hid⟩
  obtain rfl : d = d' := Option.some.inj (hd.symm.trans hd')
  have hmade := hk.made t (List.mem_of_getElem? ht) d hd
  rw [← hp] at he
  exact hm (hdata.symm.trans (hs.entry d hmade e he hid.symm))

/-- A message is put into its delay set. If its member is being moved, another entry has to be
there. -/
theorem Kept.delay (hk : Kept c) (hs : Routed c.state) {i : ℕ} {d : Delivery} {readyAt : ℕ}
    {r : Option Unit} {k : Proc redis Unit} (ht : c.threads[i]? = some t) (hlive : t.live = true)
    (hd : t.task.delivery = some d) (hsrc : d.message.chainId = d.partition)
    (hspare : r ≠ none → d.message ∈ c.state.unsettled → Moving c d.message → Spare c d) :
    Kept ⟨c.state.setRetry d.partition
        ((d.message, readyAt) :: (c.state.retry d.partition).filter fun x => x.1 ≠ d.message),
      c.threads.set i (t.after (Command.zadd d.partition readyAt d.message) r k)⟩ := by
  refine hk.set ht rfl (List.Subset.refl _) ?_ ?_
  · intro m hm
    rcases eq_or_ne m d.message with rfl | hne
    · refine .inl ⟨(d.message, readyAt), ?_, rfl⟩
      simp [Redis.setRetry, hsrc]
    · rcases hk.kept m hm with ⟨x, hx, hxm⟩ | hl
      · refine .inl ⟨x, ?_, hxm⟩
        simp only [Redis.setRetry, Function.update_apply]
        split
        · rename_i hp
          rw [hp] at hx
          exact List.mem_cons_of_mem _ (List.mem_filter.mpr ⟨hx, by simpa [hxm] using hne⟩)
        · exact hx
      · exact .inr (hl.other hs hk ht hd hne fun p => List.Subset.refl _)
  · intro m hm hmove
    have hmove : Moving c m := by
      rcases hmove with hmove | hmove
      · exact hmove
      · rcases moves_after hlive hmove with ⟨p, hp, -⟩ | hmove
        · cases hp
        · exact ⟨t, List.mem_of_getElem? ht, hmove⟩
    obtain ⟨t', ht', hmove'⟩ := hmove
    have hl := hk.moving t' ht' m hm hmove'
    rcases eq_or_ne m d.message with rfl | hne
    · cases r with
      | none =>
          refine hl.set fun e he _ hfree => ⟨he, fun hu => ?_⟩
          rcases takes_after hlive hu with hsec | htakes
          · simp [secures] at hsec
          · exact hfree t (List.mem_of_getElem? ht) htakes
      | some v =>
          obtain ⟨e, he, hdata, hid, hfree⟩ := hspare (by simp) hm ⟨t', ht', hmove'⟩
          rw [← hsrc] at he hfree
          refine ⟨e, he, hdata, fun t₁ ht₁ => ?_⟩
          rcases List.mem_or_eq_of_mem_set ht₁ with ht₁ | rfl
          · exact hfree t₁ ht₁
          · rintro ⟨-, -, d', hd', -, hid'⟩
            obtain rfl : d = d' := Option.some.inj (hd.symm.trans hd')
            exact hid hid'.symm
    · exact hl.other hs hk ht hd hne fun p => List.Subset.refl _

/-- A message is added to the dead letters. -/
theorem Kept.bury (hk : Kept c) (hs : Routed c.state) {i : ℕ} {s' : Redis} {d : Delivery}
    {reason : String} {r : Option Unit} {k : Proc redis Unit} (ht : c.threads[i]? = some t)
    (hlive : t.live = true) (hd : t.task.delivery = some d)
    (hstreams : s'.streams = c.state.streams) (hretry : s'.retry = c.state.retry)
    (hdeliveries : s'.deliveries = c.state.deliveries)
    (hunsettled : s'.unsettled = c.state.unsettled.filter fun m => m ∉ [d.message]) :
    Kept ⟨s', c.threads.set i
      (t.after (Command.xaddDlq d.message reason d.receiptHandle) r k)⟩ := by
  have hold : ∀ m ∈ s'.unsettled, m ∈ c.state.unsettled ∧ m ≠ d.message := by
    intro m hm
    simpa [hunsettled] using hm
  refine hk.mono ht rfl (by simp [hdeliveries]) ?_ ?_ ?_ ?_
  · exact fun m hm hl => hl.other hs hk ht hd (hold m hm).2 (by simp [hstreams])
  · exact fun m hm => .inl (hold m hm).1
  · intro m _ hdel
    simp only [Delayed, hretry]
    exact .inl hdel
  · intro m _ hmove
    rcases moves_after hlive hmove with ⟨p, hp, -⟩ | hmove
    · cases hp
    · exact .inl hmove

/-- An entry is deleted that does not last, or whose message is settled by that. -/
theorem Kept.delete (hk : Kept c) {i : ℕ} {s' : Redis} {sender : Sender} {p : ChainId} {id : ℕ}
    {r : Option Unit} {k : Proc redis Unit} (ht : c.threads[i]? = some t) (hlive : t.live = true)
    (hentries : ∀ q, (s'.streams q).entries =
      if q = p then (c.state.streams p).entries.filter fun e => e.id ≠ id
      else (c.state.streams q).entries)
    (hretry : s'.retry = c.state.retry) (hdeliveries : s'.deliveries = c.state.deliveries)
    (hunsettled : s'.unsettled ⊆ c.state.unsettled)
    (hdel : ∀ e ∈ (c.state.streams p).entries, e.data ∈ s'.unsettled →
      (∀ t ∈ c.threads, ¬ takes t p e.id) → e.id ≠ id) :
    Kept ⟨s', c.threads.set i (t.after (Command.xdel sender p id) r k)⟩ := by
  refine hk.mono ht rfl (by simp [hdeliveries]) ?_ ?_ ?_ ?_
  · intro m hm hl
    refine hl.set fun e he hdata hfree => ⟨?_, fun hu => ?_⟩
    · rw [hentries]
      split
      · rename_i hp
        rw [hp] at he hfree
        have hne := hdel e he (hdata ▸ hm) hfree
        exact List.mem_filter.mpr ⟨he, by simpa using hne⟩
      · exact he
    · rcases takes_after hlive hu with hsec | htakes
      · simp [secures] at hsec
      · exact hfree t (List.mem_of_getElem? ht) htakes
  · exact fun m hm => .inl (hunsettled hm)
  · intro m _ hd
    simp only [Delayed, hretry]
    exact .inl hd
  · intro m _ hmove
    rcases moves_after hlive hmove with ⟨q, hq, -⟩ | hmove
    · cases hq
    · exact .inl hmove

/-! ### The runs that lose nothing -/

/-- The delivery whose message the process is about to put into the delay set. -/
def delaying (t : Thread (queue o)) : Option Delivery :=
  match t.alive, t.task, t.left with
  | true, .nack d _, .act (.zadd ..) _ => some d
  | _, _, _ => none

/-- A message that is put into the delay set while the pump moves it has another entry. -/
def Undisturbed (c : Config (queue o)) : Event (queue o) → Prop
  | .act i ch => ∀ t ∈ c.threads[i]?, ∀ d ∈ delaying t, ch.served = true ∧ ch.answered = true ∧
      d.message ∈ c.state.unsettled ∧ Moving c d.message → Spare c d
  | _ => True

instance (c : Config (queue o)) : (e : Event (queue o)) → Decidable (Undisturbed c e)
  | .act i ch => inferInstanceAs (Decidable (∀ t ∈ c.threads[i]?, ∀ d ∈ delaying t,
      ch.served = true ∧ ch.answered = true ∧ d.message ∈ c.state.unsettled ∧
      Moving c d.message → Spare c d))
  | .start _ | .crash _ | .lose _ | .env _ => inferInstanceAs (Decidable True)

theorem Kept.act (hk : Kept c) (hs : Routed c.state) {i : ℕ} {ch : Choice} {s' : Redis}
    {k : Option a.Value → Proc redis Unit} (ht : c.threads[i]? = some t) (hv : t.alive = true)
    (ha : t.left = .act a k) (hd : Does t.task t.past a) (hc : Undisturbed c (.act i ch))
    (hp : c.state.perform a ch = some (r, s')) :
    Kept ⟨s', c.threads.set i (t.after a r (k r))⟩ := by
  have hlive : t.live = true := Thread.live_of_act hv ha
  rcases Redis.perform_cases hp with ⟨rfl, rfl⟩ | ⟨v, hexec, hr⟩
  · refine hk.quiet ht hlive (List.Subset.refl _) (fun _ => List.Subset.refl _) rfl rfl ?_ ?_
    · cases a <;> rfl
    · exact fun _ _ _ => rfl
  · have hmade := exec_deliveries hexec
    generalize htask : t.task = task at hd
    generalize hpast : t.past = past at hd
    cases hd with
    | @publish msg =>
        simp only [Redis.exec, if_true, Option.some.injEq, Prod.mk.injEq] at hexec
        obtain ⟨-, rfl⟩ := hexec
        refine hk.add hs ht hlive hmade (subset_setStream (List.subset_append_left _ _)) ?_ rfl
          (fun _ => List.mem_cons.mp) rfl
        simp [Redis.setStream]
    | add hm =>
        subst hm
        simp only [Redis.exec, reduceCtorEq, if_false, Option.some.injEq, Prod.mk.injEq] at hexec
        obtain ⟨-, rfl⟩ := hexec
        refine hk.add hs ht hlive hmade (subset_setStream (List.subset_append_left _ _)) ?_ rfl
          (fun _ => .inr) rfl
        simp [Redis.setStream]
    | now =>
        simp only [Redis.exec, Option.some.injEq, Prod.mk.injEq] at hexec
        obtain ⟨-, rfl⟩ := hexec
        exact hk.quiet ht hlive hmade (fun _ => List.Subset.refl _) rfl rfl rfl (by simp)
    | due =>
        simp only [Redis.exec, Option.ite_none_right_eq_some, Option.some.injEq,
          Prod.mk.injEq] at hexec
        obtain ⟨-, -, rfl⟩ := hexec
        exact hk.quiet ht hlive hmade (fun _ => List.Subset.refl _) rfl rfl rfl (by simp)
    | read =>
        simp only [Redis.exec, Option.some.injEq, Prod.mk.injEq] at hexec
        obtain ⟨-, rfl⟩ := hexec
        exact hk.quiet ht hlive hmade (subset_setStream (List.Subset.refl _)) rfl rfl rfl (by simp)
    | claim =>
        simp only [Redis.exec, Option.ite_none_right_eq_some, Option.some.injEq,
          Prod.mk.injEq] at hexec
        obtain ⟨-, -, rfl⟩ := hexec
        exact hk.quiet ht hlive hmade (subset_setStream (List.Subset.refl _)) rfl rfl rfl (by simp)
    | acknowledge =>
        simp only [Redis.exec, Option.some.injEq, Prod.mk.injEq] at hexec
        obtain ⟨-, rfl⟩ := hexec
        exact hk.quiet ht hlive hmade (subset_setStream (List.Subset.refl _)) rfl rfl rfl (by simp)
    | remove hm =>
        subst hpast
        simp only [Redis.exec, Option.some.injEq, Prod.mk.injEq] at hexec
        obtain ⟨-, rfl⟩ := hexec
        exact hk.remove ht hlive hm
    | @delay d delayMs _ readyAt hsrc =>
        simp only [Redis.exec, Option.some.injEq, Prod.mk.injEq] at hexec
        obtain ⟨-, rfl⟩ := hexec
        refine hk.delay hs ht hlive (by rw [htask]; rfl) hsrc fun hans hm hmove => ?_
        obtain ⟨hserved, hanswered⟩ := Redis.perform_answered hp hans (by simp)
        refine hc t ht d ?_ ⟨hserved, hanswered, hm, hmove⟩
        simp [delaying, hv, htask, ha]
    | bury =>
        simp only [Redis.exec, Option.some.injEq, Prod.mk.injEq] at hexec
        obtain ⟨-, rfl⟩ := hexec
        exact hk.bury hs ht hlive (by rw [htask]; rfl) rfl rfl rfl rfl
    | ack =>
        simp only [Redis.exec, if_true, Option.some.injEq, Prod.mk.injEq] at hexec
        obtain ⟨-, rfl⟩ := hexec
        refine hk.delete ht hlive ?_ rfl rfl (List.filter_subset_self _) ?_
        · exact entries_setStream
        · intro e he hm _ hid
          -- its message is settled
          have hno := (List.mem_filter.mp hm).2
          simp only [List.mem_map, decide_eq_true_eq] at hno
          exact hno ⟨e, List.mem_filter.mpr ⟨he, by simpa using hid⟩, rfl⟩
    | nack hsec | deadLetter hsec =>
        subst hpast
        simp only [Redis.exec, reduceCtorEq, if_false, Option.some.injEq, Prod.mk.injEq] at hexec
        obtain ⟨-, rfl⟩ := hexec
        refine hk.delete ht hlive ?_ rfl rfl (List.Subset.refl _) ?_
        · exact entries_setStream
        · intro e he hm hfree hid
          exact hfree t (List.mem_of_getElem? ht)
            ⟨hlive, hsec, _, by rw [htask]; rfl, rfl, hid.symm⟩

/-- **One step.** -/
theorem Kept.step {e : Event (queue o)} {c' : Config (queue o)}
    (hs : Sound contract (fun _ => False) c) (hk : Kept c) (hc : Undisturbed c e)
    (h : Step c e c') : Kept c' := by
  cases h with
  | @start task s' _ hstart =>
      obtain ⟨rfl, hmade⟩ := Task.start_eq_some hstart
      have hlast : ∀ m, Lasting c m → Lasting ⟨c.state, c.threads ++ [Thread.new task]⟩ m := by
        rintro m ⟨e, he, hm, hfree⟩
        refine ⟨e, he, hm, fun t ht => ?_⟩
        rcases List.mem_append.mp ht with ht | ht
        · exact hfree t ht
        · obtain rfl := List.mem_singleton.mp ht
          rintro ⟨-, hsec, -⟩
          cases hsec
      refine ⟨?_, fun m hm => (hk.kept m hm).imp_right (hlast m), ?_⟩
      · intro t ht d hd
        rcases List.mem_append.mp ht with ht | ht
        · exact hk.made t ht d hd
        · obtain rfl := List.mem_singleton.mp ht
          exact hmade d hd
      · intro t ht m hm hmoves
        rcases List.mem_append.mp ht with ht | ht
        · exact hlast m (hk.moving t ht m hm hmoves)
        · obtain rfl := List.mem_singleton.mp ht
          cases hmoves.2
  | act ht hv ha hp => exact hk.act hs.inv ht hv ha (hs.guard ht hv ha) hc hp
  | crash ht =>
      refine hk.same ht rfl (List.Subset.refl _) (fun _ => List.Subset.refl _) rfl rfl ?_ ?_
      · rintro p id ⟨hlive, -⟩
        simp [Thread.live] at hlive
      · rintro m ⟨hlive, -⟩
        simp [Thread.live] at hlive
  | lose ht =>
      exact hk.same ht rfl (List.Subset.refl _) (fun _ => List.Subset.refl _) rfl rfl
        (fun _ _ hu => hu) (fun _ hm => hm)
  | env henv =>
      obtain rfl := Option.some.inj henv
      exact ⟨hk.made, hk.kept, hk.moving⟩

end

/-- Before anything is done. -/
def start (o : Options) : Config (queue o) := ⟨Redis.init, []⟩

/-- Along every run, a message is only delivered from its source chain, and along every run in
which no message is put into the delay set while the pump moves the last of it, a message that was
neither acked nor dead-lettered is in its stream or its delay set. -/
theorem no_message_lost (o : Options) (es : List (Event (queue o))) :
    (∀ d ∈ ((machine (queue o)).run (start o) es).state.deliveries,
      d.partition = d.message.chainId) ∧
    ((machine (queue o)).Along Undisturbed (start o) es →
      ∀ m ∈ ((machine (queue o)).run (start o) es).state.unsettled,
        Streamed ((machine (queue o)).run (start o) es).state m ∨
        Delayed ((machine (queue o)).run (start o) es).state m) := by
  have hinit : Sound contract (fun _ => False) (start o) := Sound.init Routed.init
  constructor
  · intro d hd
    exact (((disciplined o).sound hinit Transducer.along_true).inv.source d hd).symm
  · intro hes m hm
    have hD : Disciplined (queue o) contract (fun _ => False) Undisturbed :=
      (disciplined o).mono fun _ _ _ => trivial
    have hkept : Kept (start o) := by
      constructor <;> simp [start, Redis.init]
    have hrun := (hD.always (fun c e c' hs hk hc h => hk.step hs hc h) hinit hkept hes).2
    rcases hrun.kept m hm with hd | hl
    · exact .inr hd
    · exact .inl hl.streamed

/-! ### A message that is nacked while it is moved -/

def sampleOptions : Options where
  visibilityTimeoutMs := 60000

def sampleMessage : RelayMessage where
  transactionHash := [0xaa]
  chainId := 2
  relayerAddress := [0xbb]
  transactionData :=
    { emitterChain := 2, emitterAddress := [1], sequence := 5, sourceTxHash := [0xaa]
      dstChain := 4, dstAddr := [2], gasLimit := 500000, requestBytes := [3] }
  retryCount := 0
  replaceNonce := none

/-- A command that Redis gets and answers. -/
def answered (time : ℕ) (due : List RelayMessage) : Choice where
  served := true
  answered := true
  due := due
  claimed := []
  time := time

/-- The first and the second delivery of the message. -/
def sampleDelivery (receiptHandle : ℕ) : Delivery := ⟨sampleMessage, 2, receiptHandle, 1⟩

/-- A message is delivered and nacked. One consumer waits for entries, and another, which comes
later, adds the message to the stream again. -/
def sampleRun : List (Event (queue sampleOptions)) :=
  [.start (.publish sampleMessage), .act 0 (answered 0 []),
    .start (.consume 2 1), .act 1 (answered 0 []), .act 1 (answered 0 []), .act 1 (answered 0 []),
    .start (.consume 2 1), .act 2 (answered 0 []), .act 2 (answered 0 []),
    .start (.nack (sampleDelivery 1) 1000), .act 3 (answered 0 []), .act 3 (answered 0 []),
    .act 3 (answered 0 []), .act 3 (answered 0 []),
    .start (.consume 2 1), .act 4 (answered 1000 []), .act 4 (answered 1000 [sampleMessage]),
    .act 4 (answered 1000 [])]

/-- The consumer that waits gets the entry and nacks it. -/
def sampleNack : List (Event (queue sampleOptions)) :=
  [.act 2 (answered 1000 []), .start (.nack (sampleDelivery 2) 1000), .act 5 (answered 1000 []),
    .act 5 (answered 1000 []), .act 5 (answered 1000 []), .act 5 (answered 1000 [])]

/-- The other consumer removes the message from the delay set. -/
def sampleRemove : List (Event (queue sampleOptions)) := [.act 4 (answered 1000 [])]

theorem no_message_lost_sample :
    sampleMessage ∈ ((machine (queue sampleOptions)).run (start sampleOptions)
      (sampleRun ++ sampleRemove ++ sampleNack)).state.unsettled ∧
    (Streamed ((machine (queue sampleOptions)).run (start sampleOptions)
      (sampleRun ++ sampleRemove ++ sampleNack)).state sampleMessage ∨
      Delayed ((machine (queue sampleOptions)).run (start sampleOptions)
        (sampleRun ++ sampleRemove ++ sampleNack)).state sampleMessage) := by
  have hmem : sampleMessage ∈ ((machine (queue sampleOptions)).run (start sampleOptions)
      (sampleRun ++ sampleRemove ++ sampleNack)).state.unsettled := by decide +kernel
  have hes : (machine (queue sampleOptions)).Along Undisturbed (start sampleOptions)
      (sampleRun ++ sampleRemove ++ sampleNack) := by decide +kernel
  exact ⟨hmem, (no_message_lost sampleOptions _).2 hes sampleMessage hmem⟩

/-- Removed after the nack, the message is lost. -/
theorem message_lost :
    sampleMessage ∈ ((machine (queue sampleOptions)).run (start sampleOptions)
      (sampleRun ++ sampleNack ++ sampleRemove)).state.unsettled ∧
    ¬ (Streamed ((machine (queue sampleOptions)).run (start sampleOptions)
      (sampleRun ++ sampleNack ++ sampleRemove)).state sampleMessage ∨
      Delayed ((machine (queue sampleOptions)).run (start sampleOptions)
        (sampleRun ++ sampleNack ++ sampleRemove)).state sampleMessage) := by
  decide +kernel

end Ntt.Relayer.RedisStreams
