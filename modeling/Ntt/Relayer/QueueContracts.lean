import Ntt.Relayer.RedisStreams

/-!
# What the Operations of the Redis Queue Do

`Does` says which commands an operation comes to, after what it has done so far: the pump removes
from the delay set only what it has just added to the stream, and an entry is only deleted by an ack
or once its message has been put elsewhere. With that, a message is only ever in the stream and the
delay set of its source chain, and is delivered from there.
-/

namespace Ntt.Relayer.RedisStreams

open Interleaving

/-! ### What a program has done -/

/-- What a program has done so far. -/
abbrev Done : Type := List (Σ a : Command, Option a.Value)

/-- The command puts a message into the delay set or adds it to the dead letters. -/
def secures : (Σ a : Command, Option a.Value) → Bool
  | ⟨.zadd .., some _⟩ | ⟨.xaddDlq .., some _⟩ => true
  | _ => false

def secured (done : Done) : Bool := done.any secures

/-- The member that has been added to the stream and is now to be removed from the delay set. -/
def moved : Done → Option RelayMessage
  | ⟨.xadd .pumpDelayed _ m, some _⟩ :: _ => some m
  | ⟨.zrem .., none⟩ :: done => moved done
  | _ => none

/-- The commands that an operation may come to. -/
inductive Does : Task → Done → Command → Prop
  | publish {msg done} : Does (.publish msg) done (.xadd .publish msg.chainId msg)
  | now {t done} : Does t done .now
  | due {t done p now} : Does t done (.zrangebyscore p now)
  | add {t done p m} (hm : m.chainId = p) : Does t done (.xadd .pumpDelayed p m)
  | remove {t done p m} (hm : moved done = some m) : Does t done (.zrem p m)
  | read {t done p count} : Does t done (.xreadgroup p count)
  | claim {t done p minIdle count} : Does t done (.xautoclaim p minIdle count)
  | acknowledge {t done p id} : Does t done (.xack p id)
  | ack {d done} : Does (.ack d) done (.xdel .ack d.partition d.receiptHandle)
  | delay {d delayMs done readyAt} (hd : d.message.chainId = d.partition) :
      Does (.nack d delayMs) done (.zadd d.partition readyAt d.message)
  | nack {d delayMs done} (hs : secured done = true) :
      Does (.nack d delayMs) done (.xdel .nack d.partition d.receiptHandle)
  | bury {d reason done} :
      Does (.deadLetter d reason) done (.xaddDlq d.message reason d.receiptHandle)
  | deadLetter {d reason done} (hs : secured done = true) :
      Does (.deadLetter d reason) done (.xdel .deadLetter d.partition d.receiptHandle)

/-! ### Routing -/

/-- Messages are in the stream and the delay set of their source chain, and are delivered from
there. -/
structure Routed (s : Redis) : Prop where
  fresh : ∀ p, ∀ e ∈ (s.streams p).entries, e.id ≤ (s.streams p).lastGeneratedId
  unique : ∀ p, ∀ e ∈ (s.streams p).entries, ∀ e' ∈ (s.streams p).entries, e.id = e'.id → e = e'
  stream : ∀ p, ∀ e ∈ (s.streams p).entries, e.data.chainId = p
  delayed : ∀ p, ∀ x ∈ s.retry p, x.1.chainId = p
  source : ∀ d ∈ s.deliveries, d.message.chainId = d.partition
  handle : ∀ d ∈ s.deliveries, d.receiptHandle ≤ (s.streams d.partition).lastGeneratedId
  entry : ∀ d ∈ s.deliveries, ∀ e ∈ (s.streams d.partition).entries,
    e.id = d.receiptHandle → e.data = d.message

namespace Routed

variable {s : Redis} {p : ChainId} {m : RelayMessage}

theorem init : Routed Redis.init := by
  constructor <;> simp [Redis.init]

/-- A stream that keeps some of its entries. -/
theorem setStream (hs : Routed s) {stream : MessageStream}
    (hsub : stream.entries ⊆ (s.streams p).entries)
    (hid : stream.lastGeneratedId = (s.streams p).lastGeneratedId) :
    Routed (s.setStream p stream) := by
  have hold : ∀ q, ((s.setStream p stream).streams q).entries ⊆ (s.streams q).entries ∧
      ((s.setStream p stream).streams q).lastGeneratedId = (s.streams q).lastGeneratedId := by
    intro q
    rcases eq_or_ne q p with rfl | hq
    · simpa [Redis.setStream] using ⟨hsub, hid⟩
    · simp [Redis.setStream, Function.update_of_ne hq]
  constructor
  · intro q e he
    rw [(hold q).2]
    exact hs.fresh q e ((hold q).1 he)
  · exact fun q e he e' he' => hs.unique q e ((hold q).1 he) e' ((hold q).1 he')
  · exact fun q e he => hs.stream q e ((hold q).1 he)
  · exact hs.delayed
  · exact hs.source
  · intro d hd
    rw [(hold _).2]
    exact hs.handle d hd
  · exact fun d hd e he => hs.entry d hd e ((hold _).1 he)

/-- An entry that is added. -/
theorem add (hs : Routed s) (hm : m.chainId = p) :
    Routed (s.setStream p { s.streams p with
      entries := (s.streams p).entries ++ [⟨(s.streams p).lastGeneratedId + 1, m⟩]
      lastGeneratedId := (s.streams p).lastGeneratedId + 1 }) := by
  constructor
  · intro q e he
    rcases eq_or_ne q p with rfl | hq
    · simp only [Redis.setStream, Function.update_self, List.mem_append,
        List.mem_singleton] at he ⊢
      rcases he with he | rfl
      · exact (hs.fresh q e he).trans (Nat.le_succ _)
      · rfl
    · simp only [Redis.setStream, Function.update_of_ne hq] at he ⊢
      exact hs.fresh q e he
  · intro q e he e' he' hid
    rcases eq_or_ne q p with rfl | hq
    · simp only [Redis.setStream, Function.update_self, List.mem_append,
        List.mem_singleton] at he he'
      rcases he with he | rfl <;> rcases he' with he' | rfl
      · exact hs.unique q e he e' he' hid
      · exact absurd (hs.fresh q e he) (by simp [hid])
      · exact absurd (hs.fresh q e' he') (by simp [← hid])
      · rfl
    · simp only [Redis.setStream, Function.update_of_ne hq] at he he'
      exact hs.unique q e he e' he' hid
  · intro q e he
    rcases eq_or_ne q p with rfl | hq
    · simp only [Redis.setStream, Function.update_self, List.mem_append,
        List.mem_singleton] at he
      rcases he with he | rfl
      · exact hs.stream q e he
      · exact hm
    · simp only [Redis.setStream, Function.update_of_ne hq] at he
      exact hs.stream q e he
  · exact hs.delayed
  · exact hs.source
  · intro d hd
    have hle := hs.handle d hd
    rcases eq_or_ne d.partition p with rfl | hq
    · simp only [Redis.setStream, Function.update_self]
      exact hle.trans (Nat.le_succ _)
    · simp only [Redis.setStream, Function.update_of_ne hq]
      exact hle
  · intro d hd e he hid
    rcases eq_or_ne d.partition p with rfl | hq
    · simp only [Redis.setStream, Function.update_self, List.mem_append,
        List.mem_singleton] at he
      rcases he with he | rfl
      · exact hs.entry d hd e he hid
      · -- a handle is not greater than the ids so far
        have hle := hs.handle d hd
        simp only at hid
        omega
    · simp only [Redis.setStream, Function.update_of_ne hq] at he
      exact hs.entry d hd e he hid

/-- A delay set of messages of its source chain. -/
theorem setRetry (hs : Routed s) {members : List (RelayMessage × ℕ)}
    (hmem : ∀ x ∈ members, x.1.chainId = p) :
    Routed (s.setRetry p members) := by
  refine ⟨hs.fresh, hs.unique, hs.stream, ?_, hs.source, hs.handle, hs.entry⟩
  intro q x hx
  rcases eq_or_ne q p with rfl | hq
  · simp only [Redis.setRetry, Function.update_self] at hx
    exact hmem x hx
  · simp only [Redis.setRetry, Function.update_of_ne hq] at hx
    exact hs.delayed q x hx

/-- A stream some of whose entries are delivered. -/
theorem deliver (hs : Routed s) {stream : MessageStream} {es : List Entry} {n : ℕ}
    (hentries : stream.entries = (s.streams p).entries)
    (hid : stream.lastGeneratedId = (s.streams p).lastGeneratedId)
    (hes : es ⊆ (s.streams p).entries) : Routed (s.deliver p stream es n) := by
  have hkeep := hs.setStream (hentries ▸ List.Subset.refl _) hid
  have hes' : ∀ e ∈ es, e ∈ ((s.setStream p stream).streams p).entries := by
    intro e he
    simpa only [Redis.setStream, Function.update_self, hentries] using hes he
  have hnew : ∀ d ∈ (s.deliver p stream es n).deliveries, d ∈ s.deliveries ∨
      ∃ e ∈ ((s.setStream p stream).streams p).entries, toDelivery p n e = d := by
    intro d hd
    rcases List.mem_append.mp hd with hd | hd
    · exact .inl hd
    · obtain ⟨e, he, rfl⟩ := List.mem_map.mp hd
      exact .inr ⟨e, hes' e he, rfl⟩
  refine ⟨hkeep.fresh, hkeep.unique, hkeep.stream, hkeep.delayed, ?_, ?_, ?_⟩
  · intro d hd
    rcases hnew d hd with hd | ⟨e, he, rfl⟩
    · exact hs.source d hd
    · exact hkeep.stream p e he
  · intro d hd
    rcases hnew d hd with hd | ⟨e, he, rfl⟩
    · exact hkeep.handle d hd
    · exact hkeep.fresh p e he
  · intro d hd e he hid
    rcases hnew d hd with hd | ⟨e', he', rfl⟩
    · exact hkeep.entry d hd e he hid
    · exact congrArg Entry.data (hkeep.unique p e he e' he' hid)

/-- What is not about streams, delay sets and deliveries does not matter. -/
theorem congr {s' : Redis} (hs : Routed s) (h : s'.streams = s.streams) (h' : s'.retry = s.retry)
    (h'' : s'.deliveries = s.deliveries) : Routed s' := by
  constructor
  · simpa only [h] using hs.fresh
  · simpa only [h] using hs.unique
  · simpa only [h] using hs.stream
  · simpa only [h'] using hs.delayed
  · simpa only [h''] using hs.source
  · simpa only [h, h''] using hs.handle
  · simpa only [h, h''] using hs.entry

theorem settle (hs : Routed s) {ms : List RelayMessage} : Routed (s.settle ms) :=
  hs.congr rfl rfl rfl

end Routed

/-- A command does nothing, or what it does is not answered, or it is. -/
theorem Redis.perform_cases {s s' : Redis} {a : Command} {ch : Choice} {r : Option a.Value}
    (h : s.perform a ch = some (r, s')) :
    (r = none ∧ s' = s) ∨ ∃ v, s.exec a ch = some (v, s') ∧ (r = none ∨ r = some v) := by
  simp only [Redis.perform] at h
  split at h
  · obtain ⟨⟨v, u⟩, hexec, heq⟩ := Option.map_eq_some_iff.mp h
    obtain ⟨rfl, rfl⟩ := Prod.mk.inj heq
    refine .inr ⟨v, hexec, ?_⟩
    split
    · exact .inr rfl
    · exact .inl rfl
  · simp only [Option.some.injEq, Prod.mk.injEq] at h
    exact .inl ⟨h.1.symm, h.2.symm⟩

theorem Redis.perform_answered {s s' : Redis} {a : Command} {ch : Choice} {r : Option a.Value}
    (h : s.perform a ch = some (r, s')) (hr : r ≠ none) (ha : a ≠ .now) :
    ch.served = true ∧ ch.answered = true := by
  simp only [Redis.perform, ha, or_false] at h
  split at h
  · rename_i hserved
    obtain ⟨⟨v, u⟩, -, heq⟩ := Option.map_eq_some_iff.mp h
    obtain ⟨rfl, -⟩ := Prod.mk.inj heq
    refine ⟨hserved, ?_⟩
    by_contra hno
    simp [hno] at hr
  · simp only [Option.some.injEq, Prod.mk.injEq] at h
    exact absurd h.1.symm hr

/-- The commands that an operation comes to keep messages where they belong. -/
theorem Routed.exec {s s' : Redis} {t : Task} {done : Done} {a : Command} {ch : Choice}
    {v : a.Value} (hs : Routed s) (hd : Does t done a) (h : s.exec a ch = some (v, s')) :
    Routed s' := by
  cases hd with
  | @publish msg =>
      simp only [Redis.exec, if_true, Option.some.injEq, Prod.mk.injEq] at h
      obtain ⟨-, rfl⟩ := h
      exact (hs.add rfl).congr rfl rfl rfl
  | now =>
      simp only [Redis.exec, Option.some.injEq, Prod.mk.injEq] at h
      exact h.2 ▸ hs
  | due =>
      simp only [Redis.exec, Option.ite_none_right_eq_some, Option.some.injEq, Prod.mk.injEq] at h
      exact h.2.2 ▸ hs
  | add hm =>
      simp only [Redis.exec, reduceCtorEq, if_false, Option.some.injEq, Prod.mk.injEq] at h
      obtain ⟨-, rfl⟩ := h
      exact hs.add hm
  | @remove _ _ p m =>
      simp only [Redis.exec, Option.some.injEq, Prod.mk.injEq] at h
      obtain ⟨-, rfl⟩ := h
      exact hs.setRetry fun x hx => hs.delayed p x (List.mem_of_mem_filter hx)
  | @read _ _ p count =>
      simp only [Redis.exec, Option.some.injEq, Prod.mk.injEq] at h
      obtain ⟨-, rfl⟩ := h
      refine hs.deliver rfl rfl ?_
      split
      · exact List.filter_subset_self _
      · exact List.Subset.trans (List.take_subset _ _) (List.filter_subset_self _)
  | claim =>
      simp only [Redis.exec, Option.ite_none_right_eq_some, Option.some.injEq, Prod.mk.injEq] at h
      obtain ⟨-, -, rfl⟩ := h
      exact hs.deliver rfl rfl (List.filter_subset_self _)
  | acknowledge =>
      simp only [Redis.exec, Option.some.injEq, Prod.mk.injEq] at h
      obtain ⟨-, rfl⟩ := h
      exact hs.setStream (List.Subset.refl _) rfl
  | ack =>
      simp only [Redis.exec, if_true, Option.some.injEq, Prod.mk.injEq] at h
      obtain ⟨-, rfl⟩ := h
      refine Routed.settle ?_
      exact hs.setStream (List.filter_subset_self _) rfl
  | @delay d _ _ _ hd =>
      simp only [Redis.exec, Option.some.injEq, Prod.mk.injEq] at h
      obtain ⟨-, rfl⟩ := h
      refine hs.setRetry fun x hx => ?_
      rcases List.mem_cons.mp hx with rfl | hx
      · exact hd
      · exact hs.delayed _ x (List.mem_of_mem_filter hx)
  | nack | deadLetter =>
      simp only [Redis.exec, reduceCtorEq, if_false, Option.some.injEq, Prod.mk.injEq] at h
      obtain ⟨-, rfl⟩ := h
      exact hs.setStream (List.filter_subset_self _) rfl
  | bury =>
      simp only [Redis.exec, Option.some.injEq, Prod.mk.injEq] at h
      obtain ⟨-, rfl⟩ := h
      refine Routed.settle ?_
      exact hs.congr rfl rfl rfl

/-! ### What the operations do -/

/-- What an operation does is all that is said of it. -/
def contract (t : Task) : Contract redis Routed where
  rely _ _ := True
  allows _ _ _ := True
  guard done a _ := Does t done a
  final _ _ := True
  rely_refl _ := trivial
  rely_trans _ _ := trivial

section

variable {α : Type} {t : Task} {done : Done}

theorem meets_command {a : Command} {Q : Option a.Value → Done → Prop} (hd : Does t done a)
    (hQ : ∀ s ch r s', Routed s → s.perform a ch = some (r, s') → Q r (⟨a, r⟩ :: done)) :
    (command a).Meets (contract t) Q done :=
  Prog.meets_perform (A := redis) (f := id) (fun _ _ => hd) hQ

/-- Trying again from where a try that throws leaves off. -/
theorem meets_withRetry {fn : Program α} {Q : Option α → Done → Prop} {P : Done → Prop}
    (hfn : ∀ done, P done → fn.Meets (contract t) (fun r done => match r with
      | some a => Q (some a) done
      | none => P done) done)
    (hthrow : ∀ done, P done → Q none done) {n : ℕ} (hP : P done) :
    (withRetry fn n).Meets (contract t) Q done := by
  induction n generalizing done with
  | zero => exact Prog.meets_throw (hthrow done hP)
  | succ n ih =>
      refine Prog.meets_orElse ((hfn done hP).mono ?_)
      rintro (_ | a) done' hr
      · exact ih hr
      · exact hr

/-- A command that is tried again. -/
theorem meets_run {o : Options} {a : Command} {Q : Option a.Value → Done → Prop}
    (hd : ∀ done, Does t done a) (hnone : ∀ done, Q none done)
    (hQ : ∀ v done, Q (some v) (⟨a, some v⟩ :: done)) :
    (o.run (command a)).Meets (contract t) Q done := by
  refine meets_withRetry (P := fun _ => True) (fun done _ => ?_) (fun done _ => hnone done) trivial
  refine meets_command (hd done) ?_
  rintro _ _ (_ | v) _ _ _
  · trivial
  · exact hQ v done

/-- Only members of the delay set are due, and these are of its source chain. -/
theorem due_chain {s s' : Redis} {p : ChainId} {now : ℕ} {ch : Choice} {due : List RelayMessage}
    (hs : Routed s) (h : s.perform (.zrangebyscore p now) ch = some (some due, s')) :
    ∀ m ∈ due, m.chainId = p := by
  rcases Redis.perform_cases h with ⟨hr, -⟩ | ⟨v, hexec, hr⟩
  · cases hr
  · obtain rfl : due = v := by simpa using hr
    simp only [Redis.exec, Option.ite_none_right_eq_some, Option.some.injEq, Prod.mk.injEq] at hexec
    obtain ⟨⟨-, -, hdue, -⟩, rfl, -⟩ := hexec
    intro m hm
    obtain ⟨x, hx, rfl, -⟩ := hdue m hm
    exact hs.delayed p x hx

theorem meets_pumpDelayed (o : Options) (p max : ℕ) :
    (pumpDelayed o p).Meets (contract (.consume p max)) (fun _ _ => True) done := by
  have hdue : ∀ done, (o.run (do command (.zrangebyscore p (← command .now)))).Meets
      (contract (.consume p max)) (fun r _ => ∀ due ∈ r, ∀ m ∈ due, m.chainId = p) done := by
    intro done
    refine meets_withRetry (P := fun _ => True) (fun done _ => ?_) (by simp) trivial
    refine Prog.meets_bind (meets_command .now ?_)
    rintro _ _ (_ | now) _ _ _
    · trivial
    · refine meets_command .due ?_
      rintro s _ (_ | due) _ hs hperf
      · trivial
      · rintro _ ⟨⟩
        exact due_chain hs hperf
  refine Prog.meets_bind ((hdue done).mono ?_)
  rintro (_ | due) done' hr
  · trivial
  · refine Prog.meets_forM (fun m hm done _ => ?_) trivial
    refine Prog.meets_bind (meets_run (fun _ => .add (hr due rfl m hm)) (fun _ => trivial) ?_)
    intro id done
    -- the member is being moved until its removal is answered
    refine meets_withRetry (P := fun done => moved done = some m) ?_ (fun _ _ => trivial) rfl
    intro done hmoved
    refine meets_command (.remove hmoved) ?_
    rintro _ _ (_ | _) _ _ _
    · exact hmoved
    · trivial

theorem meets_consume (o : Options) (p max : ℕ) :
    (consume o p max).Meets (contract (.consume p max)) (fun _ _ => True) done := by
  refine Prog.meets_bind ((meets_pumpDelayed o p max).mono ?_)
  rintro (_ | _) done' -
  · trivial
  · refine Prog.meets_bind (meets_run (fun _ => .read) (fun _ => trivial) ?_)
    exact fun _ _ => Prog.meets_pure trivial

theorem meets_ack (o : Options) (d : Delivery) :
    (ack o d).Meets (contract (.ack d)) (fun _ _ => True) done := by
  refine meets_withRetry (P := fun _ => True) (fun done _ => ?_) (fun _ _ => trivial) trivial
  refine Prog.meets_bind (meets_command .acknowledge ?_)
  rintro _ _ (_ | _) _ _ _
  · trivial
  · exact meets_command .ack fun _ _ r _ _ _ => by cases r <;> trivial

/-- Taking an entry out once its message has been put elsewhere. -/
theorem meets_take {d : Delivery} {sender : Sender} (hs : secured done = true)
    (hdel : ∀ done, secured done = true →
      Does t done (.xdel sender d.partition d.receiptHandle)) :
    (do command (.xack d.partition d.receiptHandle)
        command (.xdel sender d.partition d.receiptHandle) : Program Unit).Meets (contract t)
      (fun _ _ => True) done := by
  refine Prog.meets_bind (meets_command .acknowledge ?_)
  rintro _ _ (_ | _) _ _ _
  · trivial
  · exact meets_command (hdel _ hs) fun _ _ _ _ _ _ => trivial

theorem meets_nack (o : Options) {d : Delivery} (delayMs : ℕ)
    (hd : d.message.chainId = d.partition) :
    (nack o d delayMs).Meets (contract (.nack d delayMs)) (fun _ _ => True) done := by
  refine Prog.meets_bind (meets_command .now ?_)
  rintro _ _ (_ | now) _ _ _
  · trivial
  · refine meets_withRetry (P := fun _ => True) (fun done _ => ?_) (fun _ _ => trivial) trivial
    refine Prog.meets_bind (meets_command (.delay hd) ?_)
    rintro _ _ (_ | _) _ _ _
    · trivial
    · exact (meets_take rfl fun _ => .nack).mono fun r _ _ => by cases r <;> trivial

theorem meets_deadLetter (o : Options) (d : Delivery) (reason : String) :
    (deadLetter o d reason).Meets (contract (.deadLetter d reason)) (fun _ _ => True) done := by
  refine meets_withRetry (P := fun _ => True) (fun done _ => ?_) (fun _ _ => trivial) trivial
  refine Prog.meets_bind (meets_command .bury ?_)
  rintro _ _ (_ | _) _ _ _
  · trivial
  · exact (meets_take rfl fun _ => .deadLetter).mono fun r _ _ => by cases r <;> trivial

end

theorem Task.start_eq_some {t : Task} {s s' : Redis} (h : t.start s = some s') :
    s' = s ∧ ∀ d ∈ t.delivery, d ∈ s.deliveries := by
  simp only [Task.start, Option.ite_none_right_eq_some, Option.some.injEq] at h
  exact ⟨h.2.symm, h.1⟩

/-- Every operation does what its contract says. -/
theorem body_obeys (o : Options) {t : Task} {s s' : Redis} (h : t.start s = some s')
    (hs : Routed s) (hs' : Routed s') :
    (t.body o).Obeys (contract t) (fun _ => (contract t).final) [] s' := by
  have hend : ∀ {α : Type} {p : Program α}, p.Meets (contract t) (fun _ _ => True) [] →
      (Task.toProc p).Obeys (contract t) (fun _ => (contract t).final) [] s' := by
    intro α p hp
    exact Proc.obeys_bind ((hp s' hs').mono fun _ _ _ _ _ => fun _ _ _ => trivial) hs'
  cases t with
  | publish msg =>
      refine hend (Prog.meets_bind ?_)
      exact meets_run (fun _ => .publish) (fun _ => trivial) fun _ _ => Prog.meets_pure trivial
  | consume p max => exact hend (meets_consume o p max)
  | reclaimExpired p max =>
      refine hend (Prog.meets_bind ?_)
      exact meets_run (fun _ => .claim) (fun _ => trivial) fun _ _ => Prog.meets_pure trivial
  | ack d => exact hend (meets_ack o d)
  | nack d delayMs =>
      have hd := (Task.start_eq_some h).2 d rfl
      exact hend (meets_nack o delayMs (hs.source d hd))
  | deadLetter d reason => exact hend (meets_deadLetter o d reason)

/-- Every operation keeps messages where they belong, whatever the others do. -/
theorem disciplined (o : Options) :
    Disciplined (queue o) contract (fun _ => False) (fun _ _ => True) where
  body h hs hs' := body_obeys o h hs hs'
  start h hs := by
    obtain ⟨rfl, -⟩ := Task.start_eq_some h
    exact ⟨hs, fun _ => trivial⟩
  env h hs := by
    obtain rfl := Option.some.inj h
    exact ⟨hs.congr rfl rfl rfl, fun _ => trivial⟩
  lose _ _ hl := by cases hl
  act _ _ _ _ hs hg hp := by
    refine ⟨trivial, ?_, fun _ _ _ _ _ => trivial⟩
    rcases Redis.perform_cases hp with ⟨-, rfl⟩ | ⟨v, hexec, -⟩
    · exact hs
    · exact hs.exec hg hexec

end Ntt.Relayer.RedisStreams
