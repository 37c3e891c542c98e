import Mathlib.Data.List.Basic
import Mathlib.Tactic.Common
import Ntt.Lib.BigEndian

/-!
# Readers of Byte Strings

A reader takes a value off the front of a byte string and leaves the rest, or fails. This is
how parsers with a cursor work, in languages where reading past the end is an error.

What a reader accepts is described by a relation between values and byte strings, the byte
strings that stand for a value. `Takes r D` says that `r` takes off the front exactly the byte
strings that `D` gives to a value: it is complete (`Takes.run_append`) and it is sound
(`Takes.sound`), whatever follows. A field of a format is written in one way only:
`TakesField r w` says that `r` takes off exactly what the writer `w` writes.

## Main results

* `run_bind_eq_ok`, `run_pure_eq_ok`, `run_throwUnless_eq_ok`: what a sequence of readers
  takes, one step at a time.
* `Takes.whole_eq_ok`: a reader followed by the check that nothing is left accepts exactly the
  byte strings that stand for a value.
-/

namespace Wire

/-- A reader: from a byte string to a value and the rest. -/
abbrev Reader (ε α : Type) : Type := StateT (List UInt8) (Except ε) α

variable {ε α β : Type}

/-- Runs a reader on a byte string that has to be read completely. -/
def Reader.whole (r : Reader ε α) (leftover : ε) (b : List UInt8) : Except ε α :=
  match r.run b with
  | .ok (a, []) => .ok a
  | .ok (_, _ :: _) => .error leftover
  | .error e => .error e

/-- What is left to read, without taking it. -/
def Reader.remaining : Reader ε (List UInt8) := get

/-- Fails unless a condition holds. -/
def Reader.throwUnless (c : Prop) [Decidable c] (e : ε) : Reader ε Unit :=
  if c then pure () else throw e

/-- Takes a number of bytes, or fails when there are fewer. -/
def Reader.exactly (n : ℕ) (e : ε) : Reader ε (List UInt8) := fun b =>
  if n ≤ b.length then .ok (b.take n, b.drop n) else .error e

/-- The reader takes off the front exactly the byte strings that stand for a value. -/
def Takes (r : Reader ε α) (D : α → List UInt8 → Prop) : Prop :=
  ∀ b a rest, r.run b = .ok (a, rest) ↔ ∃ p, D a p ∧ b = p ++ rest

/-- The reader takes off the front exactly what the writer writes for a value. -/
abbrev TakesField (r : Reader ε α) (w : α → List UInt8) : Prop :=
  ∀ b a rest, r.run b = .ok (a, rest) ↔ b = w a ++ rest

/-! ### One step at a time -/

/-- What a sequence of readers takes. -/
theorem run_bind_eq_ok {r : Reader ε α} {f : α → Reader ε β} {b rest : List UInt8} {c : β} :
    (r >>= f).run b = .ok (c, rest) ↔
      ∃ a b', r.run b = .ok (a, b') ∧ (f a).run b' = .ok (c, rest) := by
  rw [StateT.run_bind]
  cases r.run b with
  | error e => simp [bind, Except.bind]
  | ok p =>
      obtain ⟨a, b'⟩ := p
      simp only [bind, Except.bind, Except.ok.injEq, Prod.mk.injEq]
      constructor
      · intro h
        exact ⟨a, b', ⟨rfl, rfl⟩, h⟩
      · rintro ⟨_, _, ⟨rfl, rfl⟩, h⟩
        exact h

theorem run_pure_eq_ok {a c : α} {b rest : List UInt8} :
    (pure a : Reader ε α).run b = .ok (c, rest) ↔ a = c ∧ b = rest := by
  rw [StateT.run_pure]
  simp only [pure, Except.pure, Except.ok.injEq, Prod.mk.injEq]

theorem run_remaining_eq_ok {b c rest : List UInt8} :
    (Reader.remaining : Reader ε _).run b = .ok (c, rest) ↔ b = c ∧ b = rest := by
  change Except.ok (b, b) = _ ↔ _
  simp only [Except.ok.injEq, Prod.mk.injEq]

theorem run_throwUnless_eq_ok {c : Prop} [Decidable c] {e : ε} {b rest : List UInt8} {u : Unit} :
    (Reader.throwUnless c e).run b = .ok (u, rest) ↔ c ∧ b = rest := by
  by_cases hc : c
  · rw [Reader.throwUnless, if_pos hc, run_pure_eq_ok]
    exact ⟨fun h => ⟨hc, h.2⟩, fun h => ⟨rfl, h.2⟩⟩
  · rw [Reader.throwUnless, if_neg hc]
    exact ⟨fun h => (by cases h), fun h => absurd h.1 hc⟩

theorem run_exactly_eq_ok {n : ℕ} {e : ε} {b c rest : List UInt8} :
    (Reader.exactly n e).run b = .ok (c, rest) ↔ c.length = n ∧ b = c ++ rest := by
  change (if n ≤ b.length then Except.ok (b.take n, b.drop n) else .error e) = _ ↔ _
  split
  · rename_i hn
    simp only [Except.ok.injEq, Prod.mk.injEq]
    constructor
    · rintro ⟨rfl, rfl⟩
      exact ⟨List.length_take_of_le hn, (List.take_append_drop n b).symm⟩
    · rintro ⟨rfl, rfl⟩
      exact ⟨List.take_left, List.drop_left⟩
  · rename_i hn
    refine ⟨fun h => (by cases h), ?_⟩
    rintro ⟨rfl, rfl⟩
    exact absurd (List.length_append ▸ Nat.le_add_right _ _) hn

/-- A computation without reading. -/
theorem run_liftM_eq_ok {x : Except ε α} {a : α} {b rest : List UInt8} :
    (liftM x : Reader ε α).run b = .ok (a, rest) ↔ x = .ok a ∧ b = rest := by
  cases x with
  | error e => exact ⟨fun h => (by cases h), fun h => (by cases h.1)⟩
  | ok x =>
      change Except.ok (x, b) = _ ↔ _
      simp only [Except.ok.injEq, Prod.mk.injEq]

namespace Takes

variable {r : Reader ε α} {D : α → List UInt8 → Prop}

/-- A reader reads back what stands for a value, whatever follows. -/
theorem run_append (h : Takes r D) {a : α} {p : List UInt8} (hp : D a p) (rest : List UInt8) :
    r.run (p ++ rest) = .ok (a, rest) :=
  (h _ _ _).mpr ⟨p, hp, rfl⟩

/-- What a reader takes stands for what it returns. -/
theorem sound (h : Takes r D) {b rest : List UInt8} {a : α} (hr : r.run b = .ok (a, rest)) :
    ∃ p, D a p ∧ b = p ++ rest :=
  (h _ _ _).mp hr

end Takes

/-- A reader that has to read everything accepts what it takes with nothing left. -/
theorem Reader.whole_eq_ok {r : Reader ε α} {e : ε} {b : List UInt8} {a : α} :
    r.whole e b = .ok a ↔ r.run b = .ok (a, []) := by
  rw [Reader.whole]
  rcases r.run b with e' | ⟨a', _ | ⟨x, rest⟩⟩ <;> simp

/-- It accepts exactly what stands for a value. -/
theorem Takes.whole_eq_ok {r : Reader ε α} {D : α → List UInt8 → Prop} (h : Takes r D) {e : ε}
    {b : List UInt8} {a : α} : r.whole e b = .ok a ↔ D a b := by
  rw [Reader.whole_eq_ok, h b a []]
  constructor
  · rintro ⟨p, hp, rfl⟩
    rwa [List.append_nil]
  · intro hb
    exact ⟨b, hb, (List.append_nil b).symm⟩

/-! ### Numbers -/

/-- Reads a number of a fixed width, most significant byte first. -/
def Reader.bigEndian (n : ℕ) (ofNat : ℕ → α) (e : ε) : Reader ε α := do
  let b ← Reader.exactly n e
  return ofNat (BigEndian.beNat b)

/-- A type of numbers of `n` bytes is read as it is written. -/
theorem takesField_bigEndian {n : ℕ} {ofNat : ℕ → α} {toNat : α → ℕ} {e : ε}
    (hlt : ∀ x, toNat x < 256 ^ n) (hof : ∀ x, ofNat (toNat x) = x)
    (hto : ∀ v < 256 ^ n, toNat (ofNat v) = v) :
    TakesField (Reader.bigEndian n ofNat e) fun x => BigEndian.beBytes n (toNat x) := by
  intro b x rest
  simp only [Reader.bigEndian, run_bind_eq_ok, run_pure_eq_ok, run_exactly_eq_ok]
  constructor
  · rintro ⟨l, _, ⟨rfl, rfl⟩, rfl, rfl⟩
    rw [hto _ (BigEndian.beNat_lt l), BigEndian.beBytes_beNat]
  · rintro rfl
    exact ⟨_, rest, ⟨BigEndian.length_beBytes _ _, rfl⟩,
      (congrArg ofNat (BigEndian.beNat_beBytes (hlt x))).trans (hof x), rfl⟩

/-- Reads a number of a fixed width, least significant byte first. -/
def Reader.littleEndian (n : ℕ) (ofNat : ℕ → α) (e : ε) : Reader ε α := do
  let b ← Reader.exactly n e
  return ofNat (BigEndian.beNat b.reverse)

theorem takesField_littleEndian {n : ℕ} {ofNat : ℕ → α} {toNat : α → ℕ} {e : ε}
    (hlt : ∀ x, toNat x < 256 ^ n) (hof : ∀ x, ofNat (toNat x) = x)
    (hto : ∀ v < 256 ^ n, toNat (ofNat v) = v) :
    TakesField (Reader.littleEndian n ofNat e)
      fun x => (BigEndian.beBytes n (toNat x)).reverse := by
  intro b x rest
  simp only [Reader.littleEndian, run_bind_eq_ok, run_pure_eq_ok, run_exactly_eq_ok]
  constructor
  · rintro ⟨l, _, ⟨rfl, rfl⟩, rfl, rfl⟩
    have hlt := BigEndian.beNat_lt l.reverse
    have hback := BigEndian.beBytes_beNat l.reverse
    rw [List.length_reverse] at hlt hback
    rw [hto _ hlt, hback, List.reverse_reverse]
  · rintro rfl
    refine ⟨_, rest, ⟨?_, rfl⟩, ?_, rfl⟩
    · rw [List.length_reverse, BigEndian.length_beBytes]
    · rw [List.reverse_reverse, BigEndian.beNat_beBytes (hlt x), hof x]

end Wire
