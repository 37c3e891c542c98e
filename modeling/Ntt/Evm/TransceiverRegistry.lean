import Ntt.Evm.Basic
import Ntt.Lib.Bitmap
import Ntt.Lib.Loop
import Ntt.Lib.SwapRemove

/-!
# The Transceiver Registry and the Threshold

`TransceiverRegistry` of the contracts keeps the same facts four times: an info for every
address, a bitmap of the enabled indices, the list of the enabled transceivers and the list of
the registered ones, with their counts. `Quorum` adds the threshold of `ManagerBase`. This
module embeds what changes them (`_setTransceiver`, `_removeTransceiver`, `setTransceiver`,
`removeTransceiver`, `setThreshold`), with the invariant checks that the code runs after every
change, and the counting of votes.

The invariants themselves are proved in `Ntt.Evm.RegistryInvariant`.
-/

namespace Ntt

/-- What is known of a transceiver. -/
structure TransceiverInfo where
  registered : Bool
  enabled : Bool
  index : UInt8
deriving DecidableEq, Repr

/-- The storage of the registry. -/
structure TransceiverRegistry where
  /-- The info of every address; unset for an address that was never registered. -/
  transceiverInfos : Address → TransceiverInfo
  /-- The indices of the enabled transceivers. -/
  bitmap : UInt64
  /-- The enabled transceivers. -/
  enabledTransceivers : List Address
  /-- The registered transceivers, in the order of their indices. -/
  registeredTransceivers : List Address
  /-- The number of registered transceivers. -/
  numRegistered : UInt8
  /-- The number of enabled transceivers. -/
  numEnabled : UInt8

/-- The most transceivers that can be registered. -/
def MAX_TRANSCEIVERS : UInt8 := 64

/-- `x++` on a `uint8`. -/
def increment (x : UInt8) : Except Error UInt8 :=
  if x.toNat < 255 then .ok (x + 1) else .error .arithmeticOverflow

/-- `x--` on a `uint8`. -/
def decrement (x : UInt8) : Except Error UInt8 :=
  if x = 0 then .error .arithmeticOverflow else .ok (x - 1)

/-- Reads an array entry. -/
def readAt {α : Type} (xs : List α) (i : ℕ) : Except Error α :=
  match xs[i]? with
  | some x => .ok x
  | none => .error .indexOutOfBounds

/-- A loop over a list, whose rounds only check. -/
def forEach {α : Type} (body : α → Except Error Unit) : List α → Except Error Unit
  | [] => .ok ()
  | x :: xs => do
      body x
      forEach body xs

/-- The loop that clears the lowest bit and counts, for at most as many rounds as there are
bits. -/
def countSetBitsLoop : ℕ → UInt64 → UInt8 → UInt8
  | 0, _, count => count
  | rounds + 1, x, count =>
      if x ≠ 0 then countSetBitsLoop rounds (x &&& (x - 1)) (count + 1) else count

/-- Counts the bits that are set. -/
def countSetBits (x : UInt64) : UInt8 := countSetBitsLoop 64 x 0

/-- The variables of `countSetBits`. -/
structure CountSetBits where
  x : UInt64
  count : UInt8
deriving DecidableEq, Repr

/-- The loop of `countSetBits` without a bound on its rounds, and with checked arithmetic. -/
def countSetBitsWhile : Loop Error CountSetBits where
  condition v := v.x ≠ 0
  body v := do
    let x := v.x &&& UInt64.ofNat (← checkedSub v.x.toNat 1)
    return { x, count := ← increment v.count }

namespace TransceiverRegistry

/-- A registry in which nothing was registered. -/
def empty : TransceiverRegistry where
  transceiverInfos _ := ⟨false, false, 0⟩
  bitmap := 0
  enabledTransceivers := []
  registeredTransceivers := []
  numRegistered := 0
  numEnabled := 0

/-- The index of a transceiver. -/
def index (r : TransceiverRegistry) (a : Address) : UInt8 := (r.transceiverInfos a).index

/-- Writes the info of an address. -/
def setInfo (r : TransceiverRegistry) (a : Address) (info : TransceiverInfo) :
    TransceiverRegistry :=
  { r with transceiverInfos := Function.update r.transceiverInfos a info }

/-! ### Invariant checks of the code -/

/-- Looks for a transceiver among the entries from `i` on of the enabled list. -/
def findEnabled (r : TransceiverRegistry) (transceiver : Address) : ℕ → ℕ → Except Error Bool
  | 0, _ => .ok false
  | rounds + 1, i => do
      if (← readAt r.enabledTransceivers i) = transceiver then return true
      else findEnabled r transceiver rounds (i + 1)

/-- Checks that a transceiver is in a valid state. -/
def checkTransceiverInvariants (r : TransceiverRegistry) (transceiver : Address) :
    Except Error Unit := do
  let transceiverInfo := r.transceiverInfos transceiver
  -- a transceiver that is not registered should not be enabled
  assert (transceiverInfo.registered ∨ ¬ transceiverInfo.enabled ∧ transceiverInfo.index = 0)
  let transceiverInEnabledBitmap :=
    decide (r.bitmap &&& Bitmap.bit transceiverInfo.index.toNat ≠ 0)
  let transceiverEnabled := transceiverInfo.enabled
  let transceiverInEnabledTransceivers ← r.findEnabled transceiver r.numEnabled.toNat 0
  assert (transceiverInEnabledBitmap = transceiverEnabled)
  assert (transceiverInEnabledTransceivers = transceiverEnabled)
  assert (transceiverInfo.index < r.numRegistered)

/-- Checks that the registry is in a valid state. -/
def checkTransceiversInvariants (r : TransceiverRegistry) : Except Error Unit := do
  let numTransceiversEnabled := r.numEnabled.toNat
  assert (numTransceiversEnabled = r.enabledTransceivers.length)
  forEach (fun i => do r.checkTransceiverInvariants (← readAt r.enabledTransceivers i))
    (List.range numTransceiversEnabled)
  -- each transceiver is only enabled once
  forEach (fun i => forEach (fun j => do
      assert ((← readAt r.enabledTransceivers i) ≠ (← readAt r.enabledTransceivers j)))
    (List.range' (i + 1) (numTransceiversEnabled - (i + 1)))) (List.range numTransceiversEnabled)
  assert (r.numRegistered ≤ MAX_TRANSCEIVERS)

/-! ### Registration and removal -/

/-- Registers a transceiver if it never was, and enables it. -/
def setTransceiver (transceiver : Address) (r : TransceiverRegistry) :
    Except Error TransceiverRegistry := do
  throwIf (transceiver = 0) .invalidTransceiverZeroAddress
  let info := r.transceiverInfos transceiver
  let r ←
    if info.registered then
      pure (r.setInfo transceiver { info with enabled := true })
    else do
      throwIf (r.numRegistered ≥ MAX_TRANSCEIVERS) .tooManyTransceivers
      let r' := r.setInfo transceiver ⟨true, true, r.numRegistered⟩
      pure { r' with
        numRegistered := ← increment r.numRegistered
        registeredTransceivers := r.registeredTransceivers ++ [transceiver] }
  let r := { r with
    enabledTransceivers := r.enabledTransceivers ++ [transceiver]
    numEnabled := ← increment r.numEnabled }
  let updatedEnabledTransceiverBitmap := r.bitmap ||| Bitmap.bit (r.index transceiver).toNat
  -- this has to change the bitmap
  throwIf (updatedEnabledTransceiverBitmap = r.bitmap) (.transceiverAlreadyEnabled transceiver)
  let r := { r with bitmap := updatedEnabledTransceiverBitmap }
  r.checkTransceiversInvariants
  return r

/-- The enabled list without its first entry for a transceiver, by swapping with the last, and
whether there was one. -/
def removeEnabled (transceiver : Address) (xs : List Address) : List Address × Bool :=
  match xs.findIdx? (· == transceiver) with
  | some i => (xs.swapRemove i (xs.getLastD 0), true)
  | none => (xs, false)

/-- Disables a transceiver. -/
def removeTransceiver (transceiver : Address) (r : TransceiverRegistry) :
    Except Error TransceiverRegistry := do
  throwIf (transceiver = 0) .invalidTransceiverZeroAddress
  let info := r.transceiverInfos transceiver
  throwIf (info.registered = false) (.nonRegisteredTransceiver transceiver)
  throwIf (info.enabled = false) (.disabledTransceiver transceiver)
  let r := r.setInfo transceiver { info with enabled := false }
  let r := { r with numEnabled := ← decrement r.numEnabled }
  let updatedEnabledTransceiverBitmap := r.bitmap &&& ~~~ Bitmap.bit (r.index transceiver).toNat
  -- this has to change the bitmap
  assert (updatedEnabledTransceiverBitmap < r.bitmap)
  let r := { r with bitmap := updatedEnabledTransceiverBitmap }
  let (enabledTransceivers, removed) := removeEnabled transceiver r.enabledTransceivers
  let r := { r with enabledTransceivers }
  assert (removed = true)
  r.checkTransceiversInvariants
  r.checkTransceiverInvariants transceiver
  return r

end TransceiverRegistry

/-! ### The threshold -/

/-- The registry with the number of votes that a message needs. -/
structure Quorum where
  /-- The transceivers. -/
  registry : TransceiverRegistry
  /-- The threshold. -/
  threshold : UInt8

namespace Quorum

/-- A manager that was just deployed: no transceivers, and a threshold of zero. -/
def empty : Quorum := ⟨.empty, 0⟩

/-- Checks the threshold against the registry. -/
def checkThresholdInvariants (q : Quorum) : Except Error Unit := do
  throwIf (q.threshold > q.registry.numEnabled)
    (.thresholdTooHigh q.threshold q.registry.numEnabled)
  throwIf (q.registry.numRegistered > 0 ∧ q.threshold = 0) .zeroThreshold

/-- Enables a transceiver; the first one sets the threshold to one. -/
def setTransceiver (transceiver : Address) (q : Quorum) : Except Error Quorum := do
  let registry ← q.registry.setTransceiver transceiver
  let threshold := if q.threshold = 0 then 1 else q.threshold
  let q := { registry, threshold }
  checkThresholdInvariants q
  return q

/-- Disables a transceiver, and lowers the threshold to the number that is left. -/
def removeTransceiver (transceiver : Address) (q : Quorum) : Except Error Quorum := do
  let registry ← q.registry.removeTransceiver transceiver
  let numEnabledTransceivers := registry.numEnabled
  let threshold :=
    if numEnabledTransceivers < q.threshold then numEnabledTransceivers else q.threshold
  let q := { registry, threshold }
  checkThresholdInvariants q
  return q

/-- Sets the threshold. -/
def setThreshold (threshold : UInt8) (q : Quorum) : Except Error Quorum := do
  throwIf (threshold = 0) .zeroThreshold
  let q := { q with threshold }
  checkThresholdInvariants q
  return q

end Quorum

/-! ### Operations of the owner -/

/-- An operation of the owner on the registry and the threshold. -/
inductive RegistryOp where
  | setTransceiver (transceiver : Address)
  | removeTransceiver (transceiver : Address)
  | setThreshold (threshold : UInt8)
deriving DecidableEq, Repr

namespace RegistryOp

/-- What the contract does. -/
def apply (q : Quorum) : RegistryOp → Except Error Quorum
  | .setTransceiver a => q.setTransceiver a
  | .removeTransceiver a => q.removeTransceiver a
  | .setThreshold n => q.setThreshold n

/-- The quorum after an operation; a reverting one changes nothing. -/
def next (q : Quorum) (op : RegistryOp) : Quorum := (op.apply q).toOption.getD q

/-- The quorum after a sequence of operations. -/
def run (q : Quorum) : List RegistryOp → Quorum
  | [] => q
  | op :: ops => run (op.next q) ops

end RegistryOp

/-! ### Counting votes -/

theorem increment_eq_ok {x y : UInt8} : increment x = .ok y ↔ x.toNat < 255 ∧ x + 1 = y := by
  rw [increment]
  split <;> simp_all

/-- A round clears the lowest bit and counts it. -/
theorem countSetBitsWhile_body_eq_ok {v v' : CountSetBits} : countSetBitsWhile.body v = .ok v' ↔
    v.x ≠ 0 ∧ v.count.toNat < 255 ∧ ⟨v.x &&& (v.x - 1), v.count + 1⟩ = v' := by
  have hpos : 1 ≤ v.x.toNat ↔ v.x ≠ 0 := by
    rw [Nat.one_le_iff_ne_zero, ne_eq, ne_eq, ← UInt64.toNat_inj]
    rfl
  have hpred : 1 ≤ v.x.toNat → UInt64.ofNat (v.x.toNat - 1) = v.x - 1 := by
    intro h
    rw [UInt64.ofNat_sub h, UInt64.ofNat_toNat]
    rfl
  simp only [countSetBitsWhile, Except.bind_eq_ok, checkedSub_eq_ok, increment_eq_ok,
    Except.pure_eq_ok]
  constructor
  · rintro ⟨_, ⟨hle, rfl⟩, _, ⟨hcount, rfl⟩, rfl⟩
    exact ⟨hpos.mp hle, hcount, by rw [hpred hle]⟩
  · rintro ⟨hx, hcount, rfl⟩
    exact ⟨_, ⟨hpos.mpr hx, rfl⟩, _, ⟨hcount, rfl⟩, by rw [hpred (hpos.mpr hx)]⟩

/-- The loop ends after as many rounds as bits are set, with their number. -/
theorem countSetBitsWhile_run (x : UInt64) : ∃ count : UInt8,
    count.toNat = (Bitmap.members x).length ∧
      countSetBitsWhile.Run ⟨x, 0⟩ (Bitmap.members x).length ⟨0, count⟩ := by
  have hle := Bitmap.length_members_le x
  -- what is counted and what is left are the bits of `x`
  let I : CountSetBits → Prop := fun v =>
    v.count.toNat + (Bitmap.members v.x).length = (Bitmap.members x).length
  have hcondition : ∀ v, I v →
      (countSetBitsWhile.condition v = true ↔ 0 < (Bitmap.members v.x).length) := by
    intro v _
    rw [List.length_pos_iff, ne_eq, Bitmap.members_eq_nil]
    exact decide_eq_true_iff
  have hbody : ∀ v, I v → countSetBitsWhile.condition v = true →
      ∃ v', countSetBitsWhile.body v = .ok v' ∧ I v' ∧
        (Bitmap.members v'.x).length + 1 = (Bitmap.members v.x).length := by
    intro v hv hgo
    have hx : v.x ≠ 0 := of_decide_eq_true hgo
    have hlen : (Bitmap.members (v.x &&& (v.x - 1))).length + 1 =
        (Bitmap.members v.x).length := by
      rw [Bitmap.clear_lowest hx, List.length_tail, Nat.sub_add_cancel]
      exact List.length_pos_iff.mpr (mt Bitmap.members_eq_nil.mp hx)
    change v.count.toNat + (Bitmap.members v.x).length = _ at hv
    have hadd : (v.count + 1).toNat = v.count.toNat + 1 := UInt8.toNat_add_one (by omega)
    refine ⟨_, countSetBitsWhile_body_eq_ok.mpr ⟨hx, by omega, rfl⟩, ?_, hlen⟩
    change (v.count + 1).toNat + (Bitmap.members (v.x &&& (v.x - 1))).length = _
    omega
  obtain ⟨⟨y, count⟩, hrun, hcount, hnone⟩ :=
    Loop.exists_run hcondition hbody (s := ⟨x, 0⟩) (Nat.zero_add _)
  obtain rfl : y = 0 := Bitmap.members_eq_nil.mp (List.length_eq_zero_iff.mp hnone)
  exact ⟨count, hcount, hrun⟩

/-- With a round for each of the loop, `countSetBitsLoop` counts what it counts. Induction on the
run. -/
theorem countSetBitsLoop_of_run {v w : CountSetBits} {n rounds : ℕ}
    (h : countSetBitsWhile.Run v n w) (hn : n ≤ rounds) :
    countSetBitsLoop rounds v.x v.count = w.count := by
  induction h generalizing rounds with
  | @exit v hexit =>
      have hx : ¬ v.x ≠ 0 := of_decide_eq_false hexit
      cases rounds with
      | zero => rfl
      | succ rounds => rw [countSetBitsLoop, if_neg hx]
  | @round v v' w n hgo hbody _ ih =>
      obtain ⟨rounds, rfl⟩ : ∃ k, rounds = k + 1 := ⟨rounds - 1, by omega⟩
      have hx : v.x ≠ 0 := of_decide_eq_true hgo
      obtain ⟨-, -, rfl⟩ := countSetBitsWhile_body_eq_ok.mp hbody
      rw [countSetBitsLoop, if_pos hx]
      exact ih (by omega)

/-- `countSetBits` is the number of set bits. -/
theorem toNat_countSetBits (x : UInt64) :
    (countSetBits x).toNat = (Bitmap.members x).length := by
  obtain ⟨count, hcount, hrun⟩ := countSetBitsWhile_run x
  rw [← hcount, countSetBits]
  exact congrArg UInt8.toNat (countSetBitsLoop_of_run hrun (Bitmap.length_members_le x))

/-- The only run of the loop: one round for each bit, and `countSetBits` in the end. -/
theorem countSetBitsWhile_run_iff {x : UInt64} {n : ℕ} {v : CountSetBits} :
    countSetBitsWhile.Run ⟨x, 0⟩ n v ↔
      n = (Bitmap.members x).length ∧ v = ⟨0, countSetBits x⟩ := by
  obtain ⟨count, -, hrun⟩ := countSetBitsWhile_run x
  have hcount : countSetBits x = count :=
    countSetBitsLoop_of_run hrun (Bitmap.length_members_le x)
  rw [hcount]
  exact hrun.iff

end Ntt
