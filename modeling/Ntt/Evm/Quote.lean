import Ntt.Evm.Runs

/-!
# The Price that is Quoted and the Price that is Charged

`quoteDeliveryPrice` and a transfer ask the same transceivers for the same prices, but bound
the instructions differently: the transfer by the number of registered transceivers, whose
indices the instructions use, the quote by the number of enabled ones. The two numbers agree
until a transceiver is disabled. From then on the quote refuses instructions, and reads past its
array, for transceivers that were registered late (`quote_fails`).

`quote_eq_charge_iff` says exactly when the quote is the charge.

## Main results

* `parseTransceiverInstructions_take`: parsing with a smaller bound.
* `quoteLoop_take`: asking for the prices with fewer instructions.
* `quote_eq_charge_iff`: the exact condition.
-/

namespace Ntt

open Reentrant

/-! ### Instructions -/

/-- The indices of the instructions from an offset on. -/
def indicesFrom (P : BytesParsing) (encoded : Bytes) : ℕ → ℕ → List ℕ
  | 0, _ => []
  | rounds + 1, offset =>
      let (instruction, offset) := parseTransceiverInstructionUnchecked P encoded offset
      instruction.index.toNat :: indicesFrom P encoded rounds offset

/-- The indices of the transceivers that the caller has instructions for. -/
def instructionIndices (P : BytesParsing) (encoded : Bytes) : List ℕ :=
  let (instructionsLength, offset) := P.asUint8Unchecked encoded 0
  indicesFrom P encoded instructionsLength.toNat offset

section

variable {P : BytesParsing} {encoded : Bytes} {n m : ℕ}

/-- Only indices below the bound are accepted. -/
theorem indicesFrom_lt {rounds i lastIndex offset : ℕ} {xs : List TransceiverInstruction}
    {r : List TransceiverInstruction × ℕ}
    (h : parseInstructionsLoop P encoded n rounds i lastIndex offset xs = .ok r) :
    ∀ j ∈ indicesFrom P encoded rounds offset, j < n := by
  induction rounds generalizing i lastIndex offset xs with
  | zero => simp [indicesFrom]
  | succ rounds ih =>
      simp only [parseInstructionsLoop, Except.bind_eq_ok, throwIf_eq_ok, ge_iff_le,
        not_le] at h
      obtain ⟨-, -, -, hlt, h⟩ := h
      intro j hj
      rcases List.mem_cons.mp hj with rfl | hj
      · exact hlt
      · exact ih h j hj

/-- The loop with a smaller bound fills the front of the array in the same way. -/
theorem parseInstructionsLoop_take {rounds i lastIndex offset : ℕ}
    {xs : List TransceiverInstruction} {r : List TransceiverInstruction × ℕ}
    (h : parseInstructionsLoop P encoded m rounds i lastIndex offset xs = .ok r)
    (hlt : ∀ j ∈ indicesFrom P encoded rounds offset, j < n) :
    parseInstructionsLoop P encoded n rounds i lastIndex offset (xs.take n) =
      .ok (r.1.take n, r.2) := by
  induction rounds generalizing i lastIndex offset xs with
  | zero =>
      obtain rfl := Except.ok.inj h
      rfl
  | succ rounds ih =>
      simp only [parseInstructionsLoop, Except.bind_eq_ok, throwIf_eq_ok, ge_iff_le,
        not_le] at h ⊢
      obtain ⟨_, hord, _, -, h⟩ := h
      refine ⟨(), hord, (), hlt _ List.mem_cons_self, ?_⟩
      rw [← List.take_set]
      exact ih h fun j hj => hlt j (List.mem_cons_of_mem _ hj)

/-- Only indices below the bound are accepted. -/
theorem instructionIndices_lt {xs : List TransceiverInstruction}
    (h : parseTransceiverInstructions P encoded n = .ok xs) :
    ∀ j ∈ instructionIndices P encoded, j < n := by
  simp only [parseTransceiverInstructions, Except.bind_eq_ok] at h
  obtain ⟨r, hloop, -⟩ := h
  exact indicesFrom_lt hloop

/-- Parsing with a smaller bound gives the front of the array, if the indices are below it. -/
theorem parseTransceiverInstructions_take (hnm : n ≤ m) {xs : List TransceiverInstruction}
    (h : parseTransceiverInstructions P encoded m = .ok xs)
    (hlt : ∀ j ∈ instructionIndices P encoded, j < n) :
    parseTransceiverInstructions P encoded n = .ok (xs.take n) := by
  simp only [parseTransceiverInstructions, Except.bind_eq_ok, Except.pure_eq_ok] at h ⊢
  obtain ⟨r, hloop, u, hcheck, rfl⟩ := h
  have hfront := parseInstructionsLoop_take hloop hlt
  rw [List.take_replicate, Nat.min_eq_left hnm] at hfront
  exact ⟨_, hfront, u, hcheck, rfl⟩

end

/-! ### Prices -/

/-- The answers of transceivers that ask fixed prices, to calls that ask for nothing else. -/
def askPrices (prices : Address → UInt16 → TransceiverInstruction → Except Error ℕ) :
    (x : Ext) → State → Unit → Except Error (x.Reply × State × Unit)
  | .quoteDeliveryPrice transceiver chain instruction, s, _ =>
      match prices transceiver chain instruction with
      | .ok price => .ok ((price : ℕ), s, ())
      | .error e => .error e
  | _, _, _ => .error .external

/-- Runs a program that asks for prices. -/
def ask {α : Type} (prices : Address → UInt16 → TransceiverInstruction → Except Error ℕ)
    (m : ManagerProg α) (s : State) : Except Error α :=
  match (m.run s).drive (askPrices prices) () with
  | .ok (a, _, _) => .ok a
  | .error e => .error e

section

variable {α β : Type} {prices : Address → UInt16 → TransceiverInstruction → Except Error ℕ}
  {s : State}

theorem ask_eq_ok {m : ManagerProg α} {a : α} : ask prices m s = .ok a ↔
    ∃ s', (m.run s).drive (askPrices prices) () = .ok (a, s', ()) := by
  rw [ask]
  cases (m.run s).drive (askPrices prices) () with
  | ok p => simp [Prod.ext_iff]
  | error e => simp

theorem ask_load (f : Storage → ManagerProg α) :
    ask prices (load >>= f) s = ask prices (f s.storage) s := rfl

theorem ask_liftExcept (x : Except Error β) (f : β → ManagerProg α) :
    ask prices (liftExcept x >>= f) s = x >>= fun b => ask prices (f b) s := by
  cases x <;> rfl

theorem ask_revertIf (c : Prop) [Decidable c] (e : Error) (f : Unit → ManagerProg α) :
    ask prices (revertIf c e >>= f) s = if c then .error e else ask prices (f ()) s := by
  by_cases h : c <;> simp [ask, run_revertIf, h, Res.drive]

theorem ask_map (m : ManagerProg β) (f : β → α) {a : α} :
    ask prices (m >>= fun b => pure (f b)) s = .ok a ↔ ∃ b, ask prices m s = .ok b ∧ f b = a := by
  simp only [ask_eq_ok, run_bind, Res.drive_bind, Except.bind_eq_ok, run_pure, Res.drive,
    Except.ok.injEq, Prod.mk.injEq]
  constructor
  · rintro ⟨s', ⟨b, s₁, u⟩, hm, rfl, rfl, -⟩
    exact ⟨b, ⟨s₁, hm⟩, rfl⟩
  · rintro ⟨b, ⟨s₁, hm⟩, rfl⟩
    exact ⟨s₁, _, hm, rfl, rfl, trivial⟩

end

namespace NttManager

variable {prices : Address → UInt16 → TransceiverInstruction → Except Error ℕ} {s : State}

theorem quoteTransceiver_drive (transceiver : Address) (chain : UInt16)
    (instruction : TransceiverInstruction) :
    ((quoteTransceiver transceiver chain instruction).run s).drive (askPrices prices) () =
      prices transceiver chain instruction >>= fun price => .ok (price, s, ()) := by
  change (Res.call (X := managerInterface) (Ext.quoteDeliveryPrice transceiver chain instruction) s
    fun price s' => .ret price s').drive (askPrices prices) () = _
  rw [Res.drive, askPrices]
  cases prices transceiver chain instruction <;> rfl

/-- One round of the loop over the transceivers. -/
theorem quoteLoop_drive (chain : UInt16) (instructions : List TransceiverInstruction)
    (transceiver : Address) (rest : List Address) (quotes : List ℕ) (total : ℕ)
    {r : (List ℕ × ℕ) × State × Unit} :
    ((quoteLoop chain instructions (transceiver :: rest) quotes total).run s).drive
        (askPrices prices) () = .ok r ↔
      ∃ instruction price total',
        instructions[(s.storage.registry.index transceiver).toNat]? = some instruction ∧
        prices transceiver chain instruction = .ok price ∧ checkedAdd total price = .ok total' ∧
        ((quoteLoop chain instructions rest (quotes ++ [price]) total').run s).drive
          (askPrices prices) () = .ok r := by
  simp only [quoteLoop, run_bind, run_load, Res.bind_ret, monadLift_eq_liftExcept, readAt]
  cases hi : instructions[(s.storage.registry.index transceiver).toNat]? with
  | none => simp [run_liftExcept_error, Res.drive]
  | some instruction =>
      rw [run_liftExcept_ok, Res.bind_ret, run_bind, Res.drive_bind, quoteTransceiver_drive]
      simp only [Except.bind_eq_ok, Except.ok.injEq, run_bind, Res.drive_bind,
        Option.some.injEq]
      constructor
      · rintro ⟨_, ⟨price, hprice, rfl⟩, ⟨total', _, _⟩, htotal, hrest⟩
        cases hadd : checkedAdd total price with
        | error e => rw [hadd] at htotal; cases htotal
        | ok n =>
            rw [hadd] at htotal
            cases htotal
            exact ⟨instruction, price, _, rfl, hprice, hadd, hrest⟩
      · rintro ⟨_, price, n, rfl, hprice, hadd, hrest⟩
        exact ⟨_, ⟨price, hprice, rfl⟩, _, by rw [hadd]; rfl, hrest⟩

/-- The loop reads the instructions at the indices of the transceivers. -/
theorem index_lt_of_quoteLoop {chain : UInt16} {instructions : List TransceiverInstruction}
    {transceivers : List Address} {quotes : List ℕ} {total : ℕ} {r : (List ℕ × ℕ) × State × Unit}
    (h : ((quoteLoop chain instructions transceivers quotes total).run s).drive
      (askPrices prices) () = .ok r) :
    ∀ a ∈ transceivers, (s.storage.registry.index a).toNat < instructions.length := by
  induction transceivers generalizing quotes total with
  | nil => simp
  | cons transceiver rest ih =>
      obtain ⟨instruction, price, total', hget, -, -, hrest⟩ := (quoteLoop_drive ..).mp h
      intro a ha
      rcases List.mem_cons.mp ha with rfl | ha
      · exact (List.getElem?_eq_some_iff.mp hget).1
      · exact ih hrest a ha

/-- The loop with the front of the instructions asks for the same prices, if the indices of the
transceivers are in it. -/
theorem quoteLoop_take {chain : UInt16} {instructions : List TransceiverInstruction}
    {transceivers : List Address} {quotes : List ℕ} {total n : ℕ}
    {r : (List ℕ × ℕ) × State × Unit}
    (h : ((quoteLoop chain instructions transceivers quotes total).run s).drive
      (askPrices prices) () = .ok r)
    (hlt : ∀ a ∈ transceivers, (s.storage.registry.index a).toNat < n) :
    ((quoteLoop chain (instructions.take n) transceivers quotes total).run s).drive
      (askPrices prices) () = .ok r := by
  induction transceivers generalizing quotes total with
  | nil => exact h
  | cons transceiver rest ih =>
      obtain ⟨instruction, price, total', hget, hprice, htotal, hrest⟩ := (quoteLoop_drive ..).mp h
      refine (quoteLoop_drive ..).mpr ⟨instruction, price, total', ?_, hprice, htotal, ?_⟩
      · rw [List.getElem?_take_of_lt (hlt _ List.mem_cons_self), hget]
      · exact ih hrest fun a ha => hlt a (List.mem_cons_of_mem _ ha)

variable (M : NttManager)

/-- The part of a transfer that parses the instructions and asks for the prices. -/
def transferQuote (recipientChain : UInt16) (transceiverInstructions : Bytes) :
    ManagerProg (List Address × List TransceiverInstruction × List ℕ × ℕ) := do
  let st ← load
  let enabledTransceivers := st.registry.enabledTransceivers
  revertIf (enabledTransceivers.length = 0) .noEnabledTransceivers
  let instructions ← parseTransceiverInstructions M.bytes transceiverInstructions
    st.registry.registeredTransceivers.length
  let (priceQuotes, totalPriceQuote) ←
    quoteLoop recipientChain instructions enabledTransceivers [] 0
  return (enabledTransceivers, instructions, priceQuotes, totalPriceQuote)

/-- A transfer charges what that part of it asks for. -/
theorem prepareForTransfer_eq (ctx : Context) (recipientChain : UInt16) (instructions : Bytes) :
    M.prepareForTransfer ctx recipientChain instructions = do
      let r ← M.transferQuote recipientChain instructions
      revertIf (ctx.value < r.2.2.2) (.deliveryPaymentTooLow r.2.2.2 ctx.value)
      if ctx.value - r.2.2.2 > 0 then
        refundToSender ctx (ctx.value - r.2.2.2)
      return r := by
  funext s
  change Prog.run _ s = Prog.run _ s
  simp only [transferQuote, run_bind, Res.bind_assoc, run_pure, Res.bind_ret]
  rfl

/-- When the quote succeeds. -/
theorem ask_quoteDeliveryPrice {chain : UInt16} {encoded : Bytes} {r : List ℕ × ℕ} :
    ask prices (M.quoteDeliveryPrice chain encoded) s = .ok r ↔
      ∃ xs, parseTransceiverInstructions M.bytes encoded
          s.storage.registry.enabledTransceivers.length = .ok xs ∧
        ask prices (quoteLoop chain xs s.storage.registry.enabledTransceivers [] 0) s = .ok r := by
  simp only [quoteDeliveryPrice, ask_load, monadLift_eq_liftExcept, ask_liftExcept,
    Except.bind_eq_ok]

/-- When the transfer gets past asking for the prices. -/
theorem ask_transferQuote {chain : UInt16} {encoded : Bytes}
    {r : List Address × List TransceiverInstruction × List ℕ × ℕ} :
    ask prices (M.transferQuote chain encoded) s = .ok r ↔
      s.storage.registry.enabledTransceivers ≠ [] ∧
      parseTransceiverInstructions M.bytes encoded
        s.storage.registry.registeredTransceivers.length = .ok r.2.1 ∧
      ask prices (quoteLoop chain r.2.1 s.storage.registry.enabledTransceivers [] 0) s =
        .ok r.2.2 ∧ r.1 = s.storage.registry.enabledTransceivers := by
  obtain ⟨transceivers, xs, quotes⟩ := r
  simp only [transferQuote, ask_load, monadLift_eq_liftExcept, ask_revertIf, ask_liftExcept,
    List.length_eq_zero_iff]
  by_cases hnil : s.storage.registry.enabledTransceivers = []
  · simp [hnil]
  · simp only [hnil, if_false, Except.bind_eq_ok, ask_map, Prod.mk.injEq, ne_eq, not_false_eq_true,
      true_and]
    constructor
    · rintro ⟨xs, hparse, q, hq, rfl, rfl, rfl⟩
      exact ⟨hparse, hq, rfl⟩
    · rintro ⟨hparse, hq, rfl⟩
      exact ⟨xs, hparse, _, hq, rfl, rfl, rfl⟩

/-- **Quote and charge.** After any history of the registry, when a transfer gets past parsing
its instructions and asking for the prices: the quote for the same arguments succeeds if and only
if every enabled transceiver and every instruction has an index below the number of enabled
transceivers, and then it is what the transfer charges. -/
theorem quote_eq_charge_iff {ops : List RegistryOp}
    (hs : s.storage.quorum = RegistryOp.run .empty ops) {chain : UInt16} {encoded : Bytes}
    {transceivers : List Address} {instructions : List TransceiverInstruction}
    {priceQuotes : List ℕ} {totalPriceQuote : ℕ}
    (h : ask prices (M.transferQuote chain encoded) s =
      .ok (transceivers, instructions, priceQuotes, totalPriceQuote)) :
    (ask prices (M.quoteDeliveryPrice chain encoded) s = .ok (priceQuotes, totalPriceQuote) ↔
      (∀ a ∈ s.storage.registry.enabledTransceivers, (s.storage.registry.index a).toNat <
        s.storage.registry.enabledTransceivers.length) ∧
      ∀ j ∈ instructionIndices M.bytes encoded,
        j < s.storage.registry.enabledTransceivers.length) ∧
    ∀ r, ask prices (M.quoteDeliveryPrice chain encoded) s = .ok r →
      r = (priceQuotes, totalPriceQuote) := by
  have hinv : s.storage.registry.Inv := by
    rw [Storage.registry, hs]
    exact (RegistryOp.run_spec .empty ops).1.registry
  obtain ⟨-, hparse, hloop, -⟩ := (M.ask_transferQuote).mp h
  obtain ⟨s', hloop⟩ := ask_eq_ok.mp hloop
  -- with the indices in bounds, the quote runs as the transfer does
  have hquote (hindex : ∀ a ∈ s.storage.registry.enabledTransceivers,
        (s.storage.registry.index a).toNat < s.storage.registry.enabledTransceivers.length)
      (hlt : ∀ j ∈ instructionIndices M.bytes encoded,
        j < s.storage.registry.enabledTransceivers.length) :
      ask prices (M.quoteDeliveryPrice chain encoded) s = .ok (priceQuotes, totalPriceQuote) :=
    (M.ask_quoteDeliveryPrice).mpr ⟨_, parseTransceiverInstructions_take hinv.enabled_le hparse hlt,
      ask_eq_ok.mpr ⟨s', quoteLoop_take hloop hindex⟩⟩
  -- and a quote that succeeds has them in bounds
  have hbounds (r : List ℕ × ℕ) (hr : ask prices (M.quoteDeliveryPrice chain encoded) s = .ok r) :
      (∀ a ∈ s.storage.registry.enabledTransceivers, (s.storage.registry.index a).toNat <
        s.storage.registry.enabledTransceivers.length) ∧
      ∀ j ∈ instructionIndices M.bytes encoded,
        j < s.storage.registry.enabledTransceivers.length := by
    obtain ⟨xs, hxs, hr⟩ := (M.ask_quoteDeliveryPrice).mp hr
    obtain ⟨s₁, hr⟩ := ask_eq_ok.mp hr
    have hlt := instructionIndices_lt hxs
    refine ⟨fun a ha => ?_, hlt⟩
    have := index_lt_of_quoteLoop hr a ha
    rw [parseTransceiverInstructions_take hinv.enabled_le hparse hlt] at hxs
    obtain rfl := Except.ok.inj hxs
    exact this.trans_le (List.length_take_le _ _)
  refine ⟨⟨hbounds _, fun hb => hquote hb.1 hb.2⟩, fun r hr => ?_⟩
  obtain ⟨hindex, hlt⟩ := hbounds r hr
  exact Except.ok.inj (hr.symm.trans (hquote hindex hlt))

/-- Two transceivers, the first of which was disabled again. -/
def sampleDisabled : List RegistryOp :=
  [.setTransceiver 0x71, .setTransceiver 0x72, .removeTransceiver 0x71]

/-- The prices of the two: ten times the last digit of the address. -/
def samplePrices (a : Address) (_ : UInt16) (_ : TransceiverInstruction) : Except Error ℕ :=
  .ok (if a = 0x71 then 10 else 20)

/-- The state of a manager with such a registry. -/
def sampleRegistry (ops : List RegistryOp) : State :=
  { sampleState with storage := { sampleState.storage with quorum := RegistryOp.run .empty ops } }

/-- With both enabled, the quote is the charge. -/
theorem sample_quote_eq_charge :
    ask samplePrices ((sample fun _ => sampleDigest).quoteDeliveryPrice 4 [0])
      (sampleRegistry [.setTransceiver 0x71, .setTransceiver 0x72]) = .ok ([10, 20], 30) := by
  generalize hs : sampleRegistry [.setTransceiver 0x71, .setTransceiver 0x72] = s
  have hquorum : s.storage.quorum =
      RegistryOp.run .empty [.setTransceiver 0x71, .setTransceiver 0x72] := by rw [← hs]; rfl
  have h : ask samplePrices ((sample fun _ => sampleDigest).transferQuote 4 [0]) s =
      .ok ([0x71, 0x72], [⟨0, []⟩, ⟨0, []⟩], [10, 20], 30) := by
    rw [← hs]
    decide +kernel
  have hlen : s.storage.registry.enabledTransceivers.length = 2 := by
    rw [← hs]
    decide +kernel
  have hindex : (s.storage.registry.enabledTransceivers.all fun a =>
      (s.storage.registry.index a).toNat < 2) = true := by
    rw [← hs]
    decide +kernel
  have hnone : instructionIndices (sample fun _ => sampleDigest).bytes [0] = [] := by
    decide +kernel
  refine (quote_eq_charge_iff _ hquorum h).1.mpr ⟨fun a ha => ?_, by simp [hnone]⟩
  rw [hlen]
  exact of_decide_eq_true (List.all_eq_true.mp hindex a ha)

/-- With the first disabled, the transfer charges 20, and there is no quote. -/
theorem quote_fails : (∃ r, ask samplePrices ((sample fun _ => sampleDigest).transferQuote 4 [0])
      (sampleRegistry sampleDisabled) = .ok r ∧ r.2.2.2 = 20) ∧
    ask samplePrices ((sample fun _ => sampleDigest).quoteDeliveryPrice 4 [0])
      (sampleRegistry sampleDisabled) = .error .indexOutOfBounds :=
  ⟨⟨([0x72], [⟨0, []⟩, ⟨0, []⟩], [20], 20), by decide +kernel, rfl⟩, by decide +kernel⟩

end NttManager

end Ntt
