import Ntt.Solana.Accounts

/-!
# Requesting a Relay on Solana

The quoter program asks for a fee that covers gas and a gas dropoff on the target chain. Prices are
set independently of each other; the fee is computed from them in 64 bits, with multiplications that
are exact before they are divided, and additions that panic on overflow. The fee is held by the
account of the request, whose rent counts towards it.

The payer pays for the rent when the framework creates the account. That is the parameter `topUp`:
what is paid for an address that holds some lamports already.

## Main results

* `relayFee_eq_ok`: the fee is computed if and only if the exact computation stays in 64 bits, and is
  its result.
* `requestRelay_eq_ok`: the requests that succeed, and the lamports that they move.
* `request_relay_exact`: both, with the bounds and the monotonicity of what is charged.
-/

namespace Ntt.Solana

namespace NttQuoter

inductive NttQuoterError where
  | exceedsUserMaxFee
  | exceedsMaxGasDropoff
  | relayingToChainDisabled
  | outboxItemNotReleased
  | scalingOverflow
  | divByZero
  | priceCannotBeZero
deriving DecidableEq, Repr

/-- How a request fails: an error of the program, a check of the framework, an error of the manager
program's types, or a panic. -/
inductive QuoterError where
  | quoter (e : NttQuoterError)
  | accountNotInitialized
  | accountAlreadyInUse
  | insufficientFunds
  | ntt (e : NTTError)
  | panicked (msg : String)
deriving DecidableEq, Repr

/-- The account of the program, `Instance` in the source. -/
structure Instance where
  /-- In dollars a SOL, with 6 decimals. -/
  solPrice : UInt64
deriving DecidableEq, Repr

structure RegisteredChain where
  /-- In gwei. -/
  maxGasDropoff : UInt64
  /-- In dollars. -/
  basePrice : UInt64
  /-- In dollars for a native token of the chain. -/
  nativePrice : UInt64
  /-- In wei. -/
  gasPrice : UInt64
deriving DecidableEq, Repr

structure RegisteredNtt where
  wormholeTransceiverIndex : UInt8
  gasCost : UInt32
deriving DecidableEq, Repr

structure RequestRelayArgs where
  /-- In gwei. -/
  gasDropoff : UInt64
  /-- In lamports. -/
  maxFee : UInt64
deriving DecidableEq, Repr

/-- The accounts that are read: the instance, the registered chains and managers, and the outbox
item with the program that owns it. -/
structure RequestRelayAccounts where
  quoter : Instance
  registeredChains : UInt16 → Option RegisteredChain
  registeredNtts : Pubkey → Option RegisteredNtt
  outboxItem : OutboxItem
  outboxItemOwner : Pubkey

/-- The lamports of the payer and at the address of the request, and the request once it exists. -/
structure RelayState where
  payer : ℕ
  relayRequest : ℕ
  requestedGasDropoff : Option UInt64
deriving DecidableEq, Repr

def require (c : Prop) [Decidable c] (e : QuoterError) : Except QuoterError Unit :=
  if c then .ok () else .error e

def loadAccount {α : Type} : Option α → Except QuoterError α
  | some account => .ok account
  | none => .error .accountNotInitialized

def GWEI : UInt64 := 1000000000

def LAMPORTS_PER_SOL : UInt64 := 1000000000

/-- A multiplication in 128 bits, followed by a division. -/
def mulDiv (scalar numerator denominator : UInt64) : Except QuoterError UInt64 :=
  if denominator = 0 then .error (.quoter .divByZero)
  else if scalar = 0 ∨ numerator = 0 then .ok 0
  else
    let quotient := scalar.toNat * numerator.toNat / denominator.toNat
    if quotient < 2 ^ 64 then .ok (UInt64.ofNat quotient) else .error (.quoter .scalingOverflow)

/-- An addition with overflow checks. -/
def checkedAdd (a b : UInt64) : Except QuoterError UInt64 :=
  if a.toNat + b.toNat < 2 ^ 64 then .ok (a + b)
  else .error (.panicked "attempt to add with overflow")

def saturatingSub (a b : UInt64) : UInt64 := if a ≥ b then a - b else 0

/-- The relay fee, in lamports. -/
def relayFee (quoter : Instance) (registeredChain : RegisteredChain)
    (registeredNtt : RegisteredNtt) (gasDropoff : UInt64) : Except QuoterError UInt64 := do
  let gas ← mulDiv registeredChain.gasPrice registeredNtt.gasCost.toUInt64 GWEI
  let targetNativeInGwei ← checkedAdd gasDropoff gas
  let targetNativeInUsd ← mulDiv registeredChain.nativePrice targetNativeInGwei GWEI
  let totalInUsd ← checkedAdd targetNativeInUsd registeredChain.basePrice
  mulDiv totalInUsd LAMPORTS_PER_SOL quoter.solPrice

/-- Moves lamports from the payer to the address of the request. -/
def transfer (s : RelayState) (lamports : ℕ) : Except QuoterError RelayState := do
  require (lamports ≤ s.payer) .insufficientFunds
  return { s with payer := s.payer - lamports, relayRequest := s.relayRequest + lamports }

section

variable (rent : UInt64) (topUp : ℕ → ℕ) (accs : RequestRelayAccounts) (args : RequestRelayArgs)

/-- The constraints on the accounts. The outbox item has to be released by the Wormhole transceiver
of its manager. -/
def checkAccounts : Except QuoterError (RegisteredChain × RegisteredNtt) := do
  require (accs.quoter.solPrice ≠ 0) (.quoter .priceCannotBeZero)
  let registeredNtt ← loadAccount (accs.registeredNtts accs.outboxItemOwner)
  let released ← (accs.outboxItem.released.get registeredNtt.wormholeTransceiverIndex).mapError .ntt
  require released (.quoter .outboxItemNotReleased)
  let registeredChain ← loadAccount (accs.registeredChains accs.outboxItem.recipientChain.id)
  require (registeredChain.basePrice ≠ 0xFFFFFFFFFFFFFFFF) (.quoter .relayingToChainDisabled)
  return (registeredChain, registeredNtt)

/-- `init`: creates the account of the request. -/
def initRelayRequest (s : RelayState) : Except QuoterError RelayState := do
  require (s.requestedGasDropoff = none) .accountAlreadyInUse
  let s ← transfer s (topUp s.relayRequest)
  return { s with requestedGasDropoff := some 0 }

/-- Requests a relay. An error leaves everything as it was. -/
def requestRelay (s : RelayState) : Except QuoterError RelayState := do
  let (registeredChain, registeredNtt) ← checkAccounts accs
  let s ← initRelayRequest topUp s
  require (registeredChain.maxGasDropoff ≥ args.gasDropoff) (.quoter .exceedsMaxGasDropoff)
  let relayFeeInLamports ← relayFee accs.quoter registeredChain registeredNtt args.gasDropoff
  let feeMinusRent := saturatingSub relayFeeInLamports rent
  let totalFeeInLamports ← checkedAdd feeMinusRent rent
  require (args.maxFee ≥ totalFeeInLamports) (.quoter .exceedsUserMaxFee)
  let s := { s with requestedGasDropoff := some args.gasDropoff }
  if feeMinusRent > 0 then transfer s feeMinusRent.toNat else return s

end

/-! ### The exact computation -/

/-- The stages of the fee, over the natural numbers. -/
structure ExactFee where
  gas : ℕ
  targetNativeInGwei : ℕ
  targetNativeInUsd : ℕ
  totalInUsd : ℕ
  lamports : ℕ

def exactFee (quoter : Instance) (registeredChain : RegisteredChain)
    (registeredNtt : RegisteredNtt) (gasDropoff : UInt64) : ExactFee :=
  let gas := registeredChain.gasPrice.toNat * registeredNtt.gasCost.toNat / 10 ^ 9
  let targetNativeInGwei := gasDropoff.toNat + gas
  let targetNativeInUsd := registeredChain.nativePrice.toNat * targetNativeInGwei / 10 ^ 9
  let totalInUsd := targetNativeInUsd + registeredChain.basePrice.toNat
  let lamports := totalInUsd * 10 ^ 9 / quoter.solPrice.toNat
  { gas, targetNativeInGwei, targetNativeInUsd, totalInUsd, lamports }

/-- Every stage stays in 64 bits. -/
structure ExactFee.Fits (f : ExactFee) : Prop where
  gas : f.gas < 2 ^ 64
  targetNativeInGwei : f.targetNativeInGwei < 2 ^ 64
  targetNativeInUsd : f.targetNativeInUsd < 2 ^ 64
  totalInUsd : f.totalInUsd < 2 ^ 64
  lamports : f.lamports < 2 ^ 64

theorem require_eq_ok {c : Prop} [Decidable c] {e : QuoterError} {u : Unit} :
    require c e = .ok u ↔ c := by
  rw [require]
  by_cases h : c <;> simp [h]

theorem loadAccount_eq_ok {α : Type} {x : Option α} {a : α} :
    loadAccount x = .ok a ↔ x = some a := by
  cases x <;> simp [loadAccount]

/-- A multiplication is exact before it is divided. -/
theorem mulDiv_eq_ok {scalar numerator denominator x : UInt64} (h : denominator ≠ 0) :
    mulDiv scalar numerator denominator = .ok x ↔
      scalar.toNat * numerator.toNat / denominator.toNat = x.toNat := by
  have hx := x.toNat_lt
  rw [mulDiv, if_neg h]
  split
  · rename_i hzero
    have hprod : scalar.toNat * numerator.toNat = 0 := by
      rcases hzero with rfl | rfl
      · exact Nat.zero_mul _
      · exact Nat.mul_zero _
    rw [hprod, Nat.zero_div, Except.ok.injEq]
    exact ⟨fun h => h ▸ rfl, fun h => UInt64.toNat_inj.mp h⟩
  · dsimp only
    split
    · rename_i hlt
      rw [Except.ok.injEq, UInt64.ofNat_eq_iff_mod_eq_toNat, Nat.mod_eq_of_lt hlt]
    · refine ⟨fun h => (by cases h), fun h => ?_⟩
      omega

theorem checkedAdd_eq_ok {a b x : UInt64} :
    checkedAdd a b = .ok x ↔ a.toNat + b.toNat = x.toNat := by
  have hx := x.toNat_lt
  rw [checkedAdd]
  split
  · rename_i hlt
    rw [Except.ok.injEq]
    constructor
    · rintro rfl
      rw [UInt64.toNat_add, Nat.mod_eq_of_lt hlt]
    · intro h
      apply UInt64.toNat_inj.mp
      rw [UInt64.toNat_add, Nat.mod_eq_of_lt hlt, h]
  · refine ⟨fun h => (by cases h), fun h => ?_⟩
    omega

theorem toNat_saturatingSub (a b : UInt64) : (saturatingSub a b).toNat = a.toNat - b.toNat := by
  rw [saturatingSub]
  split
  · rename_i h
    rw [UInt64.toNat_sub_of_le _ _ h]
  · rename_i h
    have hlt := UInt64.lt_iff_toNat_lt.mp (UInt64.not_le.mp h)
    change 0 = _
    omega

theorem exists_toNat {n : ℕ} (h : n < 2 ^ 64) : ∃ x : UInt64, n = x.toNat :=
  ⟨UInt64.ofNat n, (UInt64.toNat_ofNat'.trans (Nat.mod_eq_of_lt h)).symm⟩

/-- **The fee is exact.** It is computed if and only if every stage of the exact computation stays in
64 bits. -/
theorem relayFee_eq_ok {quoter : Instance} {registeredChain : RegisteredChain}
    {registeredNtt : RegisteredNtt} {gasDropoff x : UInt64} (hprice : quoter.solPrice ≠ 0) :
    relayFee quoter registeredChain registeredNtt gasDropoff = .ok x ↔
      (exactFee quoter registeredChain registeredNtt gasDropoff).Fits ∧
        (exactFee quoter registeredChain registeredNtt gasDropoff).lamports = x.toNat := by
  have hgwei : GWEI ≠ 0 := by decide
  have hgas : registeredNtt.gasCost.toUInt64.toNat = registeredNtt.gasCost.toNat :=
    UInt32.toNat_toUInt64 _
  simp only [relayFee, Except.bind_eq_ok, mulDiv_eq_ok hgwei, mulDiv_eq_ok hprice,
    checkedAdd_eq_ok, hgas]
  constructor
  · rintro ⟨gas, h₁, gwei, h₂, usd, h₃, total, h₄, h₅⟩
    have hfee : exactFee quoter registeredChain registeredNtt gasDropoff =
        ⟨gas.toNat, gwei.toNat, usd.toNat, total.toNat, x.toNat⟩ := by
      rw [← h₅, ← h₄, ← h₃, ← h₂, ← h₁]
      rfl
    rw [hfee]
    exact ⟨⟨gas.toNat_lt, gwei.toNat_lt, usd.toNat_lt, total.toNat_lt, x.toNat_lt⟩, rfl⟩
  · rintro ⟨hfits, hlamports⟩
    obtain ⟨gas, h₁⟩ := exists_toNat hfits.gas
    obtain ⟨gwei, h₂⟩ := exists_toNat hfits.targetNativeInGwei
    obtain ⟨usd, h₃⟩ := exists_toNat hfits.targetNativeInUsd
    obtain ⟨total, h₄⟩ := exists_toNat hfits.totalInUsd
    refine ⟨gas, h₁, gwei, ?_, usd, ?_, total, ?_, ?_⟩
    · rw [← h₁, ← h₂]
      rfl
    · rw [← h₂, ← h₃]
      rfl
    · rw [← h₃, ← h₄]
      rfl
    · rw [← h₄, ← hlamports]
      rfl

/-! ### Requests -/

/-- The accounts satisfy the constraints. -/
structure RequestRelayAccounts.Pass (accs : RequestRelayAccounts)
    (registeredChain : RegisteredChain) (registeredNtt : RegisteredNtt) : Prop where
  price : accs.quoter.solPrice ≠ 0
  ntt : accs.registeredNtts accs.outboxItemOwner = some registeredNtt
  released : accs.outboxItem.released.get registeredNtt.wormholeTransceiverIndex = .ok true
  chain : accs.registeredChains accs.outboxItem.recipientChain.id = some registeredChain
  enabled : registeredChain.basePrice ≠ 0xFFFFFFFFFFFFFFFF

theorem checkAccounts_eq_ok {accs : RequestRelayAccounts} {registeredChain : RegisteredChain}
    {registeredNtt : RegisteredNtt} :
    checkAccounts accs = .ok (registeredChain, registeredNtt) ↔
      accs.Pass registeredChain registeredNtt := by
  simp only [checkAccounts, Except.bind_eq_ok, Except.pure_eq_ok, require_eq_ok,
    loadAccount_eq_ok, mapError_eq_ok, Prod.mk.injEq]
  constructor
  · rintro ⟨_, hprice, _, hntt, _, hget, _, rfl, _, hchain, _, henabled, rfl, rfl⟩
    exact ⟨hprice, hntt, hget, hchain, henabled⟩
  · rintro ⟨hprice, hntt, hreleased, hchain, henabled⟩
    exact ⟨(), hprice, _, hntt, true, hreleased, (), rfl, _, hchain, (), henabled, rfl, rfl⟩

theorem transfer_eq_ok {s s' : RelayState} {lamports : ℕ} :
    transfer s lamports = .ok s' ↔ lamports ≤ s.payer ∧ s' =
      { s with payer := s.payer - lamports, relayRequest := s.relayRequest + lamports } := by
  simp only [transfer, Except.bind_eq_ok, Except.pure_eq_ok, require_eq_ok]
  constructor
  · rintro ⟨_, hle, hs⟩
    exact ⟨hle, hs.symm⟩
  · rintro ⟨hle, hs⟩
    exact ⟨(), hle, hs.symm⟩

/-- Paying the fee moves nothing when it is zero. -/
theorem payFee_eq_ok {s s' : RelayState} {fee : UInt64} :
    (if fee > 0 then transfer s fee.toNat else (return s : Except QuoterError RelayState)) = .ok s' ↔
      fee.toNat ≤ s.payer ∧ s' =
        { s with payer := s.payer - fee.toNat, relayRequest := s.relayRequest + fee.toNat } := by
  split
  · exact transfer_eq_ok
  · rename_i h
    have hzero : fee.toNat = 0 := by
      have := UInt64.le_iff_toNat_le.mp (UInt64.not_lt.mp h)
      exact Nat.le_zero.mp this
    simp only [hzero, Except.pure_eq_ok, Nat.zero_le, true_and, Nat.sub_zero, Nat.add_zero]
    exact eq_comm

/-- What the payer is charged: what the framework takes for the account, and the fee on top of the
rent. -/
def charge (rent : UInt64) (topUp : ℕ → ℕ) (held fee : ℕ) : ℕ := topUp held + (fee - rent.toNat)

/-- **The requests that succeed.** They pass all checks, have a fee, and move the charge. -/
theorem requestRelay_eq_ok {rent : UInt64} {topUp : ℕ → ℕ} {accs : RequestRelayAccounts}
    {args : RequestRelayArgs} {s s' : RelayState} {registeredChain : RegisteredChain}
    {registeredNtt : RegisteredNtt} (hpass : accs.Pass registeredChain registeredNtt) {f : ExactFee}
    (hf : exactFee accs.quoter registeredChain registeredNtt args.gasDropoff = f) {c : ℕ}
    (hc : charge rent topUp s.relayRequest f.lamports = c) :
    requestRelay rent topUp accs args s = .ok s' ↔
      s.requestedGasDropoff = none ∧ c ≤ s.payer ∧
        args.gasDropoff.toNat ≤ registeredChain.maxGasDropoff.toNat ∧ f.Fits ∧
        max rent.toNat f.lamports ≤ args.maxFee.toNat ∧
        s' = ⟨s.payer - c, s.relayRequest + c, some args.gasDropoff⟩ := by
  subst hc
  have hcheck := checkAccounts_eq_ok.mpr hpass
  have hrent := rent.toNat_lt
  simp only [requestRelay, hcheck, initRelayRequest, Except.bind_eq_ok, Except.pure_eq_ok,
    require_eq_ok, transfer_eq_ok, relayFee_eq_ok hpass.price, checkedAdd_eq_ok, payFee_eq_ok,
    Except.ok.injEq]
  simp only [toNat_saturatingSub, charge]
  constructor
  · rintro ⟨_, rfl, _, ⟨_, hnew, _, ⟨htop, rfl⟩, rfl⟩, _, hmax, fee, ⟨hfits, hfee⟩, total, htotal, _,
      hle, hpay, rfl⟩
    dsimp only at hmax hfits hfee hpay ⊢
    rw [hf] at hfits hfee
    rw [← hfee] at htotal hpay ⊢
    have hle := UInt64.le_iff_toNat_le.mp hle
    refine ⟨hnew, by omega, UInt64.le_iff_toNat_le.mp hmax, hfits, by omega, ?_⟩
    rw [Nat.sub_sub, Nat.add_assoc]
  · rintro ⟨hnew, hpay, hmax, hfits, hle, rfl⟩
    obtain ⟨fee, hfee⟩ := exists_toNat hfits.lamports
    obtain ⟨total, htotal⟩ := exists_toNat (n := max rent.toNat f.lamports)
      (Nat.max_lt.mpr ⟨hrent, hfits.lamports⟩)
    refine ⟨_, rfl, _, ⟨(), hnew, _, ⟨by omega, rfl⟩, rfl⟩, (), UInt64.le_iff_toNat_le.mpr hmax, fee,
      ?_, total, ?_, (), UInt64.le_iff_toNat_le.mpr (by omega), ?_, ?_⟩
    · rw [hf]
      exact ⟨hfits, hfee⟩
    · omega
    · rw [← hfee]
      dsimp only
      omega
    · rw [← hfee, Nat.sub_sub, Nat.add_assoc]

/-- The amounts and prices that a fee is computed from, compared one by one under the same price of
SOL. -/
structure PricesLe (quoter quoter' : Instance) (chain chain' : RegisteredChain)
    (ntt ntt' : RegisteredNtt) (gasDropoff gasDropoff' : UInt64) : Prop where
  solPrice : quoter'.solPrice = quoter.solPrice
  gasDropoff : gasDropoff.toNat ≤ gasDropoff'.toNat
  gasPrice : chain.gasPrice.toNat ≤ chain'.gasPrice.toNat
  gasCost : ntt.gasCost.toNat ≤ ntt'.gasCost.toNat
  nativePrice : chain.nativePrice.toNat ≤ chain'.nativePrice.toNat
  basePrice : chain.basePrice.toNat ≤ chain'.basePrice.toNat

/-- The fee is monotone, stage by stage. -/
theorem PricesLe.lamports_le {quoter quoter' : Instance} {chain chain' : RegisteredChain}
    {ntt ntt' : RegisteredNtt} {gasDropoff gasDropoff' : UInt64}
    (h : PricesLe quoter quoter' chain chain' ntt ntt' gasDropoff gasDropoff') :
    (exactFee quoter chain ntt gasDropoff).lamports ≤
      (exactFee quoter' chain' ntt' gasDropoff').lamports := by
  have hgas := Nat.div_le_div_right (c := 10 ^ 9) (Nat.mul_le_mul h.gasPrice h.gasCost)
  have hgwei := Nat.add_le_add h.gasDropoff hgas
  have husd := Nat.div_le_div_right (c := 10 ^ 9) (Nat.mul_le_mul h.nativePrice hgwei)
  have htotal := Nat.add_le_add husd h.basePrice
  simp only [exactFee, h.solPrice]
  exact Nat.div_le_div_right (Nat.mul_le_mul_right _ htotal)

/-- **The charge is exact.** Let the accounts pass the constraints and the payer have enough
lamports. A request succeeds if and only if the exact computation stays in 64 bits, the dropoff is
allowed and the larger of rent and fee is at most the maximum fee. The charge is then this larger
amount, less what the address of the request held towards the rent; it is at most the maximum
fee, and it does not decrease when an amount or a price of the target chain rises. -/
theorem request_relay_exact {rent : UInt64} {topUp : ℕ → ℕ}
    (htopUp : ∀ held, topUp held = rent.toNat - held) {accs : RequestRelayAccounts}
    {args : RequestRelayArgs} {s : RelayState} {chain : RegisteredChain} {ntt : RegisteredNtt}
    (hpass : accs.Pass chain ntt) (hnew : s.requestedGasDropoff = none) :
    let fee := exactFee accs.quoter chain ntt args.gasDropoff
    (max rent.toNat fee.lamports ≤ s.payer →
      ((∃ s', requestRelay rent topUp accs args s = .ok s') ↔
        fee.Fits ∧ args.gasDropoff.toNat ≤ chain.maxGasDropoff.toNat ∧
          max rent.toNat fee.lamports ≤ args.maxFee.toNat)) ∧
    (∀ s', requestRelay rent topUp accs args s = .ok s' → ∃ charged,
      s'.payer + charged = s.payer ∧ s'.relayRequest = s.relayRequest + charged ∧
        charged + min s.relayRequest rent.toNat = max rent.toNat fee.lamports ∧
          charged ≤ args.maxFee.toNat) ∧
    ∀ accs₂ args₂ s₂ chain₂ ntt₂ s' s₂', RequestRelayAccounts.Pass accs₂ chain₂ ntt₂ →
      PricesLe accs.quoter accs₂.quoter chain chain₂ ntt ntt₂ args.gasDropoff args₂.gasDropoff →
      s₂.relayRequest = s.relayRequest →
      requestRelay rent topUp accs args s = .ok s' →
      requestRelay rent topUp accs₂ args₂ s₂ = .ok s₂' →
        s.payer - s'.payer ≤ s₂.payer - s₂'.payer := by
  intro fee
  refine ⟨fun hfunds => ?_, fun s' h => ?_, fun accs₂ args₂ s₂ chain₂ ntt₂ s' s₂' hpass₂ hle hheld
    h h₂ => ?_⟩
  · constructor
    · rintro ⟨s', h⟩
      obtain ⟨-, -, hmax, hfits, hle, -⟩ := (requestRelay_eq_ok hpass (f := fee) rfl rfl).mp h
      exact ⟨hfits, hmax, hle⟩
    · rintro ⟨hfits, hmax, hle⟩
      refine ⟨_, (requestRelay_eq_ok hpass (f := fee) rfl rfl).mpr ⟨hnew, ?_, hmax, hfits, hle, rfl⟩⟩
      rw [charge, htopUp]
      omega
  · obtain ⟨-, hpay, -, -, hle, rfl⟩ := (requestRelay_eq_ok hpass (f := fee) rfl rfl).mp h
    have hcharge : charge rent topUp s.relayRequest fee.lamports =
        rent.toNat - s.relayRequest + (fee.lamports - rent.toNat) := by rw [charge, htopUp]
    exact ⟨_, Nat.sub_add_cancel hpay, rfl, by omega, by omega⟩
  · obtain ⟨-, hpay, -, -, -, rfl⟩ := (requestRelay_eq_ok hpass (f := fee) rfl rfl).mp h
    obtain ⟨-, hpay₂, -, -, -, rfl⟩ := (requestRelay_eq_ok hpass₂ rfl rfl).mp h₂
    dsimp only
    rw [Nat.sub_sub_self hpay, Nat.sub_sub_self hpay₂, charge, charge, hheld]
    have hfee : fee.lamports ≤ _ := hle.lamports_le
    omega

/-- The rent of a request. -/
def sampleRent : UInt64 := 1002240

/-- The framework tops an address up to the rent. -/
def sampleTopUp (held : ℕ) : ℕ := sampleRent.toNat - held

/-- SOL at 100 dollars, and a chain with native tokens at 2000 dollars, gas at 20 gwei and a base
price of a quarter dollar. -/
def sampleAccounts : RequestRelayAccounts where
  quoter := ⟨100000000⟩
  registeredChains _ := some ⟨1000000000, 250000, 2000000000, 20000000000⟩
  registeredNtts _ := some ⟨0, 400000⟩
  outboxItem := ⟨⟨5, 8⟩, 1, ⟨2⟩, 3, 4, 0, ⟨1⟩⟩
  outboxItemOwner := 9

theorem sampleAccounts_pass : sampleAccounts.Pass
    ⟨1000000000, 250000, 2000000000, 20000000000⟩ ⟨0, 400000⟩ := by
  refine ⟨?_, rfl, ?_, rfl, ?_⟩ <;> decide +kernel

/-- 0.1625 SOL are charged for a request without dropoff. -/
theorem sample_request_relay_exact :
    ∃ s', requestRelay sampleRent sampleTopUp sampleAccounts ⟨0, 1000000000⟩
      ⟨2000000000, 0, none⟩ = .ok s' ∧ s'.payer + 162500000 = 2000000000 := by
  have h := @request_relay_exact sampleRent sampleTopUp (fun _ => rfl) sampleAccounts
    ⟨0, 1000000000⟩ ⟨2000000000, 0, none⟩ _ _ sampleAccounts_pass rfl
  obtain ⟨s', hs'⟩ := (h.1 (by decide +kernel)).mpr
    ⟨⟨by decide, by decide, by decide, by decide, by decide⟩, by decide, by decide +kernel⟩
  obtain ⟨charged, hpayer, -, hcharged, -⟩ := h.2.1 s' hs'
  have : charged = 162500000 := hcharged
  exact ⟨s', hs', this ▸ hpayer⟩

/-- A payer with the same request pays less when somebody has sent lamports to its address. -/
theorem prefunded_charged_less :
    ∃ s', requestRelay sampleRent sampleTopUp sampleAccounts ⟨0, 1000000000⟩
        ⟨2000000000, 1000000, none⟩ = .ok s' ∧ s'.payer + 161500000 = 2000000000 ∧
      max sampleRent.toNat (exactFee sampleAccounts.quoter
        ⟨1000000000, 250000, 2000000000, 20000000000⟩ ⟨0, 400000⟩ 0).lamports = 162500000 :=
  ⟨⟨1838500000, 162500000, some 0⟩, by decide +kernel, by decide, by decide +kernel⟩

end NttQuoter

end Ntt.Solana
