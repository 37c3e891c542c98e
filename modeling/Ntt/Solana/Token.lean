import Ntt.Solana.Accounts

/-!
# The Token Program

The token program is not part of the repository. What its accounts hold and what its instructions
do to them is the parameter `TokenProgram`, over a type `L` of its accounts; what is documented of
it is `TokenProgram.Lawful`. A transfer can have a fee, which the destination does not receive.
-/

namespace Ntt.Solana

/-- An account as an instruction gets it. -/
structure AccountMeta where
  key : Pubkey
  isSigner : Bool
deriving DecidableEq, Repr

structure SplMultisig where
  /-- The number of signers that are required. -/
  m : UInt8
  signers : List Pubkey
deriving DecidableEq, Repr

/-- The token program: what its accounts hold, and what its instructions do to them. -/
structure TokenProgram (L : Type) where
  /-- The decimals of a mint. -/
  decimals : L → Pubkey → UInt8
  supply : L → Pubkey → UInt64
  mintAuthority : L → Pubkey → Option Pubkey
  /-- The mint of a token account. -/
  mint : L → Pubkey → Pubkey
  owner : L → Pubkey → Pubkey
  amount : L → Pubkey → UInt64
  multisig : L → Pubkey → Option SplMultisig
  /-- The associated token account of a wallet for a mint. -/
  associatedToken : Pubkey → Pubkey → Pubkey
  /-- From a source, of a mint, to a destination, by an authority. -/
  transferChecked : L → Pubkey → Pubkey → Pubkey → Pubkey → UInt64 → UInt8 → Except Error L
  /-- Of a mint, to an account, by an authority and its signers. -/
  mintTo : L → Pubkey → Pubkey → AccountMeta → List AccountMeta → UInt64 → Except Error L
  /-- From an account, of a mint, by an authority. -/
  burn : L → Pubkey → Pubkey → Pubkey → UInt64 → Except Error L
  /-- Whether an authority has signed, itself or by its signers. -/
  validateOwner : L → AccountMeta → List AccountMeta → Except Error Unit
  /-- Sets the mint authority of a mint, by the current one and its signers. -/
  setAuthority : L → Pubkey → AccountMeta → List AccountMeta → Pubkey → Except Error L

variable {L : Type}

/-- An instruction leaves the authorities of mints and the multisigs alone. -/
def TokenProgram.SameAuthorities (T : TokenProgram L) (l l' : L) : Prop :=
  T.mintAuthority l' = T.mintAuthority l ∧ T.multisig l' = T.multisig l

/-- What is documented of the token program. -/
structure TokenProgram.Lawful (T : TokenProgram L) : Prop where
  /-- A transfer takes the amount from its source, and the destination gets it less a fee. -/
  transferChecked : ∀ {l l' source mint destination authority amount decimals},
    T.transferChecked l source mint destination authority amount decimals = .ok l' →
      T.SameAuthorities l l' ∧ T.supply l' = T.supply l ∧ (source ≠ destination →
        (T.amount l source).toNat = (T.amount l' source).toNat + amount.toNat ∧
        ∃ fee ≤ amount.toNat, (T.amount l' destination).toNat + fee =
          (T.amount l destination).toNat + amount.toNat)
  mintTo : ∀ {l l' mint account authority signers amount},
    T.mintTo l mint account authority signers amount = .ok l' → T.SameAuthorities l l'
  /-- A burn takes the amount off the account and the supply. -/
  burn : ∀ {l l' account mint authority amount},
    T.burn l account mint authority amount = .ok l' → T.SameAuthorities l l' ∧
      (T.supply l mint).toNat = (T.supply l' mint).toNat + amount.toNat ∧
      (T.amount l account).toNat = (T.amount l' account).toNat + amount.toNat ∧
      ∀ other ≠ account, T.amount l' other = T.amount l other
  /-- Only the mint authority sets the mint authority. -/
  setAuthority : ∀ {l l' mint authority signers newAuthority},
    T.setAuthority l mint authority signers newAuthority = .ok l' →
      T.mintAuthority l mint = some authority.key ∧
      T.validateOwner l authority signers = .ok () ∧
      T.mintAuthority l' = Function.update (T.mintAuthority l) mint (some newAuthority) ∧
      T.multisig l' = T.multisig l

/-! ### A token program -/

/-- The accounts of one mint. -/
structure Ledger where
  decimals : UInt8
  supply : UInt64
  mintAuthority : Pubkey → Option Pubkey
  mint : Pubkey
  owner : Pubkey → Pubkey
  delegate : Pubkey → Option Pubkey
  amount : Pubkey → UInt64
  multisig : Pubkey → Option SplMultisig

namespace Ledger

variable (l : Ledger)

/-- The amounts after a transfer from a source to a destination. -/
def move (source destination : Pubkey) (amount : UInt64) : Ledger :=
  if source = destination then l
  else
    let debited := Function.update l.amount source (l.amount source - amount)
    { l with amount := Function.update debited destination (l.amount destination + amount) }

def transferChecked (source destination authority : Pubkey) (amount : UInt64) :
    Except Error Ledger := do
  require (l.owner source = authority ∨ l.delegate source = some authority) .external
  require (amount ≤ l.amount source) .external
  require (source ≠ destination → (l.amount destination).toNat + amount.toNat < 2 ^ 64) .external
  return l.move source destination amount

/-- An authority signs itself, or as many of its signers do as are required. -/
def validateOwner (authority : AccountMeta) (signers : List AccountMeta) : Except Error Unit :=
  match l.multisig authority.key with
  | none => require (authority.isSigner = true) .external
  | some multisig => require (multisig.m.toNat ≤ multisig.signers.countP fun key =>
      decide (⟨key, true⟩ ∈ signers)) .external

def mintTo (mint account : Pubkey) (authority : AccountMeta) (signers : List AccountMeta)
    (amount : UInt64) : Except Error Ledger := do
  require (l.mintAuthority mint = some authority.key) .external
  l.validateOwner authority signers
  require ((l.amount account).toNat + amount.toNat < 2 ^ 64) .external
  return { l with
    supply := l.supply + amount
    amount := Function.update l.amount account (l.amount account + amount) }

def burn (account authority : Pubkey) (amount : UInt64) : Except Error Ledger := do
  require (l.owner account = authority) .external
  require (amount ≤ l.amount account ∧ amount ≤ l.supply) .external
  return { l with
    supply := l.supply - amount
    amount := Function.update l.amount account (l.amount account - amount) }

def setAuthority (mint : Pubkey) (authority : AccountMeta) (signers : List AccountMeta)
    (newAuthority : Pubkey) : Except Error Ledger := do
  require (l.mintAuthority mint = some authority.key) .external
  l.validateOwner authority signers
  return { l with mintAuthority := Function.update l.mintAuthority mint (some newAuthority) }

end Ledger

/-- A token program without fees. -/
def TokenProgram.reference : TokenProgram Ledger where
  decimals l _ := l.decimals
  supply l _ := l.supply
  mintAuthority l := l.mintAuthority
  mint l _ := l.mint
  owner l := l.owner
  amount l := l.amount
  multisig l := l.multisig
  associatedToken wallet mint := wallet + mint
  transferChecked l source _ destination authority amount _ :=
    l.transferChecked source destination authority amount
  mintTo l := l.mintTo
  burn l account _ authority amount := l.burn account authority amount
  validateOwner l := l.validateOwner
  setAuthority l := l.setAuthority

theorem toNat_sub_add {a b : UInt64} (h : b ≤ a) : a.toNat = (a - b).toNat + b.toNat := by
  have hle := UInt64.le_iff_toNat_le.mp h
  rw [UInt64.toNat_sub_of_le _ _ h]
  omega

theorem TokenProgram.reference_lawful : reference.Lawful where
  transferChecked := by
    intro l l' source mint destination authority amount decimals h
    simp only [reference, Ledger.transferChecked, Except.bind_eq_ok, require_eq_ok,
      Except.pure_eq_ok] at h
    obtain ⟨_, -, _, hle, _, hfits, rfl⟩ := h
    rw [Ledger.move]
    split
    · rename_i heq
      exact ⟨⟨rfl, rfl⟩, rfl, fun hne => absurd heq hne⟩
    · rename_i hne
      refine ⟨⟨rfl, rfl⟩, rfl, fun _ => ⟨?_, 0, Nat.zero_le _, ?_⟩⟩
      · simp only [reference, Function.update_of_ne hne, Function.update_self]
        exact toNat_sub_add hle
      · simp only [reference, Function.update_self, UInt64.toNat_add, Nat.add_zero]
        exact Nat.mod_eq_of_lt (hfits hne)
  mintTo := by
    intro l l' mint account authority signers amount h
    simp only [reference, Ledger.mintTo, Except.bind_eq_ok, Except.pure_eq_ok] at h
    obtain ⟨_, -, _, -, _, -, rfl⟩ := h
    exact ⟨rfl, rfl⟩
  burn := by
    intro l l' account mint authority amount h
    simp only [reference, Ledger.burn, Except.bind_eq_ok, require_eq_ok, Except.pure_eq_ok] at h
    obtain ⟨_, -, _, ⟨hle, hsupply⟩, rfl⟩ := h
    refine ⟨⟨rfl, rfl⟩, toNat_sub_add hsupply, ?_, fun other hne => ?_⟩
    · simp only [reference, Function.update_self]
      exact toNat_sub_add hle
    · exact Function.update_of_ne hne ..
  setAuthority := by
    intro l l' mint authority signers newAuthority h
    simp only [reference, Ledger.setAuthority, Except.bind_eq_ok, require_eq_ok,
      Except.pure_eq_ok] at h
    obtain ⟨_, hcurrent, _, hsigned, rfl⟩ := h
    exact ⟨hcurrent, hsigned, rfl, rfl⟩

end Ntt.Solana
