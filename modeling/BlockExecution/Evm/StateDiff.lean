/-
  What a transaction made of the accounts it used, and writing it back.

  The reward of the beneficiary is part of what the machine computed but not of
  what is written: it is taken out again, and a beneficiary that the transaction
  itself did not use is left out altogether.
-/
import BlockExecution.Processing.Processor

namespace BlockExecution.Evm

/-- What a transaction made of an account. -/
structure AccountDiff where
  address : Address
  account : Account
  /-- Whether the account takes part in the outcome. -/
  touched : Bool := true
  destroyed : Bool := false
  /-- The slots whose values differ from before, with their new values. -/
  slots : List (Word × Word) := []
  deriving DecidableEq

/-- What a transaction made of all accounts it used. -/
abbrev StateDiff := List AccountDiff

/-! ## Writing back -/

/-- What is to be known of the beneficiary when a diff is written back. -/
structure Payout where
  beneficiary : Address
  /-- Whether the transaction used the beneficiary before the reward. -/
  used : Bool
  /-- The reward that is part of the beneficiary's balance. -/
  reward : Word
  deriving DecidableEq

namespace AccountDiff

/-- Whether an account is written back. -/
def isWritten (d : AccountDiff) (p : Payout) : Bool :=
  d.touched && (p.used || d.address != p.beneficiary)

/-- The balance without the reward. -/
def balanceBeforeReward (d : AccountDiff) (p : Payout) : Word :=
  if d.address = p.beneficiary then satSub d.account.balance p.reward else d.account.balance

/-- An account with the nonce, balance and code of the diff. Code is replaced only with its
hash. -/
def applyTo (d : AccountDiff) (p : Payout) (current : Account) : Account :=
  { nonce := d.account.nonce
    balance := d.balanceBeforeReward p
    codeHash := d.account.codeHash
    code := if current.codeHash = d.account.codeHash then current.code else d.account.code }

/-- Writes what became of an account. -/
def write (config : ProcessorConfig) (p : Payout) (d : AccountDiff) : Execution Unit := do
  if d.isWritten p then
    if d.destroyed then Execution.deleteAccount d.address
    else
      Execution.updateAccount d.address (d.applyTo p)
      d.slots.forM fun (slot, value) => Execution.setSlot ⟨d.address, slot⟩ value
      if config.clearEmptyAccounts then Execution.deleteIfEmpty d.address

end AccountDiff

/-- Writes what became of all accounts. -/
def StateDiff.write (config : ProcessorConfig) (p : Payout) (diff : StateDiff) : Execution Unit :=
  diff.forM (AccountDiff.write config p)

end BlockExecution.Evm
