/-
  Read-only views of the world state, and why a read can fail.
-/
import BlockExecution.Account
import BlockExecution.Address
import BlockExecution.State.StorageKey

namespace BlockExecution

/-- Why the state behind a view cannot be read. -/
inductive StateError where
  /-- No state is kept for a block. -/
  | stateUnavailable (block : Hash)
  /-- No block of this number is known. -/
  | blockHashUnavailable (number : U64)
  /-- No account holds code with this hash. -/
  | codeUnavailable (codeHash : Hash)
  deriving DecidableEq

/-- The text of a failure. -/
def StateError.message : StateError → String
  | .stateUnavailable block => "world state for block " ++ block.text ++ " is unavailable"
  | .blockHashUnavailable number =>
    "block hash for block " ++ toString number.toNat ++ " is unavailable"
  | .codeUnavailable codeHash => "code for hash " ++ codeHash.text ++ " is unavailable"

/-- What can be read of the world state at some block. Each read may fail. -/
structure WorldView where
  /-- The account at an address, none if it does not exist. -/
  account : Address → Except StateError (Option Account)
  /-- The value of a slot, zero if unset. -/
  storage : StorageKey → Except StateError Word
  /-- The code with a hash, none if no account holds it. -/
  code : Hash → Except StateError (Option Bytes)

/-- Every read of an account or a slot succeeds. -/
def WorldView.Readable (v : WorldView) : Prop :=
  (∀ address, ∃ account, v.account address = .ok account) ∧
    ∀ key, ∃ value, v.storage key = .ok value

end BlockExecution
