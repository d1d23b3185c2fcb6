/-
  The world state of a block, and net changes to it.

  A state is kept in canonical form: a slot whose value is zero has no entry.
  Code is also kept under its hash; that index is filled when an account is
  inserted and never pruned.
-/
import BlockExecution.State.Table
import BlockExecution.State.View

namespace BlockExecution

/-- The net effect of a transaction or a block. -/
structure StateChanges where
  /-- The new account at each changed address, none where the account was deleted. -/
  accounts : Table Address (Option Account) := ∅
  /-- The new value of each changed slot. -/
  storage : Table StorageKey Word := ∅

namespace StateChanges

/-- Whether nothing changes. -/
def isEmpty (c : StateChanges) : Bool := c.accounts.isEmpty && c.storage.isEmpty

/-- Whether the account at `address` is deleted. -/
def deletes (c : StateChanges) (address : Address) : Bool := c.accounts[address]? == some none

end StateChanges

/-- All accounts and storage at some block. -/
structure WorldState where
  accounts : Table Address Account := ∅
  storage : Table StorageKey Word := ∅
  /-- Code under its hash. -/
  contracts : Table Hash Bytes := ∅
  deriving DecidableEq

instance : EmptyCollection WorldState := ⟨{}⟩

namespace WorldState

/-! ## Building a state -/

/-- Puts an account at an address. -/
def insertAccount (s : WorldState) (address : Address) (account : Account) : WorldState :=
  { s with
    accounts := s.accounts.insert address account
    contracts :=
      if account.hasCode then s.contracts.insert account.codeHash account.code else s.contracts }

/-- Removes an account together with its storage. -/
def removeAccount (s : WorldState) (address : Address) : WorldState :=
  { s with
    accounts := s.accounts.erase address
    storage := s.storage.dropKeys (·.address == address) }

/-- Gives a slot its value. -/
def setStorage (s : WorldState) (key : StorageKey) (value : Word) : WorldState :=
  { s with
    storage := if value == 0 then s.storage.erase key else s.storage.insert key value }

/-! ## Reading a state -/

/-- The account at an address. -/
def account? (s : WorldState) (address : Address) : Option Account := s.accounts[address]?

/-- The value of a slot, zero if unset. -/
def storageValue (s : WorldState) (key : StorageKey) : Word := s.storage.getD key 0

/-- The balance at an address, zero if there is no account. -/
def balance (s : WorldState) (address : Address) : Word :=
  ((s.account? address).map (·.balance)).getD 0

/-- The number of accounts. -/
def size (s : WorldState) : Nat := s.accounts.size

/-- Whether there is no account. -/
def isEmpty (s : WorldState) : Bool := s.accounts.isEmpty

/-- A state as a view; no read fails. -/
def view (s : WorldState) : WorldView where
  account address := .ok (s.account? address)
  storage key := .ok (s.storageValue key)
  code codeHash := .ok s.contracts[codeHash]?

theorem readable_view (s : WorldState) : s.view.Readable :=
  ⟨fun _ => ⟨_, rfl⟩, fun _ => ⟨_, rfl⟩⟩

/-! ## Applying changes -/

/-- Gives an address its new account, or removes the one it has. -/
def applyAccount (s : WorldState) (address : Address) : Option Account → WorldState
  | some account => s.insertAccount address account
  | none => s.removeAccount address

/-- The state after `changes`. Slots of deleted accounts are left out. -/
def apply (s : WorldState) (changes : StateChanges) : WorldState :=
  changes.storage.foldl
    (fun s key value => if changes.deletes key.address then s else s.setStorage key value)
    (changes.accounts.foldl (fun s address account => s.applyAccount address account) s)

end WorldState

end BlockExecution
