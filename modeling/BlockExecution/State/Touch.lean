/-
  Which accounts and slots an execution read or wrote.
-/
import BlockExecution.State.StorageKey
import BlockExecution.State.Table

namespace BlockExecution

/-- A kind of access. -/
inductive Access where
  | read
  | write
  deriving DecidableEq

/-- The accesses to one account or slot so far. -/
structure Touch where
  read : Bool := false
  written : Bool := false
  deriving DecidableEq

/-- Adds an access. -/
def Touch.record (t : Touch) : Access → Touch
  | .read => { t with read := true }
  | .write => { t with written := true }

/-- The accesses to all accounts and slots so far. -/
structure TouchTracker where
  accounts : Table Address Touch := ∅
  slots : Table StorageKey Touch := ∅

namespace TouchTracker

/-- Adds an access to an account. -/
def recordAccount (t : TouchTracker) (address : Address) (access : Access) : TouchTracker :=
  { t with accounts := t.accounts.alter address fun old => some ((old.getD {}).record access) }

/-- Adds an access to a slot. -/
def recordSlot (t : TouchTracker) (key : StorageKey) (access : Access) : TouchTracker :=
  { t with slots := t.slots.alter key fun old => some ((old.getD {}).record access) }

/-- Drops every record of an address and its slots. -/
def forget (t : TouchTracker) (address : Address) : TouchTracker where
  accounts := t.accounts.erase address
  slots := t.slots.dropKeys (·.address == address)

/-- The accesses to an account, none if there was no access to the account itself. -/
def account? (t : TouchTracker) (address : Address) : Option Touch := t.accounts[address]?

/-- Whether the account itself was read. -/
def wasRead (t : TouchTracker) (address : Address) : Bool :=
  (t.account? address).any (·.read)

/-- Whether the account itself was written. -/
def wasWritten (t : TouchTracker) (address : Address) : Bool :=
  (t.account? address).any (·.written)

/-- The slots of an address that were accessed, ascending. -/
def touchedSlots (t : TouchTracker) (address : Address) : List Word :=
  (t.slots.keys.filter (·.address == address)).map (·.slot)

/-- Whether the account or a slot of it was accessed. -/
def wasTouched (t : TouchTracker) (address : Address) : Bool :=
  t.accounts.contains address || t.slots.keys.any (·.address == address)

/-- Every address accessed, by itself or through a slot. -/
def touchedAddresses (t : TouchTracker) : List Address :=
  t.accounts.keys ++ t.slots.keys.map (·.address)

/-- Whether nothing was accessed. -/
def isEmpty (t : TouchTracker) : Bool := t.accounts.isEmpty && t.slots.isEmpty

end TouchTracker

/-- Addresses in ascending order, each once. -/
def ascending (addresses : List Address) : List Address :=
  (Std.ExtTreeMap.ofList (addresses.map fun a => (a, ())) compare).keys

end BlockExecution
