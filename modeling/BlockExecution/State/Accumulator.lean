/-
  Reads and writes on top of a view, with rollback.

  Every account and slot that is used is loaded once from the view and kept with
  two values: the one the view gave and the current one. The entries are the
  read set of an execution, and the entries whose two values differ are its
  write set. Each write also puts what it replaced on a journal; going back to a
  checkpoint takes writes off the journal and undoes them, newest first.

  A read of the view can fail. An operation that needs it then fails as a whole
  and leaves nothing behind.
-/
import BlockExecution.State.Touch
import BlockExecution.State.World

namespace BlockExecution

/-! ## Entries -/

/-- The value of an account in the view and now. -/
structure AccountUpdate where
  prior : Option Account
  updated : Option Account
  deriving DecidableEq

/-- The value of a slot in the view and now. -/
structure SlotUpdate where
  prior : Word
  updated : Word
  deriving DecidableEq

/-- An account as loaded. -/
def AccountUpdate.unchanged (prior : Option Account) : AccountUpdate := ⟨prior, prior⟩

/-- Whether an account differs from the view. -/
def AccountUpdate.isModified (u : AccountUpdate) : Bool := u.prior != u.updated

/-- A slot as loaded. -/
def SlotUpdate.unchanged (prior : Word) : SlotUpdate := ⟨prior, prior⟩

/-- Whether a slot differs from the view. -/
def SlotUpdate.isModified (u : SlotUpdate) : Bool := u.prior != u.updated

/-- What a write replaced. -/
inductive JournalEntry where
  | account (address : Address) (previous : Option Account)
  | slot (key : StorageKey) (previous : Word)
  deriving DecidableEq

/-- The address that a write belongs to. -/
def JournalEntry.address : JournalEntry → Address
  | .account address _ => address
  | .slot key _ => key.address

/-- A length of the journal to go back to. -/
structure Checkpoint where
  depth : Nat
  deriving DecidableEq

/-- The entries loaded from a view, the accesses to them, and the journal, newest write first. -/
structure Accumulator where
  base : WorldView
  accounts : Table Address AccountUpdate := ∅
  slots : Table StorageKey SlotUpdate := ∅
  tracker : TouchTracker := {}
  journal : List JournalEntry := []

namespace Accumulator

/-- Nothing loaded yet. -/
def ofView (base : WorldView) : Accumulator := { base }

/-! ## Loading -/

/-- The entry of an account, loaded if need be. -/
def loadAccount (w : Accumulator) (address : Address) :
    Except StateError (AccountUpdate × Accumulator) :=
  match w.accounts[address]? with
  | some entry => .ok (entry, w)
  | none =>
    match w.base.account address with
    | .error e => .error e
    | .ok prior =>
      let entry := AccountUpdate.unchanged prior
      .ok (entry, { w with accounts := w.accounts.insert address entry })

/-- The entry of a slot, loaded if need be. -/
def loadSlot (w : Accumulator) (key : StorageKey) :
    Except StateError (SlotUpdate × Accumulator) :=
  match w.slots[key]? with
  | some entry => .ok (entry, w)
  | none =>
    match w.base.storage key with
    | .error e => .error e
    | .ok prior =>
      let entry := SlotUpdate.unchanged prior
      .ok (entry, { w with slots := w.slots.insert key entry })

/-! ## Reads -/

/-- Notes an access to an account. -/
def noteAccount (w : Accumulator) (address : Address) (access : Access) : Accumulator :=
  { w with tracker := w.tracker.recordAccount address access }

/-- Notes an access to a slot. -/
def noteSlot (w : Accumulator) (key : StorageKey) (access : Access) : Accumulator :=
  { w with tracker := w.tracker.recordSlot key access }

/-- Reads an account. -/
def readAccount (w : Accumulator) (address : Address) :
    Except StateError (Option Account × Accumulator) :=
  match w.loadAccount address with
  | .error e => .error e
  | .ok (entry, w) => .ok (entry.updated, w.noteAccount address .read)

/-- Reads a slot. -/
def readSlot (w : Accumulator) (key : StorageKey) : Except StateError (Word × Accumulator) :=
  match w.loadSlot key with
  | .error e => .error e
  | .ok (entry, w) => .ok (entry.updated, w.noteSlot key .read)

/-! ## Writes -/

/-- Replaces an account by what `f` makes of it; none deletes it. -/
def writeAccount (w : Accumulator) (address : Address)
    (f : Option Account → Option Account) : Except StateError Accumulator :=
  match w.loadAccount address with
  | .error e => .error e
  | .ok (entry, w) =>
    let written := { w with
      accounts := w.accounts.insert address { entry with updated := f entry.updated }
      journal := .account address entry.updated :: w.journal }
    .ok (written.noteAccount address .write)

/-- Applies `f` to an account, starting from an empty one if there is none. -/
def updateAccount (w : Accumulator) (address : Address) (f : Account → Account) :
    Except StateError Accumulator :=
  w.writeAccount address fun current => some (f (current.getD {}))

/-- Adds to a balance, stopping at the largest one. -/
def increaseBalance (w : Accumulator) (address : Address) (amount : Word) :
    Except StateError Accumulator :=
  w.updateAccount address fun a => { a with balance := satAdd a.balance amount }

/-- Deletes an account. -/
def deleteAccount (w : Accumulator) (address : Address) : Except StateError Accumulator :=
  w.writeAccount address fun _ => none

/-- Reads an account and deletes it if it exists and is empty. -/
def deleteIfEmpty (w : Accumulator) (address : Address) : Except StateError Accumulator :=
  match w.readAccount address with
  | .error e => .error e
  | .ok (account, w) => if account.any (·.isEmpty) then w.deleteAccount address else .ok w

/-- Gives a slot its value. -/
def writeSlot (w : Accumulator) (key : StorageKey) (value : Word) :
    Except StateError Accumulator :=
  match w.loadSlot key with
  | .error e => .error e
  | .ok (entry, w) =>
    let written := { w with
      slots := w.slots.insert key { entry with updated := value }
      journal := .slot key entry.updated :: w.journal }
    .ok (written.noteSlot key .write)

/-! ## Rollback -/

/-- The present length of the journal. -/
def checkpoint (w : Accumulator) : Checkpoint := ⟨w.journal.length⟩

/-- Gives the entry of a write the value that the write replaced. An entry that is no longer
loaded stays so. -/
def undo (w : Accumulator) : JournalEntry → Accumulator
  | .account address previous =>
    { w with accounts := w.accounts.modify address fun u => { u with updated := previous } }
  | .slot key previous =>
    { w with slots := w.slots.modify key fun u => { u with updated := previous } }

/-- Undoes the newest `count` writes. -/
def undoNewest : Nat → Accumulator → Accumulator
  | 0, w => w
  | count + 1, w =>
    match w.journal with
    | [] => w
    | entry :: older => undoNewest count ({ w with journal := older }.undo entry)

/-- Undoes every write made since the checkpoint. Accesses stay noted. -/
def revertTo (w : Accumulator) (c : Checkpoint) : Accumulator :=
  undoNewest (w.journal.length - c.depth) w

/-- Makes all writes final. -/
def commit (w : Accumulator) : Accumulator := { w with journal := [] }

/-- Forgets everything about an address, as if it had never been used. -/
def forget (w : Accumulator) (address : Address) : Accumulator :=
  { w with
    accounts := w.accounts.erase address
    slots := w.slots.dropKeys (·.address == address)
    tracker := w.tracker.forget address
    journal := w.journal.filter fun entry => entry.address != address }

/-! ## Inspection -/

/-- The entry of an account, if it is loaded. -/
def accountUpdate? (w : Accumulator) (address : Address) : Option AccountUpdate :=
  w.accounts[address]?

/-- The entry of a slot, if it is loaded. -/
def slotUpdate? (w : Accumulator) (key : StorageKey) : Option SlotUpdate := w.slots[key]?

/-- The code with a hash, looked for among the loaded accounts and then in the view. -/
def codeByHash (w : Accumulator) (codeHash : Hash) : Except StateError Bytes :=
  if codeHash = keccakEmpty then .ok []
  else
    match w.accounts.values.findSome? fun u => u.updated.filter (·.codeHash == codeHash) with
    | some account => .ok account.code
    | none =>
      match w.base.code codeHash with
      | .error e => .error e
      | .ok (some code) => .ok code
      | .ok none => .error (.codeUnavailable codeHash)

/-- The net changes against the view. -/
def changes (w : Accumulator) : StateChanges where
  accounts := w.accounts.filterMap fun _ u => if u.isModified then some u.updated else none
  storage := w.slots.filterMap fun _ u => if u.isModified then some u.updated else none

end Accumulator

end BlockExecution
