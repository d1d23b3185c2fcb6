/-
  Computations that read and write world state.

  A computation runs on an accumulator and may stop at a failed read of the
  view. The accumulator that was reached is kept in both cases, so the caller
  can still go back to a checkpoint.
-/
import BlockExecution.State.Accumulator

namespace BlockExecution

/-- A computation over an accumulator. -/
abbrev Execution (α : Type) := ExceptT StateError (StateM Accumulator) α

namespace Execution

/-- Runs a computation: what it answers, and the accumulator it reached. -/
def runOn {α : Type} (x : Execution α) (w : Accumulator) : Except StateError α × Accumulator := x w

/-- A step that leaves the accumulator alone when it fails. -/
def ofStep {α : Type} (f : Accumulator → Except StateError (α × Accumulator)) : Execution α :=
  fun w =>
    match f w with
    | .ok (a, w') => (.ok a, w')
    | .error e => (.error e, w)

/-- A step without an answer. -/
def ofWrite (f : Accumulator → Except StateError Accumulator) : Execution Unit :=
  ofStep fun w => (f w).map fun w' => ((), w')

/-- Reads an account. -/
def account (address : Address) : Execution (Option Account) := ofStep (·.readAccount address)

/-- Reads a slot. -/
def slot (key : StorageKey) : Execution Word := ofStep (·.readSlot key)

/-- Applies `f` to an account, starting from an empty one if there is none. -/
def updateAccount (address : Address) (f : Account → Account) : Execution Unit :=
  ofWrite (·.updateAccount address f)

/-- Adds to a balance, stopping at the largest one. -/
def increaseBalance (address : Address) (amount : Word) : Execution Unit :=
  ofWrite (·.increaseBalance address amount)

/-- Takes from a balance, stopping at zero. -/
def decreaseBalance (address : Address) (amount : Word) : Execution Unit :=
  updateAccount address fun a => { a with balance := satSub a.balance amount }

/-- Deletes an account. -/
def deleteAccount (address : Address) : Execution Unit := ofWrite (·.deleteAccount address)

/-- Reads an account and deletes it if it exists and is empty. -/
def deleteIfEmpty (address : Address) : Execution Unit := ofWrite (·.deleteIfEmpty address)

/-- Gives a slot its value. -/
def setSlot (key : StorageKey) (value : Word) : Execution Unit := ofWrite (·.writeSlot key value)

/-- The present checkpoint. -/
def checkpoint : Execution Checkpoint := do return (← get).checkpoint

/-- Undoes every write made since the checkpoint. -/
def revertTo (c : Checkpoint) : Execution Unit := modify (·.revertTo c)

end Execution

end BlockExecution
