/-
  The board on which background tasks publish what they found.

  A run has a claim flag for every index. The block claims an index before it
  takes what was published there. A task looks at its flag before it starts and
  again after it has published, and takes its own entry off the board if the
  index was claimed in between; so nothing stays behind for an index that the
  block has passed. Every operation here is one atomic step.
-/
import BlockExecution.State.Table

namespace BlockExecution

/-- Claim flags of the present run and published entries, by index. -/
structure Board (γ : Type) where
  /-- The number of tasks of the run; none before a run has started. -/
  run : Option Nat := none
  claimed : Table Nat Unit := ∅
  pending : Table Nat γ := ∅

namespace Board

variable {γ : Type}

/-- Starts the run of `tasks` tasks, unless one was started before. -/
def start (b : Board γ) (tasks : Nat) : Board γ :=
  if b.run.isSome then b else { b with run := some tasks }

/-! ## Steps of the block -/

/-- Sets the flag of an index, if the run has one. -/
def claim (b : Board γ) (index : Nat) : Board γ :=
  if b.run.any (index < ·) then { b with claimed := b.claimed.insert index () } else b

/-- What is published at an index. -/
def published? (b : Board γ) (index : Nat) : Option γ := b.pending[index]?

/-- Takes the entry of an index off the board. -/
def withdraw (b : Board γ) (index : Nat) : Board γ :=
  { b with pending := b.pending.erase index }

/-- Takes every entry off the board. -/
def clear (b : Board γ) : Board γ := { b with pending := ∅ }

/-- Claims an index and takes what is published there. -/
def take (b : Board γ) (index : Nat) : Option γ × Board γ :=
  let b := b.claim index
  (b.published? index, b.withdraw index)

/-- Claims every index and clears the board. -/
def cancel (b : Board γ) : Board γ :=
  ((List.range (b.run.getD 0)).foldl claim b).clear

/-! ## Steps of a task -/

/-- Whether the flag of an index is set. -/
def isClaimed (b : Board γ) (index : Nat) : Bool := b.claimed.contains index

/-- Publishes an entry. -/
def publish (b : Board γ) (index : Nat) (entry : γ) : Board γ :=
  { b with pending := b.pending.insert index entry }

/-- Takes the entry of a claimed index off again. -/
def recheck (b : Board γ) (index : Nat) : Board γ :=
  if b.isClaimed index then b.withdraw index else b

/-- The steps of a task without anything in between. -/
def runTask (b : Board γ) (index : Nat) (found : Option γ) : Board γ :=
  if b.isClaimed index then b
  else
    match found with
    | none => b
    | some entry => (b.publish index entry).recheck index

/-- The number of published entries. -/
def pendingCount (b : Board γ) : Nat := b.pending.size

end Board

end BlockExecution
