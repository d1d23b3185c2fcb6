/-
  World states by block, the chain head, and block hashes by number.

  A state is kept under the hash of its block until it is pruned. The index of
  block hashes by number keeps the block that was persisted last at each number;
  moving the head and pruning leave it alone.
-/
import BlockExecution.Header
import BlockExecution.State.World

namespace BlockExecution

/-- The states of a chain of blocks. -/
structure Archive where
  states : Table Hash WorldState := ∅
  canonical : Table U64 Hash := ∅
  /-- The hash of the block on top of the chain. -/
  head : Hash := 0

namespace Archive

/-- Keeps the state that the block of `header` produced and makes that block the head. -/
def persist (a : Archive) (header : Header) (state : WorldState) : Archive where
  states := a.states.insert header.hash state
  canonical := a.canonical.insert header.number header.hash
  head := header.hash

/-- An archive whose head is its only block. -/
def ofGenesis (header : Header) (state : WorldState) : Archive :=
  ({} : Archive).persist header state

/-- Moves the head. -/
def setHead (a : Archive) (hash : Hash) : Archive := { a with head := hash }

/-- Drops the state of a block. -/
def prune (a : Archive) (hash : Hash) : Archive := { a with states := a.states.erase hash }

/-- The state of a block. -/
def state? (a : Archive) (hash : Hash) : Option WorldState := a.states[hash]?

/-- Opens the state of a block. -/
def openState (a : Archive) (hash : Hash) : Except StateError WorldView :=
  match a.state? hash with
  | some state => .ok state.view
  | none => .error (.stateUnavailable hash)

/-- The hash of the block persisted last at a number. -/
def blockHash? (a : Archive) (number : U64) : Option Hash := a.canonical[number]?

end Archive

end BlockExecution
