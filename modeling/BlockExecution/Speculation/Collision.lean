/-
  Whether a speculative execution still stands when its turn comes.

  It ran on the state before the block, and so did the entries that it loaded.
  Another transaction got in its way exactly where a value that it used has
  since been modified in the block.
-/
import BlockExecution.Processing.Processor

namespace BlockExecution

/-- A finished speculative execution that waits for its turn. -/
structure SpeculativeContext where
  index : Nat
  /-- Reads and writes, relative to the state before the block. -/
  world : Accumulator
  result : ProcessingResult
  /-- What the beneficiary is owed. -/
  reward : Word
  /-- Whether the transaction used the beneficiary before the reward. -/
  beneficiaryTouched : Bool

/-- A value that was used and has been modified since. -/
inductive Collision where
  | account (address : Address)
  | slot (key : StorageKey)
  deriving DecidableEq

/-- The text of a collision. -/
def Collision.message : Collision → String
  | .account address => "account " ++ address.text
  | .slot key => "slot " ++ toString key.slot.toNat ++ " of " ++ key.address.text

/-- The addresses that a transaction may depend on, ascending: those that it names and those
that it accessed. -/
def Transaction.touchedAddresses (t : Transaction) (tracker : TouchTracker) : List Address :=
  ascending (t.namedAddresses ++ tracker.touchedAddresses)

namespace Accumulator

/-- Whether an account is loaded and differs from the view. -/
def modifiesAccount (w : Accumulator) (address : Address) : Bool :=
  (w.accountUpdate? address).any (·.isModified)

/-- Whether a slot is loaded and differs from the view. -/
def modifiesSlot (w : Accumulator) (key : StorageKey) : Bool :=
  (w.slotUpdate? key).any (·.isModified)

end Accumulator

namespace SpeculativeContext

/-- The first modified value at an address that the execution used. -/
def collisionAt (c : SpeculativeContext) (block : Accumulator) (address : Address) :
    Option Collision :=
  if block.modifiesAccount address then some (.account address)
  else
    ((c.world.tracker.touchedSlots address).map fun slot => (⟨address, slot⟩ : StorageKey)).find?
      block.modifiesSlot |>.map .slot

/-- The first value that the execution used and the block has modified. A beneficiary that only
the reward touched is passed over. -/
def collision (c : SpeculativeContext) (t : Transaction) (beneficiary : Address)
    (block : Accumulator) : Option Collision :=
  (t.touchedAddresses c.world.tracker).findSome? fun address =>
    if address = beneficiary ∧ !c.beneficiaryTouched then none else c.collisionAt block address

end SpeculativeContext

end BlockExecution
