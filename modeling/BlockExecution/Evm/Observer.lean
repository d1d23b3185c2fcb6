/-
  An observer of frames.

  It is told of every frame that opens and closes, and notes whether the
  beneficiary is loaded when the outermost one closes. The reward is credited
  after that, so a beneficiary that is loaded by then was used by the transaction
  itself.
-/
import BlockExecution.Account
import BlockExecution.Address

namespace BlockExecution.Evm

/-- What an observer is told of. -/
inductive FrameEvent where
  | opened
  /-- A frame closed, and these accounts are loaded by then. -/
  | closed (loaded : List Address)
  deriving DecidableEq

/-- An observer of whether a beneficiary is used. -/
structure Observer where
  beneficiary : Address
  /-- How many frames are open. -/
  depth : Nat := 0
  /-- Whether the beneficiary was loaded when the last outermost frame closed. -/
  touched : Bool := false

namespace Observer

/-- Takes note of an event. -/
def observe (o : Observer) : FrameEvent → Observer
  | .opened => { o with depth := o.depth + 1 }
  | .closed loaded =>
    { o with
      depth := o.depth - 1
      touched := if o.depth - 1 = 0 then loaded.contains o.beneficiary else o.touched }

/-- Takes note of events in order. -/
def watch (o : Observer) (events : List FrameEvent) : Observer := events.foldl observe o

end Observer

/-- Whether the beneficiary was loaded when the outermost frame closed. -/
def touchedBeforeReward (beneficiary : Address) (events : List FrameEvent) : Bool :=
  (Observer.watch { beneficiary } events).touched

end BlockExecution.Evm
