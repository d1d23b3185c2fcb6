/-
  Everything that can be done to an accumulator, as data.

  A step is an operation, a checkpoint, going back to a depth of the journal, a
  commit, forgetting an address, or taking over from another accumulator. Steps
  over a view lead from accumulators over it to such accumulators again.
-/
import BlockExecution.Proofs.State.Persistence

namespace BlockExecution

/-- What can be done to an accumulator. -/
inductive Step where
  | operation (op : Operation)
  | checkpoint
  | revertTo (c : Checkpoint)
  | commit
  | forget (address : Address)
  | importChanges (source : Accumulator)
  | importPrior (source : Accumulator)

/-- What a step answers. -/
inductive Answer where
  | reply (reply : Except StateError Reply)
  | checkpoint (c : Checkpoint)
  | done

/-- Whether what a step takes over from is an accumulator over the view. -/
def Step.Over (view : WorldView) : Step → Prop
  | .importChanges source | .importPrior source => Accumulator.Reached view source
  | _ => True

namespace Accumulator

variable {view : WorldView} {w : Accumulator}

/-- Performs a step. -/
def perform (w : Accumulator) : Step → Answer × Accumulator
  | .operation op =>
    let (reply, w') := op.execution.runOn w
    (.reply reply, w')
  | .checkpoint => (.checkpoint w.checkpoint, w)
  | .revertTo c => (.done, w.revertTo c)
  | .commit => (.done, w.commit)
  | .forget address => (.done, w.forget address)
  | .importChanges source => (.done, w.importChanges source)
  | .importPrior source => (.done, w.importPrior source)

/-- Performs steps one after the other: all answers, and the last accumulator. -/
def performSteps (w : Accumulator) : List Step → List Answer × Accumulator
  | [] => ([], w)
  | step :: rest =>
    let (answer, w') := w.perform step
    let (answers, last) := w'.performSteps rest
    (answer :: answers, last)

theorem Reached.perform (h : Reached view w) {step : Step} (hstep : step.Over view) :
    Reached view (w.perform step).2 := by
  cases step with
  | operation op => exact .operation h op
  | checkpoint => exact h
  | revertTo c => exact .revertTo h c
  | commit => exact .commit h
  | forget a => exact .forget h a
  | importChanges source => exact .importChanges h hstep
  | importPrior source => exact .importPrior h hstep

end Accumulator

end BlockExecution
