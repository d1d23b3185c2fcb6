/-
  Running a transaction ahead of its turn.

  The transaction runs on an accumulator of its own over the state before the
  block. If it did not use the beneficiary itself, the entry that its reward
  made is dropped, since the reward is credited again at its turn.
-/
import BlockExecution.Speculation.Board
import BlockExecution.Speculation.Collision
import BlockExecution.State.Archive

namespace BlockExecution

/-- The context of a run that was watched; none if a read failed. -/
def SpeculativeContext.ofRun (index : Nat) (beneficiary : Address) (run : TracedRun) :
    Option SpeculativeContext :=
  match run.result with
  | .error _ => none
  | .ok result =>
    let world := run.world.commit
    some
      { index
        world := if run.trace.touched then world else world.forget beneficiary
        result
        reward := run.trace.reward
        beneficiaryTouched := run.trace.touched }

/-- The execution of a transaction on the state before its block. There is none if the head is
not the parent of the block, if the state of the parent is not kept, or if a read failed. -/
def Processor.speculate (p : Processor) (archive : Archive) (ctx : BlockContext) (index : Nat)
    (t : Transaction) : Option SpeculativeContext :=
  let parent := ctx.header.parentHash
  if archive.head ≠ parent then none
  else
    match archive.openState parent with
    | .error _ => none
    | .ok view =>
      SpeculativeContext.ofRun index ctx.beneficiary
        (p.processTraced ctx t Validation.full (Accumulator.ofView view))

/-- Starts a run over the transactions of a block and lets every task finish. Nothing happens
if a run was started before, or if the head is not the parent of the block. -/
def Board.speculateAll (b : Board SpeculativeContext) (p : Processor) (archive : Archive)
    (ctx : BlockContext) (transactions : List Transaction) : Board SpeculativeContext :=
  if b.run.isSome || archive.head ≠ ctx.header.parentHash then b
  else
    transactions.zipIdx.foldl
      (fun b (t, index) => b.runTask index (p.speculate archive ctx index t))
      (b.start transactions.length)

/-- Runs one transaction ahead, outside any run, and publishes what it found. -/
def Board.speculateOne (b : Board SpeculativeContext) (p : Processor) (archive : Archive)
    (ctx : BlockContext) (index : Nat) (t : Transaction) : Board SpeculativeContext :=
  match p.speculate archive ctx index t with
  | none => b
  | some context => b.publish index context

end BlockExecution
