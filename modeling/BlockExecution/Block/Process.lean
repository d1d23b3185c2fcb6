/-
  Processing a block in order.

  Each transaction is taken over from its speculative execution if there is one
  that stands, and executed at its turn otherwise. Which executions are finished
  in time is up to the schedule, so it is an argument; none are where the block
  is processed sequentially.
-/
import BlockExecution.Block.Basic
import BlockExecution.Speculation.Reconcile
import BlockExecution.Speculation.Speculate

namespace BlockExecution

/-- How far the processing of a block has come. -/
structure BlockProgress where
  world : Accumulator
  /-- Receipts so far, in order. -/
  receipts : List Receipt := []
  gasUsed : U64 := 0
  tally : Tally := {}
  metrics : Metrics := {}

/-- A computation over the progress of a block. What was reached is kept when it stops. -/
abbrev BlockExecutionStep (α : Type) := ExceptT BlockError (StateM BlockProgress) α

namespace BlockProgress

/-- Runs a computation on the block's accumulator. -/
def onWorld {α : Type} (x : Execution α) : BlockExecutionStep α := fun progress =>
  let (answer, world) := x.runOn progress.world
  (answer.mapError BlockError.state, { progress with world })

/-- Counts the source of a result. -/
def countSource (progress : BlockProgress) : Reconciliation → BlockProgress
  | .merged _ =>
    { progress with
      tally := { progress.tally with parallelized := progress.tally.parallelized + 1 } }
  | _ =>
    { progress with tally := { progress.tally with replayed := progress.tally.replayed + 1 } }

/-- Makes the writes of a transaction final and adds its receipt. -/
def addReceipt (progress : BlockProgress) (result : ProcessingResult) : BlockProgress :=
  let gasUsed := progress.gasUsed + result.gasUsed
  { progress with
    world := progress.world.commit
    gasUsed
    tally :=
      if result.isSuccessful then
        { progress.tally with successful := progress.tally.successful + 1 }
      else { progress.tally with failed := progress.tally.failed + 1 }
    receipts := progress.receipts ++ [⟨result.isSuccessful, gasUsed, result.logs⟩] }

end BlockProgress

/-- Processes the transaction at `index`, whose speculative execution is `speculative`. -/
def Processor.processNext (p : Processor) (ctx : BlockContext)
    (speculative : Option SpeculativeContext) (index : Nat) (t : Transaction) :
    BlockExecutionStep Unit := do
  -- The whole limit has to fit, whatever part of it will be used.
  let available := ctx.header.gasLimit - (← get).gasUsed
  if available < t.request.gasLimit then
    throw (.invalidTransaction index (.gasAboveAvailable t.request.gasLimit available))
  let reconciliation ← BlockProgress.onWorld (p.reconcile ctx.beneficiary t speculative)
  modify fun progress =>
    { progress.countSource reconciliation with metrics := progress.metrics.count reconciliation }
  let result ←
    match reconciliation with
    | .merged result => pure result
    | _ => BlockProgress.onWorld (p.process ctx t Validation.full)
  if let some reason := result.rejection? then
    throw (.invalidTransaction index (.rejected reason))
  modify (·.addReceipt result)

/-- Processes transactions in order. -/
def Processor.processAll (p : Processor) (ctx : BlockContext)
    (speculative : Nat → Transaction → Option SpeculativeContext) :
    Nat → List Transaction → BlockExecutionStep Unit
  | _, [] => pure ()
  | index, t :: rest => do
    p.processNext ctx (speculative index t) index t
    p.processAll ctx speculative (index + 1) rest

/-- How a block is processed. -/
inductive Schedule where
  /-- Every transaction is executed at its turn. -/
  | sequential
  /-- Executions run ahead; those at the indices for which `finished` holds are on the board at
  their turn. -/
  | parallel (finished : Nat → Bool)

/-- The speculative executions that are on the board at their turn. -/
def Schedule.speculative (s : Schedule) (p : Processor) (archive : Archive) (ctx : BlockContext)
    (index : Nat) (t : Transaction) : Option SpeculativeContext :=
  match s with
  | .sequential => none
  | .parallel finished => if finished index then p.speculate archive ctx index t else none

/-- A processed or refused block, with the metrics of its speculative executions. -/
structure BlockRun where
  outcome : Except BlockError BlockOutcome
  metrics : Metrics

/-- Processes a block on the state of its parent. -/
def Processor.processBlock (p : Processor) (archive : Archive) (block : Block)
    (schedule : Schedule) : BlockRun :=
  match archive.state? block.header.parentHash with
  | none => ⟨.error (.missingParentState block.header.parentHash), {}⟩
  | some parent =>
    let ctx := block.context archive
    let steps := p.processAll ctx (schedule.speculative p archive ctx) 0 block.transactions
    match steps.run.run { world := Accumulator.ofView parent.view } with
    | (.error e, progress) => ⟨.error e, progress.metrics⟩
    | (.ok (), progress) =>
      let changes := progress.world.changes
      let outcome : BlockOutcome :=
        { blockHash := block.hash
          state := parent.apply changes
          changes
          receipts := progress.receipts
          gasUsed := progress.gasUsed
          tally := progress.tally }
      ⟨.ok outcome, progress.metrics⟩

end BlockExecution
