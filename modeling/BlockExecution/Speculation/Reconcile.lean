/-
  Taking a speculative execution into the block at its turn.
-/
import BlockExecution.Speculation.Collision
import BlockExecution.State.Import

namespace BlockExecution

/-- What became of the speculative execution of a transaction. -/
inductive Reconciliation where
  /-- There was none. -/
  | missing
  /-- It stands, and its changes are part of the block now. -/
  | merged (result : ProcessingResult)
  /-- It does not stand; only what it read is kept. -/
  | discarded

/-- How often speculative executions stood. -/
structure Metrics where
  confirmed : Nat := 0
  conflicting : Nat := 0
  deriving DecidableEq

/-- The counts of two runs together. -/
def Metrics.add (a b : Metrics) : Metrics :=
  ⟨a.confirmed + b.confirmed, a.conflicting + b.conflicting⟩

/-- Counts one more. -/
def Metrics.count (m : Metrics) : Reconciliation → Metrics
  | .missing => m
  | .merged _ => { m with confirmed := m.confirmed + 1 }
  | .discarded => { m with conflicting := m.conflicting + 1 }

/-- Whether an execution was successful and collides with nothing. -/
def SpeculativeContext.stands (c : SpeculativeContext) (t : Transaction) (beneficiary : Address)
    (block : Accumulator) : Bool :=
  (c.collision t beneficiary block).isNone && c.result.isSuccessful

/-- Brings the execution of a transaction, if there is one, into the block. If it stands, its
reward is credited and then its changes are taken over. -/
def Processor.reconcile (p : Processor) (beneficiary : Address) (t : Transaction)
    (context : Option SpeculativeContext) : Execution Reconciliation := do
  match context with
  | none => return .missing
  | some c =>
    if c.stands t beneficiary (← get) then
      p.creditReward beneficiary c.reward
      modify (·.importChanges c.world)
      return .merged { c.result with inParallel := true }
    else
      modify (·.importPrior c.world)
      return .discarded

end BlockExecution
