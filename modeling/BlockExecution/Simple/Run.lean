/-
  Running an instruction stream against the storage of a contract.
-/
import BlockExecution.Processing.Processor
import BlockExecution.Simple.Instruction

namespace BlockExecution.Simple

/-- How the body of a transaction ended. -/
structure BodyOutcome where
  gasUsed : U64
  /-- The logs, or why the body failed with the data of a revert. -/
  ending : Except (FailureReason × Option Bytes) (List Log)

/-- A body that failed and takes all gas. -/
def BodyOutcome.exhausted (gasLimit : U64) (reason : FailureReason) : BodyOutcome :=
  ⟨gasLimit, .error (reason, none)⟩

/-- The hash of the parent of the block that is being processed; zero if it is not known. -/
def parentHashWord (ctx : BlockContext) : Word :=
  if ctx.header.number = 0 then 0 else (ctx.blockHash? (ctx.header.number - 1)).getD 0

/-- Carries out one instruction on the storage of `contract` and gives its log entries. -/
def Instruction.perform (ctx : BlockContext) (contract : Address) (i : Instruction) :
    Execution (List Log) := do
  let key : StorageKey := ⟨contract, i.slot⟩
  match i.opcode with
  | .increment =>
    let value := (← Execution.slot key) + 1
    Execution.setSlot key value
    return [⟨contract, [i.slot], value.bytes⟩]
  | .read =>
    let _ ← Execution.slot key
    return []
  | .blockHash =>
    Execution.setSlot key (parentHashWord ctx)
    return []

/-- Carries out a stream, from `gasUsed` gas and the `logs` so far. A revert comes before the
cost of anything, an instruction is complete before it is paid for, and it is paid for before it
runs. -/
def runStream (ctx : BlockContext) (contract : Address) (gasLimit gasUsed : U64)
    (logs : List Log) (stream : Bytes) : Execution BodyOutcome :=
  match _h : Front.ofStream stream with
  | .finished => return ⟨gasUsed, .ok logs⟩
  | .revert data => return ⟨gasUsed, .error (.revert, some data)⟩
  | .malformed => return BodyOutcome.exhausted gasLimit .invalidInstruction
  | .instruction i rest => do
    let gasUsed := gasUsed + i.opcode.gas
    if gasLimit < gasUsed then return BodyOutcome.exhausted gasLimit .outOfGas
    let written ← i.perform ctx contract
    runStream ctx contract gasLimit gasUsed (logs ++ written) rest
  termination_by stream.length
  decreasing_by exact Front.rest_length_lt _h

end BlockExecution.Simple
