/-
  The virtual machine, as far as the processor knows it.

  Which instructions a machine has and what they cost is no matter of the
  processor. All that it relies on is stated here: a machine is told of the
  transaction and its block, asks for state, and says what became of the
  transaction, of which accounts, and which frames it opened and closed. From
  this the reward is worked out, taken out of what is written back, and left to
  the caller.

  A machine may also fail for reasons of its own, which are neither refusals nor
  failed reads. Such failures are left out.
-/
import BlockExecution.Evm.Input
import BlockExecution.Evm.Observer
import BlockExecution.Evm.Query
import BlockExecution.Evm.StateDiff

namespace BlockExecution.Evm

/-! ## What a machine reports -/

/-- Why a machine stopped a transaction. -/
inductive Halt where
  | outOfGas
  | createCollision
  | outOfFunds
  /-- Any of the other reasons, which are not told apart. -/
  | other
  deriving DecidableEq

/-- What a stop means for the transaction. -/
def Halt.reason : Halt → FailureReason
  | .outOfGas => .outOfGas
  | .createCollision => .createCollision
  | .outOfFunds => .insufficientBalance
  | .other => .invalidInstruction

/-- How a transaction ended that ran. -/
inductive ExecutionResult where
  | success (gasUsed : U64) (logs : List Log)
  | revert (gasUsed : U64) (output : Bytes)
  | halt (gasUsed : U64) (why : Halt)
  deriving DecidableEq

namespace ExecutionResult

/-- The gas that is paid for. -/
def gasUsed : ExecutionResult → U64
  | .success gasUsed _ | .revert gasUsed _ | .halt gasUsed _ => gasUsed

/-- The result of the transaction. -/
def outcome : ExecutionResult → ProcessingResult
  | .success gasUsed logs => .successful gasUsed logs
  | .revert gasUsed output => .failed .revert gasUsed (some output)
  | .halt gasUsed why => .failed why.reason gasUsed none

end ExecutionResult

/-- Why a machine refuses to run a transaction, as a text: for a fault of the transaction or of the
header. -/
inductive Refusal where
  | transaction (text : String)
  | header (text : String)
  deriving DecidableEq

/-- The text of a refusal. -/
def Refusal.text : Refusal → String
  | .transaction text | .header text => text

/-- A transaction that ran. The diff holds the reward already. -/
structure EngineRun where
  result : ExecutionResult
  diff : StateDiff
  /-- The frames that were opened and closed, in order. -/
  events : List FrameEvent
  deriving DecidableEq

/-- A virtual machine. It learns of the state through the questions that it asks and in no other
way, and a failed read is the only way in which it does not answer. -/
abbrev Engine := Input → Reading (Except Refusal EngineRun)

/-! ## Processing -/

/-- Whether an address was loaded or used on an accumulator. -/
def isKnown (w : Accumulator) (address : Address) : Bool :=
  (w.accountUpdate? address).isSome || w.tracker.wasTouched address

/-- What the beneficiary is owed for the gas of a transaction. -/
def rewardFor (header : Header) (t : Transaction) (gasUsed : U64) : Word :=
  let tip : U128 := satSub (t.effectiveGasPrice header.basePrice) header.basePrice
  gasUsed.toWord * tip.toWord

/-- What is to be known of the beneficiary of a run when its diff is written back. -/
def EngineRun.payout (run : EngineRun) (ctx : BlockContext) (t : Transaction) : Payout where
  beneficiary := ctx.beneficiary
  used := touchedBeforeReward ctx.beneficiary run.events
  reward := rewardFor ctx.header t run.result.gasUsed

namespace Engine

/-- Everything of a transaction up to the reward. A beneficiary that was read for its reward alone
is forgotten again. -/
def settle (e : Engine) (config : ProcessorConfig) (ctx : BlockContext) (t : Transaction)
    (v : Validation) : Execution Settlement := do
  if v.verifySignature && config.verifySignatures && !t.isSignedBySender then
    return .rejected (.evm .invalidSignature)
  let known := isKnown (← get) ctx.beneficiary
  match ← (e (.of config ctx t v)).execute ctx.blockHash? with
  | .error refusal => return .rejected (.evm (.refused refusal.text))
  | .ok run =>
    let payout := run.payout ctx t
    run.diff.write config payout
    unless payout.used || known do
      modify (·.forget ctx.beneficiary)
    return ⟨run.result.outcome, some payout.reward⟩

/-- A virtual machine with its settings as a processor. -/
def processor (e : Engine) (config : ProcessorConfig) : Processor :=
  { config, settle := e.settle config }

end Engine

end BlockExecution.Evm
