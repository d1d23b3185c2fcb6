/-
  Processors of single transactions.

  A processor checks a transaction, charges for it and runs it. What it leaves
  to its caller is the reward of the beneficiary: between the run and the credit
  stands the moment at which a speculative execution looks whether the
  transaction itself used the beneficiary.
-/
import BlockExecution.Header
import BlockExecution.Processing.Result
import BlockExecution.State.Execution
import BlockExecution.Transaction

namespace BlockExecution

/-- Settings of a processor. -/
structure ProcessorConfig where
  chainId : U64 := 1
  /-- Check signatures where the validation asks for it. -/
  verifySignatures : Bool := true
  /-- Delete touched accounts that are empty. -/
  clearEmptyAccounts : Bool := true
  deriving DecidableEq

/-- Which checks a transaction is put through. -/
structure Validation where
  verifySignature : Bool := true
  checkNonce : Bool := true
  deriving DecidableEq

/-- All checks, as for a transaction of a block. -/
def Validation.full : Validation := {}

/-- What a transaction sees of its block. -/
structure BlockContext where
  header : Header
  beneficiary : Address
  /-- The hashes of earlier blocks by number. -/
  blockHash? : U64 → Option Hash
  blobGasPrice : Word

/-- A transaction that ran up to the reward. -/
structure Settlement where
  result : ProcessingResult
  /-- What the beneficiary is owed; none for a refused transaction. -/
  reward : Option Word

/-- A settlement of a refused transaction. -/
def Settlement.rejected (reason : Rejection) : Settlement := ⟨.invalid reason, none⟩

/-- A way to run single transactions. -/
structure Processor where
  config : ProcessorConfig
  /-- Everything up to the reward. -/
  settle : BlockContext → Transaction → Validation → Execution Settlement

/-! ## Reward -/

/-- What was seen of a transaction just before its reward. -/
structure RewardTrace where
  reward : Word := 0
  /-- Whether the transaction names, read or wrote the beneficiary. -/
  touched : Bool := false
  deriving DecidableEq

/-- Whether a transaction names an address or used it. -/
def Transaction.touches (t : Transaction) (tracker : TouchTracker) (address : Address) : Bool :=
  t.namedAddresses.contains address || tracker.wasTouched address

/-- What there is to see before a reward on the accumulator reached so far. -/
def RewardTrace.observe (t : Transaction) (beneficiary : Address) (reward : Word)
    (w : Accumulator) : RewardTrace :=
  ⟨reward, t.touches w.tracker beneficiary⟩

/-- Credits a reward. A reward of zero leaves the beneficiary alone where empty accounts are
deleted. -/
def Processor.creditReward (p : Processor) (beneficiary : Address) (reward : Word) :
    Execution Unit :=
  if reward != 0 || !p.config.clearEmptyAccounts then
    Execution.increaseBalance beneficiary reward
  else pure ()

/-- Credits the reward of a settlement and gives its result. -/
def Processor.finish (p : Processor) (beneficiary : Address) (s : Settlement) :
    Execution ProcessingResult := do
  if let some reward := s.reward then
    p.creditReward beneficiary reward
  return s.result

/-- Runs a transaction and credits its reward. -/
def Processor.process (p : Processor) (ctx : BlockContext) (t : Transaction) (v : Validation) :
    Execution ProcessingResult := do
  p.finish ctx.beneficiary (← p.settle ctx t v)

/-- The outcome of a run that was watched. -/
structure TracedRun where
  result : Except StateError ProcessingResult
  world : Accumulator
  trace : RewardTrace

/-- Runs a transaction, watches the moment before its reward, and credits the reward. -/
def Processor.processTraced (p : Processor) (ctx : BlockContext) (t : Transaction)
    (v : Validation) (w : Accumulator) : TracedRun :=
  match (p.settle ctx t v).runOn w with
  | (.error e, w) => ⟨.error e, w, {}⟩
  | (.ok s, w) =>
    let trace :=
      match s.reward with
      | some reward => RewardTrace.observe t ctx.beneficiary reward w
      | none => {}
    let (result, w) := (p.finish ctx.beneficiary s).runOn w
    ⟨result, w, trace⟩

end BlockExecution
