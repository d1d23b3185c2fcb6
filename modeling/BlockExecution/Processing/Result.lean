/-
  What became of a transaction.
-/
import BlockExecution.Bytes
import BlockExecution.Evm.Rejection
import BlockExecution.Simple.Rejection

namespace BlockExecution

/-- An entry that a contract writes to the log. -/
structure Log where
  address : Address
  topics : List Word
  data : Bytes
  deriving DecidableEq

/-- Why a transaction that was executed took no effect beyond its fee. -/
inductive FailureReason where
  | revert
  | outOfGas
  | insufficientBalance
  | createCollision
  | invalidInstruction
  deriving DecidableEq

/-- The text of a failure. -/
def FailureReason.message : FailureReason → String
  | .revert => "execution reverted"
  | .outOfGas => "out of gas"
  | .insufficientBalance => "insufficient balance for transfer"
  | .createCollision => "contract address collision"
  | .invalidInstruction => "invalid instruction"

/-- Why a transaction was refused before anything of it ran. -/
inductive Rejection where
  | simple (reason : Simple.Rejection)
  | evm (reason : Evm.Rejection)
  deriving DecidableEq

/-- The text of a refusal. -/
def Rejection.message : Rejection → String
  | .simple reason => reason.message
  | .evm reason => reason.message

/-- How a transaction ended. -/
inductive TransactionStatus where
  /-- It ran and all its effects are kept. -/
  | successful
  /-- It ran and its body was undone; fee and nonce stand. -/
  | failed (reason : FailureReason)
  /-- It was refused and touched nothing. -/
  | invalid (reason : Rejection)
  deriving DecidableEq

/-- The outcome of a transaction. -/
structure ProcessingResult where
  status : TransactionStatus
  gasUsed : U64 := 0
  logs : List Log := []
  revertReason : Option Bytes := none
  /-- Whether the outcome was taken over from a speculative execution. -/
  inParallel : Bool := false
  deriving DecidableEq

namespace ProcessingResult

/-- The outcome of a transaction whose effects are kept. -/
def successful (gasUsed : U64) (logs : List Log) : ProcessingResult :=
  { status := .successful, gasUsed, logs }

/-- The outcome of a transaction whose body was undone. -/
def failed (reason : FailureReason) (gasUsed : U64) (revertReason : Option Bytes) :
    ProcessingResult :=
  { status := .failed reason, gasUsed, revertReason }

/-- The outcome of a refused transaction. -/
def invalid (reason : Rejection) : ProcessingResult := { status := .invalid reason }

/-- Whether all effects are kept. -/
def isSuccessful (r : ProcessingResult) : Bool := r.status == .successful

/-- Why the transaction was refused, if it was. -/
def rejection? (r : ProcessingResult) : Option Rejection :=
  match r.status with
  | .invalid reason => some reason
  | _ => none

end ProcessingResult

end BlockExecution
