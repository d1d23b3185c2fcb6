/-
  Blocks, what a processed block yields, and why one is refused.
-/
import BlockExecution.Processing.Processor
import BlockExecution.State.Archive

namespace BlockExecution

/-- A header with its transactions in order. -/
structure Block where
  header : Header
  transactions : List Transaction

namespace Block

/-- The hash of a block is that of its header. -/
def hash (b : Block) : Hash := b.header.hash

/-- What the transactions of a block see of it on an archive. -/
def context (b : Block) (archive : Archive) : BlockContext where
  header := b.header
  beneficiary := b.header.beneficiary
  blockHash? := archive.blockHash?
  blobGasPrice := b.header.blobGasPrice

end Block

/-- The receipt of a transaction. -/
structure Receipt where
  successful : Bool
  /-- Gas of the block up to and including this transaction. -/
  cumulativeGasUsed : U64
  logs : List Log
  deriving DecidableEq

/-- How many transactions ended how. -/
structure Tally where
  successful : Nat := 0
  failed : Nat := 0
  /-- Taken over from speculation. -/
  parallelized : Nat := 0
  /-- Executed at their turn. -/
  replayed : Nat := 0
  deriving DecidableEq

namespace Tally

/-- The number of transactions. -/
def total (t : Tally) : Nat := t.successful + t.failed

/-- The share of transactions taken over from speculation. -/
def hitRate (t : Tally) : Float :=
  if t.total = 0 then 0.0 else t.parallelized.toUInt64.toFloat / t.total.toUInt64.toFloat

end Tally

/-- Why a transaction cannot stand in its block. -/
inductive TransactionFault where
  | gasAboveAvailable (limit available : U64)
  | rejected (reason : Rejection)
  deriving DecidableEq

/-- The text of a fault. -/
def TransactionFault.message : TransactionFault → String
  | .gasAboveAvailable limit available =>
    "gas limit " ++ toString limit.toNat ++ " exceeds available block gas "
      ++ toString available.toNat
  | .rejected reason => reason.message

/-- Why a block is refused. -/
inductive BlockError where
  | missingParentState (parent : Hash)
  | invalidTransaction (index : Nat) (fault : TransactionFault)
  | state (error : StateError)
  deriving DecidableEq

/-- The text of an error. -/
def BlockError.message : BlockError → String
  | .missingParentState parent => "state of parent block " ++ parent.text ++ " is unavailable"
  | .invalidTransaction index fault =>
    "transaction " ++ toString index ++ " is invalid: " ++ fault.message
  | .state error => error.message

/-- What a processed block yields. -/
structure BlockOutcome where
  blockHash : Hash
  state : WorldState
  /-- Net changes against the state of the parent. -/
  changes : StateChanges
  receipts : List Receipt
  gasUsed : U64
  tally : Tally

end BlockExecution
