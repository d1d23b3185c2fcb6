/-
  Why a transaction is refused that was to run on the virtual machine.
-/
import BlockExecution.Word

namespace BlockExecution.Evm

/-- A reason to refuse a transaction before anything of it runs. -/
inductive Rejection where
  | invalidSignature
  /-- The machine refused it, with this text. -/
  | refused (text : String)
  deriving DecidableEq

/-- The text of a reason. -/
def Rejection.message : Rejection → String
  | .invalidSignature => "invalid signature"
  | .refused text => text

end BlockExecution.Evm
