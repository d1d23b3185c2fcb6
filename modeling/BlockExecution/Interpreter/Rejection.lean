/-
  Why the interpreter refuses a transaction.
-/
import BlockExecution.Word

namespace BlockExecution.Interpreter

/-- A reason to refuse a transaction before anything of it runs, in the order of the checks. -/
inductive Rejection where
  | invalidChainId
  | priorityFeeAboveMaxFee
  | gasPriceBelowBaseFee
  | blobVersion
  | gasLimitAboveBlock
  | initCodeTooLong
  | intrinsicGasAboveLimit (intrinsic limit : Nat)
  | senderHasCode
  | nonceTooHigh (transaction state : U64)
  | nonceTooLow (transaction state : U64)
  | paymentOverflow
  | lackOfFunds (balance cost : Word)
  deriving DecidableEq

/-- The text of a reason. -/
def Rejection.message : Rejection → String
  | .invalidChainId => "invalid chain ID"
  | .priorityFeeAboveMaxFee => "priority fee is greater than max fee"
  | .gasPriceBelowBaseFee => "gas price is less than basefee"
  | .blobVersion => "blob version not supported"
  | .gasLimitAboveBlock => "caller gas limit exceeds the block gas limit"
  | .initCodeTooLong => "create initcode size limit"
  | .intrinsicGasAboveLimit intrinsic limit =>
    "call gas cost (" ++ toString intrinsic ++ ") exceeds the gas limit (" ++ toString limit ++ ")"
  | .senderHasCode => "reject transactions from senders with deployed code"
  | .nonceTooHigh transaction state =>
    "nonce " ++ toString transaction.toNat ++ " too high, expected " ++ toString state.toNat
  | .nonceTooLow transaction state =>
    "nonce " ++ toString transaction.toNat ++ " too low, expected " ++ toString state.toNat
  | .paymentOverflow => "overflow payment in transaction"
  | .lackOfFunds balance cost =>
    "lack of funds (" ++ toString balance.toNat ++ ") for max fee (" ++ toString cost.toNat ++ ")"

end BlockExecution.Interpreter
