/-
  Why the slot processor refuses a transaction.
-/
import BlockExecution.Word

namespace BlockExecution.Simple

/-- A reason to refuse a transaction before anything of it runs. -/
inductive Rejection where
  | invalidSignature
  | wrongChainId (expected actual : U64)
  | maxFeeBelowBaseFee (maxFee baseFee : U128)
  | priorityFeeAboveMaxFee
  | blobCreation
  | intrinsicGasAboveLimit (intrinsic limit : U64)
  | nonceMismatch (expected actual : U64)
  | senderHasCode
  | insufficientBalance (balance cost : Word)
  deriving DecidableEq

/-- The text of a reason. -/
def Rejection.message : Rejection → String
  | .invalidSignature => "invalid signature"
  | .wrongChainId expected actual =>
    "wrong chain id: expected " ++ toString expected.toNat ++ ", got " ++ toString actual.toNat
  | .maxFeeBelowBaseFee maxFee baseFee =>
    "max fee per gas " ++ toString maxFee.toNat ++ " below base fee " ++ toString baseFee.toNat
  | .priorityFeeAboveMaxFee => "max priority fee per gas above max fee per gas"
  | .blobCreation => "blob transaction cannot create a contract"
  | .intrinsicGasAboveLimit intrinsic limit =>
    "intrinsic gas " ++ toString intrinsic.toNat ++ " exceeds gas limit " ++ toString limit.toNat
  | .nonceMismatch expected actual =>
    "nonce mismatch: expected " ++ toString expected.toNat ++ ", got " ++ toString actual.toNat
  | .senderHasCode => "sender is not an externally owned account"
  | .insufficientBalance balance cost =>
    "insufficient balance: have " ++ toString balance.toNat ++ ", need " ++ toString cost.toNat

end BlockExecution.Simple
