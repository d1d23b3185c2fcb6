/-
  A small processor: fees, nonces, transfers, creations, and contracts whose
  calls carry a stream of storage instructions.
-/
import BlockExecution.Address
import BlockExecution.BlobGas
import BlockExecution.Simple.Run

namespace BlockExecution.Simple

/-! ## Checks -/

/-- The first fault that shows in the transaction and the header alone. -/
def staticFault (config : ProcessorConfig) (header : Header) (t : Transaction) (v : Validation) :
    Option Rejection :=
  let r := t.request
  let baseFee := header.basePrice
  let intrinsic := intrinsicGas r
  if v.verifySignature && config.verifySignatures && !t.isSignedBySender then
    some .invalidSignature
  else if r.chainId ≠ config.chainId then some (.wrongChainId config.chainId r.chainId)
  else if r.maxFee < baseFee then some (.maxFeeBelowBaseFee r.maxFee baseFee)
  else if r.maxFee < r.maxPriorityFee then some .priorityFeeAboveMaxFee
  else if !r.blobHashes.isEmpty && r.recipient.isNone then some .blobCreation
  else if r.gasLimit < intrinsic then some (.intrinsicGasAboveLimit intrinsic r.gasLimit)
  else none

/-- The most that a transaction can cost its sender. -/
def maxCost (r : TransactionRequest) (blobGasPrice : Word) : Word :=
  satAdd (satAdd (r.gasLimit.toWord * r.maxFee.toWord) r.value) (r.blobFee blobGasPrice)

/-- The first fault that shows in the sender's account. -/
def senderFault (t : Transaction) (v : Validation) (blobGasPrice : Word) (sender : Account) :
    Option Rejection :=
  let r := t.request
  let cost := maxCost r blobGasPrice
  if v.checkNonce && sender.nonce != r.nonce then some (.nonceMismatch sender.nonce r.nonce)
  else if sender.hasCode then some .senderHasCode
  else if sender.balance < cost then some (.insufficientBalance sender.balance cost)
  else none

/-! ## Body -/

/-- The account that a creation leaves: a contract that keeps the balance found there. -/
def createdAccount (code : Bytes) (value : Word) (found : Account) : Account :=
  { Account.contract code with balance := satAdd found.balance value }

/-- Creates a contract at `created` out of the input, unless one stands there. -/
def create (r : TransactionRequest) (created : Address) : Execution BodyOutcome := do
  let found ← Execution.account created
  if found.any fun a => a.nonce != 0 || a.hasCode then
    return BodyOutcome.exhausted r.gasLimit .createCollision
  Execution.decreaseBalance r.sender r.value
  Execution.updateAccount created (createdAccount r.input r.value)
  return ⟨intrinsicGas r, .ok []⟩

/-- Moves the value to the recipient and, if that holds code, runs the input on its storage. -/
def call (ctx : BlockContext) (r : TransactionRequest) (recipient : Address) :
    Execution BodyOutcome := do
  Execution.decreaseBalance r.sender r.value
  Execution.increaseBalance recipient r.value
  let found ← Execution.account recipient
  if found.any (·.hasCode) then
    runStream ctx recipient r.gasLimit (intrinsicGas r) [] r.input
  else
    return ⟨intrinsicGas r, .ok []⟩

/-- The account that a transaction is aimed at: its recipient, or the contract it creates. -/
def target (r : TransactionRequest) (senderNonce : U64) : Address :=
  r.recipient.getD (r.sender.created senderNonce)

/-- Runs the body of a transaction. -/
def body (ctx : BlockContext) (r : TransactionRequest) (senderNonce : U64) :
    Execution BodyOutcome :=
  match r.recipient with
  | none => create r (r.sender.created senderNonce)
  | some recipient => call ctx r recipient

/-! ## Whole transaction -/

/-- Takes the price of all gas and the blobs from the sender and counts its nonce up. -/
def charge (r : TransactionRequest) (price : U128) (blobGasPrice : Word) : Execution Unit :=
  Execution.updateAccount r.sender fun a =>
    { a with
      balance := satSub a.balance (r.gasLimit.toWord * price.toWord + r.blobFee blobGasPrice)
      nonce := a.nonce + 1 }

/-- Keeps the effects of a body that succeeded, without its empty target, or undoes one that
failed. -/
def conclude (config : ProcessorConfig) (r : TransactionRequest) (senderNonce : U64)
    (start : Checkpoint) (outcome : BodyOutcome) : Execution ProcessingResult :=
  match outcome.ending with
  | .ok logs => do
    if config.clearEmptyAccounts then
      Execution.deleteIfEmpty (target r senderNonce)
    return .successful outcome.gasUsed logs
  | .error (reason, data) => do
    Execution.revertTo start
    return .failed reason outcome.gasUsed data

/-- Everything of a transaction up to the reward. -/
def settle (config : ProcessorConfig) (ctx : BlockContext) (t : Transaction) (v : Validation) :
    Execution Settlement := do
  let r := t.request
  if let some fault := staticFault config ctx.header t v then
    return .rejected (.simple fault)
  let sender := (← Execution.account r.sender).getD {}
  if let some fault := senderFault t v ctx.blobGasPrice sender then
    return .rejected (.simple fault)
  let baseFee := ctx.header.basePrice
  let price := t.effectiveGasPrice baseFee
  charge r price ctx.blobGasPrice
  let start ← Execution.checkpoint
  let outcome ← body ctx r sender.nonce
  let result ← conclude config r sender.nonce start outcome
  Execution.increaseBalance r.sender ((r.gasLimit - outcome.gasUsed).toWord * price.toWord)
  return ⟨result, some (outcome.gasUsed.toWord * (price - baseFee).toWord)⟩

/-- The slot processor with its settings. -/
def processor (config : ProcessorConfig) : Processor := { config, settle := settle config }

end BlockExecution.Simple
