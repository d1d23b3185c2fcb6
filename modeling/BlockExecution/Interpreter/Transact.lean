/-
  Whole transactions on the interpreter.

  A transaction is checked, pays for all its gas, runs as one call or one
  creation, and gets back what it did not use. It asks for world state and says
  what became of it; nothing is written here.

  The interpreter is one machine among others: it lets transactions be run, and
  what is proved of processing is proved of every machine that keeps to a few
  rules. It is a partial one. Instructions are missing, as is said where they are
  listed. The addresses of the built-in contracts count as used from the start,
  but no built-in contract runs: a call of one runs the code at its address.
-/
import BlockExecution.Address
import BlockExecution.BlobGas
import BlockExecution.Interpreter.Rejection
import BlockExecution.Interpreter.Step

namespace BlockExecution.Interpreter

open BlockExecution.Evm (Engine EngineRun ExecutionResult Input Reading TxEnv)

/-! ## Checks -/

/-- The first byte of a supported blob hash. -/
def blobHashVersion : UInt8 := 1

/-- The first fault that shows in the transaction and the block alone. -/
def staticFault (i : Input) : Option Rejection :=
  let intrinsic := Gas.intrinsic i.tx.toTransactionRequest
  if i.tx.chainId ≠ i.settings.chainId then some .invalidChainId
  else if i.tx.maxFee < i.tx.maxPriorityFee then some .priorityFeeAboveMaxFee
  else if i.gasPrice < i.basePrice then some .gasPriceBelowBaseFee
  else if i.tx.blobHashes.any fun hash => (Word.bytes hash).head? ≠ some blobHashVersion then
    some .blobVersion
  else if i.block.gasLimit < i.tx.gasLimit then some .gasLimitAboveBlock
  else if i.tx.recipient.isNone ∧ Gas.maxInitCodeSize < i.tx.input.length then
    some .initCodeTooLong
  else if i.tx.gasLimit.toNat < intrinsic then
    some (.intrinsicGasAboveLimit intrinsic i.tx.gasLimit.toNat)
  else none

/-- What the blobs of a transaction cost, which stops at the largest price of gas. -/
def blobFee (tx : TxEnv) (price : U128) : U128 := satMul price tx.blobGas.toU128

/-- The most that a transaction can cost its sender; none if the fee is no price or the whole no
word. -/
def maxCost? (tx : TxEnv) : Option Word := do
  let fee : U128 ← checkedMul tx.gasLimit.toU128 tx.maxFee
  let cost ← checkedAdd fee.toWord tx.value
  checkedAdd cost (blobFee tx tx.maxBlobFee).toWord

/-- The first fault that shows in the sender's account. -/
def senderFault (i : Input) (sender : Account) : Option Rejection :=
  let checkNonce := i.settings.checkNonce
  if sender.code ≠ [] ∧ (delegate? sender.code).isNone then some .senderHasCode
  else if checkNonce ∧ sender.nonce < i.tx.nonce then
    some (.nonceTooHigh i.tx.nonce sender.nonce)
  else if checkNonce ∧ i.tx.nonce < sender.nonce then
    some (.nonceTooLow i.tx.nonce sender.nonce)
  else
    match maxCost? i.tx with
    | none => some .paymentOverflow
    | some cost =>
      if sender.balance < cost then some (.lackOfFunds sender.balance cost) else none

/-! ## Before the body -/

/-- The ledger at the start of a transaction. The addresses of built-in contracts, the beneficiary
and what the transaction announces count as used. -/
def Ledger.start (i : Input) : Ledger :=
  let reserved := (List.range Evm.reservedAddresses).map fun n => BitVec.ofNat 160 (n + 1)
  let announced := i.tx.accessList.map (·.address)
  let keys := i.tx.accessList.flatMap fun item =>
    item.storageKeys.map fun slot => (⟨item.address, slot⟩ : StorageKey)
  let l := (reserved ++ i.block.beneficiary :: announced).foldl Ledger.warm {}
  keys.foldl Ledger.warmSlot l

/-- The nonce after `nonce`, which stops at the largest one. -/
def nextNonce (nonce : U64) : U64 := satAdd nonce 1

/-- Takes the price of all gas and the blobs from the sender. The sender of a call counts its
nonce up. -/
def charge (i : Input) (l : Ledger) : Ledger :=
  let sender := i.tx.sender
  let fee := i.tx.gasLimit.toWord * i.gasPrice.toWord + (blobFee i.tx i.block.blobGasPrice).toWord
  let l := (l.touch sender).setBalance sender (satSub (l.balance sender) fee)
  if i.tx.recipient.isSome then l.setNonce sender (nextNonce (l.account sender).nonce) else l

/-! ## Body -/

/-- The code that a call of an account in use runs, with its delegate in use. -/
def Ledger.calledCode (l : Ledger) (address : Address) : Reading (Bytes × Ledger) := do
  let code := (l.account address).code
  match delegate? code with
  | none => return (code, l)
  | some delegate =>
    let l ← l.load delegate
    return ((l.account delegate).code, l)

/-- Calls the recipient. -/
def call (i : Input) (recipient : Address) (gas : Nat) (l : Ledger) : Reading Outcome := do
  let l ← l.load recipient
  let (code, l) ← l.calledCode recipient
  let call : Call :=
    { caller := i.tx.sender, recipient, value := i.tx.value, code, input := i.tx.input, gas }
  let outcome ← (call.begin l []).run i gas
  return outcome.keepOrUndo l.effects

/-- The first byte that the code of a contract cannot have. -/
def reservedCodeByte : UInt8 := 0xef

/-- Leaves the output of a creation as the code of the new account. -/
def Outcome.deposit (o : Outcome) (created : Address) : Outcome :=
  match o.ending with
  | .returned code =>
    let price := Gas.depositedByte * code.length
    if code.head? = some reservedCodeByte then .halted o.ledger .reservedCode
    else if Gas.maxCodeSize < code.length then .halted o.ledger .codeTooLong
    else if o.gas < price then .halted o.ledger .outOfGas
    else { o with gas := o.gas - price, ledger := o.ledger.setCode created code }
  | _ => o

/-- Runs the input as the code of a new account. -/
def construct (i : Input) (created : Address) (gas : Nat) (l : Ledger) : Reading Outcome := do
  let frame : Frame :=
    { address := created
      caller := i.tx.sender
      value := i.tx.value
      input := []
      code := .ofBytes i.tx.input
      gas }
  let outcome ← (Progress.running ⟨l, frame, []⟩).run i gas
  return outcome.deposit created

/-- Creates a contract out of the input. A sender that cannot count its nonce up creates
nothing. -/
def create (i : Input) (gas : Nat) (l : Ledger) : Reading Outcome := do
  let sender := l.account i.tx.sender
  if sender.balance < i.tx.value then return ⟨.refused .outOfFunds, gas, 0, l⟩
  -- The nonce of a creation is counted up here and not by the charge.
  if sender.nonce = BitVec.allOnes 64 then return ⟨.returned [], gas, 0, l⟩
  let created := i.tx.sender.created sender.nonce
  let l ← (l.setNonce i.tx.sender (sender.nonce + 1)).load created
  let present := l.account created
  if present.hasCode ∨ present.nonce ≠ 0 then return .halted l .createCollision
  match l.found? i.tx.sender created i.tx.value with
  | none => return .halted l .balanceOverflow
  | some founded =>
    let outcome ← construct i created gas founded
    return outcome.keepOrUndo l.effects

/-- Runs the body of a transaction with `gas` gas. -/
def body (i : Input) (gas : Nat) (l : Ledger) : Reading Outcome :=
  match i.tx.recipient with
  | some recipient => call i recipient gas l
  | none => create i gas l

/-! ## After the body -/

/-- How the gas of a transaction was spent. -/
structure GasAccount where
  limit : Nat
  /-- What the body left. -/
  left : Nat
  /-- What is given back on top. -/
  refunded : Nat

namespace GasAccount

/-- The gas of a body that ended: its refund is capped at a share of the gas it used. -/
def ofOutcome (limit : Nat) (o : Outcome) : GasAccount :=
  let left := o.returnedGas
  ⟨limit, left, min o.keptRefund.toNat ((limit - left) / Gas.refundQuotient)⟩

/-- The gas that is paid for. -/
def used (g : GasAccount) : Nat := g.limit - g.left - g.refunded

/-- The gas whose price goes back to the sender. -/
def reimbursed (g : GasAccount) : Nat := g.left + g.refunded

end GasAccount

/-- The result of a body that ended. -/
def Outcome.result (o : Outcome) (gasUsed : U64) : ExecutionResult :=
  match o.ending with
  | .returned _ => .success gasUsed o.ledger.effects.logs.reverse
  | .reverted output => .revert gasUsed output
  | .refused fault | .halted fault => .halt gasUsed fault.halt

/-- A transaction that ran up to the reward. -/
structure Closing where
  result : ExecutionResult
  reward : Word
  /-- The ledger, with the price of the gas that is left back at the sender. -/
  ledger : Ledger

/-- Pays for the gas of a body that ended. -/
def Outcome.close (o : Outcome) (i : Input) : Closing :=
  let gas := GasAccount.ofOutcome i.tx.gasLimit.toNat o
  let tip : U128 := satSub i.gasPrice i.basePrice
  let gasUsed : U64 := BitVec.ofNat 64 gas.used
  { result := o.result gasUsed
    reward := gasUsed.toWord * tip.toWord
    ledger := o.ledger.deposit i.tx.sender
      (BitVec.ofNat 256 (i.gasPrice.toNat * gas.reimbursed)) }

namespace Closing

/-- What the beneficiary's reward makes of a ledger in which it is in use. An observer is told of
the outermost frame alone, and that the accounts in use are loaded when it closes. -/
def run (c : Closing) (beneficiary : Address) (l : Ledger) : EngineRun where
  result := c.result
  diff := (l.deposit beneficiary c.reward).diff
  events := [.opened, .closed c.ledger.fetched.keys]

/-- Reads the beneficiary, if it is not in use, and credits the reward. -/
def finish (c : Closing) (beneficiary : Address) : Reading EngineRun := do
  let l ← c.ledger.load beneficiary
  return c.run beneficiary l

end Closing

/-- Pays for all gas and runs the body, with the sender in use. The beneficiary is still read where
the outermost frame could not read the state. -/
def execute (i : Input) (l : Ledger) : Reading Closing := do
  let outcome ← body i (i.tx.gasLimit.toNat - Gas.intrinsic i.tx.toTransactionRequest) (charge i l)
  match outcome.ending.failedRead? with
  | some e =>
    let _ ← outcome.ledger.load i.block.beneficiary
    throw e
  | none => return outcome.close i

/-- Checks a transaction and runs it up to the reward. -/
def front (i : Input) : Reading (Except Rejection Closing) :=
  match staticFault i with
  | some fault => return .error fault
  | none => do
    let l ← (Ledger.start i).load i.tx.sender
    match senderFault i (l.account i.tx.sender) with
    | some fault => return .error fault
    | none => return .ok (← execute i l)

/-- The interpreter. -/
def engine : Engine := fun i => do
  match ← front i with
  | .error fault => return .error (.transaction fault.message)
  | .ok closing => return .ok (← closing.finish i.block.beneficiary)

end BlockExecution.Interpreter
