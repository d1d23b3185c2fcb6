/-
  What the virtual machine is told of a transaction and its block.
-/
import BlockExecution.Processing.Processor

namespace BlockExecution.Evm

/-- Settings of the machine. -/
structure Settings where
  chainId : U64
  checkNonce : Bool
  deriving DecidableEq

/-- The block as the machine sees it. -/
structure BlockEnv where
  number : Word
  beneficiary : Address
  timestamp : Word
  gasLimit : U64
  baseFee : U64
  difficulty : Word
  prevRandao : Hash
  excessBlobGas : U64
  blobGasPrice : U128
  deriving DecidableEq

/-- The transaction as the machine sees it: the request, its type, and the most that it pays for a
unit of blob gas. -/
structure TxEnv extends TransactionRequest where
  type : UInt8
  maxBlobFee : U128
  deriving DecidableEq

/-- All that the machine is told before it asks for state. -/
structure Input where
  settings : Settings
  block : BlockEnv
  tx : TxEnv
  deriving DecidableEq

/-- A price of blob gas as a price of gas, which stops at the largest one. -/
def clippedPrice (price : Word) : U128 := clip 128 price.toNat

/-- The block of a context. No base fee and no excess count as zero. -/
def BlockEnv.of (ctx : BlockContext) : BlockEnv where
  number := ctx.header.number.toWord
  beneficiary := ctx.beneficiary
  timestamp := ctx.header.timestamp.toWord
  gasLimit := ctx.header.gasLimit
  baseFee := ctx.header.baseFee.getD 0
  difficulty := ctx.header.difficulty
  prevRandao := ctx.header.mixHash
  excessBlobGas := ctx.header.excessBlobGas.getD 0
  blobGasPrice := clippedPrice ctx.blobGasPrice

/-- A request in a block with a price of blob gas. It is of the type with blobs if it has any, and
pays the price of the block for them. -/
def TxEnv.of (r : TransactionRequest) (blobGasPrice : Word) : TxEnv where
  toTransactionRequest := r
  type := if r.blobHashes.isEmpty then 2 else 3
  maxBlobFee := clippedPrice blobGasPrice

namespace Input

/-- What the machine is told of a transaction of a block. -/
def of (config : ProcessorConfig) (ctx : BlockContext) (t : Transaction) (v : Validation) :
    Input where
  settings := { chainId := config.chainId, checkNonce := v.checkNonce }
  block := .of ctx
  tx := .of t.request ctx.blobGasPrice

/-- The base fee as a price. -/
def basePrice (i : Input) : U128 := i.block.baseFee.toU128

/-- The price paid for a unit of gas: the base fee and the priority fee, at most the maximum. -/
def gasPrice (i : Input) : U128 :=
  minWord i.tx.maxFee (satAdd i.basePrice i.tx.maxPriorityFee)

end Input

/-- How many addresses, counted from one, are those of built-in contracts. -/
def reservedAddresses : Nat := 10

end BlockExecution.Evm
