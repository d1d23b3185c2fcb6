/-
  Blobs that a transaction carries, and what they cost.
-/
import BlockExecution.Transaction

namespace BlockExecution

/-- Blob gas of one blob. -/
def gasPerBlob : U64 := 131072

/-- Blob gas of a transaction. -/
def TransactionRequest.blobGas (r : TransactionRequest) : U64 :=
  gasPerBlob * BitVec.ofNat 64 r.blobHashes.length

/-- What the blobs of a transaction cost at a price, stopping at the largest word. -/
def TransactionRequest.blobFee (r : TransactionRequest) (price : Word) : Word :=
  satMul price r.blobGas.toWord

end BlockExecution
