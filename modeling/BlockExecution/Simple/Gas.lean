/-
  Gas of the slot processor.
-/
import BlockExecution.Transaction

namespace BlockExecution.Simple

/-- Gas of every transaction. -/
def transactionGas : U64 := 21000

/-- Gas of a creation beyond that of a call. -/
def creationGas : U64 := 32000

/-- Gas of a byte of input. -/
def inputByteGas : U64 := 16

/-- Gas of an announced account. -/
def announcedAddressGas : U64 := 2400

/-- Gas of an announced slot. -/
def announcedKeyGas : U64 := 1900

/-- Gas of reading a slot. -/
def slotReadGas : U64 := 2100

/-- Gas of writing a slot. -/
def slotWriteGas : U64 := 20000

/-- Gas of a log entry. -/
def logGas : U64 := 375

/-- Gas of looking up a block hash. -/
def blockHashGas : U64 := 20

/-- Gas that announced accounts and slots cost. -/
def accessListGas (items : List AccessListItem) : U64 :=
  items.foldr (fun item rest =>
    announcedAddressGas + BitVec.ofNat 64 item.storageKeys.length * announcedKeyGas + rest) 0

/-- Gas charged before anything runs. -/
def intrinsicGas (r : TransactionRequest) : U64 :=
  (if r.recipient.isNone then transactionGas + creationGas else transactionGas)
    + BitVec.ofNat 64 r.input.length * inputByteGas + accessListGas r.accessList

end BlockExecution.Simple
