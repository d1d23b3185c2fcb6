/-
  Gas of what the interpreter carries out, at the Cancun prices.
-/
import BlockExecution.Transaction

namespace BlockExecution.Interpreter.Gas

/-! ## Whole transactions -/

/-- Gas of every transaction. -/
def transaction : Nat := 21000

/-- Gas of a creation beyond that of a call. -/
def creation : Nat := 32000

/-- Gas of a zero byte of input. -/
def zeroByte : Nat := 4

/-- Gas of any other byte of input. -/
def nonZeroByte : Nat := 16

/-- Gas of a word of the code that a creation runs. -/
def initCodeWord : Nat := 2

/-- Gas of an announced account. -/
def announcedAddress : Nat := 2400

/-- Gas of an announced slot. -/
def announcedKey : Nat := 1900

/-- Gas of a byte of code that a creation leaves. -/
def depositedByte : Nat := 200

/-- The longest code that a creation may leave. -/
def maxCodeSize : Nat := 24576

/-- The longest code that a creation may run. -/
def maxInitCodeSize : Nat := 2 * maxCodeSize

/-- The whole words that hold `n` bytes. -/
def words (n : Nat) : Nat := (n + 31) / 32

/-- Gas of the bytes of an input. -/
def inputBytes (input : Bytes) : Nat :=
  input.foldl (fun total b => total + if b = 0 then zeroByte else nonZeroByte) 0

/-- Gas of announced accounts and slots. -/
def accessList (items : List AccessListItem) : Nat :=
  items.foldr (fun item rest =>
    announcedAddress + item.storageKeys.length * announcedKey + rest) 0

/-- Gas charged before anything runs. -/
def intrinsic (r : TransactionRequest) : Nat :=
  let body := transaction + inputBytes r.input + accessList r.accessList
  if r.recipient.isNone then body + creation + initCodeWord * words r.input.length else body

/-- A refund returns at most one part in this many of the gas used. -/
def refundQuotient : Nat := 5

/-! ## Accounts and slots -/

/-- Gas of an access to something used before. -/
def warmAccess : Nat := 100

/-- Gas of the first access to an account beyond a warm one. -/
def coldAccount : Nat := 2500

/-- Gas of the first access to a slot beyond a warm one. -/
def coldSlot : Nat := 2000

/-- Gas of the first access to a slot that is written. -/
def coldSlotWrite : Nat := 2100

/-- Gas of bringing an account into being. -/
def newAccount : Nat := 25000

/-- Gas of a call that moves value. -/
def valueTransfer : Nat := 9000

/-- Gas that a callee gets for free when value is moved to it. -/
def stipend : Nat := 2300

/-- Gas of a contract that ends itself. -/
def selfDestruct : Nat := 5000

/-- Gas of the first access to the account that a contract leaves its balance to. -/
def heirAccess : Nat := 2600

/-- The share of a caller's gas that a callee can get: all but one part in sixty-four. -/
def callable (gas : Nat) : Nat := gas - gas / 64

/-- The values of a slot that decide what a write costs: before the transaction, now, and after
the write. -/
structure SlotWrite where
  start : Word
  present : Word
  new : Word

/-- Gas of filling a slot that was zero. -/
def slotFill : Nat := 20000

/-- Gas of changing any other slot. -/
def slotChange : Nat := 2900

/-- Gas of writing a slot that is warm. A slot that the transaction has changed before is cheap. -/
def SlotWrite.cost (w : SlotWrite) : Nat :=
  if w.new = w.present then warmAccess
  else if w.start ≠ w.present then warmAccess
  else if w.start = 0 then slotFill
  else slotChange

/-- The refund for clearing a slot. -/
def clearRefund : Int := 4800

/-- What a write adds to the refund, or takes back from it. -/
def SlotWrite.refund (w : SlotWrite) : Int :=
  if w.new = w.present then 0
  else if w.start = w.present then
    if w.new = 0 then clearRefund else 0
  else
    let clearing : Int :=
      if w.start = 0 then 0
      else if w.present = 0 then -clearRefund
      else if w.new = 0 then clearRefund
      else 0
    let restoring : Int :=
      if w.start ≠ w.new then 0
      else if w.start = 0 then slotFill - warmAccess
      else slotChange - warmAccess
    clearing + restoring

/-! ## Memory, copies and logs -/

/-- Gas of a memory of `n` words. -/
def memory (n : Nat) : Nat := 3 * n + n * n / 512

/-- Gas of copying `n` bytes. -/
def copy (n : Nat) : Nat := 3 + 3 * words n

/-- Gas of a log entry with its topics and its bytes. -/
def log (topics bytes : Nat) : Nat := 375 + 375 * topics + 8 * bytes

end BlockExecution.Interpreter.Gas
