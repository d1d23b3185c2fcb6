/-
  Accounts that let another account's code run for them.

  Such an account holds a marker and an address in place of code. A call of it
  runs the code at that address in the name of the account that was called, and
  a delegate that delegates in turn is not followed further. Unlike a contract,
  an account that delegates may send transactions.
-/
import BlockExecution.Account

namespace BlockExecution.Interpreter

/-- What the code of an account that delegates begins with. -/
def delegationMarker : Bytes := [0xef, 0x01, 0x00]

/-- The account whose code runs in place of `code`, if `code` delegates: the marker and an address,
and nothing more. -/
def delegate? (code : Bytes) : Option Address :=
  let target := code.drop delegationMarker.length
  if code.take delegationMarker.length = delegationMarker ∧ target.length = 20 then
    some (Address.ofWord (Word.ofBytes target))
  else none

end BlockExecution.Interpreter
