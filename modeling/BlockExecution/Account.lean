/-
  Accounts: a nonce, a balance and code under its hash.

  An account without code carries the hash of the empty byte string. An account
  is empty when it has no nonce, no balance and no code.
-/
import BlockExecution.Crypto.Keccak

namespace BlockExecution

/-- What the world state holds under an address. -/
structure Account where
  nonce : U64 := 0
  balance : Word := 0
  codeHash : Hash := keccakEmpty
  code : Bytes := []
  deriving DecidableEq, Inhabited

namespace Account

/-- An account without code. -/
def plain (nonce : U64) (balance : Word) : Account := { nonce, balance }

/-- A contract that holds `code`, with nonce one and no balance. -/
def contract (code : Bytes) : Account :=
  { nonce := 1, codeHash := keccak256 code, code }

/-- Whether the account holds code. -/
def hasCode (a : Account) : Bool := a.codeHash != keccakEmpty

/-- Whether the account has no nonce, no balance and no code. -/
def isEmpty (a : Account) : Bool :=
  a.nonce == 0 && a.balance == 0 && !a.hasCode

end Account

end BlockExecution
