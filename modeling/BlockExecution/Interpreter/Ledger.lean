/-
  The state of a running transaction.

  What was read of the world is kept for good, so nothing is asked for twice.
  What the transaction has made of it is kept apart and can be put back as a
  whole when a frame fails, together with the accounts and slots that count as
  used before, and the logs. Two things outlast a failure: a payment to an
  account that could not hold it, and the touch of one reserved account.
-/
import BlockExecution.Evm.Query
import BlockExecution.Evm.StateDiff

namespace BlockExecution.Interpreter

open BlockExecution.Evm (Reading StateDiff)

/-- An account in a running transaction. -/
structure LiveAccount where
  account : Account
  /-- Whether it takes part in the outcome. -/
  touched : Bool := false
  /-- Whether this transaction created it. -/
  created : Bool := false
  /-- Whether it was created and destroyed. -/
  destroyed : Bool := false
  deriving DecidableEq

/-- What a failing frame puts back. -/
structure Effects where
  accounts : Table Address LiveAccount := ∅
  slots : Table StorageKey Word := ∅
  warmAccounts : Table Address Unit := ∅
  warmSlots : Table StorageKey Unit := ∅
  /-- Log entries, newest first. -/
  logs : List Log := []

/-- The state of a running transaction. -/
structure Ledger where
  /-- Accounts as they were read. -/
  fetched : Table Address (Option Account) := ∅
  /-- Slots as they were read. -/
  fetchedSlots : Table StorageKey Word := ∅
  /-- What payers paid to recipients that could not hold it. It stays gone when effects are put
  back. -/
  forfeited : Table Address Word := ∅
  effects : Effects := {}

namespace Ledger

/-! ## Warm and cold -/

/-- Whether an account counts as used before. -/
def isWarm (l : Ledger) (address : Address) : Bool := l.effects.warmAccounts.contains address

/-- Whether a slot counts as used before. -/
def isWarmSlot (l : Ledger) (key : StorageKey) : Bool := l.effects.warmSlots.contains key

/-- Lets an account count as used. -/
def warm (l : Ledger) (address : Address) : Ledger :=
  { l with effects :=
      { l.effects with warmAccounts := l.effects.warmAccounts.insert address () } }

/-- Lets a slot count as used. -/
def warmSlot (l : Ledger) (key : StorageKey) : Ledger :=
  { l with effects := { l.effects with warmSlots := l.effects.warmSlots.insert key () } }

/-! ## Accounts -/

/-- Puts an account back into the ledger. -/
def put (l : Ledger) (address : Address) (live : LiveAccount) : Ledger :=
  { l with effects := { l.effects with accounts := l.effects.accounts.insert address live } }

/-- The account at an address: as the transaction left it, else as it was read, else empty. -/
def live (l : Ledger) (address : Address) : LiveAccount :=
  match l.effects.accounts[address]? with
  | some live => live
  | none => { account := (l.fetched[address]?).join.getD {} }

/-- Changes an account that is in use. -/
def update (l : Ledger) (address : Address) (f : LiveAccount → LiveAccount) : Ledger :=
  l.put address (f (l.live address))

/-- Lets an account take part in the outcome. -/
def touch (l : Ledger) (address : Address) : Ledger :=
  l.update address fun a => { a with touched := true }

/-- What an account paid to recipients that could not hold it. -/
def forfeit (l : Ledger) (address : Address) : Word := (l.forfeited[address]?).getD 0

/-- The balance of an account that is in use. -/
def balance (l : Ledger) (address : Address) : Word :=
  (l.live address).account.balance - l.forfeit address

/-- Gives an account its balance. -/
def setBalance (l : Ledger) (address : Address) (balance : Word) : Ledger :=
  l.update address fun a =>
    { a with account := { a.account with balance := balance + l.forfeit address } }

/-- An account that is in use, with its balance. -/
def account (l : Ledger) (address : Address) : Account :=
  { (l.live address).account with balance := l.balance address }

/-- Adds to a balance and lets the account take part in the outcome. A balance that cannot hold
the amount stays as it is. -/
def deposit (l : Ledger) (address : Address) (amount : Word) : Ledger :=
  let l := l.touch address
  match checkedAdd (l.balance address) amount with
  | some sum => l.setBalance address sum
  | none => l

/-- Brings an account into use, reading it at most once, and lets it count as used. -/
def load (l : Ledger) (address : Address) : Reading Ledger := do
  let l := l.warm address
  if l.fetched.contains address then return l
  let found ← Reading.account address
  return { l with fetched := l.fetched.insert address found }

/-! ## Slots -/

/-- The value of a slot now, read if need be. Slots of an account that this transaction created
are zero. -/
def loadSlot (l : Ledger) (key : StorageKey) : Reading (Word × Ledger) := do
  let l := l.warmSlot key
  match l.effects.slots[key]? with
  | some value => return (value, l)
  | none =>
    match l.fetchedSlots[key]? with
    | some value => return (value, l)
    | none =>
      let value ← if (l.live key.address).created then pure 0 else Reading.slot key
      return (value, { l with fetchedSlots := l.fetchedSlots.insert key value })

/-- The value of a slot before the transaction, once it is loaded. -/
def startSlot (l : Ledger) (key : StorageKey) : Word := (l.fetchedSlots[key]?).getD 0

/-- Gives a slot its value. -/
def setSlot (l : Ledger) (key : StorageKey) (value : Word) : Ledger :=
  { l with effects := { l.effects with slots := l.effects.slots.insert key value } }

/-- Adds a log entry. -/
def addLog (l : Ledger) (log : Log) : Ledger :=
  { l with effects := { l.effects with logs := log :: l.effects.logs } }

/-- The one account that, having come to take part in the outcome, does so whatever fails. -/
def lastingAddress : Address := 3

/-- Puts back the effects of an earlier moment. What was read stays read, what was forfeited stays
gone, and the lasting account stays touched. -/
def rollback (l : Ledger) (effects : Effects) : Ledger :=
  let undone := { l with effects }
  if (l.live lastingAddress).touched then undone.touch lastingAddress else undone

/-! ## Value transfers -/

/-- How a value transfer ended. -/
inductive Transfer where
  | moved (ledger : Ledger)
  | insufficient
  /-- The recipient cannot hold the value. The payer has forfeited it. -/
  | overflow (ledger : Ledger)

/-- Moves value between accounts in use. A payment to oneself needs the balance and changes
nothing; a payment of nothing touches the recipient. -/
def transfer (l : Ledger) (payer payee : Address) (value : Word) : Transfer :=
  if payer = payee then
    if l.balance payer < value then .insufficient else .moved l
  else if value = 0 then .moved (l.touch payee)
  else if l.balance payer < value then .insufficient
  else
    match checkedAdd (l.balance payee) value with
    | none => .overflow { l with forfeited := l.forfeited.insert payer (l.forfeit payer + value) }
    | some received =>
      let paid := (l.touch payer).setBalance payer (l.balance payer - value)
      .moved ((paid.touch payee).setBalance payee received)

/-- Leaves the balance of an account to another one. An account that this transaction created is
destroyed; left to itself, any other keeps its balance. -/
def bequeath (l : Ledger) (owner heir : Address) : Ledger :=
  let estate := l.balance owner
  let l := if heir = owner then l else (l.touch heir).setBalance heir (l.balance heir + estate)
  if (l.live owner).created then
    (l.setBalance owner 0).update owner fun a => { a with destroyed := true }
  else if heir = owner then l
  else l.setBalance owner 0

/-! ## Creations -/

/-- Gives an account its nonce. -/
def setNonce (l : Ledger) (address : Address) (nonce : U64) : Ledger :=
  l.update address fun a => { a with account := { a.account with nonce } }

/-- Gives an account its code. -/
def setCode (l : Ledger) (address : Address) (code : Bytes) : Ledger :=
  l.update address fun a =>
    { a with account := { a.account with code, codeHash := keccak256 code } }

/-- Makes the account at an address a new contract with nonce one that is paid by its creator;
none if it cannot hold the value. -/
def found? (l : Ledger) (creator created : Address) (value : Word) : Option Ledger := do
  let received ← checkedAdd (l.balance created) value
  let l := (l.touch created).setNonce created 1
  let l := l.update created fun a => { a with created := true }
  let l := l.setBalance created received
  return l.setBalance creator (l.balance creator - value)

/-! ## What became of it all -/

/-- The slots of an account whose values differ from before. -/
def changedSlots (l : Ledger) (address : Address) : List (Word × Word) :=
  l.effects.slots.toList.filterMap fun (key, value) =>
    if key.address = address ∧ value ≠ l.startSlot key then some (key.slot, value) else none

/-- What became of every account that the transaction changed, in ascending order of addresses. -/
def diff (l : Ledger) : StateDiff :=
  l.effects.accounts.toList.map fun (address, live) =>
    { address
      account := l.account address
      touched := live.touched
      destroyed := live.destroyed
      slots := l.changedSlots address }

end Ledger

end BlockExecution.Interpreter
