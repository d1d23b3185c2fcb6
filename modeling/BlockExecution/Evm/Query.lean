/-
  Computations that ask for world state.

  A computation either ends or puts one question and goes on with the answer.
  It can reach the state in no other way, so what it does is a function of the
  answers. Run on an accumulator, a question about an account or a slot is a read
  that leaves its mark on the tracker; a question about code leaves none. A read
  can fail; the computation is told and may still go on.

  An account is handed over with its code. Code that begins like a delegation and
  is none cannot be handed over: the program stops there without a result, and
  such states are left out here.
-/
import BlockExecution.State.Execution

namespace BlockExecution.Evm

/-- What a read gives. -/
abbrev Answer (α : Type) := Except StateError α

/-- A computation that asks for accounts, slots, code and block hashes. -/
inductive Query (α : Type) where
  | done (result : α)
  | account (address : Address) (next : Answer (Option Account) → Query α)
  | slot (key : StorageKey) (next : Answer Word → Query α)
  /-- The code with a hash, apart from any account. -/
  | code (codeHash : Hash) (next : Answer Bytes → Query α)
  | blockHash (number : U64) (next : Answer Hash → Query α)

namespace Query

/-- Goes on with the result of a computation. -/
protected def bind {α β : Type} : Query α → (α → Query β) → Query β
  | .done a, f => f a
  | .account address next, f => .account address fun answer => (next answer).bind f
  | .slot key next, f => .slot key fun answer => (next answer).bind f
  | .code codeHash next, f => .code codeHash fun answer => (next answer).bind f
  | .blockHash number next, f => .blockHash number fun answer => (next answer).bind f

instance : Monad Query where
  pure := .done
  bind := Query.bind

theorem bind_done {α : Type} (x : Query α) : x.bind .done = x := by
  induction x with
  | done => rfl
  | account address next ih => exact congrArg (Query.account address) (funext ih)
  | slot key next ih => exact congrArg (Query.slot key) (funext ih)
  | code codeHash next ih => exact congrArg (Query.code codeHash) (funext ih)
  | blockHash number next ih => exact congrArg (Query.blockHash number) (funext ih)

theorem bind_assoc {α β γ : Type} (x : Query α) (f : α → Query β) (g : β → Query γ) :
    (x.bind f).bind g = x.bind fun a => (f a).bind g := by
  induction x with
  | done => rfl
  | account address next ih => exact congrArg (Query.account address) (funext ih)
  | slot key next ih => exact congrArg (Query.slot key) (funext ih)
  | code codeHash next ih => exact congrArg (Query.code codeHash) (funext ih)
  | blockHash number next ih => exact congrArg (Query.blockHash number) (funext ih)

instance : LawfulMonad Query :=
  LawfulMonad.mk' Query (fun x => bind_done x) (fun _ _ => rfl) bind_assoc

/-- The hash of a block from a table. -/
def lookUpHash (blockHash? : U64 → Option Hash) (number : U64) : Answer Hash :=
  match blockHash? number with
  | some hash => .ok hash
  | none => .error (.blockHashUnavailable number)

/-- Answers the questions from an accumulator and a table of block hashes. -/
def run {α : Type} (blockHash? : U64 → Option Hash) : Query α → StateM Accumulator α
  | .done a => pure a
  | .account address next => do
    let answer ← (Execution.account address).run
    (next answer).run blockHash?
  | .slot key next => do
    let answer ← (Execution.slot key).run
    (next answer).run blockHash?
  | .code codeHash next => do
    let w ← get
    (next (w.codeByHash codeHash)).run blockHash?
  | .blockHash number next => (next (lookUpHash blockHash? number)).run blockHash?

end Query

/-! ## Computations that end at a failed read -/

/-- A computation that a failed read ends. -/
abbrev Reading (α : Type) := ExceptT StateError Query α

namespace Reading

/-- Reads an account. -/
def account (address : Address) : Reading (Option Account) := .mk (.account address .done)

/-- Reads a slot. -/
def slot (key : StorageKey) : Reading Word := .mk (.slot key .done)

/-- Looks up the hash of a block. -/
def blockHash (number : U64) : Reading Hash := .mk (.blockHash number .done)

/-- Answers the questions from an accumulator and a table of block hashes. -/
def execute {α : Type} (blockHash? : U64 → Option Hash) (x : Reading α) : Execution α :=
  .mk (Query.run blockHash? x.run)

end Reading

end BlockExecution.Evm
