/-
  Single steps of a machine, and its run to the end.

  Instructions beyond their frame work on the ledger, which keeps what it read
  even when the instruction fails afterwards. An access to something that was
  not used before is paid for first, so what cannot be paid for is not read. A
  read that fails is a fault of the frame.
-/
import BlockExecution.Interpreter.Machine

namespace BlockExecution.Interpreter

open BlockExecution.Evm (Input Query Reading)

/-- A part of an instruction. It can read, change the ledger and fail. -/
abbrev Step (α : Type) := ExceptT Fault (StateT Ledger Query) α

namespace Step

/-- Reads the state. -/
def read {α : Type} (x : Reading α) : Step α := do
  match ← (x.run : Query (Evm.Answer α)) with
  | .ok a => return a
  | .error e => throw (.unreadable e)

/-! ## Accounts and slots -/

/-- Brings an account into use, for a price if it was not used before. -/
def load (f : Frame) (address : Address) (coldPrice : Nat) : Step Frame := do
  let f ← f.charge (if (← get).isWarm address then 0 else coldPrice)
  set (← read ((← get).load address))
  return f

/-- Accesses an account. -/
def access (f : Frame) (address : Address) : Step Frame := do
  let f ← f.charge Gas.warmAccess
  load f address Gas.coldAccount

/-- Pushes the balance of an account. -/
def balance (f : Frame) : Step Frame := do
  let (word, f) ← f.pop
  let address := Address.ofWord word
  let f ← access f address
  f.push ((← get).balance address)

/-- Pushes the balance of the account that runs. -/
def selfBalance (f : Frame) : Step Frame := do
  f.push ((← get).balance f.address)

/-- Reads a slot. -/
def loadSlot (key : StorageKey) : Step Word := do
  let (value, l) ← read ((← get).loadSlot key)
  set l
  return value

/-- Pushes the value of a slot. -/
def sload (f : Frame) : Step Frame := do
  let (slot, f) ← f.pop
  let key : StorageKey := ⟨f.address, slot⟩
  let f ← f.charge Gas.warmAccess
  let f ← f.charge (if (← get).isWarmSlot key then 0 else Gas.coldSlot)
  f.push (← loadSlot key)

/-- Gives a slot its value. No slot is written on the gas of a stipend alone. -/
def sstore (f : Frame) : Step Frame := do
  let (slot, new, f) ← f.pop₂
  if f.gas ≤ Gas.stipend then throw .outOfGas
  let key : StorageKey := ⟨f.address, slot⟩
  let coldPrice := if (← get).isWarmSlot key then 0 else Gas.coldSlotWrite
  -- The read comes before the payment here: the price depends on the present value.
  let present ← loadSlot key
  let write : Gas.SlotWrite := ⟨(← get).startSlot key, present, new⟩
  let f ← f.charge (coldPrice + write.cost)
  modify (·.setSlot key new)
  return { f with refund := f.refund + write.refund }

/-! ## Blocks and logs -/

/-- How many blocks back a hash can be had. -/
def hashWindow : Nat := 256

/-- Pushes the hash of one of the blocks before this one; zero for all others. -/
def blockHash (env : Input) (f : Frame) : Step Frame := do
  let (word, f) ← f.pop
  let wanted := word.toNat
  let current := env.block.number.toNat
  if wanted < current ∧ current ≤ wanted + hashWindow then
    f.push (← read (Reading.blockHash (BitVec.ofNat 64 wanted)))
  else f.push 0

/-- Writes a log entry. -/
def log (f : Frame) (topics : Nat) : Step Frame := do
  let (offset, len, f) ← f.pop₂
  let f ← f.charge (Gas.log topics len.toNat)
  let f ← f.expand offset len
  let data := f.slice offset len
  let (topics, f) ← f.popMany topics
  modify (·.addLog ⟨f.address, topics, data⟩)
  return f

/-! ## Calls and ends -/

/-- The code that a call of an account in use runs. A delegate is accessed for it. -/
def calledCode (f : Frame) (address : Address) : Step (Bytes × Frame) := do
  let code := ((← get).account address).code
  match delegate? code with
  | none => return (code, f)
  | some delegate =>
    let f ← access f delegate
    return (((← get).account delegate).code, f)

/-- Prepares a call: pays for it and sets its gas aside. A call that moves value gives the callee
a stipend. -/
def prepareCall (f : Frame) : Step (Waiting × Call) := do
  let (requested, target, value, f) ← f.pop₃
  let (inputOffset, inputLength, f) ← f.pop₂
  let (outputOffset, outputLength, f) ← f.pop₂
  let f ← f.expand inputOffset inputLength
  let f ← f.expand outputOffset outputLength
  let recipient := Address.ofWord target
  let f ← f.charge (if value = 0 then 0 else Gas.valueTransfer)
  let f ← access f recipient
  let (code, f) ← calledCode f recipient
  -- Only a payment brings an account into being, so a call without value costs no more.
  let comesToBe := value ≠ 0 ∧ ((← get).account recipient).isEmpty
  let f ← f.charge (if comesToBe then Gas.newAccount else 0)
  -- What the callee gets is paid here and comes back with what it leaves.
  let gas := min (Gas.callable f.gas) requested.toNat
  let f ← f.charge gas
  let call : Call :=
    { caller := f.address
      recipient
      value
      code
      input := f.slice inputOffset inputLength
      gas := if value = 0 then gas else gas + Gas.stipend }
  return (⟨f, (← get).effects, outputOffset, outputLength⟩, call)

/-- The output of a frame that ends, from memory that is paid for. -/
def output (f : Frame) : Step (Bytes × Frame) := do
  let (offset, len, f) ← f.pop₂
  let f ← f.expand offset len
  return (f.slice offset len, f)

/-- Leaves the balance of the account that runs to another one, and ends it if this transaction
created it. -/
def selfDestruct (f : Frame) : Step Frame := do
  let (word, f) ← f.pop
  let heir := Address.ofWord word
  let f ← f.charge Gas.selfDestruct
  let f ← load f heir Gas.heirAccess
  let l ← get
  -- This is asked before the balance moves: afterwards the heir is no longer empty.
  let comesToBe := l.balance f.address ≠ 0 ∧ (l.account heir).isEmpty
  set (l.bequeath f.address heir)
  f.charge (if comesToBe then Gas.newAccount else 0)

end Step

/-! ## One instruction -/

namespace Machine

/-- Carries out a part of an instruction and goes on with what it gives. -/
def attempt {α : Type} (l : Ledger) (waiting : List Waiting) (x : Step α)
    (next : Ledger → α → Progress) : Query Progress := do
  let (result, l) ← x.run.run l
  match result with
  | .ok a => return next l a
  | .error fault => return (Outcome.halted l fault).proceed waiting

/-- Carries out the instruction at the present place, of which the base gas is paid. -/
def perform (env : Input) (l : Ledger) (waiting : List Waiting) (f : Frame)
    (i : Instruction) : Query Progress :=
  let go (x : Step Frame) : Query Progress :=
    attempt l waiting x fun l f => .running ⟨l, f, waiting⟩
  match i with
  | .stop => .done (Outcome.proceed ⟨.returned [], f.gas, f.refund, l⟩ waiting)
  | .return =>
    attempt l waiting (Step.output f) fun l (output, f) =>
      Outcome.proceed ⟨.returned output, f.gas, f.refund, l⟩ waiting
  | .revert =>
    attempt l waiting (Step.output f) fun l (output, f) =>
      Outcome.proceed ⟨.reverted output, f.gas, f.refund, l⟩ waiting
  | .selfDestruct =>
    attempt l waiting (Step.selfDestruct f) fun l f =>
      Outcome.proceed ⟨.returned [], f.gas, f.refund, l⟩ waiting
  | .call =>
    attempt l waiting (Step.prepareCall f) fun l (waiter, call) =>
      call.begin l (waiter :: waiting)
  | .balance => go (Step.balance f)
  | .selfBalance => go (Step.selfBalance f)
  | .blockHash => go (Step.blockHash env f)
  | .sload => go (Step.sload f)
  | .sstore => go (Step.sstore f)
  | .log topics => go (Step.log f topics)
  | i =>
    match f.perform env i with
    | .ok f => .done (.running ⟨l, f, waiting⟩)
    | .error fault => .done ((Outcome.halted l fault).proceed waiting)

/-- Carries out one instruction. -/
def step (env : Input) (m : Machine) : Query Progress :=
  let i := m.frame.instruction
  match m.frame.pass i with
  | .ok f => perform env m.ledger m.waiting f i
  | .error fault => .done ((Outcome.halted m.ledger fault).proceed m.waiting)

/-- Runs a machine for at most `steps` instructions. A machine that is not done by then is out of
gas. -/
def runFor (env : Input) : Nat → Machine → Query (Evm.Answer Outcome)
  | 0, m => .done (.ok (.halted m.ledger .outOfGas))
  | steps + 1, m =>
    match m.step env with
    | .done (.running m) => runFor env steps m
    | .done (.ended o) => .done (.ok o)
    | .done (.aborted e) => .done (.error e)
    | asking =>
      asking.bind fun
        | .running m => runFor env steps m
        | .ended o => .done (.ok o)
        | .aborted e => .done (.error e)

end Machine

/-- Runs to the end from gas `gas`. All instructions but those that end a frame use gas, and so
does each call that begins one, so twice the gas and two are steps enough. -/
def Progress.run (env : Input) (gas : Nat) : Progress → Reading Outcome
  | .running m => .mk (m.runFor env (2 * gas + 2))
  | .ended o => return o
  | .aborted e => throw e

end BlockExecution.Interpreter
