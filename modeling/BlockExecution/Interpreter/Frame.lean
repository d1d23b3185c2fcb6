/-
  Frames: one run of code, with its stack, memory and gas.

  What touches the frame alone is here. An instruction that fails loses the
  frame, so a failure carries its cause and nothing else.
-/
import BlockExecution.Evm.Engine
import BlockExecution.Interpreter.Instruction
import BlockExecution.Interpreter.Memory

namespace BlockExecution.Interpreter

open BlockExecution.Evm (Halt Input)

/-! ## Endings -/

/-- Why a frame failed. -/
inductive Fault where
  | outOfGas
  | stackUnderflow
  | stackOverflow
  | invalidJump
  | invalidInstruction
  /-- An account stands at the address of a creation. -/
  | createCollision
  /-- The payer of a transfer does not hold the value. -/
  | outOfFunds
  /-- The recipient of a transfer cannot hold the value. -/
  | balanceOverflow
  /-- Too many frames wait for one another. -/
  | callTooDeep
  /-- The code that a creation leaves begins with the reserved byte. -/
  | reservedCode
  /-- The code that a creation leaves is too long. -/
  | codeTooLong
  /-- The state could not be read. -/
  | unreadable (error : StateError)
  deriving DecidableEq

/-- What a failure means for the transaction. -/
def Fault.halt : Fault → Halt
  | .outOfGas => .outOfGas
  | .createCollision => .createCollision
  | .outOfFunds => .outOfFunds
  | _ => .other

/-- How a frame ended. -/
inductive Ending where
  /-- All effects are kept. -/
  | returned (output : Bytes)
  /-- The effects are undone and the gas that is left goes back. -/
  | reverted (output : Bytes)
  /-- Nothing ran; the gas goes back. -/
  | refused (fault : Fault)
  /-- The effects are undone and the gas is lost. -/
  | halted (fault : Fault)
  deriving DecidableEq

namespace Ending

/-- Whether the effects are kept. -/
def isSuccess : Ending → Bool
  | .returned _ => true
  | _ => false

/-- Whether the gas that is left goes back. -/
def returnsGas : Ending → Bool
  | .halted _ => false
  | _ => true

/-- The failed read that ended a frame, if one did. -/
def failedRead? : Ending → Option StateError
  | .halted (.unreadable e) => some e
  | _ => none

/-- The bytes that a frame hands to its caller. -/
def output : Ending → Bytes
  | .returned output | .reverted output => output
  | .refused _ | .halted _ => []

end Ending

/-! ## Frames -/

/-- A run of code. -/
structure Frame where
  /-- The account that runs. -/
  address : Address
  caller : Address
  value : Word
  input : Bytes
  code : Code
  /-- The place in the code. -/
  place : Nat := 0
  /-- The stack, top first. -/
  stack : List Word := []
  memory : Memory := {}
  gas : Nat
  refund : Int := 0

namespace Frame

/-- The most words that a stack holds. -/
def maxStack : Nat := 1024

/-- Pays for something. -/
def charge (f : Frame) (amount : Nat) : Except Fault Frame :=
  if f.gas < amount then .error .outOfGas else .ok { f with gas := f.gas - amount }

/-- Takes the top off the stack. -/
def pop (f : Frame) : Except Fault (Word × Frame) :=
  match f.stack with
  | [] => .error .stackUnderflow
  | top :: rest => .ok (top, { f with stack := rest })

/-- Takes two words off the stack. -/
def pop₂ (f : Frame) : Except Fault (Word × Word × Frame) :=
  match f.stack with
  | a :: b :: rest => .ok (a, b, { f with stack := rest })
  | _ => .error .stackUnderflow

/-- Takes three words off the stack. -/
def pop₃ (f : Frame) : Except Fault (Word × Word × Word × Frame) :=
  match f.stack with
  | a :: b :: c :: rest => .ok (a, b, c, { f with stack := rest })
  | _ => .error .stackUnderflow

/-- Takes `count` words off the stack, top first. -/
def popMany (f : Frame) (count : Nat) : Except Fault (List Word × Frame) :=
  if f.stack.length < count then .error .stackUnderflow
  else .ok (f.stack.take count, { f with stack := f.stack.drop count })

/-- Puts a word on the stack. -/
def push (f : Frame) (word : Word) : Except Fault Frame :=
  if f.stack.length < maxStack then .ok { f with stack := word :: f.stack }
  else .error .stackOverflow

/-- Puts the value at a depth on the stack again. -/
def duplicate (f : Frame) (depth : Nat) : Except Fault Frame :=
  match f.stack[depth - 1]? with
  | some word => f.push word
  | none => .error .stackUnderflow

/-- Exchanges the top with the value `depth` below it. -/
def exchange (f : Frame) (depth : Nat) : Except Fault Frame :=
  match f.stack[0]?, f.stack[depth]? with
  | some top, some other => .ok { f with stack := (f.stack.set depth top).set 0 other }
  | _, _ => .error .stackUnderflow

/-- Pays for the memory up to a range and lets it grow. -/
def expand (f : Frame) (offset len : Word) : Except Fault Frame := do
  let words := f.memory.wordsFor offset.toNat len.toNat
  let f ← f.charge (f.memory.growthGas words)
  return { f with memory := f.memory.grow words }

/-- The bytes of a range of memory that has been paid for. -/
def slice (f : Frame) (offset len : Word) : Bytes := f.memory.read offset.toNat len.toNat

/-- Goes on at a place that is marked for it. -/
def jump (f : Frame) (target : Word) : Except Fault Frame :=
  if f.code.isTarget target.toNat then .ok { f with place := target.toNat }
  else .error .invalidJump

/-- The instruction at the present place. -/
def instruction (f : Frame) : Instruction := .ofByte (f.code.byteAt f.place)

/-- Pays the base gas of an instruction and passes it. -/
def pass (f : Frame) (i : Instruction) : Except Fault Frame := do
  let f ← f.charge i.baseGas
  return { f with place := f.place + 1 + i.operandWidth }

/-! ## Instructions of the frame alone -/

/-- The word on the thirty-two bytes of the input from a place on; past the end stand zeros. -/
def inputWord (f : Frame) (offset : Word) : Word :=
  let part := (f.input.drop offset.toNat).take 32
  Word.ofBytes (part ++ List.replicate (32 - part.length) 0)

/-- Copies a range of the code into memory. -/
def copyCode (f : Frame) : Except Fault Frame := do
  let (target, source, len, f) ← f.pop₃
  let f ← f.charge (Gas.copy len.toNat)
  let f ← f.expand target len
  let copied := (List.range len.toNat).map fun i => f.code.byteAt (source.toNat + i)
  return { f with memory := f.memory.write target.toNat copied }

/-- Writes a word into memory. -/
def storeWord (f : Frame) : Except Fault Frame := do
  let (offset, word, f) ← f.pop₂
  let f ← f.expand offset 32
  return { f with memory := f.memory.write offset.toNat word.bytes }

/-- What an instruction that only names a value pushes. -/
def named? (env : Input) (f : Frame) : Instruction → Option Word
  | .address => some f.address.toWord
  | .origin => some env.tx.sender.toWord
  | .caller => some f.caller.toWord
  | .callValue => some f.value
  | .callDataSize => some (BitVec.ofNat 256 f.input.length)
  | .gasPrice => some env.gasPrice.toWord
  | .coinbase => some env.block.beneficiary.toWord
  | .timestamp => some env.block.timestamp
  | .number => some env.block.number
  | .prevRandao => some env.block.prevRandao
  | .gasLimit => some env.block.gasLimit.toWord
  | .chainId => some env.settings.chainId.toWord
  | .baseFee => some env.block.baseFee.toWord
  | .blobBaseFee => some env.block.blobGasPrice.toWord
  | _ => none

/-- Carries out an instruction that needs nothing beyond its frame. -/
def perform (env : Input) (f : Frame) : Instruction → Except Fault Frame
  | .add => do
    let (a, b, f) ← f.pop₂
    f.push (a + b)
  | .sub => do
    let (a, b, f) ← f.pop₂
    f.push (a - b)
  | .callDataLoad => do
    let (offset, f) ← f.pop
    f.push (f.inputWord offset)
  | .codeCopy => f.copyCode
  | .blobHash => do
    let (i, f) ← f.pop
    f.push (env.tx.blobHashes.getD i.toNat 0)
  | .pop => do
    let (_, f) ← f.pop
    return f
  | .mstore => f.storeWord
  | .jump => do
    let (target, f) ← f.pop
    f.jump target
  | .jumpDest => return f
  | .push width => f.push (f.code.operand (f.place - width) width)
  | .dup depth => f.duplicate depth
  | .swap depth => f.exchange depth
  | i =>
    match f.named? env i with
    | some word => f.push word
    | none => throw .invalidInstruction

end Frame

end BlockExecution.Interpreter
