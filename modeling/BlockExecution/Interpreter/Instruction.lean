/-
  Instructions of the interpreter.

  The interpreter knows 103 of the 149 instructions of the Cancun rules. All other
  bytes are `undefined` to it and end a frame: those that have no meaning under
  these rules, and the 46 instructions that are left out,

    MUL DIV SDIV MOD SMOD ADDMOD MULMOD EXP SIGNEXTEND
    LT GT SLT SGT EQ ISZERO AND OR XOR NOT BYTE SHL SHR SAR KECCAK256
    CALLDATACOPY CODESIZE EXTCODESIZE EXTCODECOPY EXTCODEHASH
    RETURNDATASIZE RETURNDATACOPY
    MLOAD MSTORE8 JUMPI PC MSIZE GAS TLOAD TSTORE MCOPY PUSH0
    CREATE CALLCODE DELEGATECALL CREATE2 STATICCALL

  The base gas is charged before anything else of an instruction. Instructions
  whose price depends on their operands have none: they take the operands off the
  stack first, so a short stack shows before a lack of gas.
-/
import BlockExecution.Interpreter.Gas

namespace BlockExecution.Interpreter

/-- An instruction. -/
inductive Instruction where
  | stop
  | add
  | sub
  | address
  | balance
  | origin
  | caller
  | callValue
  | callDataLoad
  | callDataSize
  | codeCopy
  | gasPrice
  | blockHash
  | coinbase
  | timestamp
  | number
  | prevRandao
  | gasLimit
  | chainId
  | selfBalance
  | baseFee
  | blobHash
  | blobBaseFee
  | pop
  | mstore
  | sload
  | sstore
  | jump
  | jumpDest
  /-- Pushes the number spelled by the next `width` bytes of code. -/
  | push (width : Nat)
  /-- Pushes again the value at `depth`, counted from one at the top. -/
  | dup (depth : Nat)
  /-- Exchanges the top with the value `depth` below it. -/
  | swap (depth : Nat)
  /-- Writes a log entry with this many topics. -/
  | log (topics : Nat)
  | call
  | return
  | revert
  | invalid
  | selfDestruct
  | undefined
  deriving DecidableEq, Repr

namespace Instruction

/-- The instruction of a byte that stands for one alone. -/
def single : UInt8 → Instruction
  | 0x00 => .stop
  | 0x01 => .add
  | 0x03 => .sub
  | 0x30 => .address
  | 0x31 => .balance
  | 0x32 => .origin
  | 0x33 => .caller
  | 0x34 => .callValue
  | 0x35 => .callDataLoad
  | 0x36 => .callDataSize
  | 0x39 => .codeCopy
  | 0x3a => .gasPrice
  | 0x40 => .blockHash
  | 0x41 => .coinbase
  | 0x42 => .timestamp
  | 0x43 => .number
  | 0x44 => .prevRandao
  | 0x45 => .gasLimit
  | 0x46 => .chainId
  | 0x47 => .selfBalance
  | 0x48 => .baseFee
  | 0x49 => .blobHash
  | 0x4a => .blobBaseFee
  | 0x50 => .pop
  | 0x52 => .mstore
  | 0x54 => .sload
  | 0x55 => .sstore
  | 0x56 => .jump
  | 0x5b => .jumpDest
  | 0xf1 => .call
  | 0xf3 => .return
  | 0xfd => .revert
  | 0xfe => .invalid
  | 0xff => .selfDestruct
  | _ => .undefined

/-- The instruction of a byte. -/
def ofByte (b : UInt8) : Instruction :=
  if 0x60 ≤ b ∧ b ≤ 0x7f then .push (b.toNat - 0x5f)
  else if 0x80 ≤ b ∧ b ≤ 0x8f then .dup (b.toNat - 0x7f)
  else if 0x90 ≤ b ∧ b ≤ 0x9f then .swap (b.toNat - 0x8f)
  else if 0xa0 ≤ b ∧ b ≤ 0xa4 then .log (b.toNat - 0xa0)
  else single b

/-- The bytes of code that an instruction takes up after its own. -/
def operandWidth : Instruction → Nat
  | .push width => width
  | _ => 0

/-- Gas charged before anything else. -/
def baseGas : Instruction → Nat
  | .stop | .return | .revert | .invalid | .undefined | .balance | .codeCopy | .sload | .sstore
  | .log _ | .call | .selfDestruct => 0
  | .jumpDest => 1
  | .address | .origin | .caller | .callValue | .callDataSize | .gasPrice | .coinbase
  | .timestamp | .number | .prevRandao | .gasLimit | .chainId | .baseFee | .blobBaseFee
  | .pop => 2
  | .add | .sub | .callDataLoad | .blobHash | .mstore | .push _ | .dup _ | .swap _ => 3
  | .selfBalance => 5
  | .jump => 8
  | .blockHash => 20

end Instruction

/-! ## Code -/

/-- Code with the places that a jump may lead to. -/
structure Code where
  bytes : Array UInt8
  /-- For every place, whether a jump may lead there. -/
  targets : Array Bool

namespace Code

/-- Marks the places of a code at which a jump destination stands. The next `skip` bytes are
operands. -/
def markTargets : Bytes → Nat → Array Bool → Array Bool
  | [], _, marks => marks
  | _ :: rest, skip + 1, marks => markTargets rest skip (marks.push false)
  | b :: rest, 0, marks =>
    let i := Instruction.ofByte b
    markTargets rest i.operandWidth (marks.push (i == .jumpDest))

/-- The code of a byte string. -/
def ofBytes (bs : Bytes) : Code where
  bytes := bs.toArray
  targets := markTargets bs 0 #[]

/-- The byte at a place; past the end stands a stop. -/
def byteAt (c : Code) (place : Nat) : UInt8 := c.bytes.getD place 0

/-- Whether a jump may lead to a place. -/
def isTarget (c : Code) (place : Nat) : Bool := c.targets.getD place false

/-- The number that `width` bytes from a place spell; past the end stand zeros. -/
def operand (c : Code) (place width : Nat) : Word :=
  BitVec.ofNat 256 <| (List.range width).foldl
    (fun acc i => acc * 256 + (c.byteAt (place + i)).toNat) 0

end Code

end BlockExecution.Interpreter
