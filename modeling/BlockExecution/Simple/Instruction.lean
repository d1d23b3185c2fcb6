/-
  The instruction stream that a transaction's input carries to a contract.

  An instruction is an opcode byte and a slot number of thirty-two bytes. The
  stream stops at its end, at a revert byte, whose data is all that follows, or
  at a byte that opens no instruction.
-/
import BlockExecution.Simple.Gas

namespace BlockExecution.Simple

/-- What an instruction does with its slot. -/
inductive Opcode where
  /-- Adds one and logs the new value. -/
  | increment
  | read
  /-- Stores the hash of the parent block. -/
  | blockHash
  deriving DecidableEq

/-- An opcode with its slot. -/
structure Instruction where
  opcode : Opcode
  slot : Word
  deriving DecidableEq

/-- The opcode of a byte. -/
def Opcode.ofByte? : UInt8 → Option Opcode
  | 0x01 => some .increment
  | 0x02 => some .read
  | 0x40 => some .blockHash
  | _ => none

/-- The byte that reverts. -/
def revertByte : UInt8 := 0xfd

/-- Gas of an instruction. -/
def Opcode.gas : Opcode → U64
  | .increment => slotReadGas + slotWriteGas + logGas
  | .read => slotReadGas
  | .blockHash => blockHashGas + slotWriteGas

/-- The front of a stream. -/
inductive Front where
  /-- Nothing is left. -/
  | finished
  /-- A revert with its data. -/
  | revert (data : Bytes)
  /-- No instruction begins here. -/
  | malformed
  /-- An instruction and what follows it. -/
  | instruction (i : Instruction) (rest : Bytes)
  deriving DecidableEq

/-- Reads the front of a stream. -/
def Front.ofStream : Bytes → Front
  | [] => .finished
  | byte :: tail =>
    if byte = revertByte then .revert tail
    else
      match Opcode.ofByte? byte with
      | none => .malformed
      | some opcode =>
        if tail.length < 32 then .malformed
        else .instruction ⟨opcode, Word.ofBytes (tail.take 32)⟩ (tail.drop 32)

/-- What follows an instruction is shorter than the stream it stood in. -/
theorem Front.rest_length_lt {stream rest : Bytes} {i : Instruction}
    (h : Front.ofStream stream = .instruction i rest) : rest.length < stream.length := by
  unfold Front.ofStream at h
  split at h
  · exact Front.noConfusion h
  · rename_i byte tail
    split at h
    · exact Front.noConfusion h
    · split at h
      · exact Front.noConfusion h
      · split at h
        · exact Front.noConfusion h
        · injection h with _ hrest
          rw [← hrest, List.length_drop, List.length_cons]
          omega

end BlockExecution.Simple
