/-
  The byte memory of a frame. It grows by whole words and starts with zeros.
-/
import BlockExecution.Bytes
import BlockExecution.Interpreter.Gas

namespace BlockExecution.Interpreter

/-- A memory; its size is a multiple of thirty-two. -/
structure Memory where
  bytes : Array UInt8 := #[]

namespace Memory

/-- The number of words. -/
def words (m : Memory) : Nat := m.bytes.size / 32

/-- The number of words that hold `len` bytes from `offset` on; nothing is needed for none. -/
def wordsFor (m : Memory) (offset len : Nat) : Nat :=
  if len = 0 then m.words else max m.words (Gas.words (offset + len))

/-- Gas of growing to `words` words. -/
def growthGas (m : Memory) (words : Nat) : Nat := Gas.memory words - Gas.memory m.words

/-- Grows to `words` words. -/
def grow (m : Memory) (words : Nat) : Memory :=
  ⟨m.bytes ++ Array.replicate (32 * words - m.bytes.size) 0⟩

/-- The `len` bytes from `offset` on; past the end stand zeros. -/
def read (m : Memory) (offset len : Nat) : Bytes :=
  (List.range len).map fun i => m.bytes.getD (offset + i) 0

/-- Writes bytes from `offset` on; what would stand past the end is dropped. -/
def write (m : Memory) (offset : Nat) : Bytes → Memory
  | [] => m
  | b :: rest => write ⟨m.bytes.setIfInBounds offset b⟩ (offset + 1) rest

end Memory

end BlockExecution.Interpreter
