/-
  Byte strings, their reading as big-endian numbers, and their hexadecimal text.

  A number is written on a fixed count of bytes, most significant first, and read
  back from any count.
-/
import BlockExecution.Word

namespace BlockExecution

/-- Byte strings: code, transaction input, encodings. -/
abbrev Bytes := List UInt8

/-! ## Big-endian numbers -/

/-- The low `n` bytes of `v`, most significant first. -/
def beBytes : Nat → Nat → Bytes
  | 0, _ => []
  | n + 1, v => UInt8.ofNat (v >>> (8 * n)) :: beBytes n v

/-- The number that a byte string spells, most significant byte first. -/
def beNat (bs : Bytes) : Nat :=
  bs.foldl (fun acc b => acc * 256 + b.toNat) 0

theorem length_beBytes (n v : Nat) : (beBytes n v).length = n := by
  induction n with
  | zero => rfl
  | succ n ih => simp [beBytes, ih]

/-- A 64-bit word on eight bytes. -/
def U64.bytes (a : U64) : Bytes := beBytes 8 a.toNat

/-- A 128-bit word on sixteen bytes. -/
def U128.bytes (a : U128) : Bytes := beBytes 16 a.toNat

/-- An address on twenty bytes. -/
def Address.bytes (a : Address) : Bytes := beBytes 20 a.toNat

/-- A 256-bit word or hash on thirty-two bytes. -/
def Word.bytes (a : Word) : Bytes := beBytes 32 a.toNat

/-- The word that a byte string spells; of more than thirty-two bytes the last ones count. -/
def Word.ofBytes (bs : Bytes) : Word := BitVec.ofNat 256 (beNat bs)

/-- The address in the last twenty bytes of a word. -/
def Address.ofWord (w : Word) : Address := w.setWidth 160

/-- An address as a word, with zero bytes in front. -/
def Address.toWord (a : Address) : Word := a.setWidth 256

/-! ## Hexadecimal text -/

/-- The lower-case digit of a number below sixteen. -/
def hexDigit (n : Nat) : Char :=
  if n < 10 then Char.ofNat ('0'.toNat + n) else Char.ofNat ('a'.toNat + (n - 10))

/-- Two digits for every byte. -/
def hexDigits (bs : Bytes) : List Char :=
  bs.flatMap fun b => [hexDigit (b.toNat / 16), hexDigit (b.toNat % 16)]

/-- A byte string as text: `0x` and two digits for every byte. -/
def hexText (bs : Bytes) : String :=
  String.ofList ('0' :: 'x' :: hexDigits bs)

end BlockExecution
