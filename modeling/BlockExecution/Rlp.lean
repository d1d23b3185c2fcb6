/-
  Recursive length encoding of byte strings and of flat lists of byte strings.

  A single byte below 0x80 stands for itself. Any other string is preceded by a
  mark with its length; a length above 55 is itself written as a number after
  the mark. Numbers are written without leading zero bytes.
-/
import BlockExecution.Bytes

namespace BlockExecution.Rlp

/-- How many bytes a number needs; none for zero. -/
def byteCount (n : Nat) : Nat :=
  if n = 0 then 0 else Nat.log2 n / 8 + 1

/-- A number without leading zero bytes. -/
def minimalBytes (n : Nat) : Bytes := beBytes (byteCount n) n

/-- The mark in front of a payload of `length` bytes; `short` is the mark of the empty one. -/
def mark (short : Nat) (length : Nat) : Bytes :=
  if length ≤ 55 then [UInt8.ofNat (short + length)]
  else
    let digits := minimalBytes length
    UInt8.ofNat (short + 55 + digits.length) :: digits

/-- The encoding of a byte string. -/
def ofBytes (bs : Bytes) : Bytes :=
  match bs with
  | [b] => if b < 0x80 then [b] else [0x81, b]
  | _ => mark 0x80 bs.length ++ bs

/-- The encoding of a number. -/
def ofNat (n : Nat) : Bytes := ofBytes (minimalBytes n)

/-- The encoding of a list, given the encodings of its items. -/
def ofItems (items : List Bytes) : Bytes :=
  let payload := items.flatten
  mark 0xc0 payload.length ++ payload

end BlockExecution.Rlp
