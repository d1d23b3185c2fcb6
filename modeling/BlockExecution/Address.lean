/-
  Addresses: that of a created contract, and the text of an address.

  A created contract stands at the hash of its creator and the creator's nonce.
  The text of an address carries a checksum in the case of its letters.
-/
import BlockExecution.Crypto.Keccak
import BlockExecution.Rlp

namespace BlockExecution

/-- The address of the contract that `creator` makes with its transaction number `nonce`. -/
def Address.created (creator : Address) (nonce : U64) : Address :=
  Address.ofWord
    (keccak256 (Rlp.ofItems [Rlp.ofBytes creator.bytes, Rlp.ofNat nonce.toNat]))

/-! ## Text of an address -/

/-- A hexadecimal digit of an address; letters are upper-case where the hash digit is at least
eight. -/
def checksumDigit (digit : Char) (hashDigit : Nat) : Char :=
  if hashDigit ≥ 8 then digit.toUpper else digit

/-- The four-bit halves of a byte string, high half first. -/
def nibbles (bs : Bytes) : List Nat :=
  bs.flatMap fun b => [b.toNat / 16, b.toNat % 16]

/-- The text of an address, with a checksum in the case of its letters: the hash is that of the
lower-case digits. -/
def Address.text (a : Address) : String :=
  let digits := hexDigits a.bytes
  let hash := Keccak.digest (digits.map fun c => c.toNat.toUInt8)
  String.ofList ('0' :: 'x' :: List.zipWith checksumDigit digits (nibbles hash))

/-- The text of a hash: `0x` and sixty-four digits. -/
def Hash.text (h : Hash) : String := hexText (Word.bytes h)

end BlockExecution
