/-
  Unsigned words of fixed width.

  Every quantity of a block is an unsigned word: nonces, gas and block numbers
  have 64 bits, prices 128, addresses 160, and balances, slots and hashes 256.
  The plain operators `+`, `-` and `*` wrap at the width. The operations here
  clip at the ends of the range instead, or give nothing outside of it.
-/

namespace BlockExecution

/-- Nonces, gas amounts, block numbers, timestamps and chain identifiers. -/
abbrev U64 := BitVec 64

/-- Prices per unit of gas. -/
abbrev U128 := BitVec 128

/-- Balances, storage slots and storage values. -/
abbrev Word := BitVec 256

/-- Account addresses. -/
abbrev Address := BitVec 160

/-- Results of the hash function, read as a number with the first byte on top. -/
abbrev Hash := BitVec 256

/-! ## Clipping at the ends of the range -/

/-- The largest word of `w` bits that is at most `n`. -/
def clip (w n : Nat) : BitVec w :=
  if (BitVec.ofNat w n).toNat = n then BitVec.ofNat w n else BitVec.allOnes w

/-- Addition that stops at the largest word. -/
def satAdd {w : Nat} (a b : BitVec w) : BitVec w :=
  clip w (a.toNat + b.toNat)

/-- Subtraction that stops at zero. -/
def satSub {w : Nat} (a b : BitVec w) : BitVec w :=
  if b ≤ a then a - b else 0#w

/-- Multiplication that stops at the largest word. -/
def satMul {w : Nat} (a b : BitVec w) : BitVec w :=
  clip w (a.toNat * b.toNat)

/-- The smaller of two words. -/
def minWord {w : Nat} (a b : BitVec w) : BitVec w :=
  if a ≤ b then a else b

/-! ## Results outside of the range -/

/-- Addition; none if the sum is no word. -/
def checkedAdd {w : Nat} (a b : BitVec w) : Option (BitVec w) :=
  if BitVec.uaddOverflow a b then none else some (a + b)

/-- Multiplication; none if the product is no word. -/
def checkedMul {w : Nat} (a b : BitVec w) : Option (BitVec w) :=
  if BitVec.umulOverflow a b then none else some (a * b)

/-! ## Change of width -/

/-- A 64-bit word as a 256-bit one. -/
def U64.toWord (a : U64) : Word := a.setWidth 256

/-- A 128-bit word as a 256-bit one. -/
def U128.toWord (a : U128) : Word := a.setWidth 256

/-- A 64-bit word as a 128-bit one. -/
def U64.toU128 (a : U64) : U128 := a.setWidth 128

end BlockExecution
