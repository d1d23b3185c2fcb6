/-
  The Keccak-256 hash, with the padding that precedes the standardised one: a
  single one bit follows the message, and a final one bit ends the block.

  A state is twenty-five lanes of 64 bits; lane `x + 5 * y` stands at column `x`
  and row `y`. The permutation is twenty-four rounds of the five step maps.
-/
import BlockExecution.Bytes

namespace BlockExecution

namespace Keccak

/-- The twenty-five lanes of a sponge. -/
abbrev Lanes := Vector UInt64 25

/-- A lane turned left by `n` places, `n` below 64. -/
def rotateLeft (x : UInt64) (n : UInt64) : UInt64 :=
  if n = 0 then x else (x <<< n) ||| (x >>> (64 - n))

/-! ## Step maps -/

/-- The constant that each round adds to lane zero. -/
def roundConstants : List UInt64 :=
  [0x0000000000000001, 0x0000000000008082, 0x800000000000808A, 0x8000000080008000,
   0x000000000000808B, 0x0000000080000001, 0x8000000080008081, 0x8000000000008009,
   0x000000000000008A, 0x0000000000000088, 0x0000000080008009, 0x000000008000000A,
   0x000000008000808B, 0x800000000000008B, 0x8000000000008089, 0x8000000000008003,
   0x8000000000008002, 0x8000000000000080, 0x000000000000800A, 0x800000008000000A,
   0x8000000080008081, 0x8000000000008080, 0x0000000080000001, 0x8000000080008008]

/-- How far each lane turns. -/
def rotations : Vector UInt64 25 :=
  #v[0, 1, 62, 28, 27, 36, 44, 6, 55, 20, 3, 10, 43, 25, 39, 41, 45, 15, 21, 8, 18, 2, 61, 56, 14]

/-- The parity of each column. -/
def columnParity (a : Lanes) : Vector UInt64 5 :=
  Vector.ofFn fun x =>
    a[x.val] ^^^ a[x.val + 5] ^^^ a[x.val + 10] ^^^ a[x.val + 15] ^^^ a[x.val + 20]

/-- Each lane takes up the parities of the column before it and, turned by one, after it. -/
def theta (a : Lanes) : Lanes :=
  let parity := columnParity a
  let change : Vector UInt64 5 := Vector.ofFn fun x =>
    have hbefore : (x.val + 4) % 5 < 5 := Nat.mod_lt _ (by decide)
    have hafter : (x.val + 1) % 5 < 5 := Nat.mod_lt _ (by decide)
    parity[(x.val + 4) % 5] ^^^ rotateLeft parity[(x.val + 1) % 5] 1
  Vector.ofFn fun i =>
    have hcolumn : i.val % 5 < 5 := Nat.mod_lt _ (by decide)
    a[i.val] ^^^ change[i.val % 5]

/-- Lanes turn by their rotation and move: column `x`, row `y` comes from column
`x + 3 * y` and row `x`. -/
def rhoPi (a : Lanes) : Lanes :=
  Vector.ofFn fun i =>
    let x := i.val % 5
    let y := i.val / 5
    let j := (x + 3 * y) % 5 + 5 * x
    have hj : j < 25 := by omega
    rotateLeft a[j] rotations[j]

/-- Each lane takes up the lane two columns on, where the lane one column on is zero. -/
def chi (b : Lanes) : Lanes :=
  Vector.ofFn fun i =>
    let x := i.val % 5
    let row := i.val - x
    have h1 : row + (x + 1) % 5 < 25 := by omega
    have h2 : row + (x + 2) % 5 < 25 := by omega
    b[i.val] ^^^ ((~~~ b[row + (x + 1) % 5]) &&& b[row + (x + 2) % 5])

/-- One round with its constant. -/
def round (a : Lanes) (constant : UInt64) : Lanes :=
  let b := chi (rhoPi (theta a))
  b.set 0 (b[0] ^^^ constant)

/-- The permutation of the sponge. -/
def permute (a : Lanes) : Lanes :=
  roundConstants.foldl round a

/-! ## Sponge -/

/-- Bytes taken up between two permutations. -/
def rate : Nat := 136

/-- The lane whose least significant byte comes first. -/
def laneOf (bs : Bytes) : UInt64 :=
  bs.foldr (fun b acc => (acc <<< 8) ||| b.toUInt64) 0

/-- The message followed by the padding that fills its last block. -/
def pad (message : Bytes) : Bytes :=
  let missing := rate - message.length % rate
  if missing = 1 then message ++ [0x81]
  else message ++ 0x01 :: (List.replicate (missing - 2) 0x00 ++ [0x80])

/-- The lanes of a byte string, eight bytes each. -/
def lanesOf : Nat → Bytes → List UInt64
  | 0, _ => []
  | n + 1, bs => laneOf (bs.take 8) :: lanesOf n (bs.drop 8)

/-- Adds one block to the sponge and permutes. -/
def absorbBlock (a : Lanes) (block : Bytes) : Lanes :=
  let lanes := (lanesOf (rate / 8) block).toArray
  permute (Vector.ofFn fun i => a[i.val] ^^^ lanes.getD i.val 0)

/-- Adds `blocks` blocks of a padded message to the sponge, in order. -/
def absorb : Nat → Lanes → Bytes → Lanes
  | 0, a, _ => a
  | blocks + 1, a, bs => absorb blocks (absorbBlock a (bs.take rate)) (bs.drop rate)

/-- The eight bytes of a lane, least significant first. -/
def laneBytes (lane : UInt64) : Bytes :=
  (List.range 8).map fun i => (lane >>> (8 * UInt64.ofNat i)).toUInt8

/-- The bytes of the hash of `message`. -/
def digest (message : Bytes) : Bytes :=
  let padded := pad message
  let a := absorb (padded.length / rate) (Vector.replicate 25 0) padded
  [a[0], a[1], a[2], a[3]].flatMap laneBytes

end Keccak

/-- Keccak-256 of a byte string. -/
def keccak256 (message : Bytes) : Hash :=
  Word.ofBytes (Keccak.digest message)

/-- Keccak-256 of the empty byte string. -/
def keccakEmpty : Hash :=
  0xc5d2460186f7233c927e7db2dcc703c0e500b653ca82273b7bfad8045d85a470#256

end BlockExecution
