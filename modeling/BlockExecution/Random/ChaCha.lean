/-
  A reproducible stream of random words.

  A 64-bit seed is stretched to a 256-bit key by a linear congruential
  generator with a permuted output. The stream is the ChaCha keystream of that
  key with twelve rounds, a zero nonce and a block counter from zero, read as
  32-bit words. Draws take their words from the front of the stream.
-/
import BlockExecution.Bytes

namespace BlockExecution.Random

/-! ## Key from seed -/

/-- One step of the congruential generator. -/
def advanceSeed (x : UInt64) : UInt64 :=
  x * 6364136223846793005 + 11634580027462260723

/-- The output word of a generator state. -/
def seedOutput (x : UInt64) : UInt32 :=
  let mixed := (((x >>> 18) ^^^ x) >>> 27).toUInt32
  let turn := (x >>> 59).toUInt32
  if turn = 0 then mixed else (mixed >>> turn) ||| (mixed <<< (32 - turn))

/-- The next `n` output words. -/
def seedWords : Nat → UInt64 → List UInt32
  | 0, _ => []
  | n + 1, x =>
    let next := advanceSeed x
    seedOutput next :: seedWords n next

/-! ## Keystream -/

/-- A word turned left by `n` places, `0 < n < 32`. -/
def rotateLeft (x : UInt32) (n : UInt32) : UInt32 :=
  (x <<< n) ||| (x >>> (32 - n))

/-- The sixteen words of a keystream block. -/
abbrev Grid := Vector UInt32 16

/-- Mixes the four words at the given places. -/
def quarterRound (g : Grid) (a b c d : Fin 16) : Grid :=
  let g := g.set a (g[a] + g[b])
  let g := g.set d (rotateLeft (g[d] ^^^ g[a]) 16)
  let g := g.set c (g[c] + g[d])
  let g := g.set b (rotateLeft (g[b] ^^^ g[c]) 12)
  let g := g.set a (g[a] + g[b])
  let g := g.set d (rotateLeft (g[d] ^^^ g[a]) 8)
  let g := g.set c (g[c] + g[d])
  g.set b (rotateLeft (g[b] ^^^ g[c]) 7)

/-- A round over the columns followed by one over the diagonals. -/
def doubleRound (g : Grid) : Grid :=
  let g := quarterRound g 0 4 8 12
  let g := quarterRound g 1 5 9 13
  let g := quarterRound g 2 6 10 14
  let g := quarterRound g 3 7 11 15
  let g := quarterRound g 0 5 10 15
  let g := quarterRound g 1 6 11 12
  let g := quarterRound g 2 7 8 13
  quarterRound g 3 4 9 14

/-- The grid before mixing: four constants, the key, the block counter and a zero nonce. -/
def startGrid (key : Array UInt32) (counter : UInt64) : Grid :=
  Vector.ofFn fun i =>
    match i.val with
    | 0 => 0x61707865
    | 1 => 0x3320646e
    | 2 => 0x79622d32
    | 3 => 0x6b206574
    | 12 => counter.toUInt32
    | 13 => (counter >>> 32).toUInt32
    | j => key.getD (j - 4) 0

/-- One block of the keystream: six double rounds, then the start is added back. -/
def keystreamBlock (key : Array UInt32) (counter : UInt64) : Grid :=
  let start := startGrid key counter
  let mixed := (List.range 6).foldl (fun g _ => doubleRound g) start
  Vector.ofFn fun i => mixed[i] + start[i]

/-! ## Draws -/

/-- A keystream with the words of its current block that are still to be drawn. -/
structure Stream where
  key : Array UInt32
  counter : UInt64
  pending : List UInt32

/-- The stream of a seed. -/
def Stream.ofSeed (seed : U64) : Stream where
  key := (seedWords 8 (UInt64.ofBitVec seed)).toArray.extract 0 8
  counter := 0
  pending := []

/-- The next 32-bit word. -/
def Stream.next32 (s : Stream) : UInt32 × Stream :=
  match s.pending with
  | word :: rest => (word, { s with pending := rest })
  | [] =>
    let block := keystreamBlock s.key s.counter
    (block[0], ⟨s.key, s.counter + 1, block.toList.drop 1⟩)

/-- The next 64-bit word, low half first. -/
def Stream.next64 (s : Stream) : UInt64 × Stream :=
  let (low, s) := s.next32
  let (high, s) := s.next32
  ((high.toUInt64 <<< 32) ||| low.toUInt64, s)

/-- The next `n` bytes, `n` a multiple of four; each word gives its low byte first. -/
def Stream.nextWords : Nat → Stream → List UInt32 × Stream
  | 0, s => ([], s)
  | n + 1, s =>
    let (word, s) := s.next32
    let (rest, s) := s.nextWords n
    (word :: rest, s)

/-- The four bytes of a word, low byte first. -/
def wordBytes (word : UInt32) : Bytes := (beBytes 4 word.toNat).reverse

/-- A number of the unit interval with 53 random bits, one excluded. -/
def Stream.nextUnit (s : Stream) : Float × Stream :=
  let (bits, s) := s.next64
  ((bits >>> 11).toFloat * (1.0 / 9007199254740992.0), s)

/-- A fair coin. -/
def Stream.nextCoin (s : Stream) : Bool × Stream :=
  let (bits, s) := s.next64
  (bits < 9223372036854775808, s)

/-- Draws words until the low half of word times `n` is within `zone`; the high half is the
answer. At most `tries` words are drawn. -/
def Stream.nextBelowWithin (n zone : Nat) : Nat → Stream → Nat × Stream
  | 0, s => (0, s)
  | tries + 1, s =>
    let (word, s) := s.next64
    let product := word.toNat * n
    if product % 0x10000000000000000 ≤ zone then (product >>> 64, s)
    else s.nextBelowWithin n zone tries

/-- A uniform number below `n`, which is positive and has at most 64 bits. -/
def Stream.nextBelow (n : Nat) (s : Stream) : Nat × Stream :=
  let zone := (n <<< (63 - Nat.log2 n)) - 1
  s.nextBelowWithin n zone 1000

end BlockExecution.Random
