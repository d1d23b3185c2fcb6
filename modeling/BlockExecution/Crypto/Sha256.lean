/-
  The SHA-256 hash and the keyed hash HMAC built on it.
-/
import BlockExecution.Bytes

namespace BlockExecution.Sha256

/-- A 32-bit word turned right by `n` places, `0 < n < 32`. -/
def rotateRight (x : UInt32) (n : UInt32) : UInt32 :=
  (x >>> n) ||| (x <<< (32 - n))

/-- One constant for each of the sixty-four steps. -/
def stepConstants : List UInt32 :=
  [0x428a2f98, 0x71374491, 0xb5c0fbcf, 0xe9b5dba5, 0x3956c25b, 0x59f111f1, 0x923f82a4, 0xab1c5ed5,
   0xd807aa98, 0x12835b01, 0x243185be, 0x550c7dc3, 0x72be5d74, 0x80deb1fe, 0x9bdc06a7, 0xc19bf174,
   0xe49b69c1, 0xefbe4786, 0x0fc19dc6, 0x240ca1cc, 0x2de92c6f, 0x4a7484aa, 0x5cb0a9dc, 0x76f988da,
   0x983e5152, 0xa831c66d, 0xb00327c8, 0xbf597fc7, 0xc6e00bf3, 0xd5a79147, 0x06ca6351, 0x14292967,
   0x27b70a85, 0x2e1b2138, 0x4d2c6dfc, 0x53380d13, 0x650a7354, 0x766a0abb, 0x81c2c92e, 0x92722c85,
   0xa2bfe8a1, 0xa81a664b, 0xc24b8b70, 0xc76c51a3, 0xd192e819, 0xd6990624, 0xf40e3585, 0x106aa070,
   0x19a4c116, 0x1e376c08, 0x2748774c, 0x34b0bcb5, 0x391c0cb3, 0x4ed8aa4a, 0x5b9cca4f, 0x682e6ff3,
   0x748f82ee, 0x78a5636f, 0x84c87814, 0x8cc70208, 0x90befffa, 0xa4506ceb, 0xbef9a3f7, 0xc67178f2]

/-- The eight chaining words. -/
structure State where
  a : UInt32
  b : UInt32
  c : UInt32
  d : UInt32
  e : UInt32
  f : UInt32
  g : UInt32
  h : UInt32

/-- The chaining words before the first block. -/
def State.start : State where
  a := 0x6a09e667
  b := 0xbb67ae85
  c := 0x3c6ef372
  d := 0xa54ff53a
  e := 0x510e527f
  f := 0x9b05688c
  g := 0x1f83d9ab
  h := 0x5be0cd19

/-- One step with its constant and message word. -/
def State.step (s : State) (constant word : UInt32) : State :=
  let mix := rotateRight s.e 6 ^^^ rotateRight s.e 11 ^^^ rotateRight s.e 25
  let choice := (s.e &&& s.f) ^^^ ((~~~ s.e) &&& s.g)
  let t1 := s.h + mix + choice + constant + word
  let spread := rotateRight s.a 2 ^^^ rotateRight s.a 13 ^^^ rotateRight s.a 22
  let majority := (s.a &&& s.b) ^^^ (s.a &&& s.c) ^^^ (s.b &&& s.c)
  { a := t1 + (spread + majority), b := s.a, c := s.b, d := s.c
    e := s.d + t1, f := s.e, g := s.f, h := s.g }

/-- The word that follows the sixteen words of the window. -/
def nextWord (window : Array UInt32) : UInt32 :=
  let w1 := window.getD 1 0
  let w14 := window.getD 14 0
  let s0 := rotateRight w1 7 ^^^ rotateRight w1 18 ^^^ (w1 >>> 3)
  let s1 := rotateRight w14 17 ^^^ rotateRight w14 19 ^^^ (w14 >>> 10)
  window.getD 0 0 + s0 + window.getD 9 0 + s1

/-- Runs the steps over a window of sixteen message words that slides along the schedule. -/
def steps : List UInt32 → Array UInt32 → State → State
  | [], _, s => s
  | constant :: rest, window, s =>
    let s' := s.step constant (window.getD 0 0)
    steps rest ((window.extract 1 16).push (nextWord window)) s'

/-- The message words of a block, big-endian. -/
def wordsOf : Nat → Bytes → List UInt32
  | 0, _ => []
  | n + 1, bs => UInt32.ofNat (beNat (bs.take 4)) :: wordsOf n (bs.drop 4)

/-- Takes one block of sixty-four bytes into the chaining words. -/
def compress (s : State) (block : Bytes) : State :=
  let t := steps stepConstants (wordsOf 16 block).toArray s
  { a := s.a + t.a, b := s.b + t.b, c := s.c + t.c, d := s.d + t.d
    e := s.e + t.e, f := s.f + t.f, g := s.g + t.g, h := s.h + t.h }

/-- The message, a one bit, zeros, and the length in bits on eight bytes. -/
def pad (message : Bytes) : Bytes :=
  let zeros := (119 - message.length % 64) % 64
  message ++ 0x80 :: (List.replicate zeros 0x00 ++ beBytes 8 (8 * message.length))

/-- Takes `blocks` blocks into the chaining words, in order. -/
def absorb : Nat → State → Bytes → State
  | 0, s, _ => s
  | blocks + 1, s, bs => absorb blocks (compress s (bs.take 64)) (bs.drop 64)

/-- The thirty-two bytes of the hash of `message`. -/
def digest (message : Bytes) : Bytes :=
  let padded := pad message
  let s := absorb (padded.length / 64) State.start padded
  [s.a, s.b, s.c, s.d, s.e, s.f, s.g, s.h].flatMap fun word => beBytes 4 word.toNat

/-! ## Keyed hash -/

/-- A key of at most sixty-four bytes, filled with zeros, each byte mixed with `mask`. -/
def maskedKey (key : Bytes) (mask : UInt8) : Bytes :=
  (key ++ List.replicate (64 - key.length) 0x00).map (· ^^^ mask)

/-- The keyed hash of `message` under a key of at most sixty-four bytes. -/
def hmac (key message : Bytes) : Bytes :=
  digest (maskedKey key 0x5c ++ digest (maskedKey key 0x36 ++ message))

end BlockExecution.Sha256
