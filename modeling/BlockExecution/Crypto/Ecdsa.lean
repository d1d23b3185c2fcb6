/-
  Recoverable signatures over secp256k1.

  A signature is a pair of scalars and the parity of the ordinate of its nonce
  point. The nonce is drawn from the key and the hash alone, so signing is a
  function, and `s` is kept in the lower half of the scalars. Recovery accepts
  either half, turns an upper `s` into the lower one together with the parity,
  and fails on scalars out of range and on points that do not exist.
-/
import BlockExecution.Crypto.Keccak
import BlockExecution.Crypto.Sha256
import BlockExecution.Crypto.Secp256k1

namespace BlockExecution

open Secp256k1

/-- A recoverable signature. -/
structure Signature where
  r : Word
  s : Word
  oddY : Bool
  deriving DecidableEq

/-- The address of a public key: the last twenty bytes of the hash of its coordinates. -/
def Secp256k1.Point.address (p : Point) : Address :=
  Address.ofWord (keccak256 (beBytes 32 p.x ++ beBytes 32 p.y))

/-- The `k`-fold sum of the base point. -/
def Secp256k1.mulGenerator (k : Nat) : Projective :=
  Projective.mul k (Projective.ofPoint generator)

namespace Ecdsa

/-! ## Signing -/

/-- The nonce generator's running key and value. -/
structure NonceState where
  key : Bytes
  value : Bytes

/-- Takes `data` into the running key and value. -/
def NonceState.feed (st : NonceState) (data : Bytes) : NonceState :=
  let key := Sha256.hmac st.key (st.value ++ data)
  ⟨key, Sha256.hmac key st.value⟩

/-- Draws candidates until one lies among the non-zero scalars, at most `tries` times. -/
def drawNonce : Nat → NonceState → Nat
  | 0, _ => 1
  | tries + 1, st =>
    let value := Sha256.hmac st.key st.value
    let k := beNat value
    if 0 < k ∧ k < order then k
    else drawNonce tries (NonceState.feed ⟨st.key, value⟩ [0x00])

/-- The nonce for a key and a hash. -/
def nonce (key hash : Nat) : Nat :=
  let seed := beBytes 32 key ++ beBytes 32 (hash % order)
  let start : NonceState := ⟨List.replicate 32 0x00, List.replicate 32 0x01⟩
  drawNonce 100 ((start.feed (0x00 :: seed)).feed (0x01 :: seed))

/-- Signs `hash` with the secret scalar `key`. -/
def sign (key : Nat) (hash : Hash) : Signature :=
  let k := nonce key hash.toNat
  match (mulGenerator k).toPoint? with
  | none => ⟨0, 0, false⟩
  | some point =>
    let r := point.x % order
    let s := invMod order k * (hash.toNat + r * key) % order
    let odd := point.y % 2 == 1
    if s > order / 2 then ⟨BitVec.ofNat 256 r, BitVec.ofNat 256 (order - s), !odd⟩
    else ⟨BitVec.ofNat 256 r, BitVec.ofNat 256 s, odd⟩

/-! ## Recovery -/

/-- The same signature with `s` in the lower half of the scalars. -/
def normalize (sig : Signature) : Signature :=
  if sig.s.toNat > order / 2 then
    ⟨sig.r, BitVec.ofNat 256 order - sig.s, !sig.oddY⟩
  else sig

/-- The public key under which `sig` signs `hash`. -/
def recoverKey (hash : Hash) (sig : Signature) : Option Point :=
  let sig := normalize sig
  let r := sig.r.toNat
  let s := sig.s.toNat
  if 0 < r ∧ r < order ∧ 0 < s ∧ s < order then
    (liftX r sig.oddY).bind fun point =>
      let inv := invMod order r
      let u1 := (order - hash.toNat % order) * inv % order
      let u2 := s * inv % order
      ((mulGenerator u1).add (Projective.mul u2 (Projective.ofPoint point))).toPoint?
  else none

/-- The address whose key signs `hash` with `sig`. -/
def recover (hash : Hash) (sig : Signature) : Option Address :=
  (recoverKey hash sig).map Point.address

end Ecdsa

end BlockExecution
