/-
  Block headers, their hash, and the price of blob gas.

  A header is hashed in its list encoding. The fields that later revisions
  appended are optional; an absent one is left out of the list, and those that
  follow it move up.
-/
import BlockExecution.Crypto.Keccak
import BlockExecution.Rlp

namespace BlockExecution

/-- The hash of an empty list of uncle headers. -/
def emptyOmmersHash : Hash :=
  0x1dcc4de8dec75d7aab85b567b6ccd41ad312451b948a7413f0a142fd40d49347#256

/-- The root of an empty trie. -/
def emptyTrieRoot : Hash :=
  0x56e81f171bcc55a6ff8345e692c0f86e5b48e01b996cadc001622fb5e363b421#256

/-- A block header. -/
structure Header where
  parentHash : Hash := 0
  ommersHash : Hash := emptyOmmersHash
  beneficiary : Address := 0
  stateRoot : Hash := emptyTrieRoot
  transactionsRoot : Hash := emptyTrieRoot
  receiptsRoot : Hash := emptyTrieRoot
  logsBloom : BitVec 2048 := 0
  difficulty : Word := 0
  number : U64 := 0
  gasLimit : U64 := 0
  gasUsed : U64 := 0
  timestamp : U64 := 0
  extraData : Bytes := []
  mixHash : Hash := 0
  nonce : U64 := 0
  baseFee : Option U64 := none
  withdrawalsRoot : Option Hash := none
  blobGasUsed : Option U64 := none
  excessBlobGas : Option U64 := none
  parentBeaconBlockRoot : Option Hash := none
  requestsHash : Option Hash := none
  deriving DecidableEq, Inhabited

namespace Header

/-- The encodings of the fields that every header has. -/
def requiredItems (h : Header) : List Bytes :=
  [ Rlp.ofBytes (Word.bytes h.parentHash)
  , Rlp.ofBytes (Word.bytes h.ommersHash)
  , Rlp.ofBytes h.beneficiary.bytes
  , Rlp.ofBytes (Word.bytes h.stateRoot)
  , Rlp.ofBytes (Word.bytes h.transactionsRoot)
  , Rlp.ofBytes (Word.bytes h.receiptsRoot)
  , Rlp.ofBytes (beBytes 256 h.logsBloom.toNat)
  , Rlp.ofNat h.difficulty.toNat
  , Rlp.ofNat h.number.toNat
  , Rlp.ofNat h.gasLimit.toNat
  , Rlp.ofNat h.gasUsed.toNat
  , Rlp.ofNat h.timestamp.toNat
  , Rlp.ofBytes h.extraData
  , Rlp.ofBytes (Word.bytes h.mixHash)
  , Rlp.ofBytes h.nonce.bytes ]

/-- The encodings of the optional fields that are present. -/
def optionalItems (h : Header) : List Bytes :=
  [ h.baseFee.map fun fee => Rlp.ofNat fee.toNat
  , h.withdrawalsRoot.map fun root => Rlp.ofBytes (Word.bytes root)
  , h.blobGasUsed.map fun gas => Rlp.ofNat gas.toNat
  , h.excessBlobGas.map fun gas => Rlp.ofNat gas.toNat
  , h.parentBeaconBlockRoot.map fun root => Rlp.ofBytes (Word.bytes root)
  , h.requestsHash.map fun hash => Rlp.ofBytes (Word.bytes hash) ].reduceOption

/-- The hash of a header, which names its block. -/
def hash (h : Header) : Hash :=
  keccak256 (Rlp.ofItems (h.requiredItems ++ h.optionalItems))

/-- The base fee as a price; no base fee counts as zero. -/
def basePrice (h : Header) : U128 := (h.baseFee.getD 0).toU128

end Header

/-! ## Price of blob gas -/

/-- Sums the terms of the exponential series from the `i`-th on until a term vanishes. Products and
sums start again at zero beyond the largest price, as they do in a build that does not check for
overflow; a build that checks stops there. -/
def exponentialTerms (numerator denominator : U128) : Nat → U128 → U128 → U128
  | 0, _, _ => 0
  | terms + 1, i, term =>
    if term = 0 then 0
    else
      term + exponentialTerms numerator denominator terms (i + 1)
        (term * numerator / (denominator * i))

/-- An integer near `factor * e ^ (numerator / denominator)`, by its series with every term
rounded down. Past twice the exponent no product overflows and each term is at most half the one
before, so no term is left 128 terms later. -/
def integerExponential (factor numerator denominator : U128) : U128 :=
  let terms := 2 * numerator.toNat / denominator.toNat + 132
  exponentialTerms numerator denominator terms 1 (factor * denominator) / denominator

/-- How fast the price of blob gas grows with the excess. -/
def blobPriceUpdateFraction : U128 := 3338477

/-- The price of one unit of blob gas in the block of a header: one without an excess. -/
def Header.blobGasPrice (h : Header) : Word :=
  match h.excessBlobGas with
  | none => 1
  | some excess => (integerExponential 1 excess.toU128 blobPriceUpdateFraction).toWord

end BlockExecution
