/-
  Transactions: the request, its encoding for signing, and the signature on it.

  A request is signed over the hash of one byte string made of its fields in
  order. A transaction keeps the hash that was signed beside the request, and
  its signature is checked against that stored hash.
-/
import BlockExecution.Crypto.Ecdsa

namespace BlockExecution

/-- An account that a transaction announces to use, with the slots it announces. -/
structure AccessListItem where
  address : Address
  storageKeys : List Hash
  deriving DecidableEq

/-- What a transaction asks for. -/
structure TransactionRequest where
  chainId : U64 := 0
  nonce : U64 := 0
  sender : Address := 0
  /-- The recipient; none to create a contract. -/
  recipient : Option Address := none
  value : Word := 0
  gasLimit : U64 := 0
  maxFee : U128 := 0
  maxPriorityFee : U128 := 0
  input : Bytes := []
  accessList : List AccessListItem := []
  blobHashes : List Hash := []
  deriving DecidableEq

namespace TransactionRequest

/-- The recipient on twenty bytes behind a one, or a zero alone. -/
def recipientBytes : Option Address → Bytes
  | some address => 1 :: address.bytes
  | none => [0]

/-- An access list as addresses, each followed by its slots. -/
def accessListBytes (items : List AccessListItem) : Bytes :=
  items.flatMap fun item => item.address.bytes ++ item.storageKeys.flatMap Word.bytes

/-- The byte string whose hash is signed. -/
def signingData (r : TransactionRequest) : Bytes :=
  r.chainId.bytes ++ r.nonce.bytes ++ r.sender.bytes ++ recipientBytes r.recipient
    ++ r.value.bytes ++ r.gasLimit.bytes ++ r.maxFee.bytes ++ r.maxPriorityFee.bytes
    ++ beBytes 8 r.input.length ++ r.input
    ++ accessListBytes r.accessList ++ r.blobHashes.flatMap Word.bytes

/-- The hash that is signed. -/
def signingHash (r : TransactionRequest) : Hash := keccak256 r.signingData

end TransactionRequest

/-- A signed transaction. The stored hash is the one that was signed. -/
structure Transaction where
  request : TransactionRequest
  signature : Signature
  hash : Hash
  deriving DecidableEq

/-- A request under a signature over its hash. -/
def TransactionRequest.withSignature (r : TransactionRequest) (sig : Signature) : Transaction :=
  { request := r, signature := sig, hash := r.signingHash }

namespace Transaction

/-- The address whose key made the signature over the stored hash. -/
def signer (t : Transaction) : Option Address := Ecdsa.recover t.hash t.signature

/-- Whether the signer is the sender that the request names. -/
def isSignedBySender (t : Transaction) : Bool := t.signer == some t.request.sender

/-- The price paid for a unit of gas: the base fee and the priority fee, at most the maximum. -/
def effectiveGasPrice (t : Transaction) (baseFee : U128) : U128 :=
  minWord t.request.maxFee (satAdd baseFee t.request.maxPriorityFee)

/-- The addresses that the request itself names: sender, recipient and access list. -/
def namedAddresses (t : Transaction) : List Address :=
  t.request.sender :: (t.request.recipient.toList ++ t.request.accessList.map (·.address))

end Transaction

end BlockExecution
