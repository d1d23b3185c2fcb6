/-
  Keys of externally owned accounts, drawn from seeds.
-/
import BlockExecution.Random.ChaCha
import BlockExecution.Transaction

namespace BlockExecution

/-- A secret scalar with the address of its public key. -/
structure SigningKey where
  secret : Nat
  address : Address

namespace SigningKey

/-- The key of a secret scalar. -/
def ofSecret (secret : Nat) : SigningKey where
  secret
  address := ((Secp256k1.mulGenerator secret).toPoint?.map Secp256k1.Point.address).getD 0

/-- The key that the random stream of `seed` begins with. -/
def ofSeed (seed : U64) : SigningKey :=
  let words := ((Random.Stream.ofSeed seed).nextWords 8).1
  ofSecret (beNat (words.flatMap Random.wordBytes))

/-- Signs a request. -/
def sign (key : SigningKey) (r : TransactionRequest) : Transaction :=
  r.withSignature (Ecdsa.sign key.secret r.signingHash)

/-- How a key shows itself in a log: its address alone. -/
def text (key : SigningKey) : String :=
  "Account \x7b address: " ++ hexText key.address.bytes ++ " \x7d"

end SigningKey

end BlockExecution
