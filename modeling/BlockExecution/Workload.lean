/-
  Generated workloads: funded accounts, a counter contract, a contract that
  always reverts, and signed transactions that use them.

  Everything is drawn from one seed. Senders come from all accounts, or from a
  small hot pool as often as the conflict factor says; the hotter the workload,
  the smaller the pool. A transaction is a transfer, a call of the counter, or
  one made to fail.
-/
import BlockExecution.Block.Basic
import BlockExecution.SigningKey

namespace BlockExecution

/-- What to generate. -/
structure WorkloadConfig where
  accountCount : Nat := 1000
  transactionCount : Nat := 100
  /-- The share of transactions whose accounts come from the hot pool. -/
  conflictFactor : Float := 0.0
  /-- The share of transactions that call the counter. -/
  contractCallFactor : Float := 0.0
  /-- The share of transactions made to fail. -/
  failureFactor : Float := 0.0
  seed : U64 := 42
  chainId : U64 := 1

/-- A generated workload. -/
structure Workload where
  keys : List SigningKey
  transactions : List Transaction
  genesis : Header

namespace Workload

/-! ## Constants -/

/-- The base fee of generated blocks. -/
def baseFee : Nat := 1000000000

/-- The gas limit of a call. -/
def callGasLimit : U64 := 100000

/-- Enough gas to start a call of the counter, but not to use its storage. -/
def shortGasLimit : U64 := 21628

/-- The gas limit of a transfer. -/
def transferGasLimit : U64 := 21000

/-- The value of a transfer. -/
def transferValue : Word := 1000000000000000

/-- The balance of every account at the start. -/
def initialBalance : Word := 1000000000000000000000

/-- Code that adds one to the slot named by bytes one to thirty-two of the input. -/
def counterCode : Bytes :=
  [0x60, 0x01, 0x35, 0x80, 0x54, 0x60, 0x01, 0x01, 0x90, 0x55, 0x00]

/-- Code that reverts. -/
def reverterCode : Bytes := [0x60, 0x00, 0x60, 0x00, 0xfd]

/-- The address drawn from a word of ASCII letters. -/
def namedAddress (name : String) : Address :=
  Address.ofWord (keccak256 (name.toList.map fun c => c.toNat.toUInt8))

/-- The counter contract. -/
def counter : Address := namedAddress "counter"

/-- The contract that always reverts. -/
def reverter : Address := namedAddress "reverter"

/-- The beneficiary of generated blocks. -/
def beneficiary : Address := namedAddress "beneficiary"

/-- The input that adds one to a slot of the counter. -/
def incrementInput (slot : Word) : Bytes := 0x01 :: slot.bytes

/-! ## Generation -/

/-- The size of the hot pool. -/
def hotPoolSize (c : WorkloadConfig) : Nat :=
  if c.conflictFactor > 0.0 then
    let wanted :=
      2.0 + (1.0 - c.conflictFactor) * (c.accountCount.toUInt64.toFloat - 2.0)
    let atLeastTwo := if wanted > 2.0 then wanted else 2.0
    min atLeastTwo.toUInt64.toNat c.accountCount
  else c.accountCount

/-- The slot of a counter call: one shared by all hot calls, any other else. -/
def drawSlot (c : WorkloadConfig) (hot : Bool) (s : Random.Stream) : Word × Random.Stream :=
  if hot then (0, s)
  else
    let (slot, s) := s.nextBelow c.accountCount
    (BitVec.ofNat 256 slot, s)

/-- A request that calls the counter with the given gas limit. -/
def drawCounterCall (c : WorkloadConfig) (hot : Bool) (gasLimit : U64) (r : TransactionRequest)
    (s : Random.Stream) : TransactionRequest × Random.Stream :=
  let (slot, s) := drawSlot c hot s
  ({ r with recipient := some counter, gasLimit, input := incrementInput slot }, s)

/-- A request that is made to fail: a call of the reverter, or one of the counter that runs out
of gas. -/
def drawFailure (c : WorkloadConfig) (hot : Bool) (r : TransactionRequest) (s : Random.Stream) :
    TransactionRequest × Random.Stream :=
  let (revert, s) := s.nextCoin
  if revert then
    ({ r with recipient := some reverter, gasLimit := callGasLimit, input := [0xfd] }, s)
  else drawCounterCall c hot shortGasLimit r s

/-- A request that pays another account of the pool than the sender. -/
def drawTransfer (keys : Array SigningKey) (pool sender : Nat) (r : TransactionRequest)
    (s : Random.Stream) : TransactionRequest × Random.Stream :=
  let (drawn, s) := s.nextBelow (pool - 1)
  let recipient := if drawn ≥ sender then drawn + 1 else drawn
  ({ r with
      recipient := keys[recipient]?.map (·.address)
      gasLimit := transferGasLimit
      value := transferValue }, s)

/-- A request of the given kind of draw. -/
def drawBody (c : WorkloadConfig) (keys : Array SigningKey) (hot : Bool) (pool sender : Nat)
    (r : TransactionRequest) (s : Random.Stream) : TransactionRequest × Random.Stream :=
  let (roll, s) := s.nextUnit
  if roll < c.failureFactor then drawFailure c hot r s
  else if roll < c.failureFactor + c.contractCallFactor || pool < 2 then
    drawCounterCall c hot callGasLimit r s
  else drawTransfer keys pool sender r s

/-- The next transaction. `nonces` counts what each account has sent. -/
def drawTransaction (c : WorkloadConfig) (keys : Array SigningKey) (nonces : Table Nat U64)
    (s : Random.Stream) : Transaction × Table Nat U64 × Random.Stream :=
  let (roll, s) := s.nextUnit
  let hot := roll < c.conflictFactor
  let pool := if hot then hotPoolSize c else c.accountCount
  let (sender, s) := s.nextBelow pool
  let key := keys[sender]?.getD (SigningKey.ofSecret 1)
  let nonce := nonces.getD sender 0
  let r : TransactionRequest :=
    { chainId := c.chainId, nonce, sender := key.address
      maxFee := BitVec.ofNat 128 (2 * baseFee), maxPriorityFee := BitVec.ofNat 128 baseFee }
  let (r, s) := drawBody c keys hot pool sender r s
  (key.sign r, nonces.insert sender (nonce + 1), s)

/-- The next `n` transactions. -/
def drawTransactions (c : WorkloadConfig) (keys : Array SigningKey) :
    Nat → Table Nat U64 → Random.Stream → List Transaction
  | 0, _, _ => []
  | n + 1, nonces, s =>
    let (t, nonces, s) := drawTransaction c keys nonces s
    t :: drawTransactions c keys n nonces s

/-- The header of the block that a workload builds on. -/
def genesisHeader : Header :=
  { number := 0, beneficiary, baseFee := some (BitVec.ofNat 64 baseFee)
    gasLimit := 30000000, excessBlobGas := some 0 }

/-- Generates a workload. Without accounts there is no sender and no transaction. -/
def generate (c : WorkloadConfig) : Workload :=
  let keys := (List.range c.accountCount).map fun i =>
    SigningKey.ofSeed (c.seed + BitVec.ofNat 64 i)
  let count := if keys.isEmpty then 0 else c.transactionCount
  { keys
    transactions := drawTransactions c keys.toArray count ∅ (Random.Stream.ofSeed c.seed)
    genesis := genesisHeader }

/-! ## Chain -/

/-- The state that the workload starts from: every account funded, both contracts deployed. -/
def genesisState (w : Workload) : WorldState :=
  let funded := w.keys.foldl
    (fun s key => s.insertAccount key.address (Account.plain 0 initialBalance)) (∅ : WorldState)
  (funded.insertAccount counter (Account.contract counterCode)).insertAccount reverter
    (Account.contract reverterCode)

/-- An archive whose head is the block that the workload builds on. -/
def archive (w : Workload) : Archive := Archive.ofGenesis w.genesis w.genesisState

/-- The gas limit of the generated block: room for every transaction. -/
def blockGasLimit (w : Workload) : U64 :=
  let needed := w.transactions.foldl (fun total t => total + t.request.gasLimit) 0
  if needed < w.genesis.gasLimit then w.genesis.gasLimit else needed

/-- The block that carries every transaction of the workload. -/
def block (w : Workload) : Block where
  header :=
    { number := 1, parentHash := w.genesis.hash, beneficiary
      baseFee := some (BitVec.ofNat 64 baseFee), gasLimit := w.blockGasLimit
      excessBlobGas := some 0, timestamp := 12 }
  transactions := w.transactions

end Workload

end BlockExecution
