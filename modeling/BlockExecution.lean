import BlockExecution.Word
import BlockExecution.Word.Lemmas
import BlockExecution.Bytes
import BlockExecution.Bytes.Lemmas
import BlockExecution.Crypto.Keccak
import BlockExecution.Crypto.Keccak.Lemmas
import BlockExecution.Crypto.Sha256
import BlockExecution.Crypto.Secp256k1
import BlockExecution.Crypto.Ecdsa
import BlockExecution.Random.ChaCha
import BlockExecution.Rlp
import BlockExecution.Address
import BlockExecution.Account
import BlockExecution.Header
import BlockExecution.Transaction
import BlockExecution.BlobGas
import BlockExecution.SigningKey
import BlockExecution.State.Table
import BlockExecution.State.StorageKey
import BlockExecution.State.View
import BlockExecution.State.World
import BlockExecution.State.Archive
import BlockExecution.State.Touch
import BlockExecution.State.Accumulator
import BlockExecution.State.Import
import BlockExecution.State.Execution
import BlockExecution.Processing.Result
import BlockExecution.Processing.Processor
import BlockExecution.Simple.Processor
import BlockExecution.Evm.Processor
import BlockExecution.Speculation.Board
import BlockExecution.Speculation.Collision
import BlockExecution.Speculation.Speculate
import BlockExecution.Speculation.Reconcile
import BlockExecution.Block.Basic
import BlockExecution.Block.Process
import BlockExecution.Workload
import BlockExecution.CommandLine
import BlockExecution.Main
import BlockExecution.Proofs.State.Snapshot
import BlockExecution.Proofs.State.Soundness
import BlockExecution.Proofs.State.Access
import BlockExecution.Proofs.State.Rollback
import BlockExecution.Proofs.State.Locality
import BlockExecution.Proofs.State.Execution
import BlockExecution.Proofs.State.Confined
import BlockExecution.Proofs.State.Import
import BlockExecution.Proofs.State.Changes
import BlockExecution.Proofs.State.Ensures
import BlockExecution.Proofs.State.Supply
import BlockExecution.Proofs.State.SlotTotal
import BlockExecution.Proofs.State.Gives
import BlockExecution.Proofs.State.Operation
import BlockExecution.Proofs.State.Session
import BlockExecution.Proofs.State.Persistence
import BlockExecution.Proofs.State.NetChange
import BlockExecution.Proofs.State.Record
import BlockExecution.Proofs.State.History
import BlockExecution.Proofs.State.Commuting
import BlockExecution.Proofs.State.Canonical
import BlockExecution.Proofs.State.CodeIndex
import BlockExecution.Proofs.State.Transparency
import BlockExecution.Proofs.State.Forgetting
import BlockExecution.Proofs.Transaction.Encoding
import BlockExecution.Proofs.Processing.Lawful
import BlockExecution.Proofs.Processing.Sequence
import BlockExecution.Proofs.Processing.Signature
import BlockExecution.Proofs.Speculation.Context
import BlockExecution.Proofs.Speculation.Merge
import BlockExecution.Proofs.Speculation.Payment
import BlockExecution.Proofs.Speculation.Interleaving
import BlockExecution.Proofs.Block.Run
import BlockExecution.Proofs.Block.Simulation
import BlockExecution.Proofs.Block.Equivalence
import BlockExecution.Proofs.Block.Independence
import BlockExecution.Proofs.Block.Course
import BlockExecution.Proofs.Simple.Stream
import BlockExecution.Proofs.Simple.Settlement
import BlockExecution.Proofs.Simple.Equivalence
import BlockExecution.Proofs.Simple.Conservation
import BlockExecution.Proofs.Simple.Independence
import BlockExecution.Proofs.Simple.Effect
import BlockExecution.Proofs.Simple.Boundary
import BlockExecution.Proofs.Simple.Replay
import BlockExecution.Proofs.Simple.Meaning
import BlockExecution.Proofs.Simple.Reward
import BlockExecution.Proofs.Simple.Call
import BlockExecution.Proofs.Workload.Errand
import BlockExecution.Proofs.Workload.Execution
import BlockExecution.Proofs.Workload.Acceptance
import BlockExecution.Proofs.Evm.Query
import BlockExecution.Proofs.Interpreter.Ledger
import BlockExecution.Proofs.Interpreter.Frame
import BlockExecution.Proofs.Interpreter.Step
import BlockExecution.Proofs.Interpreter.Machine
import BlockExecution.Proofs.Interpreter.Transact
import BlockExecution.Proofs.Evm.Payout
import BlockExecution.Proofs.Evm.Settlement
import BlockExecution.Proofs.Evm.Equivalence
import BlockExecution.Proofs.Evm.WriteOrder
import BlockExecution.Proofs.Evm.TransferRules
import BlockExecution.Proofs.Simple.Decoding
import BlockExecution.Proofs.Simple.ReadSet
import BlockExecution.Proofs.Simple.Fees
import BlockExecution.Proofs.Simple.Accounting
import BlockExecution.Proofs.Simple.ParentHash
import BlockExecution.Proofs.Simple.Retraction
import BlockExecution.Proofs.State.Tracking
import BlockExecution.Proofs.Speculation.Loading
import BlockExecution.Proofs.Simple.Transfer
import BlockExecution.Proofs.Processing.Transfer
