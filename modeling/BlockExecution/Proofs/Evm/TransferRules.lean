/-
  The rules for plain transfers.

  A plain transfer moves value to an account without code, and so it runs nothing.
  The rules say which plain transfers a machine refuses and what it reports of the
  others: what they cost, which accounts they use and what becomes of them. All
  amounts are numbers without bounds.
-/
import BlockExecution.Proofs.Evm.Query
import BlockExecution.Proofs.Evm.Writing
import BlockExecution.Evm.Engine

namespace BlockExecution

/-! ## Plain transfers -/

/-- Whether an account has no code. -/
structure Account.IsPlain (a : Account) : Prop where
  codeHash : a.codeHash = keccakEmpty
  code : a.code = []

theorem Account.IsPlain.hasCode {a : Account} (h : a.IsPlain) : a.hasCode = false := by
  rw [Account.hasCode, bne_eq_false_iff_eq]
  exact h.codeHash

/-- A request that does nothing but move its value, from a sender without code to a recipient that
has no code and is no built-in contract. -/
structure TransactionRequest.IsPlainTransfer (r : TransactionRequest) (recipient : Address)
    (u : Snapshot) : Prop where
  calls : r.recipient = some recipient
  input : r.input = []
  accessList : r.accessList = []
  blobHashes : r.blobHashes = []
  nonce : r.nonce.toNat < 2 ^ 64 - 1
  senderPlain : ((u.account r.sender).getD {}).IsPlain
  recipientPlain : ((u.account recipient).getD {}).IsPlain
  ordinary : ∀ n < Evm.reservedAddresses, recipient ≠ BitVec.ofNat 160 (n + 1)

namespace Evm

/-! ## What the rules say -/

/-- Gas of a transaction that runs nothing. -/
def transferGas : Nat := 21000

namespace Input

/-- Whether a plain transfer is run whose sender has the account `sender`. -/
structure Admits (i : Input) (sender : Account) : Prop where
  chainId : i.tx.chainId = i.settings.chainId
  baseFee : i.basePrice ≤ i.tx.maxFee
  priorityFee : i.tx.maxPriorityFee ≤ i.tx.maxFee
  blockGas : i.tx.gasLimit ≤ i.block.gasLimit
  gas : transferGas ≤ i.tx.gasLimit.toNat
  nonce : i.settings.checkNonce = true → sender.nonce = i.tx.nonce
  /-- The sender holds the value and the most that all gas can cost. -/
  funds : i.tx.gasLimit.toNat * i.tx.maxFee.toNat + i.tx.value.toNat ≤ sender.balance.toNat

/-- What a plain transfer costs its sender: the value and the gas. -/
def transferCost (i : Input) : Nat := i.tx.value.toNat + transferGas * i.gasPrice.toNat

/-- What a plain transfer earns the beneficiary: the gas, at what its price is above the base
fee. -/
def transferReward (i : Input) : Nat := transferGas * (i.gasPrice.toNat - i.basePrice.toNat)

/-- What a plain transfer makes of the account at an address, which may be the sender, the recipient
and the beneficiary all at once. -/
structure Moves (i : Input) (recipient address : Address) (before after : Account) : Prop where
  nonce : after.nonce = before.nonce + if address = i.tx.sender then 1 else 0
  balance : after.balance.toNat + (if address = i.tx.sender then i.transferCost else 0) =
    before.balance.toNat + (if address = recipient then i.tx.value.toNat else 0)
      + if address = i.block.beneficiary then i.transferReward else 0
  codeHash : after.codeHash = before.codeHash
  code : after.code = before.code

end Input

/-- What a machine reports of a plain transfer on the values `u`. There is one frame, which loads
the sender and the recipient. These two take part in the outcome, and nobody else does but the
beneficiary. -/
structure EngineRun.IsTransfer (run : EngineRun) (i : Input) (recipient : Address)
    (u : Snapshot) : Prop where
  result : run.result = .success (BitVec.ofNat 64 transferGas) []
  frame : ∃ loaded, run.events = [.opened, .closed loaded] ∧
    ∀ a, a ∈ loaded ↔ a = i.tx.sender ∨ a = recipient
  distinct : (run.diff.map (·.address)).Nodup
  parties : ∀ a, a = i.tx.sender ∨ a = recipient →
    ∃ d ∈ run.diff, d.address = a ∧ d.touched = true
  others : ∀ d ∈ run.diff, d.touched = true →
    d.address = i.tx.sender ∨ d.address = recipient ∨ d.address = i.block.beneficiary
  plain : ∀ d ∈ run.diff, d.touched = true → d.IsPlain
  moves : ∀ d ∈ run.diff, d.touched = true →
    i.Moves recipient d.address ((u.account d.address).getD {}) d.account

/-- Told of a plain transfer, the machine follows the rules on the values `u`. This is asked of one
input at a time: a machine that works out prices in bounded words follows the rules where they do
not overflow. -/
structure Engine.FollowsTransferRules (e : Engine) (i : Input) (u : Snapshot)
    (blockHash? : U64 → Option Hash) : Prop where
  refuses : ∀ recipient, i.tx.toTransactionRequest.IsPlainTransfer recipient u →
    ¬ i.Admits ((u.account i.tx.sender).getD {}) →
      ∃ refusal, (e i).on blockHash? u = some (.ok (.error refusal))
  runs : ∀ recipient, i.tx.toTransactionRequest.IsPlainTransfer recipient u →
    i.Admits ((u.account i.tx.sender).getD {}) →
      ∃ run, (e i).on blockHash? u = some (.ok (.ok run)) ∧ run.IsTransfer i recipient u

/-! ## Runs by the rules -/

namespace EngineRun.IsTransfer

variable {run : EngineRun} {ctx : BlockContext} {t : Transaction} {config : ProcessorConfig}
  {v : Validation} {recipient : Address} {u : Snapshot}

/-- The beneficiary was used if it is one of the two parties. -/
theorem used_iff (h : run.IsTransfer (.of config ctx t v) recipient u) :
    (run.payout ctx t).used = true ↔
      ctx.beneficiary = t.request.sender ∨ ctx.beneficiary = recipient := by
  obtain ⟨loaded, hevents, hloaded⟩ := h.frame
  have hused : (run.payout ctx t).used = loaded.contains ctx.beneficiary := by
    rw [EngineRun.payout, hevents]
    rfl
  rw [hused, List.contains_iff_mem]
  exact hloaded _

/-- What is written back are the entries of the two parties. -/
theorem isWritten_iff (h : run.IsTransfer (.of config ctx t v) recipient u) {d : AccountDiff}
    (hd : d ∈ run.diff) :
    d.isWritten (run.payout ctx t) = true ↔
      d.touched = true ∧ (d.address = t.request.sender ∨ d.address = recipient) := by
  rw [AccountDiff.isWritten, Bool.and_eq_true, Bool.or_eq_true, bne_iff_ne, h.used_iff]
  apply and_congr_right
  intro htouched
  constructor
  · rintro (hused | hother)
    · rcases h.others d hd htouched with hsender | hrecipient | hbeneficiary
      · exact .inl hsender
      · exact .inr hrecipient
      · rw [hbeneficiary]
        exact hused
    · rcases h.others d hd htouched with hsender | hrecipient | hbeneficiary
      · exact .inl hsender
      · exact .inr hrecipient
      · exact absurd hbeneficiary hother
  · intro hparty
    by_cases hbeneficiary : d.address = ctx.beneficiary
    · exact .inl (hbeneficiary ▸ hparty)
    · exact .inr hbeneficiary

end EngineRun.IsTransfer

end Evm

end BlockExecution
