/-
  Plain transfers on the slot processor.

  The slot processor follows the rules for plain transfers, as long as all
  balances together are less than the largest word: it admits the same transfers,
  and makes the same of the accounts.
-/
import BlockExecution.Proofs.Evm.TransferRules
import BlockExecution.Proofs.Simple.Boundary
import BlockExecution.Proofs.Simple.Call
import BlockExecution.Proofs.Simple.Fees

namespace BlockExecution

open BlockExecution.Snapshot

/-! ## Values -/

namespace Snapshot

variable {u : Snapshot} {a : Address}

/-- What an update keeps of every account it keeps of the accounts that are there. -/
theorem getD_update {β : Type} {field : Account → β} {f : Account → Account}
    (hf : ∀ x, field (f x) = field x) (u : Snapshot) (a b : Address) :
    field (((u.update a f).account b).getD {}) = field ((u.account b).getD {}) := by
  by_cases h : b = a
  · rw [h, account_update_self, Option.getD_some, hf]
  · rw [account_update_of_ne h]

theorem toNat_balance_credit {amount : Word}
    (h : (u.balance a).toNat + amount.toNat < 2 ^ 256) (b : Address) :
    ((u.credit a amount).balance b).toNat =
      (u.balance b).toNat + if b = a then amount.toNat else 0 := by
  by_cases hab : b = a
  · rw [hab, balance_credit_self, toNat_satAdd, if_pos rfl]
    omega
  · rw [if_neg hab]
    exact congrArg BitVec.toNat (balance_update_of_ne hab _)

theorem toNat_balance_debit {amount : Word} (h : amount.toNat ≤ (u.balance a).toNat)
    (b : Address) :
    ((u.debit a amount).balance b).toNat + (if b = a then amount.toNat else 0) =
      (u.balance b).toNat := by
  by_cases hab : b = a
  · have hself : (u.debit a amount).balance a = satSub (u.balance a) amount :=
      balance_update_self _
    rw [hab, hself, toNat_satSub, if_pos rfl]
    omega
  · rw [if_neg hab]
    exact congrArg BitVec.toNat (balance_update_of_ne hab _)

theorem setAccount_comm {a b : Address} (h : a ≠ b) (u : Snapshot) (x y : Option Account) :
    (u.setAccount a x).setAccount b y = (u.setAccount b y).setAccount a x := by
  simp only [setAccount, Function.update_comm h]

/-- Crediting an account that has a nonce and clearing one can be done in either order. -/
theorem credit_clear {u : Snapshot} {a : Address} (h : u.nonce a ≠ 0) (b : Address)
    (amount : Word) : (u.clear b).credit a amount = (u.credit a amount).clear b := by
  -- An account with a nonce is not empty, so clearing it leaves it.
  have hkept : ∀ z : Snapshot, z.nonce a ≠ 0 → z.clear a = z := by
    intro z hz
    have hany : ¬ (z.account a).any (·.isEmpty) = true := by
      unfold Snapshot.nonce at hz
      cases hx : z.account a with
      | none => simp
      | some x =>
        rw [hx, Option.getD_some] at hz
        simp [Simple.isEmpty_of_nonce_ne hz]
    rw [clear, if_neg hany]
  by_cases hab : b = a
  · subst hab
    rw [hkept u h, hkept _ (by rw [nonce_credit]; exact h)]
  · have hsame : (u.credit a amount).account b = u.account b := account_update_of_ne hab _
    unfold clear
    rw [hsame]
    split
    · rw [credit, update, account_setAccount_of_ne (Ne.symm hab), setAccount_comm hab]
      rfl
    · rfl

end Snapshot

theorem ite_some_eq_none_iff {α : Type} {c : Prop} [Decidable c] {x : α} {y : Option α} :
    (if c then some x else y) = none ↔ ¬ c ∧ y = none := by
  split <;> simp_all

namespace PlainTransfer

variable {config : ProcessorConfig} {ctx : BlockContext} {t : Transaction} {v : Validation}
  {recipient : Address} {u : Snapshot} {sender : Account}

/-! ## Checks -/

theorem intrinsicGas_eq (h : t.request.IsPlainTransfer recipient u) :
    Simple.intrinsicGas t.request = 21000 := by
  simp [Simple.intrinsicGas, Simple.accessListGas, Simple.transactionGas, h.calls, h.input,
    h.accessList]

/-- The faults that show in a plain transfer and the header alone. -/
theorem staticFault_eq_none_iff (h : t.request.IsPlainTransfer recipient u) :
    Simple.staticFault config ctx.header t v = none ↔
      (v.verifySignature && config.verifySignatures && !t.isSignedBySender) = false ∧
        t.request.chainId = config.chainId ∧ ctx.header.basePrice ≤ t.request.maxFee ∧
        t.request.maxPriorityFee ≤ t.request.maxFee ∧ 21000 ≤ t.request.gasLimit.toNat := by
  have hgas : t.request.gasLimit < (21000 : U64) ↔ t.request.gasLimit.toNat < 21000 := by
    rw [BitVec.lt_def]
    rfl
  simp only [Simple.staticFault, ite_some_eq_none_iff, intrinsicGas_eq h, hgas, h.blobHashes]
  simp only [List.isEmpty_nil, Bool.not_true, Bool.false_and, Bool.not_eq_true, Bool.false_eq_true,
    not_false_eq_true, true_and, and_true, not_not, ne_eq, BitVec.not_lt, Nat.not_lt]

/-- A sender without code has no fault if it has the nonce and can pay for all gas and the value. -/
theorem senderFault_eq_none_iff (h : t.request.IsPlainTransfer recipient u)
    (hplain : sender.hasCode = false) (hroom : sender.balance.toNat < 2 ^ 256 - 1) :
    Simple.senderFault t v ctx.blobGasPrice sender = none ↔
      (v.checkNonce = true → sender.nonce = t.request.nonce) ∧
        t.request.gasLimit.toNat * t.request.maxFee.toNat + t.request.value.toNat ≤
          sender.balance.toNat := by
  have hfew : t.request.blobHashes.length < 2 ^ 40 := by simp [h.blobHashes]
  have hcost : (Simple.maxCost t.request ctx.blobGasPrice).toNat =
      min (t.request.gasLimit.toNat * t.request.maxFee.toNat + t.request.value.toNat)
        (2 ^ 256 - 1) := by
    simp [Simple.toNat_maxCost hfew, Simple.fullCost, Simple.blobCost, h.blobHashes]
  -- The largest cost is no cost that the sender covers, so where it is cut off does not matter.
  have hcover : ¬ sender.balance < Simple.maxCost t.request ctx.blobGasPrice ↔
      t.request.gasLimit.toNat * t.request.maxFee.toNat + t.request.value.toNat ≤
        sender.balance.toNat := by
    rw [BitVec.lt_def, hcost]
    omega
  unfold Simple.senderFault
  simp only [ite_some_eq_none_iff, hplain, hcover, Bool.false_eq_true, not_false_eq_true, true_and,
    and_true, Bool.and_eq_true, bne_iff_ne, ne_eq, not_and, not_not]

/-- Behind the signature, the slot processor admits the plain transfers that the rules admit. -/
theorem passes_iff (h : t.request.IsPlainTransfer recipient u)
    (hgas : t.request.gasLimit ≤ ctx.header.gasLimit) (hroom : u.supply < 2 ^ 256 - 1) :
    Simple.Passes config ctx t v u ↔
      (v.verifySignature && config.verifySignatures && !t.isSignedBySender) = false ∧
        (Evm.Input.of config ctx t v).Admits ((u.account t.request.sender).getD {}) := by
  have hplain : ((u.account t.request.sender).getD {}).hasCode = false := h.senderPlain.hasCode
  have hbalance : ((u.account t.request.sender).getD {}).balance.toNat < 2 ^ 256 - 1 :=
    lt_of_le_of_lt (balance_le_supply u t.request.sender) hroom
  have hsender : Simple.senderFault t v ctx.blobGasPrice ((u.account t.request.sender).getD {}) =
      none ↔ _ := senderFault_eq_none_iff h hplain hbalance
  constructor
  · rintro ⟨hstatic, hfunds⟩
    obtain ⟨hsigned, hchain, hbase, hpriority, hlimit⟩ := (staticFault_eq_none_iff h).mp hstatic
    obtain ⟨hnonce, hcovers⟩ := hsender.mp hfunds
    exact ⟨hsigned, hchain, hbase, hpriority, hgas, hlimit, hnonce, hcovers⟩
  · rintro ⟨hsigned, hadmits⟩
    exact ⟨(staticFault_eq_none_iff h).mpr
        ⟨hsigned, hadmits.chainId, hadmits.baseFee, hadmits.priorityFee, hadmits.gas⟩,
      hsender.mpr ⟨hadmits.nonce, hadmits.funds⟩⟩

/-! ## Funds -/

/-- The price of the gas that a transfer leaves. -/
def refund (ctx : BlockContext) (t : Transaction) : Word :=
  (t.request.gasLimit - 21000).toWord * (t.effectiveGasPrice ctx.header.basePrice).toWord

/-- The values after a transfer up to the reward, if nothing is cleared: the sender charged, the
value moved, and the price of the gas that is left back at the sender. -/
def valuesOn (ctx : BlockContext) (t : Transaction) (u : Snapshot) : Snapshot :=
  (Simple.moved t.request (u.nonce t.request.sender) (Simple.startOn ctx t u)).credit
    t.request.sender (refund ctx t)

/-- What keeps a transfer within its words. -/
structure Funded (ctx : BlockContext) (t : Transaction) (u : Snapshot) : Prop where
  gas : 21000 ≤ t.request.gasLimit
  price : ctx.header.basePrice ≤ t.effectiveGasPrice ctx.header.basePrice
  nonce : (u.nonce t.request.sender).toNat < 2 ^ 64 - 1
  charge : ((Simple.startOn ctx t u).balance t.request.sender).toNat
    + t.request.gasLimit.toNat * (t.effectiveGasPrice ctx.header.basePrice).toNat =
      (u.balance t.request.sender).toNat
  value : t.request.value.toNat ≤ ((Simple.startOn ctx t u).balance t.request.sender).toNat
  start : (Simple.startOn ctx t u).supply < 2 ^ 256
  refund : ((Simple.moved t.request (u.nonce t.request.sender)
    (Simple.startOn ctx t u)).balance t.request.sender).toNat + (refund ctx t).toNat < 2 ^ 256
  reward : (Simple.rewardOf ctx.header t 21000).toNat =
    21000 * ((t.effectiveGasPrice ctx.header.basePrice).toNat - ctx.header.basePrice.toNat)

/-- The nonce that the sender has now has a successor, as that of the transaction does. -/
theorem nonce_lt (h : t.request.IsPlainTransfer recipient u)
    (hpasses : Simple.Passes config ctx t v u)
    (hunchecked : v.checkNonce = false → (u.nonce t.request.sender).toNat < 2 ^ 64 - 1) :
    (u.nonce t.request.sender).toNat < 2 ^ 64 - 1 := by
  cases hcheck : v.checkNonce with
  | false => exact hunchecked hcheck
  | true =>
    have hsame : u.nonce t.request.sender = t.request.nonce :=
      Simple.nonce_of_senderFault hcheck hpasses.sender
    rw [hsame]
    exact h.nonce

/-- A sender that passes its checks holds the value and the price of all gas at the largest fee. -/
theorem cost_le_balance (h : t.request.IsPlainTransfer recipient u)
    (hpasses : Simple.Passes config ctx t v u) (hroom : u.supply < 2 ^ 256 - 1) :
    t.request.gasLimit.toNat * t.request.maxFee.toNat + t.request.value.toNat ≤
      (u.balance t.request.sender).toNat := by
  have hplain : ((u.account t.request.sender).getD {}).hasCode = false := h.senderPlain.hasCode
  have hbalance := balance_le_supply u t.request.sender
  exact ((senderFault_eq_none_iff h hplain (lt_of_le_of_lt hbalance hroom)).mp hpasses.sender).2

/-- What such a sender is charged is taken from it and from the whole, and leaves it the value. -/
theorem charged_startOn (h : t.request.IsPlainTransfer recipient u)
    (hprice : (t.effectiveGasPrice ctx.header.basePrice).toNat ≤ t.request.maxFee.toNat)
    (hcost : t.request.gasLimit.toNat * t.request.maxFee.toNat + t.request.value.toNat ≤
      (u.balance t.request.sender).toNat) :
    ((Simple.startOn ctx t u).balance t.request.sender).toNat
        + t.request.gasLimit.toNat * (t.effectiveGasPrice ctx.header.basePrice).toNat =
      (u.balance t.request.sender).toNat ∧
    t.request.value.toNat ≤ ((Simple.startOn ctx t u).balance t.request.sender).toNat ∧
    (Simple.startOn ctx t u).supply
        + t.request.gasLimit.toNat * (t.effectiveGasPrice ctx.header.basePrice).toNat =
      u.supply := by
  have hfew : t.request.blobHashes.length < 2 ^ 40 := by simp [h.blobHashes]
  have hfree : Simple.blobCost t.request ctx.blobGasPrice = 0 := by
    simp [Simple.blobCost, h.blobHashes]
  have hfee : (t.request.blobFee ctx.blobGasPrice).toNat = 0 := by
    rw [Simple.toNat_blobFee_eq_min hfew, h.blobHashes]
    simp
  have hfull : Simple.fullCost t.request ctx.blobGasPrice ≤
      (u.balance t.request.sender).toNat := by
    rw [Simple.fullCost, hfree]
    exact hcost
  have hafford : t.request.gasLimit.toNat * (t.effectiveGasPrice ctx.header.basePrice).toNat ≤
      t.request.gasLimit.toNat * t.request.maxFee.toNat := Nat.mul_le_mul_left _ hprice
  have hcharge : ((Simple.startOn ctx t u).balance t.request.sender).toNat
      + t.request.gasLimit.toNat * (t.effectiveGasPrice ctx.header.basePrice).toNat
      + Simple.blobCost t.request ctx.blobGasPrice = (u.balance t.request.sender).toNat :=
    (Simple.balance_charged hfew hprice hfull).1
  obtain ⟨hsupply, hvalue⟩ : (Simple.startOn ctx t u).supply +
      (t.request.gasLimit.toNat * (t.effectiveGasPrice ctx.header.basePrice).toNat + 0) =
        u.supply ∧
      t.request.value.toNat ≤ ((Simple.startOn ctx t u).balance t.request.sender).toNat :=
    Simple.supply_charged _ hfee (by omega)
  rw [hfree] at hcharge
  exact ⟨hcharge, hvalue, hsupply⟩

/-- A sender that passes its checks funds the transfer. -/
theorem funded (h : t.request.IsPlainTransfer recipient u)
    (hpasses : Simple.Passes config ctx t v u) (hroom : u.supply < 2 ^ 256 - 1)
    (hunchecked : v.checkNonce = false → (u.nonce t.request.sender).toNat < 2 ^ 64 - 1) :
    Funded ctx t u := by
  obtain ⟨hbase, hmax⟩ := Simple.effectiveGasPrice_bounds hpasses.static
  have hlimit : 21000 ≤ t.request.gasLimit := by
    rw [← intrinsicGas_eq h]
    exact Simple.intrinsicGas_le_of_staticFault hpasses.static
  obtain ⟨hcharge, hvalue, hsupply⟩ := charged_startOn h hmax (cost_le_balance h hpasses hroom)
  -- The value only moves, and the refund is part of the charge.
  have hmoved := Simple.supply_moved hvalue (u.nonce t.request.sender) (by omega)
  have hle := balance_le_supply (Simple.moved t.request (u.nonce t.request.sender)
    (Simple.startOn ctx t u)) t.request.sender
  have hrefund : (refund ctx t).toNat +
      (21000 : U64).toNat * (t.effectiveGasPrice ctx.header.basePrice).toNat =
        t.request.gasLimit.toNat * (t.effectiveGasPrice ctx.header.basePrice).toNat :=
    Simple.toNat_refund hlimit _
  exact
    { gas := hlimit
      price := hbase
      nonce := nonce_lt h hpasses hunchecked
      charge := hcharge
      value := hvalue
      start := by omega
      refund := by omega
      reward := Simple.toNat_tip hpasses.static 21000 }

/-- Once it is charged, the sender is not empty. -/
theorem nonce_moved_ne_zero (h : t.request.IsPlainTransfer recipient u)
    (hfunded : Funded ctx t u) :
    (Simple.moved t.request (u.nonce t.request.sender) (Simple.startOn ctx t u)).nonce
      t.request.sender ≠ 0 := by
  rw [Simple.nonce_moved, if_neg (by simp [h.calls]), Simple.startOn, Simple.nonce_charged,
    if_pos rfl]
  exact Simple.nonce_succ_ne_zero (Nat.ne_of_lt hfunded.nonce)

/-! ## Settlements -/

/-- What the slot processor makes of a transfer that passes its checks. -/
theorem settleOn_eq (h : t.request.IsPlainTransfer recipient u)
    (hpasses : Simple.Passes config ctx t v u) (hfunded : Funded ctx t u) :
    Simple.settleOn config ctx t v u =
      (⟨.successful 21000 [], some (Simple.rewardOf ctx.header t 21000)⟩,
        Simple.cleared config t.request (u.nonce t.request.sender) (valuesOn ctx t u)) := by
  have hran : Simple.bodyOn ctx t.request (u.nonce t.request.sender) (Simple.startOn ctx t u) =
      (⟨21000, .ok []⟩, Simple.moved t.request (u.nonce t.request.sender)
        (Simple.startOn ctx t u)) := by
    rw [← intrinsicGas_eq h]
    exact Simple.ranOn_of_plain ctx h.calls h.recipientPlain.codeHash
  -- The slot processor clears the recipient before the refund and not after it.
  have hcleared : (Simple.cleared config t.request (u.nonce t.request.sender)
      (Simple.moved t.request (u.nonce t.request.sender) (Simple.startOn ctx t u))).credit
        t.request.sender (refund ctx t) =
      Simple.cleared config t.request (u.nonce t.request.sender) (valuesOn ctx t u) := by
    unfold Simple.cleared valuesOn
    split
    · exact credit_clear (nonce_moved_ne_zero h hfunded) _ _
    · rfl
  rw [hpasses.settleOn_eq, ← hcleared]
  simp only [Simple.executionOn, hran]
  rfl

/-! ## Accounts -/

theorem moved_eq (h : t.request.IsPlainTransfer recipient u) (senderNonce : U64) (z : Snapshot) :
    Simple.moved t.request senderNonce z =
      (z.debit t.request.sender t.request.value).credit recipient t.request.value := by
  unfold Simple.moved
  rw [h.calls]

/-- The balances after a transfer. -/
theorem balance_valuesOn (h : t.request.IsPlainTransfer recipient u) (hfunded : Funded ctx t u)
    (a : Address) :
    ((valuesOn ctx t u).balance a).toNat
        + (if a = t.request.sender then t.request.value.toNat
            + 21000 * (t.effectiveGasPrice ctx.header.basePrice).toNat else 0) =
      (u.balance a).toNat + if a = recipient then t.request.value.toNat else 0 := by
  have hstart : ((Simple.startOn ctx t u).balance a).toNat + (if a = t.request.sender then
      t.request.gasLimit.toNat * (t.effectiveGasPrice ctx.header.basePrice).toNat else 0) =
        (u.balance a).toNat := by
    by_cases ha : a = t.request.sender
    · rw [if_pos ha, ha]
      exact hfunded.charge
    · rw [if_neg ha, Simple.startOn, Simple.charged]
      exact congrArg BitVec.toNat (balance_update_of_ne ha _)
  -- The payee's balance and the value are part of what all have.
  have hroom : (((Simple.startOn ctx t u).debit t.request.sender t.request.value).balance
      recipient).toNat + t.request.value.toNat < 2 ^ 256 := by
    have hsupply := supply_debit hfunded.value
    have hle := balance_le_supply
      ((Simple.startOn ctx t u).debit t.request.sender t.request.value) recipient
    have hlimit := hfunded.start
    omega
  have hrefund : (refund ctx t).toNat +
      21000 * (t.effectiveGasPrice ctx.header.basePrice).toNat =
        t.request.gasLimit.toNat * (t.effectiveGasPrice ctx.header.basePrice).toNat :=
    Simple.toNat_refund hfunded.gas _
  have hdebit := toNat_balance_debit hfunded.value a
  have hcredit := toNat_balance_credit hroom a
  have hback := toNat_balance_credit hfunded.refund a
  rw [moved_eq h] at hback
  rw [valuesOn, moved_eq h]
  split_ifs at hstart hdebit hcredit hback ⊢ <;> omega

/-- What a transfer leaves of every account that it finds. -/
theorem getD_valuesOn {β : Type} {field : Account → β}
    (hcharge : ∀ (x : Account) nonce balance,
      field { x with nonce := nonce, balance := balance } = field x)
    (h : t.request.IsPlainTransfer recipient u) (a : Address) :
    field (((valuesOn ctx t u).account a).getD {}) = field ((u.account a).getD {}) := by
  have hbalance : ∀ (x : Account) balance, field { x with balance := balance } = field x :=
    fun x balance => hcharge x x.nonce balance
  rw [valuesOn, moved_eq h, credit, getD_update (fun x => hbalance x _), credit,
    getD_update (fun x => hbalance x _), debit, getD_update (fun x => hbalance x _),
    Simple.startOn, Simple.charged, getD_update fun x => hcharge x _ _]

/-- The account of a party after a transfer. -/
theorem exists_account_valuesOn (h : t.request.IsPlainTransfer recipient u)
    (hfunded : Funded ctx t u) {a : Address} (ha : a = t.request.sender ∨ a = recipient) :
    ∃ x, (valuesOn ctx t u).account a = some x ∧
      x.nonce = u.nonce a + (if a = t.request.sender then 1 else 0) ∧
      x.balance.toNat + (if a = t.request.sender then t.request.value.toNat
          + 21000 * (t.effectiveGasPrice ctx.header.basePrice).toNat else 0) =
        (u.balance a).toNat + (if a = recipient then t.request.value.toNat else 0) ∧
      x.codeHash = ((u.account a).getD {}).codeHash ∧ x.code = ((u.account a).getD {}).code := by
  have hpresent : (valuesOn ctx t u).account a ≠ none := by
    rcases ha with rfl | rfl
    · rw [valuesOn, credit, account_update_self]
      exact Option.some_ne_none _
    · rw [valuesOn, credit, moved_eq h]
      apply account_update_ne_none
      rw [credit, account_update_self]
      exact Option.some_ne_none _
  obtain ⟨x, hx⟩ := Option.ne_none_iff_exists'.mp hpresent
  have hself : x = ((valuesOn ctx t u).account a).getD {} := by rw [hx, Option.getD_some]
  refine ⟨x, hx, ?_, ?_, ?_, ?_⟩
  · have hnonce : x.nonce = (valuesOn ctx t u).nonce a := congrArg Account.nonce hself
    rw [hnonce, valuesOn, nonce_credit, moved_eq h, nonce_credit, nonce_debit, Simple.startOn,
      Simple.nonce_charged]
    split_ifs
    · rfl
    · exact (add_zero _).symm
  · have hbalance : x.balance = (valuesOn ctx t u).balance a := congrArg Account.balance hself
    rw [hbalance]
    exact balance_valuesOn h hfunded a
  · rw [hself]
    exact getD_valuesOn (fun _ _ _ => rfl) h a
  · rw [hself]
    exact getD_valuesOn (fun _ _ _ => rfl) h a

/-- Everyone else keeps the account. -/
theorem account_valuesOn_of_ne (h : t.request.IsPlainTransfer recipient u) {a : Address}
    (hsender : a ≠ t.request.sender) (hrecipient : a ≠ recipient) :
    (valuesOn ctx t u).account a = u.account a := by
  rw [valuesOn, moved_eq h, credit, account_update_of_ne hsender, credit,
    account_update_of_ne hrecipient, debit, account_update_of_ne hsender, Simple.startOn,
    Simple.charged, account_update_of_ne hsender]

theorem slot_valuesOn (h : t.request.IsPlainTransfer recipient u) :
    (valuesOn ctx t u).slot = u.slot := by
  rw [valuesOn, moved_eq h]
  rfl

end PlainTransfer

end BlockExecution
