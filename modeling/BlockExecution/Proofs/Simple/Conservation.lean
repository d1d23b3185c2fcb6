/-
  Conservation of ether.

  A transaction that is executed moves ether between accounts, except for what it
  burns: the base price of its gas and the price of its blobs. No saturating
  operation clips on the way, since the sender covers the largest cost and the
  supply is below the largest word. The sum over a block follows by induction on
  its transactions.
-/
import BlockExecution.Proofs.Simple.Effect

namespace BlockExecution

/-! ## Ether that is burnt -/

/-- What a transaction burns: the base price of the gas it used, and the price of its blobs. -/
def Header.burnt (h : Header) (t : Transaction) (gasUsed : Nat) : Nat :=
  gasUsed * (h.baseFee.getD 0).toNat
    + h.blobGasPrice.toNat * (131072 * t.request.blobHashes.length)

/-- The gas that each transaction used, out of the running totals on the receipts. -/
def gasShares (before : Nat) : List Receipt → List Nat
  | [] => []
  | receipt :: rest =>
    (receipt.cumulativeGasUsed.toNat - before) :: gasShares receipt.cumulativeGasUsed.toNat rest

/-- What transactions burn together, from the gas total `before` them and their receipts on. -/
def Header.burntBy (h : Header) (before : Nat) (transactions : List Transaction)
    (receipts : List Receipt) : Nat :=
  (List.zipWith h.burnt transactions (gasShares before receipts)).sum

theorem Header.burntBy_cons (h : Header) (before : Nat) (t : Transaction)
    (transactions : List Transaction) (receipt : Receipt) (receipts : List Receipt) :
    h.burntBy before (t :: transactions) (receipt :: receipts) =
      h.burnt t (receipt.cumulativeGasUsed.toNat - before)
        + h.burntBy receipt.cumulativeGasUsed.toNat transactions receipts := by
  unfold burntBy
  rw [gasShares, List.zipWith_cons_cons, List.sum_cons]

namespace Simple

open BlockExecution.Snapshot

variable {config : ProcessorConfig} {ctx : BlockContext} {t : Transaction} {v : Validation}
  {r : TransactionRequest} {u final kept : Snapshot} {st : Settlement} {senderNonce : U64}
  {view : WorldView}

/-! ## Prices -/

theorem toNat_cost (gas : U64) (price : U128) :
    (gas.toWord * price.toWord).toNat = gas.toNat * price.toNat := by
  have hlt : gas.toNat * price.toNat < 2 ^ 64 * 2 ^ 128 :=
    Nat.mul_lt_mul'' gas.isLt price.isLt
  rw [BitVec.toNat_mul, U64.toNat_toWord, U128.toNat_toWord]
  apply Nat.mod_eq_of_lt
  omega

/-- The price is between the base price and the fee that the transaction allows. -/
theorem effectiveGasPrice_bounds (h : staticFault config ctx.header t v = none) :
    ctx.header.basePrice.toNat ≤ (t.effectiveGasPrice ctx.header.basePrice).toNat ∧
      (t.effectiveGasPrice ctx.header.basePrice).toNat ≤ t.request.maxFee.toNat := by
  have hbase : ctx.header.basePrice.toNat ≤ t.request.maxFee.toNat := by
    unfold staticFault at h
    dsimp only at h
    split_ifs at h with _ _ hfee
    exact BitVec.not_lt.mp hfee
  have hprice : ctx.header.basePrice.toNat < 2 ^ 128 := ctx.header.basePrice.isLt
  unfold Transaction.effectiveGasPrice
  rw [toNat_minWord, toNat_satAdd]
  omega

/-- A charge that is within a word is computed as it is. -/
theorem toNat_charge (price : U128) {blobGasPrice : Word} {fee : Nat}
    (hfee : (r.blobFee blobGasPrice).toNat = fee)
    (hfits : r.gasLimit.toNat * price.toNat + fee < 2 ^ 256) :
    (r.gasLimit.toWord * price.toWord + r.blobFee blobGasPrice).toNat =
      r.gasLimit.toNat * price.toNat + fee := by
  have hcost := toNat_cost r.gasLimit price
  rw [BitVec.toNat_add_of_lt (by omega), hcost, hfee]

/-- The price of the gas that is left and of the gas that was used make the price of all gas. -/
theorem toNat_refund {limit used : U64} (h : used ≤ limit) (price : U128) :
    ((limit - used).toWord * price.toWord).toNat + used.toNat * price.toNat =
      limit.toNat * price.toNat := by
  rw [toNat_cost, BitVec.toNat_sub_of_le h, ← Nat.add_mul, Nat.sub_add_cancel h]

/-- The tip on gas is what its price is above the base price. -/
theorem toNat_tip (h : staticFault config ctx.header t v = none) (gasUsed : U64) :
    (gasUsed.toWord *
        (t.effectiveGasPrice ctx.header.basePrice - ctx.header.basePrice).toWord).toNat =
      gasUsed.toNat *
        ((t.effectiveGasPrice ctx.header.basePrice).toNat - ctx.header.basePrice.toNat) := by
  rw [toNat_cost, BitVec.toNat_sub_of_le (effectiveGasPrice_bounds h).1]

theorem toNat_blobGas (h : r.blobHashes.length < 2 ^ 40) :
    r.blobGas.toWord.toNat = 131072 * r.blobHashes.length := by
  have hper : gasPerBlob.toNat = 131072 := rfl
  rw [U64.toNat_toWord, TransactionRequest.blobGas, BitVec.toNat_mul, BitVec.toNat_ofNat, hper]
  omega

/-- A sender that passed its check has what the words of the check come to. -/
theorem maxCost_le_balance {blobGasPrice : Word} {sender : Account}
    (h : senderFault t v blobGasPrice sender = none) :
    (maxCost t.request blobGasPrice).toNat ≤ sender.balance.toNat := by
  unfold senderFault at h
  dsimp only at h
  split_ifs at h with _ _ hbalance
  exact BitVec.not_lt.mp hbalance

/-- A sender that passed its check covers the cost, which is thus computed without clipping. -/
theorem cost_le_balance {blobGasPrice : Word} {sender : Account}
    (h : senderFault t v blobGasPrice sender = none)
    (hroom : sender.balance.toNat < 2 ^ 256 - 1) :
    t.request.gasLimit.toNat * t.request.maxFee.toNat + t.request.value.toNat
      + (t.request.blobFee blobGasPrice).toNat ≤ sender.balance.toNat := by
  have hcover := maxCost_le_balance h
  unfold maxCost at hcover
  rw [toNat_satAdd, toNat_satAdd, toNat_cost] at hcover
  omega

/-- The price of blobs clips at the largest word. -/
theorem toNat_blobFee_eq_min (hblobs : r.blobHashes.length < 2 ^ 40) (blobGasPrice : Word) :
    (r.blobFee blobGasPrice).toNat =
      min (blobGasPrice.toNat * (131072 * r.blobHashes.length)) (2 ^ 256 - 1) := by
  unfold TransactionRequest.blobFee
  rw [toNat_satMul, toNat_blobGas hblobs]

/-- The price of blobs that a sender covers is computed without clipping too. -/
theorem toNat_blobFee {blobGasPrice : Word}
    (hcover : (t.request.blobFee blobGasPrice).toNat < 2 ^ 256 - 1)
    (hblobs : t.request.blobHashes.length < 2 ^ 40) :
    (t.request.blobFee blobGasPrice).toNat =
      blobGasPrice.toNat * (131072 * t.request.blobHashes.length) := by
  rw [toNat_blobFee_eq_min hblobs] at hcover ⊢
  omega

/-! ## Supply after each part of a transaction -/

/-- Charging a sender that covers price, blobs and value takes just price and blobs, and leaves the
value. -/
theorem supply_charged (price : U128) {blobGasPrice : Word} {fee : Nat}
    (hfee : (r.blobFee blobGasPrice).toNat = fee)
    (hcover : r.gasLimit.toNat * price.toNat + r.value.toNat + fee ≤
      (u.balance r.sender).toNat) :
    (charged r price blobGasPrice u).supply + (r.gasLimit.toNat * price.toNat + fee) = u.supply ∧
      r.value.toNat ≤ ((charged r price blobGasPrice u).balance r.sender).toNat := by
  have hword : (u.balance r.sender).toNat < 2 ^ 256 := (u.balance r.sender).isLt
  have hpaid := toNat_charge price hfee (by omega)
  constructor
  · rw [← hpaid]
    exact supply_update_satSub (fun _ => rfl) (by omega)
  · have hbalance : (charged r price blobGasPrice u).balance r.sender =
        satSub (u.balance r.sender)
          (r.gasLimit.toWord * price.toWord + r.blobFee blobGasPrice) := balance_update_self _
    rw [hbalance, toNat_satSub, hpaid]
    omega

/-- A value that the sender has is moved as it is. -/
theorem supply_moved (h : r.value.toNat ≤ (u.balance r.sender).toNat) (senderNonce : U64)
    (hroom : u.supply < 2 ^ 256) : (moved r senderNonce u).supply = u.supply := by
  have hdebit := supply_debit h
  have hfits : (u.debit r.sender r.value).supply + r.value.toNat < 2 ^ 256 := by omega
  unfold moved
  cases r.recipient with
  | some recipient =>
    dsimp only
    rw [supply_credit hfits]
    exact hdebit
  | none =>
    dsimp only
    rw [supply_update_satAdd (fun _ => rfl) hfits]
    exact hdebit

theorem supply_cleared (config : ProcessorConfig) (r : TransactionRequest) (senderNonce : U64)
    (u : Snapshot) : (cleared config r senderNonce u).supply = u.supply :=
  supply_congr fun a => (cleared_eq config r senderNonce u a).2

/-- A body moves ether or does nothing: either way the supply stays that of the charge. -/
theorem Ran.supply_kept (h : Ran config ctx t senderNonce u st final kept) {start : Snapshot}
    (hstart : start =
      charged t.request (t.effectiveGasPrice ctx.header.basePrice) ctx.blobGasPrice u)
    (hvalue : t.request.value.toNat ≤ (start.balance t.request.sender).toNat)
    (hroom : start.supply < 2 ^ 256) : kept.supply = start.supply := by
  have hundone := h.undone
  have haccounts := h.accounts
  rw [← hstart] at hundone haccounts
  cases hsuccess : st.result.isSuccessful with
  | false => rw [hundone hsuccess]
  | true =>
    have hmoved := supply_moved hvalue senderNonce hroom
    rw [← supply_cleared config t.request senderNonce] at hmoved
    rw [← hmoved]
    apply supply_congr
    intro a
    unfold Snapshot.balance
    rw [haccounts hsuccess]

/-- The price of gas is the tip on it and its base price. -/
theorem gas_split {price base : Nat} (hbase : base ≤ price) (used : Nat) :
    used * price = used * (price - base) + used * base := by
  rw [← Nat.mul_add, Nat.sub_add_cancel hbase]

/-- What a transaction that was executed leaves, with its reward, is what was there without the base
price of its gas and the price of its blobs. -/
theorem Ran.supply_add_fees
    (h : Ran config ctx t ((u.account t.request.sender).getD {}).nonce u st final kept)
    (hstatic : staticFault config ctx.header t v = none)
    (hsender : senderFault t v ctx.blobGasPrice ((u.account t.request.sender).getD {}) = none)
    (hroom : u.supply < 2 ^ 256 - 1) :
    final.supply + (st.result.gasUsed.toWord *
        (t.effectiveGasPrice ctx.header.basePrice - ctx.header.basePrice).toWord).toNat
      + (st.result.gasUsed.toNat * ctx.header.basePrice.toNat
        + (t.request.blobFee ctx.blobGasPrice).toNat) = u.supply := by
  obtain ⟨hbase, hmax⟩ := effectiveGasPrice_bounds hstatic
  have hbalance := balance_le_supply u t.request.sender
  have hcover := cost_le_balance hsender (lt_of_le_of_lt hbalance hroom)
  -- What was charged for gas is the refund, the tip and the part that is burnt.
  have hsplit := gas_split hbase st.result.gasUsed.toNat
  have hafford : t.request.gasLimit.toNat *
      (t.effectiveGasPrice ctx.header.basePrice).toNat ≤
        t.request.gasLimit.toNat * t.request.maxFee.toNat := Nat.mul_le_mul_left _ hmax
  have hsenderBalance : (u.balance t.request.sender).toNat =
      ((u.account t.request.sender).getD {}).balance.toNat := rfl
  obtain ⟨fee, hfee⟩ : ∃ fee, (t.request.blobFee ctx.blobGasPrice).toNat = fee := ⟨_, rfl⟩
  obtain ⟨hcharged, hvalue⟩ :=
    supply_charged (u := u) (t.effectiveGasPrice ctx.header.basePrice) hfee (by omega)
  have hkept := h.supply_kept rfl hvalue (by omega)
  have hrefund := toNat_refund h.gas (t.effectiveGasPrice ctx.header.basePrice)
  have htip := toNat_tip hstatic st.result.gasUsed
  rw [h.final, supply_credit (by omega), hkept, htip]
  omega

/-- What a transaction that was executed leaves, with its reward, is what was there without what it
burns. -/
theorem Ran.supply_eq
    (h : Ran config ctx t ((u.account t.request.sender).getD {}).nonce u st final kept)
    (hstatic : staticFault config ctx.header t v = none)
    (hsender : senderFault t v ctx.blobGasPrice ((u.account t.request.sender).getD {}) = none)
    (hroom : u.supply < 2 ^ 256 - 1) (hblobs : t.request.blobHashes.length < 2 ^ 40) :
    final.supply + (st.result.gasUsed.toWord *
        (t.effectiveGasPrice ctx.header.basePrice - ctx.header.basePrice).toWord).toNat
      + (st.result.gasUsed.toNat * ctx.header.basePrice.toNat
        + ctx.blobGasPrice.toNat * (131072 * t.request.blobHashes.length)) = u.supply := by
  have hsupply := h.supply_add_fees hstatic hsender hroom
  rw [← toNat_blobFee (by omega) hblobs]
  exact hsupply

/-! ## Supply after transactions -/

/-- A transaction that is not refused keeps the supply, except for what it burns. -/
theorem ensures_process (config : ProcessorConfig)
    (hctx : ctx.blobGasPrice = ctx.header.blobGasPrice) (hroom : u.supply < 2 ^ 256 - 1)
    (hblobs : t.request.blobHashes.length < 2 ^ 40) :
    ((processor config).process ctx t v).Ensures u fun result final =>
      result.rejection? = none → result.gasUsed ≤ t.request.gasLimit ∧
        final.supply + ctx.header.burnt t result.gasUsed.toNat = u.supply := by
  have hprice : ctx.header.basePrice.toNat = (ctx.header.baseFee.getD 0).toNat :=
    U64.toNat_toU128 _
  apply (ensures_processed config ctx t v u).mono
  intro result rewarded hprocessed hexecuted
  cases hprocessed with
  | refused fault => cases hexecuted
  | @ran st final kept reward hstatic hsender h howed =>
    have hsupply := h.supply_eq hstatic hsender hroom hblobs
    obtain rfl : _ = reward := Option.some.inj (h.reward.symm.trans howed)
    rw [hprice, hctx] at hsupply
    refine ⟨h.gas, ?_⟩
    unfold Header.burnt
    rw [Processor.rewarded_eq]
    -- The reward is credited, or it is zero and was not owed to anyone.
    split
    · rename_i hskip
      have hzero : (0 : Word).toNat = 0 := rfl
      rw [hskip.1, hzero, Nat.add_zero] at hsupply
      exact hsupply
    · rw [supply_credit (by omega)]
      exact hsupply

/-- What a part of a block that went through has done: a receipt for each of its transactions,
totals of gas within the limit, and a supply less only by what was burnt. -/
structure Conserves (view : WorldView) (h : Header) (transactions : List Transaction)
    (b b' : BlockProgress) (receipts : List Receipt) : Prop where
  world : b'.world.StandsOn view
  gas : b'.gasUsed ≤ h.gasLimit
  appended : b'.receipts = b.receipts ++ receipts
  length : receipts.length = transactions.length
  supply : b'.world.values.supply + h.burntBy b.gasUsed.toNat transactions receipts =
    b.world.values.supply

theorem conserves_processNext {index : Nat} {b b' : BlockProgress}
    (hctx : ctx.blobGasPrice = ctx.header.blobGasPrice)
    (hblobs : t.request.blobHashes.length < 2 ^ 40) (hr : view.Readable)
    (hb : b.world.StandsOn view) (hgas : b.gasUsed ≤ ctx.header.gasLimit)
    (hroom : b.world.values.supply < 2 ^ 256 - 1)
    (h : ((processor config).processNext ctx none index t).runOn b = (.ok (), b')) :
    ∃ receipt, receipt.cumulativeGasUsed = b'.gasUsed ∧
      Conserves view ctx.header [t] b b' [receipt] := by
  obtain ⟨havailable, result, world, hrun, hrejection, rfl⟩ := Processor.processNext_none_ok h
  obtain ⟨answer, world', hrun', hext, hpost⟩ :=
    ensures_process (v := .full) config hctx hroom hblobs b.world hb.sound (hb.base ▸ hr) rfl
  rw [hrun, Prod.mk.injEq, Except.ok.injEq] at hrun'
  obtain ⟨rfl, rfl⟩ := hrun'
  obtain ⟨hused, hsupply⟩ := hpost hrejection
  have hle : b.gasUsed.toNat ≤ ctx.header.gasLimit.toNat := hgas
  have hlimit : ctx.header.gasLimit.toNat < 2 ^ 64 := ctx.header.gasLimit.isLt
  have hspent : result.gasUsed.toNat ≤ t.request.gasLimit.toNat := hused
  -- The turn was taken, so the limit of the transaction fits into the gas that was left.
  have hleft : t.request.gasLimit.toNat ≤
      ctx.header.gasLimit.toNat - b.gasUsed.toNat := by
    rw [← BitVec.toNat_sub_of_le hgas]
    exact Nat.le_of_not_lt havailable
  have htotal : (b.gasUsed + result.gasUsed).toNat =
      b.gasUsed.toNat + result.gasUsed.toNat := BitVec.toNat_add_of_lt (by omega)
  have hwithin : (b.gasUsed + result.gasUsed).toNat ≤ ctx.header.gasLimit.toNat := by omega
  refine ⟨⟨result.isSuccessful, b.gasUsed + result.gasUsed, result.logs⟩, rfl,
    { world := (hext.standsOn hb).commit
      gas := hwithin
      appended := rfl
      length := rfl
      supply := ?_ }⟩
  have hshare : b.gasUsed.toNat + result.gasUsed.toNat - b.gasUsed.toNat =
      result.gasUsed.toNat := Nat.add_sub_cancel_left ..
  rw [Header.burntBy_cons, htotal, hshare]
  exact hsupply

theorem Conserves.trans {h : Header} {transactions : List Transaction}
    {b b' b'' : BlockProgress} {receipt : Receipt} {receipts : List Receipt}
    (hfirst : Conserves view h [t] b b' [receipt]) (htotal : receipt.cumulativeGasUsed = b'.gasUsed)
    (hrest : Conserves view h transactions b' b'' receipts) :
    Conserves view h (t :: transactions) b b'' (receipt :: receipts) where
  world := hrest.world
  gas := hrest.gas
  appended := by
    rw [hrest.appended, hfirst.appended, List.append_assoc, List.singleton_append]
  length := congrArg (· + 1) hrest.length
  supply := by
    have hone := hfirst.supply
    have hmany := hrest.supply
    have hnil : h.burntBy receipt.cumulativeGasUsed.toNat [] [] = 0 := rfl
    rw [Header.burntBy_cons, hnil, htotal] at hone
    rw [Header.burntBy_cons, htotal]
    omega

/-- Transactions that a block goes through in order keep the supply, except for what they burn. -/
theorem conserves_processAll (ctx : BlockContext)
    (hctx : ctx.blobGasPrice = ctx.header.blobGasPrice) (hr : view.Readable)
    (transactions : List Transaction) :
    ∀ {index : Nat} {b b' : BlockProgress}, b.world.StandsOn view →
      b.gasUsed ≤ ctx.header.gasLimit → b.world.values.supply < 2 ^ 256 - 1 →
      (∀ t ∈ transactions, t.request.blobHashes.length < 2 ^ 40) →
      ((processor config).processAll ctx (fun _ _ => none) index transactions).runOn b =
        (.ok (), b') →
      ∃ receipts, Conserves view ctx.header transactions b b' receipts := by
  -- Induction on the transactions; each burns a part, so the room for the next only grows.
  induction transactions with
  | nil =>
    intro index b b' hb hgas hroom hblobs h
    rw [Processor.processAll, BlockExecutionStep.runOn_pure, Prod.mk.injEq] at h
    obtain rfl := h.2
    exact ⟨[], ⟨hb, hgas, (List.append_nil _).symm, rfl, Nat.add_zero _⟩⟩
  | cons t rest ih =>
    intro index b b' hb hgas hroom hblobs h
    rw [Processor.processAll, BlockExecutionStep.runOn_bind] at h
    rcases hnext : ((processor config).processNext ctx none index t).runOn b with ⟨answer, b₁⟩
    rw [hnext] at h
    cases answer with
    | error e => cases h
    | ok _ =>
      obtain ⟨receipt, htotal, hfirst⟩ :=
        conserves_processNext hctx (hblobs t List.mem_cons_self) hr hb hgas hroom hnext
      have hsupply := hfirst.supply
      obtain ⟨receipts, hrest⟩ := ih hfirst.world hfirst.gas (by omega)
        (fun t' ht' => hblobs t' (List.mem_cons_of_mem _ ht')) h
      exact ⟨receipt :: receipts, hfirst.trans htotal hrest⟩

/-! ## Supply after blocks -/

/-- What a block processed in sequence leaves is the supply of its parent without what it burns. -/
theorem supply_sequential {archive : Archive} {block : Block} {parent : WorldState}
    {o : BlockOutcome} (hparent : archive.state? block.header.parentHash = some parent)
    (hroom : parent.supply < 2 ^ 256 - 1)
    (hblobs : ∀ t ∈ block.transactions, t.request.blobHashes.length < 2 ^ 40)
    (h : ((processor config).processBlock archive block .sequential).outcome = .ok o) :
    o.receipts.length = block.transactions.length ∧
      o.state.supply + block.header.burntBy 0 block.transactions o.receipts = parent.supply := by
  have hstart : (Accumulator.ofView parent.view).values.supply = parent.supply := by
    rw [Accumulator.values_ofView]
    exact (parent.supply_eq fun _ => rfl).symm
  rw [Processor.processBlock_of_state hparent] at h
  rcases hrun : (processor config).progressAfter archive block .sequential parent
    block.transactions.length with ⟨answer, b⟩
  rw [hrun] at h
  cases answer with
  | error e => cases h
  | ok _ =>
    obtain rfl := Except.ok.inj h
    unfold Processor.progressAfter at hrun
    rw [List.take_length] at hrun
    obtain ⟨receipts, hcourse⟩ := conserves_processAll (block.context archive) rfl
      parent.readable_view block.transactions (Accumulator.standsOn_ofView parent.view)
      (Nat.zero_le _) (hstart.symm ▸ hroom) hblobs hrun
    have hreceipts : b.receipts = receipts := hcourse.appended
    -- The balances of the state that is left are those of the last values.
    have hstate : (parent.apply b.world.changes).supply = b.world.values.supply :=
      WorldState.supply_eq _ fun a => (Accumulator.account?_apply_changes hcourse.world.sound
        hcourse.world.base a).symm
    have hsupply := hcourse.supply
    rw [hstart] at hsupply
    constructor
    · show b.receipts.length = _
      rw [hreceipts]
      exact hcourse.length
    · show (parent.apply b.world.changes).supply
        + block.header.burntBy 0 block.transactions b.receipts = parent.supply
      rw [hstate, hreceipts]
      exact hsupply

/-- Ether is conserved: whatever is taken over from speculation, an accepted block leaves the supply
of its parent without the base price of the gas and the price of the blobs of its transactions. -/
theorem processBlock_supply {config : ProcessorConfig} {archive : Archive} {block : Block}
    {schedule : Schedule} {parent : WorldState} {o : BlockOutcome}
    (hparent : archive.state? block.header.parentHash = some parent)
    (hroom : parent.supply < 2 ^ 256 - 1)
    (hblobs : ∀ t ∈ block.transactions, t.request.blobHashes.length < 2 ^ 40)
    (h : ((processor config).processBlock archive block schedule).outcome = .ok o) :
    o.receipts.length = block.transactions.length ∧
      (o.state.supply : ℤ) =
        parent.supply - block.header.burntBy 0 block.transactions o.receipts := by
  -- The receipts and the state are those of the sequential course.
  have hagree : OutcomesAgree ((processor config).processBlock archive block .sequential).outcome
      ((processor config).processBlock archive block schedule).outcome :=
    Processor.outcomesAgree_of_not_nets (lawful_processor config)
      fun _ _ => not_nets_of_takesOver
  rw [h] at hagree
  generalize hsequential :
    ((processor config).processBlock archive block .sequential).outcome = s at hagree
  cases hagree with
  | accepted hsame =>
    obtain ⟨hlength, hsupply⟩ := supply_sequential hparent hroom hblobs hsequential
    rw [hsame.receipts, hsame.state]
    exact ⟨hlength, by omega⟩

/-! ## A block of transfers -/

/-- A state with two accounts that can pay. -/
def payersState : WorldState :=
  ((∅ : WorldState).insertAccount 1 (.plain 0 1000000000)).insertAccount 2
    (.plain 0 1000000000)

/-- A transfer of one between accounts, with some blobs. -/
def transferOf (sender recipient : Address) (nonce : U64) (blobHashes : List Hash) :
    Transaction where
  request :=
    { chainId := 1, nonce, sender, recipient := some recipient, value := 1, gasLimit := 21000
      maxFee := 10, maxPriorityFee := 2, blobHashes }
  signature := ⟨1, 1, false⟩
  hash := 0

/-- A block in which the first account pays twice and the second once, for a blob as well. -/
def transfersBlock : Block where
  header := { beneficiary := 9, gasLimit := 30000000, baseFee := some 7 }
  transactions := [transferOf 1 3 0 [], transferOf 2 4 0 [5], transferOf 1 4 1 []]

/-- An archive that keeps the state of the payers. -/
def payersArchive : Archive := { states := (∅ : Table Hash WorldState).insert 0 payersState }

theorem processBlock_supply_transfers :
    ∃ o, ((processor { verifySignatures := false }).processBlock payersArchive transfersBlock
        (.parallel fun _ => true)).outcome = .ok o ∧
      o.receipts.length = 3 ∧
      (o.state.supply : ℤ) = payersState.supply -
        transfersBlock.header.burntBy 0 transfersBlock.transactions o.receipts := by
  have haccepted : ((processor { verifySignatures := false }).processBlock payersArchive
      transfersBlock (.parallel fun _ => true)).outcome.toOption.isSome = true := by
    decide +kernel
  cases h : ((processor { verifySignatures := false }).processBlock payersArchive
      transfersBlock (.parallel fun _ => true)).outcome with
  | error e =>
    rw [h] at haccepted
    cases haccepted
  | ok o =>
    have hparent : payersArchive.state? transfersBlock.header.parentHash = some payersState := by
      decide +kernel
    exact ⟨o, rfl, processBlock_supply hparent (by decide +kernel) (by decide) h⟩

end Simple

end BlockExecution
