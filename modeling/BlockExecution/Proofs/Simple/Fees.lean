/-
  What a transaction of the slot processor costs its sender.

  The check of the sender and the charge compute on words, some of which clip at
  the largest one and some of which wrap around. Below the largest word they
  compute the cost as it is, and a sender that passes covers it and pays just
  that. A cost beyond the largest word clips to it, and then a sender that has
  exactly the largest word passes with less than the cost.
-/
import BlockExecution.Proofs.Simple.ReadSet

namespace BlockExecution.Simple

open BlockExecution.Snapshot

variable {config : ProcessorConfig} {ctx : BlockContext} {t : Transaction} {v : Validation}
  {r : TransactionRequest} {senderNonce : U64} {u final kept : Snapshot} {st : Settlement}

/-! ## Costs as numbers -/

/-- The price of the blobs of a request. -/
def blobCost (r : TransactionRequest) (blobGasPrice : Word) : Nat :=
  blobGasPrice.toNat * (131072 * r.blobHashes.length)

/-- The most that a request can cost its sender: all its gas at the highest fee, its value, and its
blobs. -/
def fullCost (r : TransactionRequest) (blobGasPrice : Word) : Nat :=
  r.gasLimit.toNat * r.maxFee.toNat + r.value.toNat + blobCost r blobGasPrice

/-- What is paid for the gas that a transaction used, and for its blobs. -/
def feeOf (ctx : BlockContext) (t : Transaction) (gasUsed : U64) : Nat :=
  gasUsed.toNat * (t.effectiveGasPrice ctx.header.basePrice).toNat
    + blobCost t.request ctx.blobGasPrice

/-- The check computes the full cost, clipped at the largest word. -/
theorem toNat_maxCost (hblobs : r.blobHashes.length < 2 ^ 40) (blobGasPrice : Word) :
    (maxCost r blobGasPrice).toNat = min (fullCost r blobGasPrice) (2 ^ 256 - 1) := by
  have hfee : (r.blobFee blobGasPrice).toNat = min (blobCost r blobGasPrice) (2 ^ 256 - 1) :=
    toNat_blobFee_eq_min hblobs blobGasPrice
  have hgas := toNat_cost r.gasLimit r.maxFee
  unfold maxCost fullCost
  rw [toNat_satAdd, toNat_satAdd, hfee, hgas]
  omega

/-- A sender that passes covers the full cost, as long as that is a word. -/
theorem Passes.fullCost_le (h : Passes config ctx t v u)
    (hblobs : t.request.blobHashes.length < 2 ^ 40)
    (hword : fullCost t.request ctx.blobGasPrice < 2 ^ 256) :
    fullCost t.request ctx.blobGasPrice ≤ (u.balance t.request.sender).toNat := by
  have hcover := maxCost_le_balance h.sender
  rw [toNat_maxCost hblobs] at hcover
  show _ ≤ ((u.account t.request.sender).getD {}).balance.toNat
  omega

/-- A sender that passes with a cost beyond the largest word has just the largest word. -/
theorem Passes.balance_of_clipped (h : Passes config ctx t v u)
    (hblobs : t.request.blobHashes.length < 2 ^ 40)
    (hclipped : 2 ^ 256 ≤ fullCost t.request ctx.blobGasPrice) :
    (u.balance t.request.sender).toNat = 2 ^ 256 - 1 := by
  have hcover := maxCost_le_balance h.sender
  have hlt : (u.balance t.request.sender).toNat < 2 ^ 256 := (u.balance t.request.sender).isLt
  have hsame : (u.balance t.request.sender).toNat =
      ((u.account t.request.sender).getD {}).balance.toNat := rfl
  rw [toNat_maxCost hblobs] at hcover
  omega

/-- So a sender with less than the largest word covers the full cost. -/
theorem Passes.fullCost_le_of_lt (h : Passes config ctx t v u)
    (hblobs : t.request.blobHashes.length < 2 ^ 40)
    (hroom : (u.balance t.request.sender).toNat < 2 ^ 256 - 1) :
    fullCost t.request ctx.blobGasPrice ≤ (u.balance t.request.sender).toNat := by
  apply h.fullCost_le hblobs
  by_contra hclipped
  have hlargest := h.balance_of_clipped hblobs (Nat.le_of_not_lt hclipped)
  omega

/-! ## What the sender pays -/

/-- Where the sender covers the full cost, the charge takes the price of all gas and of the blobs as
it is, and leaves the value. -/
theorem balance_charged {price : U128} {blobGasPrice : Word}
    (hblobs : r.blobHashes.length < 2 ^ 40) (hprice : price.toNat ≤ r.maxFee.toNat)
    (hcover : fullCost r blobGasPrice ≤ (u.balance r.sender).toNat) :
    ((charged r price blobGasPrice u).balance r.sender).toNat + r.gasLimit.toNat * price.toNat
        + blobCost r blobGasPrice = (u.balance r.sender).toNat ∧
      r.value.toNat ≤ ((charged r price blobGasPrice u).balance r.sender).toNat := by
  have hlt : (u.balance r.sender).toNat < 2 ^ 256 := (u.balance r.sender).isLt
  have hgas : r.gasLimit.toNat * price.toNat ≤ r.gasLimit.toNat * r.maxFee.toNat :=
    Nat.mul_le_mul_left _ hprice
  unfold fullCost at hcover
  -- The blob fee is not clipped, and the sum does not wrap around.
  have hfee : (r.blobFee blobGasPrice).toNat = blobCost r blobGasPrice := by
    rw [toNat_blobFee_eq_min hblobs, ← blobCost]
    omega
  have hpaid := toNat_charge price hfee (by omega)
  have hbalance : (charged r price blobGasPrice u).balance r.sender =
      satSub (u.balance r.sender) (r.gasLimit.toWord * price.toWord + r.blobFee blobGasPrice) :=
    balance_update_self _
  rw [hbalance, toNat_satSub, hpaid]
  omega

/-- Moving the value takes it from a sender that is not itself the target. -/
theorem balance_moved_sender (htarget : target r senderNonce ≠ r.sender) (u : Snapshot) :
    (moved r senderNonce u).balance r.sender = satSub (u.balance r.sender) r.value := by
  have hdebit : (u.debit r.sender r.value).balance r.sender =
      satSub (u.balance r.sender) r.value := balance_update_self _
  unfold target at htarget
  unfold moved
  cases hr : r.recipient with
  | some recipient =>
    rw [hr] at htarget
    exact (balance_update_of_ne (Ne.symm htarget) _).trans hdebit
  | none =>
    rw [hr] at htarget
    exact (balance_update_of_ne (Ne.symm htarget) _).trans hdebit

/-- After its charge a transaction takes the value from its sender, if its body is kept. -/
theorem Ran.balance_kept (h : Ran config ctx t senderNonce u st final kept)
    (htarget : st.result.isSuccessful = true → target t.request senderNonce ≠ t.request.sender)
    {start : Snapshot}
    (hstart : start =
      charged t.request (t.effectiveGasPrice ctx.header.basePrice) ctx.blobGasPrice u)
    (hvalue : t.request.value.toNat ≤ (start.balance t.request.sender).toNat) :
    (kept.balance t.request.sender).toNat
        + (if st.result.isSuccessful then t.request.value.toNat else 0) =
      (start.balance t.request.sender).toNat := by
  cases hsuccess : st.result.isSuccessful with
  | false =>
    rw [h.undone hsuccess, hstart]
    rfl
  | true =>
    have hkept : kept.balance t.request.sender =
        satSub (start.balance t.request.sender) t.request.value :=
      calc kept.balance t.request.sender
        _ = (cleared config t.request senderNonce (moved t.request senderNonce start)).balance
              t.request.sender := by
          unfold Snapshot.balance
          rw [h.accounts hsuccess, hstart]
        _ = (moved t.request senderNonce start).balance t.request.sender :=
          (cleared_eq config t.request senderNonce _ _).2
        _ = _ := balance_moved_sender (htarget hsuccess) start
    rw [hkept, toNat_satSub, if_pos rfl]
    omega

/-- A sender that covers the full cost pays the fee for what was used, and the value if the
transaction succeeds: not less, since nothing is clipped, and not more. -/
theorem Ran.balance_sender (h : Ran config ctx t senderNonce u st final kept)
    (hstatic : staticFault config ctx.header t v = none)
    (hblobs : t.request.blobHashes.length < 2 ^ 40)
    (hcover : fullCost t.request ctx.blobGasPrice ≤ (u.balance t.request.sender).toNat)
    (htarget : st.result.isSuccessful = true → target t.request senderNonce ≠ t.request.sender) :
    (final.balance t.request.sender).toNat + feeOf ctx t st.result.gasUsed
        + (if st.result.isSuccessful then t.request.value.toNat else 0) =
      (u.balance t.request.sender).toNat := by
  have hlt : (u.balance t.request.sender).toNat < 2 ^ 256 := (u.balance t.request.sender).isLt
  obtain ⟨hcharged, hvalue⟩ := balance_charged hblobs (effectiveGasPrice_bounds hstatic).2 hcover
  have hkept := h.balance_kept htarget rfl hvalue
  have hrefund := toNat_refund h.gas (t.effectiveGasPrice ctx.header.basePrice)
  unfold feeOf
  rw [h.final, balance_credit_self, toNat_satAdd]
  omega

/-- A successful transaction is not aimed at its sender: it does not name it, and a contract at the
sender would need the nonce that was just counted up to be zero. -/
theorem Ran.target_ne_sender (h : Ran config ctx t senderNonce u st final kept)
    (hrecipient : t.request.recipient ≠ some t.request.sender)
    (hwrap : t.request.recipient = none → u.nonce t.request.sender + 1 ≠ 0)
    (hsuccess : st.result.isSuccessful = true) :
    target t.request senderNonce ≠ t.request.sender := by
  unfold target
  cases hr : t.request.recipient with
  | some recipient =>
    rintro rfl
    exact hrecipient hr
  | none =>
    intro hcreated
    rw [Option.getD_none] at hcreated
    have hzero := nonce_of_isFree (h.free hsuccess hr)
    rw [hcreated, nonce_charged, if_pos rfl] at hzero
    exact hwrap hr hzero

/-! ## Transactions that do not succeed -/

/-- An account that paid a fee for a transaction of its own: the transaction is counted, and nothing
else differs. -/
structure HasPaid (fee : Nat) (before after : Account) : Prop where
  nonce : after.nonce.toNat = before.nonce.toNat + 1
  balance : after.balance.toNat + fee = before.balance.toNat
  codeHash : after.codeHash = before.codeHash
  code : after.code = before.code

/-- A body that is undone leaves the sender with its fee paid, and nothing more. -/
theorem Ran.hasPaid (h : Ran config ctx t senderNonce u st final kept)
    (hstatic : staticFault config ctx.header t v = none)
    (hblobs : t.request.blobHashes.length < 2 ^ 40)
    (hcover : fullCost t.request ctx.blobGasPrice ≤ (u.balance t.request.sender).toNat)
    (hnonce : (u.nonce t.request.sender).toNat ≠ 2 ^ 64 - 1)
    (hfailed : st.result.isSuccessful = false) :
    ∃ after, HasPaid (feeOf ctx t st.result.gasUsed)
        ((u.account t.request.sender).getD {}) after ∧
      final = u.setAccount t.request.sender (some after) := by
  -- The charge and the refund both write the sender, so the last one stands.
  have hfinal := h.final
  rw [h.undone hfailed, charged, Snapshot.credit, Snapshot.update, Snapshot.update,
    account_setAccount_self, setAccount_setAccount] at hfinal
  have hpaid := h.balance_sender hstatic hblobs hcover fun hsuccess => by
    rw [hfailed] at hsuccess
    cases hsuccess
  rw [hfailed, hfinal, Snapshot.balance, account_setAccount_self] at hpaid
  exact ⟨_, ⟨toNat_nonce_succ hnonce, hpaid, rfl, rfl⟩, hfinal⟩

/-- A transaction that does not succeed leaves nothing but its fee. If it is refused, every account
and every slot is as before, and a watcher is not called. If it fails, it returns no log, and the
sender has paid the price of the gas that was used and of the blobs; the tip on that gas goes to the
beneficiary, which may be the sender itself. -/
theorem process_unsuccessful (config : ProcessorConfig) (ctx : BlockContext) (t : Transaction)
    (v : Validation) {w : Accumulator} (hs : w.Sound) (hr : w.base.Readable)
    (hbalance : (w.values.balance t.request.sender).toNat < 2 ^ 256 - 1)
    (hnonce : (w.values.nonce t.request.sender).toNat < 2 ^ 64 - 1)
    (hblobs : t.request.blobHashes.length < 2 ^ 40) :
    ∃ st reached final, (processor config).Watched ctx t v w st reached final ∧
      (∀ reason, st.result.status = .invalid reason →
        final.values = w.values ∧ st.reward = none) ∧
      (∀ reason, st.result.status = .failed reason → st.result.logs = [] ∧
        final.values.slot = w.values.slot ∧
        ∃ after reward,
          HasPaid (feeOf ctx t st.result.gasUsed)
            ((w.values.account t.request.sender).getD {}) after ∧
          st.reward = some reward ∧
          reward.toNat = st.result.gasUsed.toNat *
            ((t.effectiveGasPrice ctx.header.basePrice).toNat - ctx.header.basePrice.toNat) ∧
          final.values = (processor config).paid ctx.beneficiary (some reward)
            (w.values.setAccount t.request.sender (some after))) := by
  obtain ⟨reached, hsettled, hext, hreached⟩ := (gives_settle config ctx t v w.values).run hs hr
  obtain ⟨final, hwatched⟩ := Processor.exists_watched (p := processor config) hext.sound
    (hext.base ▸ hr) hsettled
  refine ⟨_, reached, final, hwatched, ?_⟩
  have hfinal := hwatched.paid
  rw [hreached] at hfinal
  by_cases hpasses : Passes config ctx t v w.values
  · rw [hpasses.settleOn_eq] at hfinal ⊢
    obtain ⟨kept, hran⟩ := hpasses.ran
    constructor
    · -- It was executed, so it is not refused.
      intro reason hstatus
      have hexecuted := rejection?_result (ranOn ctx t w.values).1
      have hsame : (ranOn ctx t w.values).1.result.status = .invalid reason := hstatus
      rw [ProcessingResult.rejection?, hsame] at hexecuted
      cases hexecuted
    · intro reason hstatus
      have hfailed : (executionOn config ctx t (w.values.nonce t.request.sender)
          w.values).1.result.isSuccessful = false := by
        rw [ProcessingResult.isSuccessful, hstatus]
        rfl
      have hcover := hpasses.fullCost_le_of_lt hblobs hbalance
      -- With the body undone, all that is left of it is the charge and the refund.
      obtain ⟨after, hpaid, hset⟩ :=
        hran.hasPaid hpasses.static hblobs hcover (Nat.ne_of_lt hnonce) hfailed
      rw [hran.reward, hset] at hfinal
      refine ⟨logs_result hfailed, ?_, after, _, hpaid, hran.reward, toNat_tip hpasses.static _,
        hfinal⟩
      rw [hfinal, Processor.slot_paid, slot_setAccount]
  · obtain ⟨fault, hrefused⟩ := settleOn_of_not_passes hpasses
    rw [hrefused] at hfinal ⊢
    exact ⟨fun _ _ => ⟨hfinal, rfl⟩, fun _ hstatus => nomatch hstatus⟩

/-- The block of a call whose sender is the beneficiary as well. -/
def ownBlockContext : BlockContext := { countTwiceContext with beneficiary := 1 }

/-- A call that reverts in the block of its sender: of the fee, which is 788274, the tip of 175172
comes back. -/
theorem process_unsuccessful_ownBlock :
    ∃ w', ((processor { verifySignatures := false }).process ownBlockContext
        (countTwice [0xfd, 1] 200000) .full).runOn (.ofView counterState.view) =
          (.ok (.failed .revert 87586 (some [1])), w') ∧
      w'.values.slot = counterState.view.values.slot ∧
      w'.values.nonce 1 = 1 ∧ w'.values.balance 1 = 999386898 := by
  have hpasses : Passes { verifySignatures := false } ownBlockContext
      (countTwice [0xfd, 1] 200000) .full counterState.view.values :=
    ⟨by decide +kernel, by decide +kernel⟩
  have hspells : Program.Spells
      ⟨[⟨.increment, 7⟩, ⟨.blockHash, 8⟩, ⟨.increment, 7⟩], .revert [1]⟩
      (countTwice [0xfd, 1] 200000).request.input := ⟨[0xfd, 1], rfl, .revert [1]⟩
  have hmeaning := (hpasses.processOn_of_spells rfl (by decide +kernel) hspells
    (by decide +kernel) (by decide +kernel)).1
  obtain ⟨st, reached, final, hwatched, -, hfailed⟩ :=
    process_unsuccessful { verifySignatures := false } ownBlockContext
      (countTwice [0xfd, 1] 200000) .full (Accumulator.sound_ofView counterState.view)
      counterState.readable_view (by decide +kernel) (by decide +kernel) (by decide)
  have hcomputed := (eq_processOn_of_runOn (Accumulator.sound_ofView counterState.view)
    counterState.readable_view hwatched.processed).1
  have hresult : st.result = .failed .revert 87586 (some [1]) :=
    hcomputed.trans (hmeaning.trans (by decide +kernel))
  obtain ⟨-, hslot, after, reward, hpaid, -, hreward, hfinal⟩ :=
    hfailed .revert (by rw [hresult]; rfl)
  have hfee : feeOf ownBlockContext (countTwice [0xfd, 1] 200000) st.result.gasUsed = 788274 := by
    rw [hresult]
    decide +kernel
  have howed : reward.toNat = 175172 := by
    rw [hreward, hresult]
    decide +kernel
  have hbefore : (counterState.view.values.account 1).getD {} = .plain 0 1000000000 := by
    decide +kernel
  -- The beneficiary is the sender, which gets its tip back.
  have hcredited : final.values =
      (counterState.view.values.setAccount 1 (some after)).credit 1 reward := by
    rw [hfinal, Processor.paid, if_neg]
    · rfl
    · rintro ⟨rfl, -⟩
      exact absurd howed (by decide)
  have hself : (counterState.view.values.setAccount 1 (some after)).account 1 = some after :=
    account_setAccount_self ..
  have hnonce : after.nonce.toNat = (Account.plain 0 1000000000).nonce.toNat + 1 :=
    hbefore ▸ hpaid.nonce
  have hbalance : after.balance.toNat + 788274 = (Account.plain 0 1000000000).balance.toNat :=
    hfee ▸ hbefore ▸ hpaid.balance
  refine ⟨final, hresult ▸ hwatched.processed, hslot, BitVec.eq_of_toNat_eq ?_,
    BitVec.eq_of_toNat_eq ?_⟩
  · rw [hcredited, nonce_credit, Snapshot.nonce, hself]
    exact hnonce
  · rw [hcredited, balance_credit_self, toNat_satAdd, Snapshot.balance, hself, howed]
    show min (after.balance.toNat + 175172) (2 ^ 256 - 1) = 999386898
    have hfunds : (Account.plain 0 1000000000).balance.toNat = 1000000000 := by decide
    omega

/-! ## Transactions that are executed -/

/-- The nonce of the sender of an executed transaction does not wrap around to zero, if the one it
carries does not or, where nonces are not checked, the one on its account. -/
theorem Passes.nonce_succ_ne_zero (h : Passes config ctx t v u)
    (hnonce : t.request.nonce.toNat < 2 ^ 64 - 1)
    (hunchecked : v.checkNonce = false → (u.nonce t.request.sender).toNat < 2 ^ 64 - 1) :
    u.nonce t.request.sender + 1 ≠ 0 := by
  apply Simple.nonce_succ_ne_zero
  cases hcheck : v.checkNonce with
  | false => exact Nat.ne_of_lt (hunchecked hcheck)
  | true =>
    have hsame : u.nonce t.request.sender = t.request.nonce := nonce_of_senderFault hcheck h.sender
    rw [hsame]
    exact Nat.ne_of_lt hnonce

/-- The sender of an executed transaction covers its full cost and pays just the fee, and the value
if it succeeds, exactly if the full cost is a word. Otherwise it has the largest word. The nonces
matter to creations only: a contract at the sender itself would bring the value back to it. -/
theorem process_pays_iff (config : ProcessorConfig) (ctx : BlockContext) (t : Transaction)
    (v : Validation) {w : Accumulator} (hs : w.Sound) (hr : w.base.Readable)
    (hnonce : t.request.nonce.toNat < 2 ^ 64 - 1)
    (hunchecked : v.checkNonce = false → t.request.recipient = none →
      (w.values.nonce t.request.sender).toNat < 2 ^ 64 - 1)
    (hblobs : t.request.blobHashes.length < 2 ^ 40)
    (hbeneficiary : ctx.beneficiary ≠ t.request.sender)
    (hrecipient : t.request.recipient ≠ some t.request.sender) :
    ∃ result w', ((processor config).process ctx t v).runOn w = (.ok result, w') ∧
      (result.rejection? = none →
        ((fullCost t.request ctx.blobGasPrice ≤ (w.values.balance t.request.sender).toNat ∧
            (w'.values.balance t.request.sender).toNat + feeOf ctx t result.gasUsed
                + (if result.isSuccessful then t.request.value.toNat else 0) =
              (w.values.balance t.request.sender).toNat) ↔
          fullCost t.request ctx.blobGasPrice < 2 ^ 256) ∧
        (2 ^ 256 ≤ fullCost t.request ctx.blobGasPrice →
          (w.values.balance t.request.sender).toNat = 2 ^ 256 - 1)) := by
  obtain ⟨w', hrun, -, hvalues⟩ := (gives_process config ctx t v w.values).run hs hr
  refine ⟨_, w', hrun, fun hexecuted => ?_⟩
  have hpasses := rejection?_processOn_eq_none_iff.mp hexecuted
  obtain ⟨kept, hran⟩ := hpasses.ran
  refine ⟨⟨?_, fun hword => ?_⟩, hpasses.balance_of_clipped hblobs⟩
  · rintro ⟨hcover, -⟩
    exact lt_of_le_of_lt hcover (w.values.balance t.request.sender).isLt
  · have hcover := hpasses.fullCost_le hblobs hword
    have htarget := hran.target_ne_sender hrecipient fun hcreation =>
      hpasses.nonce_succ_ne_zero hnonce fun hfree => hunchecked hfree hcreation
    have hpaid := hran.balance_sender hpasses.static hblobs hcover htarget
    -- The reward goes to somebody else.
    have hreward : ∀ reward final, ((processor config).rewarded ctx.beneficiary reward
        final).balance t.request.sender = final.balance t.request.sender := by
      intro reward final
      unfold Snapshot.balance Processor.rewarded
      rw [account_setAccount_of_ne (Ne.symm hbeneficiary)]
    refine ⟨hcover, ?_⟩
    rw [hvalues, hpasses.processOn_eq]
    dsimp only
    rw [hreward]
    exact hpaid

/-- A transfer that carries a blob costs its sender the gas at the price, the blob and the value. -/
theorem process_pays_transfer :
    ∃ w', ((processor { verifySignatures := false }).process countTwiceContext
        (transferOf 1 3 0 [5]) .full).runOn (.ofView payersState.view) =
          (.ok (.successful 21000 []), w') ∧
      fullCost (transferOf 1 3 0 [5]).request 1 = 341073 ∧
      (w'.values.balance 1).toNat + 189000 + 131072 + 1 = 1000000000 := by
  obtain ⟨result, w', hrun, hpays⟩ :=
    process_pays_iff { verifySignatures := false } countTwiceContext (transferOf 1 3 0 [5]) .full
      (Accumulator.sound_ofView payersState.view) payersState.readable_view (by decide)
      (fun _ h => nomatch h) (by decide) (by decide) (by decide)
  have hcomputed := (eq_processOn_of_runOn (Accumulator.sound_ofView payersState.view)
    payersState.readable_view hrun).1
  obtain rfl : result = .successful 21000 [] := hcomputed.trans (by decide +kernel)
  obtain ⟨-, hpaid⟩ := (hpays rfl).1.mpr (by decide +kernel)
  have hbefore : ((Accumulator.ofView payersState.view).values.balance
      (transferOf 1 3 0 [5]).request.sender).toNat = 1000000000 := by decide +kernel
  have hfee : feeOf countTwiceContext (transferOf 1 3 0 [5])
      (ProcessingResult.successful 21000 []).gasUsed = 189000 + 131072 := by decide +kernel
  have hvalue : (if (ProcessingResult.successful 21000 []).isSuccessful then
      (transferOf 1 3 0 [5]).request.value.toNat else 0) = 1 := by decide +kernel
  rw [hbefore, hfee, hvalue, ← Nat.add_assoc] at hpaid
  exact ⟨w', hrun, by decide +kernel, hpaid⟩

/-- An account with the largest balance there is. -/
def richestState : WorldState := (∅ : WorldState).insertAccount 1 (.plain 0 (.allOnes 256))

/-- A transfer of all that it has. -/
def giveAll : Transaction where
  request :=
    { chainId := 1, sender := 1, recipient := some 3, value := .allOnes 256, gasLimit := 21000
      maxFee := 10, maxPriorityFee := 2 }
  signature := ⟨1, 1, false⟩
  hash := 0

/-- It cannot pay for the gas of the transfer, and yet the transfer succeeds: the recipient gets all
that the sender had, although part of that went into the fee. -/
theorem process_unaffordable :
    ∃ w', ((processor { verifySignatures := false }).process countTwiceContext giveAll
        .full).runOn (.ofView richestState.view) = (.ok (.successful 21000 []), w') ∧
      (richestState.view.values.balance 1).toNat < fullCost giveAll.request 1 ∧
      feeOf countTwiceContext giveAll 21000 = 189000 ∧
      w'.values.balance 1 = 0 ∧ w'.values.balance 3 = .allOnes 256 := by
  obtain ⟨w', hrun, -, hvalues⟩ := (gives_process { verifySignatures := false } countTwiceContext
    giveAll .full richestState.view.values).run (Accumulator.sound_ofView richestState.view)
      richestState.readable_view
  have hmeaning : (processOn { verifySignatures := false } countTwiceContext giveAll .full
      richestState.view.values).1 = .successful 21000 [] := by decide +kernel
  rw [hmeaning] at hrun
  refine ⟨w', hrun, by decide +kernel, by decide +kernel, ?_, ?_⟩
  · rw [hvalues]
    decide +kernel
  · rw [hvalues]
    decide +kernel

end BlockExecution.Simple
