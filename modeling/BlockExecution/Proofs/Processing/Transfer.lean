/-
  Plain transfers are the same to both processors.

  The two processors check a transaction, charge for it and pay for its gas each
  in their own way. On a transfer between accounts without code they agree, if the
  machine follows the rules for such transfers: both refuse it, or both report the
  same, owe the same reward and leave the same changes.
-/
import BlockExecution.Proofs.Evm.Settlement
import BlockExecution.Proofs.Simple.Transfer
import BlockExecution.Proofs.State.Tracking
import BlockExecution.Evm.Processor

namespace BlockExecution

open BlockExecution.Snapshot

/-! ## Watched runs -/

/-- Whether two watched runs agree: both refuse the transaction, or both report the same, tell of
the same reward and leave the same changes. -/
def TracedRun.Agree (a b : TracedRun) : Prop :=
  ∃ x y, a.result = .ok x ∧ b.result = .ok y ∧
    (x.rejection? = none ↔ y.rejection? = none) ∧
    (x.rejection? = none →
      x = y ∧ a.trace.reward = b.trace.reward ∧ a.world.changes = b.world.changes)

namespace Processor

variable {p q : Processor} {view : WorldView} {ctx : BlockContext} {t : Transaction}
  {v : Validation} {w reached reached' : Accumulator} {st : Settlement}

/-- A run that settles on an accumulator in order is a run that ends in order. -/
theorem KeepsOrder.exists_watched (hp : p.KeepsOrder) (hw : w.StandsOn view) (hr : view.Readable)
    (hsettled : (p.settle ctx t v).runOn w = (.ok st, reached)) :
    ∃ final, p.Watched ctx t v w st reached final ∧ final.StandsOn view := by
  have hreached := hp.standsOn_of_settled hw hsettled
  obtain ⟨final, hwatched⟩ := Processor.exists_watched hreached.sound (hreached.base ▸ hr) hsettled
  have hfinal := hp.standsOn_process ctx t v hw hr
  rw [hwatched.processed] at hfinal
  exact ⟨final, hwatched, hfinal⟩

/-- Processors of the same settings that settle alike agree. -/
theorem agree_of_settled (hp : p.KeepsOrder) (hq : q.KeepsOrder) (hconfig : p.config = q.config)
    (hw : w.StandsOn view) (hr : view.Readable)
    (hsettled : (p.settle ctx t v).runOn w = (.ok st, reached))
    (hsettled' : (q.settle ctx t v).runOn w = (.ok st, reached'))
    (hvalues : reached.values = reached'.values) :
    TracedRun.Agree (p.processTraced ctx t v w) (q.processTraced ctx t v w) := by
  obtain ⟨final, hwatched, hfinal⟩ := hp.exists_watched hw hr hsettled
  obtain ⟨final', hwatched', hfinal'⟩ := hq.exists_watched hw hr hsettled'
  have hpaid : final.values = final'.values := by
    rw [hwatched.paid, hwatched'.paid, hvalues]
    unfold paid
    rw [hconfig]
  rw [hwatched.traced, hwatched'.traced]
  refine ⟨st.result, st.result, rfl, rfl, Iff.rfl, fun _ => ⟨rfl, ?_, ?_⟩⟩
  · cases st.reward <;> rfl
  · exact (Accumulator.changes_eq_iff hfinal.sound hfinal'.sound
      (hfinal.base.trans hfinal'.base.symm)).mpr hpaid

/-- So do processors that both refuse. -/
theorem agree_of_rejected (hp : p.KeepsOrder) (hq : q.KeepsOrder) (hw : w.StandsOn view)
    (hr : view.Readable) {reason reason' : Rejection}
    (hsettled : (p.settle ctx t v).runOn w = (.ok (.rejected reason), reached))
    (hsettled' : (q.settle ctx t v).runOn w = (.ok (.rejected reason'), reached')) :
    TracedRun.Agree (p.processTraced ctx t v w) (q.processTraced ctx t v w) := by
  obtain ⟨final, hwatched, -⟩ := hp.exists_watched hw hr hsettled
  obtain ⟨final', hwatched', -⟩ := hq.exists_watched hw hr hsettled'
  rw [hwatched.traced, hwatched'.traced]
  refine ⟨_, _, rfl, rfl, iff_of_false ?_ ?_, fun hnone => ?_⟩
  · exact Option.some_ne_none reason
  · exact Option.some_ne_none reason'
  · exact absurd hnone (Option.some_ne_none reason)

end Processor

/-! ## Writing a transfer back -/

namespace PlainTransfer

open Evm

variable {config : ProcessorConfig} {ctx : BlockContext} {t : Transaction} {recipient : Address}
  {u final : Snapshot}

theorem nonce_valuesOn_ne_zero (h : t.request.IsPlainTransfer recipient u)
    (hfunded : Funded ctx t u) : (valuesOn ctx t u).nonce t.request.sender ≠ 0 := by
  rw [valuesOn, nonce_credit]
  exact nonce_moved_ne_zero h hfunded

/-- The account at which an empty one is cleared is what is left of it. -/
theorem account_cleared_target (config : ProcessorConfig) {r : TransactionRequest}
    {senderNonce : U64} {z : Snapshot} {x : Account}
    (hx : z.account (Simple.target r senderNonce) = some x) :
    (Simple.cleared config r senderNonce z).account (Simple.target r senderNonce) =
      AccountDiff.left config x := by
  unfold Simple.cleared AccountDiff.left
  cases config.clearEmptyAccounts with
  | false => exact hx
  | true =>
    simp only [if_true, Bool.true_and, Snapshot.clear, hx, Option.any_some]
    split
    · exact account_setAccount_self _ _ _
    · exact hx

/-- A sender that counted its nonce up is not empty, so of the two accounts only the recipient is
ever cleared. -/
theorem eq_cleared (h : t.request.IsPlainTransfer recipient u) (hfunded : Funded ctx t u)
    (hslot : final.slot = u.slot)
    (hparties : ∀ a, a = t.request.sender ∨ a = recipient →
      ∃ x, (valuesOn ctx t u).account a = some x ∧ final.account a = AccountDiff.left config x)
    (hrest : ∀ a, a ≠ t.request.sender → a ≠ recipient → final.account a = u.account a) :
    final = Simple.cleared config t.request (u.nonce t.request.sender) (valuesOn ctx t u) := by
  have htarget : Simple.target t.request (u.nonce t.request.sender) = recipient := by
    rw [Simple.target, h.calls, Option.getD_some]
  have hothers : ∀ a, a ≠ recipient → (Simple.cleared config t.request
      (u.nonce t.request.sender) (valuesOn ctx t u)).account a = (valuesOn ctx t u).account a :=
    fun a ha => Simple.agreeOn_cleared (htarget ▸ ha) config _ (.account a) rfl
  ext1
  · funext a
    by_cases hrecipient : a = recipient
    · subst hrecipient
      obtain ⟨x, hx, hleft⟩ := hparties a (.inr rfl)
      rw [← htarget] at hx
      have hself := account_cleared_target config hx
      rw [htarget] at hself
      rw [hself, hleft]
    · rw [hothers a hrecipient]
      by_cases hsender : a = t.request.sender
      · obtain ⟨x, hx, hleft⟩ := hparties a (.inl hsender)
        have hnonce := nonce_valuesOn_ne_zero h hfunded
        rw [← hsender, Snapshot.nonce, hx, Option.getD_some] at hnonce
        rw [hleft, hx, AccountDiff.left_of_not_isEmpty config (Simple.isEmpty_of_nonce_ne hnonce)]
      · rw [hrest a hsender hrecipient, account_valuesOn_of_ne h hsender hrecipient]
  · rw [hslot, Simple.slot_cleared, slot_valuesOn h]

/-- Nothing is left of a third account but what it was. -/
theorem agreeOn_cleared_valuesOn (h : t.request.IsPlainTransfer recipient u)
    (config : ProcessorConfig) {a : Address} (hsender : a ≠ t.request.sender)
    (hrecipient : a ≠ recipient) :
    AgreeOn {c | c.address = a}
      (Simple.cleared config t.request (u.nonce t.request.sender) (valuesOn ctx t u)) u := by
  have htarget : a ≠ Simple.target t.request (u.nonce t.request.sender) := by
    rw [Simple.target, h.calls, Option.getD_some]
    exact hrecipient
  refine (Simple.agreeOn_cleared htarget config _).trans ?_
  rintro c rfl
  cases c with
  | account a => exact account_valuesOn_of_ne h hsender hrecipient
  | slot k => exact congrFun (slot_valuesOn h) k

end PlainTransfer

namespace Evm.EngineRun.IsTransfer

open PlainTransfer

variable {run : EngineRun} {ctx : BlockContext} {t : Transaction} {config : ProcessorConfig}
  {v : Validation} {recipient : Address} {u : Snapshot}

theorem reward_payout (h : run.IsTransfer (.of config ctx t v) recipient u)
    (hfunded : Funded ctx t u) :
    (run.payout ctx t).reward = Simple.rewardOf ctx.header t 21000 := by
  have htip : satSub (t.effectiveGasPrice ctx.header.basePrice) ctx.header.basePrice =
      t.effectiveGasPrice ctx.header.basePrice - ctx.header.basePrice := if_pos hfunded.price
  rw [EngineRun.payout, h.result, rewardFor, htip]
  rfl

theorem settlement_eq (h : run.IsTransfer (.of config ctx t v) recipient u)
    (hfunded : Funded ctx t u) :
    run.settlement ctx t =
      ⟨.successful 21000 [], some (Simple.rewardOf ctx.header t 21000)⟩ := by
  rw [EngineRun.settlement, h.reward_payout hfunded, h.result]
  rfl

/-- Without the reward, the machine makes the same of the account of a party as the slot processor
does. -/
theorem applyTo_eq (h : run.IsTransfer (.of config ctx t v) recipient u)
    (hplain : t.request.IsPlainTransfer recipient u) (hfunded : Funded ctx t u)
    {d : AccountDiff} (hd : d ∈ run.diff) (htouched : d.touched = true)
    (hparty : d.address = t.request.sender ∨ d.address = recipient) :
    (valuesOn ctx t u).account d.address =
      some (d.applyTo (run.payout ctx t) ((u.account d.address).getD {})) := by
  obtain ⟨x, hx, hnonce, hbalance, hhash, hcode⟩ := exists_account_valuesOn hplain hfunded hparty
  have hmoves := h.moves d hd htouched
  have hmachine : d.account.balance.toNat + (if d.address = t.request.sender then
      t.request.value.toNat + 21000 * (t.effectiveGasPrice ctx.header.basePrice).toNat else 0) =
        (u.balance d.address).toNat + (if d.address = recipient then t.request.value.toNat else 0)
          + if d.address = ctx.beneficiary then
            21000 * ((t.effectiveGasPrice ctx.header.basePrice).toNat
              - ctx.header.basePrice.toNat) else 0 := hmoves.balance
  -- The two balances differ by the reward, which is taken out again.
  have hback : d.balanceBeforeReward (run.payout ctx t) = x.balance := by
    apply BitVec.eq_of_toNat_eq
    rw [AccountDiff.balanceBeforeReward, h.reward_payout hfunded]
    show (if d.address = ctx.beneficiary then _ else _ : Word).toNat = _
    by_cases hbeneficiary : d.address = ctx.beneficiary
    · rw [if_pos hbeneficiary, toNat_satSub, hfunded.reward]
      rw [if_pos hbeneficiary] at hmachine
      omega
    · rw [if_neg hbeneficiary]
      rw [if_neg hbeneficiary] at hmachine
      omega
  calc (valuesOn ctx t u).account d.address = some ⟨x.nonce, x.balance, x.codeHash, x.code⟩ := hx
    _ = some (d.applyTo (run.payout ctx t) ((u.account d.address).getD {})) := by
      rw [AccountDiff.applyTo, hback, hmoves.nonce, hmoves.codeHash, if_pos rfl, hnonce, hhash,
        hcode]
      rfl

/-- What is written back of a transfer is what the slot processor makes of it. -/
theorem gives_write (h : run.IsTransfer (.of config ctx t v) recipient u)
    (hplain : t.request.IsPlainTransfer recipient u) (hfunded : Funded ctx t u) :
    (run.diff.write config (run.payout ctx t)).Gives u ()
      (Simple.cleared config t.request (u.nonce t.request.sender) (valuesOn ctx t u)) := by
  obtain ⟨final, hwrite, hslot, hothers, hentries⟩ := StateDiff.gives_write
    (fun d hd hw => h.plain d hd ((h.isWritten_iff hd).mp hw).1) h.distinct config u
  have hparties : ∀ a, a = t.request.sender ∨ a = recipient →
      ∃ x, (valuesOn ctx t u).account a = some x ∧
        final.account a = AccountDiff.left config x := by
    intro a ha
    obtain ⟨d, hd, rfl, htouched⟩ := h.parties a ha
    exact ⟨_, h.applyTo_eq hplain hfunded hd htouched ha,
      hentries d hd ((h.isWritten_iff hd).mpr ⟨htouched, ha⟩)⟩
  have hrest : ∀ a, a ≠ t.request.sender → a ≠ recipient → final.account a = u.account a := by
    intro a hsender hrecipient
    apply hothers
    rintro d hd hw rfl
    rcases ((h.isWritten_iff hd).mp hw).2 with hparty | hparty
    · exact hsender hparty
    · exact hrecipient hparty
  rw [← eq_cleared hplain hfunded hslot hparties hrest]
  exact hwrite

end Evm.EngineRun.IsTransfer

/-! ## Transfers -/

/-- A transfer that does not pass the checks is rejected by a machine that follows the rules, or
before it comes to the machine. -/
theorem Evm.Engine.FollowsTransferRules.exists_rejected {e : Engine} {config : ProcessorConfig}
    {ctx : BlockContext} {t : Transaction} {v : Validation} {recipient : Address}
    {view : WorldView} {w : Accumulator}
    (he : e.FollowsTransferRules (.of config ctx t v) w.values ctx.blockHash?)
    (h : t.request.IsPlainTransfer recipient w.values)
    (hnot : ¬ ((v.verifySignature && config.verifySignatures && !t.isSignedBySender) = false ∧
      (Input.of config ctx t v).Admits ((w.values.account t.request.sender).getD {})))
    (hw : w.StandsOn view) (hr : view.Readable) :
    ∃ reason w', (e.settle config ctx t v).runOn w = (.ok (.rejected reason), w') := by
  cases hsigned : v.verifySignature && config.verifySignatures && !t.isSignedBySender with
  | true =>
    rw [e.settle_eq, if_pos hsigned]
    exact ⟨_, w, rfl⟩
  | false =>
    obtain ⟨refusal, hrefused⟩ := he.refuses recipient h fun hadmits => hnot ⟨hsigned, hadmits⟩
    obtain ⟨w', hrejected⟩ := e.runOn_settle_of_refused hsigned hrefused hw hr
    exact ⟨_, w', hrejected⟩

/-- Both processors do the same to a transfer, on every accumulator over a state whose balances add
up to less than the largest word, if the machine follows the rules for it. Where the nonce is not
checked, that of the sender must have a successor. -/
theorem PlainTransfer.agree {s : WorldState} {w : Accumulator} (hw : Accumulator.Reached s.view w)
    {e : Evm.Engine} {config : ProcessorConfig} {ctx : BlockContext} {t : Transaction}
    {v : Validation} {recipient : Address}
    (h : t.request.IsPlainTransfer recipient w.values)
    (hgas : t.request.gasLimit ≤ ctx.header.gasLimit) (hroom : w.values.supply < 2 ^ 256 - 1)
    (hunchecked : v.checkNonce = false → (w.values.nonce t.request.sender).toNat < 2 ^ 64 - 1)
    (he : e.FollowsTransferRules (.of config ctx t v) w.values ctx.blockHash?) :
    TracedRun.Agree ((Simple.processor config).processTraced ctx t v w)
      ((e.processor config).processTraced ctx t v w) := by
  obtain ⟨hs, hbase⟩ := hw.sound_base
  have hr := s.readable_view
  have hstands : w.StandsOn s.view := ⟨hbase, hs, hw.tracked⟩
  have hsimple := (Simple.lawful_processor config).toKeepsOrder
  have hevm : (e.processor config).KeepsOrder := ⟨e.standsOn_settle config⟩
  obtain ⟨reached, hsettled, -, hvalues⟩ :=
    (Simple.gives_settle config ctx t v w.values).run hs (hbase ▸ hr)
  -- Either both run it and come to the same values, or both reject it.
  by_cases hpasses : Simple.Passes config ctx t v w.values
  · have hfunded := funded h hpasses hroom hunchecked
    obtain ⟨hsigned, hadmits⟩ := (passes_iff h hgas hroom).mp hpasses
    obtain ⟨run, hrun, htransfer⟩ := he.runs recipient h hadmits
    -- A beneficiary that is read for its reward alone is a third account.
    have hunused : (run.payout ctx t).used = false →
        AgreeOn {c | c.address = ctx.beneficiary} (Simple.cleared config t.request
          (w.values.nonce t.request.sender) (valuesOn ctx t w.values)) w.values := by
      intro hused
      have hthird : ¬ (ctx.beneficiary = t.request.sender ∨ ctx.beneficiary = recipient) := by
        rw [← htransfer.used_iff, hused]
        exact Bool.false_ne_true
      obtain ⟨hsender, hrecipient⟩ := not_or.mp hthird
      exact agreeOn_cleared_valuesOn h config hsender hrecipient
    obtain ⟨reached', hsettled', hvalues'⟩ := e.runOn_settle_of_run hsigned hrun
      (htransfer.gives_write h hfunded) hunused hstands hr
    rw [settleOn_eq h hpasses hfunded] at hsettled hvalues
    rw [htransfer.settlement_eq hfunded] at hsettled'
    exact Processor.agree_of_settled hsimple hevm rfl hstands hr hsettled hsettled'
      (hvalues.trans hvalues'.symm)
  · obtain ⟨fault, hfault⟩ := Simple.settleOn_of_not_passes hpasses
    obtain ⟨reason, reached', hsettled'⟩ := he.exists_rejected h
      (fun hadmitted => hpasses ((passes_iff h hgas hroom).mpr hadmitted)) hstands hr
    rw [hfault] at hsettled
    exact Processor.agree_of_rejected hsimple hevm hstands hr hsettled hsettled'

/-! ## A transfer to the beneficiary -/

/-- A state with one account, which pays. -/
def payersState : WorldState := (∅ : WorldState).insertAccount 0xa1 (.plain 0 (2 ^ 200))

/-- Its values on a fresh accumulator. -/
def payersValues : Snapshot := (Accumulator.ofView payersState.view).values

/-- A block whose beneficiary is the recipient of the transfer. -/
def recipientsContext : BlockContext where
  header := { beneficiary := 0xb2, gasLimit := 30000000, baseFee := some 7 }
  beneficiary := 0xb2
  blockHash? := fun _ => none
  blobGasPrice := 1

/-- A transfer of one. -/
def recipientsTransfer : Transaction where
  request :=
    { chainId := 1, nonce := 0, sender := 0xa1, recipient := some 0xb2, value := 1
      gasLimit := 21000, maxFee := 10, maxPriorityFee := 2 }
  signature := ⟨1, 1, false⟩
  hash := 0

/-- What a machine is told of the transfer when signatures are not checked. -/
def recipientsInput : Evm.Input :=
  .of { verifySignatures := false } recipientsContext recipientsTransfer .full

/-- What the interpreter reports of it. -/
def recipientsRun : Evm.EngineRun where
  result := .success 21000 []
  diff :=
    [{ address := 0xa1, account := .plain 1 (2 ^ 200 - 1 - 21000 * 9) },
      { address := 0xb2, account := .plain 0 (1 + 42000) }]
  events := [.opened, .closed [0xa1, 0xb2]]

theorem isTransfer_recipientsRun :
    recipientsRun.IsTransfer recipientsInput 0xb2 payersValues where
  result := rfl
  frame := ⟨[0xa1, 0xb2], rfl, fun a => by
    rw [List.mem_cons, List.mem_singleton]
    rfl⟩
  distinct := by decide
  parties := by
    rintro a (rfl | rfl)
    · exact ⟨_, List.mem_cons_self, rfl, rfl⟩
    · exact ⟨_, List.mem_cons_of_mem _ List.mem_cons_self, rfl, rfl⟩
  others := by decide
  plain := by
    intro d hd _
    rcases List.mem_pair.mp hd with rfl | rfl
    · exact ⟨rfl, rfl⟩
    · exact ⟨rfl, rfl⟩
  moves := by
    intro d hd _
    rcases List.mem_pair.mp hd with rfl | rfl
    · constructor <;> decide +kernel
    · constructor <;> decide +kernel

/-- The interpreter follows the rules on the transfer. -/
theorem followsTransferRules_recipientsInput :
    Evm.Engine.FollowsTransferRules Interpreter.engine recipientsInput payersValues
      recipientsContext.blockHash? where
  refuses recipient _ hnot := by
    refine absurd ?_ hnot
    constructor <;> decide +kernel
  runs recipient h _ := by
    obtain rfl : (0xb2 : Address) = recipient := Option.some.inj h.calls
    exact ⟨recipientsRun, by decide +kernel, isTransfer_recipientsRun⟩

/-- The transfer on a fresh accumulator. -/
def recipientsTrace (processor : ProcessorConfig → Processor) : TracedRun :=
  (processor { verifySignatures := false }).processTraced recipientsContext recipientsTransfer
    .full (.ofView payersState.view)

theorem isPlainTransfer_recipientsTransfer :
    recipientsTransfer.request.IsPlainTransfer 0xb2 payersValues where
  calls := rfl
  input := rfl
  accessList := rfl
  blobHashes := rfl
  nonce := Nat.zero_lt_succ _
  senderPlain := by constructor <;> decide +kernel
  recipientPlain := by constructor <;> decide +kernel
  ordinary := by decide

/-- The recipient is new, and has the value and the reward of both. -/
theorem PlainTransfer.agree_recipientsTransfer :
    TracedRun.Agree (recipientsTrace Simple.processor) (recipientsTrace Evm.processor) ∧
      (recipientsTrace Evm.processor).result = .ok (.successful 21000 []) ∧
      (recipientsTrace Evm.processor).world.values.balance 0xb2 = 1 + 42000 := by
  have hsupply : payersValues.supply < 2 ^ 256 - 1 := by
    rw [payersValues, ← payersState.supply_eq fun _ => rfl]
    decide +kernel
  refine ⟨PlainTransfer.agree .fresh isPlainTransfer_recipientsTransfer ?_ hsupply ?_
    followsTransferRules_recipientsInput, ?_, ?_⟩
  · decide
  · simp [Validation.full]
  · decide +kernel
  · decide +kernel

end BlockExecution
