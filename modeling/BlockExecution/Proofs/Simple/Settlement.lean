/-
  Settlements of the slot processor.

  A settlement is local. It always ends, and it either refuses the transaction
  and changes nothing, or charges the sender, keeps or undoes the body, and gives
  back the price of the gas that is left.
-/
import BlockExecution.Proofs.Processing.Lawful
import BlockExecution.Proofs.Simple.Stream
import BlockExecution.Simple.Processor

namespace BlockExecution.Simple

open BlockExecution.Snapshot

variable {config : ProcessorConfig} {ctx : BlockContext} {t : Transaction} {v : Validation}
  {r : TransactionRequest} {senderNonce : U64} {u : Snapshot}

/-! ## The order of a settlement -/

/-- Whether a body failed. -/
def BodyOutcome.isFailed (o : BodyOutcome) : Bool :=
  match o.ending with
  | .ok _ => false
  | .error _ => true

/-- The result of a body whose writes were already undone if it failed. -/
def resultOf (config : ProcessorConfig) (r : TransactionRequest) (senderNonce : U64)
    (outcome : BodyOutcome) : Execution ProcessingResult :=
  match outcome.ending with
  | .ok logs =>
    (if config.clearEmptyAccounts then Execution.deleteIfEmpty (target r senderNonce)
      else pure ()) >>= fun _ => pure (.successful outcome.gasUsed logs)
  | .error (reason, data) => pure (.failed reason outcome.gasUsed data)

/-- What follows a body: its result, the price of the gas that is left, and the reward. -/
def afterBody (config : ProcessorConfig) (r : TransactionRequest) (senderNonce : U64)
    (price baseFee : U128) (outcome : BodyOutcome) : Execution Settlement := do
  let result ← resultOf config r senderNonce outcome
  Execution.increaseBalance r.sender ((r.gasLimit - outcome.gasUsed).toWord * price.toWord)
  return ⟨result, some (outcome.gasUsed.toWord * (price - baseFee).toWord)⟩

theorem conclude_eq (start : Checkpoint) (outcome : BodyOutcome) :
    conclude config r senderNonce start outcome =
      if outcome.isFailed then (do
        Execution.revertTo start
        resultOf config r senderNonce outcome)
      else resultOf config r senderNonce outcome := by
  unfold conclude resultOf BodyOutcome.isFailed
  cases outcome.ending with
  | ok logs =>
    simp only [Bool.false_eq_true, if_false]
    split
    · rfl
    · rw [pure_bind]
  | error failure => rfl

/-- The settlement of a transaction that passed its checks. -/
def execution (config : ProcessorConfig) (ctx : BlockContext) (t : Transaction)
    (senderNonce : U64) : Execution Settlement := do
  let price := t.effectiveGasPrice ctx.header.basePrice
  charge t.request price ctx.blobGasPrice
  let start ← Execution.checkpoint
  let outcome ← body ctx t.request senderNonce
  let result ← conclude config t.request senderNonce start outcome
  Execution.increaseBalance t.request.sender
    ((t.request.gasLimit - outcome.gasUsed).toWord * price.toWord)
  return ⟨result, some (outcome.gasUsed.toWord * (price - ctx.header.basePrice).toWord)⟩

theorem settle_eq :
    settle config ctx t v =
      match staticFault config ctx.header t v with
      | some fault => pure (.rejected (.simple fault))
      | none =>
        Execution.account t.request.sender >>= fun found =>
          match senderFault t v ctx.blobGasPrice (found.getD {}) with
          | some fault => pure (.rejected (.simple fault))
          | none => execution config ctx t (found.getD {}).nonce := by
  unfold settle execution
  cases staticFault config ctx.header t v with
  | some fault => rfl
  | none =>
    apply bind_congr
    intro found
    dsimp only
    cases senderFault t v ctx.blobGasPrice (found.getD {}) <;> rfl

/-! ## Locality -/

theorem local_create (r : TransactionRequest) (created : Address) :
    Local (create r created).runOn := by
  unfold create
  apply Local.executionBind (Local.account created)
  intro found
  split
  · exact Local.executionPure _
  · apply Local.executionBind (Local.decreaseBalance _ _)
    intro _
    exact Local.executionBind (Local.updateAccount _ _) fun _ => Local.executionPure _

theorem local_call (ctx : BlockContext) (r : TransactionRequest) (recipient : Address) :
    Local (call ctx r recipient).runOn := by
  unfold call
  apply Local.executionBind (Local.decreaseBalance _ _)
  intro _
  apply Local.executionBind (Local.increaseBalance _ _)
  intro _
  apply Local.executionBind (Local.account recipient)
  intro found
  split
  · exact local_runStream _ _ _ _ _ _
  · exact Local.executionPure _

theorem local_body (ctx : BlockContext) (r : TransactionRequest) (senderNonce : U64) :
    Local (body ctx r senderNonce).runOn := by
  unfold body
  cases r.recipient with
  | none => exact local_create _ _
  | some recipient => exact local_call _ _ _

theorem local_resultOf (outcome : BodyOutcome) :
    Local (resultOf config r senderNonce outcome).runOn := by
  unfold resultOf
  split
  · refine Local.executionBind ?_ fun _ => Local.executionPure _
    split
    · exact Local.deleteIfEmpty _
    · exact Local.executionPure _
  · exact Local.executionPure _

theorem local_afterBody (price baseFee : U128) (outcome : BodyOutcome) :
    Local (afterBody config r senderNonce price baseFee outcome).runOn := by
  unfold afterBody
  apply Local.executionBind (local_resultOf outcome)
  intro result
  exact Local.executionBind (Local.increaseBalance _ _) fun _ => Local.executionPure _

/-- What follows the checkpoint: failed bodies are undone first. -/
theorem conclude_bind (price baseFee : U128) (start : Checkpoint) (outcome : BodyOutcome) :
    (do
      let result ← conclude config r senderNonce start outcome
      Execution.increaseBalance r.sender ((r.gasLimit - outcome.gasUsed).toWord * price.toWord)
      return (⟨result, some (outcome.gasUsed.toWord * (price - baseFee).toWord)⟩ : Settlement)) =
      if outcome.isFailed then (do
        Execution.revertTo start
        afterBody config r senderNonce price baseFee outcome)
      else afterBody config r senderNonce price baseFee outcome := by
  rw [conclude_eq]
  split
  · rw [bind_assoc]
    rfl
  · rfl

theorem local_execution (config : ProcessorConfig) (ctx : BlockContext) (t : Transaction)
    (senderNonce : U64) : Local (execution config ctx t senderNonce).runOn := by
  unfold execution charge
  apply Local.executionBind (Local.updateAccount _ _)
  intro _
  exact Local.attempt (local_body ctx t.request senderNonce)
    (fun outcome => local_afterBody _ _ outcome)
    (fun start outcome => conclude_bind _ _ start outcome)

theorem local_settle (config : ProcessorConfig) (ctx : BlockContext) (t : Transaction)
    (v : Validation) : Local (settle config ctx t v).runOn := by
  rw [settle_eq]
  split
  · exact Local.executionPure _
  · apply Local.executionBind (Local.account _)
    intro found
    split
    · exact Local.executionPure _
    · exact local_execution config ctx t _

/-! ## Effect -/

/-- The values after the sender was charged. -/
def charged (r : TransactionRequest) (price : U128) (blobGasPrice : Word) (u : Snapshot) :
    Snapshot :=
  u.update r.sender fun a =>
    { a with
      balance := satSub a.balance (r.gasLimit.toWord * price.toWord + r.blobFee blobGasPrice)
      nonce := a.nonce + 1 }

/-- The accounts after a body moved its value to the recipient or into a new contract. -/
def moved (r : TransactionRequest) (senderNonce : U64) (u : Snapshot) : Snapshot :=
  match r.recipient with
  | some recipient => (u.debit r.sender r.value).credit recipient r.value
  | none =>
    (u.debit r.sender r.value).update (r.sender.created senderNonce)
      (createdAccount r.input r.value)

/-- The values without the target of a transaction, if that is empty and empty accounts are
deleted. -/
def cleared (config : ProcessorConfig) (r : TransactionRequest) (senderNonce : U64)
    (u : Snapshot) : Snapshot :=
  if config.clearEmptyAccounts then u.clear (target r senderNonce) else u

/-- Whether a contract can be created at an address. -/
def IsFree (u : Snapshot) (created : Address) : Prop :=
  ¬ (u.account created).any (fun a => a.nonce != 0 || a.hasCode) = true

/-- Whether every slot that differs belongs to an account with code. -/
def SlotsOfCode (u v : Snapshot) : Prop :=
  ∀ k, v.slot k ≠ u.slot k → (v.account k.address).any (·.hasCode) = true

theorem slotsOfCode_of_slot_eq {v : Snapshot} (h : v.slot = u.slot) : SlotsOfCode u v :=
  fun k hk => absurd (congrFun h k) hk

/-- What a body does: nothing to accounts that counts if it fails, and nothing to slots unless
there is code. -/
structure BodyEffect (r : TransactionRequest) (senderNonce : U64) (u : Snapshot)
    (outcome : BodyOutcome) (v : Snapshot) : Prop where
  gas : outcome.gasUsed ≤ r.gasLimit
  accounts : outcome.isFailed = false → v.account = (moved r senderNonce u).account
  slots : SlotsOfCode u v
  free : outcome.isFailed = false → r.recipient = none → IsFree u (r.sender.created senderNonce)

theorem slot_moved (r : TransactionRequest) (senderNonce : U64) (u : Snapshot) :
    (moved r senderNonce u).slot = u.slot := by
  unfold moved
  cases r.recipient <;> rfl

theorem ensures_create (hgas : intrinsicGas r ≤ r.gasLimit) (hr : r.recipient = none) :
    (create r (r.sender.created senderNonce)).Ensures u (BodyEffect r senderNonce u) := by
  have hread : (Execution.account (r.sender.created senderNonce)).Ensures u fun found v =>
      found = u.account (r.sender.created senderNonce) ∧ v = u := .account ⟨rfl, rfl⟩
  have hdebit : (Execution.decreaseBalance r.sender r.value).Ensures u fun _ v =>
      v = u.debit r.sender r.value := .decreaseBalance rfl
  unfold create
  apply hread.bind
  rintro found v ⟨rfl, rfl⟩
  split
  -- A collision has moved nothing, and fails.
  · have hfailed : (BodyOutcome.exhausted r.gasLimit .createCollision).isFailed ≠ false := by
      intro h
      cases h
    exact .pure ⟨BitVec.le_refl _, fun h => absurd h hfailed, slotsOfCode_of_slot_eq rfl,
      fun h => absurd h hfailed⟩
  · rename_i hfree
    apply hdebit.bind
    rintro _ w rfl
    have hcreate : (Execution.updateAccount (r.sender.created senderNonce)
        (createdAccount r.input r.value)).Ensures (v.debit r.sender r.value) fun _ x =>
          x = moved r senderNonce v := by
      apply Execution.Ensures.updateAccount
      unfold moved
      rw [hr]
    have hslots : (moved r senderNonce v).slot = v.slot := slot_moved r senderNonce v
    exact hcreate.bind fun _ x hx =>
      .pure ⟨hgas, fun _ => congrArg Snapshot.account hx,
        slotsOfCode_of_slot_eq (hx ▸ hslots), fun _ _ => hfree⟩

theorem ensures_call (ctx : BlockContext) (hgas : intrinsicGas r ≤ r.gasLimit)
    {recipient : Address} (hr : r.recipient = some recipient) :
    (call ctx r recipient).Ensures u (BodyEffect r senderNonce u) := by
  have hmoved : moved r senderNonce u = (u.debit r.sender r.value).credit recipient r.value := by
    unfold moved
    rw [hr]
  have hdebit : (Execution.decreaseBalance r.sender r.value).Ensures u fun _ v =>
      v = u.debit r.sender r.value := .decreaseBalance rfl
  have hcredit : (Execution.increaseBalance recipient r.value).Ensures
      (u.debit r.sender r.value) fun _ v => v = moved r senderNonce u :=
    .increaseBalance hmoved.symm
  have hread : (Execution.account recipient).Ensures (moved r senderNonce u) fun found v =>
      found = (moved r senderNonce u).account recipient ∧ v = moved r senderNonce u :=
    .account ⟨rfl, rfl⟩
  -- A call ends with the value moved, whether there is code to run or not.
  have hcalled : ∀ outcome v, v.account = (moved r senderNonce u).account →
      outcome.gasUsed ≤ r.gasLimit → SlotsOfCode u v → BodyEffect r senderNonce u outcome v :=
    fun outcome v haccount hused hslots =>
      ⟨hused, fun _ => haccount, hslots, fun _ hnone => by rw [hr] at hnone; cases hnone⟩
  have hslots : (moved r senderNonce u).slot = u.slot := slot_moved r senderNonce u
  unfold call
  apply hdebit.bind
  rintro _ v rfl
  apply hcredit.bind
  rintro _ v rfl
  apply hread.bind
  rintro found v ⟨rfl, rfl⟩
  split
  · rename_i hcode
    apply (ensures_runStream ctx recipient hgas).mono
    rintro outcome v ⟨honly, hused⟩
    refine hcalled outcome v honly.account hused fun k hk => ?_
    -- A slot that differs is one of the recipient, whose code has just run.
    have hrecipient : k.address = recipient := by
      by_contra hne
      exact hk (by rw [honly.slot k hne, hslots])
    rw [honly.account, hrecipient]
    exact hcode
  · exact .pure (hcalled _ _ rfl hgas (slotsOfCode_of_slot_eq hslots))

theorem ensures_body (ctx : BlockContext) (hgas : intrinsicGas r ≤ r.gasLimit) :
    (body ctx r senderNonce).Ensures u (BodyEffect r senderNonce u) := by
  unfold body
  cases hr : r.recipient with
  | none => exact ensures_create hgas hr
  | some recipient => exact ensures_call ctx hgas hr

theorem ensures_resultOf (outcome : BodyOutcome) :
    (resultOf config r senderNonce outcome).Ensures u fun result v =>
      result.gasUsed = outcome.gasUsed ∧ result.isSuccessful = !outcome.isFailed ∧
        v = if outcome.isFailed then u else cleared config r senderNonce u := by
  unfold resultOf BodyOutcome.isFailed
  cases outcome.ending with
  | error failure => exact .pure ⟨rfl, rfl, rfl⟩
  | ok logs =>
    have hclear : (if config.clearEmptyAccounts then
        Execution.deleteIfEmpty (target r senderNonce) else pure ()).Ensures u
          fun _ v => v = cleared config r senderNonce u := by
      unfold cleared
      split
      · exact .deleteIfEmpty rfl
      · exact .pure rfl
    exact hclear.bind fun _ v hv => .pure ⟨rfl, rfl, hv⟩

theorem account_clear_congr {v w : Snapshot} (h : v.account = w.account) (a : Address) :
    (v.clear a).account = (w.clear a).account := by
  unfold Snapshot.clear
  rw [h]
  split
  · show Function.update v.account a none = Function.update w.account a none
    rw [h]
  · exact h

theorem account_cleared_congr {v w : Snapshot} (h : v.account = w.account) :
    (cleared config r senderNonce v).account = (cleared config r senderNonce w).account := by
  unfold cleared
  split
  · exact account_clear_congr h _
  · exact h

theorem slot_cleared (config : ProcessorConfig) (r : TransactionRequest) (senderNonce : U64)
    (u : Snapshot) : (cleared config r senderNonce u).slot = u.slot := by
  unfold cleared Snapshot.clear
  split_ifs <;> rfl

/-- An account that is not empty is not cleared. -/
theorem account_cleared_of_not_isEmpty {a : Address}
    (h : ¬ (u.account a).any (·.isEmpty) = true) (config : ProcessorConfig)
    (r : TransactionRequest) (senderNonce : U64) :
    (cleared config r senderNonce u).account a = u.account a := by
  unfold cleared Snapshot.clear
  split
  · split
    · rename_i hempty
      have hne : a ≠ target r senderNonce := by
        rintro rfl
        exact h hempty
      exact account_setAccount_of_ne hne u none
    · rfl
  · rfl

theorem not_isEmpty_of_hasCode {x : Option Account} (h : x.any (·.hasCode) = true) :
    ¬ x.any (·.isEmpty) = true := by
  cases x with
  | none => exact Bool.false_ne_true
  | some x =>
    rw [Option.any_some] at h ⊢
    simp [Account.isEmpty, h]

theorem SlotsOfCode.cleared {v : Snapshot} (h : SlotsOfCode u v) (config : ProcessorConfig)
    (r : TransactionRequest) (senderNonce : U64) :
    SlotsOfCode u (cleared config r senderNonce v) := by
  intro k hk
  rw [slot_cleared] at hk
  have hcode := h k hk
  rw [account_cleared_of_not_isEmpty (not_isEmpty_of_hasCode hcode)]
  exact hcode

/-- What became of a transaction that passed its checks: `kept` are the values before the price of
the gas that is left went back to the sender. -/
structure Ran (config : ProcessorConfig) (ctx : BlockContext) (t : Transaction)
    (senderNonce : U64) (u : Snapshot) (st : Settlement) (final kept : Snapshot) : Prop where
  gas : st.result.gasUsed ≤ t.request.gasLimit
  reward : st.reward = some (st.result.gasUsed.toWord *
    (t.effectiveGasPrice ctx.header.basePrice - ctx.header.basePrice).toWord)
  final : final = kept.credit t.request.sender
    ((t.request.gasLimit - st.result.gasUsed).toWord *
      (t.effectiveGasPrice ctx.header.basePrice).toWord)
  undone : st.result.isSuccessful = false →
    kept = charged t.request (t.effectiveGasPrice ctx.header.basePrice) ctx.blobGasPrice u
  accounts : st.result.isSuccessful = true → kept.account =
    (cleared config t.request senderNonce (moved t.request senderNonce
      (charged t.request (t.effectiveGasPrice ctx.header.basePrice) ctx.blobGasPrice u))).account
  slots : SlotsOfCode u kept
  free : st.result.isSuccessful = true → t.request.recipient = none →
    IsFree (charged t.request (t.effectiveGasPrice ctx.header.basePrice) ctx.blobGasPrice u)
      (t.request.sender.created senderNonce)

theorem ensures_afterBody (price baseFee : U128) (outcome : BodyOutcome) :
    (afterBody config r senderNonce price baseFee outcome).Ensures u fun st final =>
      st.result.gasUsed = outcome.gasUsed ∧ st.result.isSuccessful = !outcome.isFailed ∧
      st.reward = some (outcome.gasUsed.toWord * (price - baseFee).toWord) ∧
      final = (if outcome.isFailed then u else cleared config r senderNonce u).credit r.sender
        ((r.gasLimit - outcome.gasUsed).toWord * price.toWord) := by
  unfold afterBody
  apply (ensures_resultOf outcome).bind
  rintro result kept ⟨hgas, hsuccess, hkept⟩
  have hrefund : (Execution.increaseBalance r.sender
      ((r.gasLimit - outcome.gasUsed).toWord * price.toWord)).Ensures kept fun _ final =>
        final = kept.credit r.sender ((r.gasLimit - outcome.gasUsed).toWord * price.toWord) :=
    .increaseBalance rfl
  exact hrefund.bind fun _ final hfinal => .pure ⟨hgas, hsuccess, rfl, hkept ▸ hfinal⟩

theorem ensures_execution (hgas : intrinsicGas t.request ≤ t.request.gasLimit) :
    (execution config ctx t senderNonce).Ensures u fun st final =>
      ∃ kept, Ran config ctx t senderNonce u st final kept := by
  have hcharge : (charge t.request (t.effectiveGasPrice ctx.header.basePrice)
      ctx.blobGasPrice).Ensures u fun _ v => v =
        charged t.request (t.effectiveGasPrice ctx.header.basePrice) ctx.blobGasPrice u :=
    .updateAccount rfl
  unfold execution
  apply hcharge.bind
  rintro _ start rfl
  refine Execution.Ensures.attempt (ensures_body ctx hgas) ?_ ?_
    (fun start outcome => conclude_bind _ _ start outcome)
  · -- The body is kept: its effect on accounts goes into what is left.
    intro outcome v heffect hkept
    apply (ensures_afterBody _ _ outcome).mono
    rintro st final ⟨hused, hsuccess, hreward, hfinal⟩
    rw [hkept] at hsuccess hfinal
    have hnot : st.result.isSuccessful ≠ false := by rw [hsuccess]; decide
    exact ⟨_,
      { gas := hused ▸ heffect.gas
        reward := hused ▸ hreward
        final := hused ▸ hfinal
        undone := fun h => absurd h hnot
        accounts := fun _ => account_cleared_congr (heffect.accounts hkept)
        slots := heffect.slots.cleared config t.request senderNonce
        free := fun _ => heffect.free hkept }⟩
  · -- The body is undone: only the charge is left of it.
    intro outcome v heffect hundone
    apply (ensures_afterBody _ _ outcome).mono
    rintro st final ⟨hused, hsuccess, hreward, hfinal⟩
    rw [hundone] at hsuccess hfinal
    have hnot : st.result.isSuccessful ≠ true := by rw [hsuccess]; decide
    exact ⟨_,
      { gas := hused ▸ heffect.gas
        reward := hused ▸ hreward
        final := hused ▸ hfinal
        undone := fun _ => rfl
        accounts := fun h => absurd h hnot
        slots := slotsOfCode_of_slot_eq rfl
        free := fun h => absurd h hnot }⟩

/-- What becomes of a transaction. -/
inductive Settled (config : ProcessorConfig) (ctx : BlockContext) (t : Transaction)
    (v : Validation) (u : Snapshot) : Settlement → Snapshot → Prop
  | refused (fault : Rejection) : Settled config ctx t v u (.rejected (.simple fault)) u
  | ran {st : Settlement} {final kept : Snapshot}
      (hstatic : staticFault config ctx.header t v = none)
      (hsender : senderFault t v ctx.blobGasPrice
        ((u.account t.request.sender).getD {}) = none)
      (h : Ran config ctx t ((u.account t.request.sender).getD {}).nonce u st final kept) :
      Settled config ctx t v u st final

/-- A successful transaction ran. -/
theorem Settled.ran_of_successful {st : Settlement} {final : Snapshot}
    (h : Settled config ctx t v u st final) (hsuccess : st.result.isSuccessful = true) :
    ∃ kept, Ran config ctx t ((u.account t.request.sender).getD {}).nonce u st final kept := by
  cases h with
  | refused fault => exact absurd hsuccess Bool.false_ne_true
  | ran hstatic hsender h => exact ⟨_, h⟩

theorem intrinsicGas_le_of_staticFault (h : staticFault config ctx.header t v = none) :
    intrinsicGas t.request ≤ t.request.gasLimit := by
  unfold staticFault at h
  dsimp only at h
  split_ifs at h with _ _ _ _ _ hgas
  exact BitVec.not_lt.mp hgas

/-- Every transaction settles. -/
theorem ensures_settle (config : ProcessorConfig) (ctx : BlockContext) (t : Transaction)
    (v : Validation) (u : Snapshot) :
    (settle config ctx t v).Ensures u (Settled config ctx t v u) := by
  rw [settle_eq]
  cases hstatic : staticFault config ctx.header t v with
  | some fault => exact .pure (.refused fault)
  | none =>
    have hread : (Execution.account t.request.sender).Ensures u fun found w =>
        found = u.account t.request.sender ∧ w = u := .account ⟨rfl, rfl⟩
    apply hread.bind
    rintro found w ⟨rfl, rfl⟩
    cases hsender : senderFault t v ctx.blobGasPrice
        ((w.account t.request.sender).getD {}) with
    | some fault => exact .pure (.refused fault)
    | none =>
      apply (ensures_execution (intrinsicGas_le_of_staticFault hstatic)).mono
      rintro st final ⟨kept, hran⟩
      exact .ran hstatic hsender hran

end BlockExecution.Simple
