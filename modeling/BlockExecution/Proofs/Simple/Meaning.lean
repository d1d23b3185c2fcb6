/-
  What a transaction of the slot processor computes, as a function on values.

  Over a readable view a transaction is deterministic, so its answer and the
  values that it leaves are a function of the values that it starts from. The
  functions here follow the processor part by part, from an instruction to the
  whole transaction with its reward, and each part is shown to give just what its
  function says. A block is accepted exactly when its transactions have a course
  under this function.
-/
import BlockExecution.Proofs.Block.Course
import BlockExecution.Proofs.Simple.Effect

namespace BlockExecution

namespace Simple

open BlockExecution.Snapshot

variable {config : ProcessorConfig} {ctx : BlockContext} {t : Transaction} {v : Validation}
  {r : TransactionRequest} {senderNonce : U64} {u : Snapshot}

/-! ## Streams -/

/-- The log entries of an instruction, and the values after it. -/
def Instruction.performOn (ctx : BlockContext) (contract : Address) (i : Instruction)
    (u : Snapshot) : List Log × Snapshot :=
  let key : StorageKey := ⟨contract, i.slot⟩
  match i.opcode with
  | .increment =>
    ([⟨contract, [i.slot], (u.slot key + 1).bytes⟩], u.setSlot key (u.slot key + 1))
  | .read => ([], u)
  | .blockHash => ([], u.setSlot key (parentHashWord ctx))

theorem gives_perform (ctx : BlockContext) (contract : Address) (i : Instruction)
    (u : Snapshot) :
    (i.perform ctx contract).Gives u (i.performOn ctx contract u).1
      (i.performOn ctx contract u).2 := by
  simp only [Instruction.perform, Instruction.performOn]
  cases i.opcode with
  | increment =>
    exact (Execution.Gives.slot u _).bind ((Execution.Gives.setSlot u _ _).bind (.pure _ _))
  | read => exact (Execution.Gives.slot u _).bind (.pure _ _)
  | blockHash => exact (Execution.Gives.setSlot u _ _).bind (.pure _ _)

/-- How a stream ends from `gasUsed` gas and the `logs` so far, and the values after it. -/
def streamOn (ctx : BlockContext) (contract : Address) (gasLimit gasUsed : U64)
    (logs : List Log) (stream : Bytes) (u : Snapshot) : BodyOutcome × Snapshot :=
  match _h : Front.ofStream stream with
  | .finished => (⟨gasUsed, .ok logs⟩, u)
  | .revert data => (⟨gasUsed, .error (.revert, some data)⟩, u)
  | .malformed => (BodyOutcome.exhausted gasLimit .invalidInstruction, u)
  | .instruction i rest =>
    if gasLimit < gasUsed + i.opcode.gas then (BodyOutcome.exhausted gasLimit .outOfGas, u)
    else
      streamOn ctx contract gasLimit (gasUsed + i.opcode.gas)
        (logs ++ (i.performOn ctx contract u).1) rest (i.performOn ctx contract u).2
  termination_by stream.length
  decreasing_by exact Front.rest_length_lt _h

/-- The values after a stream, by its front. -/
theorem streamOn_eq {contract : Address} {gasLimit gasUsed : U64} {logs : List Log}
    {stream : Bytes} :
    streamOn ctx contract gasLimit gasUsed logs stream u =
      match Front.ofStream stream with
      | .finished => (⟨gasUsed, .ok logs⟩, u)
      | .revert data => (⟨gasUsed, .error (.revert, some data)⟩, u)
      | .malformed => (BodyOutcome.exhausted gasLimit .invalidInstruction, u)
      | .instruction i rest =>
        if gasLimit < gasUsed + i.opcode.gas then (BodyOutcome.exhausted gasLimit .outOfGas, u)
        else
          streamOn ctx contract gasLimit (gasUsed + i.opcode.gas)
            (logs ++ (i.performOn ctx contract u).1) rest (i.performOn ctx contract u).2 := by
  conv_lhs => unfold streamOn
  split <;> rename_i hfront <;> rw [hfront]

theorem gives_runStream (ctx : BlockContext) (contract : Address) (gasLimit gasUsed : U64)
    (logs : List Log) (stream : Bytes) (u : Snapshot) :
    (runStream ctx contract gasLimit gasUsed logs stream).Gives u
      (streamOn ctx contract gasLimit gasUsed logs stream u).1
      (streamOn ctx contract gasLimit gasUsed logs stream u).2 := by
  -- One case for each front of the stream, as in the recursion of both sides.
  induction gasUsed, logs, stream using runStream.induct gasLimit generalizing u with
  | case1 gasUsed logs stream hfront =>
    simp only [runStream_eq, streamOn_eq, hfront]
    exact .pure _ _
  | case2 gasUsed logs stream data hfront =>
    simp only [runStream_eq, streamOn_eq, hfront]
    exact .pure _ _
  | case3 gasUsed logs stream hfront =>
    simp only [runStream_eq, streamOn_eq, hfront]
    exact .pure _ _
  | case4 gasUsed logs stream i rest hfront after hgas =>
    have hout : gasLimit < gasUsed + i.opcode.gas := hgas
    rw [runStream_eq, streamOn_eq]
    simp only [hfront, if_pos hout]
    exact .pure _ _
  | case5 gasUsed logs stream i rest hfront after hgas ih =>
    have hpaid : ¬ gasLimit < gasUsed + i.opcode.gas := hgas
    rw [runStream_eq, streamOn_eq]
    simp only [hfront, if_neg hpaid]
    exact (gives_perform ctx contract i u).bind (ih _ _)

/-! ## Bodies -/

/-- How a body ends, and the values after it. -/
def bodyOn (ctx : BlockContext) (r : TransactionRequest) (senderNonce : U64) (u : Snapshot) :
    BodyOutcome × Snapshot :=
  match r.recipient with
  | none =>
    if (u.account (r.sender.created senderNonce)).any (fun a => a.nonce != 0 || a.hasCode) then
      (BodyOutcome.exhausted r.gasLimit .createCollision, u)
    else (⟨intrinsicGas r, .ok []⟩, moved r senderNonce u)
  | some recipient =>
    if ((moved r senderNonce u).account recipient).any (·.hasCode) then
      streamOn ctx recipient r.gasLimit (intrinsicGas r) [] r.input (moved r senderNonce u)
    else (⟨intrinsicGas r, .ok []⟩, moved r senderNonce u)

theorem gives_body (ctx : BlockContext) (r : TransactionRequest) (senderNonce : U64)
    (u : Snapshot) :
    (body ctx r senderNonce).Gives u (bodyOn ctx r senderNonce u).1
      (bodyOn ctx r senderNonce u).2 := by
  simp only [body, bodyOn]
  cases hr : r.recipient with
  | none =>
    have hmoved : moved r senderNonce u = (u.debit r.sender r.value).update
        (r.sender.created senderNonce) (createdAccount r.input r.value) := by
      simp only [moved, hr]
    -- A creation moves the value into the new account, unless that is taken.
    apply (Execution.Gives.account u _).bind
    simp only [hmoved]
    split
    · exact .pure _ _
    · exact (Execution.Gives.decreaseBalance u _ _).bind
        ((Execution.Gives.updateAccount _ _ _).bind (.pure _ _))
  | some recipient =>
    have hmoved : moved r senderNonce u =
        (u.debit r.sender r.value).credit recipient r.value := by
      simp only [moved, hr]
    -- A call pays its recipient and runs the code there, if there is any.
    apply (Execution.Gives.decreaseBalance u _ _).bind
    apply (Execution.Gives.increaseBalance _ _ _).bind
    apply (Execution.Gives.account _ _).bind
    simp only [hmoved]
    split
    · exact gives_runStream _ _ _ _ _ _ _
    · exact .pure _ _

/-! ## Transactions -/

/-- The result of a body that ended so. -/
def BodyOutcome.result (outcome : BodyOutcome) : ProcessingResult :=
  match outcome.ending with
  | .ok logs => .successful outcome.gasUsed logs
  | .error (reason, data) => .failed reason outcome.gasUsed data

/-- The values that are kept of a body: those after it without an empty target, or those from
before. -/
def keptOn (config : ProcessorConfig) (r : TransactionRequest) (senderNonce : U64)
    (before : Snapshot) (outcome : BodyOutcome) (after : Snapshot) : Snapshot :=
  if outcome.isFailed then before else cleared config r senderNonce after

/-- What the beneficiary is owed for a transaction that used so much gas. -/
def rewardOf (h : Header) (t : Transaction) (gasUsed : U64) : Word :=
  gasUsed.toWord * (t.effectiveGasPrice h.basePrice - h.basePrice).toWord

/-- The values on which the body of a transaction starts. -/
def startOn (ctx : BlockContext) (t : Transaction) (u : Snapshot) : Snapshot :=
  charged t.request (t.effectiveGasPrice ctx.header.basePrice) ctx.blobGasPrice u

/-- The settlement of a transaction that passed its checks, and the values after it. -/
def executionOn (config : ProcessorConfig) (ctx : BlockContext) (t : Transaction)
    (senderNonce : U64) (u : Snapshot) : Settlement × Snapshot :=
  let r := t.request
  let (outcome, after) := bodyOn ctx r senderNonce (startOn ctx t u)
  (⟨outcome.result, some (rewardOf ctx.header t outcome.gasUsed)⟩,
    (keptOn config r senderNonce (startOn ctx t u) outcome after).credit r.sender
      ((r.gasLimit - outcome.gasUsed).toWord *
        (t.effectiveGasPrice ctx.header.basePrice).toWord))

theorem gives_resultOf (config : ProcessorConfig) (r : TransactionRequest) (senderNonce : U64)
    (outcome : BodyOutcome) (before after : Snapshot) :
    (resultOf config r senderNonce outcome).Gives (if outcome.isFailed then before else after)
      outcome.result (keptOn config r senderNonce before outcome after) := by
  obtain ⟨gasUsed, ending⟩ := outcome
  simp only [resultOf, BodyOutcome.result, keptOn, BodyOutcome.isFailed]
  cases ending with
  | error failure => exact .pure _ _
  | ok logs =>
    simp only [Bool.false_eq_true, if_false, cleared]
    split
    · exact (Execution.Gives.deleteIfEmpty _ _).bind (.pure _ _)
    · exact (Execution.Gives.pure _ _).bind (.pure _ _)

theorem gives_execution (config : ProcessorConfig) (ctx : BlockContext) (t : Transaction)
    (senderNonce : U64) (u : Snapshot) :
    (execution config ctx t senderNonce).Gives u (executionOn config ctx t senderNonce u).1
      (executionOn config ctx t senderNonce u).2 := by
  have hcharge := Execution.Gives.updateAccount u t.request.sender
  refine (hcharge _).bind (Execution.Gives.attempt (gives_body ctx t.request senderNonce _) ?_
    (fun start outcome => conclude_bind _ _ start outcome))
  exact (gives_resultOf config _ senderNonce _ _ _).bind
    ((Execution.Gives.increaseBalance _ _ _).bind (.pure _ _))

/-- What becomes of a transaction up to its reward, and the values after it. -/
def settleOn (config : ProcessorConfig) (ctx : BlockContext) (t : Transaction) (v : Validation)
    (u : Snapshot) : Settlement × Snapshot :=
  let sender := (u.account t.request.sender).getD {}
  match staticFault config ctx.header t v, senderFault t v ctx.blobGasPrice sender with
  | some fault, _ => (.rejected (.simple fault), u)
  | none, some fault => (.rejected (.simple fault), u)
  | none, none => executionOn config ctx t sender.nonce u

theorem gives_settle (config : ProcessorConfig) (ctx : BlockContext) (t : Transaction)
    (v : Validation) (u : Snapshot) :
    (settle config ctx t v).Gives u (settleOn config ctx t v u).1
      (settleOn config ctx t v u).2 := by
  rw [settle_eq, settleOn]
  cases staticFault config ctx.header t v with
  | some fault => exact .pure _ _
  | none =>
    apply (Execution.Gives.account u _).bind
    cases senderFault t v ctx.blobGasPrice ((u.account t.request.sender).getD {}) with
    | some fault => exact .pure _ _
    | none => exact gives_execution _ _ _ _ _

/-- The result of a transaction, and the values after it and its reward. -/
def processOn (config : ProcessorConfig) (ctx : BlockContext) (t : Transaction) (v : Validation)
    (u : Snapshot) : ProcessingResult × Snapshot :=
  let (st, final) := settleOn config ctx t v u
  (st.result,
    match st.reward with
    | none => final
    | some reward => (processor config).rewarded ctx.beneficiary reward final)

theorem gives_process (config : ProcessorConfig) (ctx : BlockContext) (t : Transaction)
    (v : Validation) (u : Snapshot) :
    ((processor config).process ctx t v).Gives u (processOn config ctx t v u).1
      (processOn config ctx t v u).2 := by
  refine (gives_settle config ctx t v u).bind ?_
  rw [processOn]
  rcases settleOn config ctx t v u with ⟨⟨result, owed⟩, final⟩
  cases owed with
  | none => exact .pure _ _
  | some reward =>
    have hreward : ((processor config).creditReward ctx.beneficiary reward).Gives final ()
        ((processor config).rewarded ctx.beneficiary reward final) :=
      ((processor config).ensures_creditReward ctx.beneficiary reward).mono
        fun _ _ h => ⟨rfl, h⟩
    exact hreward.bind (.pure _ _)

/-- A run over a readable view is the one that gives what the transaction computes. -/
theorem eq_processOn_of_runOn {w w' : Accumulator} {result : ProcessingResult} (hs : w.Sound)
    (hr : w.base.Readable)
    (h : ((processor config).process ctx t v).runOn w = (.ok result, w')) :
    result = (processOn config ctx t v w.values).1 ∧
      w'.values = (processOn config ctx t v w.values).2 := by
  obtain ⟨after, hrun, -, hvalues⟩ := (gives_process config ctx t v w.values).run hs hr
  rw [h, Prod.mk.injEq, Except.ok.injEq] at hrun
  obtain ⟨hresult, rfl⟩ := hrun
  exact ⟨hresult, hvalues⟩

/-! ## Transactions that are executed -/

theorem gasUsed_result (outcome : BodyOutcome) : outcome.result.gasUsed = outcome.gasUsed := by
  obtain ⟨gasUsed, ending⟩ := outcome
  cases ending <;> rfl

theorem rejection?_result (outcome : BodyOutcome) : outcome.result.rejection? = none := by
  obtain ⟨gasUsed, ending⟩ := outcome
  cases ending <;> rfl

theorem isSuccessful_result (outcome : BodyOutcome) :
    outcome.result.isSuccessful = !outcome.isFailed := by
  unfold BodyOutcome.result BodyOutcome.isFailed
  cases outcome.ending <;> rfl

theorem logs_result {outcome : BodyOutcome} (h : outcome.result.isSuccessful = false) :
    outcome.result.logs = [] := by
  obtain ⟨gasUsed, ending⟩ := outcome
  cases ending with
  | ok logs => cases h
  | error failure => rfl

/-- Whether a transaction passes its checks. -/
structure Passes (config : ProcessorConfig) (ctx : BlockContext) (t : Transaction)
    (v : Validation) (u : Snapshot) : Prop where
  static : staticFault config ctx.header t v = none
  sender : senderFault t v ctx.blobGasPrice ((u.account t.request.sender).getD {}) = none

/-- A transaction that passes its checks is executed. -/
theorem Passes.settleOn_eq (h : Passes config ctx t v u) :
    settleOn config ctx t v u = executionOn config ctx t (u.nonce t.request.sender) u := by
  rw [settleOn, h.static, h.sender]
  rfl

/-- A transaction that does not pass its checks is refused and changes nothing. -/
theorem settleOn_of_not_passes (h : ¬ Passes config ctx t v u) :
    ∃ fault, settleOn config ctx t v u = (.rejected (.simple fault), u) := by
  unfold settleOn
  dsimp only
  cases hstatic : staticFault config ctx.header t v with
  | some fault => exact ⟨fault, rfl⟩
  | none =>
    cases hsender : senderFault t v ctx.blobGasPrice
        ((u.account t.request.sender).getD {}) with
    | some fault => exact ⟨fault, rfl⟩
    | none => exact absurd ⟨hstatic, hsender⟩ h

/-- A transaction that passes its checks is executed and rewarded. -/
theorem Passes.processOn_eq (h : Passes config ctx t v u) :
    processOn config ctx t v u =
      let ran := executionOn config ctx t (u.nonce t.request.sender) u
      (ran.1.result, (processor config).rewarded ctx.beneficiary
        (rewardOf ctx.header t ran.1.result.gasUsed) ran.2) := by
  simp only [processOn, h.settleOn_eq, executionOn, gasUsed_result]

/-- A transaction is not refused exactly when it passes its checks. -/
theorem rejection?_processOn_eq_none_iff :
    (processOn config ctx t v u).1.rejection? = none ↔ Passes config ctx t v u := by
  constructor
  · intro h
    by_contra hnot
    obtain ⟨fault, hfault⟩ := settleOn_of_not_passes hnot
    rw [processOn, hfault] at h
    cases h
  · intro h
    rw [h.processOn_eq]
    exact rejection?_result _

/-- What is known of transactions that run holds of this one. -/
theorem Passes.ran (h : Passes config ctx t v u) :
    ∃ kept, Ran config ctx t (u.nonce t.request.sender) u
      (executionOn config ctx t (u.nonce t.request.sender) u).1
      (executionOn config ctx t (u.nonce t.request.sender) u).2 kept :=
  (gives_execution config ctx t (u.nonce t.request.sender) u).post
    (ensures_execution (intrinsicGas_le_of_staticFault h.static))

theorem Passes.gasUsed_le (h : Passes config ctx t v u) :
    (processOn config ctx t v u).1.gasUsed ≤ t.request.gasLimit := by
  obtain ⟨kept, hran⟩ := h.ran
  rw [h.processOn_eq]
  exact hran.gas

/-! ## Addresses that a transaction leaves alone -/

section Frame

variable {a b : Address}

theorem agreeOn_setAccount (h : a ≠ b) (u : Snapshot) (x : Option Account) :
    AgreeOn {c | c.address = a} (u.setAccount b x) u := by
  rintro c rfl
  apply agreeAt_setAccount
  rintro rfl
  exact h rfl

theorem agreeOn_update (h : a ≠ b) (u : Snapshot) (f : Account → Account) :
    AgreeOn {c | c.address = a} (u.update b f) u :=
  agreeOn_setAccount h u _

theorem agreeOn_credit (h : a ≠ b) (u : Snapshot) (amount : Word) :
    AgreeOn {c | c.address = a} (u.credit b amount) u :=
  agreeOn_setAccount h u _

theorem agreeOn_clear (h : a ≠ b) (u : Snapshot) :
    AgreeOn {c | c.address = a} (u.clear b) u := by
  unfold Snapshot.clear
  split
  · exact agreeOn_setAccount h u none
  · exact .refl _ u

theorem agreeOn_cleared (h : a ≠ target r senderNonce) (config : ProcessorConfig)
    (u : Snapshot) : AgreeOn {c | c.address = a} (cleared config r senderNonce u) u := by
  unfold cleared
  split
  · exact agreeOn_clear h u
  · exact .refl _ u

theorem SlotsOnly.agreeOn {contract : Address} {w : Snapshot} (h : SlotsOnly contract u w)
    (ha : a ≠ contract) : AgreeOn {c | c.address = a} w u := by
  rintro c rfl
  cases c with
  | account b => exact congrFun h.account b
  | slot k => exact h.slot k ha

theorem agreeOn_moved (hsender : a ≠ r.sender) (htarget : a ≠ target r senderNonce)
    (u : Snapshot) : AgreeOn {c | c.address = a} (moved r senderNonce u) u := by
  have hdebit : AgreeOn {c | c.address = a} (u.debit r.sender r.value) u :=
    agreeOn_update hsender u _
  unfold target at htarget
  unfold moved
  cases hr : r.recipient with
  | some recipient =>
    rw [hr] at htarget
    exact (agreeOn_update htarget _ _).trans hdebit
  | none =>
    rw [hr] at htarget
    exact (agreeOn_update htarget _ _).trans hdebit

theorem slotsOnly_streamOn (ctx : BlockContext) (contract : Address) {gasLimit gasUsed : U64}
    (hlimit : gasUsed ≤ gasLimit) (logs : List Log) (stream : Bytes) (u : Snapshot) :
    SlotsOnly contract u (streamOn ctx contract gasLimit gasUsed logs stream u).2 :=
  ((gives_runStream ctx contract gasLimit gasUsed logs stream u).post
    (ensures_runStream ctx contract hlimit)).1

/-- A body leaves everything alone but its sender and its target. -/
theorem agreeOn_bodyOn (ctx : BlockContext) (hgas : intrinsicGas r ≤ r.gasLimit)
    (hsender : a ≠ r.sender) (htarget : a ≠ target r senderNonce) (u : Snapshot) :
    AgreeOn {c | c.address = a} (bodyOn ctx r senderNonce u).2 u := by
  have hmoved := agreeOn_moved hsender htarget u
  unfold bodyOn
  cases hr : r.recipient with
  | none =>
    dsimp only
    split
    · exact .refl _ u
    · exact hmoved
  | some recipient =>
    have hrecipient : a ≠ recipient := by
      rw [target, hr] at htarget
      exact htarget
    dsimp only
    split
    · exact ((slotsOnly_streamOn ctx recipient hgas [] r.input _).agreeOn hrecipient).trans hmoved
    · exact hmoved

/-- And so does the whole transaction up to its reward. -/
theorem agreeOn_executionOn (config : ProcessorConfig) (ctx : BlockContext)
    (hgas : intrinsicGas t.request ≤ t.request.gasLimit) (hsender : a ≠ t.request.sender)
    (htarget : a ≠ target t.request senderNonce) (u : Snapshot) :
    AgreeOn {c | c.address = a} (executionOn config ctx t senderNonce u).2 u := by
  have hstart : AgreeOn {c | c.address = a} (startOn ctx t u) u := by
    unfold startOn charged
    exact agreeOn_update hsender u _
  have hbody := agreeOn_bodyOn ctx hgas hsender htarget (startOn ctx t u)
  simp only [executionOn]
  refine (agreeOn_credit hsender _ _).trans ?_
  unfold keptOn
  split
  · exact hstart
  · exact (agreeOn_cleared htarget config _).trans (hbody.trans hstart)

end Frame

/-! ## Blocks -/

/-- What transactions of a block do to values. -/
def meaning (config : ProcessorConfig) (ctx : BlockContext) : TransactionMeaning :=
  fun t u => processOn config ctx t Validation.full u

theorem means_processor (config : ProcessorConfig) (ctx : BlockContext) :
    (processor config).Means ctx (meaning config ctx) :=
  fun t u => gives_process config ctx t Validation.full u

variable {archive : Archive} {block : Block} {schedule : Schedule} {parent : WorldState}
  {o : BlockOutcome} {results : List ProcessingResult} {w : Snapshot}

/-- A block that has a course is accepted in every schedule, and yields what the course says. -/
theorem processBlock_of_course (hparent : archive.state? block.header.parentHash = some parent)
    (schedule : Schedule)
    (h : Course block.header.gasLimit (meaning config (block.context archive)) 0
      parent.view.values block.transactions results w) :
    ∃ o, ((processor config).processBlock archive block schedule).outcome = .ok o ∧
      Processor.Yields parent results w o :=
  Processor.processBlock_of_course (means_processor config _) hparent
    (Processor.outcomesAgree_of_not_nets (lawful_processor config)
      fun _ _ => not_nets_of_takesOver) h

/-- A block that is accepted in some schedule has a course, and yields what it says. -/
theorem course_of_processBlock (hparent : archive.state? block.header.parentHash = some parent)
    (h : ((processor config).processBlock archive block schedule).outcome = .ok o) :
    ∃ results w, Course block.header.gasLimit (meaning config (block.context archive)) 0
        parent.view.values block.transactions results w ∧
      Processor.Yields parent results w o :=
  Processor.course_of_processBlock (means_processor config _) hparent
    (Processor.outcomesAgree_of_not_nets (lawful_processor config)
      fun _ _ => not_nets_of_takesOver) h

end Simple

end BlockExecution
