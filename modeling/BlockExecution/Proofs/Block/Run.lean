/-
  The course of a block, transaction by transaction.

  A turn is the part of processing that belongs to one transaction. Its outcomes
  are listed here once: the gas does not suffice, a speculative execution is
  taken over, or the transaction is executed. What a block has come to after a
  number of transactions is a function of that number.
-/
import Mathlib
import BlockExecution.Block.Process

namespace BlockExecution

variable {p : Processor} {archive : Archive} {block : Block} {schedule : Schedule}
  {parent : WorldState} {ctx : BlockContext} {t : Transaction} {index : Nat}
  {spec : Option SpeculativeContext}

/-- A block cut off after its first `count` transactions. -/
def Block.first (block : Block) (count : Nat) : Block :=
  { block with transactions := block.transactions.take count }

/-! ## Steps -/

namespace BlockExecutionStep

variable {α β : Type}

/-- Runs a step: what it answers, and the progress it reached. -/
def runOn (x : BlockExecutionStep α) (progress : BlockProgress) :
    Except BlockError α × BlockProgress :=
  x progress

@[simp] theorem runOn_pure (a : α) (progress : BlockProgress) :
    (pure a : BlockExecutionStep α).runOn progress = (.ok a, progress) := rfl

@[simp] theorem runOn_throw (e : BlockError) (progress : BlockProgress) :
    (throw e : BlockExecutionStep α).runOn progress = (.error e, progress) := rfl

@[simp] theorem runOn_get (progress : BlockProgress) :
    (get : BlockExecutionStep BlockProgress).runOn progress = (.ok progress, progress) := rfl

@[simp] theorem runOn_modify (f : BlockProgress → BlockProgress) (progress : BlockProgress) :
    (modify f : BlockExecutionStep Unit).runOn progress = (.ok (), f progress) := rfl

theorem runOn_onWorld (x : Execution α) (progress : BlockProgress) :
    (BlockProgress.onWorld x).runOn progress =
      ((x.runOn progress.world).1.mapError BlockError.state,
        { progress with world := (x.runOn progress.world).2 }) := rfl

theorem runOn_bind (x : BlockExecutionStep α) (f : α → BlockExecutionStep β)
    (progress : BlockProgress) :
    (x >>= f).runOn progress =
      match x.runOn progress with
      | (.ok a, progress') => (f a).runOn progress'
      | (.error e, progress') => (.error e, progress') := by
  show (do let (a, progress') ← x progress; ExceptT.bindCont f a progress' : Id _) = _
  unfold runOn
  rcases x progress with ⟨answer, progress'⟩
  cases answer <;> rfl

end BlockExecutionStep

/-! ## Turns -/

namespace BlockProgress

variable {b : BlockProgress} {world : Accumulator} {result : ProcessingResult}

/-- Whether a transaction asks for more gas than the block has left. -/
def LacksGas (b : BlockProgress) (ctx : BlockContext) (t : Transaction) : Prop :=
  ctx.header.gasLimit - b.gasUsed < t.request.gasLimit

/-- The progress after it was decided where the result of a transaction comes from. -/
def reconciled (b : BlockProgress) (world : Accumulator) (r : Reconciliation) : BlockProgress :=
  { ({ b with world } : BlockProgress).countSource r with metrics := b.metrics.count r }

/-- The end of a turn: a refused transaction stops the block. -/
def endTurn (b : BlockProgress) (index : Nat) (result : ProcessingResult) :
    Except BlockError Unit × BlockProgress :=
  match result.rejection? with
  | some reason => (.error (.invalidTransaction index (.rejected reason)), b)
  | none => (.ok (), b.addReceipt result)

theorem endTurn_of_successful (h : result.isSuccessful = true) :
    b.endTurn index result = (.ok (), b.addReceipt result) := by
  have hstatus : result.status = .successful := beq_iff_eq.mp h
  have hnone : result.rejection? = none := by
    unfold ProcessingResult.rejection?
    rw [hstatus]
  unfold endTurn
  rw [hnone]

end BlockProgress

namespace Processor

variable {b : BlockProgress} {world : Accumulator} {result : ProcessingResult}

/-- A turn that takes over a speculative execution. -/
theorem runOn_processNext_of_merged (h : ¬ b.LacksGas ctx t)
    (hr : (p.reconcile ctx.beneficiary t spec).runOn b.world = (.ok (.merged result), world)) :
    (p.processNext ctx spec index t).runOn b =
      (b.reconciled world (.merged result)).endTurn index result := by
  unfold processNext
  unfold BlockProgress.LacksGas at h
  simp only [BlockExecutionStep.runOn_bind, BlockExecutionStep.runOn_get, if_neg h,
    BlockExecutionStep.runOn_onWorld, hr, Except.mapError, BlockExecutionStep.runOn_modify,
    pure_bind]
  unfold BlockProgress.endTurn
  cases result.rejection? <;> rfl

/-- A turn that executes the transaction. -/
theorem runOn_processNext_of_replayed (h : ¬ b.LacksGas ctx t) {r : Reconciliation}
    (hr : (p.reconcile ctx.beneficiary t spec).runOn b.world = (.ok r, world))
    (hreplayed : r = .missing ∨ r = .discarded) :
    (p.processNext ctx spec index t).runOn b =
      match (p.process ctx t Validation.full).runOn world with
      | (.error e, world') => (.error (.state e), { b.reconciled world r with world := world' })
      | (.ok result, world') =>
        ({ b.reconciled world r with world := world' } : BlockProgress).endTurn index result := by
  unfold processNext
  unfold BlockProgress.LacksGas at h
  rcases hreplayed with rfl | rfl <;>
    simp only [BlockExecutionStep.runOn_bind, BlockExecutionStep.runOn_get, if_neg h,
      BlockExecutionStep.runOn_onWorld, hr, Except.mapError, BlockExecutionStep.runOn_modify,
      BlockProgress.countSource, BlockProgress.reconciled] <;>
    rcases (p.process ctx t Validation.full).runOn world with ⟨answer, world'⟩ <;>
    cases answer with
    | error e => rfl
    | ok result =>
      simp only [BlockProgress.endTurn]
      cases result.rejection? <;> rfl

theorem runOn_processNext_of_lacksGas (h : b.LacksGas ctx t) :
    (p.processNext ctx spec index t).runOn b =
      (.error (.invalidTransaction index
        (.gasAboveAvailable t.request.gasLimit (ctx.header.gasLimit - b.gasUsed))), b) := by
  unfold processNext
  unfold BlockProgress.LacksGas at h
  simp only [BlockExecutionStep.runOn_bind, BlockExecutionStep.runOn_get, if_pos h,
    BlockExecutionStep.runOn_throw]

/-! ## Courses -/

/-- Processing one transaction more. -/
theorem processAll_concat (speculative : Nat → Transaction → Option SpeculativeContext)
    (index : Nat) (transactions : List Transaction) (t : Transaction) :
    p.processAll ctx speculative index (transactions ++ [t]) =
      (do
        p.processAll ctx speculative index transactions
        p.processNext ctx (speculative (index + transactions.length) t)
          (index + transactions.length) t) := by
  induction transactions generalizing index with
  | nil =>
    simp only [List.nil_append, processAll, List.length_nil, Nat.add_zero, bind_pure_unit,
      pure_bind]
  | cons u rest ih =>
    have hlength : index + (u :: rest).length = index + 1 + rest.length := by
      rw [List.length_cons]
      omega
    simp only [List.cons_append, processAll, ih, bind_assoc, hlength]

/-- What a block has come to after its first `count` transactions on the state of its parent. -/
def progressAfter (p : Processor) (archive : Archive) (block : Block) (schedule : Schedule)
    (parent : WorldState) (count : Nat) : Except BlockError Unit × BlockProgress :=
  (p.processAll (block.context archive)
    (schedule.speculative p archive (block.context archive)) 0
    (block.transactions.take count)).runOn { world := Accumulator.ofView parent.view }

theorem progressAfter_zero :
    p.progressAfter archive block schedule parent 0 =
      (.ok (), { world := Accumulator.ofView parent.view }) := rfl

/-- One turn more. -/
theorem progressAfter_succ {count : Nat} (h : block.transactions[count]? = some t) :
    p.progressAfter archive block schedule parent (count + 1) =
      match p.progressAfter archive block schedule parent count with
      | (.ok (), b) =>
        (p.processNext (block.context archive)
          (schedule.speculative p archive (block.context archive) count t) count t).runOn b
      | (.error e, b) => (.error e, b) := by
  have hlength : count < block.transactions.length := (List.getElem?_eq_some_iff.mp h).1
  have htake : (block.transactions.take count).length = count :=
    List.length_take_of_le hlength.le
  unfold progressAfter
  rw [List.take_add_one, h, Option.toList_some, processAll_concat,
    BlockExecutionStep.runOn_bind, htake, Nat.zero_add]
  rcases BlockExecutionStep.runOn _ _ with ⟨answer, b⟩
  cases answer <;> rfl

/-- Past the end nothing happens. -/
theorem progressAfter_of_length_le {count : Nat} (h : block.transactions.length ≤ count) :
    p.progressAfter archive block schedule parent count =
      p.progressAfter archive block schedule parent block.transactions.length := by
  unfold progressAfter
  rw [List.take_of_length_le h, List.take_length]

/-- What a block yields that has come so far. -/
def outcomeOf (block : Block) (parent : WorldState) :
    Except BlockError Unit × BlockProgress → Except BlockError BlockOutcome
  | (.error e, _) => .error e
  | (.ok (), progress) =>
    .ok
      { blockHash := block.hash
        state := parent.apply progress.world.changes
        changes := progress.world.changes
        receipts := progress.receipts
        gasUsed := progress.gasUsed
        tally := progress.tally }

theorem processBlock_of_state (h : archive.state? block.header.parentHash = some parent) :
    p.processBlock archive block schedule =
      ⟨outcomeOf block parent
          (p.progressAfter archive block schedule parent block.transactions.length),
        (p.progressAfter archive block schedule parent block.transactions.length).2.metrics⟩ := by
  unfold processBlock
  rw [h]
  have hrun : (p.processAll (block.context archive)
      (schedule.speculative p archive (block.context archive)) 0
      block.transactions).run.run { world := Accumulator.ofView parent.view } =
      p.progressAfter archive block schedule parent block.transactions.length := by
    unfold progressAfter
    rw [List.take_length]
    rfl
  simp only [hrun]
  rcases p.progressAfter archive block schedule parent block.transactions.length with
    ⟨answer, progress⟩
  cases answer <;> rfl

/-- The course of the first transactions of a block is that of the block cut off after them. -/
theorem progressAfter_first (count : Nat) :
    p.progressAfter archive (block.first count) schedule parent
        (block.first count).transactions.length =
      p.progressAfter archive block schedule parent count := by
  unfold progressAfter
  rw [List.take_length]
  rfl

theorem processBlock_of_no_state (h : archive.state? block.header.parentHash = none) :
    p.processBlock archive block schedule =
      ⟨.error (.missingParentState block.header.parentHash), {}⟩ := by
  unfold processBlock
  rw [h]

/-- An accepted block has the state of its parent in the archive. -/
theorem exists_parent_of_ok {o : BlockOutcome}
    (h : (p.processBlock archive block schedule).outcome = .ok o) :
    ∃ parent, archive.state? block.header.parentHash = some parent := by
  cases hparent : archive.state? block.header.parentHash with
  | some parent => exact ⟨parent, rfl⟩
  | none =>
    rw [processBlock_of_no_state hparent] at h
    cases h

end Processor

end BlockExecution
