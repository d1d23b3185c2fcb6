/-
  Taking back whole transactions.

  A caller that took a checkpoint can go back to it after a transaction, however
  that ended: kept, undone, refused, or stopped by a view that could not be read,
  between whichever two writes. The transaction itself goes back to a checkpoint
  of its own, on the same journal and above that of the caller, and so it leaves
  the journal of the caller with more writes on top and with none missing.
-/
import BlockExecution.Proofs.Simple.Settlement
import BlockExecution.Proofs.State.Persistence

namespace BlockExecution

open BlockExecution.Snapshot

/-! ## Accumulators that show the same -/

namespace Accumulator

variable {view : WorldView} {w w' : Accumulator}

/-- What is read of an account: a fault of the view, or the present value. -/
theorem readAccount_answer (hs : w.Sound) (a : Address) :
    (w.readAccount a).map Prod.fst = (w.base.account a).map fun _ => w.values.account a := by
  cases hbase : w.base.account a with
  | error e =>
    rw [readAccount_of_error hs hbase]
    rfl
  | ok x =>
    obtain ⟨after, hread, -⟩ := readAccount_of_ok hs hbase
    rw [hread]
    rfl

theorem readSlot_answer (hs : w.Sound) (k : StorageKey) :
    (w.readSlot k).map Prod.fst = (w.base.storage k).map fun _ => w.values.slot k := by
  cases hbase : w.base.storage k with
  | error e =>
    rw [readSlot_of_error hs hbase]
    rfl
  | ok x =>
    obtain ⟨after, hread, -⟩ := readSlot_of_ok hs hbase
    rw [hread]
    rfl

/-- Every account and every slot is answered as by `w`, be it with a value or with a fault of the
view, the changes are those of `w`, and so are the writes that can still be undone. -/
structure RestoresTo (w w' : Accumulator) : Prop where
  accounts : ∀ a, (w'.readAccount a).map Prod.fst = (w.readAccount a).map Prod.fst
  slots : ∀ k, (w'.readSlot k).map Prod.fst = (w.readSlot k).map Prod.fst
  changes : w'.changes = w.changes
  journal : w'.journal = w.journal

/-- Whatever accesses were made since a checkpoint, going back to it restores what was there. -/
theorem Extends.restoresTo (h : w.Extends w') (hs : w.Sound) :
    w.RestoresTo (w'.revertTo w.checkpoint) := by
  have hback := h.revertTo
  have hbase : (w'.revertTo w.checkpoint).base = w.base := hback.base.trans h.base
  exact
    { accounts := fun a => by
        rw [readAccount_answer hback.sound, readAccount_answer hs, hbase, hback.values]
      slots := fun k => by
        rw [readSlot_answer hback.sound, readSlot_answer hs, hbase, hback.values]
      changes := (changes_eq_iff hback.sound hs hbase).mpr hback.values
      journal := hback.journal }

end Accumulator

/-! ## Rewards -/

namespace Processor

variable {p : Processor}

theorem local_creditReward (p : Processor) (beneficiary : Address) (reward : Word) :
    Local (p.creditReward beneficiary reward).runOn := by
  unfold creditReward
  split
  · exact Local.increaseBalance _ _
  · exact Local.executionPure _

theorem local_finish (p : Processor) (beneficiary : Address) (s : Settlement) :
    Local (p.finish beneficiary s).runOn := by
  unfold finish
  cases s.reward with
  | none => exact Local.executionPure _
  | some reward =>
    exact Local.executionBind (local_creditReward p beneficiary reward)
      fun _ => Local.executionPure _

/-- A transaction is as local as its settlement. -/
theorem local_process {ctx : BlockContext} {t : Transaction} {v : Validation}
    (h : Local (p.settle ctx t v).runOn) : Local (p.process ctx t v).runOn :=
  Local.executionBind h fun s => local_finish p ctx.beneficiary s

/-- Watching a transaction makes no difference to it. -/
theorem processTraced_eq (p : Processor) (ctx : BlockContext) (t : Transaction) (v : Validation)
    (w : Accumulator) :
    (p.processTraced ctx t v w).result = ((p.process ctx t v).runOn w).1 ∧
      (p.processTraced ctx t v w).world = ((p.process ctx t v).runOn w).2 := by
  unfold processTraced process
  rw [Execution.runOn_bind]
  rcases (p.settle ctx t v).runOn w with ⟨answer, settled⟩
  cases answer <;> exact ⟨rfl, rfl⟩

end Processor

/-! ## Taking back a transaction -/

namespace Simple

/-- A transaction, watched or not, that ended in any way on an accumulator over any view: going back
to the checkpoint from before it restores what was there. -/
theorem process_takenBack {view : WorldView} {w : Accumulator}
    (h : Accumulator.Reached view w) (config : ProcessorConfig) (ctx : BlockContext)
    (t : Transaction) (v : Validation) :
    w.RestoresTo
        (((processor config).processTraced ctx t v w).world.revertTo w.checkpoint) ∧
      w.RestoresTo ((((processor config).process ctx t v).runOn w).2.revertTo w.checkpoint) := by
  have hs := h.sound_base.1
  have hlocal : Local ((processor config).process ctx t v).runOn :=
    Processor.local_process (local_settle config ctx t v)
  have hback := (hlocal.grows w hs).restoresTo hs
  refine ⟨?_, hback⟩
  rw [(Processor.processTraced_eq (processor config) ctx t v w).2]
  exact hback

/-- A view of two accounts at which the account 9 cannot be read. -/
def faultyView : WorldView :=
  { Accumulator.hollowState.view with
    account := fun a =>
      if a = 9 then .error (.stateUnavailable 9) else Accumulator.hollowState.view.account a }

/-- The account 1 was paid, which can still be undone. -/
def paidOverFault : Accumulator :=
  ((Operation.increaseBalance 1 4).execution.runOn (.ofView faultyView)).2

/-- A transfer in a block of the account 9. -/
def transferToFault : Transaction where
  request := { chainId := 1, sender := 2, recipient := some 1, value := 3, gasLimit := 21000 }
  signature := ⟨1, 1, false⟩
  hash := 0

/-- The beneficiary cannot be read once all the rest is done. What was done until then is taken
back, and what was done before stays: it can still be undone. -/
theorem process_takenBack_faultyReward :
    let config : ProcessorConfig := { verifySignatures := false, clearEmptyAccounts := false }
    let ctx : BlockContext := ⟨{}, 9, fun _ => none, 1⟩
    let run := (processor config).processTraced ctx transferToFault .full paidOverFault
    run.result.isOk = false ∧ run.world.values.account 1 = some (.plain 0 7) ∧
      run.world.journal.length = 5 ∧
      paidOverFault.RestoresTo (run.world.revertTo paidOverFault.checkpoint) ∧
      (run.world.revertTo paidOverFault.checkpoint).values.account 1 = some (.plain 0 4) ∧
      (run.world.revertTo paidOverFault.checkpoint).journal.length = 1 := by
  have hreached : Accumulator.Reached faultyView paidOverFault :=
    .operation .fresh (.increaseBalance 1 4)
  exact ⟨by decide +kernel, by decide +kernel, by decide +kernel,
    (process_takenBack hreached _ _ _ _).1, by decide +kernel, by decide +kernel⟩

end Simple

end BlockExecution
