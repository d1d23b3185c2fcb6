/-
  When parallel and sequential processing agree.

  For every lawful processor the outcomes agree after each transaction exactly
  when no context that nets is taken over. A processor under which successful
  transactions never net thus computes the same blocks under every schedule.
-/
import BlockExecution.Proofs.Block.Simulation
import BlockExecution.Proofs.State.Changes

namespace BlockExecution

open BlockExecution.Snapshot

/-! ## Agreement -/

/-- The same block with the same effects. How many results were taken over from speculation is
left aside. -/
structure BlockOutcome.Agrees (a b : BlockOutcome) : Prop where
  blockHash : b.blockHash = a.blockHash
  changes : b.changes = a.changes
  state : b.state = a.state
  receipts : b.receipts = a.receipts
  gasUsed : b.gasUsed = a.gasUsed
  successful : b.tally.successful = a.tally.successful
  failed : b.tally.failed = a.tally.failed

/-- Both accepted with agreeing outcomes, or both refused for the same reason. -/
inductive OutcomesAgree : Except BlockError BlockOutcome → Except BlockError BlockOutcome → Prop
  | accepted {a b : BlockOutcome} (h : a.Agrees b) : OutcomesAgree (.ok a) (.ok b)
  | refused (e : BlockError) : OutcomesAgree (.error e) (.error e)

namespace Processor

variable {p : Processor} {archive : Archive} {block : Block} {schedule : Schedule}
  {parent : WorldState}

open BlockProgress

theorem outcomesAgree_of_lockstep {x y : Except BlockError Unit × BlockProgress}
    (h : Lockstep parent.view x y) :
    OutcomesAgree (outcomeOf block parent x) (outcomeOf block parent y) := by
  cases h with
  | stopped e => exact .refused e
  | @running a b h =>
    -- Over one view equal values are equal changes, and the state is made from these.
    have hbase : b.world.base = a.world.base := h.right.base.trans h.left.base.symm
    have hchanges : b.world.changes = a.world.changes :=
      (Accumulator.changes_eq_iff h.right.sound h.left.sound hbase).mpr h.values
    exact .accepted
      { blockHash := rfl
        changes := hchanges
        state := congrArg parent.apply hchanges
        receipts := h.receipts
        gasUsed := h.gasUsed
        successful := h.successful
        failed := h.failed }

/-- What a block cut off after `count` transactions yields. -/
theorem outcome_first (hparent : archive.state? block.header.parentHash = some parent)
    (count : Nat) :
    (p.processBlock archive (block.first count) schedule).outcome =
      outcomeOf block parent (p.progressAfter archive block schedule parent count) := by
  have hstate : archive.state? (block.first count).header.parentHash = some parent := hparent
  rw [processBlock_of_state hstate, progressAfter_first]
  rcases p.progressAfter archive block schedule parent count with ⟨answer, progress⟩
  cases answer <;> rfl

/-- Cutting a block off after all of its transactions leaves it as it is. -/
theorem first_length (block : Block) : block.first block.transactions.length = block := by
  unfold Block.first
  rw [List.take_length]

/-! ## The exact condition -/

/-- Processing in parallel agrees with processing in sequence after every transaction exactly when
no context that nets is taken over. -/
theorem outcomesAgree_first_iff (hp : p.Lawful) (archive : Archive) (block : Block)
    (schedule : Schedule) :
    (∀ count, OutcomesAgree (p.processBlock archive (block.first count) .sequential).outcome
        (p.processBlock archive (block.first count) schedule).outcome) ↔
      ∀ index c, p.TakesOver archive block schedule index c →
        ¬ c.Nets p block.header.beneficiary := by
  constructor
  · intro hagree index
    induction index using Nat.strong_induction_on with
    | _ index ih =>
      -- Up to this turn nothing netted, so the courses are still in lockstep before it.
      intro c htakes hnets
      obtain ⟨parent, t, b, result, world, hparent, ht, hspec, hb, hgas, hreconcile⟩ := htakes
      have hbefore := progressAfter_lockstep hp hparent index ih
      have hvalid := valid_of_speculative hp hparent hspec
      have hafter := hagree (index + 1)
      rw [outcome_first hparent, outcome_first hparent, progressAfter_succ ht,
        progressAfter_succ ht, hb] at hafter
      rw [hb] at hbefore
      rcases hleft : p.progressAfter archive block .sequential parent index with ⟨answer, a⟩
      rw [hleft] at hbefore hafter
      cases hbefore with
      | running h =>
        obtain ⟨a', b', ha', hb', hleft', hright', hvalues, -⟩ :=
          processNext_of_stands hp parent.readable_view index h hgas hvalid
            (stands_of_merged hreconcile)
        have hspecLeft : Schedule.sequential.speculative p archive (block.context archive)
            index t = none := rfl
        rw [hspec, hspecLeft] at hafter
        simp only [ha', hb', outcomeOf] at hafter
        cases hafter with
        | accepted hsame =>
          have hbase : b'.world.base = a'.world.base := hright'.base.trans hleft'.base.symm
          have hequal : b'.world.values = a'.world.values :=
            (Accumulator.changes_eq_iff hright'.sound hleft'.sound hbase).mp hsame.changes
          exact hvalues hequal hnets
  · intro hnets count
    cases hparent : archive.state? block.header.parentHash with
    | none =>
      have hstate : archive.state? (block.first count).header.parentHash = none := hparent
      rw [processBlock_of_no_state hstate, processBlock_of_no_state hstate]
      exact .refused _
    | some parent =>
      rw [outcome_first hparent, outcome_first hparent]
      exact outcomesAgree_of_lockstep
        (progressAfter_lockstep hp hparent count fun i _ c => hnets i c)

/-- Outcomes agree where no context that nets is taken over. -/
theorem outcomesAgree_of_not_nets (hp : p.Lawful)
    (h : ∀ index c, p.TakesOver archive block schedule index c →
      ¬ c.Nets p block.header.beneficiary) :
    OutcomesAgree (p.processBlock archive block .sequential).outcome
      (p.processBlock archive block schedule).outcome := by
  have hfirst := (outcomesAgree_first_iff hp archive block schedule).mpr h
    block.transactions.length
  rwa [first_length] at hfirst

end Processor

end BlockExecution
