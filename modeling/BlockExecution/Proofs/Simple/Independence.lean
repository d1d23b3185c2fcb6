/-
  Under the slot processor exactly the independent successes are taken over.

  On the head every transaction has a context, and where the block waits for
  them all, each is there at its turn. What becomes of it, and hence both pairs
  of counters, is settled by the state before the block and the sequential
  course.
-/
import BlockExecution.Proofs.Block.Independence
import BlockExecution.Proofs.Simple.Conservation

namespace BlockExecution.Simple

variable {config : ProcessorConfig} {archive : Archive} {block : Block} {parent : WorldState}

/-- On the head every transaction has its context at its turn, if the block waits for it. -/
theorem exists_speculative (config : ProcessorConfig)
    (hhead : archive.head = block.header.parentHash)
    (hparent : archive.state? block.header.parentHash = some parent) (index : Nat)
    (t : Transaction) :
    ∃ c, (Schedule.parallel fun _ => true).speculative (processor config) archive
      (block.context archive) index t = some c := by
  obtain ⟨st, settled, hrun, -, -⟩ := ensures_settle config (block.context archive) t
    Validation.full parent.view.values (.ofView parent.view)
    (Accumulator.sound_ofView parent.view) parent.readable_view
    (Accumulator.values_ofView parent.view)
  exact SpeculativeContext.exists_speculate (lawful_processor config) hhead hparent index hrun

open Classical in
/-- A block on the head that waits for all speculative executions takes over a transaction exactly
when, run alone on the state of the parent, it succeeds and uses nothing that the transactions
before it have changed. The counters give the number of these transactions and of the others. -/
theorem processBlock_takesOver_iff (hhead : archive.head = block.header.parentHash)
    (hparent : archive.state? block.header.parentHash = some parent) {o : BlockOutcome}
    (h : ((processor config).processBlock archive block (.parallel fun _ => true)).outcome =
      .ok o) :
    (∀ index, (∃ c, (processor config).TakesOver archive block (.parallel fun _ => true) index c) ↔
        (processor config).IndependentAt archive block parent index) ∧
      o.tally.parallelized =
        Nat.count ((processor config).IndependentAt archive block parent)
          block.transactions.length ∧
      o.tally.replayed = block.transactions.length - o.tally.parallelized ∧
      ((processor config).processBlock archive block (.parallel fun _ => true)).metrics =
        ⟨o.tally.parallelized, o.tally.replayed⟩ := by
  have hp := lawful_processor config
  have hspec := exists_speculative config hhead hparent
  -- No context of the slot processor nets, so the courses stay in lockstep throughout.
  have hnets : ∀ i c, (processor config).TakesOver archive block (.parallel fun _ => true) i c →
      ¬ c.Nets (processor config) block.header.beneficiary := fun _ _ => not_nets_of_takesOver
  rw [Processor.processBlock_of_state hparent] at h ⊢
  rcases hrun : (processor config).progressAfter archive block (.parallel fun _ => true) parent
    block.transactions.length with ⟨answer, b⟩
  rw [hrun] at h
  cases answer with
  | error e => cases h
  | ok _ =>
    obtain rfl := Except.ok.inj h
    have htaken := Processor.takesOver_iff_independentAt_of_ok hp hparent hnets
      (fun i t _ => hspec i t) hrun
    obtain ⟨hparallelized, hsum, hconfirmed, hconflicting⟩ :=
      Processor.counters_progressAfter hp hparent hnets (fun i t _ => hspec i t) le_rfl hrun
    refine ⟨htaken, ?_, ?_, ?_⟩
    · show b.tally.parallelized = _
      rw [hparallelized]
      simp only [htaken]
    · show b.tally.replayed = block.transactions.length - b.tally.parallelized
      omega
    · show b.metrics = ⟨b.tally.parallelized, b.tally.replayed⟩
      rw [← hconfirmed, ← hconflicting]

/-- Of three transfers the third comes from an account that the first has changed. -/
theorem processBlock_takesOver_iff_transfers :
    ∃ o, ((processor { verifySignatures := false }).processBlock payersArchive transfersBlock
        (.parallel fun _ => true)).outcome = .ok o ∧
      ((processor { verifySignatures := false }).processBlock payersArchive transfersBlock
        (.parallel fun _ => true)).metrics = ⟨2, 1⟩ ∧
      ∀ index, (∃ c, (processor { verifySignatures := false }).TakesOver payersArchive
          transfersBlock (.parallel fun _ => true) index c) ↔
        (processor { verifySignatures := false }).IndependentAt payersArchive transfersBlock
          payersState index := by
  have hcounts : ((processor { verifySignatures := false }).processBlock payersArchive
      transfersBlock (.parallel fun _ => true)).outcome.toOption.map
        (fun o => (o.tally.parallelized, o.tally.replayed)) = some (2, 1) := by
    decide +kernel
  cases h : ((processor { verifySignatures := false }).processBlock payersArchive
      transfersBlock (.parallel fun _ => true)).outcome with
  | error e =>
    rw [h] at hcounts
    cases hcounts
  | ok o =>
    rw [h] at hcounts
    obtain ⟨hparallelized, hreplayed⟩ := Prod.mk.inj (Option.some.inj hcounts)
    have hparent : payersArchive.state? transfersBlock.header.parentHash = some payersState := by
      decide +kernel
    obtain ⟨htaken, -, -, hmetrics⟩ := processBlock_takesOver_iff (by rfl) hparent h
    rw [hparallelized, hreplayed] at hmetrics
    exact ⟨o, rfl, hmetrics, htaken⟩

end BlockExecution.Simple
