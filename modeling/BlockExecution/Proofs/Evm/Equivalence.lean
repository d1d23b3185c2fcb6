/-
  On a virtual machine schedules agree unless a transaction nets.

  A machine that credits the reward last is lawful, so the general condition
  applies to it. The condition can fail: a contract at the address of the
  beneficiary may pay out to the sender just what the reward brings in. Merging
  such a transaction credits a reward that the changes it brings along do not take
  back.
-/
import BlockExecution.Proofs.Block.Equivalence
import BlockExecution.Proofs.Evm.Settlement
import BlockExecution.Proofs.Interpreter.Transact

namespace BlockExecution

namespace Evm

open BlockExecution.Snapshot

/-! ## The exact condition -/

namespace Engine

variable {e : Engine}

/-- A machine that credits the reward last makes a lawful processor. -/
theorem CreditsLast.lawful (he : e.CreditsLast) (config : ProcessorConfig) :
    (e.processor config).Lawful where
  standsOn ctx t v hw := e.standsOn_settle config ctx t v hw
  footprint {view s} ctx t v hs hr := by
    have hreadable : s.base.Readable := hs.base ▸ hr
    obtain ⟨front, hfront⟩ := he (.of config ctx t v)
    -- The footprint is that of the bare settlement, which answers and leaves the same.
    obtain ⟨region, hfoot⟩ :=
      (hfront.local_bareSettle config ctx t v).footprint s hs.sound hreadable
    obtain ⟨s', hsrun, hsvalues, hsnoted⟩ := hfront.runOn_settle hs hr
    refine ⟨region, ?_, ?_⟩
    · rintro rfl
      have hbare := (hfoot _ hs.sound hreadable (AgreeOn.refl _ _)).noted
      have hunknown : isKnown (.ofView view) ctx.beneficiary = false := rfl
      show ((e.settle config ctx t v).runOn _).2.noted = region
      rw [hsrun]
      show s'.noted = region
      rw [hsnoted hunknown, hbare, Accumulator.noted_ofView, Set.empty_union]
    · intro view' b hb hbr hagree
      have hmirror := (hfoot b hb.sound (hb.base ▸ hbr) hagree).toMirrors
      obtain ⟨b', hbrun, hbvalues, -⟩ := hfront.runOn_settle hb hbr
      constructor
      · show ((e.settle config ctx t v).runOn b).1 = ((e.settle config ctx t v).runOn s).1
        rw [hbrun, hsrun, hmirror.answer]
      · show AgreeOn region ((e.settle config ctx t v).runOn b).2.values
          ((e.settle config ctx t v).runOn s).2.values
        rw [hbrun, hsrun, hbvalues, hsvalues]
        exact hmirror.within
      · show AgreeOn regionᶜ ((e.settle config ctx t v).runOn b).2.values b.values
        rw [hbrun, hbvalues]
        exact hmirror.outside
  rewarded _ _ h hsuccess := rewarded_of_successful h hsuccess

/-- On every machine that credits the reward last, processing in parallel agrees with processing in
sequence after every transaction exactly when no speculative execution is taken over that used the
beneficiary, left it together with its reward as it was, and is owed a reward that counts. -/
theorem processBlock_parallel_agrees_iff (he : e.CreditsLast) (config : ProcessorConfig)
    (archive : Archive) (block : Block) (finished : Nat → Bool) :
    (∀ count, OutcomesAgree
        ((e.processor config).processBlock archive (block.first count) .sequential).outcome
        ((e.processor config).processBlock archive (block.first count)
          (.parallel finished)).outcome) ↔
      ∀ index c, (e.processor config).TakesOver archive block (.parallel finished) index c →
        ¬ c.Nets (e.processor config) block.header.beneficiary :=
  Processor.outcomesAgree_first_iff (he.lawful config) archive block (.parallel finished)

end Engine

/-! ## A transaction that nets -/

/-- The code of a beneficiary that pays its caller what a call of it earns as a reward. -/
def rebateCode : Bytes :=
  [0x60, 0, 0x60, 0, 0x60, 0, 0x60, 0, 0x62, 0, 0xd9, 0x58, 0x33, 0x60, 0, 0xf1, 0]

/-- An archive with one state: a sender, and the contract that pays it. -/
def rebateArchive : Archive where
  states := (∅ : Table Hash WorldState).insert 0
    (((∅ : WorldState).insertAccount 0xa1 (.plain 0 1000000000)).insertAccount 0xbe
      { Account.contract rebateCode with balance := 1000000 })

/-- A block with one call of its beneficiary. -/
def rebateBlock : Block where
  header := { beneficiary := 0xbe, gasLimit := 30000000, baseFee := some 7 }
  transactions := [
    { request :=
        { chainId := 1, sender := 0xa1, recipient := some 0xbe, gasLimit := 100000, maxFee := 10
          maxPriorityFee := 2 }
      signature := ⟨1, 1, false⟩
      hash := 0 }]

/-- The block on the interpreter, with unchecked signatures. -/
def rebateOutcome (schedule : Schedule) : Except BlockError BlockOutcome :=
  ((Interpreter.engine.processor { verifySignatures := false }).processBlock rebateArchive
    rebateBlock schedule).outcome

/-- In sequence the beneficiary ends with what it had, and in parallel with the reward on top. -/
theorem not_outcomesAgree_rebate :
    ¬ OutcomesAgree (rebateOutcome .sequential) (rebateOutcome (.parallel fun _ => true)) := by
  have hbalances :
      (rebateOutcome .sequential).toOption.map (·.state.balance 0xbe) = some 1000000 ∧
      (rebateOutcome (.parallel fun _ => true)).toOption.map (·.state.balance 0xbe) =
        some 1055640 := by
    decide +kernel
  -- Outcomes that agree have the same state, and so the same balance in it.
  have hbalance : ∀ {x y : Except BlockError BlockOutcome}, OutcomesAgree x y →
      y.toOption.map (·.state.balance 0xbe) = x.toOption.map (·.state.balance 0xbe) := by
    intro x y h
    cases h with
    | refused e => rfl
    | accepted h => exact congrArg (fun s : WorldState => some (s.balance 0xbe)) h.state
  intro hagree
  have hequal := hbalance hagree
  rw [hbalances.1, hbalances.2] at hequal
  exact absurd hequal (by decide)

/-- The execution of the call that is taken over nets: on the interpreter, which credits the reward
last, the schedules would agree otherwise. -/
theorem exists_nets_rebate :
    ∃ index c, (Interpreter.engine.processor { verifySignatures := false }).TakesOver rebateArchive
        rebateBlock (.parallel fun _ => true) index c ∧
      c.Nets (Interpreter.engine.processor { verifySignatures := false })
        rebateBlock.header.beneficiary := by
  by_contra hnone
  push Not at hnone
  exact not_outcomesAgree_rebate ((Engine.processBlock_parallel_agrees_iff
    Interpreter.creditsLast_engine { verifySignatures := false } rebateArchive rebateBlock
    fun _ => true).mpr hnone 1)

/-- The schedules disagree, on a machine that credits the reward last, about a block that calls a
beneficiary which pays its reward on. -/
theorem parallel_differs_from_sequential :
    Engine.CreditsLast Interpreter.engine ∧
      ¬ OutcomesAgree
        ((Interpreter.engine.processor { verifySignatures := false }).processBlock rebateArchive
          rebateBlock .sequential).outcome
        ((Interpreter.engine.processor { verifySignatures := false }).processBlock rebateArchive
          rebateBlock (.parallel fun _ => true)).outcome :=
  ⟨Interpreter.creditsLast_engine, not_outcomesAgree_rebate⟩

end Evm

end BlockExecution
