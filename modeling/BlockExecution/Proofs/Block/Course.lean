/-
  Accepted blocks as courses of values.

  For a processor whose transactions are functions on values, an accepted block is
  a chain of them: each transaction fits into the gas that is left, and none is
  refused. Such a course determines the receipts, the counts and the state of the
  block, in every schedule in which no context nets; and a block that has a course
  is accepted.
-/
import BlockExecution.Proofs.Block.Equivalence
import BlockExecution.Proofs.State.Gives
import BlockExecution.Proofs.State.Persistence

namespace BlockExecution

open BlockExecution.Snapshot

/-- What transactions do to values: the result, and the values after it. -/
abbrev TransactionMeaning := Transaction → Snapshot → ProcessingResult × Snapshot

/-- Whether a processor, with all checks on, does what a function on values says. -/
def Processor.Means (p : Processor) (ctx : BlockContext) (meaning : TransactionMeaning) : Prop :=
  ∀ t u, (p.process ctx t Validation.full).Gives u (meaning t u).1 (meaning t u).2

/-- Transactions that go through one after the other, from the gas used before them and given
values: their results, and the values after them. -/
inductive Course (gasLimit : U64) (meaning : TransactionMeaning) :
    U64 → Snapshot → List Transaction → List ProcessingResult → Snapshot → Prop
  | nil (gasUsed : U64) (u : Snapshot) : Course gasLimit meaning gasUsed u [] [] u
  | cons {gasUsed : U64} {u v : Snapshot} {t : Transaction} {rest : List Transaction}
      {results : List ProcessingResult} (hgas : ¬ gasLimit - gasUsed < t.request.gasLimit)
      (hexecuted : (meaning t u).1.rejection? = none)
      (hrest : Course gasLimit meaning (gasUsed + (meaning t u).1.gasUsed) (meaning t u).2 rest
        results v) :
      Course gasLimit meaning gasUsed u (t :: rest) ((meaning t u).1 :: results) v

/-- The receipts of results, from the gas used before them. -/
def receiptsFrom (gasUsed : U64) : List ProcessingResult → List Receipt
  | [] => []
  | result :: rest =>
    ⟨result.isSuccessful, gasUsed + result.gasUsed, result.logs⟩ ::
      receiptsFrom (gasUsed + result.gasUsed) rest

/-- The gas used after results. -/
def gasAfter (gasUsed : U64) (results : List ProcessingResult) : U64 :=
  results.foldl (fun gasUsed result => gasUsed + result.gasUsed) gasUsed

variable {p : Processor} {ctx : BlockContext} {view : WorldView} {meaning : TransactionMeaning}
  {transactions : List Transaction} {results : List ProcessingResult} {u v : Snapshot}
  {gasUsed : U64}

theorem Course.length_eq {gasLimit : U64}
    (h : Course gasLimit meaning gasUsed u transactions results v) :
    results.length = transactions.length := by
  induction h with
  | nil => rfl
  | cons hgas hexecuted hrest ih => rw [List.length_cons, List.length_cons, ih]

theorem length_receiptsFrom (gasUsed : U64) (results : List ProcessingResult) :
    (receiptsFrom gasUsed results).length = results.length := by
  induction results generalizing gasUsed with
  | nil => rfl
  | cons result rest ih => rw [receiptsFrom, List.length_cons, List.length_cons, ih]

/-! ## Turns of a sequential block -/

namespace BlockProgress

/-- What a progress has come to by results that lead to the values `v`. -/
structure Advances (view : WorldView) (b : BlockProgress) (results : List ProcessingResult)
    (v : Snapshot) (b' : BlockProgress) : Prop where
  world : b'.world.StandsOn view
  values : b'.world.values = v
  receipts : b'.receipts = b.receipts ++ receiptsFrom b.gasUsed results
  gasUsed : b'.gasUsed = gasAfter b.gasUsed results
  successful : b'.tally.successful = b.tally.successful + results.countP (·.isSuccessful)
  failed : b'.tally.failed = b.tally.failed + results.countP (!·.isSuccessful)

variable {b b' b'' : BlockProgress}

theorem Advances.refl (hb : b.world.StandsOn view) : Advances view b [] b.world.values b where
  world := hb
  values := rfl
  receipts := (List.append_nil _).symm
  gasUsed := rfl
  successful := rfl
  failed := rfl

theorem advances_addReceipt {result : ProcessingResult} {world : Accumulator}
    (hworld : world.StandsOn view) :
    Advances view b [result] world.values
      (({ b.reconciled b.world .missing with world } : BlockProgress).addReceipt result) where
  world := hworld.commit
  values := rfl
  receipts := rfl
  gasUsed := rfl
  successful := by
    cases h : result.isSuccessful <;> simp [addReceipt, reconciled, countSource, h]
  failed := by
    cases h : result.isSuccessful <;> simp [addReceipt, reconciled, countSource, h]

theorem Advances.trans {result : ProcessingResult} (hfirst : Advances view b [result] u b')
    (hrest : Advances view b' results v b'') : Advances view b (result :: results) v b'' where
  world := hrest.world
  values := hrest.values
  receipts := by
    rw [hrest.receipts, hfirst.receipts, hfirst.gasUsed, List.append_assoc]
    rfl
  gasUsed := by rw [hrest.gasUsed, hfirst.gasUsed]; rfl
  successful := by
    rw [hrest.successful, hfirst.successful, List.countP_cons, List.countP_cons]
    simp
    omega
  failed := by
    rw [hrest.failed, hfirst.failed, List.countP_cons, List.countP_cons]
    simp
    omega

end BlockProgress

namespace Processor

open BlockProgress

variable {b b' : BlockProgress} {t : Transaction}

/-- A transaction that fits and is not refused takes the block one turn on. -/
theorem runOn_processNext_of_means (index : Nat) (hp : p.Means ctx meaning) (hr : view.Readable)
    (hb : b.world.StandsOn view) (hgas : ¬ b.LacksGas ctx t)
    (hexecuted : (meaning t b.world.values).1.rejection? = none) :
    ∃ b', (p.processNext ctx none index t).runOn b = (.ok (), b') ∧
      Advances view b [(meaning t b.world.values).1] (meaning t b.world.values).2 b' := by
  obtain ⟨world, hrun, hext, hvalues⟩ :=
    (hp t b.world.values).run hb.sound (hb.base ▸ hr)
  have hnext : (p.processNext ctx none index t).runOn b = _ := runOn_processNext_of_replayed hgas
    (SpeculativeContext.runOn_reconcile_none p ctx.beneficiary t b.world) (.inl rfl)
  rw [hrun] at hnext
  dsimp only [endTurn] at hnext
  rw [hexecuted] at hnext
  rw [← hvalues]
  exact ⟨_, hnext, advances_addReceipt (hext.standsOn hb)⟩

/-- Transactions that have a course go through in sequence. -/
theorem runOn_processAll_of_course (hp : p.Means ctx meaning) (hr : view.Readable)
    (h : Course ctx.header.gasLimit meaning gasUsed u transactions results v) :
    ∀ (index : Nat) (b : BlockProgress), b.world.StandsOn view → b.world.values = u →
      b.gasUsed = gasUsed →
      ∃ b', (p.processAll ctx (fun _ _ => none) index transactions).runOn b = (.ok (), b') ∧
        Advances view b results v b' := by
  induction h with
  | nil gasUsed u =>
    rintro index b hb rfl rfl
    exact ⟨b, rfl, .refl hb⟩
  | cons hgas hexecuted hrest ih =>
    rintro index b hb rfl rfl
    obtain ⟨b₁, hnext, hfirst⟩ :=
      runOn_processNext_of_means index hp hr hb hgas hexecuted
    obtain ⟨b', hrun, hadvances⟩ := ih (index + 1) b₁ hfirst.world hfirst.values
      hfirst.gasUsed
    refine ⟨b', ?_, hfirst.trans hadvances⟩
    rw [processAll, BlockExecutionStep.runOn_bind, hnext]
    exact hrun

/-- Transactions that go through in sequence have a course. -/
theorem course_of_runOn_processAll (hp : p.Means ctx meaning) (hr : view.Readable)
    (transactions : List Transaction) :
    ∀ {index : Nat} {b b' : BlockProgress}, b.world.StandsOn view →
      (p.processAll ctx (fun _ _ => none) index transactions).runOn b = (.ok (), b') →
      ∃ results v, Course ctx.header.gasLimit meaning b.gasUsed b.world.values transactions
        results v := by
  induction transactions with
  | nil => exact fun _ _ => ⟨[], _, .nil _ _⟩
  | cons t rest ih =>
    intro index b b' hb h
    rw [processAll, BlockExecutionStep.runOn_bind] at h
    rcases hnext : (p.processNext ctx none index t).runOn b with ⟨answer, b₁⟩
    rw [hnext] at h
    cases answer with
    | error e => cases h
    | ok _ =>
      obtain ⟨hgas, result, world, hrun, hexecuted, hb₁⟩ := processNext_none_ok hnext
      -- The turn is the one that the transaction means.
      obtain ⟨world', hrun', -, -⟩ := (hp t b.world.values).run hb.sound (hb.base ▸ hr)
      rw [hrun, Prod.mk.injEq, Except.ok.injEq] at hrun'
      rw [hrun'.1] at hexecuted
      obtain ⟨b₂, hnext', hfirst⟩ :=
        runOn_processNext_of_means index hp hr hb hgas hexecuted
      rw [hnext, Prod.mk.injEq] at hnext'
      obtain rfl := hnext'.2
      obtain ⟨results, v, hcourse⟩ := ih hfirst.world h
      rw [hfirst.values, hfirst.gasUsed] at hcourse
      exact ⟨_, v, .cons hgas hexecuted hcourse⟩

/-! ## Blocks -/

variable {archive : Archive} {block : Block} {schedule : Schedule} {parent : WorldState}
  {o : BlockOutcome}

/-- What a block yields whose results lead from the state of its parent to the values `v`. -/
structure Yields (parent : WorldState) (results : List ProcessingResult) (v : Snapshot)
    (o : BlockOutcome) : Prop where
  receipts : o.receipts = receiptsFrom 0 results
  gasUsed : o.gasUsed = gasAfter 0 results
  successful : o.tally.successful = results.countP (·.isSuccessful)
  failed : o.tally.failed = results.countP (!·.isSuccessful)
  account : ∀ a, o.state.account? a = v.account a
  slot : ∀ k, o.state.storageValue k =
    if parent.account? k.address ≠ none ∧ v.account k.address = none then 0 else v.slot k

/-- The outcome of a progress yields what its results yield. -/
theorem yields_of_advances {b : BlockProgress}
    (h : Advances parent.view { world := .ofView parent.view } results v b) :
    ∃ o, outcomeOf block parent (.ok (), b) = .ok o ∧ Yields parent results v o := by
  have hs := h.world.sound
  have hbase := h.world.base
  refine ⟨_, rfl, ?_⟩
  exact
    { receipts := h.receipts
      gasUsed := h.gasUsed
      successful := h.successful.trans (Nat.zero_add _)
      failed := h.failed.trans (Nat.zero_add _)
      account := fun a => by
        rw [← h.values]
        exact Accumulator.account?_apply_changes hs hbase a
      slot := fun k => by
        rw [← h.values]
        exact Accumulator.storageValue_apply_changes_eq hs hbase k }

/-- What agreeing outcomes yield is the same. -/
theorem Yields.of_agrees {o' : BlockOutcome} (h : Yields parent results v o)
    (hagrees : o.Agrees o') : Yields parent results v o' where
  receipts := hagrees.receipts.trans h.receipts
  gasUsed := hagrees.gasUsed.trans h.gasUsed
  successful := hagrees.successful.trans h.successful
  failed := hagrees.failed.trans h.failed
  account := hagrees.state ▸ h.account
  slot := hagrees.state ▸ h.slot

/-- A block that has a course is accepted in every schedule that agrees with the sequential one, and
yields what the course says. -/
theorem processBlock_of_course (hp : p.Means (block.context archive) meaning)
    (hparent : archive.state? block.header.parentHash = some parent)
    (hagree : OutcomesAgree (p.processBlock archive block .sequential).outcome
      (p.processBlock archive block schedule).outcome)
    (h : Course block.header.gasLimit meaning 0 parent.view.values block.transactions results v) :
    ∃ o, (p.processBlock archive block schedule).outcome = .ok o ∧ Yields parent results v o := by
  obtain ⟨b, hrun, hadvances⟩ := runOn_processAll_of_course hp parent.readable_view h
    0 { world := .ofView parent.view } (Accumulator.standsOn_ofView parent.view) rfl rfl
  have hsequential : (p.processBlock archive block .sequential).outcome =
      outcomeOf block parent (.ok (), b) := by
    rw [processBlock_of_state hparent, progressAfter, List.take_length]
    exact congrArg (outcomeOf block parent) hrun
  obtain ⟨o, ho, hyields⟩ := yields_of_advances hadvances
  rw [hsequential, ho] at hagree
  generalize (p.processBlock archive block schedule).outcome = other at hagree
  cases hagree with
  | accepted hagrees => exact ⟨_, rfl, hyields.of_agrees hagrees⟩

/-- An accepted block has a course, and yields what it says. -/
theorem course_of_processBlock (hp : p.Means (block.context archive) meaning)
    (hparent : archive.state? block.header.parentHash = some parent)
    (hagree : OutcomesAgree (p.processBlock archive block .sequential).outcome
      (p.processBlock archive block schedule).outcome)
    (h : (p.processBlock archive block schedule).outcome = .ok o) :
    ∃ results v,
      Course block.header.gasLimit meaning 0 parent.view.values block.transactions results v ∧
        Yields parent results v o := by
  -- The schedules agree, so the sequential run is accepted too, and its turns are the course.
  have hcourse : ∃ results v, Course block.header.gasLimit meaning 0 parent.view.values
      block.transactions results v := by
    rw [h] at hagree
    rw [processBlock_of_state hparent] at hagree
    rcases hrun : p.progressAfter archive block .sequential parent block.transactions.length
      with ⟨answer, b⟩
    rw [hrun] at hagree
    cases answer with
    | error e => cases hagree
    | ok _ =>
      rw [progressAfter, List.take_length] at hrun
      exact course_of_runOn_processAll hp parent.readable_view block.transactions
        (Accumulator.standsOn_ofView parent.view) hrun
  obtain ⟨results, v, hcourse⟩ := hcourse
  obtain ⟨o', ho', hyields⟩ := processBlock_of_course hp hparent hagree hcourse
  rw [h] at ho'
  obtain rfl := Except.ok.inj ho'
  exact ⟨results, v, hcourse, hyields⟩

end Processor

end BlockExecution
