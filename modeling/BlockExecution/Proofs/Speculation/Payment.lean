/-
  What the beneficiary has after a merge, against what it had in the speculation.

  The body of a transaction may be anything that uses the beneficiary: a list of
  commands on an accumulator of its own. The merge credits the reward to the block
  and then takes over the changes of the context, whose account of the beneficiary
  holds the reward already. Where that account is among the changes, it replaces
  the credit. Where body and reward together changed nothing, the credit stays.
-/
import Mathlib
import BlockExecution.Proofs.Speculation.Merge
import BlockExecution.Proofs.State.Session
import BlockExecution.Proofs.State.Persistence
import BlockExecution.Evm.Processor

namespace BlockExecution

open BlockExecution.Snapshot

/-! ## Bodies -/

namespace Session

variable {view : WorldView} {s : Session} {c : Cell}

/-- Commands only add to what was noted. -/
theorem noted_perform (hs : s.world.Sound) (command : Command) :
    s.world.noted ⊆ (s.perform command).2.world.noted := by
  cases command with
  | operation op => exact (op.grows hs).noted
  | checkpoint => exact subset_rfl
  | revertTo nth =>
    simp only [perform]
    split
    · exact subset_rfl
    · rename_i checkpoint older _
      obtain ⟨v, writes, hback⟩ := Accumulator.exists_rewound_revertTo hs checkpoint
      exact hback.noted.superset
  | commit => exact subset_rfl

/-- The cell of an operation is noted, where it can be read. -/
theorem mem_noted_perform_operation (hs : s.world.Sound) (hr : s.world.base.Readable)
    (op : Operation) : op.cell ∈ (s.perform (.operation op)).2.world.noted := by
  obtain ⟨w', hrun, hused⟩ := op.isUse.runs hs (hr.fault?_eq_none op.cell)
  simp only [perform, hrun, hused.noted, Set.mem_insert_iff, true_or]

theorem Simulates.readable {m : PlainState} (h : Simulates view s m) (hr : view.Readable) :
    s.world.base.Readable := by
  rw [h.base]
  exact hr

/-- Every cell that some operation used is noted in the end. -/
theorem Simulates.mem_noted_performAll {m : PlainState} (h : Simulates view s m)
    (hr : view.Readable) {commands : List Command} {op : Operation}
    (hop : .operation op ∈ commands ∨ op.cell ∈ s.world.noted) :
    op.cell ∈ (BlockExecution.performAll Session.perform s commands).2.world.noted := by
  induction commands generalizing s m with
  | nil => exact hop.resolve_left List.not_mem_nil
  | cons command rest ih =>
    obtain ⟨-, hnext⟩ := h.perform command
    refine ih hnext ?_
    rcases hop with hop | hnoted
    · rcases List.mem_cons.mp hop with rfl | hrest
      · exact .inr (mem_noted_perform_operation h.sound (h.readable hr) op)
      · exact .inl hrest
    · exact .inr (noted_perform h.sound command hnoted)

end Session

namespace SpeculativeContext

variable {p : Processor} {view : WorldView} {beneficiary : Address} {body : List Command}
  {c : SpeculativeContext} {t : Transaction} {block : Accumulator}

/-- The context of a successful transaction whose body used the beneficiary, and which credited
the reward after it. -/
structure PaidAfter (c : SpeculativeContext) (p : Processor) (beneficiary : Address)
    (view : WorldView) (body : List Command) : Prop where
  successful : c.result.isSuccessful = true
  touched : c.beneficiaryTouched = true
  accesses : ∃ op, .operation op ∈ body ∧ op.cell = .account beneficiary
  world : c.world = ((p.creditReward beneficiary c.reward).runOn
    (performAll Session.perform { world := .ofView view } body).2.world).2.commit

/-- The accumulator of such a context is in order, and the beneficiary noted in it. -/
theorem PaidAfter.sound_noted (hc : c.PaidAfter p beneficiary view body) (hr : view.Readable) :
    c.world.Sound ∧ c.world.base = view ∧ .account beneficiary ∈ c.world.noted := by
  obtain ⟨op, hop, hcell⟩ := hc.accesses
  have hstart := Session.simulates_ofView view
  obtain ⟨-, hbody⟩ := hstart.performAll body
  have hnoted := hstart.mem_noted_performAll hr (.inl hop)
  rw [hcell] at hnoted
  obtain ⟨credited, hrun, hext, -, -⟩ := Processor.runOn_creditReward_of_sound (p := p)
    hbody.sound (hbody.readable hr) beneficiary c.reward
  rw [hc.world, hrun]
  exact ⟨Accumulator.sound_commit hext.sound, hext.base.trans hbody.base, hext.noted hnoted⟩

/-- A context that collides with nothing finds the beneficiary as the block has it. -/
theorem PaidAfter.beneficiary_unchanged (hc : c.PaidAfter p beneficiary view body)
    (hr : view.Readable) (hb : block.Sound)
    (hcollision : c.collision t beneficiary block = none) :
    .account beneficiary ∉ block.changed := by
  obtain ⟨-, -, hnoted⟩ := hc.sound_noted hr
  have hmem : beneficiary ∈ t.touchedAddresses c.world.tracker :=
    Transaction.mem_touchedAddresses.mpr (.inr ⟨_, hnoted, rfl⟩)
  exact ((collision_eq_none_iff hb beneficiary).mp hcollision beneficiary hmem
    fun _ => hc.touched).1

/-- A context without collision is merged. The block then has the account of the beneficiary that
the speculation has, exactly when the context does not net, and it has every value that the
speculation changed. -/
theorem account_reconciled_iff_not_nets (hr : view.Readable)
    (hb : Accumulator.Reached view block) (hc : c.PaidAfter p beneficiary view body)
    (hcollision : c.collision t beneficiary block = none) :
    ∃ merged : Accumulator,
      (p.reconcile beneficiary t (some c)).runOn block =
        (.ok (.merged { c.result with inParallel := true }), merged) ∧
      (merged.values.account beneficiary = c.world.values.account beneficiary ↔
        ¬ c.Nets p beneficiary) ∧
      ∀ d ∈ c.world.changed, merged.values.AgreeAt c.world.values d := by
  obtain ⟨hsound, hbase⟩ := hb.sound_base
  obtain ⟨hworld, hworldBase, -⟩ := hc.sound_noted hr
  have hstands : c.stands t beneficiary block = true := by
    rw [stands, hcollision, hc.successful]
    rfl
  obtain ⟨credited, hrun, hext, hvalues⟩ :=
    runOn_reconcile_of_stands p hsound (hbase ▸ hr) hstands
  have hsame : c.world.base = credited.base := by rw [hworldBase, hext.base, hbase]
  have htaken : ∀ d ∈ c.world.changed,
      (credited.importChanges c.world).values.AgreeAt c.world.values d := fun d hd =>
    Accumulator.values_importChanges_of_changed hworld hd
  refine ⟨credited.importChanges c.world, hrun, ?_, htaken⟩
  by_cases hchanged : .account beneficiary ∈ c.world.changed
  · exact iff_of_true (htaken _ hchanged) fun hnets => hnets.2.1 hchanged
  · -- The credit stays, on an account that neither the block nor the speculation changed.
    have hkept : (credited.importChanges c.world).values.account beneficiary =
        credited.values.account beneficiary :=
      Accumulator.values_importChanges_of_not_changed hworld hsame hchanged
    have hblock : block.values.account beneficiary = c.world.base.values.account beneficiary := by
      rw [hworldBase, ← hbase]
      exact Accumulator.agreeAt_base_of_not_changed
        (hc.beneficiary_unchanged hr hsound hcollision)
    have hspeculated : c.world.values.account beneficiary =
        c.world.base.values.account beneficiary :=
      Accumulator.agreeAt_base_of_not_changed hchanged
    rw [hkept, hvalues, account_setAccount_self, hblock, hspeculated, Nets]
    simp only [hc.touched, hchanged, not_false_eq_true, true_and, not_not]

/-! ## A call of the beneficiary -/

/-- A state with the beneficiary alone. -/
def beneficiaryState : WorldState := (∅ : WorldState).insertAccount 9 (.plain 0 100)

/-- A call of the beneficiary. -/
def beneficiaryCall : Transaction where
  request :=
    { chainId := 1, sender := 1, recipient := some 9, gasLimit := 100000, maxFee := 10
      maxPriorityFee := 2 }
  signature := ⟨1, 1, false⟩
  hash := 0

/-- The context of the call for a body and a reward of 5. -/
def beneficiaryContext (body : List Command) : SpeculativeContext where
  index := 0
  world := (((Evm.processor {}).creditReward 9 5).runOn
    (performAll Session.perform { world := .ofView beneficiaryState.view } body).2.world).2.commit
  result := .successful 21000 []
  reward := 5
  beneficiaryTouched := true

/-- A body that pays the reward on in advance: the beneficiary gives 5 to another account. -/
def payingOn : List Command :=
  [.operation (.updateAccount 9 fun a => { a with balance := a.balance - 5 }),
    .operation (.increaseBalance 1 5)]

theorem account_reconciled_of_read :
    ∃ merged : Accumulator,
      ((Evm.processor {}).reconcile 9 beneficiaryCall
        (some (beneficiaryContext [.operation (.account 9)]))).runOn
          (.ofView beneficiaryState.view) =
        (.ok (.merged { (ProcessingResult.successful 21000 []) with inParallel := true }),
          merged) ∧
      merged.values.account 9 = some (.plain 0 105) := by
  have hpaid : (beneficiaryContext [.operation (.account 9)]).PaidAfter (Evm.processor {}) 9
      beneficiaryState.view [.operation (.account 9)] :=
    ⟨by decide, rfl, ⟨_, List.mem_cons_self, rfl⟩, rfl⟩
  have hworld : (beneficiaryContext [.operation (.account 9)]).world.values.account 9 =
      some (.plain 0 105) := by decide +kernel
  have hchanged : .account 9 ∈ (beneficiaryContext [.operation (.account 9)]).world.changed := by
    intro hsame
    have hbase : (beneficiaryContext [.operation (.account 9)]).world.base.values.account 9 =
        some (.plain 0 100) := by decide +kernel
    have hkept := (hworld.symm.trans hsame).trans hbase
    exact absurd hkept (by decide)
  obtain ⟨merged, hrun, hiff, -⟩ := account_reconciled_iff_not_nets
    beneficiaryState.readable_view .fresh hpaid
    (t := beneficiaryCall) (by decide +kernel)
  exact ⟨merged, hrun, (hiff.mpr fun hnets => hnets.2.1 hchanged).trans hworld⟩

/-- Where the body has paid the reward on, the credit to the block is not replaced: the account
of the beneficiary is not the speculative one. -/
theorem account_reconciled_differs :
    (beneficiaryContext payingOn).PaidAfter (Evm.processor {}) 9 beneficiaryState.view payingOn ∧
    (beneficiaryContext payingOn).collision beneficiaryCall 9
      (.ofView beneficiaryState.view) = none ∧
    ∃ merged : Accumulator,
      ((Evm.processor {}).reconcile 9 beneficiaryCall (some (beneficiaryContext payingOn))).runOn
          (.ofView beneficiaryState.view) =
        (.ok (.merged { (ProcessingResult.successful 21000 []) with inParallel := true }),
          merged) ∧
      merged.values.account 9 = some (.plain 0 105) ∧
      (beneficiaryContext payingOn).world.values.account 9 = some (.plain 0 100) := by
  have hstands : (beneficiaryContext payingOn).stands beneficiaryCall 9
      (.ofView beneficiaryState.view) = true := by decide +kernel
  obtain ⟨credited, hrun, -, -⟩ := runOn_reconcile_of_stands (Evm.processor {})
    (Accumulator.sound_ofView beneficiaryState.view) beneficiaryState.readable_view hstands
  have hafter : (((Evm.processor {}).reconcile 9 beneficiaryCall
      (some (beneficiaryContext payingOn))).runOn
        (.ofView beneficiaryState.view)).2.values.account 9 = some (.plain 0 105) := by
    decide +kernel
  rw [hrun] at hafter
  exact ⟨⟨by decide, rfl, ⟨_, List.mem_cons_self, rfl⟩, rfl⟩, by decide +kernel, _, hrun, hafter,
    by decide +kernel⟩

end SpeculativeContext

end BlockExecution
