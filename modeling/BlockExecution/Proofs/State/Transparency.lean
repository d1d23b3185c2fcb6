/-
  Loaded values as a transparent cache.

  Two accumulators are alike when they have the same values and records and
  differ at most in which cells are loaded. No step tells alike accumulators
  apart: it answers the same on both and leaves them alike. Taking over what a
  discarded run has loaded, without what it wrote, leads to an alike accumulator.
-/
import BlockExecution.Proofs.State.History
import BlockExecution.Proofs.State.NetChange
import BlockExecution.Proofs.State.Record

namespace BlockExecution.Accumulator

open BlockExecution.Snapshot

variable {view : WorldView} {w w' b source : Accumulator}

/-! ## Alike accumulators -/

/-- Sound accumulators that differ at most in which cells are loaded. -/
structure Alike (w w' : Accumulator) : Prop where
  sound : w.Sound
  sound' : w'.Sound
  base : w'.base = w.base
  values : w'.values = w.values
  tracker : w'.tracker = w.tracker
  journal : w'.journal = w.journal

theorem alike_importPrior (hb : b.Sound) (hs : source.Sound) (hbase : source.base = b.base) :
    b.Alike (b.importPrior source) where
  sound := hb
  sound' := sound_importPrior hb hs hbase
  base := rfl
  values := values_importPrior hs hbase
  tracker := rfl
  journal := rfl

/-! ## One step -/

/-- An operation fails on both sides or on neither, and what it answers, leaves and records is told
by values that both have. -/
theorem Alike.operation (h : w.Alike w') (op : Operation) :
    (op.execution.runOn w').1 = (op.execution.runOn w).1 ∧
      (op.execution.runOn w).2.Alike (op.execution.runOn w').2 := by
  cases hfault : w.base.fault? op.cell with
  | some e =>
    have hfault' : w'.base.fault? op.cell = some e := by rw [h.base, hfault]
    rw [op.isUse.fails h.sound hfault, op.isUse.fails h.sound' hfault']
    exact ⟨rfl, h⟩
  | none =>
    have hfault' : w'.base.fault? op.cell = none := by rw [h.base, hfault]
    obtain ⟨x, hrun, hused⟩ := op.isUse.runs h.sound hfault
    obtain ⟨x', hrun', hused'⟩ := op.isUse.runs h.sound' hfault'
    have hrecorded := op.records w h.sound hfault
    have hrecorded' := op.records w' h.sound' hfault'
    rw [hrun] at hrecorded
    rw [hrun'] at hrecorded'
    rw [hrun, hrun', h.values]
    exact ⟨rfl,
      { sound := hused.grown.sound
        sound' := hused'.grown.sound
        base := by rw [hused'.grown.base, hused.grown.base, h.base]
        values := by rw [hused'.values, hused.values, h.values]
        tracker := by rw [hrecorded'.tracker, hrecorded.tracker, h.values, h.tracker]
        journal := by rw [hrecorded'.journal, hrecorded.journal, h.values, h.journal] }⟩

theorem Alike.revertTo (h : w.Alike w') (c : Checkpoint) :
    (w.revertTo c).Alike (w'.revertTo c) := by
  have hback := rewound_revertTo_depth h.sound c
  have hback' := rewound_revertTo_depth h.sound' c
  rw [h.values, h.journal] at hback'
  exact
    { sound := hback.sound
      sound' := hback'.sound
      base := by rw [hback'.base, hback.base, h.base]
      values := by rw [hback'.values, hback.values]
      tracker := by rw [tracker_revertTo, tracker_revertTo, h.tracker]
      journal := by rw [hback'.journal, hback.journal] }

theorem Alike.commit (h : w.Alike w') : w.commit.Alike w'.commit where
  sound := sound_commit h.sound
  sound' := sound_commit h.sound'
  base := h.base
  values := h.values
  tracker := h.tracker
  journal := rfl

theorem Alike.forget (h : w.Alike w') (a : Address) : (w.forget a).Alike (w'.forget a) where
  sound := sound_forget h.sound a
  sound' := sound_forget h.sound' a
  base := h.base
  values := by
    apply ext_agreeAt
    intro c
    by_cases hc : c.address = a
    · have hviews : w'.base.values = w.base.values := by rw [h.base]
      exact (hviews ▸ values_forget_of_address w' hc).trans (values_forget_of_address w hc).symm
    · exact (h.values ▸ values_forget_of_ne w' hc).trans (values_forget_of_ne w hc).symm
  tracker := congrArg (·.forget a) h.tracker
  journal := congrArg (List.filter fun entry : JournalEntry => entry.address != a) h.journal

/-- What is taken over is told by the source alone. -/
theorem Alike.importChanges (h : w.Alike w') (hs : source.Sound) (hbase : source.base = w.base) :
    (w.importChanges source).Alike (w'.importChanges source) where
  sound := sound_importChanges h.sound hs hbase
  sound' := sound_importChanges h.sound' hs (hbase.trans h.base.symm)
  base := h.base
  values := by
    apply ext_agreeAt
    intro c
    by_cases hc : c ∈ source.changed
    · exact (values_importChanges_of_changed hs hc).trans
        (values_importChanges_of_changed hs hc).symm
    · have hkept := values_importChanges_of_not_changed hs (hbase.trans h.base.symm) hc
      rw [h.values] at hkept
      exact hkept.trans (values_importChanges_of_not_changed hs hbase hc).symm
  tracker := congrArg (·.recordImport source.accounts source.slots) h.tracker
  journal := h.journal

theorem Alike.importPrior (h : w.Alike w') (hs : source.Sound) (hbase : source.base = w.base) :
    (w.importPrior source).Alike (w'.importPrior source) where
  sound := sound_importPrior h.sound hs hbase
  sound' := sound_importPrior h.sound' hs (hbase.trans h.base.symm)
  base := h.base
  values := by
    rw [values_importPrior hs hbase, values_importPrior hs (hbase.trans h.base.symm), h.values]
  tracker := h.tracker
  journal := h.journal

/-- No step tells alike accumulators apart. -/
theorem Alike.perform (h : w.Alike w') {step : Step} (hstep : step.Over w.base) :
    (w'.perform step).1 = (w.perform step).1 ∧ (w.perform step).2.Alike (w'.perform step).2 := by
  cases step with
  | operation op =>
    obtain ⟨hreply, hnext⟩ := h.operation op
    exact ⟨congrArg Answer.reply hreply, hnext⟩
  | checkpoint =>
    have hdepth : w'.checkpoint = w.checkpoint := by rw [checkpoint, checkpoint, h.journal]
    exact ⟨congrArg Answer.checkpoint hdepth, h⟩
  | revertTo c => exact ⟨rfl, h.revertTo c⟩
  | commit => exact ⟨rfl, h.commit⟩
  | forget a => exact ⟨rfl, h.forget a⟩
  | importChanges source =>
    obtain ⟨hs, hbase⟩ := Reached.sound_base hstep
    exact ⟨rfl, h.importChanges hs hbase⟩
  | importPrior source =>
    obtain ⟨hs, hbase⟩ := Reached.sound_base hstep
    exact ⟨rfl, h.importPrior hs hbase⟩

/-! ## Any steps -/

/-- And no sequence of steps does. -/
theorem Alike.performSteps (h : w.Alike w') (hw : Reached view w) {steps : List Step}
    (hsteps : ∀ step ∈ steps, step.Over view) :
    (w'.performSteps steps).1 = (w.performSteps steps).1 ∧
      (w.performSteps steps).2.Alike (w'.performSteps steps).2 := by
  induction steps generalizing w w' with
  | nil => exact ⟨rfl, h⟩
  | cons step rest ih =>
    have hstep : step.Over view := hsteps step List.mem_cons_self
    have hview : w.base = view := hw.sound_base.2
    obtain ⟨hanswer, hnext⟩ := h.perform (hview ▸ hstep)
    obtain ⟨hanswers, hlast⟩ := ih hnext (hw.perform hstep) fun s hs =>
      hsteps s (List.mem_cons_of_mem _ hs)
    exact ⟨congrArg₂ List.cons hanswer hanswers, hlast⟩

theorem Alike.changes (h : w.Alike w') : w'.changes = w.changes :=
  (changes_eq_iff h.sound' h.sound h.base).mpr h.values

/-- Whatever a source wrote, taking over what it has loaded makes no difference to any later steps:
they answer the same and leave the same values, records and changes as without it. -/
theorem Reached.importPrior_transparent (hb : Reached view b) (hs : Reached view source)
    {steps : List Step} (hsteps : ∀ step ∈ steps, step.Over view) :
    let cached := (b.importPrior source).performSteps steps
    let plain := b.performSteps steps
    cached.1 = plain.1 ∧ cached.2.values = plain.2.values ∧
      cached.2.tracker = plain.2.tracker ∧ cached.2.changes = plain.2.changes := by
  intro cached plain
  obtain ⟨hbsound, hbview⟩ := hb.sound_base
  obtain ⟨hssound, hsview⟩ := hs.sound_base
  have halike := alike_importPrior hbsound hssound (hsview.trans hbview.symm)
  obtain ⟨hanswers, hlast⟩ := halike.performSteps hb hsteps
  exact ⟨hanswers, hlast.values, hlast.tracker, hlast.changes⟩

/-- An account that the discarded run created is paid, the payment is taken back, one that it
cleared is cleared, and a slot is taken over from elsewhere and read. -/
def laterSteps : List Step :=
  [.operation (.increaseBalance 3 1), .revertTo ⟨0⟩, .operation (.deleteIfEmpty 1),
    .importChanges writer, .operation (.slot ⟨1, 7⟩)]

/-- The discarded run has an account loaded, which the later steps do not see. -/
theorem importPrior_transparent_hollowCleared :
    let cached := ((ofView hollowState.view).importPrior hollowCleared).performSteps laterSteps
    let plain := (ofView hollowState.view).performSteps laterSteps
    (cached.2.accountUpdate? 2).isSome = true ∧ plain.2.accountUpdate? 2 = none ∧
      (∀ step ∈ laterSteps, step.Over hollowState.view) ∧ cached.1 = plain.1 ∧
      cached.2.values = plain.2.values ∧ cached.2.tracker = plain.2.tracker ∧
      cached.2.changes = plain.2.changes := by
  have hover : ∀ step ∈ laterSteps, step.Over hollowState.view := by
    intro step hstep
    simp only [laterSteps, List.mem_cons, List.not_mem_nil, or_false] at hstep
    rcases hstep with rfl | rfl | rfl | rfl | rfl
    · trivial
    · trivial
    · trivial
    · exact reached_writer
    · trivial
  exact ⟨by decide +kernel, by decide +kernel, hover,
    Reached.importPrior_transparent .fresh reached_hollowCleared hover⟩

end BlockExecution.Accumulator
