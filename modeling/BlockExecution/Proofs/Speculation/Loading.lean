/-
  What was used is what is loaded.

  A collision is looked for with the notes on one side and the entries on the
  other, which are kept in different tables. Notes and entries are gained and lost
  together in all that can be done to an accumulator, except that loaded values of
  another one may be put in without a note. So what is noted always has an entry,
  and without such values the entries are the cells noted. Either way an entry
  that is no longer as in the view was noted as written.
-/
import BlockExecution.Proofs.State.Tracking
import BlockExecution.Proofs.Speculation.Merge

namespace BlockExecution

open BlockExecution.Snapshot

namespace Accumulator

variable {view : WorldView} {w w' source primed : Accumulator}

/-! ## Steps that keep notes and entries together -/

/-- What was noted and what was loaded was lost outside the same cells, and the same cells were
added to both. -/
def Abreast (w w' : Accumulator) : Prop :=
  ∃ kept added : Set Cell,
    w'.noted = w.noted ∩ kept ∪ added ∧ w'.loaded = w.loaded ∩ kept ∪ added

theorem Abreast.noted_subset_loaded (h : w.Abreast w') (hw : w.noted ⊆ w.loaded) :
    w'.noted ⊆ w'.loaded := by
  obtain ⟨kept, added, hnoted, hloaded⟩ := h
  rw [hnoted, hloaded]
  exact Set.union_subset_union_left added (Set.inter_subset_inter_left kept hw)

theorem Abreast.loaded_subset_noted (h : w.Abreast w') (hw : w.loaded ⊆ w.noted) :
    w'.loaded ⊆ w'.noted := by
  obtain ⟨kept, added, hnoted, hloaded⟩ := h
  rw [hnoted, hloaded]
  exact Set.union_subset_union_left added (Set.inter_subset_inter_left kept hw)

theorem abreast_refl (w : Accumulator) : w.Abreast w :=
  ⟨Set.univ, ∅, by simp, by simp⟩

/-- An operation adds its cell to both, or fails and leaves both alone. -/
theorem abreast_operation (hs : w.Sound) (op : Operation) :
    w.Abreast (op.execution.runOn w).2 := by
  cases hfault : w.base.fault? op.cell with
  | some e =>
    rw [op.isUse.fails hs hfault]
    exact abreast_refl w
  | none =>
    obtain ⟨w', hrun, hused⟩ := op.isUse.runs hs hfault
    rw [hrun]
    refine ⟨Set.univ, {op.cell}, ?_, ?_⟩
    · rw [hused.noted, Set.inter_univ, Set.union_singleton]
    · rw [hused.loaded, Set.inter_univ, Set.union_singleton]

theorem abreast_revertTo (hs : w.Sound) (c : Checkpoint) : w.Abreast (w.revertTo c) := by
  have hback := rewound_revertTo_depth hs c
  have hrefl := abreast_refl w
  rw [Abreast, hback.noted, hback.loaded]
  exact hrefl

theorem abreast_forget (w : Accumulator) (a : Address) : w.Abreast (w.forget a) :=
  ⟨{c | c.address ≠ a}, ∅, by rw [noted_forget, Set.union_empty]; rfl,
    by rw [loaded_forget, Set.union_empty]; rfl⟩

theorem abreast_importChanges (w source : Accumulator) : w.Abreast (w.importChanges source) :=
  ⟨Set.univ, source.loaded, by rw [noted_importChanges, Set.inter_univ],
    by rw [loaded_importChanges, Set.inter_univ]⟩

/-! ## How an accumulator comes about with notes of everything -/

/-- The accumulators over a view into which no loaded values of another one were put. A checkpoint
leaves an accumulator as it is, and may be gone back to whenever it was taken. -/
inductive Unprimed (view : WorldView) : Accumulator → Prop
  | fresh : Unprimed view (.ofView view)
  | operation {w : Accumulator} (h : Unprimed view w) (op : Operation) :
    Unprimed view (op.execution.runOn w).2
  | revertTo {w : Accumulator} (h : Unprimed view w) (c : Checkpoint) :
    Unprimed view (w.revertTo c)
  | commit {w : Accumulator} (h : Unprimed view w) : Unprimed view w.commit
  | forget {w : Accumulator} (h : Unprimed view w) (a : Address) : Unprimed view (w.forget a)
  | importChanges {w source : Accumulator} (h : Unprimed view w)
    (hsource : Unprimed view source) : Unprimed view (w.importChanges source)

theorem Unprimed.reached (h : Unprimed view w) : Reached view w := by
  induction h with
  | fresh => exact .fresh
  | operation _ op ih => exact .operation ih op
  | revertTo _ c ih => exact .revertTo ih c
  | commit _ ih => exact .commit ih
  | forget _ a ih => exact .forget ih a
  | importChanges _ _ ih ihsource => exact .importChanges ih ihsource

/-- What was noted is loaded, whatever else is. -/
theorem Reached.noted_subset_loaded (h : Reached view w) : w.noted ⊆ w.loaded := by
  induction h with
  | fresh =>
    rw [noted_ofView]
    exact Set.empty_subset _
  | operation h op ih => exact (abreast_operation h.sound_base.1 op).noted_subset_loaded ih
  | revertTo h c ih => exact (abreast_revertTo h.sound_base.1 c).noted_subset_loaded ih
  | commit _ ih => exact ih
  | forget _ a ih => exact (abreast_forget _ a).noted_subset_loaded ih
  | importChanges _ _ ih _ => exact (abreast_importChanges _ _).noted_subset_loaded ih
  | importPrior _ _ ih _ =>
    -- The only step that loads without a note.
    rw [loaded_importPrior]
    exact ih.trans Set.subset_union_left

/-- And nothing else is, if no loaded values were put in. -/
theorem Unprimed.noted_eq_loaded (h : Unprimed view w) : w.noted = w.loaded := by
  refine h.reached.noted_subset_loaded.antisymm ?_
  induction h with
  | fresh =>
    intro c hc
    cases c <;> exact absurd hc Std.ExtTreeMap.not_mem_empty
  | operation h op ih =>
    exact (abreast_operation h.reached.sound_base.1 op).loaded_subset_noted ih
  | revertTo h c ih => exact (abreast_revertTo h.reached.sound_base.1 c).loaded_subset_noted ih
  | commit _ ih => exact ih
  | forget _ a ih => exact (abreast_forget _ a).loaded_subset_noted ih
  | importChanges _ _ ih _ => exact (abreast_importChanges _ _).loaded_subset_noted ih

/-! ## Notes, entries and changes -/

theorem accountUpdate?_ne_none_iff {a : Address} :
    w.accountUpdate? a ≠ none ↔ .account a ∈ w.loaded :=
  Table.getElem?_ne_none_iff w.accounts a

theorem slotUpdate?_ne_none_iff {k : StorageKey} :
    w.slotUpdate? k ≠ none ↔ .slot k ∈ w.loaded :=
  Table.getElem?_ne_none_iff w.slots k

/-- Every entry carries what the view gives, and if its value is another one now, it was noted as
written. -/
structure NotesWrites (view : WorldView) (w : Accumulator) : Prop where
  account : ∀ {a : Address} {u : AccountUpdate}, w.accountUpdate? a = some u →
    view.account a = .ok u.prior ∧ (u.isModified = true → w.tracker.wasWritten a = true)
  slot : ∀ {k : StorageKey} {u : SlotUpdate}, w.slotUpdate? k = some u →
    view.storage k = .ok u.prior ∧
      (u.isModified = true → (w.tracker.slots[k]?).any (·.written) = true)

theorem Reached.notesWrites (h : Reached view w) : w.NotesWrites view := by
  obtain ⟨hs, rfl⟩ := h.sound_base
  have hwritten : w.changed ⊆ w.written := h.changesWithin_written.changed
  exact
    { account := fun hu =>
        ⟨hs.account hu, fun hmodified => hwritten ((isModified_account_iff hs hu).mp hmodified)⟩
      slot := fun hu =>
        ⟨hs.slot hu, fun hmodified => hwritten ((isModified_slot_iff hs hu).mp hmodified)⟩ }

/-- Over any view the accounts and slots noted are those loaded, if no loaded values of another
accumulator were put in, and loaded in any case; and what is no longer as in the view was noted as
written. -/
theorem Unprimed.touched_iff_loaded (h : Unprimed view w) (hprimed : Reached view primed) :
    (∀ a, w.tracker.account? a ≠ none ↔ w.accountUpdate? a ≠ none) ∧
    (∀ a slot, slot ∈ w.tracker.touchedSlots a ↔ w.slotUpdate? ⟨a, slot⟩ ≠ none) ∧
    w.NotesWrites view ∧
    (∀ a, primed.tracker.account? a ≠ none → primed.accountUpdate? a ≠ none) ∧
    (∀ a slot, slot ∈ primed.tracker.touchedSlots a → primed.slotUpdate? ⟨a, slot⟩ ≠ none) ∧
    primed.NotesWrites view := by
  have hsame : w.tracker.cells = w.loaded := h.noted_eq_loaded
  have hloaded : primed.tracker.cells ⊆ primed.loaded := hprimed.noted_subset_loaded
  have haccount : ∀ (t : TouchTracker) a, t.account? a ≠ none ↔ .account a ∈ t.cells :=
    fun t a => TouchTracker.touch?_ne_none_iff (c := .account a)
  refine ⟨fun a => ?_, fun a slot => ?_, h.reached.notesWrites, fun a ha => ?_, fun a slot hk => ?_,
    hprimed.notesWrites⟩
  · rw [haccount, accountUpdate?_ne_none_iff, hsame]
  · rw [TouchTracker.mem_touchedSlots, slotUpdate?_ne_none_iff, hsame]
  · exact accountUpdate?_ne_none_iff.mpr (hloaded ((haccount _ a).mp ha))
  · exact slotUpdate?_ne_none_iff.mpr (hloaded (TouchTracker.mem_touchedSlots.mp hk))

/-- The view of a state in which accounts can be read and slots cannot. -/
def slotlessView : WorldView :=
  { hollowState.view with storage := fun _ => .error (.stateUnavailable 0) }

/-- A slot could not be written, an empty account was cleared, and the deletion of another account
was taken back. -/
def clearedOverFault : Accumulator :=
  let failed := ((Operation.setSlot ⟨1, 7⟩ 9).execution.runOn (.ofView slotlessView)).2
  let cleared := ((Operation.deleteIfEmpty 1).execution.runOn failed).2
  ((Operation.deleteAccount 2).execution.runOn cleared).2.revertTo cleared.checkpoint

/-- An account was paid after the loaded values of a discarded run were put in. -/
def paidAfterPriming : Accumulator :=
  ((Operation.increaseBalance 3 4).execution.runOn
    ((ofView slotlessView).importPrior clearedOverFault)).2

theorem unprimed_clearedOverFault : Unprimed slotlessView clearedOverFault :=
  .revertTo (.operation (.operation (.operation .fresh (.setSlot ⟨1, 7⟩ 9)) (.deleteIfEmpty 1))
    (.deleteAccount 2)) _

theorem reached_paidAfterPriming : Reached slotlessView paidAfterPriming :=
  .operation (.importPrior .fresh unprimed_clearedOverFault.reached) (.increaseBalance 3 4)

/-- The slot that could not be loaded was not noted either. The account put in is loaded without a
note; the one that was paid is noted as written. -/
theorem touched_iff_loaded_paidAfterPriming :
    (∀ a, clearedOverFault.tracker.account? a ≠ none ↔
      clearedOverFault.accountUpdate? a ≠ none) ∧
    7 ∉ clearedOverFault.tracker.touchedSlots 1 ∧
    clearedOverFault.accountUpdate? 1 = some ⟨some {}, none⟩ ∧
    clearedOverFault.tracker.wasWritten 1 = true ∧
    paidAfterPriming.accountUpdate? 2 ≠ none ∧ paidAfterPriming.tracker.account? 2 = none ∧
    paidAfterPriming.accountUpdate? 3 = some ⟨none, some (.plain 0 4)⟩ ∧
    paidAfterPriming.tracker.wasWritten 3 = true := by
  obtain ⟨haccounts, hslots, hwritten, -, -, hprimed⟩ :=
    Unprimed.touched_iff_loaded unprimed_clearedOverFault reached_paidAfterPriming
  have hunloaded : clearedOverFault.slotUpdate? ⟨1, 7⟩ = none := by decide +kernel
  have hcleared : clearedOverFault.accountUpdate? 1 = some ⟨some {}, none⟩ := by decide +kernel
  have hpaid : paidAfterPriming.accountUpdate? 3 = some ⟨none, some (.plain 0 4)⟩ := by
    decide +kernel
  exact ⟨haccounts, fun h => (hslots 1 7).mp h hunloaded, hcleared,
    (hwritten.account hcleared).2 (by decide +kernel), by decide +kernel, by decide +kernel, hpaid,
    (hprimed.account hpaid).2 (by decide +kernel)⟩

end Accumulator

end BlockExecution
