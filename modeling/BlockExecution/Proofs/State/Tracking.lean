/-
  Every accumulator over a view has noted what it changed, and noted it as written.

  Going back takes values from the journal and keeps the notes, so the journal
  comes into the invariant: all cells that are not as in the view, or can be given
  another value by going back, lie in the region of those noted as written.
-/
import BlockExecution.Proofs.State.Forgetting

namespace BlockExecution

open BlockExecution.Snapshot

/-! ## Cells noted as written -/

/-- The accesses to a cell so far, none if there was no access to it. -/
def TouchTracker.touch? (t : TouchTracker) : Cell → Option Touch
  | .account a => t.accounts[a]?
  | .slot k => t.slots[k]?

/-- The cells to which a write was recorded. -/
def TouchTracker.writtenCells (t : TouchTracker) : Set Cell :=
  {c | (t.touch? c).any (·.written) = true}

/-- The cells that were noted as written. -/
def Accumulator.written (w : Accumulator) : Set Cell := w.tracker.writtenCells

theorem Touch.written_record (t : Touch) (access : Access) :
    (t.record access).written = true ↔ access = .write ∨ t.written = true := by
  cases access <;> simp [record]

theorem importAccess_eq_write_iff {modified : Bool} :
    importAccess modified = .write ↔ modified = true := by
  cases modified <;> simp [importAccess]

/-- A record is of a write after an import if it was before, or what is imported is modified. -/
theorem Table.any_written_absorb {K V : Type} [Ord K] [Std.TransOrd K] [Std.LawfulEqOrd K]
    (t : Table K Touch) (source : Table K V) (isModified : V → Bool) (k : K) :
    ((t.absorb (fun old u => (old.getD {}).record (importAccess (isModified u))) source)[k]?).any
        (·.written) = true ↔
      (t[k]?).any (·.written) = true ∨ (source[k]?).any isModified = true := by
  rw [getElem?_absorb]
  cases source[k]? with
  | none => simp
  | some u =>
    rw [Option.any_some, Option.any_some, Touch.written_record, importAccess_eq_write_iff, or_comm]
    -- Without an older record the new one starts from no access at all.
    cases t[k]? <;> simp

namespace TouchTracker

variable {t : TouchTracker} {c d : Cell}

theorem touch?_ne_none_iff : t.touch? c ≠ none ↔ c ∈ t.cells := by
  cases c with
  | account a => exact Table.getElem?_ne_none_iff t.accounts a
  | slot k => exact Table.getElem?_ne_none_iff t.slots k

theorem writtenCells_subset_cells (t : TouchTracker) : t.writtenCells ⊆ t.cells := by
  intro c hc
  apply touch?_ne_none_iff.mp
  intro hnone
  have hwritten : (t.touch? c).any (·.written) = true := hc
  rw [hnone] at hwritten
  cases hwritten

theorem touch?_record (t : TouchTracker) (c : Cell) (access : Access) (d : Cell) :
    (t.record c access).touch? d =
      if c = d then some (((t.touch? c).getD {}).record access) else t.touch? d := by
  cases c <;> cases d <;>
    simp only [record, recordAccount, recordSlot, touch?, Std.ExtTreeMap.getElem?_alter,
      Std.LawfulEqOrd.compare_eq_iff_eq, Cell.account.injEq, Cell.slot.injEq, reduceCtorEq,
      if_false]

theorem touch?_forget (t : TouchTracker) (a : Address) (c : Cell) :
    (t.forget a).touch? c = if c.address = a then none else t.touch? c := by
  cases c with
  | account b =>
    show (t.accounts.erase a)[b]? = _
    rw [Table.getElem?_erase_eq]
    exact if_congr eq_comm rfl rfl
  | slot k =>
    show (t.slots.dropKeys fun key => key.address == a)[k]? = _
    rw [Table.getElem?_dropKeys]
    exact if_congr beq_iff_eq rfl rfl

theorem mem_writtenCells_record (t : TouchTracker) (c : Cell) (access : Access) (d : Cell) :
    d ∈ (t.record c access).writtenCells ↔ (c = d ∧ access = .write) ∨ d ∈ t.writtenCells := by
  show ((t.record c access).touch? d).any (·.written) = true ↔
    _ ∨ (t.touch? d).any (·.written) = true
  rw [touch?_record]
  by_cases hcell : c = d
  · subst hcell
    rw [if_pos rfl, Option.any_some, Touch.written_record]
    cases t.touch? c <;> simp
  · simp [hcell]

theorem mem_writtenCells_foldl_record (accesses : List Access) :
    d ∈ (accesses.foldl (·.record c ·) t).writtenCells ↔
      (c = d ∧ .write ∈ accesses) ∨ d ∈ t.writtenCells := by
  induction accesses generalizing t with
  | nil => simp
  | cons access rest ih =>
    rw [List.foldl_cons, ih, mem_writtenCells_record, List.mem_cons, eq_comm (a := access)]
    tauto

end TouchTracker

namespace Accumulator

variable {w w' source : Accumulator} {c d : Cell}

theorem written_subset_noted (w : Accumulator) : w.written ⊆ w.noted :=
  w.tracker.writtenCells_subset_cells

/-- After accesses to a cell it is noted as written if one of them is a write. -/
theorem Recorded.mem_written_iff {accesses : List Access} {writes : List JournalEntry}
    (h : w.Recorded c accesses writes w') :
    d ∈ w'.written ↔ (c = d ∧ .write ∈ accesses) ∨ d ∈ w.written := by
  rw [written, h.tracker]
  exact TouchTracker.mem_writtenCells_foldl_record accesses

theorem written_revertTo (w : Accumulator) (c : Checkpoint) :
    (w.revertTo c).written = w.written := by
  rw [written, tracker_revertTo, written]

theorem written_forget (w : Accumulator) (a : Address) :
    (w.forget a).written = {c ∈ w.written | c.address ≠ a} := by
  ext c
  show ((w.tracker.forget a).touch? c).any (·.written) = true ↔
    (w.tracker.touch? c).any (·.written) = true ∧ c.address ≠ a
  rw [TouchTracker.touch?_forget]
  by_cases hc : c.address = a
  · rw [if_pos hc]
    exact iff_of_false Bool.false_ne_true fun h => h.2 hc
  · rw [if_neg hc, and_iff_left hc]

/-- An entry that is taken over counts as written exactly if the source changed its cell. -/
theorem written_importChanges (w : Accumulator) (hs : source.Sound) :
    (w.importChanges source).written = w.written ∪ source.changed := by
  ext c
  rw [Set.mem_union, ← modifies_iff hs]
  cases c with
  | account a => exact Table.any_written_absorb w.tracker.accounts source.accounts _ a
  | slot k => exact Table.any_written_absorb w.tracker.slots source.slots _ k

end Accumulator

/-! ## Writes and the cells they go to -/

/-- What an operation puts on the journal are writes of its cell. -/
theorem Operation.cell_of_mem_writes {op : Operation} {u : Snapshot} {entry : JournalEntry}
    (h : entry ∈ op.writes u) : entry.cell = op.cell := by
  unfold writes at h
  split at h
  · cases h
  · cases h
  all_goals try exact congrArg JournalEntry.cell (List.mem_singleton.mp h)
  -- An empty account alone is deleted.
  split at h
  · exact congrArg JournalEntry.cell (List.mem_singleton.mp h)
  · cases h

/-- An operation that puts anything on the journal notes a write. -/
theorem Operation.write_mem_accesses {op : Operation} {u : Snapshot} {entry : JournalEntry}
    (h : entry ∈ op.writes u) : .write ∈ op.accesses u := by
  cases op with
  | account a => cases h
  | slot k => cases h
  | deleteIfEmpty a =>
    by_cases hempty : (u.account a).any (·.isEmpty) = true
    · simp [accesses, hempty]
    · rw [writes, if_neg hempty] at h
      cases h
  | _ => exact List.mem_singleton_self _

/-- Undoing writes leaves a cell alone that none of them went to. -/
theorem Snapshot.agreeAt_rewind {writes : List JournalEntry} {c : Cell}
    (h : ∀ entry ∈ writes, c ≠ entry.cell) (v : Snapshot) : (v.rewind writes).AgreeAt v c := by
  induction writes generalizing v with
  | nil => exact .refl v c
  | cons entry older ih =>
    exact (ih (fun e he => h e (List.mem_cons_of_mem _ he)) _).trans
      (agreeAt_restore_of_ne (h entry List.mem_cons_self) v)

namespace Accumulator

variable {view : WorldView} {w w' source : Accumulator} {region region' : Set Cell}

/-! ## Regions that hold all changes -/

/-- All cells that are not as in the view, or can become so by going back, lie in a region. -/
structure ChangesWithin (w : Accumulator) (region : Set Cell) : Prop where
  changed : w.changed ⊆ region
  journal : ∀ entry ∈ w.journal, entry.cell ∈ region

theorem changesWithin_ofView (view : WorldView) (region : Set Cell) :
    (ofView view).ChangesWithin region where
  changed := changed_ofView view ▸ Set.empty_subset region
  journal _ he := nomatch he

theorem ChangesWithin.mono (h : w.ChangesWithin region) (hregion : region ⊆ region') :
    w.ChangesWithin region' where
  changed := h.changed.trans hregion
  journal entry he := hregion (h.journal entry he)

/-- New writes change no other cells than those that they go to. -/
theorem ChangesWithin.extends (h : w.ChangesWithin region) (hgrown : w.Extends w')
    (hjournal : ∀ entry ∈ w'.journal, entry.cell ∈ region) : w'.ChangesWithin region := by
  obtain ⟨writes, hwrites, hback⟩ := hgrown.journal
  refine ⟨fun c hc => ?_, hjournal⟩
  by_contra hnot
  have hother : ∀ entry ∈ writes, c ≠ entry.cell := by
    rintro entry he rfl
    exact hnot (hjournal entry (hwrites ▸ List.mem_append_left _ he))
  -- So the cell is as it was before them, which is as in the view.
  have hsame : w.values.AgreeAt w'.values c := hback ▸ agreeAt_rewind hother w'.values
  have hview : w.values.AgreeAt w.base.values c :=
    agreeAt_base_of_not_changed fun hchanged => hnot (h.changed hchanged)
  rw [← hgrown.base] at hview
  exact hc (hsame.symm.trans hview)

theorem ChangesWithin.revertTo (h : w.ChangesWithin region) (hs : w.Sound) (c : Checkpoint) :
    (w.revertTo c).ChangesWithin region := by
  have hback := rewound_revertTo_depth hs c
  constructor
  · intro d hd
    by_contra hnot
    apply hd
    -- The undone writes are of cells in the region, so this cell is as before.
    rw [hback.values, hback.base]
    refine (agreeAt_rewind ?_ w.values).trans
      (agreeAt_base_of_not_changed fun hchanged => hnot (h.changed hchanged))
    rintro entry he rfl
    exact hnot (h.journal entry (List.mem_of_mem_take he))
  · intro entry he
    rw [hback.journal] at he
    exact h.journal entry (List.mem_of_mem_drop he)

theorem ChangesWithin.commit (h : w.ChangesWithin region) : w.commit.ChangesWithin region where
  changed := h.changed
  journal _ he := nomatch he

/-- Neither the values nor the journal tell of a forgotten address. -/
theorem ChangesWithin.forget (h : w.ChangesWithin region) (a : Address) :
    (w.forget a).ChangesWithin {c ∈ region | c.address ≠ a} where
  changed := by
    rw [changed_forget]
    exact fun c hc => ⟨h.changed hc.1, hc.2⟩
  journal entry he := by
    obtain ⟨hmem, hne⟩ := List.mem_filter.mp he
    refine ⟨h.journal entry hmem, ?_⟩
    rw [← address_journalEntry]
    simpa using hne

theorem ChangesWithin.importChanges (h : w.ChangesWithin region) (hs : source.Sound)
    (hbase : source.base = w.base) :
    (w.importChanges source).ChangesWithin (region ∪ source.changed) where
  changed := by
    rw [changed_importChanges hs hbase]
    exact Set.union_subset_union_left _ h.changed
  journal entry he := .inl (h.journal entry he)

theorem ChangesWithin.importPrior (h : w.ChangesWithin region) (hs : source.Sound)
    (hbase : source.base = w.base) : (w.importPrior source).ChangesWithin region where
  changed := by
    rw [changed_importPrior hs hbase]
    exact h.changed
  journal := h.journal

/-! ## Changes are noted as written -/

/-- What an operation changes it notes as written, and that is all that it puts on the journal. -/
theorem ChangesWithin.operation (h : w.ChangesWithin w.written) (hs : w.Sound) (op : Operation) :
    (op.execution.runOn w).2.ChangesWithin (op.execution.runOn w).2.written := by
  cases hfault : w.base.fault? op.cell with
  | some e =>
    rw [op.isUse.fails hs hfault]
    exact h
  | none =>
    have hrecorded := op.records w hs hfault
    have hwritten : w.written ⊆ (op.execution.runOn w).2.written :=
      fun c hc => hrecorded.mem_written_iff.mpr (.inr hc)
    -- What it changes follows from the journal, whose entries are new or were there.
    refine (h.mono hwritten).extends (op.grows hs) fun entry he => ?_
    rw [hrecorded.journal] at he
    rcases List.mem_append.mp he with hnew | hold
    · have hcell := Operation.cell_of_mem_writes hnew
      exact hrecorded.mem_written_iff.mpr (.inl ⟨hcell.symm, Operation.write_mem_accesses hnew⟩)
    · exact hwritten (h.journal entry hold)

/-- An accumulator over a view has noted as written all that it changed, and all that going back
can change. -/
theorem Reached.changesWithin_written (h : Reached view w) : w.ChangesWithin w.written := by
  -- Each step keeps all changes within a region; that of the written cells moves along with it.
  induction h with
  | fresh => exact changesWithin_ofView view _
  | operation h op ih => exact ih.operation h.sound_base.1 op
  | revertTo h c ih =>
    rw [written_revertTo]
    exact ih.revertTo h.sound_base.1 c
  | commit h ih => exact ih.commit
  | forget h a ih =>
    rw [written_forget]
    exact ih.forget a
  | importChanges h hsource ih _ =>
    obtain ⟨hs, hbase⟩ := hsource.sound_base
    rw [written_importChanges _ hs]
    exact ih.importChanges hs (hbase.trans h.sound_base.2.symm)
  | importPrior h hsource ih _ =>
    -- What was only loaded elsewhere changes nothing here.
    obtain ⟨hs, hbase⟩ := hsource.sound_base
    exact ih.importPrior hs (hbase.trans h.sound_base.2.symm)

/-- An accumulator over a view has noted all that it changed. -/
theorem Reached.tracked (h : Reached view w) : w.Tracked :=
  h.changesWithin_written.changed.trans w.written_subset_noted

end Accumulator

end BlockExecution
