/-
  Runs that can be taken back.

  `Accumulator.Extends` relates an accumulator to one reached from it by
  accesses alone: the journal has grown by writes whose undoing gives the old
  values again. It is reflexive and transitive, each access is a case of it, and
  going back to a checkpoint needs no more than it says.
-/
import BlockExecution.Proofs.State.Access

namespace BlockExecution.Accumulator

open BlockExecution.Snapshot

variable {w w' : Accumulator}

/-! ## Reaching an accumulator by accesses -/

/-- Nothing was forgotten, what changed was noted, and undoing the writes on the journal beyond
the old ones gives the old values. -/
structure Extends (w w' : Accumulator) : Prop where
  base : w'.base = w.base
  sound : w'.Sound
  noted : w.noted ⊆ w'.noted
  loaded : w.loaded ⊆ w'.loaded
  frame : AgreeOn w'.notedᶜ w'.values w.values
  journal : ∃ writes, w'.journal = writes ++ w.journal ∧ w'.values.rewind writes = w.values

theorem Extends.refl (hs : w.Sound) : w.Extends w where
  base := rfl
  sound := hs
  noted := subset_rfl
  loaded := subset_rfl
  frame := AgreeOn.refl _ _
  journal := ⟨[], rfl, rfl⟩

theorem Extends.trans {w'' : Accumulator} (h₁ : w.Extends w') (h₂ : w'.Extends w'') :
    w.Extends w'' where
  base := h₂.base.trans h₁.base
  sound := h₂.sound
  noted := h₁.noted.trans h₂.noted
  loaded := h₁.loaded.trans h₂.loaded
  frame := h₂.frame.trans (h₁.frame.mono (Set.compl_subset_compl.mpr h₂.noted))
  journal := by
    -- The later writes are undone first and lead back to the middle.
    obtain ⟨older, holder, hback⟩ := h₁.journal
    obtain ⟨newer, hnewer, hforth⟩ := h₂.journal
    refine ⟨newer ++ older, ?_, ?_⟩
    · rw [hnewer, holder, List.append_assoc]
    · rw [rewind_append, hforth, hback]

/-- An access whose writes can be undone. -/
theorem Accessed.extends {c : Cell} {v : Snapshot} {writes : List JournalEntry}
    (h : w.Accessed c v writes w') (hframe : AgreeOn {c}ᶜ v w.values)
    (hback : v.rewind writes = w.values) : w.Extends w' where
  base := h.base
  sound := h.sound
  noted := by
    rw [h.noted]
    exact Set.subset_insert _ _
  loaded := by
    rw [h.loaded]
    exact Set.subset_insert _ _
  frame := by
    rw [h.noted, h.values]
    intro d hd
    exact hframe d fun hdc => hd (.inl hdc)
  journal := ⟨writes, h.journal, by rw [h.values, hback]⟩

/-! ## Undoing writes -/

/-- Undoing a write to a loaded cell. -/
theorem values_undo {entry : JournalEntry} (h : entry.cell ∈ w.loaded) :
    (w.undo entry).values = w.values.restore entry := by
  cases entry with
  | account a previous =>
    obtain ⟨u, hu⟩ := (Table.mem_iff_exists _ _).mp h
    ext1
    · funext b
      show (((w.accounts.modify a _)[b]?).map (·.updated)).getD (w.base.values.account b) =
        (w.values.setAccount a previous).account b
      rw [Table.getElem?_modify_eq]
      by_cases hab : a = b
      · subst hab
        rw [if_pos rfl, hu]
        exact (account_setAccount_self _ _ _).symm
      · rw [if_neg hab]
        exact (account_setAccount_of_ne (Ne.symm hab) w.values previous).symm
    · rfl
  | slot k previous =>
    obtain ⟨u, hu⟩ := (Table.mem_iff_exists _ _).mp h
    ext1
    · rfl
    · funext l
      show (((w.slots.modify k _)[l]?).map (·.updated)).getD (w.base.values.slot l) =
        (w.values.setSlot k previous).slot l
      rw [Table.getElem?_modify_eq]
      by_cases hkl : k = l
      · subst hkl
        rw [if_pos rfl, hu]
        exact (slot_setSlot_self _ _ _).symm
      · rw [if_neg hkl]
        exact (slot_setSlot_of_ne (Ne.symm hkl) w.values previous).symm

theorem loaded_undo (w : Accumulator) (entry : JournalEntry) :
    (w.undo entry).loaded = w.loaded := by
  ext c
  cases entry with
  | account a previous =>
    cases c with
    | account b => exact Std.ExtTreeMap.mem_modify
    | slot k => rfl
  | slot k previous =>
    cases c with
    | account b => rfl
    | slot l => exact Std.ExtTreeMap.mem_modify

theorem sound_undo (hs : w.Sound) (entry : JournalEntry) : (w.undo entry).Sound where
  account {b u} hb := by
    -- Undoing rewrites the present value of an entry and leaves the one of the view in it.
    cases entry with
    | account a previous =>
      rw [undo, Table.getElem?_modify_eq] at hb
      split at hb
      · obtain ⟨v, hv, rfl⟩ := Option.map_eq_some_iff.mp hb
        have hprior := hs.account hv
        exact hprior
      · exact hs.account hb
    | slot k previous => exact hs.account hb
  slot {l u} hl := by
    cases entry with
    | account a previous => exact hs.slot hl
    | slot k previous =>
      rw [undo, Table.getElem?_modify_eq] at hl
      split at hl
      · obtain ⟨v, hv, rfl⟩ := Option.map_eq_some_iff.mp hl
        have hprior := hs.slot hv
        exact hprior
      · exact hs.slot hl
  journal older ho := by
    rw [loaded_undo]
    have hjournal : (w.undo entry).journal = w.journal := by cases entry <;> rfl
    exact hs.journal older (hjournal ▸ ho)

/-! ## Going back -/

/-- The accumulator after the newest writes were undone: it has the values `v` and the journal
`older`, and all that was loaded or noted stays so. -/
structure Rewound (w : Accumulator) (v : Snapshot) (older : List JournalEntry)
    (w' : Accumulator) : Prop where
  base : w'.base = w.base
  sound : w'.Sound
  values : w'.values = v
  noted : w'.noted = w.noted
  loaded : w'.loaded = w.loaded
  journal : w'.journal = older

theorem rewound_undoNewest (hs : w.Sound) {writes older : List JournalEntry}
    (h : w.journal = writes ++ older) :
    w.Rewound (w.values.rewind writes) older (undoNewest writes.length w) := by
  induction writes generalizing w with
  | nil => exact ⟨rfl, hs, rfl, rfl, rfl, h⟩
  | cons entry rest ih =>
    -- Induction on the writes: the newest one is taken off and undone, the rest by hypothesis.
    let popped : Accumulator := { w with journal := rest ++ older }
    have hcell : entry.cell ∈ popped.loaded :=
      hs.journal entry (h ▸ List.mem_cons_self)
    have hpopped : popped.Sound :=
      { account := hs.account
        slot := hs.slot
        journal := fun e he => hs.journal e (h ▸ List.mem_cons_of_mem _ he) }
    have hstep : undoNewest (entry :: rest).length w =
        undoNewest rest.length (popped.undo entry) := by
      rw [List.length_cons, undoNewest]
      split
      · rename_i hnil
        rw [hnil] at h
        cases h
      · rename_i e tail hcons
        rw [hcons, List.cons_append, List.cons.injEq] at h
        rw [h.1, h.2]
    have hjournal : (popped.undo entry).journal = rest ++ older := by cases entry <;> rfl
    have hrest := ih (sound_undo hpopped entry) hjournal
    rw [hstep]
    refine ⟨?_, hrest.sound, ?_, ?_, ?_, hrest.journal⟩
    · rw [hrest.base]
      cases entry <;> rfl
    · rw [hrest.values, values_undo hcell]
      rfl
    · rw [hrest.noted]
      cases entry <;> rfl
    · rw [hrest.loaded, loaded_undo]
      rfl

/-- Going back to where the journal was `older` undoes all writes beyond it. -/
theorem rewound_revertTo (hs : w.Sound) {writes older : List JournalEntry}
    (h : w.journal = writes ++ older) :
    w.Rewound (w.values.rewind writes) older (w.revertTo ⟨older.length⟩) := by
  -- The depth of the checkpoint says how many writes came after it.
  have hcount : w.journal.length - older.length = writes.length := by
    rw [h, List.length_append, Nat.add_sub_cancel]
  rw [Accumulator.revertTo, hcount]
  exact rewound_undoNewest hs h

/-- Going back to any depth cuts the journal there; one that is not as long is left whole. -/
theorem rewound_revertTo_depth (hs : w.Sound) (c : Checkpoint) :
    w.Rewound (w.values.rewind (w.journal.take (w.journal.length - c.depth)))
      (w.journal.drop (w.journal.length - c.depth)) (w.revertTo c) := by
  have hsplit : w.journal = w.journal.take (w.journal.length - c.depth) ++
      w.journal.drop (w.journal.length - c.depth) := (List.take_append_drop ..).symm
  have hcount : (w.journal.take (w.journal.length - c.depth)).length =
      w.journal.length - c.depth := by
    rw [List.length_take]
    omega
  have hback := rewound_undoNewest hs hsplit
  rw [hcount] at hback
  exact hback

/-- Accesses stay noted as they are. -/
theorem tracker_revertTo (w : Accumulator) (c : Checkpoint) :
    (w.revertTo c).tracker = w.tracker := by
  unfold Accumulator.revertTo
  induction w.journal.length - c.depth generalizing w with
  | zero => rfl
  | succ count ih =>
    rw [undoNewest]
    split
    · rfl
    · rename_i entry older _
      rw [ih]
      cases entry <;> rfl

/-- Going back to a checkpoint gives the values from there, whatever was done since. -/
theorem Extends.revertTo (h : w.Extends w') :
    w'.Rewound w.values w.journal (w'.revertTo w.checkpoint) := by
  obtain ⟨writes, hjournal, hback⟩ := h.journal
  rw [← hback]
  exact rewound_revertTo h.sound hjournal

theorem Rewound.extends {x : Accumulator} (h : w'.Rewound w.values w.journal x)
    (hw : w.Extends w') : w.Extends x where
  base := h.base.trans hw.base
  sound := h.sound
  noted := hw.noted.trans h.noted.ge
  loaded := hw.loaded.trans h.loaded.ge
  frame := by
    rw [h.values]
    exact AgreeOn.refl _ _
  journal := ⟨[], h.journal, by rw [h.values]; rfl⟩

end BlockExecution.Accumulator
