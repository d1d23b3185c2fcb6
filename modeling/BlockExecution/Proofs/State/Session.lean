/-
  Checkpoints as full copies.

  A session is an accumulator in use: operations on it, checkpoints, going back
  to any checkpoint that is still live, and commits. The plain state that it is
  compared with has no entries and no journal. It holds every value, copies all
  of them at a checkpoint and takes the copy back.

  The link between the two is `Kept`: the journal, cut at the live checkpoints,
  leads from the present values to each of the copies in turn.
-/
import BlockExecution.Proofs.State.Changes
import BlockExecution.Proofs.State.Operation

namespace BlockExecution

open BlockExecution.Snapshot

/-! ## Sessions -/

/-- What can be asked of a session. Live checkpoints are counted from the newest one. -/
inductive Command where
  | operation (op : Operation)
  | checkpoint
  | revertTo (nth : Nat)
  | commit

/-- An accumulator and its live checkpoints, newest first: those taken since the last commit and
not reverted past. -/
structure Session where
  world : Accumulator
  live : List Checkpoint := []

/-- A state without entries or journal: the value of every cell, the copies made of them, newest
first, and the cells that were needed. -/
structure PlainState where
  current : Snapshot
  copies : List Snapshot := []
  used : List Cell := []

/-- Performs commands one after the other: all replies, and the last state. -/
def performAll {σ : Type} (perform : σ → Command → Except StateError Reply × σ) (s : σ) :
    List Command → List (Except StateError Reply) × σ
  | [] => ([], s)
  | command :: rest =>
    let (reply, s') := perform s command
    let (replies, last) := performAll perform s' rest
    (reply :: replies, last)

/-- Performs a command on an accumulator. A checkpoint that is not live is not gone back to. -/
def Session.perform (s : Session) : Command → Except StateError Reply × Session
  | .operation op =>
    let (reply, world) := op.execution.runOn s.world
    (reply, { s with world })
  | .checkpoint => (.ok .done, { s with live := s.world.checkpoint :: s.live })
  | .revertTo nth =>
    match s.live.drop nth with
    | [] => (.ok .done, s)
    | c :: older => (.ok .done, ⟨s.world.revertTo c, c :: older⟩)
  | .commit => (.ok .done, ⟨s.world.commit, []⟩)

/-- Performs a command on plain values. All that it asks of the view is whether a cell can be
read. -/
def PlainState.perform (view : WorldView) (m : PlainState) :
    Command → Except StateError Reply × PlainState
  | .operation op =>
    match view.fault? op.cell with
    | some e => (.error e, m)
    | none =>
      (.ok (op.reply m.current),
        { m with current := op.effect m.current, used := op.cell :: m.used })
  | .checkpoint => (.ok .done, { m with copies := m.current :: m.copies })
  | .revertTo nth =>
    match m.copies.drop nth with
    | [] => (.ok .done, m)
    | copy :: older => (.ok .done, { m with current := copy, copies := copy :: older })
  | .commit => (.ok .done, { m with copies := [] })

/-! ## Journals and copies -/

/-- Undoing the writes on a journal leads from the values `v` to a copy at each checkpoint. -/
inductive Kept : Snapshot → List JournalEntry → List Checkpoint → List Snapshot → Prop
  | nil (v : Snapshot) (journal : List JournalEntry) : Kept v journal [] []
  | cons {v copy : Snapshot} {writes older : List JournalEntry} {live : List Checkpoint}
      {copies : List Snapshot} (hback : v.rewind writes = copy)
      (hrest : Kept copy older live copies) :
      Kept v (writes ++ older) (⟨older.length⟩ :: live) (copy :: copies)

namespace Kept

variable {v : Snapshot} {journal : List JournalEntry} {live : List Checkpoint}
  {copies : List Snapshot}

/-- New writes are undone before all others. -/
theorem grow (h : Kept v journal live copies) {v' : Snapshot} {writes : List JournalEntry}
    (hback : v'.rewind writes = v) : Kept v' (writes ++ journal) live copies := by
  cases h with
  | nil => exact nil _ _
  | @cons _ copy writes' older live copies hcopy hrest =>
    -- They join the writes since the newest checkpoint; below it nothing is different.
    rw [← List.append_assoc]
    have hall : v'.rewind (writes ++ writes') = copy := by rw [rewind_append, hback, hcopy]
    exact cons hall hrest

/-- A checkpoint is a copy of the present values. -/
theorem checkpoint (h : Kept v journal live copies) :
    Kept v journal (⟨journal.length⟩ :: live) (v :: copies) := by
  have hback : v.rewind [] = v := rfl
  exact cons hback h

/-- A checkpoint is live when its copy is there, and then cuts the journal where undoing leads to
the copy. -/
theorem drop (h : Kept v journal live copies) (nth : Nat) :
    live.drop nth = [] ∧ copies.drop nth = [] ∨
      ∃ writes older live' copies', journal = writes ++ older ∧
        live.drop nth = ⟨older.length⟩ :: live' ∧
        copies.drop nth = v.rewind writes :: copies' ∧
        Kept (v.rewind writes) older live' copies' := by
  -- Induction along the checkpoints: the writes passed on the way pile up in front.
  induction h generalizing nth with
  | nil v journal => exact .inl ⟨List.drop_nil, List.drop_nil⟩
  | @cons v copy writes older live copies hback hrest ih =>
    cases nth with
    | zero =>
      subst hback
      exact .inr ⟨writes, older, live, copies, rfl, rfl, rfl, hrest⟩
    | succ nth =>
      simp only [List.drop_succ_cons]
      rcases ih nth with hnone | ⟨writes', older', live', copies', rfl, hlive, hcopies, hkept⟩
      · exact .inl hnone
      · right
        have hall : v.rewind (writes ++ writes') = copy.rewind writes' := by
          rw [rewind_append, hback]
        rw [← hall] at hcopies hkept
        exact ⟨writes ++ writes', older', live', copies', (List.append_assoc ..).symm, hlive,
          hcopies, hkept⟩

end Kept

/-! ## Simulation -/

namespace Session

variable {view : WorldView} {s : Session} {m : PlainState}

/-- A session and a plain state that went through the same commands. -/
structure Simulates (view : WorldView) (s : Session) (m : PlainState) : Prop where
  base : s.world.base = view
  sound : s.world.Sound
  values : s.world.values = m.current
  loaded : ∀ c, c ∈ s.world.loaded ↔ c ∈ m.used
  kept : Kept m.current s.world.journal s.live m.copies

theorem simulates_ofView (view : WorldView) :
    Simulates view { world := .ofView view } { current := view.values } where
  base := rfl
  sound := Accumulator.sound_ofView view
  values := rfl
  loaded c := by
    have hnone : c ∉ (Accumulator.ofView view).loaded := by
      cases c <;> exact Std.ExtTreeMap.not_mem_empty
    exact iff_of_false hnone List.not_mem_nil
  kept := .nil _ _

/-- A failed operation leaves a session as it is. -/
theorem perform_of_error (hs : s.world.Sound) {command : Command} {e : StateError}
    (h : (s.perform command).1 = .error e) : (s.perform command).2 = s := by
  cases command with
  | operation op =>
    -- A fault of the view is the only way to fail, and it comes before any write.
    cases hfault : s.world.base.fault? op.cell with
    | some e' => simp only [perform, op.isUse.fails hs hfault]
    | none =>
      obtain ⟨w', hrun, -⟩ := op.isUse.runs hs hfault
      simp only [perform, hrun] at h
      cases h
  | checkpoint => cases h
  | revertTo nth =>
    simp only [perform] at h
    split at h <;> cases h
  | commit => cases h

theorem Simulates.operation (h : Simulates view s m) (op : Operation) :
    (s.perform (.operation op)).1 = (m.perform view (.operation op)).1 ∧
      Simulates view (s.perform (.operation op)).2 (m.perform view (.operation op)).2 := by
  simp only [perform, PlainState.perform]
  cases hfault : view.fault? op.cell with
  | some e =>
    have hfails : op.execution.runOn s.world = (.error e, s.world) :=
      op.isUse.fails h.sound (h.base ▸ hfault)
    simp only [hfails]
    exact ⟨trivial, h⟩
  | none =>
    obtain ⟨w', hrun, hused⟩ := op.isUse.runs h.sound (h.base ▸ hfault)
    simp only [hrun, h.values, true_and]
    have hvalues : w'.values = op.effect m.current := by rw [hused.values, h.values]
    exact
      { base := hused.grown.base.trans h.base
        sound := hused.grown.sound
        values := hvalues
        loaded := fun c => by
          have hold := h.loaded c
          rw [hused.loaded, Set.mem_insert_iff, List.mem_cons, hold]
        kept := by
          -- The journal has grown by writes that lead back to the values from before.
          obtain ⟨writes, hjournal, hback⟩ := hused.grown.journal
          show Kept (op.effect m.current) w'.journal s.live m.copies
          rw [hjournal]
          apply h.kept.grow
          rw [← hvalues, hback, h.values] }

theorem Simulates.revertTo (h : Simulates view s m) (nth : Nat) :
    (s.perform (.revertTo nth)).1 = (m.perform view (.revertTo nth)).1 ∧
      Simulates view (s.perform (.revertTo nth)).2 (m.perform view (.revertTo nth)).2 := by
  simp only [perform, PlainState.perform]
  rcases h.kept.drop nth with
    ⟨hlive, hcopies⟩ | ⟨writes, older, live', copies', hjournal, hlive, hcopies, hkept⟩
  · simp only [hlive, hcopies]
    exact ⟨trivial, h⟩
  · -- The copy is what undoing the writes since the checkpoint leads to.
    simp only [hlive, hcopies, true_and]
    have hback := Accumulator.rewound_revertTo h.sound hjournal
    rw [h.values] at hback
    exact
      { base := hback.base.trans h.base
        sound := hback.sound
        values := hback.values
        loaded := fun c => by
          have hold := h.loaded c
          rw [hback.loaded, hold]
        kept := by
          rw [hback.journal]
          exact hkept.checkpoint }

/-- One command keeps a session and a plain state together. -/
theorem Simulates.perform (h : Simulates view s m) (command : Command) :
    (s.perform command).1 = (m.perform view command).1 ∧
      Simulates view (s.perform command).2 (m.perform view command).2 := by
  cases command with
  | operation op => exact h.operation op
  | checkpoint => exact ⟨rfl, { h with kept := h.kept.checkpoint }⟩
  | revertTo nth => exact h.revertTo nth
  | commit =>
    have hcommit : s.world.commit.Sound := Accumulator.sound_commit h.sound
    exact ⟨rfl, { h with sound := hcommit, kept := .nil _ _ }⟩

/-- And so does any run. -/
theorem Simulates.performAll (h : Simulates view s m) (commands : List Command) :
    (performAll Session.perform s commands).1 =
        (performAll (PlainState.perform view) m commands).1 ∧
      Simulates view (performAll Session.perform s commands).2
        (performAll (PlainState.perform view) m commands).2 := by
  induction commands generalizing s m with
  | nil => exact ⟨rfl, h⟩
  | cons command rest ih =>
    obtain ⟨hreply, hnext⟩ := h.perform command
    obtain ⟨hreplies, hlast⟩ := ih hnext
    exact ⟨congrArg₂ List.cons hreply hreplies, hlast⟩

/-! ## What a session shows -/

/-- What can be seen of an accumulator is what the plain state `m` has: its values, its difference
from the view on the cells in use, and the view itself in the loaded entries. -/
structure Represents (view : WorldView) (s : Session) (m : PlainState) : Prop where
  values : s.world.values = m.current
  accounts : ∀ a, s.world.changes.accounts[a]? =
    if .account a ∈ m.used ∧ m.current.account a ≠ view.values.account a
    then some (m.current.account a) else none
  storage : ∀ k, s.world.changes.storage[k]? =
    if .slot k ∈ m.used ∧ m.current.slot k ≠ view.values.slot k
    then some (m.current.slot k) else none
  loaded : ∀ c, c ∈ s.world.loaded ↔ c ∈ m.used
  priorAccount : ∀ {a u}, s.world.accounts[a]? = some u → view.account a = .ok u.prior
  priorSlot : ∀ {k u}, s.world.slots[k]? = some u → view.storage k = .ok u.prior

/-- A plain value differs from the view only where the cell was used. -/
theorem Simulates.used_of_changed (h : Simulates view s m) {c : Cell}
    (hc : ¬ m.current.AgreeAt view.values c) : c ∈ m.used := by
  rw [← h.loaded]
  apply Accumulator.loaded_of_changed
  show ¬ s.world.values.AgreeAt s.world.base.values c
  rw [h.values, h.base]
  exact hc

theorem Simulates.represents (h : Simulates view s m) : Represents view s m where
  values := h.values
  accounts a := by
    -- The net changes are where the values differ; that the cell was used is a consequence.
    have hused : m.current.account a ≠ view.values.account a → .account a ∈ m.used :=
      h.used_of_changed (c := .account a)
    rw [Accumulator.getElem?_accounts_changes h.sound, h.values, h.base]
    by_cases hsame : m.current.account a = view.values.account a
    · simp [hsame]
    · simp [hsame, hused hsame]
  storage k := by
    have hused : m.current.slot k ≠ view.values.slot k → .slot k ∈ m.used :=
      h.used_of_changed (c := .slot k)
    rw [Accumulator.getElem?_storage_changes h.sound, h.values, h.base]
    by_cases hsame : m.current.slot k = view.values.slot k
    · simp [hsame]
    · simp [hsame, hused hsame]
  loaded := h.loaded
  priorAccount hu := h.base ▸ h.sound.account hu
  priorSlot hu := h.base ▸ h.sound.slot hu

/-- Over any view and under any commands, an accumulator answers as a state that copies everything
at a checkpoint, shows what that state shows, and is left alone by a failure. -/
theorem performAll_represents (view : WorldView) (commands : List Command) :
    let run := BlockExecution.performAll Session.perform { world := .ofView view } commands
    let plain := BlockExecution.performAll (PlainState.perform view)
      { current := view.values } commands
    run.1 = plain.1 ∧ Represents view run.2 plain.2 ∧
      ∀ command e, (run.2.perform command).1 = .error e → (run.2.perform command).2 = run.2 := by
  intro run plain
  obtain ⟨hreplies, hlast⟩ := (simulates_ofView view).performAll commands
  exact ⟨hreplies, hlast.represents, fun command e h => perform_of_error hlast.sound h⟩

end Session

end BlockExecution
