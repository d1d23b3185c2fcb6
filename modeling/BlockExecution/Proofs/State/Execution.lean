/-
  Executions and their accesses.

  An execution runs in sequence until a read fails. Its accesses are those of
  the accumulator: `Execution.IsAccess` says once what each of them does, and
  that they are local follows. So is a body between a checkpoint and what follows
  it, whether its writes are kept or taken back.
-/
import BlockExecution.Proofs.State.Locality

namespace BlockExecution

open BlockExecution.Snapshot

variable {α β : Type} {w w' : Accumulator}

namespace Execution

/-! ## Running -/

@[simp] theorem runOn_pure (a : α) (w : Accumulator) :
    (pure a : Execution α).runOn w = (.ok a, w) := rfl

theorem runOn_bind (x : Execution α) (f : α → Execution β) (w : Accumulator) :
    (x >>= f).runOn w =
      match x.runOn w with
      | (.ok a, w') => (f a).runOn w'
      | (.error e, w') => (.error e, w') := by
  show (do let (a, w') ← x w; ExceptT.bindCont f a w' : Id _) = _
  unfold runOn
  rcases x w with ⟨answer, w'⟩
  cases answer <;> rfl

theorem runOn_bind_of_ok {x : Execution α} {f : α → Execution β} {a : α}
    (h : x.runOn w = (.ok a, w')) : (x >>= f).runOn w = (f a).runOn w' := by
  rw [runOn_bind, h]

/-- What an execution answers in the end it answers from some answer on the way. -/
theorem ok_of_bind {x : Execution α} {f : α → Execution β} {b : β}
    (h : ((x >>= f).runOn w).1 = .ok b) :
    ∃ a w', x.runOn w = (.ok a, w') ∧ ((f a).runOn w').1 = .ok b := by
  rcases hrun : x.runOn w with ⟨answer, w'⟩
  rw [runOn_bind, hrun] at h
  cases answer with
  | error e => cases h
  | ok a => exact ⟨a, w', rfl, h⟩

theorem runOn_ofStep_of_ok {f : Accumulator → Except StateError (α × Accumulator)} {a : α}
    (h : f w = .ok (a, w')) : (ofStep f).runOn w = (.ok a, w') := by
  simp only [runOn, ofStep, h]

theorem runOn_ofStep_of_error {f : Accumulator → Except StateError (α × Accumulator)}
    {e : StateError} (h : f w = .error e) : (ofStep f).runOn w = (.error e, w) := by
  simp only [runOn, ofStep, h]

theorem runOn_ofWrite_of_ok {f : Accumulator → Except StateError Accumulator}
    (h : f w = .ok w') : (ofWrite f).runOn w = (.ok (), w') := by
  apply runOn_ofStep_of_ok
  rw [h]
  rfl

theorem runOn_ofWrite_of_error {f : Accumulator → Except StateError Accumulator}
    {e : StateError} (h : f w = .error e) : (ofWrite f).runOn w = (.error e, w) := by
  apply runOn_ofStep_of_error
  rw [h]
  rfl

/-! ## Accesses -/

/-- An access to the cell `c`. Where the view cannot be read it may fail and then changes nothing.
Otherwise it answers and leaves what the present values make of it; the values that it leaves
differ at `c` only, undoing `writes` takes them back, and what is answered and left at `c` depends
on the value of `c` alone. -/
structure IsAccess (x : Execution α) (c : Cell) (answer : Snapshot → α)
    (effect : Snapshot → Snapshot) (writes : Snapshot → List JournalEntry) : Prop where
  runs : ∀ w : Accumulator, w.Sound →
    (¬ w.base.Readable ∧ ∃ e, x.runOn w = (.error e, w)) ∨
      ∃ w', x.runOn w = (.ok (answer w.values), w') ∧
        w.Accessed c (effect w.values) (writes w.values) w'
  frame : ∀ u, AgreeOn {c}ᶜ (effect u) u
  undone : ∀ u, (effect u).rewind (writes u) = u
  same : ∀ u v, v.AgreeAt u c → answer v = answer u ∧ (effect v).AgreeAt (effect u) c

theorem isAccess_account (a : Address) :
    (account a).IsAccess (.account a) (·.account a) id fun _ => [] where
  runs w hs := by
    cases hbase : w.base.account a with
    | error e =>
      exact .inl ⟨fun hr => hr.account_ne_error hbase, e,
        runOn_ofStep_of_error (Accumulator.readAccount_of_error hs hbase)⟩
    | ok x =>
      obtain ⟨w', hread, hacc⟩ := Accumulator.readAccount_of_ok hs hbase
      exact .inr ⟨w', runOn_ofStep_of_ok hread, hacc⟩
  frame u := .refl _ u
  undone _ := rfl
  same _ _ h := ⟨h, h⟩

theorem isAccess_slot (k : StorageKey) :
    (slot k).IsAccess (.slot k) (·.slot k) id fun _ => [] where
  runs w hs := by
    cases hbase : w.base.storage k with
    | error e =>
      exact .inl ⟨fun hr => hr.storage_ne_error hbase, e,
        runOn_ofStep_of_error (Accumulator.readSlot_of_error hs hbase)⟩
    | ok x =>
      obtain ⟨w', hread, hacc⟩ := Accumulator.readSlot_of_ok hs hbase
      exact .inr ⟨w', runOn_ofStep_of_ok hread, hacc⟩
  frame u := .refl _ u
  undone _ := rfl
  same _ _ h := ⟨h, h⟩

/-- Every write to an account is an access: the new value depends on the old one alone. -/
theorem isAccess_writeAccount (a : Address) (f : Option Account → Option Account) :
    (ofWrite (·.writeAccount a f)).IsAccess (.account a) (fun _ => ())
      (fun u => u.setAccount a (f (u.account a))) fun u => [.account a (u.account a)] where
  runs w hs := by
    cases hbase : w.base.account a with
    | error e =>
      exact .inl ⟨fun hr => hr.account_ne_error hbase, e,
        runOn_ofWrite_of_error (Accumulator.writeAccount_of_error hs hbase f)⟩
    | ok x =>
      obtain ⟨w', hwrite, hacc⟩ := Accumulator.writeAccount_of_ok hs hbase f
      exact .inr ⟨w', runOn_ofWrite_of_ok hwrite, hacc⟩
  frame u _ hd := agreeAt_setAccount hd u _
  undone u := by
    show (u.setAccount a _).setAccount a (u.account a) = u
    rw [setAccount_setAccount, setAccount_eq_self]
  same u v h := by
    have hvalue : v.account a = u.account a := h
    refine ⟨rfl, ?_⟩
    show (v.setAccount a _).account a = (u.setAccount a _).account a
    rw [account_setAccount_self, account_setAccount_self, hvalue]

theorem isAccess_setSlot (k : StorageKey) (value : Word) :
    (setSlot k value).IsAccess (.slot k) (fun _ => ()) (·.setSlot k value)
      fun u => [.slot k (u.slot k)] where
  runs w hs := by
    cases hbase : w.base.storage k with
    | error e =>
      exact .inl ⟨fun hr => hr.storage_ne_error hbase, e,
        runOn_ofWrite_of_error (Accumulator.writeSlot_of_error hs hbase value)⟩
    | ok x =>
      obtain ⟨w', hwrite, hacc⟩ := Accumulator.writeSlot_of_ok hs hbase value
      exact .inr ⟨w', runOn_ofWrite_of_ok hwrite, hacc⟩
  frame u _ hd := agreeAt_setSlot hd u value
  undone u := by
    show (u.setSlot k value).setSlot k (u.slot k) = u
    rw [setSlot_setSlot, setSlot_eq_self]
  same u v _ := by
    refine ⟨rfl, ?_⟩
    show (v.setSlot k value).slot k = (u.setSlot k value).slot k
    rw [slot_setSlot_self, slot_setSlot_self]

namespace IsAccess

variable {x : Execution α} {c : Cell} {answer : Snapshot → α} {effect : Snapshot → Snapshot}
  {writes : Snapshot → List JournalEntry}

theorem extends_of_accessed (h : x.IsAccess c answer effect writes)
    (hacc : w.Accessed c (effect w.values) (writes w.values) w') : w.Extends w' :=
  hacc.extends (h.frame w.values) (h.undone w.values)

/-- Over a readable view an access answers. -/
theorem answers (h : x.IsAccess c answer effect writes) (hs : w.Sound) (hr : w.base.Readable) :
    ∃ w', x.runOn w = (.ok (answer w.values), w') ∧ w.Extends w' ∧
      w.Accessed c (effect w.values) (writes w.values) w' := by
  rcases h.runs w hs with ⟨hnot, -⟩ | ⟨w', hrun, hacc⟩
  · exact absurd hr hnot
  · exact ⟨w', hrun, h.extends_of_accessed hacc, hacc⟩

/-- An access is local: its footprint is its cell. -/
theorem isLocal (h : x.IsAccess c answer effect writes) : Local x.runOn where
  grows w hs := by
    rcases h.runs w hs with ⟨-, e, hrun⟩ | ⟨w', hrun, hacc⟩
    · rw [hrun]
      exact .refl hs
    · rw [hrun]
      exact h.extends_of_accessed hacc
  footprint s hs hr := by
    refine ⟨{c}, fun b hb hbr hagree => ?_⟩
    obtain ⟨s', hsrun, -, hsacc⟩ := h.answers hs hr
    obtain ⟨b', hbrun, -, hbacc⟩ := h.answers hb hbr
    obtain ⟨hanswer, hvalue⟩ := h.same s.values b.values (hagree c rfl)
    refine ⟨⟨?_, ?_, ?_⟩, ?_⟩
    · rw [hsrun, hbrun, hanswer]
    · rw [hsrun, hbrun, hsacc.values, hbacc.values]
      rintro d rfl
      exact hvalue
    · rw [hbrun, hbacc.values]
      exact h.frame b.values
    · rw [hbrun, hbacc.noted, Set.union_singleton]

end IsAccess

/-- Reading an account and deleting it if it is empty, as two accesses. -/
theorem runOn_deleteIfEmpty (hs : w.Sound) (a : Address) :
    (deleteIfEmpty a).runOn w =
      (account a >>= fun found : Option Account =>
        if found.any (·.isEmpty) then deleteAccount a else pure ()).runOn w := by
  cases hbase : w.base.account a with
  | error e =>
    have hdelete : w.deleteIfEmpty a = .error e := by
      simp only [Accumulator.deleteIfEmpty, Accumulator.readAccount_of_error hs hbase]
    have haccount : (account a).runOn w = (.error e, w) :=
      runOn_ofStep_of_error (Accumulator.readAccount_of_error hs hbase)
    rw [deleteIfEmpty, runOn_ofWrite_of_error hdelete, runOn_bind, haccount]
  | ok x =>
    obtain ⟨w₁, hread, hacc⟩ := Accumulator.readAccount_of_ok hs hbase
    have haccount : (account a).runOn w = (.ok (w.values.account a), w₁) :=
      runOn_ofStep_of_ok hread
    -- What was read is loaded, so a deletion cannot fail any more.
    rw [runOn_bind_of_ok haccount]
    split
    · rename_i hempty
      have hbase₁ : w₁.base.account a = .ok x := hacc.base ▸ hbase
      obtain ⟨w₂, hwrite, -⟩ := Accumulator.writeAccount_of_ok hacc.sound hbase₁ fun _ => none
      have hdelete : w.deleteIfEmpty a = .ok w₂ := by
        simp only [Accumulator.deleteIfEmpty, hread, if_pos hempty, Accumulator.deleteAccount,
          hwrite]
      exact (runOn_ofWrite_of_ok hdelete).trans (runOn_ofWrite_of_ok hwrite).symm
    · rename_i hempty
      have hkeep : w.deleteIfEmpty a = .ok w₁ := by
        simp only [Accumulator.deleteIfEmpty, hread, if_neg hempty]
      exact runOn_ofWrite_of_ok hkeep

end Execution

/-! ## Locality of accesses -/

namespace Local

theorem account (a : Address) : Local (Execution.account a).runOn :=
  (Execution.isAccess_account a).isLocal

theorem slot (k : StorageKey) : Local (Execution.slot k).runOn :=
  (Execution.isAccess_slot k).isLocal

theorem writeAccount (a : Address) (f : Option Account → Option Account) :
    Local (Execution.ofWrite (·.writeAccount a f)).runOn :=
  (Execution.isAccess_writeAccount a f).isLocal

theorem updateAccount (a : Address) (f : Account → Account) :
    Local (Execution.updateAccount a f).runOn :=
  writeAccount a fun current => some (f (current.getD {}))

theorem increaseBalance (a : Address) (amount : Word) :
    Local (Execution.increaseBalance a amount).runOn :=
  updateAccount a _

theorem decreaseBalance (a : Address) (amount : Word) :
    Local (Execution.decreaseBalance a amount).runOn :=
  updateAccount a _

theorem deleteAccount (a : Address) : Local (Execution.deleteAccount a).runOn :=
  writeAccount a fun _ => none

theorem setSlot (k : StorageKey) (value : Word) : Local (Execution.setSlot k value).runOn :=
  (Execution.isAccess_setSlot k value).isLocal

/-! ## Locality of sequences -/

theorem executionPure (a : α) : Local (Pure.pure a : Execution α).runOn := Local.pure _

theorem executionBind {x : Execution α} (hx : Local x.runOn) {f : α → Execution β}
    (hf : ∀ a, Local (f a).runOn) : Local (x >>= f).runOn := by
  -- A failed read ends the sequence; as a continuation it is an answer without an access.
  let next : Except StateError α → Accumulator → Except StateError β × Accumulator
    | .ok a => (f a).runOn
    | .error e => fun w => (.error e, w)
  have hnext : ∀ answer, Local (next answer) := by
    intro answer
    cases answer with
    | ok a => exact hf a
    | error e => exact Local.pure _
  apply Local.congr (Local.bind hx hnext)
  intro w _
  rw [Execution.runOn_bind]
  rcases x.runOn w with ⟨answer, w'⟩
  cases answer <;> rfl

theorem deleteIfEmpty (a : Address) : Local (Execution.deleteIfEmpty a).runOn := by
  refine Local.congr ?_ fun w hw => Execution.runOn_deleteIfEmpty hw a
  apply executionBind (account a)
  intro found
  split
  · exact deleteAccount a
  · exact executionPure ()

/-- A body after a checkpoint, and what follows it: the writes of the body are kept or taken back,
as its answer says. -/
theorem attempt {body : Execution α} (hbody : Local body.runOn) {undone : α → Bool}
    {next : α → Execution β} (hnext : ∀ a, Local (next a).runOn)
    {after : Checkpoint → α → Execution β}
    (hafter : ∀ start a, after start a =
      if undone a then (do Execution.revertTo start; next a) else next a) :
    Local (do
      let start ← Execution.checkpoint
      let a ← body
      after start a).runOn := by
  -- A body that could not read the state is not taken back: nothing follows it.
  let goesBack : Except StateError α → Bool
    | .ok a => undone a
    | .error _ => false
  let rest : Except StateError α → Accumulator → Except StateError β × Accumulator
    | .ok a => (next a).runOn
    | .error e => fun w => (.error e, w)
  have hrest : ∀ answer, Local (rest answer) := by
    intro answer
    cases answer with
    | ok a => exact hnext a
    | error e => exact Local.pure _
  apply Local.congr (Local.bind (Local.tentative hbody goesBack) hrest)
  intro w _
  have hstart : Execution.checkpoint.runOn w = (.ok w.checkpoint, w) := rfl
  rw [Execution.runOn_bind_of_ok hstart, Execution.runOn_bind]
  rcases body.runOn w with ⟨answer, w'⟩
  cases answer with
  | error e => rfl
  | ok a =>
    simp only [hafter, goesBack, rest]
    split
    · exact Execution.runOn_bind_of_ok rfl
    · rfl

end Local

end BlockExecution
