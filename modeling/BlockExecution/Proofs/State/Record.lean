/-
  What operations record.

  Besides values an accumulator keeps two records: which cells were accessed and
  how, and what each write replaced. What an operation adds to them is told by
  the values it finds; what is loaded already makes no difference.
-/
import BlockExecution.Proofs.State.Operation

namespace BlockExecution

open BlockExecution.Snapshot

variable {α : Type}

/-! ## Records -/

/-- Adds an access to a cell. -/
def TouchTracker.record (t : TouchTracker) : Cell → Access → TouchTracker
  | .account a, access => t.recordAccount a access
  | .slot k, access => t.recordSlot k access

/-- The accumulator after accesses to the cell `c`, first one first, that put `writes` on the
journal. -/
structure Accumulator.Recorded (w : Accumulator) (c : Cell) (accesses : List Access)
    (writes : List JournalEntry) (w' : Accumulator) : Prop where
  tracker : w'.tracker = accesses.foldl (·.record c ·) w.tracker
  journal : w'.journal = writes ++ w.journal

/-- What a use of the cell `c` records where the view can be read. -/
def Execution.Records (x : Execution α) (c : Cell) (accesses : Snapshot → List Access)
    (writes : Snapshot → List JournalEntry) : Prop :=
  ∀ w : Accumulator, w.Sound → w.base.fault? c = none →
    w.Recorded c (accesses w.values) (writes w.values) (x.runOn w).2

namespace Execution

variable {c : Cell} {x : Execution α} {accesses : Snapshot → List Access}
  {writes : Snapshot → List JournalEntry}

theorem records_account (a : Address) :
    (account a).Records (.account a) (fun _ => [.read]) fun _ => [] := by
  intro w hs h
  obtain ⟨x, hx⟩ := WorldView.fault?_account_eq_none_iff.mp h
  have hread := Accumulator.loadAccount_of_ok hs hx
  rw [account, runOn, ofStep, Accumulator.readAccount, hread]
  exact ⟨rfl, rfl⟩

theorem records_slot (k : StorageKey) :
    (slot k).Records (.slot k) (fun _ => [.read]) fun _ => [] := by
  intro w hs h
  obtain ⟨x, hx⟩ := WorldView.fault?_slot_eq_none_iff.mp h
  have hread := Accumulator.loadSlot_of_ok hs hx
  rw [slot, runOn, ofStep, Accumulator.readSlot, hread]
  exact ⟨rfl, rfl⟩

theorem records_writeAccount (a : Address) (f : Option Account → Option Account) :
    (ofWrite (·.writeAccount a f)).Records (.account a) (fun _ => [.write])
      fun u => [.account a (u.account a)] := by
  intro w hs h
  obtain ⟨x, hx⟩ := WorldView.fault?_account_eq_none_iff.mp h
  have hload := Accumulator.loadAccount_of_ok hs hx
  rw [ofWrite, runOn, ofStep, Accumulator.writeAccount, hload]
  exact ⟨rfl, rfl⟩

theorem records_updateAccount (a : Address) (f : Account → Account) :
    (updateAccount a f).Records (.account a) (fun _ => [.write])
      fun u => [.account a (u.account a)] :=
  records_writeAccount a fun current => some (f (current.getD {}))

theorem records_increaseBalance (a : Address) (amount : Word) :
    (increaseBalance a amount).Records (.account a) (fun _ => [.write])
      fun u => [.account a (u.account a)] :=
  records_updateAccount a _

theorem records_deleteAccount (a : Address) :
    (deleteAccount a).Records (.account a) (fun _ => [.write])
      fun u => [.account a (u.account a)] :=
  records_writeAccount a fun _ => none

theorem records_setSlot (k : StorageKey) (value : Word) :
    (setSlot k value).Records (.slot k) (fun _ => [.write]) fun u => [.slot k (u.slot k)] := by
  intro w hs h
  obtain ⟨x, hx⟩ := WorldView.fault?_slot_eq_none_iff.mp h
  have hload := Accumulator.loadSlot_of_ok hs hx
  rw [setSlot, ofWrite, runOn, ofStep, Accumulator.writeSlot, hload]
  exact ⟨rfl, rfl⟩

/-- The deletion is noted and journaled after the read, and only if there is one. -/
theorem records_deleteIfEmpty (a : Address) :
    (deleteIfEmpty a).Records (.account a)
      (fun u => if (u.account a).any (·.isEmpty) then [.read, .write] else [.read])
      fun u => if (u.account a).any (·.isEmpty) then [.account a (u.account a)] else [] := by
  intro w hs h
  obtain ⟨w₁, hread, hused⟩ := (isUse_account a).runs hs h
  have hfirst := records_account a w hs h
  rw [hread] at hfirst
  rw [runOn_deleteIfEmpty hs, runOn_bind_of_ok hread]
  have hvalues : w₁.values = w.values := hused.values
  by_cases hempty : (w.values.account a).any (·.isEmpty) = true
  · have hreadable : w₁.base.fault? (.account a) = none := by rw [hused.grown.base, h]
    have hsecond := records_deleteAccount a w₁ hused.grown.sound hreadable
    simp only [if_pos hempty]
    refine ⟨?_, ?_⟩
    · rw [hsecond.tracker, hfirst.tracker]
      rfl
    · rw [hsecond.journal, hfirst.journal, hvalues]
      rfl
  · simp only [if_neg hempty]
    exact hfirst

theorem Records.map {β : Type} (hx : x.Records c accesses writes) (f : α → β) :
    (x >>= fun a => pure (f a)).Records c accesses writes := by
  intro w hs h
  have hrecords := hx w hs h
  rw [runOn_bind]
  rcases hrun : x.runOn w with ⟨answer, w'⟩
  rw [hrun] at hrecords
  cases answer <;> exact hrecords

end Execution

namespace Operation

/-- The accesses that an operation notes on given values, first one first. -/
def accesses (op : Operation) (u : Snapshot) : List Access :=
  match op with
  | .account _ | .slot _ => [.read]
  | .deleteIfEmpty a => if (u.account a).any (·.isEmpty) then [.read, .write] else [.read]
  | _ => [.write]

/-- What an operation on given values puts on the journal. -/
def writes (op : Operation) (u : Snapshot) : List JournalEntry :=
  match op with
  | .account _ | .slot _ => []
  | .updateAccount a _ | .increaseBalance a _ | .deleteAccount a => [.account a (u.account a)]
  | .setSlot k _ => [.slot k (u.slot k)]
  | .deleteIfEmpty a => if (u.account a).any (·.isEmpty) then [.account a (u.account a)] else []

/-- What an operation records. -/
theorem records (op : Operation) : op.execution.Records op.cell op.accesses op.writes := by
  cases op with
  | account a => exact (Execution.records_account a).map _
  | slot k => exact (Execution.records_slot k).map _
  | updateAccount a f => exact (Execution.records_updateAccount a f).map fun _ => Reply.done
  | increaseBalance a amount =>
    exact (Execution.records_increaseBalance a amount).map fun _ => Reply.done
  | setSlot k value => exact (Execution.records_setSlot k value).map fun _ => Reply.done
  | deleteAccount a => exact (Execution.records_deleteAccount a).map fun _ => Reply.done
  | deleteIfEmpty a => exact (Execution.records_deleteIfEmpty a).map fun _ => Reply.done

end Operation

end BlockExecution
