/-
  Operations on accumulators as data.

  An operation needs one cell. On a sound accumulator it fails exactly where the
  view cannot be read there, and then leaves the accumulator as it is; otherwise
  `Operation.reply` and `Operation.effect` say what it answers and what values it
  leaves. `Operation.isUse` is all that later modules need to know of them.
-/
import BlockExecution.Proofs.State.Ensures

namespace BlockExecution

open BlockExecution.Snapshot

variable {α : Type} {w w' : Accumulator}

/-! ## Faults of a view -/

/-- Why a cell of a view cannot be read, none if it can. -/
def WorldView.fault? (v : WorldView) : Cell → Option StateError
  | .account a => match v.account a with | .error e => some e | .ok _ => none
  | .slot k => match v.storage k with | .error e => some e | .ok _ => none

namespace WorldView

variable {v : WorldView} {a : Address} {k : StorageKey} {e : StateError}

theorem fault?_account_eq_some_iff : v.fault? (.account a) = some e ↔ v.account a = .error e := by
  cases h : v.account a <;> simp [fault?, h]

theorem fault?_account_eq_none_iff :
    v.fault? (.account a) = none ↔ ∃ x, v.account a = .ok x := by
  cases h : v.account a <;> simp [fault?, h]

theorem fault?_slot_eq_some_iff : v.fault? (.slot k) = some e ↔ v.storage k = .error e := by
  cases h : v.storage k <;> simp [fault?, h]

theorem fault?_slot_eq_none_iff : v.fault? (.slot k) = none ↔ ∃ x, v.storage k = .ok x := by
  cases h : v.storage k <;> simp [fault?, h]

theorem Readable.fault?_eq_none (hr : v.Readable) (c : Cell) : v.fault? c = none := by
  cases c with
  | account a => exact fault?_account_eq_none_iff.mpr (hr.1 a)
  | slot k => exact fault?_slot_eq_none_iff.mpr (hr.2 k)

end WorldView

/-! ## Uses of a cell -/

/-- The accumulator after a use of the cell `c` that leaves the values `v`. -/
structure Accumulator.Used (w : Accumulator) (c : Cell) (v : Snapshot) (w' : Accumulator) :
    Prop where
  grown : w.Extends w'
  values : w'.values = v
  noted : w'.noted = insert c w.noted
  loaded : w'.loaded = insert c w.loaded

/-- A computation that needs the cell `c`: it fails as the view does there and then changes nothing,
and otherwise answers and leaves what the present values make of it. -/
structure Execution.IsUse (x : Execution α) (c : Cell) (answer : Snapshot → α)
    (effect : Snapshot → Snapshot) : Prop where
  fails : ∀ {w : Accumulator} {e : StateError}, w.Sound → w.base.fault? c = some e →
    x.runOn w = (.error e, w)
  runs : ∀ {w : Accumulator}, w.Sound → w.base.fault? c = none →
    ∃ w', x.runOn w = (.ok (answer w.values), w') ∧ w.Used c (effect w.values) w'

namespace Execution

variable {c : Cell} {x : Execution α} {answer : Snapshot → α} {effect : Snapshot → Snapshot}
  {writes : Snapshot → List JournalEntry}

theorem IsAccess.used (hx : x.IsAccess c answer effect writes)
    (h : w.Accessed c (effect w.values) (writes w.values) w') : w.Used c (effect w.values) w' :=
  ⟨hx.extends_of_accessed h, h.values, h.noted, h.loaded⟩

theorem isUse_account (a : Address) :
    (account a).IsUse (.account a) (·.account a) id where
  fails hs h := runOn_ofStep_of_error
    (Accumulator.readAccount_of_error hs (WorldView.fault?_account_eq_some_iff.mp h))
  runs hs h := by
    obtain ⟨x, hx⟩ := WorldView.fault?_account_eq_none_iff.mp h
    obtain ⟨w', hread, hacc⟩ := Accumulator.readAccount_of_ok hs hx
    exact ⟨w', runOn_ofStep_of_ok hread, (isAccess_account a).used hacc⟩

theorem isUse_slot (k : StorageKey) : (slot k).IsUse (.slot k) (·.slot k) id where
  fails hs h := runOn_ofStep_of_error
    (Accumulator.readSlot_of_error hs (WorldView.fault?_slot_eq_some_iff.mp h))
  runs hs h := by
    obtain ⟨x, hx⟩ := WorldView.fault?_slot_eq_none_iff.mp h
    obtain ⟨w', hread, hacc⟩ := Accumulator.readSlot_of_ok hs hx
    exact ⟨w', runOn_ofStep_of_ok hread, (isAccess_slot k).used hacc⟩

theorem isUse_writeAccount (a : Address) (f : Option Account → Option Account) :
    (ofWrite (·.writeAccount a f)).IsUse (.account a) (fun _ => ())
      fun u => u.setAccount a (f (u.account a)) where
  fails hs h := runOn_ofWrite_of_error
    (Accumulator.writeAccount_of_error hs (WorldView.fault?_account_eq_some_iff.mp h) f)
  runs hs h := by
    obtain ⟨x, hx⟩ := WorldView.fault?_account_eq_none_iff.mp h
    obtain ⟨w', hwrite, hacc⟩ := Accumulator.writeAccount_of_ok hs hx f
    exact ⟨w', runOn_ofWrite_of_ok hwrite, (isAccess_writeAccount a f).used hacc⟩

theorem isUse_updateAccount (a : Address) (f : Account → Account) :
    (updateAccount a f).IsUse (.account a) (fun _ => ()) (·.update a f) :=
  isUse_writeAccount a fun current => some (f (current.getD {}))

theorem isUse_increaseBalance (a : Address) (amount : Word) :
    (increaseBalance a amount).IsUse (.account a) (fun _ => ()) (·.credit a amount) :=
  isUse_updateAccount a _

theorem isUse_deleteAccount (a : Address) :
    (deleteAccount a).IsUse (.account a) (fun _ => ()) (·.setAccount a none) :=
  isUse_writeAccount a fun _ => none

theorem isUse_setSlot (k : StorageKey) (value : Word) :
    (setSlot k value).IsUse (.slot k) (fun _ => ()) (·.setSlot k value) where
  fails hs h := runOn_ofWrite_of_error
    (Accumulator.writeSlot_of_error hs (WorldView.fault?_slot_eq_some_iff.mp h) value)
  runs hs h := by
    obtain ⟨x, hx⟩ := WorldView.fault?_slot_eq_none_iff.mp h
    obtain ⟨w', hwrite, hacc⟩ := Accumulator.writeSlot_of_ok hs hx value
    exact ⟨w', runOn_ofWrite_of_ok hwrite, (isAccess_setSlot k value).used hacc⟩

/-- A read and, if the account is empty, a deletion. The deletion cannot fail any more. -/
theorem isUse_deleteIfEmpty (a : Address) :
    (deleteIfEmpty a).IsUse (.account a) (fun _ => ()) (·.clear a) where
  fails hs h := by
    rw [runOn_deleteIfEmpty hs, runOn_bind, (isUse_account a).fails hs h]
  runs {w} hs h := by
    obtain ⟨w₁, hread, hused⟩ := (isUse_account a).runs hs h
    rw [runOn_deleteIfEmpty hs, runOn_bind_of_ok hread]
    have hvalues : w₁.values = w.values := hused.values
    unfold clear
    by_cases hempty : (w.values.account a).any (·.isEmpty) = true
    · have hreadable : w₁.base.fault? (.account a) = none := by rw [hused.grown.base, h]
      obtain ⟨w₂, hdelete, hdeleted⟩ :=
        (isUse_deleteAccount a).runs hused.grown.sound hreadable
      rw [if_pos hempty, if_pos hempty]
      -- Both uses are of the one cell, which is noted and loaded only once.
      refine ⟨w₂, hdelete, hused.grown.trans hdeleted.grown, ?_, ?_, ?_⟩
      · rw [hdeleted.values, hvalues]
      · rw [hdeleted.noted, hused.noted, Set.insert_idem]
      · rw [hdeleted.loaded, hused.loaded, Set.insert_idem]
    · rw [if_neg hempty, if_neg hempty]
      exact ⟨w₁, rfl, hused⟩

/-- What is made of the answer afterwards needs no cell. -/
theorem IsUse.map {β : Type} (hx : x.IsUse c answer effect) (f : α → β) :
    (x >>= fun a => pure (f a)).IsUse c (fun u => f (answer u)) effect where
  fails hs h := by rw [runOn_bind, hx.fails hs h]
  runs hs h := by
    obtain ⟨w', hrun, hused⟩ := hx.runs hs h
    exact ⟨w', (runOn_bind_of_ok hrun).trans rfl, hused⟩

end Execution

/-! ## Operations -/

/-- A use of an account or a slot. -/
inductive Operation where
  | account (address : Address)
  | slot (key : StorageKey)
  | updateAccount (address : Address) (f : Account → Account)
  | increaseBalance (address : Address) (amount : Word)
  | setSlot (key : StorageKey) (value : Word)
  | deleteAccount (address : Address)
  | deleteIfEmpty (address : Address)

/-- What an operation answers. -/
inductive Reply where
  | account (found : Option Account)
  | slot (value : Word)
  | done
  deriving DecidableEq

namespace Operation

/-- The operation as a computation over an accumulator. -/
def execution : Operation → Execution Reply
  | .account a => do return .account (← Execution.account a)
  | .slot k => do return .slot (← Execution.slot k)
  | .updateAccount a f => do Execution.updateAccount a f; return .done
  | .increaseBalance a amount => do Execution.increaseBalance a amount; return .done
  | .setSlot k value => do Execution.setSlot k value; return .done
  | .deleteAccount a => do Execution.deleteAccount a; return .done
  | .deleteIfEmpty a => do Execution.deleteIfEmpty a; return .done

/-- The cell that an operation needs. -/
def cell : Operation → Cell
  | .account a | .updateAccount a _ | .increaseBalance a _ | .deleteAccount a
  | .deleteIfEmpty a => .account a
  | .slot k | .setSlot k _ => .slot k

/-- What an operation answers on given values. -/
def reply (op : Operation) (u : Snapshot) : Reply :=
  match op with
  | .account a => .account (u.account a)
  | .slot k => .slot (u.slot k)
  | _ => .done

/-- The values that an operation leaves of given ones. -/
def effect (op : Operation) (u : Snapshot) : Snapshot :=
  match op with
  | .account _ | .slot _ => u
  | .updateAccount a f => u.update a f
  | .increaseBalance a amount => u.credit a amount
  | .setSlot k value => u.setSlot k value
  | .deleteAccount a => u.setAccount a none
  | .deleteIfEmpty a => u.clear a

/-- What an operation does. -/
theorem isUse (op : Operation) : op.execution.IsUse op.cell op.reply op.effect := by
  cases op with
  | account a => exact (Execution.isUse_account a).map _
  | slot k => exact (Execution.isUse_slot k).map _
  | updateAccount a f => exact (Execution.isUse_updateAccount a f).map fun _ => Reply.done
  | increaseBalance a amount =>
    exact (Execution.isUse_increaseBalance a amount).map fun _ => Reply.done
  | setSlot k value => exact (Execution.isUse_setSlot k value).map fun _ => Reply.done
  | deleteAccount a => exact (Execution.isUse_deleteAccount a).map fun _ => Reply.done
  | deleteIfEmpty a => exact (Execution.isUse_deleteIfEmpty a).map fun _ => Reply.done

/-- Whether it fails or not, an operation only adds to a sound accumulator. -/
theorem grows (op : Operation) {w : Accumulator} (hs : w.Sound) :
    w.Extends (op.execution.runOn w).2 := by
  cases h : w.base.fault? op.cell with
  | some e =>
    rw [op.isUse.fails hs h]
    exact .refl hs
  | none =>
    obtain ⟨w', hrun, hused⟩ := op.isUse.runs hs h
    rw [hrun]
    exact hused.grown

end Operation

end BlockExecution
