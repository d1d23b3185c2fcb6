/-
  Taking over the entries of another accumulator over the same view.

  The changes of a source override the values of the target. Entries that the
  source only read are taken over where the target has none, which spares a
  read of the view. None of this is put on the journal.
-/
import BlockExecution.State.Accumulator

namespace BlockExecution

/-- An entry of the target after an entry of the source under the same address. -/
def AccountUpdate.overriddenBy (target : Option AccountUpdate) (source : AccountUpdate) :
    AccountUpdate :=
  match target with
  | none => source
  | some own => if source.isModified then { own with updated := source.updated } else own

/-- An entry of the target after an entry of the source for the same slot. -/
def SlotUpdate.overriddenBy (target : Option SlotUpdate) (source : SlotUpdate) : SlotUpdate :=
  match target with
  | none => source
  | some own => if source.isModified then { own with updated := source.updated } else own

/-- How taking over an entry counts as an access. -/
def importAccess (modified : Bool) : Access := if modified then .write else .read

namespace TouchTracker

/-- Notes an access for every entry taken over. -/
def recordImport (t : TouchTracker) (accounts : Table Address AccountUpdate)
    (slots : Table StorageKey SlotUpdate) : TouchTracker where
  accounts := t.accounts.absorb
    (fun old u => (old.getD {}).record (importAccess u.isModified)) accounts
  slots := t.slots.absorb
    (fun old u => (old.getD {}).record (importAccess u.isModified)) slots

end TouchTracker

namespace Accumulator

/-- Takes over the entries of `source`; its changes override the target's values. -/
def importChanges (w source : Accumulator) : Accumulator :=
  { w with
    accounts := w.accounts.absorb AccountUpdate.overriddenBy source.accounts
    slots := w.slots.absorb SlotUpdate.overriddenBy source.slots
    tracker := w.tracker.recordImport source.accounts source.slots }

/-- Takes over, as loaded values, what `source` read from the view and the target has not. -/
def importPrior (w source : Accumulator) : Accumulator :=
  { w with
    accounts := w.accounts.absorb
      (fun own u => own.getD (AccountUpdate.unchanged u.prior)) source.accounts
    slots := w.slots.absorb (fun own u => own.getD (SlotUpdate.unchanged u.prior)) source.slots }

end Accumulator

end BlockExecution
