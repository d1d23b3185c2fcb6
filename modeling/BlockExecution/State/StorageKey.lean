/-
  The name of a storage slot: the account that holds it and its number there.
  Names are ordered by account first, so the slots of one account stand together.
-/
import BlockExecution.State.Table

namespace BlockExecution

/-- A storage slot of an account. -/
structure StorageKey where
  address : Address
  slot : Word
  deriving DecidableEq, Repr

instance : Ord StorageKey :=
  ⟨compareLex (compareOn StorageKey.address) (compareOn StorageKey.slot)⟩

instance : Std.TransOrd StorageKey :=
  inferInstanceAs
    (Std.TransCmp (compareLex (compareOn StorageKey.address) (compareOn StorageKey.slot)))

instance : Std.LawfulEqOrd StorageKey where
  eq_of_compare {a b} h := by
    have hboth : compare a.address b.address = .eq ∧ compare a.slot b.slot = .eq :=
      Ordering.then_eq_eq.mp h
    have haddress := Std.LawfulEqOrd.eq_of_compare hboth.1
    have hslot := Std.LawfulEqOrd.eq_of_compare hboth.2
    cases a
    cases b
    simp_all

end BlockExecution
