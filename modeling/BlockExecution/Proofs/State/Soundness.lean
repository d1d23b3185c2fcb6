/-
  Sound accumulators, and what one access does to them.

  An accumulator is sound when its entries carry what the view gives and its
  journal names loaded cells only. On a sound accumulator an access fails
  exactly where the view does, and otherwise its whole effect can be said in
  terms of values, loaded cells, noted cells and the journal.
-/
import BlockExecution.Proofs.State.Snapshot

namespace BlockExecution

/-! ## Undoing writes on values -/

/-- The cell that a write went to. -/
def JournalEntry.cell : JournalEntry → Cell
  | .account address _ => .account address
  | .slot key _ => .slot key

namespace Snapshot

/-- Gives a cell the value that a write replaced. -/
def restore (v : Snapshot) : JournalEntry → Snapshot
  | .account address previous => v.setAccount address previous
  | .slot key previous => v.setSlot key previous

/-- Undoes writes, the first one first. -/
def rewind (v : Snapshot) : List JournalEntry → Snapshot
  | [] => v
  | entry :: older => (v.restore entry).rewind older

theorem rewind_append (v : Snapshot) (newer older : List JournalEntry) :
    v.rewind (newer ++ older) = (v.rewind newer).rewind older := by
  induction newer generalizing v with
  | nil => rfl
  | cons entry rest ih => exact ih (v.restore entry)

end Snapshot

namespace Accumulator

variable {w : Accumulator}

/-! ## Soundness -/

/-- Entries carry what the view gives, and the journal names loaded cells only. -/
structure Sound (w : Accumulator) : Prop where
  account : ∀ {a : Address} {u : AccountUpdate},
    w.accounts[a]? = some u → w.base.account a = .ok u.prior
  slot : ∀ {k : StorageKey} {u : SlotUpdate},
    w.slots[k]? = some u → w.base.storage k = .ok u.prior
  journal : ∀ entry ∈ w.journal, entry.cell ∈ w.loaded

theorem sound_ofView (base : WorldView) : (ofView base).Sound where
  account h := by
    rw [ofView, Std.ExtTreeMap.getElem?_empty] at h
    cases h
  slot h := by
    rw [ofView, Std.ExtTreeMap.getElem?_empty] at h
    cases h
  journal entry h := by cases h

/-! ## Entries -/

/-- Puts the entry of an account. -/
def putAccount (w : Accumulator) (a : Address) (u : AccountUpdate) : Accumulator :=
  { w with accounts := w.accounts.insert a u }

/-- Puts the entry of a slot. -/
def putSlot (w : Accumulator) (k : StorageKey) (u : SlotUpdate) : Accumulator :=
  { w with slots := w.slots.insert k u }

theorem values_putAccount (w : Accumulator) (a : Address) (u : AccountUpdate) :
    (w.putAccount a u).values = w.values.setAccount a u.updated := by
  ext1
  · funext b
    show (((w.accounts.insert a u)[b]?).map (·.updated)).getD _ = _
    rw [Table.getElem?_insert_eq]
    by_cases h : a = b
    · subst h
      rw [if_pos rfl, Snapshot.account_setAccount_self]
      rfl
    · rw [if_neg h, Snapshot.account_setAccount_of_ne (Ne.symm h)]
      rfl
  · rfl

theorem values_putSlot (w : Accumulator) (k : StorageKey) (u : SlotUpdate) :
    (w.putSlot k u).values = w.values.setSlot k u.updated := by
  ext1
  · rfl
  · funext l
    show (((w.slots.insert k u)[l]?).map (·.updated)).getD _ = _
    rw [Table.getElem?_insert_eq]
    by_cases h : k = l
    · subst h
      rw [if_pos rfl, Snapshot.slot_setSlot_self]
      rfl
    · rw [if_neg h, Snapshot.slot_setSlot_of_ne (Ne.symm h)]
      rfl

theorem loaded_putAccount (w : Accumulator) (a : Address) (u : AccountUpdate) :
    (w.putAccount a u).loaded = insert (.account a) w.loaded := by
  ext c
  cases c with
  | account b =>
    show b ∈ w.accounts.insert a u ↔ Cell.account b = .account a ∨ b ∈ w.accounts
    rw [Std.ExtTreeMap.mem_insert, Std.LawfulEqOrd.compare_eq_iff_eq, Cell.account.injEq, eq_comm]
  | slot k => exact (or_iff_right (fun h => Cell.noConfusion h)).symm

theorem loaded_putSlot (w : Accumulator) (k : StorageKey) (u : SlotUpdate) :
    (w.putSlot k u).loaded = insert (.slot k) w.loaded := by
  ext c
  cases c with
  | account b => exact (or_iff_right (fun h => Cell.noConfusion h)).symm
  | slot l =>
    show l ∈ w.slots.insert k u ↔ Cell.slot l = .slot k ∨ l ∈ w.slots
    rw [Std.ExtTreeMap.mem_insert, Std.LawfulEqOrd.compare_eq_iff_eq, Cell.slot.injEq, eq_comm]

theorem sound_putAccount (hs : w.Sound) {a : Address} {u : AccountUpdate}
    (h : w.base.account a = .ok u.prior) : (w.putAccount a u).Sound where
  account {b v} hb := by
    rw [putAccount, Table.getElem?_insert_eq] at hb
    -- The entry that was put carries what the view gives, all others did so before.
    by_cases hab : a = b
    · rw [if_pos hab, Option.some_inj] at hb
      rw [← hb, ← hab]
      exact h
    · rw [if_neg hab] at hb
      exact hs.account hb
  slot hk := hs.slot hk
  journal entry he := by
    rw [loaded_putAccount]
    exact Set.mem_insert_of_mem _ (hs.journal entry he)

theorem sound_putSlot (hs : w.Sound) {k : StorageKey} {u : SlotUpdate}
    (h : w.base.storage k = .ok u.prior) : (w.putSlot k u).Sound where
  account ha := hs.account ha
  slot {l v} hl := by
    rw [putSlot, Table.getElem?_insert_eq] at hl
    by_cases hkl : k = l
    · rw [if_pos hkl, Option.some_inj] at hl
      rw [← hl, ← hkl]
      exact h
    · rw [if_neg hkl] at hl
      exact hs.slot hl
  journal entry he := by
    rw [loaded_putSlot]
    exact Set.mem_insert_of_mem _ (hs.journal entry he)

/-! ## Notes -/

theorem noted_noteAccount (w : Accumulator) (a : Address) (access : Access) :
    (w.noteAccount a access).noted = insert (.account a) w.noted := by
  ext c
  cases c with
  | account b =>
    show b ∈ w.tracker.accounts.alter a _ ↔ Cell.account b = .account a ∨ b ∈ w.tracker.accounts
    rw [Table.mem_alter_some, Cell.account.injEq]
  | slot k => exact (or_iff_right (fun h => Cell.noConfusion h)).symm

theorem noted_noteSlot (w : Accumulator) (k : StorageKey) (access : Access) :
    (w.noteSlot k access).noted = insert (.slot k) w.noted := by
  ext c
  cases c with
  | account b => exact (or_iff_right (fun h => Cell.noConfusion h)).symm
  | slot l =>
    show l ∈ w.tracker.slots.alter k _ ↔ Cell.slot l = .slot k ∨ l ∈ w.tracker.slots
    rw [Table.mem_alter_some, Cell.slot.injEq]

end Accumulator

end BlockExecution
