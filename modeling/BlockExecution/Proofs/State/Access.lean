/-
  Single accesses to a sound accumulator.

  Reads and writes of accounts and slots differ in the cell, in the value they
  leave there and in the journal. `Accumulator.Accessed` says all of it, so that
  nothing later has to open an operation again.
-/
import BlockExecution.Proofs.State.Soundness

namespace BlockExecution.Accumulator

variable {w : Accumulator}

/-! ## What an access does -/

/-- The accumulator after an access to the cell `c`: it has the values `v`, the cell is loaded and
noted, and `writes` were put on the journal. -/
structure Accessed (w : Accumulator) (c : Cell) (v : Snapshot) (writes : List JournalEntry)
    (w' : Accumulator) : Prop where
  base : w'.base = w.base
  sound : w'.Sound
  values : w'.values = v
  noted : w'.noted = insert c w.noted
  loaded : w'.loaded = insert c w.loaded
  journal : w'.journal = writes ++ w.journal

/-- Putting the entry of an account, with writes to it on the journal. -/
theorem accessed_putAccount (hs : w.Sound) {a : Address} {u : AccountUpdate}
    (h : w.base.account a = .ok u.prior) {writes : List JournalEntry}
    (hwrites : ∀ entry ∈ writes, entry.cell = .account a) (access : Access) :
    w.Accessed (.account a) (w.values.setAccount a u.updated) writes
      (noteAccount { w.putAccount a u with journal := writes ++ w.journal } a access) where
  base := rfl
  sound :=
    { account := (sound_putAccount hs h).account
      slot := (sound_putAccount hs h).slot
      journal := by
        intro entry he
        show entry.cell ∈ (w.putAccount a u).loaded
        rw [loaded_putAccount]
        rcases List.mem_append.mp he with hnew | hold
        · exact .inl (hwrites entry hnew)
        · exact .inr (hs.journal entry hold) }
  values := values_putAccount w a u
  noted := noted_noteAccount _ a access
  loaded := loaded_putAccount w a u
  journal := rfl

/-- Putting the entry of a slot, with writes to it on the journal. -/
theorem accessed_putSlot (hs : w.Sound) {k : StorageKey} {u : SlotUpdate}
    (h : w.base.storage k = .ok u.prior) {writes : List JournalEntry}
    (hwrites : ∀ entry ∈ writes, entry.cell = .slot k) (access : Access) :
    w.Accessed (.slot k) (w.values.setSlot k u.updated) writes
      (noteSlot { w.putSlot k u with journal := writes ++ w.journal } k access) where
  base := rfl
  sound :=
    { account := (sound_putSlot hs h).account
      slot := (sound_putSlot hs h).slot
      journal := by
        intro entry he
        show entry.cell ∈ (w.putSlot k u).loaded
        rw [loaded_putSlot]
        rcases List.mem_append.mp he with hnew | hold
        · exact .inl (hwrites entry hnew)
        · exact .inr (hs.journal entry hold) }
  values := values_putSlot w k u
  noted := noted_noteSlot _ k access
  loaded := loaded_putSlot w k u
  journal := rfl

/-! ## Loading -/

theorem loadAccount_of_error (hs : w.Sound) {a : Address} {e : StateError}
    (h : w.base.account a = .error e) : w.loadAccount a = .error e := by
  unfold loadAccount
  cases hu : w.accounts[a]? with
  | some u =>
    have hprior := hs.account hu
    rw [h] at hprior
    cases hprior
  | none => simp only [h]

theorem loadAccount_of_ok (hs : w.Sound) {a : Address} {x : Option Account}
    (h : w.base.account a = .ok x) :
    w.loadAccount a =
      .ok (⟨x, w.values.account a⟩, w.putAccount a ⟨x, w.values.account a⟩) := by
  unfold loadAccount
  cases hu : w.accounts[a]? with
  | some u =>
    -- The entry is there already; putting it once more is no change.
    have hprior : x = u.prior := by
      have hok := hs.account hu
      rw [h] at hok
      exact Except.ok.inj hok
    have hentry : (⟨x, w.values.account a⟩ : AccountUpdate) = u := by
      rw [account_values_of_entry hu, hprior]
    rw [hentry, putAccount, Table.insert_eq_self hu]
  | none =>
    -- A fresh entry is made of what the view gives, which is also the present value.
    have hvalue : w.values.account a = x :=
      (account_values_of_none hu).trans (WorldView.account_values h)
    simp only [h, hvalue]
    rfl

theorem loadSlot_of_error (hs : w.Sound) {k : StorageKey} {e : StateError}
    (h : w.base.storage k = .error e) : w.loadSlot k = .error e := by
  unfold loadSlot
  cases hu : w.slots[k]? with
  | some u =>
    have hprior := hs.slot hu
    rw [h] at hprior
    cases hprior
  | none => simp only [h]

theorem loadSlot_of_ok (hs : w.Sound) {k : StorageKey} {x : Word}
    (h : w.base.storage k = .ok x) :
    w.loadSlot k = .ok (⟨x, w.values.slot k⟩, w.putSlot k ⟨x, w.values.slot k⟩) := by
  unfold loadSlot
  cases hu : w.slots[k]? with
  | some u =>
    have hprior : x = u.prior := by
      have hok := hs.slot hu
      rw [h] at hok
      exact Except.ok.inj hok
    have hentry : (⟨x, w.values.slot k⟩ : SlotUpdate) = u := by
      rw [slot_values_of_entry hu, hprior]
    rw [hentry, putSlot, Table.insert_eq_self hu]
  | none =>
    have hvalue : w.values.slot k = x := (slot_values_of_none hu).trans (WorldView.slot_values h)
    simp only [h, hvalue]
    rfl

/-! ## Reads -/

theorem readAccount_of_error (hs : w.Sound) {a : Address} {e : StateError}
    (h : w.base.account a = .error e) : w.readAccount a = .error e := by
  unfold readAccount
  rw [loadAccount_of_error hs h]

theorem readAccount_of_ok (hs : w.Sound) {a : Address} {x : Option Account}
    (h : w.base.account a = .ok x) :
    ∃ w', w.readAccount a = .ok (w.values.account a, w') ∧
      w.Accessed (.account a) w.values [] w' := by
  have hput := accessed_putAccount (u := ⟨x, w.values.account a⟩) hs h
    (fun entry he => absurd he List.not_mem_nil) .read
  rw [Snapshot.setAccount_eq_self] at hput
  refine ⟨_, ?_, hput⟩
  unfold readAccount
  rw [loadAccount_of_ok hs h]
  rfl

theorem readSlot_of_error (hs : w.Sound) {k : StorageKey} {e : StateError}
    (h : w.base.storage k = .error e) : w.readSlot k = .error e := by
  unfold readSlot
  rw [loadSlot_of_error hs h]

theorem readSlot_of_ok (hs : w.Sound) {k : StorageKey} {x : Word}
    (h : w.base.storage k = .ok x) :
    ∃ w', w.readSlot k = .ok (w.values.slot k, w') ∧ w.Accessed (.slot k) w.values [] w' := by
  have hput := accessed_putSlot (u := ⟨x, w.values.slot k⟩) hs h
    (fun entry he => absurd he List.not_mem_nil) .read
  rw [Snapshot.setSlot_eq_self] at hput
  refine ⟨_, ?_, hput⟩
  unfold readSlot
  rw [loadSlot_of_ok hs h]
  rfl

/-! ## Writes -/

theorem writeAccount_of_error (hs : w.Sound) {a : Address} {e : StateError}
    (h : w.base.account a = .error e) (f : Option Account → Option Account) :
    w.writeAccount a f = .error e := by
  unfold writeAccount
  rw [loadAccount_of_error hs h]

theorem writeAccount_of_ok (hs : w.Sound) {a : Address} {x : Option Account}
    (h : w.base.account a = .ok x) (f : Option Account → Option Account) :
    ∃ w', w.writeAccount a f = .ok w' ∧
      w.Accessed (.account a) (w.values.setAccount a (f (w.values.account a)))
        [.account a (w.values.account a)] w' := by
  have hcell : ∀ entry ∈ [JournalEntry.account a (w.values.account a)],
      entry.cell = .account a := by
    intro entry he
    rw [List.mem_singleton.mp he]
    rfl
  have hput := accessed_putAccount (u := ⟨x, f (w.values.account a)⟩) hs h hcell .write
  refine ⟨_, ?_, hput⟩
  unfold writeAccount
  rw [loadAccount_of_ok hs h]
  simp only [putAccount, Table.insert_insert]
  rfl

theorem writeSlot_of_error (hs : w.Sound) {k : StorageKey} {e : StateError}
    (h : w.base.storage k = .error e) (value : Word) : w.writeSlot k value = .error e := by
  unfold writeSlot
  rw [loadSlot_of_error hs h]

theorem writeSlot_of_ok (hs : w.Sound) {k : StorageKey} {x : Word}
    (h : w.base.storage k = .ok x) (value : Word) :
    ∃ w', w.writeSlot k value = .ok w' ∧
      w.Accessed (.slot k) (w.values.setSlot k value) [.slot k (w.values.slot k)] w' := by
  have hcell : ∀ entry ∈ [JournalEntry.slot k (w.values.slot k)], entry.cell = .slot k := by
    intro entry he
    rw [List.mem_singleton.mp he]
    rfl
  have hput := accessed_putSlot (u := ⟨x, value⟩) hs h hcell .write
  refine ⟨_, ?_, hput⟩
  unfold writeSlot
  rw [loadSlot_of_ok hs h]
  simp only [putSlot, Table.insert_insert]
  rfl

end BlockExecution.Accumulator
