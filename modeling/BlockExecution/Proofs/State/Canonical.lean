/-
  Canonical storage.

  A state has no entry for a slot that is zero, however it came about. The slots
  of a state can be kept under their addresses instead, an address being dropped
  with its last slot; this gives the same slots after every step, and never an
  address without one. So states that answer alike are kept alike.
-/
import BlockExecution.Proofs.State.NetChange

namespace BlockExecution

open BlockExecution.StateChanges (slotIn)

/-! ## How a state comes about -/

/-- What a state is built by. -/
inductive StateStep where
  | insertAccount (address : Address) (account : Account)
  | setStorage (key : StorageKey) (value : Word)
  | apply (changes : StateChanges)

namespace WorldState

/-- Performs a step. -/
def perform (s : WorldState) : StateStep → WorldState
  | .insertAccount address account => s.insertAccount address account
  | .setStorage key value => s.setStorage key value
  | .apply changes => s.apply changes

/-- The state that steps build, first one first. -/
def built (steps : List StateStep) : WorldState := steps.foldl perform ∅

theorem getElem?_storage_setStorage (s : WorldState) (k l : StorageKey) (value : Word) :
    (s.setStorage k value).storage[l]? =
      if k = l then (if value = 0 then none else some value) else s.storage[l]? := by
  show (if value == 0 then s.storage.erase k else s.storage.insert k value)[l]? = _
  by_cases hzero : value = 0
  · rw [if_pos (beq_iff_eq.mpr hzero), if_pos hzero, Table.getElem?_erase_eq]
  · rw [if_neg fun h => hzero (beq_iff_eq.mp h), if_neg hzero, Table.getElem?_insert_eq]

theorem getElem?_storage_applyAccount (s : WorldState) (a : Address) (x : Option Account)
    (k : StorageKey) :
    (s.applyAccount a x).storage[k]? =
      if a = k.address ∧ x = none then none else s.storage[k]? := by
  cases x with
  | some x => simp [applyAccount, insertAccount]
  | none =>
    show (Table.dropKeys (fun key : StorageKey => key.address == a) s.storage)[k]? = _
    rw [Table.getElem?_dropKeys]
    simp only [beq_iff_eq, and_true, eq_comm (a := a)]

end WorldState

/-! ## Slots under their addresses -/

/-- The slots of every address that has one. -/
abbrev SlotMaps := Table Address (Table Word Word)

namespace SlotMaps

variable {m m' : SlotMaps} {a : Address} {k : StorageKey}

/-- Gives a slot its value. A slot that becomes zero is dropped, and its address with the last. -/
def setSlot (m : SlotMaps) (k : StorageKey) (value : Word) : SlotMaps :=
  let slots := m.getD k.address ∅
  if value = 0 then
    let rest := slots.erase k.slot
    if rest.isEmpty then m.erase k.address else m.insert k.address rest
  else m.insert k.address (slots.insert k.slot value)

/-- Drops the slots of deleted accounts and gives all others their values. -/
def apply (m : SlotMaps) (c : StateChanges) : SlotMaps :=
  c.storage.foldl (fun m key value => if c.deletes key.address then m else m.setSlot key value)
    (c.accounts.foldl (fun m address account => if account = none then m.erase address else m) m)

/-- Performs a step. -/
def perform (m : SlotMaps) : StateStep → SlotMaps
  | .insertAccount _ _ => m
  | .setStorage key value => m.setSlot key value
  | .apply changes => m.apply changes

/-- The slots under their addresses that steps lead to, first one first. -/
def built (steps : List StateStep) : SlotMaps := steps.foldl perform ∅

/-- No address without a slot, and no slot that is zero. -/
structure Canonical (m : SlotMaps) : Prop where
  nonempty : ∀ a : Address, m[a]? ≠ some ∅
  nonzero : ∀ k, slotIn m k ≠ some 0

theorem slotIn_erase (m : SlotMaps) (a : Address) (k : StorageKey) :
    slotIn (m.erase a) k = if a = k.address then none else slotIn m k := by
  simp only [slotIn, Table.getElem?_erase_eq]
  split <;> rfl

/-- The slots of an address that has none are those of the empty map. -/
theorem slotIn_eq (m : SlotMaps) (k : StorageKey) :
    slotIn m k = (m.getD k.address ∅)[k.slot]? := by
  rw [slotIn, Std.ExtTreeMap.getD_eq_getD_getElem?]
  cases m[k.address]? with
  | none => simp
  | some slots => rfl

theorem slotIn_insert (m : SlotMaps) (a : Address) (slots : Table Word Word) (k : StorageKey) :
    slotIn (m.insert a slots) k = if a = k.address then slots[k.slot]? else slotIn m k := by
  simp only [slotIn, Table.getElem?_insert_eq]
  split <;> rfl

/-- Giving a slot a value is seen at this slot only. -/
theorem slotIn_setSlot (m : SlotMaps) (k l : StorageKey) (value : Word) :
    slotIn (m.setSlot k value) l =
      if k = l then (if value = 0 then none else some value) else slotIn m l := by
  have hkey : k = l ↔ k.address = l.address ∧ k.slot = l.slot := by
    cases k
    cases l
    exact StorageKey.mk.injEq .. ▸ Iff.rfl
  -- Dropping an address without slots is the same as giving it the empty map.
  have hdrop : ∀ slots : Table Word Word,
      slotIn (if slots.isEmpty then m.erase k.address else m.insert k.address slots) l =
        if k.address = l.address then slots[l.slot]? else slotIn m l := by
    intro slots
    split
    · rename_i hempty
      rw [slotIn_erase, Std.ExtTreeMap.isEmpty_iff.mp hempty, Std.ExtTreeMap.getElem?_empty]
    · exact slotIn_insert m k.address slots l
  have hfound : slotIn (m.setSlot k value) l =
      if k.address = l.address then
        if value = 0 then ((m.getD k.address ∅).erase k.slot)[l.slot]?
        else ((m.getD k.address ∅).insert k.slot value)[l.slot]?
      else slotIn m l := by
    unfold setSlot
    by_cases hzero : value = 0
    · simp only [hzero, if_true, hdrop]
    · simp only [hzero, if_false, slotIn_insert]
  rw [hfound]
  by_cases haddress : k.address = l.address
  · simp only [Table.getElem?_erase_eq, Table.getElem?_insert_eq, hkey, haddress, true_and, if_true,
      slotIn_eq m l]
    split_ifs <;> rfl
  · have hne : ¬ k = l := fun h => haddress (hkey.mp h).1
    rw [if_neg haddress, if_neg hne]

theorem Canonical.erase (h : m.Canonical) (a : Address) : Canonical (m.erase a) where
  nonempty b := by
    rw [Table.getElem?_erase_eq]
    split
    · exact fun hnone => by cases hnone
    · exact h.nonempty b
  nonzero k := by
    rw [slotIn_erase]
    split
    · exact fun hnone => by cases hnone
    · exact h.nonzero k

theorem Canonical.setSlot (h : m.Canonical) (k : StorageKey) (value : Word) :
    (m.setSlot k value).Canonical where
  nonempty a := by
    unfold SlotMaps.setSlot
    by_cases hzero : value = 0
    · simp only [hzero, if_true]
      split
      · exact (h.erase k.address).nonempty a
      · rename_i hleft
        rw [Table.getElem?_insert_eq]
        split
        · intro hempty
          rw [Option.some.inj hempty] at hleft
          exact hleft Std.ExtTreeMap.isEmpty_empty
        · exact h.nonempty a
    · simp only [hzero, if_false]
      rw [Table.getElem?_insert_eq]
      split
      · -- The slot itself is there.
        intro hempty
        have hslot : (∅ : Table Word Word)[k.slot]? = some value := by
          rw [← Option.some.inj hempty, Table.getElem?_insert_eq, if_pos rfl]
        rw [Std.ExtTreeMap.getElem?_empty] at hslot
        cases hslot
      · exact h.nonempty a
  nonzero l := by
    rw [slotIn_setSlot]
    split
    · split
      · exact fun hnone => by cases hnone
      · rename_i hvalue
        exact fun hsome => hvalue (Option.some.inj hsome)
    · exact h.nonzero l

/-- Slots kept canonically are told by what is found. -/
theorem Canonical.ext (h : m.Canonical) (h' : m'.Canonical)
    (hslots : ∀ k, slotIn m k = slotIn m' k) : m = m' := by
  -- An address that is listed has a slot, so the other one lists it too.
  have hlisted : ∀ {m m' : SlotMaps}, m.Canonical → (∀ k, slotIn m k = slotIn m' k) →
      ∀ a ∈ m, a ∈ m' := by
    intro m m' h hslots a ha
    obtain ⟨slots, hfound⟩ := (Table.mem_iff_exists m a).mp ha
    by_contra hnot
    have hempty : slots = ∅ := by
      apply Std.ExtTreeMap.ext_getElem?
      intro slot
      have hnone := hslots ⟨a, slot⟩
      simp only [slotIn, hfound, Std.ExtTreeMap.getElem?_eq_none hnot, Option.bind_some,
        Option.bind_none] at hnone
      rw [hnone, Std.ExtTreeMap.getElem?_empty]
    exact h.nonempty a (hempty ▸ hfound)
  refine Table.eq_of_mem_iff
    (fun a => ⟨hlisted h hslots a, hlisted h' (fun k => (hslots k).symm) a⟩) ?_
  intro a slots slots' hfound hfound'
  apply Std.ExtTreeMap.ext_getElem?
  intro slot
  have hsame := hslots ⟨a, slot⟩
  simpa only [slotIn, hfound, hfound', Option.bind_some] using hsame

/-! ## The slots of a state -/

/-- The slots of a state, under their addresses. -/
structure Mirrors (m : SlotMaps) (s : WorldState) : Prop where
  canonical : m.Canonical
  slots : ∀ k, slotIn m k = s.storage[k]?

theorem mirrors_empty : Mirrors ∅ ∅ where
  canonical := ⟨fun a => by simp, fun k => by simp [slotIn]⟩
  slots k := by
    show slotIn ∅ k = (∅ : Table StorageKey Word)[k]?
    simp [slotIn]

variable {s : WorldState}

theorem Mirrors.setStorage (h : m.Mirrors s) (k : StorageKey) (value : Word) :
    (m.setSlot k value).Mirrors (s.setStorage k value) where
  canonical := h.canonical.setSlot k value
  slots l := by rw [slotIn_setSlot, WorldState.getElem?_storage_setStorage, h.slots]

theorem Mirrors.applyAccount (h : m.Mirrors s) (a : Address) (x : Option Account) :
    Mirrors (if x = none then m.erase a else m) (s.applyAccount a x) where
  canonical := by
    split
    · exact h.canonical.erase a
    · exact h.canonical
  slots k := by
    rw [WorldState.getElem?_storage_applyAccount]
    by_cases hx : x = none
    · simp only [hx, if_true, and_true, slotIn_erase, h.slots]
    · simp only [hx, if_false, and_false, h.slots]

theorem Mirrors.apply (h : m.Mirrors s) (c : StateChanges) : (m.apply c).Mirrors (s.apply c) := by
  unfold SlotMaps.apply WorldState.apply
  simp only [Std.ExtTreeMap.foldl_eq_foldl_toList]
  refine List.foldl_rel ?_ ?_
  · exact List.foldl_rel h fun e _ m s hms => hms.applyAccount e.1 e.2
  · intro e _ m s hms
    split
    · exact hms
    · exact hms.setStorage e.1 e.2

theorem Mirrors.perform (h : m.Mirrors s) (step : StateStep) :
    (m.perform step).Mirrors (s.perform step) := by
  cases step with
  | insertAccount a x => exact ⟨h.canonical, h.slots⟩
  | setStorage k value => exact h.setStorage k value
  | apply c => exact h.apply c

/-- Built by the same steps, slots under their addresses are those of the state. -/
theorem mirrors_built (steps : List StateStep) : (built steps).Mirrors (.built steps) :=
  List.foldl_rel mirrors_empty fun step _ _ _ h => h.perform step

end SlotMaps

/-! ## States that answer alike -/

namespace WorldState

variable {s s' : WorldState}

/-- No slot that is zero has an entry. -/
def HoldsNoZero (s : WorldState) : Prop := ∀ k : StorageKey, s.storage[k]? ≠ some 0

theorem holdsNoZero_built (steps : List StateStep) : (built steps).HoldsNoZero := by
  intro k
  rw [← (SlotMaps.mirrors_built steps).slots k]
  exact (SlotMaps.mirrors_built steps).canonical.nonzero k

theorem HoldsNoZero.getElem?_storage (h : s.HoldsNoZero) (k : StorageKey) :
    s.storage[k]? = if s.storageValue k = 0 then none else some (s.storageValue k) := by
  rw [storageValue, Std.ExtTreeMap.getD_eq_getD_getElem?]
  cases hk : s.storage[k]? with
  | none => simp
  | some value =>
    have hvalue : value ≠ 0 := by
      rintro rfl
      exact h k hk
    exact (if_neg hvalue).symm

/-- States without zeros are told by their answers. -/
theorem HoldsNoZero.ext (h : s.HoldsNoZero) (h' : s'.HoldsNoZero)
    (haccounts : ∀ a, s.account? a = s'.account? a)
    (hslots : ∀ k, s.storageValue k = s'.storageValue k) :
    s.accounts = s'.accounts ∧ s.storage = s'.storage := by
  refine ⟨Std.ExtTreeMap.ext_getElem? haccounts, Std.ExtTreeMap.ext_getElem? ?_⟩
  intro k
  rw [h.getElem?_storage, h'.getElem?_storage, hslots]

end WorldState

end BlockExecution
