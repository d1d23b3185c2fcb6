/-
  The sum of the slots of an account.

  Like the supply, it is a plain sum over all slots for a snapshot and a sum over
  the entries for a world state.
-/
import BlockExecution.Proofs.State.Supply

namespace BlockExecution

namespace Snapshot

variable {u v : Snapshot} {a : Address}

/-- All words. -/
noncomputable def allWords : Finset Word :=
  @Finset.univ Word (Fintype.ofEquiv (Fin (2 ^ 256)) BitVec.equivFin.symm.toEquiv)

theorem mem_allWords (x : Word) : x ∈ allWords :=
  @Finset.mem_univ Word (Fintype.ofEquiv (Fin (2 ^ 256)) BitVec.equivFin.symm.toEquiv) x

/-- The sum of the slots of an account. -/
noncomputable def slotTotal (u : Snapshot) (a : Address) : Nat :=
  ∑ slot ∈ allWords, (u.slot ⟨a, slot⟩).toNat

theorem slot_le_slotTotal (u : Snapshot) (a : Address) (slot : Word) :
    (u.slot ⟨a, slot⟩).toNat ≤ u.slotTotal a :=
  Finset.single_le_sum (f := fun slot => (u.slot ⟨a, slot⟩).toNat) (fun _ _ => Nat.zero_le _)
    (mem_allWords slot)

theorem slotTotal_congr (h : ∀ slot, v.slot ⟨a, slot⟩ = u.slot ⟨a, slot⟩) :
    v.slotTotal a = u.slotTotal a :=
  Finset.sum_congr rfl fun slot _ => by rw [h slot]

/-- Writing a slot changes the sum by the difference of its values. -/
theorem slotTotal_setSlot (u : Snapshot) (a : Address) (slot x : Word) :
    (u.setSlot ⟨a, slot⟩ x).slotTotal a + (u.slot ⟨a, slot⟩).toNat =
      u.slotTotal a + x.toNat := by
  have hsum := sum_add_of_eq_off (f := fun l => ((u.setSlot ⟨a, slot⟩ x).slot ⟨a, l⟩).toNat)
    (g := fun l => (u.slot ⟨a, l⟩).toNat) (mem_allWords slot) fun l hl => by
      have hne : (⟨a, l⟩ : StorageKey) ≠ ⟨a, slot⟩ := fun heq => hl (StorageKey.mk.inj heq).2
      rw [slot_setSlot_of_ne hne]
  simp only [slot_setSlot_self] at hsum
  exact hsum

/-- Adding one to a slot adds one to a sum that is not at its end. -/
theorem slotTotal_setSlot_succ (h : u.slotTotal a < 2 ^ 256 - 1) (slot : Word) :
    (u.setSlot ⟨a, slot⟩ (u.slot ⟨a, slot⟩ + 1)).slotTotal a = u.slotTotal a + 1 := by
  have hsum := slotTotal_setSlot u a slot (u.slot ⟨a, slot⟩ + 1)
  have hle := slot_le_slotTotal u a slot
  have hone : (1 : Word).toNat = 1 := rfl
  have hsucc : (u.slot ⟨a, slot⟩ + 1).toNat = (u.slot ⟨a, slot⟩).toNat + 1 := by
    rw [BitVec.toNat_add_of_lt] <;> omega
  omega

end Snapshot

/-- The sum of the slots of an account. -/
def WorldState.slotTotal (s : WorldState) (a : Address) : Nat :=
  ((s.storage.toList.filter fun entry => entry.1.address == a).map fun entry =>
    entry.2.toNat).sum

/-- The sum for a state is that of its values. -/
theorem WorldState.slotTotal_eq (s : WorldState) {u : Snapshot} {a : Address}
    (h : ∀ slot, s.storageValue ⟨a, slot⟩ = u.slot ⟨a, slot⟩) :
    s.slotTotal a = u.slotTotal a := by
  let keys : Finset StorageKey := Snapshot.allWords.map
    ⟨fun slot => ⟨a, slot⟩, fun _ _ heq => (StorageKey.mk.inj heq).2⟩
  let f : StorageKey → Word → Nat := fun k x => if k.address == a then x.toNat else 0
  -- Leaving the entries of other addresses out is counting them as nothing.
  have hfilter : s.slotTotal a = (s.storage.toList.map fun entry => f entry.1 entry.2).sum := by
    rw [slotTotal]
    induction s.storage.toList with
    | nil => rfl
    | cons entry rest ih =>
      rw [List.map_cons, List.sum_cons, ← ih, List.filter_cons]
      cases hcase : entry.1.address == a with
      | true => simp only [f, hcase, if_true, List.map_cons, List.sum_cons]
      | false => simp only [f, hcase, Bool.false_eq_true, if_false, Nat.zero_add]
  rw [hfilter, Table.sum_toList s.storage f keys, Finset.sum_map]
  · apply Finset.sum_congr rfl
    intro slot _
    show (s.storage[(⟨a, slot⟩ : StorageKey)]?.map (f ⟨a, slot⟩)).getD 0 = _
    rw [← h, storageValue, Std.ExtTreeMap.getD_eq_getD_getElem?]
    cases s.storage[(⟨a, slot⟩ : StorageKey)]? with
    | none => rfl
    | some x => simp [f]
  · intro k x _ hnot
    by_contra hne
    have haddress : k.address = a := by
      by_contra hother
      exact hne (if_neg (by simpa using hother))
    refine hnot (Finset.mem_map.mpr ⟨k.slot, Snapshot.mem_allWords _, ?_⟩)
    rw [← haddress]
    rfl

end BlockExecution
