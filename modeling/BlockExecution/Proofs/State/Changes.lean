/-
  Net changes, and the state after them.

  The changes of an accumulator are a function of its values, and applied to the
  state that it stands on they give these values. Slots are the exception: those
  of a deleted account go with it.
-/
import BlockExecution.Proofs.State.Import

namespace BlockExecution

open BlockExecution.Snapshot

/-! ## Folds over tables -/

namespace Table

variable {K V σ β : Type} [Ord K] [Std.TransOrd K] [Std.LawfulEqOrd K]

omit [Std.TransOrd K] in
private theorem foldl_observed_list (f : σ → K × V → σ) (observe : σ → β) (k : K)
    (h : V → β → β) (hother : ∀ s e, e.1 ≠ k → observe (f s e) = observe s)
    (hkey : ∀ s v, observe (f s (k, v)) = h v (observe s)) (entries : List (K × V)) (s : σ)
    (distinct : entries.Pairwise fun a b => ¬ compare a.1 b.1 = .eq) :
    (∀ v, (k, v) ∈ entries → observe (entries.foldl f s) = h v (observe s)) ∧
      ((∀ v, (k, v) ∉ entries) → observe (entries.foldl f s) = observe s) := by
  -- Induction on the entries. The key occurs once, so what comes after its entry is without effect.
  induction entries generalizing s with
  | nil => exact ⟨fun v hv => absurd hv List.not_mem_nil, fun _ => rfl⟩
  | cons e rest ih =>
    rw [List.pairwise_cons] at distinct
    obtain ⟨hhead, htail⟩ := distinct
    obtain ⟨ihmem, ihnot⟩ := ih (f s e) htail
    rw [List.foldl_cons]
    constructor
    · intro v hv
      rcases List.mem_cons.mp hv with rfl | hrest
      · have hgone : ∀ u, (k, u) ∉ rest := fun u hu =>
          hhead (k, u) hu Std.ReflOrd.compare_self
        rw [ihnot hgone, hkey]
      · have hne : e.1 ≠ k := by
          intro heq
          refine hhead (k, v) hrest ?_
          rw [heq]
          exact Std.ReflOrd.compare_self
        rw [ihmem v hrest, hother s e hne]
    · intro hnot
      have hne : e.1 ≠ k := by
        rintro rfl
        exact hnot e.2 List.mem_cons_self
      rw [ihnot fun v hv => hnot v (List.mem_cons_of_mem _ hv), hother s e hne]

/-- What a fold does to something that only the entry under one key bears on. -/
theorem foldl_observed (f : σ → K → V → σ) (observe : σ → β) (k : K) (h : V → β → β)
    (hother : ∀ s b v, b ≠ k → observe (f s b v) = observe s)
    (hkey : ∀ s v, observe (f s k v) = h v (observe s)) (t : Table K V) (s : σ) :
    observe (t.foldl f s) = (t[k]?).elim (observe s) fun v => h v (observe s) := by
  rw [Std.ExtTreeMap.foldl_eq_foldl_toList]
  obtain ⟨hmem, hnot⟩ := foldl_observed_list (fun s e => f s e.1 e.2) observe k h
    (fun s e => hother s e.1 e.2) hkey t.toList s Std.ExtTreeMap.distinct_keys_toList
  cases hk : t[k]? with
  | some v => exact hmem v (Std.ExtTreeMap.mem_toList_iff_getElem?_eq_some.mpr hk)
  | none =>
    apply hnot
    intro v hv
    rw [Std.ExtTreeMap.mem_toList_iff_getElem?_eq_some.mp hv] at hk
    cases hk

end Table

/-! ## Applying changes to a state -/

namespace WorldState

theorem account?_insertAccount (s : WorldState) (a b : Address) (x : Account) :
    (s.insertAccount a x).account? b = if a = b then some x else s.account? b :=
  Table.getElem?_insert_eq s.accounts a b x

theorem account?_removeAccount (s : WorldState) (a b : Address) :
    (s.removeAccount a).account? b = if a = b then none else s.account? b :=
  Table.getElem?_erase_eq s.accounts a b

theorem account?_applyAccount (s : WorldState) (a b : Address) (x : Option Account) :
    (s.applyAccount a x).account? b = if a = b then x else s.account? b := by
  cases x with
  | none => exact account?_removeAccount s a b
  | some x => exact account?_insertAccount s a b x

theorem storageValue_applyAccount (s : WorldState) (a : Address) (x : Option Account)
    (k : StorageKey) :
    (s.applyAccount a x).storageValue k =
      if a = k.address ∧ x = none then 0 else s.storageValue k := by
  cases x with
  | some x =>
    have hsome : ¬ (a = k.address ∧ some x = none) := fun h => by cases h.2
    rw [if_neg hsome]
    rfl
  | none =>
    show (Table.dropKeys (fun key : StorageKey => key.address == a) s.storage).getD k 0 = _
    rw [Std.ExtTreeMap.getD_eq_getD_getElem?, Table.getElem?_dropKeys]
    by_cases h : a = k.address
    · have hdrop : (k.address == a) = true := beq_iff_eq.mpr h.symm
      rw [if_pos hdrop, if_pos ⟨h, rfl⟩]
      rfl
    · have hkeep : ¬ (k.address == a) = true := fun heq => h (beq_iff_eq.mp heq).symm
      simp only [hkeep, h, false_and, if_false]
      exact Std.ExtTreeMap.getD_eq_getD_getElem?.symm

theorem storageValue_setStorage (s : WorldState) (k l : StorageKey) (value : Word) :
    (s.setStorage k value).storageValue l = if k = l then value else s.storageValue l := by
  show (if value == 0 then s.storage.erase k else s.storage.insert k value).getD l 0 = _
  by_cases hzero : value = 0
  · rw [if_pos (beq_iff_eq.mpr hzero), Std.ExtTreeMap.getD_eq_getD_getElem?,
      Table.getElem?_erase_eq]
    by_cases h : k = l
    · rw [if_pos h, if_pos h, hzero]
      rfl
    · rw [if_neg h, if_neg h, ← Std.ExtTreeMap.getD_eq_getD_getElem?]
      rfl
  · rw [if_neg fun heq => hzero (beq_iff_eq.mp heq), Std.ExtTreeMap.getD_eq_getD_getElem?,
      Table.getElem?_insert_eq]
    by_cases h : k = l
    · rw [if_pos h, if_pos h]
      rfl
    · rw [if_neg h, if_neg h, ← Std.ExtTreeMap.getD_eq_getD_getElem?]
      rfl

/-- An account after changes. -/
theorem account?_apply (s : WorldState) (c : StateChanges) (a : Address) :
    (s.apply c).account? a = (c.accounts[a]?).getD (s.account? a) := by
  -- Slots are written after accounts and change none.
  have hslots : ∀ s' : WorldState, (c.storage.foldl
      (fun s key value => if c.deletes key.address then s else s.setStorage key value)
      s').account? a = s'.account? a := by
    intro s'
    rw [Std.ExtTreeMap.foldl_eq_foldl_toList]
    induction c.storage.toList generalizing s' with
    | nil => rfl
    | cons e rest ih =>
      rw [List.foldl_cons, ih]
      split <;> rfl
  have haccounts := Table.foldl_observed
    (fun (s : WorldState) address account => s.applyAccount address account)
    (·.account? a) a (fun x _ => x)
    (fun s b x hb => by rw [account?_applyAccount, if_neg hb])
    (fun s x => by rw [account?_applyAccount, if_pos rfl]) c.accounts s
  rw [apply, hslots, haccounts]
  cases c.accounts[a]? <;> rfl

/-- A slot after changes. -/
theorem storageValue_apply (s : WorldState) (c : StateChanges) (k : StorageKey) :
    (s.apply c).storageValue k =
      if c.accounts[k.address]? = some none then 0
      else (c.storage[k]?).getD (s.storageValue k) := by
  -- Of the accounts only the one at its address can change the slot, and then its own entry.
  have haccounts := Table.foldl_observed
    (fun (s : WorldState) address account => s.applyAccount address account)
    (·.storageValue k) k.address (fun x old => if x = none then 0 else old)
    (fun s b x hb => by rw [storageValue_applyAccount, if_neg fun h => hb h.1])
    (fun s x => by simp only [storageValue_applyAccount, true_and]) c.accounts s
  have hslots := Table.foldl_observed
    (fun s key value => if c.deletes key.address then s else s.setStorage key value)
    (·.storageValue k) k (fun value old => if c.deletes k.address then old else value)
    (fun s l value hl => by
      split
      · rfl
      · rw [storageValue_setStorage, if_neg hl])
    (fun s value => by
      split
      · rfl
      · rw [storageValue_setStorage, if_pos rfl])
    c.storage (c.accounts.foldl (fun s address account => s.applyAccount address account) s)
  have hdeletes : c.deletes k.address = true ↔ c.accounts[k.address]? = some none := beq_iff_eq
  rw [apply, hslots, haccounts]
  by_cases hdeleted : c.accounts[k.address]? = some none
  · simp only [hdeletes.mpr hdeleted, hdeleted, if_true, Option.elim_some]
    cases c.storage[k]? <;> rfl
  · have hkept : ¬ c.deletes k.address = true := fun h => hdeleted (hdeletes.mp h)
    have hold : (c.accounts[k.address]?).elim (s.storageValue k)
        (fun x => if x = none then 0 else s.storageValue k) = s.storageValue k := by
      cases hx : c.accounts[k.address]? with
      | none => rfl
      | some x =>
        have hx' : x ≠ none := fun h => hdeleted (by rw [hx, h])
        exact if_neg hx'
    simp only [if_neg hdeleted, if_neg hkept, hold]
    cases c.storage[k]? <;> rfl

end WorldState

/-! ## Changes of an accumulator -/

namespace Accumulator

variable {w w' : Accumulator}

theorem getElem?_accounts_changes (hs : w.Sound) (a : Address) :
    w.changes.accounts[a]? =
      if w.values.account a = w.base.values.account a then none else some (w.values.account a) := by
  show (w.accounts.filterMap fun _ u => if u.isModified then some u.updated else none)[a]? = _
  rw [Std.ExtTreeMap.getElem?_filterMap']
  cases hu : w.accounts[a]? with
  | none =>
    rw [if_pos (account_values_of_none hu)]
    rfl
  | some u =>
    have hmodified := isModified_account_iff hs hu
    show (if u.isModified = true then some u.updated else none) = _
    rw [← account_values_of_entry hu]
    by_cases h : w.values.account a = w.base.values.account a
    · rw [if_pos h, if_neg fun hm => hmodified.mp hm h]
    · rw [if_neg h, if_pos (hmodified.mpr h)]

theorem getElem?_storage_changes (hs : w.Sound) (k : StorageKey) :
    w.changes.storage[k]? =
      if w.values.slot k = w.base.values.slot k then none else some (w.values.slot k) := by
  show (w.slots.filterMap fun _ u => if u.isModified then some u.updated else none)[k]? = _
  rw [Std.ExtTreeMap.getElem?_filterMap']
  cases hu : w.slots[k]? with
  | none =>
    rw [if_pos (slot_values_of_none hu)]
    rfl
  | some u =>
    have hmodified := isModified_slot_iff hs hu
    show (if u.isModified = true then some u.updated else none) = _
    rw [← slot_values_of_entry hu]
    by_cases h : w.values.slot k = w.base.values.slot k
    · rw [if_pos h, if_neg fun hm => hmodified.mp hm h]
    · rw [if_neg h, if_pos (hmodified.mpr h)]

/-- Values that were compared with the same old one are equal if what is told of them is. -/
theorem netChange_inj {β : Type} [DecidableEq β] {old x y : β} :
    ((if x = old then none else some x) = if y = old then none else some y) ↔ x = y := by
  constructor
  · intro h
    split_ifs at h with hx hy
    · exact hx.trans hy.symm
    · exact Option.some.inj h
  · rintro rfl
    rfl

/-- Accumulators over one view have the same net changes exactly when they have the same
values. -/
theorem changes_eq_iff (hs : w.Sound) (hs' : w'.Sound) (hbase : w.base = w'.base) :
    w.changes = w'.changes ↔ w.values = w'.values := by
  -- Over one view the net change of a cell tells its value.
  have haccounts : ∀ a, w.changes.accounts[a]? = w'.changes.accounts[a]? ↔
      w.values.account a = w'.values.account a := by
    intro a
    rw [getElem?_accounts_changes hs, getElem?_accounts_changes hs', hbase]
    exact netChange_inj
  have hslots : ∀ k, w.changes.storage[k]? = w'.changes.storage[k]? ↔
      w.values.slot k = w'.values.slot k := by
    intro k
    rw [getElem?_storage_changes hs, getElem?_storage_changes hs', hbase]
    exact netChange_inj
  constructor
  · intro h
    ext1
    · funext a
      exact (haccounts a).mp (by rw [h])
    · funext k
      exact (hslots k).mp (by rw [h])
  · intro h
    have hsameAccounts : w.changes.accounts = w'.changes.accounts :=
      Std.ExtTreeMap.ext_getElem? fun a => (haccounts a).mpr (by rw [h])
    have hsameStorage : w.changes.storage = w'.changes.storage :=
      Std.ExtTreeMap.ext_getElem? fun k => (hslots k).mpr (by rw [h])
    show (⟨w.changes.accounts, w.changes.storage⟩ : StateChanges) = _
    rw [hsameAccounts, hsameStorage]

/-- The accounts of the state after the changes are those of the accumulator. -/
theorem account?_apply_changes {s : WorldState} (hs : w.Sound) (hbase : w.base = s.view)
    (a : Address) : (s.apply w.changes).account? a = w.values.account a := by
  rw [WorldState.account?_apply, getElem?_accounts_changes hs]
  split
  · rename_i h
    rw [h, hbase]
    rfl
  · rfl

/-- The slots of the state after the changes are those of the accumulator, unless their account
is gone. -/
theorem storageValue_apply_changes {s : WorldState} (hs : w.Sound) (hbase : w.base = s.view)
    {k : StorageKey} (h : w.values.account k.address = none → s.account? k.address = none) :
    (s.apply w.changes).storageValue k = w.values.slot k := by
  -- A deletion among the changes would be of an account that the state has.
  have hkept : ¬ w.changes.accounts[k.address]? = some none := by
    rw [getElem?_accounts_changes hs]
    split
    · exact fun hnone => by cases hnone
    · rename_i hne
      intro hnone
      have hgone := Option.some.inj hnone
      exact hne (by rw [hgone, hbase]; exact (h hgone).symm)
  rw [WorldState.storageValue_apply, if_neg hkept, getElem?_storage_changes hs]
  split
  · rename_i hslot
    rw [hslot, hbase]
    rfl
  · rfl

end Accumulator

end BlockExecution
