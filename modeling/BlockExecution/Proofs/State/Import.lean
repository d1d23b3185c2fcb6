/-
  Taking over entries, forgetting addresses and committing, in terms of values.

  Over one view, taking over the changes of a source gives each cell that the
  source changed its value there and leaves all others alone. Taking over what
  was only loaded changes no value. A cell is changed when its value is not that
  of the view, and a tracked accumulator has noted all of these.
-/
import BlockExecution.Proofs.State.Rollback

namespace BlockExecution

open BlockExecution.Snapshot

namespace Accumulator

variable {w source : Accumulator}

/-! ## Changed cells -/

/-- The cells whose value is not that of the view. -/
def changed (w : Accumulator) : Set Cell := {c | ¬ w.values.AgreeAt w.base.values c}

/-- Every changed cell was noted. -/
def Tracked (w : Accumulator) : Prop := w.changed ⊆ w.noted

theorem changed_ofView (base : WorldView) : (ofView base).changed = ∅ :=
  Set.eq_empty_of_forall_notMem fun c hc => hc (AgreeAt.refl _ c)

theorem tracked_ofView (base : WorldView) : (ofView base).Tracked := by
  unfold Tracked
  rw [changed_ofView]
  exact Set.empty_subset _

theorem agreeAt_base_of_not_changed {c : Cell} (h : c ∉ w.changed) :
    w.values.AgreeAt w.base.values c :=
  not_not.mp h

theorem Tracked.agreeAt_base (h : w.Tracked) {c : Cell} (hc : c ∉ w.noted) :
    w.values.AgreeAt w.base.values c :=
  agreeAt_base_of_not_changed fun hchanged => hc (h hchanged)

/-- Accesses keep an accumulator tracked: they note what they change. -/
theorem Extends.tracked {w' : Accumulator} (h : w.Extends w') (ht : w.Tracked) : w'.Tracked := by
  intro c hc
  by_contra hnoted
  apply hc
  -- What was not noted after the accesses was not noted before them.
  have hw : w.values.AgreeAt w.base.values c := ht.agreeAt_base fun hn => hnoted (h.noted hn)
  rw [h.base]
  exact (h.frame c hnoted).trans hw

theorem account_base_of_entry (hs : w.Sound) {a : Address} {u : AccountUpdate}
    (h : w.accounts[a]? = some u) : w.base.values.account a = u.prior :=
  WorldView.account_values (hs.account h)

theorem slot_base_of_entry (hs : w.Sound) {k : StorageKey} {u : SlotUpdate}
    (h : w.slots[k]? = some u) : w.base.values.slot k = u.prior :=
  WorldView.slot_values (hs.slot h)

theorem isModified_account_iff (hs : w.Sound) {a : Address} {u : AccountUpdate}
    (h : w.accounts[a]? = some u) : u.isModified = true ↔ .account a ∈ w.changed := by
  show (u.prior != u.updated) = true ↔ ¬ w.values.account a = w.base.values.account a
  rw [account_values_of_entry h, account_base_of_entry hs h, bne_iff_ne, ne_comm]

theorem isModified_slot_iff (hs : w.Sound) {k : StorageKey} {u : SlotUpdate}
    (h : w.slots[k]? = some u) : u.isModified = true ↔ .slot k ∈ w.changed := by
  show (u.prior != u.updated) = true ↔ ¬ w.values.slot k = w.base.values.slot k
  rw [slot_values_of_entry h, slot_base_of_entry hs h, bne_iff_ne, ne_comm]

theorem loaded_of_changed {c : Cell} (h : c ∈ w.changed) : c ∈ w.loaded := by
  by_contra hc
  exact h (agreeAt_base_of_not_loaded hc)

/-! ## Entries that keep the present value -/

variable {w' : Accumulator} {a : Address} {k : StorageKey}

theorem account_values_congr (hbase : w'.base = w.base)
    (hentry : w'.accounts[a]? = w.accounts[a]?) : w'.values.account a = w.values.account a := by
  simp only [values, hbase, hentry]

theorem slot_values_congr (hbase : w'.base = w.base) (hentry : w'.slots[k]? = w.slots[k]?) :
    w'.values.slot k = w.values.slot k := by
  simp only [values, hbase, hentry]

/-- The value is kept by the present entry, and where there is none, by one that is as the view has
it. -/
theorem account_values_of_own_entry {u : AccountUpdate}
    (hentry : w'.accounts[a]? = some (w.accounts[a]?.getD u))
    (hu : u.updated = w.base.values.account a) : w'.values.account a = w.values.account a := by
  rw [account_values_of_entry hentry]
  cases hown : w.accounts[a]? with
  | some own => rw [Option.getD_some, account_values_of_entry hown]
  | none => rw [Option.getD_none, account_values_of_none hown, hu]

theorem slot_values_of_own_entry {u : SlotUpdate}
    (hentry : w'.slots[k]? = some (w.slots[k]?.getD u))
    (hu : u.updated = w.base.values.slot k) : w'.values.slot k = w.values.slot k := by
  rw [slot_values_of_entry hentry]
  cases hown : w.slots[k]? with
  | some own => rw [Option.getD_some, slot_values_of_entry hown]
  | none => rw [Option.getD_none, slot_values_of_none hown, hu]

theorem Sound.account_own_entry (hw : w.Sound) {u : AccountUpdate}
    (hu : w.base.account a = .ok u.prior) :
    w.base.account a = .ok (w.accounts[a]?.getD u).prior := by
  cases hown : w.accounts[a]? with
  | some own => exact hw.account hown
  | none => exact hu

theorem Sound.slot_own_entry (hw : w.Sound) {u : SlotUpdate}
    (hu : w.base.storage k = .ok u.prior) :
    w.base.storage k = .ok (w.slots[k]?.getD u).prior := by
  cases hown : w.slots[k]? with
  | some own => exact hw.slot hown
  | none => exact hu

end Accumulator

/-! ## Taking over changes -/

theorem AccountUpdate.updated_overriddenBy_of_modified {v : AccountUpdate}
    (h : v.isModified = true) (own : Option AccountUpdate) :
    (overriddenBy own v).updated = v.updated := by
  cases own with
  | none => rfl
  | some u => simp only [overriddenBy, if_pos h]

theorem AccountUpdate.overriddenBy_of_unmodified {v : AccountUpdate}
    (h : ¬ v.isModified = true) (own : Option AccountUpdate) :
    overriddenBy own v = own.getD v := by
  cases own with
  | none => rfl
  | some u => simp only [overriddenBy, if_neg h, Option.getD_some]

theorem AccountUpdate.prior_overriddenBy (own : Option AccountUpdate) (v : AccountUpdate) :
    (overriddenBy own v).prior = (own.getD v).prior := by
  cases own with
  | none => rfl
  | some u => by_cases h : v.isModified = true <;> simp [overriddenBy, h]

theorem SlotUpdate.updated_overriddenBy_of_modified {v : SlotUpdate}
    (h : v.isModified = true) (own : Option SlotUpdate) :
    (overriddenBy own v).updated = v.updated := by
  cases own with
  | none => rfl
  | some u => simp only [overriddenBy, if_pos h]

theorem SlotUpdate.overriddenBy_of_unmodified {v : SlotUpdate}
    (h : ¬ v.isModified = true) (own : Option SlotUpdate) :
    overriddenBy own v = own.getD v := by
  cases own with
  | none => rfl
  | some u => simp only [overriddenBy, if_neg h, Option.getD_some]

theorem SlotUpdate.prior_overriddenBy (own : Option SlotUpdate) (v : SlotUpdate) :
    (overriddenBy own v).prior = (own.getD v).prior := by
  cases own with
  | none => rfl
  | some u => by_cases h : v.isModified = true <;> simp [overriddenBy, h]

namespace Accumulator

variable {w source : Accumulator}

theorem getElem?_accounts_importChanges (w source : Accumulator) (a : Address) :
    (w.importChanges source).accounts[a]? =
      match source.accounts[a]? with
      | some v => some (AccountUpdate.overriddenBy w.accounts[a]? v)
      | none => w.accounts[a]? := by
  apply (Table.getElem?_absorb AccountUpdate.overriddenBy w.accounts source.accounts a).trans
  cases source.accounts[a]? <;> rfl

theorem getElem?_slots_importChanges (w source : Accumulator) (k : StorageKey) :
    (w.importChanges source).slots[k]? =
      match source.slots[k]? with
      | some v => some (SlotUpdate.overriddenBy w.slots[k]? v)
      | none => w.slots[k]? := by
  apply (Table.getElem?_absorb SlotUpdate.overriddenBy w.slots source.slots k).trans
  cases source.slots[k]? <;> rfl

/-- A cell that the source changed gets the value it has there. -/
theorem values_importChanges_of_changed (hs : source.Sound) {c : Cell} (h : c ∈ source.changed) :
    (w.importChanges source).values.AgreeAt source.values c := by
  have hloaded := loaded_of_changed h
  cases c with
  | account a =>
    obtain ⟨v, hv⟩ := (Table.mem_iff_exists _ _).mp hloaded
    have hentry : (w.importChanges source).accounts[a]? =
        some (AccountUpdate.overriddenBy w.accounts[a]? v) := by
      rw [getElem?_accounts_importChanges, hv]
    show (w.importChanges source).values.account a = source.values.account a
    rw [account_values_of_entry hentry, account_values_of_entry hv]
    exact AccountUpdate.updated_overriddenBy_of_modified ((isModified_account_iff hs hv).mpr h) _
  | slot k =>
    obtain ⟨v, hv⟩ := (Table.mem_iff_exists _ _).mp hloaded
    have hentry : (w.importChanges source).slots[k]? =
        some (SlotUpdate.overriddenBy w.slots[k]? v) := by
      rw [getElem?_slots_importChanges, hv]
    show (w.importChanges source).values.slot k = source.values.slot k
    rw [slot_values_of_entry hentry, slot_values_of_entry hv]
    exact SlotUpdate.updated_overriddenBy_of_modified ((isModified_slot_iff hs hv).mpr h) _

/-- A cell that the source did not change keeps its value. -/
theorem values_importChanges_of_not_changed (hs : source.Sound) (hbase : source.base = w.base)
    {c : Cell} (h : c ∉ source.changed) :
    (w.importChanges source).values.AgreeAt w.values c := by
  cases c with
  | account a =>
    show (w.importChanges source).values.account a = w.values.account a
    have hentry := getElem?_accounts_importChanges w source a
    cases hv : source.accounts[a]? with
    | none =>
      simp only [hv] at hentry
      exact account_values_congr rfl hentry
    | some v =>
      -- Where this side has an entry too, it is kept; else the source's is as the view has it.
      have hunmodified : ¬ v.isModified = true := fun hm =>
        h ((isModified_account_iff hs hv).mp hm)
      have hview : v.updated = w.base.values.account a := by
        rw [← account_values_of_entry hv, ← hbase]
        exact agreeAt_base_of_not_changed h
      simp only [hv, AccountUpdate.overriddenBy_of_unmodified hunmodified] at hentry
      exact account_values_of_own_entry hentry hview
  | slot k =>
    show (w.importChanges source).values.slot k = w.values.slot k
    have hentry := getElem?_slots_importChanges w source k
    cases hv : source.slots[k]? with
    | none =>
      simp only [hv] at hentry
      exact slot_values_congr rfl hentry
    | some v =>
      have hunmodified : ¬ v.isModified = true := fun hm =>
        h ((isModified_slot_iff hs hv).mp hm)
      have hview : v.updated = w.base.values.slot k := by
        rw [← slot_values_of_entry hv, ← hbase]
        exact agreeAt_base_of_not_changed h
      simp only [hv, SlotUpdate.overriddenBy_of_unmodified hunmodified] at hentry
      exact slot_values_of_own_entry hentry hview

theorem loaded_importChanges (w source : Accumulator) :
    (w.importChanges source).loaded = w.loaded ∪ source.loaded := by
  ext c
  cases c with
  | account a => exact Table.mem_absorb_iff _ w.accounts source.accounts a
  | slot k => exact Table.mem_absorb_iff _ w.slots source.slots k

theorem noted_importChanges (w source : Accumulator) :
    (w.importChanges source).noted = w.noted ∪ source.loaded := by
  ext c
  cases c with
  | account a => exact Table.mem_absorb_iff _ w.tracker.accounts source.accounts a
  | slot k => exact Table.mem_absorb_iff _ w.tracker.slots source.slots k

theorem sound_importChanges (hw : w.Sound) (hs : source.Sound) (hbase : source.base = w.base) :
    (w.importChanges source).Sound where
  account {a u} h := by
    rw [getElem?_accounts_importChanges] at h
    show w.base.account a = .ok u.prior
    cases hv : source.accounts[a]? with
    | none =>
      rw [hv] at h
      exact hw.account h
    | some v =>
      rw [hv] at h
      rw [← Option.some.inj h, AccountUpdate.prior_overriddenBy]
      exact hw.account_own_entry (hbase ▸ hs.account hv)
  slot {k u} h := by
    rw [getElem?_slots_importChanges] at h
    show w.base.storage k = .ok u.prior
    cases hv : source.slots[k]? with
    | none =>
      rw [hv] at h
      exact hw.slot h
    | some v =>
      rw [hv] at h
      rw [← Option.some.inj h, SlotUpdate.prior_overriddenBy]
      exact hw.slot_own_entry (hbase ▸ hs.slot hv)
  journal entry he := by
    rw [loaded_importChanges]
    exact .inl (hw.journal entry he)

/-- Changed is what was changed on either side. -/
theorem changed_importChanges (hs : source.Sound) (hbase : source.base = w.base) :
    (w.importChanges source).changed = w.changed ∪ source.changed := by
  ext c
  by_cases hc : c ∈ source.changed
  · refine iff_of_true (fun hagree => hc ?_) (.inr hc)
    rw [hbase]
    exact (values_importChanges_of_changed hs hc).symm.trans hagree
  · have hkept := values_importChanges_of_not_changed hs hbase hc
    rw [Set.mem_union, or_iff_left hc]
    exact not_congr ⟨hkept.symm.trans, hkept.trans⟩

theorem tracked_importChanges (ht : w.Tracked) (hs : source.Sound)
    (hbase : source.base = w.base) : (w.importChanges source).Tracked := by
  unfold Tracked
  rw [changed_importChanges hs hbase, noted_importChanges]
  exact Set.union_subset_union ht fun c hc => loaded_of_changed hc

/-! ## Taking over what was loaded -/

theorem getElem?_accounts_importPrior (w source : Accumulator) (a : Address) :
    (w.importPrior source).accounts[a]? =
      match source.accounts[a]? with
      | some v => some (w.accounts[a]?.getD (.unchanged v.prior))
      | none => w.accounts[a]? := by
  apply (Table.getElem?_absorb _ w.accounts source.accounts a).trans
  cases source.accounts[a]? <;> rfl

theorem getElem?_slots_importPrior (w source : Accumulator) (k : StorageKey) :
    (w.importPrior source).slots[k]? =
      match source.slots[k]? with
      | some v => some (w.slots[k]?.getD (.unchanged v.prior))
      | none => w.slots[k]? := by
  apply (Table.getElem?_absorb _ w.slots source.slots k).trans
  cases source.slots[k]? <;> rfl

/-- No value changes. -/
theorem values_importPrior (hs : source.Sound) (hbase : source.base = w.base) :
    (w.importPrior source).values = w.values := by
  ext1
  · funext a
    have hentry := getElem?_accounts_importPrior w source a
    cases hv : source.accounts[a]? with
    | none =>
      simp only [hv] at hentry
      exact account_values_congr rfl hentry
    | some v =>
      simp only [hv] at hentry
      exact account_values_of_own_entry hentry (hbase ▸ (account_base_of_entry hs hv).symm)
  · funext k
    have hentry := getElem?_slots_importPrior w source k
    cases hv : source.slots[k]? with
    | none =>
      simp only [hv] at hentry
      exact slot_values_congr rfl hentry
    | some v =>
      simp only [hv] at hentry
      exact slot_values_of_own_entry hentry (hbase ▸ (slot_base_of_entry hs hv).symm)

theorem loaded_importPrior (w source : Accumulator) :
    (w.importPrior source).loaded = w.loaded ∪ source.loaded := by
  ext c
  cases c with
  | account a => exact Table.mem_absorb_iff _ w.accounts source.accounts a
  | slot k => exact Table.mem_absorb_iff _ w.slots source.slots k

theorem sound_importPrior (hw : w.Sound) (hs : source.Sound) (hbase : source.base = w.base) :
    (w.importPrior source).Sound where
  account {a u} h := by
    rw [getElem?_accounts_importPrior] at h
    show w.base.account a = .ok u.prior
    cases hv : source.accounts[a]? with
    | none =>
      rw [hv] at h
      exact hw.account h
    | some v =>
      rw [hv] at h
      have hprior : w.base.account a = .ok v.prior := hbase ▸ hs.account hv
      rw [← Option.some.inj h]
      exact hw.account_own_entry (u := .unchanged v.prior) hprior
  slot {k u} h := by
    rw [getElem?_slots_importPrior] at h
    show w.base.storage k = .ok u.prior
    cases hv : source.slots[k]? with
    | none =>
      rw [hv] at h
      exact hw.slot h
    | some v =>
      rw [hv] at h
      have hprior : w.base.storage k = .ok v.prior := hbase ▸ hs.slot hv
      rw [← Option.some.inj h]
      exact hw.slot_own_entry (u := .unchanged v.prior) hprior
  journal entry he := by
    rw [loaded_importPrior]
    exact .inl (hw.journal entry he)

theorem changed_importPrior (hs : source.Sound) (hbase : source.base = w.base) :
    (w.importPrior source).changed = w.changed := by
  show {c | ¬ (w.importPrior source).values.AgreeAt w.base.values c} = w.changed
  rw [values_importPrior hs hbase, changed]

theorem tracked_importPrior (ht : w.Tracked) (hs : source.Sound) (hbase : source.base = w.base) :
    (w.importPrior source).Tracked := by
  unfold Tracked
  rw [changed_importPrior hs hbase]
  exact ht

/-! ## Forgetting an address -/

theorem loaded_forget (w : Accumulator) (a : Address) :
    (w.forget a).loaded = {c ∈ w.loaded | c.address ≠ a} := by
  ext c
  cases c with
  | account b => exact Table.mem_erase_iff w.accounts a b
  | slot k => exact (Table.mem_dropKeys_iff _ w.slots k).trans (and_congr_right' bne_iff_ne)

theorem noted_forget (w : Accumulator) (a : Address) :
    (w.forget a).noted = {c ∈ w.noted | c.address ≠ a} := by
  ext c
  cases c with
  | account b => exact Table.mem_erase_iff w.tracker.accounts a b
  | slot k =>
    exact (Table.mem_dropKeys_iff _ w.tracker.slots k).trans (and_congr_right' bne_iff_ne)

/-- The cells of a forgotten address have the values of the view. -/
theorem values_forget_of_address (w : Accumulator) {a : Address} {c : Cell} (h : c.address = a) :
    (w.forget a).values.AgreeAt w.base.values c := by
  subst h
  apply agreeAt_base_of_not_loaded (w := w.forget c.address)
  rw [loaded_forget]
  exact fun h => h.2 rfl

/-- All other cells keep their values. -/
theorem values_forget_of_ne (w : Accumulator) {a : Address} {c : Cell} (h : c.address ≠ a) :
    (w.forget a).values.AgreeAt w.values c := by
  cases c with
  | account b =>
    show (((w.accounts.erase a)[b]?).map (·.updated)).getD (w.base.values.account b) =
      w.values.account b
    have hab : ¬ a = b := fun heq => h heq.symm
    rw [Table.getElem?_erase_eq, if_neg hab]
    rfl
  | slot k =>
    show (((w.slots.dropKeys fun key : StorageKey => key.address == a)[k]?).map
      (·.updated)).getD (w.base.values.slot k) = w.values.slot k
    have hkey : ¬ (k.address == a) = true := fun heq => h (eq_of_beq heq)
    rw [Table.getElem?_dropKeys, if_neg hkey]
    rfl

theorem address_journalEntry (entry : JournalEntry) : entry.address = entry.cell.address := by
  cases entry <;> rfl

theorem sound_forget (hw : w.Sound) (a : Address) : (w.forget a).Sound where
  account {b u} h := by
    rw [forget, Table.getElem?_erase_eq] at h
    split at h
    · cases h
    · exact hw.account h
  slot {k u} h := by
    rw [forget, Table.getElem?_dropKeys] at h
    split at h
    · cases h
    · exact hw.slot h
  journal entry he := by
    obtain ⟨hmem, hne⟩ := List.mem_filter.mp he
    rw [loaded_forget]
    refine ⟨hw.journal entry hmem, ?_⟩
    rw [← address_journalEntry]
    simpa using hne

theorem changed_forget (w : Accumulator) (a : Address) :
    (w.forget a).changed = {c ∈ w.changed | c.address ≠ a} := by
  ext c
  by_cases hc : c.address = a
  · exact iff_of_false (fun h => h (values_forget_of_address w hc)) (fun h => h.2 hc)
  · have hkept := values_forget_of_ne w hc
    exact (not_congr ⟨hkept.symm.trans, hkept.trans⟩).trans (and_iff_left hc).symm

theorem tracked_forget (ht : w.Tracked) (a : Address) : (w.forget a).Tracked := by
  unfold Tracked
  rw [changed_forget, noted_forget]
  exact fun c hc => ⟨ht hc.1, hc.2⟩

/-- Forgetting an address that a tracked accumulator has noted nothing of leads back to its values,
if the values are the same elsewhere. -/
theorem values_forget_of_not_noted {w' : Accumulator} {a : Address} (ht : w.Tracked)
    (hbase : w'.base = w.base)
    (hvalues : ∀ c : Cell, c.address ≠ a → w'.values.AgreeAt w.values c)
    (hoff : ∀ c ∈ w.noted, c.address ≠ a) : (w'.forget a).values = w.values := by
  apply ext_agreeAt
  intro c
  by_cases hc : c.address = a
  · -- Both have the value of the view: the one forgot the cell, the other never changed it.
    have hforgotten := values_forget_of_address w' hc
    rw [hbase] at hforgotten
    exact hforgotten.trans (ht.agreeAt_base fun hmem => hoff c hmem hc).symm
  · exact (values_forget_of_ne w' hc).trans (hvalues c hc)

/-- Forgetting an address changes no value where the address has the values of an accumulator over
the same view that has noted nothing of it. -/
theorem values_forget_eq_self {w' : Accumulator} {a : Address} (ht : w.Tracked)
    (hbase : w'.base = w.base)
    (hvalues : ∀ c : Cell, c.address = a → w'.values.AgreeAt w.values c)
    (hoff : ∀ c ∈ w.noted, c.address ≠ a) : (w'.forget a).values = w'.values := by
  apply ext_agreeAt
  intro c
  by_cases hc : c.address = a
  · have hforgotten := values_forget_of_address w' hc
    rw [hbase] at hforgotten
    exact (hforgotten.trans (ht.agreeAt_base fun hmem => hoff c hmem hc).symm).trans
      (hvalues c hc).symm
  · exact values_forget_of_ne w' hc

/-! ## Committing -/

theorem sound_commit (hw : w.Sound) : w.commit.Sound where
  account h := hw.account h
  slot h := hw.slot h
  journal entry he := by cases he

theorem tracked_commit (ht : w.Tracked) : w.commit.Tracked := ht

end Accumulator

end BlockExecution
