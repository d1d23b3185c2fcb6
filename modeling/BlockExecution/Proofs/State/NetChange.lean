/-
  Net changes as a normal form, and taking them over from elsewhere.

  The changes of an accumulator list a cell exactly when its value is not that of
  the view, so accumulators over one view have the same changes exactly when
  they answer every read alike. This holds for the list of slots under each
  address too, since only addresses with a changed slot stand in it.

  Taking over changes puts the changes of the source over those of the target.
  Two sources that change no common cell may be taken over in either order: not
  only values and changes, but all entries and all records are the same.
-/
import BlockExecution.Proofs.State.Persistence

namespace BlockExecution

open BlockExecution.Snapshot

/-! ## Changed slots under their addresses -/

namespace StateChanges

variable {c d : StateChanges}

/-- The changed slots of every address that has one. -/
def storageByAddress (c : StateChanges) : Table Address (Table Word Word) :=
  c.storage.foldl
    (fun listed key value =>
      listed.alter key.address fun slots => some ((slots.getD ∅).insert key.slot value)) ∅

/-- The value of a slot, looked for first under its address. -/
def slotIn (listed : Table Address (Table Word Word)) (k : StorageKey) : Option Word :=
  (listed[k.address]?).bind fun slots => slots[k.slot]?

theorem slotIn_alter (listed : Table Address (Table Word Word)) (k l : StorageKey) (value : Word) :
    slotIn (listed.alter k.address fun slots => some ((slots.getD ∅).insert k.slot value)) l =
      if k = l then some value else slotIn listed l := by
  simp only [slotIn, Std.ExtTreeMap.getElem?_alter, Std.LawfulEqOrd.compare_eq_iff_eq]
  by_cases haddress : k.address = l.address
  · rw [if_pos haddress, Option.bind_some, Table.getElem?_insert_eq, haddress]
    by_cases hslot : k.slot = l.slot
    · have hkey : k = l := by
        cases k
        cases l
        simp_all
      rw [if_pos hslot, if_pos hkey]
    · have hkey : k ≠ l := fun h => hslot (congrArg StorageKey.slot h)
      rw [if_neg hslot, if_neg hkey]
      cases listed[l.address]? <;> rfl
  · have hkey : k ≠ l := fun h => haddress (congrArg StorageKey.address h)
    rw [if_neg haddress, if_neg hkey]

theorem slotIn_storageByAddress (c : StateChanges) (k : StorageKey) :
    slotIn c.storageByAddress k = c.storage[k]? := by
  have hfold := Table.foldl_observed
    (fun (listed : Table Address (Table Word Word)) key value =>
      listed.alter key.address fun slots => some ((slots.getD ∅).insert key.slot value))
    (slotIn · k) k (fun value _ => some value)
    (fun listed l value hl => by rw [slotIn_alter, if_neg hl])
    (fun listed value => by rw [slotIn_alter, if_pos rfl]) c.storage ∅
  rw [storageByAddress, hfold]
  cases c.storage[k]? <;> rfl

/-- The list under addresses tells as much as the list of slots. -/
theorem storageByAddress_inj : c.storageByAddress = d.storageByAddress ↔ c.storage = d.storage := by
  constructor
  · intro h
    apply Std.ExtTreeMap.ext_getElem?
    intro k
    rw [← slotIn_storageByAddress, ← slotIn_storageByAddress, h]
  · intro h
    rw [storageByAddress, storageByAddress, h]

theorem eq_iff_listed :
    c = d ↔ c.accounts = d.accounts ∧ c.storageByAddress = d.storageByAddress := by
  rw [storageByAddress_inj]
  cases c
  cases d
  rw [StateChanges.mk.injEq]

/-- The changes `d` put over the changes `c`. -/
def overriddenBy (c d : StateChanges) : StateChanges where
  accounts := c.accounts.absorb (fun _ new => new) d.accounts
  storage := c.storage.absorb (fun _ new => new) d.storage

end StateChanges

namespace Accumulator

variable {view : WorldView} {w w' b s t : Accumulator}

/-! ## Equal changes -/

/-- Every account and every slot is read with the same value. -/
def ReadsAlike (w w' : Accumulator) : Prop :=
  (∀ a, ∃ x, (∃ after, w.readAccount a = .ok (x, after)) ∧
    ∃ after, w'.readAccount a = .ok (x, after)) ∧
  ∀ k, ∃ x, (∃ after, w.readSlot k = .ok (x, after)) ∧ ∃ after, w'.readSlot k = .ok (x, after)

/-- What is read of an account is its present value. -/
theorem exists_readAccount_iff (hs : w.Sound) (hr : w.base.Readable) {a : Address}
    {x : Option Account} :
    (∃ after, w.readAccount a = .ok (x, after)) ↔ w.values.account a = x := by
  obtain ⟨y, hy⟩ := hr.1 a
  obtain ⟨after, hread, -⟩ := readAccount_of_ok hs hy
  rw [hread]
  constructor
  · rintro ⟨after', h⟩
    exact (Prod.mk.inj (Except.ok.inj h)).1
  · rintro rfl
    exact ⟨after, rfl⟩

theorem exists_readSlot_iff (hs : w.Sound) (hr : w.base.Readable) {k : StorageKey} {x : Word} :
    (∃ after, w.readSlot k = .ok (x, after)) ↔ w.values.slot k = x := by
  obtain ⟨y, hy⟩ := hr.2 k
  obtain ⟨after, hread, -⟩ := readSlot_of_ok hs hy
  rw [hread]
  constructor
  · rintro ⟨after', h⟩
    exact (Prod.mk.inj (Except.ok.inj h)).1
  · rintro rfl
    exact ⟨after, rfl⟩

theorem readsAlike_iff (hs : w.Sound) (hs' : w'.Sound) (hr : w.base.Readable)
    (hr' : w'.base.Readable) : w.ReadsAlike w' ↔ w.values = w'.values := by
  simp only [ReadsAlike, exists_readAccount_iff hs hr, exists_readAccount_iff hs' hr',
    exists_readSlot_iff hs hr, exists_readSlot_iff hs' hr']
  constructor
  · rintro ⟨haccounts, hslots⟩
    ext1
    · funext a
      obtain ⟨x, h, h'⟩ := haccounts a
      exact h.trans h'.symm
    · funext k
      obtain ⟨x, h, h'⟩ := hslots k
      exact h.trans h'.symm
  · intro h
    rw [h]
    exact ⟨fun a => ⟨_, rfl, rfl⟩, fun k => ⟨_, rfl, rfl⟩⟩

/-- However two accumulators over a view came about, their changes are equal exactly when they
read everything alike, whether slots are listed by themselves or under their addresses. -/
theorem Reached.changes_eq_iff_readsAlike (hr : view.Readable) (h : Reached view w)
    (h' : Reached view w') :
    (w.changes = w'.changes ↔ w.ReadsAlike w') ∧
      (w.changes.accounts = w'.changes.accounts ∧
        w.changes.storageByAddress = w'.changes.storageByAddress ↔ w.ReadsAlike w') := by
  obtain ⟨hs, hview⟩ := h.sound_base
  obtain ⟨hs', hview'⟩ := h'.sound_base
  have hbase : w.base = w'.base := hview.trans hview'.symm
  have hchanges : w.changes = w'.changes ↔ w.ReadsAlike w' := by
    rw [changes_eq_iff hs hs' hbase, readsAlike_iff hs hs' (hview ▸ hr) (hview' ▸ hr)]
  exact ⟨hchanges, StateChanges.eq_iff_listed.symm.trans hchanges⟩

/-- A slot is written and written back, and an account paid and forgotten. -/
def cancelled : Accumulator :=
  let written := ((Operation.setSlot ⟨1, 7⟩ 9).execution.runOn (.ofView hollowState.view)).2
  let restored := ((Operation.setSlot ⟨1, 7⟩ 5).execution.runOn written).2
  let paid := ((Operation.increaseBalance 3 4).execution.runOn restored).2
  (paid.forget 3).commit

/-- An account is paid, and nothing else is used. -/
def payer : Accumulator :=
  ((Operation.increaseBalance 2 3).execution.runOn (.ofView hollowState.view)).2

/-- A slot is written, and nothing else is used. -/
def writer : Accumulator :=
  ((Operation.setSlot ⟨1, 7⟩ 8).execution.runOn (.ofView hollowState.view)).2

theorem reached_cancelled : Reached hollowState.view cancelled :=
  .commit (.forget (.operation (.operation (.operation .fresh (.setSlot ⟨1, 7⟩ 9))
    (.setSlot ⟨1, 7⟩ 5)) (.increaseBalance 3 4)) 3)

theorem reached_payer : Reached hollowState.view payer :=
  .operation .fresh (.increaseBalance 2 3)

theorem reached_writer : Reached hollowState.view writer :=
  .operation .fresh (.setSlot ⟨1, 7⟩ 8)

/-- Writes that cancel out and loaded values of a discarded run leave no changes, and all is read
alike. -/
theorem readsAlike_cancelled :
    hollowState.view.Readable ∧
      cancelled.ReadsAlike ((ofView hollowState.view).importPrior payer) := by
  have hcached : Reached hollowState.view ((ofView hollowState.view).importPrior payer) :=
    .importPrior .fresh reached_payer
  have hiff := Reached.changes_eq_iff_readsAlike hollowState.readable_view reached_cancelled hcached
  exact ⟨hollowState.readable_view, hiff.2.mp (by decide +kernel)⟩

/-! ## Changes put over others -/

/-- The entry of a cell is there and not as in the view. -/
def Modifies (w : Accumulator) : Cell → Prop
  | .account a => (w.accountUpdate? a).any (·.isModified) = true
  | .slot k => (w.slotUpdate? k).any (·.isModified) = true

theorem modifies_iff (hs : w.Sound) {c : Cell} : w.Modifies c ↔ c ∈ w.changed := by
  cases c with
  | account a =>
    show (w.accounts[a]?).any (·.isModified) = true ↔ _
    cases hu : w.accounts[a]? with
    | none =>
      have hsame : w.values.AgreeAt w.base.values (.account a) := account_values_of_none hu
      exact iff_of_false (fun h => by cases h) (fun h => h hsame)
    | some u => exact isModified_account_iff hs hu
  | slot k =>
    show (w.slots[k]?).any (·.isModified) = true ↔ _
    cases hu : w.slots[k]? with
    | none =>
      have hsame : w.values.AgreeAt w.base.values (.slot k) := slot_values_of_none hu
      exact iff_of_false (fun h => by cases h) (fun h => h hsame)
    | some u => exact isModified_slot_iff hs hu

/-- The changes after taking over those of a source. -/
theorem changes_importChanges (hb : b.Sound) (hs : s.Sound) (hbase : s.base = b.base) :
    (b.importChanges s).changes = b.changes.overriddenBy s.changes := by
  have hsound := sound_importChanges hb hs hbase
  have hview : (b.importChanges s).base = b.base := rfl
  have haccounts : (b.importChanges s).changes.accounts =
      (b.changes.overriddenBy s.changes).accounts := by
    apply Std.ExtTreeMap.ext_getElem?
    intro a
    rw [getElem?_accounts_changes hsound, StateChanges.overriddenBy, Table.getElem?_absorb,
      getElem?_accounts_changes hb, getElem?_accounts_changes hs, hview, ← hbase]
    -- The source lists the account exactly when it changed it, and then it decides.
    by_cases hsame : s.values.account a = s.base.values.account a
    · have hkept : (b.importChanges s).values.account a = b.values.account a :=
        values_importChanges_of_not_changed (c := .account a) hs hbase (not_not.mpr hsame)
      rw [if_pos hsame, hkept]
    · have htaken : (b.importChanges s).values.account a = s.values.account a :=
        values_importChanges_of_changed (c := .account a) hs hsame
      rw [if_neg hsame, htaken, if_neg hsame]
  have hstorage : (b.importChanges s).changes.storage =
      (b.changes.overriddenBy s.changes).storage := by
    apply Std.ExtTreeMap.ext_getElem?
    intro k
    rw [getElem?_storage_changes hsound, StateChanges.overriddenBy, Table.getElem?_absorb,
      getElem?_storage_changes hb, getElem?_storage_changes hs, hview, ← hbase]
    by_cases hsame : s.values.slot k = s.base.values.slot k
    · have hkept : (b.importChanges s).values.slot k = b.values.slot k :=
        values_importChanges_of_not_changed (c := .slot k) hs hbase (not_not.mpr hsame)
      rw [if_pos hsame, hkept]
    · have htaken : (b.importChanges s).values.slot k = s.values.slot k :=
        values_importChanges_of_changed (c := .slot k) hs hsame
      rw [if_neg hsame, htaken, if_neg hsame]
  show (⟨(b.importChanges s).changes.accounts, (b.importChanges s).changes.storage⟩ :
    StateChanges) = _
  rw [haccounts, hstorage]

end Accumulator

/-! ## Either order -/

/-- Tables with the same keys are equal if they hold the same under each. -/
theorem Table.eq_of_mem_iff {K V : Type} [Ord K] [Std.TransOrd K] [Std.LawfulEqOrd K]
    {t t' : Table K V} (hmem : ∀ k : K, k ∈ t ↔ k ∈ t')
    (h : ∀ (k : K) (v v' : V), t[k]? = some v → t'[k]? = some v' → v = v') : t = t' := by
  apply Std.ExtTreeMap.ext_getElem?
  intro k
  by_cases hk : k ∈ t
  · obtain ⟨v, hv⟩ := (mem_iff_exists t k).mp hk
    obtain ⟨v', hv'⟩ := (mem_iff_exists t' k).mp ((hmem k).mp hk)
    rw [hv, hv', h k v v' hv hv']
  · have hk' : k ∉ t' := fun h => hk ((hmem k).mpr h)
    rw [Std.ExtTreeMap.getElem?_eq_none hk, Std.ExtTreeMap.getElem?_eq_none hk']

/-- Two tables may be taken over in either order if their entries may, key by key. -/
theorem Table.absorb_right_comm {K V W : Type} [Ord K] [Std.TransOrd K] [Std.LawfulEqOrd K]
    (combine : Option V → W → V) (t : Table K V) (first second : Table K W)
    (h : ∀ old v u, combine (some (combine old v)) u = combine (some (combine old u)) v) :
    absorb combine (absorb combine t first) second =
      absorb combine (absorb combine t second) first := by
  apply Std.ExtTreeMap.ext_getElem?
  intro k
  simp only [getElem?_absorb]
  cases first[k]? with
  | none => rfl
  | some v =>
    cases second[k]? with
    | none => rfl
    | some u => exact congrArg some (h _ v u)

theorem Touch.record_right_comm (t : Touch) (x y : Access) :
    (t.record x).record y = (t.record y).record x := by
  cases x <;> cases y <;> rfl

/-- Records of imports do not depend on their order, whatever was imported. -/
theorem TouchTracker.recordImport_right_comm (tracker : TouchTracker) (s t : Accumulator) :
    (tracker.recordImport s.accounts s.slots).recordImport t.accounts t.slots =
      (tracker.recordImport t.accounts t.slots).recordImport s.accounts s.slots := by
  have haccounts := Table.absorb_right_comm
    (fun old (u : AccountUpdate) => (old.getD {}).record (importAccess u.isModified))
    tracker.accounts s.accounts t.accounts fun _ _ _ => Touch.record_right_comm ..
  have hslots := Table.absorb_right_comm
    (fun old (u : SlotUpdate) => (old.getD {}).record (importAccess u.isModified))
    tracker.slots s.slots t.slots fun _ _ _ => Touch.record_right_comm ..
  simp only [recordImport, haccounts, hslots]

namespace Accumulator

variable {view : WorldView} {w w' b s t : Accumulator}

/-- The entries of a sound accumulator are told by its view, its values and what is loaded. -/
theorem entries_eq (hs : w.Sound) (hs' : w'.Sound) (hbase : w.base = w'.base)
    (hloaded : w.loaded = w'.loaded) (hvalues : w.values = w'.values) :
    w.accounts = w'.accounts ∧ w.slots = w'.slots := by
  constructor
  · apply Table.eq_of_mem_iff fun a => Set.ext_iff.mp hloaded (.account a)
    -- An entry is what the view has, which is the same, and the present value.
    intro a u u' hu hu'
    have hprior : u.prior = u'.prior := by
      rw [← account_base_of_entry hs hu, ← account_base_of_entry hs' hu', hbase]
    have hupdated : u.updated = u'.updated := by
      rw [← account_values_of_entry hu, ← account_values_of_entry hu', hvalues]
    rw [AccountUpdate.mk.injEq]
    exact ⟨hprior, hupdated⟩
  · apply Table.eq_of_mem_iff fun k => Set.ext_iff.mp hloaded (.slot k)
    intro k u u' hu hu'
    have hprior : u.prior = u'.prior := by
      rw [← slot_base_of_entry hs hu, ← slot_base_of_entry hs' hu', hbase]
    have hupdated : u.updated = u'.updated := by
      rw [← slot_values_of_entry hu, ← slot_values_of_entry hu', hvalues]
    rw [SlotUpdate.mk.injEq]
    exact ⟨hprior, hupdated⟩

/-- The values after two imports, where no common cell is changed. -/
theorem values_importChanges_right_comm (hs : s.Sound) (ht : t.Sound) (hbs : s.base = b.base)
    (hbt : t.base = b.base) (h : Disjoint s.changed t.changed) :
    ((b.importChanges s).importChanges t).values =
      ((b.importChanges t).importChanges s).values := by
  -- Of any cell at most one of the two decides; the other import passes its value on.
  have hone : ∀ {x y : Accumulator}, x.Sound → y.Sound → x.base = b.base → y.base = b.base →
      ∀ c ∈ x.changed, c ∉ y.changed →
        ((b.importChanges x).importChanges y).values.AgreeAt
          ((b.importChanges y).importChanges x).values c := by
    intro x y hx hy hbx hby c hcx hcy
    have hkept := values_importChanges_of_not_changed (w := b.importChanges x) hy hby hcy
    have htaken := values_importChanges_of_changed (w := b) hx hcx
    have hlast := values_importChanges_of_changed (w := b.importChanges y) hx hcx
    exact (hkept.trans htaken).trans hlast.symm
  apply ext_agreeAt
  intro c
  by_cases hcs : c ∈ s.changed
  · exact hone hs ht hbs hbt c hcs (Set.disjoint_left.mp h hcs)
  · by_cases hct : c ∈ t.changed
    · exact (hone ht hs hbt hbs c hct hcs).symm
    · have hleft := values_importChanges_of_not_changed (w := b.importChanges s) ht hbt hct
      have hright := values_importChanges_of_not_changed (w := b.importChanges t) hs hbs hcs
      exact (hleft.trans (values_importChanges_of_not_changed hs hbs hcs)).trans
        (hright.trans (values_importChanges_of_not_changed ht hbt hct)).symm

/-- Sources that change no common cell are taken over in either order. -/
theorem importChanges_right_comm (hb : b.Sound) (hs : s.Sound) (ht : t.Sound)
    (hbs : s.base = b.base) (hbt : t.base = b.base) (h : Disjoint s.changed t.changed) :
    (b.importChanges s).importChanges t = (b.importChanges t).importChanges s := by
  have hsound := sound_importChanges (sound_importChanges hb hs hbs) ht hbt
  have hsound' := sound_importChanges (sound_importChanges hb ht hbt) hs hbs
  have hloaded : ((b.importChanges s).importChanges t).loaded =
      ((b.importChanges t).importChanges s).loaded := by
    simp only [loaded_importChanges, Set.union_assoc, Set.union_comm s.loaded]
  obtain ⟨haccounts, hslots⟩ := entries_eq hsound hsound' rfl hloaded
    (values_importChanges_right_comm hs ht hbs hbt h)
  have htracker : ((b.importChanges s).importChanges t).tracker =
      ((b.importChanges t).importChanges s).tracker := b.tracker.recordImport_right_comm s t
  show (⟨b.base, _, _, _, b.journal⟩ : Accumulator) = ⟨b.base, _, _, _, b.journal⟩
  rw [Accumulator.mk.injEq]
  exact ⟨rfl, haccounts, hslots, htracker, rfl⟩

/-- Taking over changes gives each cell that the source modified its value there and leaves all
others alone, and puts the changes of the source over those of the target. Two sources that modify
no common cell may be taken over in either order. -/
theorem Reached.importChanges_overrides (hb : Reached view b) (hs : Reached view s)
    (ht : Reached view t) :
    (∀ c, s.Modifies c → (b.importChanges s).values.AgreeAt s.values c) ∧
    (∀ c, ¬ s.Modifies c → (b.importChanges s).values.AgreeAt b.values c) ∧
    (b.importChanges s).changes = b.changes.overriddenBy s.changes ∧
    ((∀ c, ¬ (s.Modifies c ∧ t.Modifies c)) →
      (b.importChanges s).importChanges t = (b.importChanges t).importChanges s) := by
  obtain ⟨hbsound, hbview⟩ := hb.sound_base
  obtain ⟨hssound, hsview⟩ := hs.sound_base
  obtain ⟨htsound, htview⟩ := ht.sound_base
  have hbase : s.base = b.base := hsview.trans hbview.symm
  refine ⟨?_, ?_, changes_importChanges hbsound hssound hbase, ?_⟩
  · intro c hc
    exact values_importChanges_of_changed hssound ((modifies_iff hssound).mp hc)
  · intro c hc
    exact values_importChanges_of_not_changed hssound hbase fun h =>
      hc ((modifies_iff hssound).mpr h)
  · intro hdisjoint
    apply importChanges_right_comm hbsound hssound htsound hbase (htview.trans hbview.symm)
    rw [Set.disjoint_left]
    intro c hcs hct
    exact hdisjoint c ⟨(modifies_iff hssound).mpr hcs, (modifies_iff htsound).mpr hct⟩

/-- One source pays an account and the other writes a slot. -/
theorem importChanges_overrides_payer_writer :
    (hollowCleared.importChanges payer).values.account 2 = some (.plain 0 13) ∧
    (hollowCleared.importChanges payer).values.account 3 = some (.plain 0 4) ∧
    (hollowCleared.importChanges payer).changes =
      hollowCleared.changes.overriddenBy payer.changes ∧
    (hollowCleared.importChanges payer).importChanges writer =
      (hollowCleared.importChanges writer).importChanges payer := by
  obtain ⟨htaken, hkept, hchanges, horder⟩ :=
    Reached.importChanges_overrides reached_hollowCleared reached_payer reached_writer
  have hpays : payer.Modifies (.account 2) := by
    show (payer.accountUpdate? 2).any (·.isModified) = true
    decide +kernel
  have hleaves : ¬ payer.Modifies (.account 3) := by
    show ¬ (payer.accountUpdate? 3).any (·.isModified) = true
    decide +kernel
  refine ⟨Eq.trans (htaken _ hpays) ?_, Eq.trans (hkept _ hleaves) ?_, hchanges,
    horder fun c => ?_⟩
  · decide +kernel
  · decide +kernel
  · -- The one has loaded no slot, the other no account.
    rintro ⟨hpayer, hwriter⟩
    cases c with
    | account a =>
      have hnone : writer.accounts = ∅ := by decide +kernel
      have hentry : (writer.accounts[a]?).any (·.isModified) = true := hwriter
      rw [hnone, Std.ExtTreeMap.getElem?_empty] at hentry
      cases hentry
    | slot k =>
      have hnone : payer.slots = ∅ := by decide +kernel
      have hentry : (payer.slots[k]?).any (·.isModified) = true := hpayer
      rw [hnone, Std.ExtTreeMap.getElem?_empty] at hentry
      cases hentry

end Accumulator

end BlockExecution
