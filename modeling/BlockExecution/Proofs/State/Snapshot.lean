/-
  Accounts and slots as one total assignment of values.

  An accumulator keeps entries for what it has loaded and leaves the rest to its
  view. `Accumulator.values` forgets that difference: it gives every account and
  every slot its present value. Accounts and slots together are the cells of the
  state, and what a computation uses is a set of cells.
-/
import Mathlib
import BlockExecution.State.Import

namespace BlockExecution

/-! ## Tables under lawful keys -/

namespace Table

variable {K V : Type} [Ord K] [Std.TransOrd K] [Std.LawfulEqOrd K]

theorem getElem?_insert_eq [DecidableEq K] (t : Table K V) (k a : K) (v : V) :
    (t.insert k v)[a]? = if k = a then some v else t[a]? := by
  rw [Std.ExtTreeMap.getElem?_insert]
  simp only [Std.LawfulEqOrd.compare_eq_iff_eq]

theorem getElem?_erase_eq [DecidableEq K] (t : Table K V) (k a : K) :
    (t.erase k)[a]? = if k = a then none else t[a]? := by
  rw [Std.ExtTreeMap.getElem?_erase]
  simp only [Std.LawfulEqOrd.compare_eq_iff_eq]

theorem getElem?_modify_eq [DecidableEq K] (t : Table K V) (k a : K) (f : V → V) :
    (t.modify k f)[a]? = if k = a then t[a]?.map f else t[a]? := by
  rw [Std.ExtTreeMap.getElem?_modify]
  simp only [Std.LawfulEqOrd.compare_eq_iff_eq]
  split
  · rename_i h
    rw [h]
  · rfl

theorem mem_erase_iff (t : Table K V) (k a : K) : a ∈ t.erase k ↔ a ∈ t ∧ a ≠ k := by
  rw [Std.ExtTreeMap.mem_erase, and_comm, ne_eq, Std.LawfulEqOrd.compare_eq_iff_eq, eq_comm]

theorem mem_dropKeys_iff (p : K → Bool) (t : Table K V) (a : K) :
    a ∈ t.dropKeys p ↔ a ∈ t ∧ (!p a) = true := by
  rw [Std.ExtTreeMap.mem_iff_isSome_getElem?, Std.ExtTreeMap.mem_iff_isSome_getElem?,
    Table.getElem?_dropKeys]
  cases p a <;> simp

theorem mem_absorb_iff {W : Type} (combine : Option V → W → V) (target : Table K V)
    (source : Table K W) (a : K) :
    a ∈ absorb combine target source ↔ a ∈ target ∨ a ∈ source := by
  simp only [Std.ExtTreeMap.mem_iff_isSome_getElem?, getElem?_absorb]
  cases source[a]? <;> simp

theorem mem_alter_some (t : Table K V) (k a : K) (f : Option V → V) :
    a ∈ t.alter k (fun old => some (f old)) ↔ a = k ∨ a ∈ t := by
  rw [Std.ExtTreeMap.mem_alter, Option.isSome_some]
  by_cases h : compare k a = .eq
  · rw [if_pos h]
    exact iff_of_true rfl (.inl (Std.LawfulEqOrd.eq_of_compare h).symm)
  · rw [if_neg h, or_iff_right]
    rintro rfl
    exact h Std.ReflOrd.compare_self

/-- Putting back what is there changes nothing. -/
theorem insert_eq_self [DecidableEq K] {t : Table K V} {k : K} {v : V} (h : t[k]? = some v) :
    t.insert k v = t := by
  apply Std.ExtTreeMap.ext_getElem?
  intro a
  rw [getElem?_insert_eq]
  split
  · rename_i hk
    rw [← hk, h]
  · rfl

theorem insert_insert [DecidableEq K] (t : Table K V) (k : K) (v v' : V) :
    (t.insert k v).insert k v' = t.insert k v' := by
  apply Std.ExtTreeMap.ext_getElem?
  intro a
  simp only [getElem?_insert_eq]
  split <;> rfl

omit [Std.LawfulEqOrd K] in
theorem mem_iff_exists (t : Table K V) (k : K) : k ∈ t ↔ ∃ v, t[k]? = some v := by
  rw [Std.ExtTreeMap.mem_iff_isSome_getElem?, Option.isSome_iff_exists]

omit [Std.LawfulEqOrd K] in
theorem getElem?_ne_none_iff (t : Table K V) (k : K) : t[k]? ≠ none ↔ k ∈ t := by
  rw [Std.ExtTreeMap.mem_iff_isSome_getElem?, Option.isSome_iff_ne_none]

end Table

/-! ## Cells -/

/-- An account or a slot. -/
inductive Cell where
  | account (address : Address)
  | slot (key : StorageKey)
  deriving DecidableEq

/-- The address that a cell belongs to. -/
def Cell.address : Cell → Address
  | .account address => address
  | .slot key => key.address

/-! ## Snapshots -/

/-- A value for every account and every slot. -/
@[ext] structure Snapshot where
  account : Address → Option Account
  slot : StorageKey → Word

namespace Snapshot

variable {u v : Snapshot}

/-- Whether two snapshots give a cell the same value. -/
def AgreeAt (u v : Snapshot) : Cell → Prop
  | .account address => u.account address = v.account address
  | .slot key => u.slot key = v.slot key

theorem AgreeAt.refl (v : Snapshot) (c : Cell) : v.AgreeAt v c := by
  cases c <;> rfl

theorem AgreeAt.symm {c : Cell} (h : u.AgreeAt v c) : v.AgreeAt u c := by
  cases c <;> exact Eq.symm h

theorem AgreeAt.trans {w : Snapshot} {c : Cell} (h₁ : u.AgreeAt v c) (h₂ : v.AgreeAt w c) :
    u.AgreeAt w c := by
  cases c <;> exact Eq.trans h₁ h₂

theorem ext_agreeAt (h : ∀ c, u.AgreeAt v c) : u = v := by
  ext1
  · funext address
    exact h (.account address)
  · funext key
    exact h (.slot key)

/-- Gives an account its value. -/
def setAccount (v : Snapshot) (address : Address) (account : Option Account) : Snapshot :=
  { v with account := Function.update v.account address account }

/-- Gives a slot its value. -/
def setSlot (v : Snapshot) (key : StorageKey) (value : Word) : Snapshot :=
  { v with slot := Function.update v.slot key value }

@[simp] theorem account_setAccount_self (v : Snapshot) (a : Address) (x : Option Account) :
    (v.setAccount a x).account a = x :=
  Function.update_self ..

theorem account_setAccount_of_ne {a b : Address} (h : b ≠ a) (v : Snapshot)
    (x : Option Account) : (v.setAccount a x).account b = v.account b :=
  Function.update_of_ne h ..

@[simp] theorem slot_setAccount (v : Snapshot) (a : Address) (x : Option Account) :
    (v.setAccount a x).slot = v.slot := rfl

@[simp] theorem slot_setSlot_self (v : Snapshot) (k : StorageKey) (x : Word) :
    (v.setSlot k x).slot k = x :=
  Function.update_self ..

theorem slot_setSlot_of_ne {k l : StorageKey} (h : l ≠ k) (v : Snapshot) (x : Word) :
    (v.setSlot k x).slot l = v.slot l :=
  Function.update_of_ne h ..

@[simp] theorem account_setSlot (v : Snapshot) (k : StorageKey) (x : Word) :
    (v.setSlot k x).account = v.account := rfl

@[simp] theorem setAccount_eq_self (v : Snapshot) (a : Address) :
    v.setAccount a (v.account a) = v := by
  unfold setAccount
  rw [Function.update_eq_self]

@[simp] theorem setSlot_eq_self (v : Snapshot) (k : StorageKey) :
    v.setSlot k (v.slot k) = v := by
  unfold setSlot
  rw [Function.update_eq_self]

@[simp] theorem setAccount_setAccount (v : Snapshot) (a : Address) (x y : Option Account) :
    (v.setAccount a x).setAccount a y = v.setAccount a y := by
  unfold setAccount
  rw [Function.update_idem]

@[simp] theorem setSlot_setSlot (v : Snapshot) (k : StorageKey) (x y : Word) :
    (v.setSlot k x).setSlot k y = v.setSlot k y := by
  unfold setSlot
  rw [Function.update_idem]

theorem agreeAt_setAccount {a : Address} {c : Cell} (h : c ≠ .account a) (v : Snapshot)
    (x : Option Account) : (v.setAccount a x).AgreeAt v c := by
  cases c with
  | account b =>
    have hne : b ≠ a := fun heq => h (by rw [heq])
    exact account_setAccount_of_ne hne v x
  | slot key => rfl

theorem agreeAt_setSlot {k : StorageKey} {c : Cell} (h : c ≠ .slot k) (v : Snapshot)
    (x : Word) : (v.setSlot k x).AgreeAt v c := by
  cases c with
  | account b => rfl
  | slot l =>
    have hne : l ≠ k := fun heq => h (by rw [heq])
    exact slot_setSlot_of_ne hne v x

/-! ## Agreement on regions -/

/-- Whether two snapshots agree on every cell of a region. -/
def AgreeOn (region : Set Cell) (u v : Snapshot) : Prop := ∀ c ∈ region, u.AgreeAt v c

variable {region part : Set Cell}

theorem AgreeOn.refl (region : Set Cell) (v : Snapshot) : AgreeOn region v v :=
  fun c _ => AgreeAt.refl v c

theorem AgreeOn.symm (h : AgreeOn region u v) : AgreeOn region v u :=
  fun c hc => (h c hc).symm

theorem AgreeOn.trans {w : Snapshot} (h₁ : AgreeOn region u v) (h₂ : AgreeOn region v w) :
    AgreeOn region u w :=
  fun c hc => (h₁ c hc).trans (h₂ c hc)

theorem AgreeOn.mono (h : AgreeOn region u v) (hpart : part ⊆ region) : AgreeOn part u v :=
  fun c hc => h c (hpart hc)

/-- Snapshots that agree on a region and off it are equal. -/
theorem AgreeOn.eq (hon : AgreeOn region u v) (hoff : AgreeOn regionᶜ u v) : u = v := by
  apply ext_agreeAt
  intro c
  by_cases h : c ∈ region
  · exact hon c h
  · exact hoff c h

end Snapshot

/-! ## Values of views and accumulators -/

/-- What a view gives. A cell that cannot be read counts as absent. -/
def WorldView.values (v : WorldView) : Snapshot where
  account a := (v.account a).toOption.join
  slot k := (v.storage k).toOption.getD 0

theorem WorldView.account_values {v : WorldView} {a : Address} {x : Option Account}
    (h : v.account a = .ok x) : v.values.account a = x := by
  simp only [WorldView.values, h]
  rfl

theorem WorldView.slot_values {v : WorldView} {k : StorageKey} {x : Word}
    (h : v.storage k = .ok x) : v.values.slot k = x := by
  simp only [WorldView.values, h]
  rfl

theorem WorldView.Readable.account_ne_error {v : WorldView} (h : v.Readable) {a : Address}
    {e : StateError} : v.account a ≠ .error e := by
  obtain ⟨x, hx⟩ := h.1 a
  rw [hx]
  exact fun heq => nomatch heq

theorem WorldView.Readable.storage_ne_error {v : WorldView} (h : v.Readable) {k : StorageKey}
    {e : StateError} : v.storage k ≠ .error e := by
  obtain ⟨x, hx⟩ := h.2 k
  rw [hx]
  exact fun heq => nomatch heq

/-- The cells to which an access was recorded. -/
def TouchTracker.cells (t : TouchTracker) : Set Cell :=
  {c | match c with
    | .account a => a ∈ t.accounts
    | .slot k => k ∈ t.slots}

namespace Accumulator

/-- The present value of every cell. -/
def values (w : Accumulator) : Snapshot where
  account a := ((w.accounts[a]?).map (·.updated)).getD (w.base.values.account a)
  slot k := ((w.slots[k]?).map (·.updated)).getD (w.base.values.slot k)

/-- The cells that have an entry. -/
def loaded (w : Accumulator) : Set Cell :=
  {c | match c with
    | .account a => a ∈ w.accounts
    | .slot k => k ∈ w.slots}

/-- The cells to which an access was noted. -/
def noted (w : Accumulator) : Set Cell := w.tracker.cells

theorem values_ofView (base : WorldView) : (ofView base).values = base.values := rfl

theorem noted_ofView (base : WorldView) : (ofView base).noted = ∅ := by
  ext c
  cases c with
  | account a => exact iff_of_false Std.ExtTreeMap.not_mem_empty (Set.notMem_empty _)
  | slot k => exact iff_of_false Std.ExtTreeMap.not_mem_empty (Set.notMem_empty _)

theorem account_values_of_entry {w : Accumulator} {a : Address} {u : AccountUpdate}
    (h : w.accounts[a]? = some u) : w.values.account a = u.updated := by
  simp only [values, h, Option.map_some, Option.getD_some]

theorem slot_values_of_entry {w : Accumulator} {k : StorageKey} {u : SlotUpdate}
    (h : w.slots[k]? = some u) : w.values.slot k = u.updated := by
  simp only [values, h, Option.map_some, Option.getD_some]

theorem account_values_of_none {w : Accumulator} {a : Address} (h : w.accounts[a]? = none) :
    w.values.account a = w.base.values.account a := by
  simp only [values, h, Option.map_none, Option.getD_none]

theorem slot_values_of_none {w : Accumulator} {k : StorageKey} (h : w.slots[k]? = none) :
    w.values.slot k = w.base.values.slot k := by
  simp only [values, h, Option.map_none, Option.getD_none]

/-- A cell without an entry has the value of the view. -/
theorem agreeAt_base_of_not_loaded {w : Accumulator} {c : Cell} (h : c ∉ w.loaded) :
    w.values.AgreeAt w.base.values c := by
  cases c with
  | account a => exact account_values_of_none (Std.ExtTreeMap.getElem?_eq_none h)
  | slot k => exact slot_values_of_none (Std.ExtTreeMap.getElem?_eq_none h)

end Accumulator

end BlockExecution
