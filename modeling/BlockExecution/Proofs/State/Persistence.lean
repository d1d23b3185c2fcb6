/-
  Net changes of every accumulator that can come about.

  An accumulator over a state comes about by operations, by going back to a
  checkpoint of whatever depth, by commits, by forgetting addresses and by both
  ways of taking over from another such accumulator. All of these keep it sound,
  and so its net changes turn the state into what it shows.
-/
import BlockExecution.Proofs.State.Changes
import BlockExecution.Proofs.State.Operation

namespace BlockExecution

open BlockExecution.Snapshot

/-! ## Size -/

/-- A table has as many entries as there are keys in it. -/
theorem Table.size_eq_ncard {K V : Type} [Ord K] [Std.TransOrd K] [Std.LawfulEqOrd K]
    [DecidableEq K] (t : Table K V) : t.size = {k | k ∈ t}.ncard := by
  have hkeys : {k | k ∈ t} = (t.keys.toFinset : Set K) := by
    ext k
    simp
  rw [hkeys, Set.ncard_coe_finset, List.toFinset_card_of_nodup Std.ExtTreeMap.nodup_keys,
    Std.ExtTreeMap.length_keys]

namespace WorldState

theorem size_eq_ncard (s : WorldState) : s.size = {a | ∃ x, s.account? a = some x}.ncard := by
  rw [size, Table.size_eq_ncard]
  congr 1
  ext a
  exact Table.mem_iff_exists s.accounts a

end WorldState

namespace Accumulator

variable {view : WorldView} {w : Accumulator}

/-! ## How an accumulator comes about -/

/-- The accumulators over a view. -/
inductive Reached (view : WorldView) : Accumulator → Prop
  | fresh : Reached view (.ofView view)
  | operation {w : Accumulator} (h : Reached view w) (op : Operation) :
    Reached view (op.execution.runOn w).2
  | revertTo {w : Accumulator} (h : Reached view w) (c : Checkpoint) : Reached view (w.revertTo c)
  | commit {w : Accumulator} (h : Reached view w) : Reached view w.commit
  | forget {w : Accumulator} (h : Reached view w) (a : Address) : Reached view (w.forget a)
  | importChanges {w source : Accumulator} (h : Reached view w) (hsource : Reached view source) :
    Reached view (w.importChanges source)
  | importPrior {w source : Accumulator} (h : Reached view w) (hsource : Reached view source) :
    Reached view (w.importPrior source)

/-- A checkpoint of any depth takes back some writes, the newest ones. -/
theorem exists_rewound_revertTo (hs : w.Sound) (c : Checkpoint) :
    ∃ v older, w.Rewound v older (w.revertTo c) :=
  ⟨_, _, rewound_revertTo_depth hs c⟩

/-- An accumulator over a view is sound, and the view stays what it stands on. -/
theorem Reached.sound_base (h : Reached view w) : w.Sound ∧ w.base = view := by
  -- Induction on the history; an imported accumulator has one of its own.
  induction h with
  | fresh => exact ⟨sound_ofView view, rfl⟩
  | operation _ op ih =>
    have hgrown := op.grows ih.1
    exact ⟨hgrown.sound, hgrown.base.trans ih.2⟩
  | revertTo _ c ih =>
    obtain ⟨v, older, hback⟩ := exists_rewound_revertTo ih.1 c
    exact ⟨hback.sound, hback.base.trans ih.2⟩
  | commit _ ih => exact ⟨sound_commit ih.1, ih.2⟩
  | forget _ a ih => exact ⟨sound_forget ih.1 a, ih.2⟩
  | importChanges _ _ ih ihsource =>
    exact ⟨sound_importChanges ih.1 ihsource.1 (ihsource.2.trans ih.2.symm), ih.2⟩
  | importPrior _ _ ih ihsource =>
    exact ⟨sound_importPrior ih.1 ihsource.1 (ihsource.2.trans ih.2.symm), ih.2⟩

/-! ## The state after its changes -/

variable {s : WorldState}

/-- The slots of the state after the changes. Those of an account that was deleted go with it. -/
theorem storageValue_apply_changes_eq (hs : w.Sound) (hbase : w.base = s.view) (k : StorageKey) :
    (s.apply w.changes).storageValue k =
      if s.account? k.address ≠ none ∧ w.values.account k.address = none then 0
      else w.values.slot k := by
  split
  · rename_i hdeleted
    -- An account that was there and is gone is a net change, with which its slots go.
    have hview : w.base.values.account k.address = s.account? k.address := by rw [hbase]; rfl
    have hnone : w.changes.accounts[k.address]? = some none := by
      rw [getElem?_accounts_changes hs, hview, hdeleted.2, if_neg hdeleted.1.symm]
    rw [WorldState.storageValue_apply, if_pos hnone]
  · rename_i hkept
    apply storageValue_apply_changes hs hbase
    intro hgone
    by_contra hhad
    exact hkept ⟨hhad, hgone⟩

/-- The state after the changes of an accumulator over it has the accounts and slots that the
accumulator answers with, and as many accounts as it answers to be there. Only the slots of an
account that it deleted are zero whatever it answers. -/
theorem Reached.apply_changes (h : Reached s.view w) :
    (∀ a, ∃ w', w.readAccount a = .ok ((s.apply w.changes).account? a, w')) ∧
    (∀ k, ∃ value w', w.readSlot k = .ok (value, w') ∧
      (s.apply w.changes).storageValue k =
        if s.account? k.address ≠ none ∧ (s.apply w.changes).account? k.address = none
        then 0 else value) ∧
    (s.apply w.changes).size = {a | ∃ x w', w.readAccount a = .ok (some x, w')}.ncard := by
  obtain ⟨hs, hbase⟩ := h.sound_base
  have hreads : ∀ a, ∃ w', w.readAccount a = .ok ((s.apply w.changes).account? a, w') := by
    intro a
    have hview : w.base.account a = .ok (s.account? a) := by rw [hbase]; rfl
    obtain ⟨w', hread, -⟩ := readAccount_of_ok hs hview
    exact ⟨w', by rw [hread, account?_apply_changes hs hbase]⟩
  refine ⟨hreads, ?_, ?_⟩
  · intro k
    have hview : w.base.storage k = .ok (s.storageValue k) := by rw [hbase]; rfl
    obtain ⟨w', hread, -⟩ := readSlot_of_ok hs hview
    refine ⟨w.values.slot k, w', hread, ?_⟩
    rw [account?_apply_changes hs hbase, storageValue_apply_changes_eq hs hbase]
  · rw [WorldState.size_eq_ncard]
    congr 1
    ext a
    -- What is read at an address is the account that the new state has there.
    obtain ⟨w', hread⟩ := hreads a
    constructor
    · rintro ⟨x, hx⟩
      exact ⟨x, w', by rw [hread, hx]⟩
    · rintro ⟨x, w'', hx⟩
      rw [hread] at hx
      exact ⟨x, (Prod.mk.inj (Except.ok.inj hx)).1⟩

/-! ## An empty account with storage -/

/-- A state with an empty account that holds a slot, and an account that is not empty. -/
def hollowState : WorldState :=
  (((∅ : WorldState).insertAccount 1 {}).insertAccount 2 (.plain 0 10)).setStorage ⟨1, 7⟩ 5

/-- The empty account is cleared and a new account paid; the other one is deleted, which is taken
back; and a slot of it is taken over from an accumulator that wrote it. -/
def hollowCleared : Accumulator :=
  let cleared := ((Operation.deleteIfEmpty 1).execution.runOn (.ofView hollowState.view)).2
  let paid := ((Operation.increaseBalance 3 4).execution.runOn cleared).2
  let restored := ((Operation.deleteAccount 2).execution.runOn paid).2.revertTo paid.checkpoint
  let source := ((Operation.setSlot ⟨2, 0⟩ 9).execution.runOn (.ofView hollowState.view)).2
  (restored.importChanges source).commit

theorem reached_hollowCleared : Reached hollowState.view hollowCleared :=
  .commit (.importChanges
    (.revertTo (.operation (.operation (.operation .fresh (.deleteIfEmpty 1))
      (.increaseBalance 3 4)) (.deleteAccount 2)) _)
    (.operation .fresh (.setSlot ⟨2, 0⟩ 9)))

/-- The slot of the cleared account is gone from the state, though the accumulator still answers
with it. -/
theorem apply_changes_hollowCleared :
    (∀ a, ∃ w', hollowCleared.readAccount a =
      .ok ((hollowState.apply hollowCleared.changes).account? a, w')) ∧
    (hollowCleared.readSlot ⟨1, 7⟩).toOption.map (·.1) = some 5 ∧
    (hollowState.apply hollowCleared.changes).storageValue ⟨1, 7⟩ = 0 ∧
    (hollowState.apply hollowCleared.changes).storageValue ⟨2, 0⟩ = 9 ∧
    {a | ∃ x w', hollowCleared.readAccount a = .ok (some x, w')}.ncard = 2 := by
  obtain ⟨haccounts, hslots, hsize⟩ := Reached.apply_changes reached_hollowCleared
  refine ⟨haccounts, by decide +kernel, ?_, by decide +kernel, ?_⟩
  · obtain ⟨value, w', -, hvalue⟩ := hslots ⟨1, 7⟩
    have hdeleted : hollowState.account? 1 ≠ none ∧
        (hollowState.apply hollowCleared.changes).account? 1 = none := by decide +kernel
    rw [hvalue, if_pos hdeleted]
  · rw [← hsize]
    decide +kernel

end Accumulator

/-! ## Deletions without slots -/

namespace Snapshot

variable {u v w : Snapshot}

/-- Whether every account of `u` that is gone in `v` has left no slot behind. -/
def LeavesNoSlots (u v : Snapshot) : Prop :=
  ∀ k, u.account k.address ≠ none → v.account k.address = none → v.slot k = 0

theorem LeavesNoSlots.refl (u : Snapshot) : LeavesNoSlots u u :=
  fun _ hhad hgone => absurd hgone hhad

/-- Leaving no slots carries over to what comes later, if nothing writes slots of an account that
is not there. -/
theorem LeavesNoSlots.trans (h₁ : LeavesNoSlots u v) (h₂ : LeavesNoSlots v w)
    (hframe : ∀ k, w.account k.address = none → w.slot k = v.slot k) : LeavesNoSlots u w := by
  intro k hhad hgone
  -- The account was gone already, or it is the second part that deletes it.
  by_cases hbetween : v.account k.address = none
  · rw [hframe k hgone]
    exact h₁ k hhad hbetween
  · exact h₂ k hbetween hgone

end Snapshot

/-- An accumulator that left no slots behind is reproduced as it is. -/
theorem Accumulator.values_view_apply {s : WorldState} {w : Accumulator} (hs : w.Sound)
    (hbase : w.base = s.view) (h : s.view.values.LeavesNoSlots w.values) :
    (s.apply w.changes).view.values = w.values := by
  ext1
  · funext a
    exact account?_apply_changes hs hbase a
  · funext k
    show (s.apply w.changes).storageValue k = w.values.slot k
    rw [storageValue_apply_changes_eq hs hbase]
    split
    · rename_i hdeleted
      exact (h k hdeleted.1 hdeleted.2).symm
    · rfl

end BlockExecution
