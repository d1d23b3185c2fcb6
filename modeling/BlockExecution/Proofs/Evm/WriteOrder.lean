/-
  The order of a diff makes no difference.

  A diff has one entry for each account, and an entry one value for each slot, in
  no order of their own. Writing an entry back is a sequence of operations at its
  address, so entries may be written in any order, and so may the slots of each.
  The beneficiary is no exception: what is special about it is decided entry by
  entry.
-/
import BlockExecution.Evm.StateDiff
import BlockExecution.Proofs.State.Commuting

namespace BlockExecution.Evm

variable {config : ProcessorConfig} {p : Payout} {d d' : AccountDiff} {diff diff' : StateDiff}

/-! ## Diffs as maps -/

/-- The same account with its slots in some order. -/
def AccountDiff.Reordered (d d' : AccountDiff) : Prop :=
  ∃ slots, d.slots.Perm slots ∧ d' = { d with slots }

namespace StateDiff

/-- The same accounts in some order, each with its slots in some order. -/
def Reordered (diff diff' : StateDiff) : Prop :=
  ∃ between : StateDiff, List.Forall₂ AccountDiff.Reordered diff between ∧ between.Perm diff'

/-- No account is listed twice, and no slot of an account is. -/
structure IsMap (diff : StateDiff) : Prop where
  addresses : (diff.map (·.address)).Nodup
  slots : ∀ d ∈ diff, (d.slots.map Prod.fst).Nodup

end StateDiff

/-! ## Operations of a diff -/

namespace AccountDiff

/-- The operations that give slots of an account their values. -/
def slotWrites (d : AccountDiff) (slots : List (Word × Word)) : List Operation :=
  slots.flatMap fun (slot, value) => [.setSlot ⟨d.address, slot⟩ value]

/-- The operations that write an account back. -/
def operations (config : ProcessorConfig) (p : Payout) (d : AccountDiff) : List Operation :=
  if d.isWritten p then
    if d.destroyed then [.deleteAccount d.address]
    else
      [.updateAccount d.address (d.applyTo p)] ++
        (d.slotWrites d.slots ++
          if config.clearEmptyAccounts then [.deleteIfEmpty d.address] else [])
  else []

theorem carriesOut_write (config : ProcessorConfig) (p : Payout) (d : AccountDiff) :
    (d.write config p).CarriesOut (d.operations config p) := by
  unfold write operations
  split
  · split
    · exact .deleteAccount d.address
    · refine (Execution.CarriesOut.updateAccount d.address _).bind fun _ => ?_
      refine (Execution.CarriesOut.forM (fun _ => .setSlot _ _) d.slots).bind fun _ => ?_
      split
      · exact .deleteIfEmpty d.address
      · exact .pure ()
  · exact .pure ()

/-- All of them are at the address of the entry. -/
theorem address_of_mem_operations {op : Operation} (h : op ∈ d.operations config p) :
    op.cell.address = d.address := by
  have hslot : ∀ slots, op ∈ d.slotWrites slots → op.cell.address = d.address := by
    intro slots hop
    obtain ⟨⟨slot, value⟩, -, hop⟩ := List.mem_flatMap.mp hop
    rw [List.mem_singleton.mp hop]
    rfl
  -- A deletion, or else an update, writes of slots and maybe a deletion if empty.
  unfold operations at h
  split at h
  · split at h
    · rw [List.mem_singleton.mp h]
      rfl
    · rcases List.mem_append.mp h with hupdate | hrest
      · rw [List.mem_singleton.mp hupdate]
        rfl
      · rcases List.mem_append.mp hrest with hslots | hclear
        · exact hslot d.slots hslots
        · split at hclear
          · rw [List.mem_singleton.mp hclear]
            rfl
          · cases hclear
  · cases h

/-- Slots of an account may be written in any order. -/
theorem acts_slotWrites_perm (d : AccountDiff) {slots slots' : List (Word × Word)}
    (hperm : slots.Perm slots') (hkeys : (slots.map Prod.fst).Nodup) (s : Shown) :
    Operation.acts (d.slotWrites slots) s = Operation.acts (d.slotWrites slots') s := by
  refine Operation.acts_flatMap_perm hperm ?_ s
  rintro ⟨slot, value⟩ hmem ⟨slot', value'⟩ hmem' hne op hop op' hop' hcell
  rw [List.mem_singleton.mp hop, List.mem_singleton.mp hop'] at hcell
  -- The cells are equal, so the keys are, and then the two are one and the same.
  have hslot : slot = slot' := congrArg StorageKey.slot (Cell.slot.inj hcell)
  exact hne (List.inj_on_of_nodup_map hkeys hmem hmem' hslot)

/-- An account is written back alike with its slots in any order. -/
theorem Reordered.acts_operations (h : d.Reordered d') (hkeys : (d.slots.map Prod.fst).Nodup)
    (config : ProcessorConfig) (p : Payout) (s : Shown) :
    Operation.acts (d.operations config p) s = Operation.acts (d'.operations config p) s := by
  obtain ⟨slots, hperm, rfl⟩ := h
  have hwritten : isWritten { d with slots } p = d.isWritten p := rfl
  have happlied : applyTo { d with slots } p = d.applyTo p := rfl
  unfold operations
  rw [hwritten, happlied]
  split
  · split
    · rfl
    · simp only [Operation.acts_append]
      exact congrArg _ (d.acts_slotWrites_perm hperm hkeys _)
  · rfl

end AccountDiff

namespace StateDiff

/-- The operations that write a diff back. -/
def operations (config : ProcessorConfig) (p : Payout) (diff : StateDiff) : List Operation :=
  diff.flatMap (AccountDiff.operations config p)

theorem carriesOut_write (config : ProcessorConfig) (p : Payout) (diff : StateDiff) :
    (diff.write config p).CarriesOut (diff.operations config p) :=
  .forM (AccountDiff.carriesOut_write config p) diff

theorem addresses_eq_of_forall₂ (hslots : List.Forall₂ AccountDiff.Reordered diff diff') :
    diff'.map (·.address) = diff.map (·.address) := by
  induction hslots with
  | nil => rfl
  | cons hd _ ih =>
    obtain ⟨slots, -, rfl⟩ := hd
    rw [List.map_cons, List.map_cons, ih]

/-- Entries are written alike with their slots in any order. -/
theorem acts_operations_of_forall₂ (hslots : List.Forall₂ AccountDiff.Reordered diff diff')
    (hkeys : ∀ d ∈ diff, (d.slots.map Prod.fst).Nodup) (config : ProcessorConfig) (p : Payout)
    (s : Shown) :
    Operation.acts (diff.operations config p) s = Operation.acts (diff'.operations config p) s := by
  unfold operations
  induction hslots generalizing s with
  | nil => rfl
  | @cons d d' rest rest' hd _ ih =>
    rw [List.flatMap_cons, List.flatMap_cons, Operation.acts_append, Operation.acts_append,
      hd.acts_operations (hkeys d List.mem_cons_self)]
    exact ih (fun e he => hkeys e (List.mem_cons_of_mem _ he)) _

/-- Entries may be written in any order. -/
theorem acts_operations_of_perm (haddresses : (diff.map (·.address)).Nodup)
    (hperm : diff.Perm diff') (config : ProcessorConfig) (p : Payout) (s : Shown) :
    Operation.acts (diff.operations config p) s = Operation.acts (diff'.operations config p) s := by
  refine Operation.acts_flatMap_perm hperm ?_ s
  intro d hd d' hd' hne op hop op' hop' hcell
  -- A common cell would be at the addresses of both.
  have haddress : d.address = d'.address := by
    rw [← AccountDiff.address_of_mem_operations hop, hcell,
      AccountDiff.address_of_mem_operations hop']
  exact hne (List.inj_on_of_nodup_map haddresses hd hd' haddress)

/-- A diff in any other order is written back, as in this one, with the same values, the same notes
of accesses and the same changes. -/
theorem write_reordered {view : WorldView} {w : Accumulator} (hw : Accumulator.Reached view w)
    (hr : view.Readable) (config : ProcessorConfig) (p : Payout) (hmap : diff.IsMap)
    (h : diff.Reordered diff') :
    ∃ w₁ w₂, (diff.write config p).runOn w = (.ok (), w₁) ∧
      (diff'.write config p).runOn w = (.ok (), w₂) ∧
      w₁.values = w₂.values ∧ w₁.tracker = w₂.tracker ∧ w₁.changes = w₂.changes := by
  obtain ⟨hs, hbase⟩ := hw.sound_base
  obtain ⟨between, hslots, hperm⟩ := h
  refine (diff.carriesOut_write config p).alike (diff'.carriesOut_write config p) ?_ hs
    (hbase ▸ hr)
  intro s
  have haddresses : (between.map (·.address)).Nodup := by
    rw [addresses_eq_of_forall₂ hslots]
    exact hmap.addresses
  calc Operation.acts (diff.operations config p) s
      = Operation.acts (between.operations config p) s :=
        acts_operations_of_forall₂ hslots hmap.slots config p s
    _ = Operation.acts (diff'.operations config p) s :=
        acts_operations_of_perm haddresses hperm config p s

/-- The beneficiary was paid and wrote two slots, one account destroyed itself, and another one was
touched and stays empty. -/
def mixedDiff : StateDiff :=
  [ { address := 2, account := .plain 1 15, slots := [(0, 4), (7, 9)] },
    { address := 1, account := {}, destroyed := true },
    { address := 3, account := {} } ]

/-- The same, from the last account to the first and with the slots the other way round. -/
def mixedDiffReordered : StateDiff :=
  [ { address := 3, account := {} },
    { address := 1, account := {}, destroyed := true },
    { address := 2, account := .plain 1 15, slots := [(7, 9), (0, 4)] } ]

/-- Both orders give the beneficiary the balance without the reward and clear the empty account. -/
theorem write_reordered_mixedDiff :
    let config : ProcessorConfig := { clearEmptyAccounts := true }
    let p : Payout := { beneficiary := 2, used := true, reward := 5 }
    let w := Accumulator.hollowCleared
    mixedDiff.IsMap ∧ mixedDiff.Reordered mixedDiffReordered ∧
      ∃ w₁ w₂, (mixedDiff.write config p).runOn w = (.ok (), w₁) ∧
        (mixedDiffReordered.write config p).runOn w = (.ok (), w₂) ∧
        (w₁.values = w₂.values ∧ w₁.tracker = w₂.tracker ∧ w₁.changes = w₂.changes) ∧
        w₁.values.account 2 = some (.plain 1 10) ∧ w₁.values.slot ⟨2, 7⟩ = 9 ∧
        w₁.values.account 3 = none := by
  intro config p w
  have hmap : mixedDiff.IsMap := ⟨by decide +kernel, by decide +kernel⟩
  have hslots : List.Forall₂ AccountDiff.Reordered mixedDiff
      [ { address := 2, account := .plain 1 15, slots := [(7, 9), (0, 4)] },
        { address := 1, account := {}, destroyed := true },
        { address := 3, account := {} } ] :=
    .cons ⟨[(7, 9), (0, 4)], .swap .., rfl⟩ (.cons ⟨[], .nil, rfl⟩ (.cons ⟨[], .nil, rfl⟩ .nil))
  have hreordered : mixedDiff.Reordered mixedDiffReordered :=
    ⟨_, hslots, (List.reverse_perm _).symm⟩
  obtain ⟨w₁, w₂, hrun, hrun', hsame⟩ :=
    write_reordered Accumulator.reached_hollowCleared Accumulator.hollowState.readable_view config p
      hmap hreordered
  have hfirst : w₁ = ((mixedDiff.write config p).runOn w).2 := by rw [hrun]
  refine ⟨hmap, hreordered, w₁, w₂, hrun, hrun', hsame, ?_, ?_, ?_⟩
  · rw [hfirst]
    decide +kernel
  · rw [hfirst]
    decide +kernel
  · rw [hfirst]
    decide +kernel

end StateDiff

end BlockExecution.Evm
