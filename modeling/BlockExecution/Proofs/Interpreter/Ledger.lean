/-
  What a running transaction has read.

  An account is in use once it was read, and stays so: neither writes nor a
  failing frame make the ledger forget a read. A ledger covers a computation
  when every address that was asked about is in use.
-/
import BlockExecution.Interpreter.Ledger
import BlockExecution.Proofs.Evm.Payout
import BlockExecution.Proofs.Evm.Query

namespace BlockExecution.Interpreter

open BlockExecution.Evm (Reading StateDiff)

namespace Ledger

variable {l l' l'' : Ledger} {a b : Address} {asked asked' : Set Address}

/-- The accounts in use. -/
def inUse (l : Ledger) : Set Address := {a | a ∈ l.fetched}

theorem mem_inUse : a ∈ l.inUse ↔ l.fetched.contains a = true := Std.ExtTreeMap.mem_iff_contains

theorem inUse_congr (h : l'.fetched = l.fetched) : l'.inUse = l.inUse := by
  unfold inUse
  rw [h]

/-! ## Writes read nothing -/

@[simp] theorem fetched_warm (l : Ledger) (a : Address) : (l.warm a).fetched = l.fetched := rfl

@[simp] theorem fetched_deposit (l : Ledger) (a : Address) (amount : Word) :
    (l.deposit a amount).fetched = l.fetched := by
  unfold deposit
  dsimp only
  split <;> rfl

@[simp] theorem fetched_rollback (l : Ledger) (effects : Effects) :
    (l.rollback effects).fetched = l.fetched := by
  unfold rollback
  dsimp only
  split <;> rfl

@[simp] theorem fetched_bequeath (l : Ledger) (owner heir : Address) :
    (l.bequeath owner heir).fetched = l.fetched := by
  unfold bequeath
  dsimp only
  split <;> split <;> rfl

/-- A transfer, whether it moves the value or loses it, reads nothing. -/
theorem fetched_transfer {payer payee : Address} {value : Word}
    (h : l.transfer payer payee value = .moved l' ∨ l.transfer payer payee value = .overflow l') :
    l'.fetched = l.fetched := by
  unfold transfer at h
  dsimp only at h
  split_ifs at h
  · rcases h with h | h <;> cases h
  · rcases h with h | h <;> cases h
    rfl
  · rcases h with h | h <;> cases h
    rfl
  · rcases h with h | h <;> cases h
  · split at h <;> rcases h with h | h <;> cases h <;> rfl

theorem fetched_found? {creator created : Address} {value : Word}
    (h : l.found? creator created value = some l') : l'.fetched = l.fetched := by
  unfold found? at h
  obtain ⟨received, -, hfound⟩ := Option.bind_eq_some_iff.mp h
  obtain rfl := Option.some.inj hfound
  rfl

/-! ## Ledgers that cover what was asked -/

/-- The ledger `l'`, reached from `l`, has everything in use that was asked about. -/
structure Reaches (l l' : Ledger) (asked : Set Address) : Prop where
  covers : asked ⊆ l'.inUse
  keeps : l.inUse ⊆ l'.inUse

theorem Reaches.refl (h : asked ⊆ l.inUse) : l.Reaches l asked := ⟨h, subset_rfl⟩

theorem Reaches.trans (h : l.Reaches l' asked) (h' : l'.Reaches l'' asked') :
    l.Reaches l'' asked' :=
  ⟨h'.covers, h.keeps.trans h'.keeps⟩

theorem Reaches.of_fetched (h : asked ⊆ l.inUse) (hfetched : l'.fetched = l.fetched) :
    l.Reaches l' asked := by
  rw [← inUse_congr hfetched] at h
  exact ⟨h, (inUse_congr hfetched).symm.subset⟩

theorem load_of_not_fetched (h : l.fetched.contains a = false) :
    l.load a = Reading.account a >>= fun found =>
      pure { l.warm a with fetched := l.fetched.insert a found } := by
  unfold load
  dsimp only
  rw [fetched_warm, h, if_neg Bool.false_ne_true]

/-- Bringing an account into use. -/
theorem answers_load (h : asked ⊆ l.inUse) (a : Address) :
    (l.load a).Answers asked fun l' s => l.Reaches l' s ∧ a ∈ l'.inUse := by
  unfold load
  dsimp only
  split
  · rename_i hfetched
    exact .pure ⟨.of_fetched h rfl, mem_inUse.mpr hfetched⟩
  · have hread : (Reading.account a).Answers asked fun _ s => s = insert a asked :=
      .account fun _ => rfl
    apply hread.bind
    rintro found _ rfl
    -- What was asked about is brought into use at once.
    have hinsert : insert a l.inUse ⊆ ({ l.warm a with
        fetched := (l.warm a).fetched.insert a found } : Ledger).inUse := by
      rintro b (rfl | hb)
      · exact Std.ExtTreeMap.mem_insert_self
      · exact Std.ExtTreeMap.mem_insert.mpr (.inr hb)
    exact .pure ⟨⟨(Set.insert_subset_insert h).trans hinsert,
      (Set.subset_insert _ _).trans hinsert⟩, hinsert (Set.mem_insert _ _)⟩

/-- Reading a slot of an account in use. -/
theorem answers_loadSlot (h : asked ⊆ l.inUse) {key : StorageKey} (hkey : key.address ∈ l.inUse) :
    (l.loadSlot key).Answers asked fun result s => l.Reaches result.2 s := by
  unfold loadSlot
  dsimp only
  split
  · exact .pure (.of_fetched h rfl)
  · split
    · exact .pure (.of_fetched h rfl)
    · split
      · exact .pure (.of_fetched h rfl)
      · have hread : (Reading.slot key).Answers asked fun _ s => s = insert key.address asked :=
          .slot fun _ => rfl
        apply hread.bind
        rintro value _ rfl
        exact .pure (.of_fetched (Set.insert_subset hkey h) rfl)

/-! ## Diffs of ledgers that differ at one account -/

/-- What two ledgers have in common that differ at the account `b` only. -/
structure SameBut (b : Address) (l l' : Ledger) : Prop where
  accounts : ∀ a ≠ b, l'.effects.accounts[a]? = l.effects.accounts[a]?
  forfeited : l'.forfeited = l.forfeited
  slots : l'.effects.slots = l.effects.slots
  fetchedSlots : l'.fetchedSlots = l.fetchedSlots

theorem SameBut.trans (h : SameBut b l l') (h' : SameBut b l' l'') : SameBut b l l'' where
  accounts a ha := (h'.accounts a ha).trans (h.accounts a ha)
  forfeited := h'.forfeited.trans h.forfeited
  slots := h'.slots.trans h.slots
  fetchedSlots := h'.fetchedSlots.trans h.fetchedSlots

theorem sameBut_update (l : Ledger) (b : Address) (f : LiveAccount → LiveAccount) :
    SameBut b l (l.update b f) where
  accounts a ha := by
    show (l.effects.accounts.insert b (f (l.live b)))[a]? = _
    rw [Table.getElem?_insert_eq, if_neg (Ne.symm ha)]
  forfeited := rfl
  slots := rfl
  fetchedSlots := rfl

theorem sameBut_deposit (l : Ledger) (b : Address) (amount : Word) :
    SameBut b l (l.deposit b amount) := by
  unfold deposit
  dsimp only
  split
  · exact (sameBut_update l b _).trans (sameBut_update (l.touch b) b _)
  · exact sameBut_update l b _

/-- An account other than `b` is left the same. -/
theorem SameBut.account_eq (h : SameBut b l l') {a : Address} {live : LiveAccount}
    (hlive : l.effects.accounts[a]? = some live) (ha : a ≠ b) : l'.account a = l.account a := by
  have hlive' : l'.effects.accounts[a]? = some live := (h.accounts a ha).trans hlive
  have hsame : l'.live a = l.live a := by
    unfold Ledger.live
    rw [hlive, hlive']
  unfold Ledger.account balance forfeit
  rw [hsame, h.forfeited]

/-- Ledgers that differ at one account only have the same diff elsewhere. -/
theorem SameBut.diff_without (h : SameBut b l l') : l'.diff.without b = l.diff.without b := by
  -- Filtering the list of entries is dropping the key from the table.
  have hentries : ∀ l₀ : Ledger, l₀.effects.accounts.toList.filter (·.1 != b) =
      (l₀.effects.accounts.dropKeys (· == b)).toList := by
    intro l₀
    rw [Table.dropKeys, Std.ExtTreeMap.toList_filter]
    apply List.filter_congr
    intro e _
    rfl
  have htables : l'.effects.accounts.dropKeys (· == b) = l.effects.accounts.dropKeys (· == b) := by
    apply Std.ExtTreeMap.ext_getElem?
    intro a
    rw [Table.getElem?_dropKeys, Table.getElem?_dropKeys]
    split
    · rfl
    · rename_i hne
      exact h.accounts a fun heq => hne (beq_iff_eq.mpr heq)
  unfold StateDiff.without diff
  rw [List.filter_map, List.filter_map]
  show (l'.effects.accounts.toList.filter (·.1 != b)).map _ =
    (l.effects.accounts.toList.filter (·.1 != b)).map _
  rw [hentries l', htables, ← hentries l]
  apply List.map_congr_left
  rintro ⟨a, live⟩ hmem
  obtain ⟨hentry, hne⟩ := List.mem_filter.mp hmem
  have hlive : l.effects.accounts[a]? = some live :=
    Std.ExtTreeMap.mem_toList_iff_getElem?_eq_some.mp hentry
  dsimp only
  rw [h.account_eq hlive (bne_iff_ne.mp hne)]
  unfold changedSlots startSlot
  rw [h.slots, h.fetchedSlots]

end Ledger

end BlockExecution.Interpreter
