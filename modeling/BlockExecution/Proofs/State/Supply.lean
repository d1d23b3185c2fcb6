/-
  Nonces, balances and the sum of all balances.

  Addresses are finite in number, so the supply of a snapshot is a plain sum over
  all of them, and what one write does to it is one equation. For a world state
  it is the sum over its accounts.
-/
import BlockExecution.Proofs.State.Changes
import BlockExecution.Proofs.State.Ensures
import BlockExecution.Word.Lemmas

namespace BlockExecution

/-! ## Sums -/

/-- Sums that differ in one term differ by the difference of that term. -/
theorem sum_add_of_eq_off {ι : Type} [DecidableEq ι] {s : Finset ι} {f g : ι → Nat} {i : ι}
    (hi : i ∈ s) (h : ∀ j, j ≠ i → f j = g j) :
    ∑ j ∈ s, f j + g i = ∑ j ∈ s, g j + f i := by
  have hrest : ∑ j ∈ s.erase i, f j = ∑ j ∈ s.erase i, g j :=
    Finset.sum_congr rfl fun j hj => h j (Finset.ne_of_mem_erase hj)
  rw [← Finset.sum_erase_add s f hi, ← Finset.sum_erase_add s g hi, hrest]
  exact Nat.add_right_comm _ _ _

/-- A sum over the entries of a table is a sum over any set of keys that holds every key whose entry
counts. -/
theorem Table.sum_toList {K V : Type} [Ord K] [Std.TransOrd K] [Std.LawfulEqOrd K] [DecidableEq K]
    (t : Table K V) (f : K → V → Nat) (keys : Finset K)
    (h : ∀ k v, t[k]? = some v → k ∉ keys → f k v = 0) :
    (t.toList.map fun entry => f entry.1 entry.2).sum =
      ∑ k ∈ keys, (t[k]?.map (f k)).getD 0 := by
  have hkeys : (t.toList.map fun entry => f entry.1 entry.2) =
      t.keys.map fun k => (t[k]?.map (f k)).getD 0 := by
    rw [← Std.ExtTreeMap.map_fst_toList_eq_keys, List.map_map]
    apply List.map_congr_left
    rintro ⟨k, v⟩ hmem
    have hget : t[k]? = some v := Std.ExtTreeMap.mem_toList_iff_getElem?_eq_some.mp hmem
    show f k v = (t[k]?.map (f k)).getD 0
    rw [hget]
    rfl
  -- Keys that only one of the two sets has count nothing.
  rw [hkeys, ← List.sum_toFinset _ Std.ExtTreeMap.nodup_keys]
  apply Finset.sum_congr_of_eq_on_inter
  · intro k hk hnot
    obtain ⟨v, hv⟩ := (Table.mem_iff_exists t k).mp
      (Std.ExtTreeMap.mem_keys.mp (List.mem_toFinset.mp hk))
    rw [hv]
    exact h k v hv hnot
  · intro k _ hnot
    have hnone : t[k]? = none := by
      apply Std.ExtTreeMap.getElem?_eq_none
      intro hmem
      exact hnot (List.mem_toFinset.mpr (Std.ExtTreeMap.mem_keys.mpr hmem))
    rw [hnone]
    rfl
  · exact fun _ _ _ => rfl

/-! ## Nonces and balances of snapshots -/

namespace Snapshot

variable {u : Snapshot} {a b : Address}

/-- The nonce of an account, zero if there is none. -/
def nonce (u : Snapshot) (a : Address) : U64 := ((u.account a).getD {}).nonce

/-- The balance of an account, zero if there is none. -/
def balance (u : Snapshot) (a : Address) : Word := ((u.account a).getD {}).balance

theorem account_update_self (u : Snapshot) (a : Address) (f : Account → Account) :
    (u.update a f).account a = some (f ((u.account a).getD {})) :=
  account_setAccount_self ..

theorem account_update_of_ne (h : b ≠ a) (f : Account → Account) :
    (u.update a f).account b = u.account b :=
  account_setAccount_of_ne h ..

theorem account_update_ne_none {f : Account → Account} (h : u.account b ≠ none) :
    (u.update a f).account b ≠ none := by
  by_cases hab : b = a
  · rw [hab, account_update_self]
    exact Option.some_ne_none _
  · rw [account_update_of_ne hab]
    exact h

theorem balance_update_of_ne (h : b ≠ a) (f : Account → Account) :
    (u.update a f).balance b = u.balance b := by
  unfold balance
  rw [account_update_of_ne h]

theorem nonce_update_of_ne (h : b ≠ a) (f : Account → Account) :
    (u.update a f).nonce b = u.nonce b := by
  unfold nonce
  rw [account_update_of_ne h]

theorem balance_update_self (f : Account → Account) :
    (u.update a f).balance a = (f ((u.account a).getD {})).balance := by
  unfold balance
  rw [account_update_self, Option.getD_some]

theorem nonce_update_self (f : Account → Account) :
    (u.update a f).nonce a = (f ((u.account a).getD {})).nonce := by
  unfold nonce
  rw [account_update_self, Option.getD_some]

theorem nonce_credit (u : Snapshot) (a b : Address) (amount : Word) :
    (u.credit a amount).nonce b = u.nonce b := by
  by_cases h : b = a
  · subst h
    exact nonce_update_self _
  · exact nonce_update_of_ne h _

theorem nonce_debit (u : Snapshot) (a b : Address) (amount : Word) :
    (u.debit a amount).nonce b = u.nonce b := by
  by_cases h : b = a
  · subst h
    exact nonce_update_self _
  · exact nonce_update_of_ne h _

theorem balance_credit_self (u : Snapshot) (a : Address) (amount : Word) :
    (u.credit a amount).balance a = satAdd (u.balance a) amount :=
  balance_update_self _

theorem le_satAdd (x y : Word) : x.toNat ≤ (satAdd x y).toNat := by
  have hx : x.toNat < 2 ^ 256 := x.isLt
  rw [toNat_satAdd]
  omega

theorem satAdd_eq_zero {x y : Word} (h : satAdd x y = 0) : x = 0 ∧ y = 0 := by
  have hsum : (satAdd x y).toNat = 0 := by rw [h]; rfl
  rw [toNat_satAdd] at hsum
  have hx : x.toNat = 0 := by omega
  have hy : y.toNat = 0 := by omega
  exact ⟨BitVec.eq_of_toNat_eq hx, BitVec.eq_of_toNat_eq hy⟩

/-- A credit takes from nobody. -/
theorem balance_le_credit (u : Snapshot) (a b : Address) (amount : Word) :
    (u.balance b).toNat ≤ ((u.credit a amount).balance b).toNat := by
  by_cases h : b = a
  · subst h
    rw [balance_credit_self]
    exact le_satAdd _ _
  · rw [credit, balance_update_of_ne h]

/-- What an empty account has in common with none is the same after clearing. -/
theorem getD_clear {β : Type} {f : Account → β} (hf : ∀ x : Account, x.isEmpty = true → f x = f {})
    (u : Snapshot) (a b : Address) :
    f (((u.clear a).account b).getD {}) = f ((u.account b).getD {}) := by
  unfold clear
  split
  · rename_i hempty
    by_cases h : b = a
    · subst h
      rw [account_setAccount_self]
      cases hx : u.account b with
      | none => rfl
      | some x =>
        rw [hx, Option.any_some] at hempty
        exact (hf x hempty).symm
    · rw [account_setAccount_of_ne h]
  · rfl

theorem getD_of_isEmpty {x : Account} (h : x.isEmpty = true) : x.nonce = 0 ∧ x.balance = 0 := by
  unfold Account.isEmpty at h
  simp only [Bool.and_eq_true, beq_iff_eq] at h
  exact h.1

/-- An empty account counts as much as none. -/
theorem clear_eq (u : Snapshot) (a b : Address) :
    (u.clear a).nonce b = u.nonce b ∧ (u.clear a).balance b = u.balance b :=
  ⟨getD_clear (f := Account.nonce) (fun _ h => (getD_of_isEmpty h).1) u a b,
    getD_clear (f := Account.balance) (fun _ h => (getD_of_isEmpty h).2) u a b⟩

/-! ## Supply -/

/-- All addresses. -/
noncomputable def allAddresses : Finset Address :=
  @Finset.univ Address (Fintype.ofEquiv (Fin (2 ^ 160)) BitVec.equivFin.symm.toEquiv)

theorem mem_allAddresses (a : Address) : a ∈ allAddresses :=
  @Finset.mem_univ Address (Fintype.ofEquiv (Fin (2 ^ 160)) BitVec.equivFin.symm.toEquiv) a

/-- The sum of all balances. -/
noncomputable def supply (u : Snapshot) : Nat := ∑ a ∈ allAddresses, (u.balance a).toNat

theorem balance_le_supply (u : Snapshot) (a : Address) : (u.balance a).toNat ≤ u.supply :=
  Finset.single_le_sum (f := fun a => (u.balance a).toNat) (fun _ _ => Nat.zero_le _)
    (mem_allAddresses a)

theorem supply_congr {v : Snapshot} (h : ∀ a, v.balance a = u.balance a) :
    v.supply = u.supply :=
  Finset.sum_congr rfl fun a _ => by rw [h a]

/-- Rewriting one account changes the supply by the difference of its balances. -/
theorem supply_update (u : Snapshot) (a : Address) (f : Account → Account) :
    (u.update a f).supply + (u.balance a).toNat =
      u.supply + ((u.update a f).balance a).toNat :=
  sum_add_of_eq_off (f := fun b => ((u.update a f).balance b).toNat)
    (g := fun b => (u.balance b).toNat) (mem_allAddresses a) fun _ hb => by
      rw [balance_update_of_ne hb]

/-- Adding to a balance what the supply leaves room for adds just that. -/
theorem supply_update_satAdd {f : Account → Account} {amount : Word}
    (hf : ∀ x, (f x).balance = satAdd x.balance amount)
    (h : u.supply + amount.toNat < 2 ^ 256) (a : Address) :
    (u.update a f).supply = u.supply + amount.toNat := by
  have hsum := supply_update u a f
  have hle := balance_le_supply u a
  have hnat := toNat_satAdd (u.balance a) amount
  have hbalance : (u.update a f).balance a = satAdd (u.balance a) amount := by
    rw [balance_update_self, hf]
    rfl
  rw [hbalance, hnat] at hsum
  omega

/-- Taking from a balance what it covers takes just that. -/
theorem supply_update_satSub {f : Account → Account} {a : Address} {amount : Word}
    (hf : ∀ x, (f x).balance = satSub x.balance amount)
    (h : amount.toNat ≤ (u.balance a).toNat) :
    (u.update a f).supply + amount.toNat = u.supply := by
  have hsum := supply_update u a f
  have hnat := toNat_satSub (u.balance a) amount
  have hbalance : (u.update a f).balance a = satSub (u.balance a) amount := by
    rw [balance_update_self, hf]
    rfl
  rw [hbalance, hnat] at hsum
  omega

theorem supply_credit {amount : Word} (h : u.supply + amount.toNat < 2 ^ 256) (a : Address) :
    (u.credit a amount).supply = u.supply + amount.toNat :=
  supply_update_satAdd (fun _ => rfl) h a

theorem supply_debit {a : Address} {amount : Word}
    (h : amount.toNat ≤ (u.balance a).toNat) :
    (u.debit a amount).supply + amount.toNat = u.supply :=
  supply_update_satSub (fun _ => rfl) h

end Snapshot

/-- The sum of all balances. -/
def WorldState.supply (s : WorldState) : Nat :=
  (s.accounts.toList.map fun entry => entry.2.balance.toNat).sum

/-- The supply of a state is that of its values. -/
theorem WorldState.supply_eq (s : WorldState) {u : Snapshot} (h : ∀ a, u.account a = s.account? a) :
    s.supply = u.supply := by
  have hsum := Table.sum_toList s.accounts (fun _ x => x.balance.toNat) Snapshot.allAddresses
    fun a _ _ hnot => absurd (Snapshot.mem_allAddresses a) hnot
  rw [supply, hsum]
  apply Finset.sum_congr rfl
  intro a _
  rw [Snapshot.balance, h, account?]
  cases s.accounts[a]? <;> rfl

end BlockExecution
