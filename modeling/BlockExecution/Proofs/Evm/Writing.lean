/-
  What a diff without slots leaves when it is written back.

  Entries of different accounts are written back each for itself. An account that
  is kept gets what its entry says, and is deleted at once if that is empty and
  empty accounts are deleted.
-/
import BlockExecution.Proofs.Evm.Payout
import BlockExecution.Proofs.State.Gives

namespace BlockExecution.Evm

open BlockExecution.Snapshot

variable {config : ProcessorConfig} {p : Payout} {d : AccountDiff} {diff : StateDiff}

namespace AccountDiff

/-- What is left of an account that is written back: none if it is empty and empty accounts are
deleted. -/
def left (config : ProcessorConfig) (x : Account) : Option Account :=
  if config.clearEmptyAccounts && x.isEmpty then none else some x

theorem left_of_not_isEmpty (config : ProcessorConfig) {x : Account} (h : x.isEmpty = false) :
    left config x = some x := by
  rw [left, h, Bool.and_false]
  rfl

/-- An entry of an account that is kept, without slots. -/
structure IsPlain (d : AccountDiff) : Prop where
  kept : d.destroyed = false
  slots : d.slots = []

theorem IsPlain.gives_write (h : d.IsPlain) (hwritten : d.isWritten p = true)
    (config : ProcessorConfig) (u : Snapshot) :
    (d.write config p).Gives u () (u.setAccount d.address
      (left config (d.applyTo p ((u.account d.address).getD {})))) := by
  have hupdate := Execution.Gives.updateAccount u d.address (d.applyTo p)
  unfold write left
  rw [if_pos hwritten, h.kept, if_neg Bool.false_ne_true, h.slots]
  refine hupdate.bind ((Execution.Gives.pure _ _).bind ?_)
  cases config.clearEmptyAccounts with
  | false => exact .pure _ _
  | true =>
    -- The account is there by now, so it is deleted exactly if it is empty.
    have hclear := Execution.Gives.deleteIfEmpty (u.update d.address (d.applyTo p)) d.address
    have hself : (u.update d.address (d.applyTo p)).account d.address =
        some (d.applyTo p ((u.account d.address).getD {})) := account_setAccount_self ..
    simp only [Snapshot.clear, hself, Option.any_some] at hclear
    simp only [if_true, Bool.true_and]
    split
    · rename_i hempty
      rw [if_pos hempty, update, setAccount_setAccount] at hclear
      exact hclear
    · rename_i hkept
      rw [if_neg hkept] at hclear
      exact hclear

end AccountDiff

/-- Entries of different accounts are written back each for itself, and the others are passed
over. -/
theorem StateDiff.gives_write (hplain : ∀ d ∈ diff, d.isWritten p = true → d.IsPlain)
    (haddresses : (diff.map (·.address)).Nodup) (config : ProcessorConfig) (u : Snapshot) :
    ∃ final, (diff.write config p).Gives u () final ∧ final.slot = u.slot ∧
      (∀ a, (∀ d ∈ diff, d.isWritten p = true → d.address ≠ a) →
        final.account a = u.account a) ∧
      ∀ d ∈ diff, d.isWritten p = true → final.account d.address =
        AccountDiff.left config (d.applyTo p ((u.account d.address).getD {})) := by
  induction diff generalizing u with
  | nil => exact ⟨u, .pure _ _, rfl, fun _ _ => rfl, fun d hd => nomatch hd⟩
  | cons d rest ih =>
    rw [List.map_cons, List.nodup_cons] at haddresses
    have hrestplain : ∀ e ∈ rest, e.isWritten p = true → e.IsPlain :=
      fun e he => hplain e (List.mem_cons_of_mem _ he)
    -- No later entry is of the same account.
    have hother : ∀ e ∈ rest, e.address ≠ d.address := fun e he heq =>
      haddresses.1 (heq ▸ List.mem_map_of_mem he)
    cases hwritten : d.isWritten p with
    | false =>
      obtain ⟨final, hrest, hslot, hothers, hentries⟩ := ih hrestplain haddresses.2 u
      refine ⟨final, ?_, hslot, fun a ha => ?_, fun e he hw => ?_⟩
      · have hskip : (d.write config p).Gives u () u := by
          rw [AccountDiff.write_of_not_written hwritten]
          exact .pure _ _
        exact hskip.bind hrest
      · exact hothers a fun e he => ha e (List.mem_cons_of_mem _ he)
      · rcases List.mem_cons.mp he with rfl | he
        · rw [hwritten] at hw
          cases hw
        · exact hentries e he hw
    | true =>
      have hd := (hplain d List.mem_cons_self hwritten).gives_write hwritten config u
      generalize hleft : AccountDiff.left config (d.applyTo p ((u.account d.address).getD {})) = x
        at hd
      obtain ⟨final, hrest, hslot, hothers, hentries⟩ :=
        ih hrestplain haddresses.2 (u.setAccount d.address x)
      refine ⟨final, hd.bind hrest, hslot, fun a ha => ?_, fun e he hw => ?_⟩
      · have hne : a ≠ d.address := Ne.symm (ha d List.mem_cons_self hwritten)
        rw [hothers a fun e he => ha e (List.mem_cons_of_mem _ he),
          account_setAccount_of_ne hne]
      · rcases List.mem_cons.mp he with rfl | he
        · rw [hothers _ fun d hd _ => hother d hd, account_setAccount_self, hleft]
        · rw [hentries e he hw, account_setAccount_of_ne (hother e he)]

end BlockExecution.Evm
