/-
  What is written back, seen from the beneficiary.

  A beneficiary that the transaction did not use is left out when its effects are
  written, and what is written elsewhere does not depend on it.
-/
import BlockExecution.Evm.StateDiff
import BlockExecution.Proofs.State.Confined

namespace BlockExecution.Evm

variable {config : ProcessorConfig} {p : Payout} {d : AccountDiff} {diff : StateDiff}

/-! ## Writing -/

theorem AccountDiff.write_of_not_written (h : d.isWritten p = false) (config : ProcessorConfig) :
    d.write config p = pure () := by
  unfold write
  rw [h]
  rfl

theorem AccountDiff.confined_write (config : ProcessorConfig) (p : Payout) (d : AccountDiff)
    {addresses : Set Address} (h : d.address ∈ addresses) :
    (d.write config p).Confined addresses := by
  unfold write
  split
  · split
    · exact .deleteAccount h
    · apply (Execution.Confined.updateAccount h _).bind
      intro _
      refine (Execution.Confined.forM fun slot _ => .setSlot h slot.2).bind fun _ => ?_
      split
      · exact .deleteIfEmpty h
      · exact .pure () _
  · exact .pure () _

theorem StateDiff.confined_write (config : ProcessorConfig) (p : Payout) {diff : StateDiff}
    {addresses : Set Address} (h : ∀ d ∈ diff, d.address ∈ addresses) :
    (StateDiff.write config p diff).Confined addresses :=
  .forM fun d hd => d.confined_write config p (h d hd)

/-- A diff without the account at an address. -/
def StateDiff.without (diff : StateDiff) (b : Address) : StateDiff :=
  diff.filter (·.address != b)

/-- A beneficiary that was not used is passed over. -/
theorem StateDiff.write_without (config : ProcessorConfig) (hused : p.used = false)
    (diff : StateDiff) : (diff.without p.beneficiary).write config p = diff.write config p := by
  have hcons : ∀ (d : AccountDiff) (rest : List AccountDiff),
      (d :: rest).forM (AccountDiff.write config p) =
        d.write config p >>= fun _ => rest.forM (AccountDiff.write config p) := fun _ _ => rfl
  unfold without write
  induction diff with
  | nil => rfl
  | cons d rest ih =>
    rw [List.filter_cons]
    by_cases h : d.address = p.beneficiary
    · -- This is the account that the write passes over.
      have hnot : d.isWritten p = false := by
        unfold AccountDiff.isWritten
        rw [hused, h, bne_self_eq_false, Bool.or_false, Bool.and_false]
      have hskipped : d.write config p = pure () := AccountDiff.write_of_not_written hnot config
      rw [h, bne_self_eq_false, if_neg Bool.false_ne_true, ih, hcons, hskipped,
        pure_bind]
    · rw [if_pos (bne_iff_ne.mpr h), hcons, hcons, ih]

end BlockExecution.Evm
