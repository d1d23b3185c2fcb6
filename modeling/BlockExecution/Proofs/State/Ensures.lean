/-
  Total correctness of executions over readable views.

  An execution ensures a postcondition from a snapshot when every run from
  accumulators of these values ends without a failed read and in values that
  satisfy it. One rule for each access and one for rollback lead from there to
  whole transactions, without any further look at accumulators.
-/
import BlockExecution.Proofs.State.Execution

namespace BlockExecution

open BlockExecution.Snapshot

variable {α β : Type}

/-! ## Changes of snapshots -/

namespace Snapshot

/-- Applies `f` to an account, starting from an empty one if there is none. -/
def update (u : Snapshot) (a : Address) (f : Account → Account) : Snapshot :=
  u.setAccount a (some (f ((u.account a).getD {})))

/-- Removes an account if it is there and empty. -/
def clear (u : Snapshot) (a : Address) : Snapshot :=
  if (u.account a).any (·.isEmpty) then u.setAccount a none else u

/-- Adds to a balance, stopping at the largest one. -/
def credit (u : Snapshot) (a : Address) (amount : Word) : Snapshot :=
  u.update a fun account => { account with balance := satAdd account.balance amount }

/-- Takes from a balance, stopping at zero. -/
def debit (u : Snapshot) (a : Address) (amount : Word) : Snapshot :=
  u.update a fun account => { account with balance := satSub account.balance amount }

end Snapshot

namespace Execution

variable {u : Snapshot} {x : Execution α} {post : α → Snapshot → Prop}

/-- Every run from the values `u` over a readable view answers, and answer and final values
satisfy `post`. -/
def Ensures (x : Execution α) (u : Snapshot) (post : α → Snapshot → Prop) : Prop :=
  ∀ w : Accumulator, w.Sound → w.base.Readable → w.values = u →
    ∃ a w', x.runOn w = (.ok a, w') ∧ w.Extends w' ∧ post a w'.values

namespace Ensures

theorem mono {post' : α → Snapshot → Prop} (h : x.Ensures u post)
    (himp : ∀ a v, post a v → post' a v) : x.Ensures u post' := by
  intro w hw hr hu
  obtain ⟨a, w', hrun, hext, hpost⟩ := h w hw hr hu
  exact ⟨a, w', hrun, hext, himp a _ hpost⟩

theorem pure {a : α} (h : post a u) : (Pure.pure a : Execution α).Ensures u post :=
  fun w hw _ hu => ⟨a, w, rfl, .refl hw, hu ▸ h⟩

theorem bind {f : α → Execution β} {post' : β → Snapshot → Prop} (hx : x.Ensures u post)
    (hf : ∀ a v, post a v → (f a).Ensures v post') : (x >>= f).Ensures u post' := by
  intro w hw hr hu
  obtain ⟨a, w₁, hrun, hext, hpost⟩ := hx w hw hr hu
  obtain ⟨b, w₂, hrun', hext', hpost'⟩ := hf a _ hpost w₁ hext.sound (hext.base ▸ hr) rfl
  exact ⟨b, w₂, (runOn_bind_of_ok hrun).trans hrun', hext.trans hext', hpost'⟩

/-! ## Accesses -/

/-- An access ensures what holds of its answer and its effect. -/
theorem of_isAccess {c : Cell} {answer : Snapshot → α} {effect : Snapshot → Snapshot}
    {writes : Snapshot → List JournalEntry} (hx : x.IsAccess c answer effect writes)
    (h : post (answer u) (effect u)) : x.Ensures u post := by
  rintro w hw hr rfl
  obtain ⟨w', hrun, hext, hacc⟩ := hx.answers hw hr
  refine ⟨_, w', hrun, hext, ?_⟩
  rw [hacc.values]
  exact h

theorem account {a : Address} {post : Option Account → Snapshot → Prop}
    (h : post (u.account a) u) : (Execution.account a).Ensures u post :=
  of_isAccess (isAccess_account a) h

theorem slot {k : StorageKey} {post : Word → Snapshot → Prop} (h : post (u.slot k) u) :
    (Execution.slot k).Ensures u post :=
  of_isAccess (isAccess_slot k) h

theorem writeAccount {a : Address} {f : Option Account → Option Account}
    {post : Unit → Snapshot → Prop} (h : post () (u.setAccount a (f (u.account a)))) :
    (ofWrite (·.writeAccount a f)).Ensures u post :=
  of_isAccess (isAccess_writeAccount a f) h

theorem updateAccount {a : Address} {f : Account → Account} {post : Unit → Snapshot → Prop}
    (h : post () (u.update a f)) : (Execution.updateAccount a f).Ensures u post :=
  writeAccount h

theorem increaseBalance {a : Address} {amount : Word} {post : Unit → Snapshot → Prop}
    (h : post () (u.credit a amount)) : (Execution.increaseBalance a amount).Ensures u post := by
  show (Execution.updateAccount a _).Ensures u post
  exact updateAccount h

theorem decreaseBalance {a : Address} {amount : Word} {post : Unit → Snapshot → Prop}
    (h : post () (u.debit a amount)) : (Execution.decreaseBalance a amount).Ensures u post := by
  show (Execution.updateAccount a _).Ensures u post
  exact updateAccount h

theorem setSlot {k : StorageKey} {value : Word} {post : Unit → Snapshot → Prop}
    (h : post () (u.setSlot k value)) : (Execution.setSlot k value).Ensures u post :=
  of_isAccess (isAccess_setSlot k value) h

theorem deleteIfEmpty {a : Address} {post : Unit → Snapshot → Prop} (h : post () (u.clear a)) :
    (Execution.deleteIfEmpty a).Ensures u post := by
  -- On a sound accumulator it is a read and, after it, a deletion or nothing.
  have htwo : (Execution.account a >>= fun found : Option Account =>
      if found.any (·.isEmpty) then Execution.deleteAccount a
      else Pure.pure ()).Ensures u post := by
    have hread : (Execution.account a).Ensures u fun found v => found = u.account a ∧ v = u :=
      account ⟨rfl, rfl⟩
    apply hread.bind
    rintro found v ⟨rfl, rfl⟩
    unfold clear at h
    split
    · rename_i hempty
      rw [if_pos hempty] at h
      exact writeAccount h
    · rename_i hempty
      rw [if_neg hempty] at h
      exact pure h
  intro w hw hr hu
  rw [runOn_deleteIfEmpty hw]
  exact htwo w hw hr hu

/-! ## Rollback -/

/-- A body after a checkpoint, and what follows on its values or, if they were taken back, on those
from before. -/
theorem attempt {body : Execution α} {post : α → Snapshot → Prop} {post' : β → Snapshot → Prop}
    (hbody : body.Ensures u post) {undone : α → Bool} {next : α → Execution β}
    (hkept : ∀ a v, post a v → undone a = false → (next a).Ensures v post')
    (hundone : ∀ a v, post a v → undone a = true → (next a).Ensures u post')
    {after : Checkpoint → α → Execution β}
    (hafter : ∀ start a, after start a =
      if undone a then (do Execution.revertTo start; next a) else next a) :
    (do
      let start ← Execution.checkpoint
      let a ← body
      after start a).Ensures u post' := by
  intro w hw hr hu
  obtain ⟨a, w₁, hrun, hext, hpost⟩ := hbody w hw hr hu
  have hstart : Execution.checkpoint.runOn w = (.ok w.checkpoint, w) := rfl
  rw [runOn_bind_of_ok hstart, runOn_bind_of_ok hrun, hafter]
  have hr₁ : w₁.base.Readable := hext.base ▸ hr
  -- If the body is taken back, what follows starts from the values of the checkpoint.
  by_cases h : undone a = true
  · have hback := hext.revertTo
    have hbackExt := hback.extends hext
    have hrevert : (Execution.revertTo w.checkpoint).runOn w₁ =
        (.ok (), w₁.revertTo w.checkpoint) := rfl
    obtain ⟨b, w₂, hnext, hext', hpost'⟩ := hundone a _ hpost h
      (w₁.revertTo w.checkpoint) hback.sound (hback.base ▸ hr₁) (hback.values.trans hu)
    rw [if_pos h, runOn_bind_of_ok hrevert]
    exact ⟨b, w₂, hnext, hbackExt.trans hext', hpost'⟩
  · obtain ⟨b, w₂, hnext, hext', hpost'⟩ :=
      hkept a _ hpost (Bool.not_eq_true _ ▸ h) w₁ hext.sound hr₁ rfl
    rw [if_neg h]
    exact ⟨b, w₂, hnext, hext.trans hext', hpost'⟩

end Ensures

end Execution

end BlockExecution
