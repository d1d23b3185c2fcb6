/-
  Exact results of executions over readable views.

  An execution gives an answer and values from a snapshot when every run from
  accumulators of these values ends so. What a run ensures then holds of what it
  gives, since there is a view for every snapshot.
-/
import BlockExecution.Proofs.State.Ensures

namespace BlockExecution

open BlockExecution.Snapshot

namespace Execution

variable {α β : Type} {x : Execution α} {u v w : Snapshot} {a : α} {b : β}

/-- Every run from the values `u` over a readable view answers `a` and leaves the values `v`. -/
def Gives (x : Execution α) (u : Snapshot) (a : α) (v : Snapshot) : Prop :=
  x.Ensures u fun b w => b = a ∧ w = v

namespace Gives

theorem pure (u : Snapshot) (a : α) : (Pure.pure a : Execution α).Gives u a u :=
  Ensures.pure ⟨rfl, rfl⟩

theorem bind {f : α → Execution β} (hx : x.Gives u a v) (hf : (f a).Gives v b w) :
    (x >>= f).Gives u b w := by
  apply Ensures.bind hx
  rintro _ _ ⟨rfl, rfl⟩
  exact hf

theorem account (u : Snapshot) (address : Address) :
    (Execution.account address).Gives u (u.account address) u :=
  Ensures.account ⟨rfl, rfl⟩

theorem slot (u : Snapshot) (key : StorageKey) : (Execution.slot key).Gives u (u.slot key) u :=
  Ensures.slot ⟨rfl, rfl⟩

theorem updateAccount (u : Snapshot) (address : Address) (f : Account → Account) :
    (Execution.updateAccount address f).Gives u () (u.update address f) :=
  Ensures.updateAccount ⟨rfl, rfl⟩

theorem increaseBalance (u : Snapshot) (address : Address) (amount : Word) :
    (Execution.increaseBalance address amount).Gives u () (u.credit address amount) :=
  Ensures.increaseBalance ⟨rfl, rfl⟩

theorem decreaseBalance (u : Snapshot) (address : Address) (amount : Word) :
    (Execution.decreaseBalance address amount).Gives u () (u.debit address amount) :=
  Ensures.decreaseBalance ⟨rfl, rfl⟩

theorem setSlot (u : Snapshot) (key : StorageKey) (value : Word) :
    (Execution.setSlot key value).Gives u () (u.setSlot key value) :=
  Ensures.setSlot ⟨rfl, rfl⟩

theorem deleteIfEmpty (u : Snapshot) (address : Address) :
    (Execution.deleteIfEmpty address).Gives u () (u.clear address) :=
  Ensures.deleteIfEmpty ⟨rfl, rfl⟩

/-- A body after a checkpoint, and what follows on the values that it leaves or, if it is undone, on
those from before. -/
theorem attempt {body : Execution α} (hbody : body.Gives u a v) {undone : α → Bool}
    {next : α → Execution β} (hnext : (next a).Gives (if undone a then u else v) b w)
    {after : Checkpoint → α → Execution β}
    (hafter : ∀ start a, after start a =
      if undone a then (do Execution.revertTo start; next a) else next a) :
    (do
      let start ← Execution.checkpoint
      let a ← body
      after start a).Gives u b w := by
  refine Ensures.attempt hbody ?_ ?_ hafter
  · rintro _ _ ⟨rfl, rfl⟩ hkept
    rw [if_neg (by rw [hkept]; exact Bool.false_ne_true)] at hnext
    exact hnext
  · rintro _ _ ⟨rfl, rfl⟩ hundone
    rw [if_pos hundone] at hnext
    exact hnext

/-! ## Runs -/

/-- The run from an accumulator of these values. -/
theorem run {acc : Accumulator} (hx : x.Gives acc.values a v) (hs : acc.Sound)
    (hr : acc.base.Readable) :
    ∃ after, x.runOn acc = (.ok a, after) ∧ acc.Extends after ∧ after.values = v := by
  obtain ⟨b, after, hrun, hext, rfl, hvalues⟩ := hx acc hs hr rfl
  exact ⟨after, hrun, hext, hvalues⟩

/-- What every run ensures holds of what the runs give. -/
theorem post {post : α → Snapshot → Prop} (hx : x.Gives u a v) (h : x.Ensures u post) :
    post a v := by
  -- There is a run from these values, on the view that consists of them.
  let view : WorldView :=
    { account := fun address => .ok (u.account address)
      storage := fun key => .ok (u.slot key)
      code := fun _ => .ok none }
  have hreadable : view.Readable := ⟨fun _ => ⟨_, rfl⟩, fun _ => ⟨_, rfl⟩⟩
  have hs := Accumulator.sound_ofView view
  obtain ⟨after, hrun, -, hvalues⟩ := run hx hs hreadable
  obtain ⟨b, after', hrun', -, hpost⟩ := h (.ofView view) hs hreadable rfl
  rw [hrun, Prod.mk.injEq, Except.ok.injEq] at hrun'
  obtain ⟨rfl, rfl⟩ := hrun'
  rw [← hvalues]
  exact hpost

end Gives

end Execution

end BlockExecution
