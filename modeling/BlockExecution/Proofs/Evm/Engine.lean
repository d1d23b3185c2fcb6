/-
  What processing relies on of a machine.

  By its type a machine learns of the state through its questions alone, and what
  it reports is a function of the answers and of what it was told. One thing
  comes on top: the reward is credited after the outermost frame has returned. By
  then everything that was asked about is loaded, so an observer of the frames
  sees whether the transaction itself used the beneficiary. If it did not, the
  beneficiary is read for its reward, and the rest of the diff does not depend on
  what is found. How large the reward is does not matter.
-/
import BlockExecution.Evm.Engine
import BlockExecution.Proofs.Evm.Payout
import BlockExecution.Proofs.Evm.Query

namespace BlockExecution.Evm

variable {events inner : List FrameEvent} {o : Observer}

/-! ## Frames -/

/-- Frames that open and close in pairs. -/
inductive Nested : List FrameEvent → Prop where
  | nil : Nested []
  | frame {inner rest : List FrameEvent} (loaded : List Address) :
    Nested inner → Nested rest → Nested (.opened :: inner ++ .closed loaded :: rest)

theorem Observer.watch_cons (o : Observer) (event : FrameEvent) (events : List FrameEvent) :
    o.watch (event :: events) = (o.observe event).watch events := rfl

theorem Observer.watch_append (o : Observer) (before after : List FrameEvent) :
    o.watch (before ++ after) = (o.watch before).watch after :=
  List.foldl_append

/-- Inside an open frame an observer learns nothing from the frames that open and close there. -/
theorem Nested.watch_eq (h : Nested events) (hopen : 0 < o.depth) : o.watch events = o := by
  induction h generalizing o with
  | nil => rfl
  | frame loaded _ _ ihinner ihrest =>
    -- The frame itself is no outermost one, and after it the observer is where it was.
    have hdepth : ({ o with depth := o.depth + 1 } : Observer).observe (.closed loaded) = o := by
      simp only [Observer.observe, Nat.add_sub_cancel, if_neg (Nat.ne_of_gt hopen)]
    rw [List.cons_append, Observer.watch_cons, Observer.watch_append]
    rw [ihinner (o := o.observe .opened) (Nat.succ_pos _), Observer.watch_cons]
    show ((({ o with depth := o.depth + 1 } : Observer).observe (.closed loaded)).watch _) = o
    rw [hdepth, ihrest hopen]

/-- What counts is what is loaded when the outermost frame closes. -/
theorem touchedBeforeReward_outermost (h : Nested inner) (beneficiary : Address)
    (loaded : List Address) :
    touchedBeforeReward beneficiary (.opened :: inner ++ [.closed loaded]) =
      loaded.contains beneficiary := by
  rw [touchedBeforeReward, List.cons_append, Observer.watch_cons, Observer.watch_append,
    h.watch_eq (Nat.succ_pos _)]
  rfl

/-! ## The reward comes last -/

/-- A transaction whose outermost frame has returned. -/
structure Returned where
  result : ExecutionResult
  /-- The frames that were opened and closed within the outermost one. -/
  inner : List FrameEvent
  /-- The accounts that are loaded when the outermost frame closes. -/
  loaded : List Address
  /-- The diff with the reward in it, from the account of a beneficiary that is read for it. -/
  credited : Option Account → StateDiff

namespace Returned

/-- The run, with what a beneficiary that was not loaded is found to be. -/
def run (r : Returned) (found : Option Account) : EngineRun where
  result := r.result
  diff := r.credited found
  events := .opened :: r.inner ++ [.closed r.loaded]

/-- Credits the reward. A beneficiary that is not loaded is read for it. -/
def pay (r : Returned) (beneficiary : Address) : Reading EngineRun :=
  if beneficiary ∈ r.loaded then pure (r.run none)
  else Reading.account beneficiary >>= fun found => pure (r.run found)

/-- A transaction that returned in order, having asked about the addresses `asked`. -/
structure Regular (r : Returned) (beneficiary : Address) (asked : Set Address) : Prop where
  nested : Nested r.inner
  /-- What was asked about stays loaded. -/
  loads : ∀ a ∈ asked, a ∈ r.loaded
  /-- A beneficiary that is read for its reward makes no difference but for its own entry. -/
  elsewhere : beneficiary ∉ r.loaded → ∀ found,
    (r.credited found).without beneficiary = (r.credited none).without beneficiary

end Returned

/-- What a machine makes of a transaction that it did not refuse, once the outermost frame has
returned. -/
def payReward (beneficiary : Address) :
    Except Refusal Returned → Reading (Except Refusal EngineRun)
  | .error refusal => pure (.error refusal)
  | .ok r => r.pay beneficiary >>= fun run => pure (.ok run)

/-- The part of a machine's work on an input that comes before the reward. It asks for no code by
its hash, since accounts come with their code, and what returns from it is regular. -/
structure Engine.IsFront (e : Engine) (i : Input) (front : Reading (Except Refusal Returned)) :
    Prop where
  splits : e i = front >>= payReward i.block.beneficiary
  tracks : front.Tracks ∅ fun answer asked =>
    ∀ r, answer = .ok r → r.Regular i.block.beneficiary asked

/-- Whatever the machine is told, it credits the reward after the outermost frame has returned. -/
def Engine.CreditsLast (e : Engine) : Prop := ∀ i : Input, ∃ front, e.IsFront i front

/-! ## Runs that returned -/

namespace Returned

variable {r : Returned} {asked : Set Address} {ctx : BlockContext} {t : Transaction}

theorem payout_run (h : r.Regular ctx.beneficiary asked) (found : Option Account) :
    (r.run found).payout ctx t =
      ⟨ctx.beneficiary, r.loaded.contains ctx.beneficiary,
        rewardFor ctx.header t r.result.gasUsed⟩ := by
  rw [EngineRun.payout, run, touchedBeforeReward_outermost h.nested]

theorem Regular.not_mem_asked {beneficiary : Address} (h : r.Regular beneficiary asked)
    (hloaded : beneficiary ∉ r.loaded) : beneficiary ∉ asked :=
  fun hasked => hloaded (h.loads _ hasked)

/-- What a beneficiary is found to be that is read for its reward does not show in what is written
back. -/
theorem write_run (h : r.Regular ctx.beneficiary asked) (hloaded : ctx.beneficiary ∉ r.loaded)
    (config : ProcessorConfig) (found : Option Account) :
    (r.run found).diff.write config ((r.run found).payout ctx t) =
      ((r.credited none).without ctx.beneficiary).write config ((r.run none).payout ctx t) := by
  have hunused : ((r.run none).payout ctx t).used = false := by
    rw [payout_run h, List.contains_eq_mem, decide_eq_false hloaded]
  have hsame : (r.run found).payout ctx t = (r.run none).payout ctx t := by
    rw [payout_run h, payout_run h]
  rw [hsame, ← StateDiff.write_without config hunused (r.run found).diff]
  exact congrArg (StateDiff.write config _) (h.elsewhere hloaded found)

end Returned

end BlockExecution.Evm
