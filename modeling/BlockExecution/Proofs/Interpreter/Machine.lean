/-
  A run asks about accounts in use only.

  The invariant of a machine: what was asked about is in use, and so is every
  account that runs or waits. One instruction keeps it, whether it goes on, calls
  or ends the frame, and by induction on the number of steps so does a run.
-/
import BlockExecution.Proofs.Interpreter.Step

namespace BlockExecution.Interpreter

open BlockExecution.Evm (Input Query)

variable {env : Input} {l l' : Ledger} {f : Frame} {waiting : List Waiting} {m : Machine}
  {asked : Set Address}

/-! ## The invariant -/

/-- All that was asked about is in use, and so are the accounts that run and wait. -/
structure Machine.Standing (m : Machine) (asked : Set Address) : Prop where
  covers : asked ⊆ m.ledger.inUse
  frame : m.frame.address ∈ m.ledger.inUse
  waiting : ∀ w ∈ m.waiting, w.frame.address ∈ m.ledger.inUse

/-- A running machine keeps the invariant; what is left at the end covers what was asked. -/
def Progress.Standing (p : Progress) (asked : Set Address) : Prop :=
  match p with
  | .running m => m.Standing asked
  | .ended o => asked ⊆ o.ledger.inUse
  | .aborted _ => True

theorem Outcome.fetched_keepOrUndo (o : Outcome) (before : Effects) :
    (o.keepOrUndo before).ledger.fetched = o.ledger.fetched := by
  unfold keepOrUndo
  split
  · rfl
  · exact Ledger.fetched_rollback _ _

/-- The caller goes on with what its call has read. -/
theorem Outcome.standing_proceed {o : Outcome} (hcovers : asked ⊆ o.ledger.inUse)
    (hwaiting : ∀ w ∈ waiting, w.frame.address ∈ o.ledger.inUse) :
    (o.proceed waiting).Standing asked := by
  cases waiting with
  | nil => exact hcovers
  | cons w waiting =>
    unfold proceed
    cases o.ending.failedRead? with
    | some e => trivial
    | none =>
      -- Undoing effects forgets no read.
      have hsame : (o.keepOrUndo w.effects).ledger.inUse = o.ledger.inUse :=
        Ledger.inUse_congr (o.fetched_keepOrUndo w.effects)
      constructor
      · exact hsame ▸ hcovers
      · show w.frame.address ∈ (o.keepOrUndo w.effects).ledger.inUse
        rw [hsame]
        exact hwaiting w List.mem_cons_self
      · show ∀ w' ∈ waiting, w'.frame.address ∈ (o.keepOrUndo w.effects).ledger.inUse
        rw [hsame]
        exact fun w' hw' => hwaiting w' (List.mem_cons_of_mem _ hw')

/-- A call begins in the name of its recipient. -/
theorem Call.standing_begin {c : Call} (hcovers : asked ⊆ l.inUse)
    (hrecipient : c.recipient ∈ l.inUse)
    (hwaiting : ∀ w ∈ waiting, w.frame.address ∈ l.inUse) :
    (c.begin l waiting).Standing asked := by
  unfold begin
  split
  · exact Outcome.standing_proceed hcovers hwaiting
  · split
    · exact Outcome.standing_proceed hcovers hwaiting
    · rename_i l' hoverflow
      -- A transfer brings no account into use, also where the recipient's balance overflows.
      have hsame := Ledger.inUse_congr (Ledger.fetched_transfer (.inr hoverflow))
      rw [← hsame] at hcovers hwaiting
      exact Outcome.standing_proceed hcovers hwaiting
    · rename_i l' hmoved
      have hsame := Ledger.inUse_congr (Ledger.fetched_transfer (.inl hmoved))
      rw [← hsame] at hcovers hrecipient hwaiting
      split
      · exact Outcome.standing_proceed hcovers hwaiting
      · exact ⟨hcovers, hrecipient, hwaiting⟩

/-! ## One instruction -/

namespace Machine

/-- A steady part of an instruction, and what is made of its result. -/
theorem tracks_attempt {α : Type} {x : Step α} {next : Ledger → α → Progress}
    {post : α → Ledger → Prop} (hasked : asked ⊆ l.inUse)
    (hwaiting : ∀ w ∈ waiting, w.frame.address ∈ l.inUse) (hx : x.Steady l post)
    (hnext : ∀ a l' s, s ⊆ l'.inUse → l.inUse ⊆ l'.inUse → post a l' →
      (next l' a).Standing s) :
    (attempt l waiting x next).Tracks asked Progress.Standing := by
  apply Query.Tracks.bind (hx asked hasked)
  rintro ⟨answer, l'⟩ s ⟨hreach, hpost⟩
  cases answer with
  | ok a => exact hnext a l' s hreach.covers hreach.keeps (hpost a rfl)
  | error fault =>
    exact Outcome.standing_proceed hreach.covers fun w hw => hreach.keeps (hwaiting w hw)

/-- One instruction keeps the invariant. -/
theorem tracks_perform (hasked : asked ⊆ l.inUse) (hframe : f.address ∈ l.inUse)
    (hwaiting : ∀ w ∈ waiting, w.frame.address ∈ l.inUse) (i : Instruction) :
    (perform env l waiting f i).Tracks asked Progress.Standing := by
  -- Instructions that go on in the same frame, and instructions that end it with an output.
  have hgo : ∀ x : Step Frame, x.Steady l (fun f' _ => f'.address = f.address) →
      (attempt l waiting x fun l f => .running ⟨l, f, waiting⟩).Tracks asked
        Progress.Standing := by
    intro x hx
    apply tracks_attempt hasked hwaiting hx
    intro f' l' s hcovers hkeeps haddress
    refine ⟨hcovers, ?_, fun w hw => hkeeps (hwaiting w hw)⟩
    show f'.address ∈ l'.inUse
    rw [haddress]
    exact hkeeps hframe
  have hend : ∀ x : Step (Bytes × Frame), x.Steady l (fun r _ => r.2.address = f.address) →
      ∀ ending : Bytes → Ending, (attempt l waiting x fun l r =>
        Outcome.proceed ⟨ending r.1, r.2.gas, r.2.refund, l⟩ waiting).Tracks asked
          Progress.Standing := by
    intro x hx ending
    apply tracks_attempt hasked hwaiting hx
    exact fun _ l' s hcovers hkeeps _ =>
      Outcome.standing_proceed hcovers fun w hw => hkeeps (hwaiting w hw)
  unfold perform
  split
  case h_1 => exact Outcome.standing_proceed hasked hwaiting
  case h_2 => exact hend _ (Step.steady_output rfl) .returned
  case h_3 => exact hend _ (Step.steady_output rfl) .reverted
  case h_4 =>
    apply tracks_attempt hasked hwaiting (Step.steady_selfDestruct rfl)
    exact fun _ l' s hcovers hkeeps _ =>
      Outcome.standing_proceed hcovers fun w hw => hkeeps (hwaiting w hw)
  case h_5 =>
    apply tracks_attempt hasked hwaiting (Step.steady_prepareCall rfl)
    rintro ⟨waiter, call⟩ l' s hcovers hkeeps ⟨hwaiter, hrecipient⟩
    apply Call.standing_begin hcovers hrecipient
    intro w hw
    -- The caller joins those that wait; it was running until now.
    rcases List.mem_cons.mp hw with rfl | hw
    · rw [hwaiter]
      exact hkeeps hframe
    · exact hkeeps (hwaiting w hw)
  case h_6 => exact hgo _ (Step.steady_balance rfl)
  case h_7 => exact hgo _ (Step.steady_selfBalance rfl)
  case h_8 => exact hgo _ (Step.steady_blockHash env rfl)
  case h_9 => exact hgo _ (Step.steady_sload rfl hframe)
  case h_10 => exact hgo _ (Step.steady_sstore rfl hframe)
  case h_11 => exact hgo _ (Step.steady_log rfl _)
  case h_12 =>
    split
    · rename_i f' hperformed
      have haddress := Frame.address_perform env rfl i f' hperformed
      refine ⟨hasked, ?_, hwaiting⟩
      show f'.address ∈ l.inUse
      rw [haddress]
      exact hframe
    · exact Outcome.standing_proceed hasked hwaiting

theorem tracks_step (h : m.Standing asked) :
    (m.step env).Tracks asked Progress.Standing := by
  unfold step
  dsimp only
  split
  · rename_i f hpassed
    have haddress := Frame.address_pass rfl _ f hpassed
    exact tracks_perform h.covers (haddress ▸ h.frame) h.waiting _
  · exact Outcome.standing_proceed h.covers h.waiting

/-! ## Runs -/

/-- A run does one step and goes on. -/
theorem runFor_succ (env : Input) (steps : Nat) (m : Machine) :
    runFor env (steps + 1) m = m.step env >>= fun
      | .running m => runFor env steps m
      | .ended o => .done (.ok o)
      | .aborted e => .done (.error e) := by
  rw [runFor]
  split <;> rename_i hstep <;> first | rfl | (rw [hstep]; rfl)

/-- A run asks about accounts that are in use at its end. -/
theorem tracks_runFor (steps : Nat) (h : m.Standing asked) :
    (runFor env steps m).Tracks asked fun answer s =>
      ∀ o, answer = .ok o → s ⊆ o.ledger.inUse := by
  -- Induction on the number of steps that are left.
  induction steps generalizing m asked with
  | zero =>
    rintro _ ⟨⟩
    exact h.covers
  | succ steps ih =>
    rw [runFor_succ]
    apply (tracks_step h).bind
    intro p s hp
    cases p with
    | running m' => exact ih hp
    | ended o =>
      rintro _ ⟨⟩
      exact hp
    | aborted e => rintro _ ⟨⟩

end Machine

/-- From the invariant on, a run to the end asks about accounts that are in use then. -/
theorem Progress.tracks_run {p : Progress} (h : p.Standing asked) (gas : Nat) :
    (p.run env gas).Tracks asked fun o s => s ⊆ o.ledger.inUse := by
  cases p with
  | running m => exact Machine.tracks_runFor _ h
  | ended o => exact .pure h
  | aborted e => exact .throw e

end BlockExecution.Interpreter
