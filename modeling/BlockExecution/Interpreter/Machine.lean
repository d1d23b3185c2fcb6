/-
  Frames that call one another.

  A machine is a running frame with the callers that wait for it. When a frame
  ends, its caller goes on: with the effects if the frame succeeded, and with
  the effects of before the call if it failed. When the outermost frame ends,
  its outcome is the outcome of the whole. A frame that could not read the state
  has no caller to go on: it ends the whole run.
-/
import BlockExecution.Interpreter.Delegation
import BlockExecution.Interpreter.Frame
import BlockExecution.Interpreter.Ledger

namespace BlockExecution.Interpreter

/-- A caller that waits for its call. -/
structure Waiting where
  frame : Frame
  /-- What is put back if the call fails. -/
  effects : Effects
  /-- Where in memory the output goes. -/
  outputOffset : Word
  outputLength : Word

/-- A running frame, and the callers that wait for it, innermost first. -/
structure Machine where
  ledger : Ledger
  frame : Frame
  waiting : List Waiting := []

/-- What is left when a frame ends. The effects of a failure are still to be undone. -/
structure Outcome where
  ending : Ending
  gas : Nat
  refund : Int
  ledger : Ledger

/-- How far a transaction has come. -/
inductive Progress where
  | running (machine : Machine)
  | ended (outcome : Outcome)
  /-- A frame with callers could not read the state. -/
  | aborted (error : StateError)

/-! ## Ends of frames -/

namespace Outcome

/-- A failure that loses all gas. -/
def halted (ledger : Ledger) (fault : Fault) : Outcome := ⟨.halted fault, 0, 0, ledger⟩

/-- The gas that goes back. -/
def returnedGas (o : Outcome) : Nat := if o.ending.returnsGas then o.gas else 0

/-- The refund that is kept. -/
def keptRefund (o : Outcome) : Int := if o.ending.isSuccess then o.refund else 0

/-- Keeps the effects of a success, and goes back to earlier ones after a failure. -/
def keepOrUndo (o : Outcome) (before : Effects) : Outcome :=
  if o.ending.isSuccess then o else { o with ledger := o.ledger.rollback before }

end Outcome

/-- Hands an outcome to the caller. One word tells it whether the call succeeded. -/
def Waiting.resume (w : Waiting) (o : Outcome) : Frame :=
  { w.frame with
    stack := (if o.ending.isSuccess then 1 else 0) :: w.frame.stack
    gas := w.frame.gas + o.returnedGas
    refund := w.frame.refund + o.keptRefund
    memory := w.frame.memory.write w.outputOffset.toNat
      (o.ending.output.take w.outputLength.toNat) }

/-- Goes on after a frame with the innermost caller, if there is one. -/
def Outcome.proceed (o : Outcome) : List Waiting → Progress
  | [] => .ended o
  | w :: waiting =>
    match o.ending.failedRead? with
    | some e => .aborted e
    | none => .running ⟨(o.keepOrUndo w.effects).ledger, w.resume o, waiting⟩

/-! ## Calls -/

/-- A call to be made of an account in use. -/
structure Call where
  caller : Address
  recipient : Address
  value : Word
  /-- What runs in the name of the recipient. -/
  code : Bytes
  input : Bytes
  gas : Nat

/-- The most callers that can wait for one another. -/
def maxDepth : Nat := 1024

/-- Begins a call: moves the value and, if there is code, runs it. -/
def Call.begin (c : Call) (l : Ledger) (waiting : List Waiting) : Progress :=
  if maxDepth < waiting.length then
    Outcome.proceed ⟨.refused .callTooDeep, c.gas, 0, l⟩ waiting
  else
    match l.transfer c.caller c.recipient c.value with
    | .insufficient => Outcome.proceed ⟨.refused .outOfFunds, c.gas, 0, l⟩ waiting
    -- The payer has lost the value, and the call all of its gas.
    | .overflow l => (Outcome.halted l .balanceOverflow).proceed waiting
    | .moved l =>
      match c.code with
      | [] => Outcome.proceed ⟨.returned [], c.gas, 0, l⟩ waiting
      | code =>
        .running
          { ledger := l
            waiting
            frame :=
              { address := c.recipient
                caller := c.caller
                value := c.value
                input := c.input
                code := .ofBytes code
                gas := c.gas } }

end BlockExecution.Interpreter
