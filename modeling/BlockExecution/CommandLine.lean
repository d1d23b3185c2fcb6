/-
  The command line: which workloads to run, and what is said of each.

  Every workload is processed twice, once in order and once with executions that
  run ahead. The two have to agree on the state and on the receipts.

  Nothing here is timed, so a row does not say how many transactions were processed
  in a second. Which executions are done when their turn comes would be a matter of
  time as well, unless the block waits for them; here all of them are done. So the
  number of threads is only named, and waiting changes nothing.
-/
import BlockExecution.Block.Process
import BlockExecution.Evm.Processor
import BlockExecution.Simple.Processor
import BlockExecution.Workload

namespace BlockExecution.CommandLine

/-! ## Options -/

/-- What to run. -/
structure Options where
  accounts : Nat := 1000
  transactions : Nat := 1000
  /-- The share of transactions that call the counter. -/
  contractCalls : Float := 0.2
  /-- How many workers run ahead. -/
  threads : Nat := 8
  /-- Let the executions that run ahead finish first. -/
  wait : Bool := false
  /-- The share of transactions made to fail. -/
  failures : Float := 0.0
  seed : U64 := 42
  verify : Bool := true
  /-- Run on the virtual machine instead of the slot processor. -/
  evm : Bool := false

/-- Why a command line is not understood. -/
inductive UsageError where
  | unknownOption (name : String)
  | missingValue (name : String)
  | badValue (name value : String)
  deriving DecidableEq

/-- The text of an error. -/
def UsageError.message : UsageError → String
  | .unknownOption name => "unknown option " ++ name
  | .missingValue name => "option " ++ name ++ " needs a value"
  | .badValue name value => "option " ++ name ++ " does not take the value " ++ value

/-- The number that decimal digits spell. -/
def natural? (text : String) : Option Nat :=
  let digits := text.toList
  if digits.isEmpty || !digits.all Char.isDigit then none
  else some (digits.foldl (fun acc c => acc * 10 + (c.toNat - '0'.toNat)) 0)

/-- The number that decimal digits spell, if 64 bits hold it. -/
def bounded? (text : String) : Option Nat :=
  (natural? text).filter (· < 0x10000000000000000)

/-- The share that a decimal fraction spells. -/
def share? (text : String) : Option Float :=
  match text.splitOn "." with
  | [whole] => (natural? whole).map Float.ofNat
  | [whole, fraction] => do
    let whole ← natural? whole
    let digits ← natural? fraction
    return Float.ofNat whole + Float.ofScientific digits true fraction.length
  | _ => none

/-- Whether a word names an option with a value. -/
def takesValue (name : String) : Bool :=
  ["--accounts", "--transactions", "--contract-calls", "--threads", "--failures",
    "--seed"].contains name

/-- Sets an option with a value. -/
def Options.set? (o : Options) (name value : String) : Option Options :=
  match name with
  | "--accounts" => (bounded? value).map fun accounts => { o with accounts }
  | "--transactions" => (bounded? value).map fun transactions => { o with transactions }
  | "--contract-calls" => (share? value).map fun contractCalls => { o with contractCalls }
  | "--threads" => (bounded? value).map fun threads => { o with threads }
  | "--failures" => (share? value).map fun failures => { o with failures }
  | "--seed" => (bounded? value).map fun seed => { o with seed := BitVec.ofNat 64 seed }
  | _ => none

/-- Reads a command line over the options so far. -/
def Options.read (o : Options) : List String → Except UsageError Options
  | [] => .ok o
  | "--no-verify" :: rest => { o with verify := false }.read rest
  | "--wait" :: rest => { o with wait := true }.read rest
  | "--evm" :: rest => { o with evm := true }.read rest
  | [name] =>
    if takesValue name then .error (.missingValue name) else .error (.unknownOption name)
  | name :: value :: rest =>
    if takesValue name then
      match o.set? name value with
      | some o => o.read rest
      | none => .error (.badValue name value)
    else .error (.unknownOption name)

/-- The processor that the options choose. -/
def Options.processor (o : Options) : Processor :=
  let config : ProcessorConfig := { verifySignatures := o.verify }
  if o.evm then Evm.processor config else Simple.processor config

/-! ## Comparison -/

/-- The first line. -/
def title : String := "=== Parallel Block Processing Benchmark ==="

/-- The line that says what is run. -/
def Options.configurationLine (o : Options) : String :=
  "Configuration: " ++ toString o.accounts ++ " accounts, " ++ toString o.transactions ++
    " transactions per block, " ++ toString o.threads ++ " threads, " ++
    (if o.evm then "revm" else "simple") ++ " processor"

/-- The conflict factors that are tried, with their names. -/
def conflictFactors : List (String × Float) :=
  [ ("No conflicts", 0.0), ("25% conflicts", 0.25), ("50% conflicts", 0.5)
  , ("75% conflicts", 0.75), ("Full conflicts", 1.0) ]

/-- The workload of a conflict factor. -/
def Options.workload (o : Options) (conflictFactor : Float) : Workload :=
  Workload.generate
    { accountCount := o.accounts
      transactionCount := o.transactions
      conflictFactor
      contractCallFactor := o.contractCalls
      failureFactor := o.failures
      seed := o.seed }

/-- Whether two outcomes agree on the state and the receipts. -/
def agree (a b : BlockOutcome) : Bool := a.state = b.state ∧ a.receipts = b.receipts

/-- A share in tenths of a percent, rounded to the nearest and halves to the even one. -/
def perMille (part whole : Nat) : Nat :=
  let tenths := 1000 * part / whole
  let rest := 2 * (1000 * part % whole)
  if rest < whole ∨ rest = whole ∧ tenths % 2 = 0 then tenths else tenths + 1

/-- The share of transactions that were taken over, as a percentage. -/
def hitRateText (t : Tally) : String :=
  let tenths := if t.total = 0 then 0 else perMille t.parallelized t.total
  toString (tenths / 10) ++ "." ++ toString (tenths % 10)

/-- Blanks that fill a text up to a width. -/
def filler (width : Nat) (text : String) : String :=
  String.ofList (List.replicate (width - text.length) ' ')

/-- Fills a text up to a width on the right. -/
def padded (width : Nat) (text : String) : String := text ++ filler width text

/-- Fills a text up to a width on the left. -/
def aligned (width : Nat) (text : String) : String := filler width text ++ text

/-- What is said of a workload that was processed both ways. -/
def comparisonLine (name : String) (inOrder ahead : BlockOutcome) : String :=
  padded 16 name ++ " | " ++ padded 10 "sequential" ++ " | " ++ padded 10 "parallel" ++
    " | hit rate " ++ aligned 5 (hitRateText ahead.tally) ++ "% | states match: " ++
    toString (agree inOrder ahead)

/-- Processes the workload of a conflict factor both ways. -/
def Options.compare (o : Options) (name : String) (conflictFactor : Float) :
    Except BlockError String := do
  let workload := o.workload conflictFactor
  let process := o.processor.processBlock workload.archive workload.block
  let inOrder ← (process .sequential).outcome
  let ahead ← (process (.parallel fun _ => true)).outcome
  return comparisonLine name inOrder ahead

end BlockExecution.CommandLine
