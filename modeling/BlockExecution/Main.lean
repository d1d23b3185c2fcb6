/-
  Runs the command line: one line of text for every workload. A block that cannot
  be processed ends the run.
-/
import BlockExecution.CommandLine

open BlockExecution.CommandLine

def main (args : List String) : IO UInt32 := do
  match Options.read {} args with
  | .error e =>
    IO.eprintln e.message
    return 2
  | .ok o =>
    IO.println (title ++ "\n")
    IO.println (o.configurationLine ++ "\n")
    for (name, factor) in conflictFactors do
      match o.compare name factor with
      | .error e =>
        IO.eprintln ("Error: " ++ e.message)
        return 1
      | .ok line => IO.println line
    return 0
