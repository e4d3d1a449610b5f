import ChangeImpact.Snapshot

/-!
# The program

Reads a snapshot of a workspace from standard input, runs the command that the arguments name, and
ends with its exit status.
-/

open ChangeImpact

/-- Runs the command line on the snapshot in standard input. -/
def main (arguments : List String) : IO UInt32 := do
  let text ← (← IO.getStdin).readToEnd
  match Snapshot.workspace text with
  | .error message =>
    (← IO.getStderr).putStrLn message
    return 2
  | .ok workspace =>
    let result := Command.run workspace arguments
    if let .ok outcome := result then IO.print outcome.output
    return UInt32.ofNat (Command.exitStatus result)
