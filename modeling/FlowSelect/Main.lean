/-
# The program

Runs the command line on the files of the system: output goes to standard output,
the journal to standard error. The environment variable `FLOW_LOG` names the most
detailed level that is printed.
-/
import FlowSelect.CommandLine

namespace FlowSelect

/-- The content of a file, or why it cannot be read. -/
def contents (path : String) : IO (Except Schema.FileFault String) := do
  try
    return .ok (← IO.FS.readFile path)
  catch
    | .inappropriateType .. => return .error .directory
    | _ => return .error .missing

/-- The path of the schema file, if the arguments ask for one. -/
def schemaPath? (args : List String) : Option String :=
  match CommandLine.Request.ofArgs args with
  | .work o => o.schemaPath
  | _ => none

end FlowSelect

open FlowSelect in
/-- Runs the program. -/
def main (args : List String) : IO UInt32 := do
  let schema ← match schemaPath? args with
    | some path => contents path
    | none => pure (.error .missing)
  let outcome := CommandLine.run (fun _ => schema) args
  let verbosity := CommandLine.verbosity ((← IO.getEnv "FLOW_LOG").getD "info")
  IO.print outcome.output
  for entry in CommandLine.visible verbosity outcome.journal do
    IO.eprintln ("[" ++ entry.level.name ++ " " ++ entry.topic.name ++ "] " ++ entry.message)
  return UInt32.ofNat outcome.exitCode
