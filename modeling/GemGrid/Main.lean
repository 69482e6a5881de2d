import GemGrid.Cli.Output

/-!
# The command-line program

Reads the files that the arguments name, prints the answer and exits.
-/

namespace GemGrid.Cli

/-- The content of a file, if it can be read as text. -/
def contentOf (path : String) : IO (Option String) := do
  try
    return some (← IO.FS.readFile path)
  catch _ =>
    return none

/-- Answers one command line. -/
def answer (args : List String) : IO Output := do
  match parse? args with
  | none => return usageError
  | some invocation =>
    let files ← invocation.paths.mapM fun path => do return (path, ← contentOf path)
    match respond (fun path => (files.lookup path).join) invocation with
    | some output => return output
    | none => return { exitCode := 1, complaint := some "Error: the run did not end" }

/-- Prints an output: the answer, and on the error channel what went wrong. -/
def Output.print (output : Output) : IO Unit := do
  IO.print output.stdout
  match output.complaint with
  | some line => IO.eprintln line
  | none =>
    if output = usageError then
      IO.eprintln s!"usage: {programName} validate MAP SCRIPT | reference | sample"

end GemGrid.Cli

/-- The program. -/
def main (args : List String) : IO UInt32 := do
  let output ← GemGrid.Cli.answer args
  output.print
  return output.exitCode.toUInt32
