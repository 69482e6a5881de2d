import GemGrid.Cli.Arguments
import GemGrid.Json.Printer
import GemGrid.Reference
import GemGrid.Report.Text
import GemGrid.Sample
import GemGrid.Wire.Report

/-!
# Command-line output

What the command line prints and the exit code it ends with.  Reading files is left to the
caller, who hands over a function from paths to contents.
-/

namespace GemGrid.Cli

/-- The name of the program. -/
def programName : String := "gempath"

/-- What a command leaves behind. -/
structure Output where
  exitCode : Nat
  stdout : String := ""
  /-- The first line of the error output, when a file cannot be read. -/
  complaint : Option String := none
deriving DecidableEq, Repr, Inhabited

/-- The output of a usage error. -/
def usageError : Output :=
  { exitCode := 2 }

/-- The output of a file that cannot be read. -/
def unreadable (path : String) : Output :=
  { exitCode := 1, complaint := some s!"Error: while reading {path}" }

/-- A report as text or JSON, ended by a line break. -/
def reportText (json : Bool) (r : Report) : String :=
  if json then r.toJson.pretty ++ "\n" else r.toText

/-- The output of a report after some text. -/
def reportOutput (before : String) (json : Bool) (r : Report) : Output :=
  { exitCode := r.status.exitCode, stdout := before ++ reportText json r }

/-- The files that an invocation reads, in order. -/
def Invocation.paths : Invocation → List String
  | .validate map script .. => [map, script]
  | _ => []

/-- The output of an invocation; `none` when a run does not end within its moves. -/
def respond (contents : String → Option String) : Invocation → Option Output
  | .version => some { exitCode := 0, stdout := s!"{programName} {Reference.version}\n" }
  | .reference json =>
    some { exitCode := 0, stdout := if json then Reference.table.pretty ++ "\n" else Reference.text }
  | .sample json =>
    (GemGrid.validate {} {} Sample.map Sample.solution).map
      (reportOutput (Sample.map ++ "\n\n" ++ Sample.solution ++ "\n\n") json)
  | .validate map script json rules limits =>
    match contents map with
    | none => some (unreadable map)
    | some mapText =>
      match contents script with
      | none => some (unreadable script)
      | some scriptText =>
        (GemGrid.validate rules limits mapText scriptText).map (reportOutput "" json)

end GemGrid.Cli
