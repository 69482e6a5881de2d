import GemGrid.Json.Printer
import GemGrid.Reference
import GemGrid.Sample
import GemGrid.Wire.Report

/-!
# Talking to a host

A host, such as a page in a browser, exchanges texts with the library.  Options and results are
JSON; a result comes in an envelope that says whether there is a value or an error.

An argument that is not what it should be is a problem of the host, not of the puzzle, and is
told apart from the errors of maps and scripts.
-/

namespace GemGrid.Host

/-- The arguments that a host can get wrong. -/
inductive Argument where
  | rules
  | map
  | program
  | limits
deriving DecidableEq, Repr, Inhabited

/-- The message that names a faulty argument. -/
def Argument.problem : Argument → String
  | .rules => "invalid map options"
  | .map => "invalid map"
  | .program => "invalid program"
  | .limits => "invalid simulation config"

/-- A faulty argument, and why it is faulty if there is something to say about it. -/
structure InputError where
  argument : Argument
  error : DecodeError
deriving DecidableEq, Repr

/-! ## Envelopes -/

/-- The envelope of a value. -/
def succeeded (value : Json) : String :=
  (Json.obj [("success", .bool true), ("value", value)]).compact

/-- The envelope of an error. -/
def failed (error : Diagnostic) : String :=
  (Json.obj [("success", .bool false), ("error", error.toJson)]).compact

/-! ## Arguments -/

/-- The value of a JSON argument. -/
def argument {α : Type} (which : Argument) (schema : Json.Schema)
    (decode : Json → Except DecodeError α) (text : String) : Except InputError α :=
  (Wire.ofText schema decode text).mapError fun error => { argument := which, error }

/-- The map rules of an argument that may be left blank. -/
def rules (text : String) : Except InputError MapRules :=
  if Text.allBlank text.toList then .ok {}
  else argument .rules MapRules.schema MapRules.ofJson text

/-- The limits of an argument that may be left blank. -/
def limits (text : String) : Except InputError Limits :=
  if Text.allBlank text.toList then .ok {}
  else argument .limits Limits.schema Limits.ofJson text

/-! ## Requests -/

/-- Reads a map. -/
def parseMap (text rulesText : String) : Except InputError String := do
  let rules ← rules rulesText
  match GridMap.read rules text with
  | .ok map => return succeeded map.toJson
  | .error e => return failed e.toDiagnostic

/-- Reads a script. -/
def parseScript (text : String) : String :=
  match Script.read text with
  | .ok program => succeeded program.toJson
  | .error e => failed e.toDiagnostic

/-- Runs a program on a map; `none` when the run does not end within its moves. -/
def simulateProgram (mapText programText limitsText : String) :
    Except InputError (Option String) := do
  let map ← argument .map GridMap.schema GridMap.ofJson mapText
  let program ← argument .program Program.schema Program.ofJson programText
  let limits ← limits limitsText
  return (simulate map program limits).map fun o => succeeded o.toJson

/-- Reports on a script and a map; `none` when the run does not end within its moves. -/
def validate (mapText scriptText rulesText limitsText : String) :
    Except InputError (Option String) := do
  let rules ← rules rulesText
  let limits ← limits limitsText
  return (GemGrid.validate rules limits mapText scriptText).map fun r => succeeded r.toJson

/-- The language reference as a JSON table. -/
def commandTable : String :=
  Reference.table.pretty

/-- The sample puzzle. -/
def sample : String :=
  (Json.obj [("map", .str Sample.map), ("solution", .str Sample.solution)]).compact

end GemGrid.Host
