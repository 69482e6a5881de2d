import GemGrid.Run.Machine
import GemGrid.Wire.Grid
import GemGrid.Wire.Script

/-!
# Runs as JSON

The exchange forms of limits, diagnostics and everything a trace consists of.  A diagnostic leaves
out the line and the text that it does not have; all other optional fields are written as `null`.
-/

namespace GemGrid

open Wire

/-- Limits as JSON. -/
def Limits.toJson (l : Limits) : Json :=
  .obj [("operationBudget", .nat l.operationBudget), ("whileIterationLimit", .nat l.whileLimit)]

/-- The fields of limits. -/
def Limits.schema : Json.Schema :=
  .flat ["operationBudget", "whileIterationLimit"]

/-- Limits from JSON; a limit that is not mentioned keeps its default. -/
def Limits.ofJson (j : Json) : Except DecodeError Limits := do
  let f ← Fields.of Limits.schema.names j
  let standard : Limits := {}
  f.build (Limits.mk <$> f.defaulted "operationBudget" standard.operationBudget word32
    <*> f.defaulted "whileIterationLimit" standard.whileLimit word32)

/-- A diagnostic as JSON. -/
def Diagnostic.toJson (d : Diagnostic) : Json :=
  .obj ([("code", .nat d.code), ("category", .str d.category.name), ("message", .str d.message)]
    ++ (d.line.map fun line => ("line", Json.nat line)).toList
    ++ (d.sourceLine.map fun text => ("sourceLine", Json.str text)).toList)

/-- A diagnostic from JSON. -/
def Diagnostic.ofJson (j : Json) : Except DecodeError Diagnostic := do
  let f ← Fields.of ["code", "category", "message", "line", "sourceLine"] j
  f.build (Diagnostic.mk <$> f.required "code" word16
    <*> f.required "category" (oneOf Category.all Category.name)
    <*> f.required "message" string <*> f.optional "line" word32
    <*> f.optional "sourceLine" string)

/-- The tone of a log line as JSON. -/
def LogKind.toJson (k : LogKind) : Json :=
  .str k.name

/-- The tone of a log line from JSON. -/
def LogKind.ofJson : Json → Except DecodeError LogKind :=
  oneOf [.info, .success, .error] LogKind.name

/-- A log line as JSON. -/
def LogEntry.toJson (e : LogEntry) : Json :=
  .obj [("message", .str e.message), ("kind", e.kind.toJson), ("position", e.position.toJson),
    ("facing", e.facing.toJson)]

/-- A log line from JSON. -/
def LogEntry.ofJson (j : Json) : Except DecodeError LogEntry := do
  let f ← Fields.of ["message", "kind", "position", "facing"] j
  f.build (LogEntry.mk <$> f.required "message" string <*> f.required "kind" LogKind.ofJson
    <*> f.required "position" Position.ofJson <*> f.required "facing" Direction.ofJson)

/-- The trigger of a name. -/
def Trigger.ofName (name : String) : Except DecodeError Trigger :=
  match Trigger.ofName? name with
  | some t => .ok t
  | none => .error (.trigger name)

/-- A trigger from JSON. -/
def Trigger.ofJson (j : Json) : Except DecodeError Trigger := do
  Trigger.ofName (← string j)

/-- A frame as JSON. -/
def Frame.toJson (f : Frame) : Json :=
  .obj [("frameIndex", .nat f.frameIndex), ("step", .nat f.step), ("row", .nat f.row),
    ("col", .nat f.col), ("facing", f.facing.toJson), ("visited", Json.list .str f.visited),
    ("message", .str f.message), ("kind", f.kind.toJson), ("label", Json.nullable .str f.label),
    ("command", Json.nullable (fun t => .str t.name) f.command),
    ("source", Json.nullable SourceRef.toJson f.source)]

/-- A frame from JSON. -/
def Frame.ofJson (j : Json) : Except DecodeError Frame := do
  let f ← Fields.of ["frameIndex", "step", "row", "col", "facing", "visited", "message", "kind",
    "label", "command", "source"] j
  f.build (Frame.mk <$> f.required "frameIndex" word64 <*> f.required "step" word64
    <*> f.required "row" word64 <*> f.required "col" word64
    <*> f.required "facing" Direction.ofJson <*> f.required "visited" (list string)
    <*> f.required "message" string <*> f.required "kind" LogKind.ofJson
    <*> f.optional "label" string <*> f.optional "command" Trigger.ofJson
    <*> f.optional "source" SourceRef.ofJson)

/-- An outcome as JSON. -/
def Outcome.toJson (o : Outcome) : Json :=
  .obj [("logs", Json.list LogEntry.toJson o.logs), ("errors", Json.list .str o.errors),
    ("diagnostics", Json.list Diagnostic.toJson o.diagnostics),
    ("visitedPath", Json.list .str o.visitedPath), ("gemsCollected", .nat o.gemsCollected),
    ("totalGems", .nat o.totalGems), ("switchesOpen", .nat o.switchesOpen),
    ("totalSwitches", .nat o.totalSwitches), ("stepsExecuted", .nat o.stepsExecuted),
    ("frames", Json.list Frame.toJson o.frames)]

/-- An outcome from JSON. -/
def Outcome.ofJson (j : Json) : Except DecodeError Outcome := do
  let f ← Fields.of ["logs", "errors", "diagnostics", "visitedPath", "gemsCollected",
    "totalGems", "switchesOpen", "totalSwitches", "stepsExecuted", "frames"] j
  f.build (Outcome.mk <$> f.required "logs" (list LogEntry.ofJson)
    <*> f.required "errors" (list string)
    <*> f.required "diagnostics" (list Diagnostic.ofJson)
    <*> f.required "visitedPath" (list string) <*> f.required "gemsCollected" word64
    <*> f.required "totalGems" word64 <*> f.required "switchesOpen" word64
    <*> f.required "totalSwitches" word64 <*> f.required "stepsExecuted" word64
    <*> f.required "frames" (list Frame.ofJson))

end GemGrid
