import GemGrid.Report.Basic
import GemGrid.Wire.Run

/-!
# Reports as JSON

The exchange form of reports and their counts.
-/

namespace GemGrid

open Wire

/-- Counts as JSON. -/
def Metrics.toJson (m : Metrics) : Json :=
  .obj [("steps", .nat m.steps), ("gemsCollected", .nat m.gemsCollected),
    ("totalGems", .nat m.totalGems), ("switchesOpen", .nat m.switchesOpen),
    ("totalSwitches", .nat m.totalSwitches), ("errorCount", .nat m.errorCount)]

/-- Counts from JSON. -/
def Metrics.ofJson (j : Json) : Except DecodeError Metrics := do
  let f ← Fields.of ["steps", "gemsCollected", "totalGems", "switchesOpen", "totalSwitches",
    "errorCount"] j
  f.build (Metrics.mk <$> f.required "steps" word64 <*> f.required "gemsCollected" word64
    <*> f.required "totalGems" word64 <*> f.required "switchesOpen" word64
    <*> f.required "totalSwitches" word64 <*> f.required "errorCount" word64)

/-- A report as JSON. -/
def Report.toJson (r : Report) : Json :=
  .obj [("status", .str r.status.name), ("summary", .str r.summary), ("detail", .str r.detail),
    ("note", .str r.note), ("errors", Json.list Diagnostic.toJson r.errors),
    ("metrics", r.metrics.toJson), ("logs", Json.list LogEntry.toJson r.logs),
    ("frames", Json.list Frame.toJson r.frames),
    ("visitedPath", Json.list .str r.visitedPath),
    ("commandCount", Json.nullable .str r.commandCount), ("fingerprint", .str r.fingerprint)]

/-- A report from JSON. -/
def Report.ofJson (j : Json) : Except DecodeError Report := do
  let f ← Fields.of ["status", "summary", "detail", "note", "errors", "metrics", "logs",
    "frames", "visitedPath", "commandCount", "fingerprint"] j
  f.build (Report.mk <$> f.required "status" (oneOf Status.all Status.name)
    <*> f.required "summary" string <*> f.required "detail" string <*> f.required "note" string
    <*> f.required "errors" (list Diagnostic.ofJson) <*> f.required "metrics" Metrics.ofJson
    <*> f.required "logs" (list LogEntry.ofJson) <*> f.required "frames" (list Frame.ofJson)
    <*> f.required "visitedPath" (list string) <*> f.optional "commandCount" string
    <*> f.required "fingerprint" string)

end GemGrid
