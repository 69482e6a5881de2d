import GemGrid.Report.Basic

/-!
# Reports as text

The form in which the command line shows a report: status, counts, the log, the errors and a
hint, separated by empty lines.
-/

namespace GemGrid.Report

/-- A paragraph of indented lines with an empty line before it; nothing if there are none. -/
def paragraph (lines : List String) : List String :=
  if lines.isEmpty then [] else "" :: lines.map ("  " ++ ·)

/-- The counts in one line. -/
def countsLine (m : Metrics) : String :=
  s!"Steps: {m.steps}  Gems: {m.gemsCollected}/{m.totalGems}  "
    ++ s!"Switches: {m.switchesOpen}/{m.totalSwitches}  Errors: {m.errorCount}"

/-- The lines of a report. -/
def lines (r : Report) : List String :=
  [s!"[{r.status.label}] {r.summary}", r.detail]
    ++ (r.commandCount.map ("Commands: " ++ ·)).toList
    ++ [countsLine r.metrics]
    ++ paragraph (r.logs.map (·.message))
    ++ paragraph (r.errors.map fun e => "error: " ++ e.render)
    ++ ["", r.note]

/-- A report as text, each line ended. -/
def toText (r : Report) : String :=
  String.join (r.lines.map (· ++ "\n"))

end GemGrid.Report
