import GemGrid.Digest.Sha256
import GemGrid.Grid.Reader
import GemGrid.Run.Simulate
import GemGrid.Script.Parser

/-!
# Reports

A report says how a script does on a map: whether it could be read at all, whether it did what it
should, and what happened on the way.

* With nothing to read the report is idle.
* If the map or the script cannot be read, the report has that one error; the map comes first.
* Otherwise the script is run and the report takes over the outcome.

Every report carries a fingerprint of the two texts it is about.
-/

namespace GemGrid

/-- How a script did. -/
inductive Status where
  | idle
  | error
  | failure
  | success
deriving DecidableEq, Repr, Inhabited

namespace Status

/-- All states, in the order of the list above. -/
def all : List Status :=
  [.idle, .error, .failure, .success]

/-- The name of a status. -/
def name : Status → String
  | .idle => "idle"
  | .error => "error"
  | .failure => "failure"
  | .success => "success"

/-- The status as shown to a user. -/
def label : Status → String
  | .idle => "Not validated"
  | .error => "Error"
  | .failure => "Failed"
  | .success => "Passed"

/-- One sentence on what a status means. -/
def summary : Status → String
  | .idle => "Enter a map and code to validate automatically."
  | .error => "An error occurred while parsing. Check your input."
  | .failure => "There is a problem with the solution. Check the details."
  | .success => "The solution ran correctly on the map."

/-- What to look at next. -/
def detail : Status → String
  | .idle => "Load the sample data to see how it works."
  | .error => "Check the tab-delimited format and that only valid commands are used."
  | .failure => "Look for missing actions or map inconsistencies and adjust the solution."
  | .success => "All gems and switches are as expected. Check the log for details."

/-- The exit code of the command line. -/
def exitCode : Status → Nat
  | .idle | .success => 0
  | .failure => 1
  | .error => 2

end Status

/-- The counts shown with a report. -/
structure Metrics where
  steps : Nat := 0
  gemsCollected : Nat := 0
  totalGems : Nat := 0
  switchesOpen : Nat := 0
  totalSwitches : Nat := 0
  errorCount : Nat := 0
deriving DecidableEq, Repr, Inhabited

/-- The counts of an outcome. -/
def Metrics.ofOutcome (o : Outcome) : Metrics :=
  { steps := o.stepsExecuted, gemsCollected := o.gemsCollected, totalGems := o.totalGems,
    switchesOpen := o.switchesOpen, totalSwitches := o.totalSwitches,
    errorCount := o.errors.length }

/-- How a script does on a map. -/
structure Report where
  status : Status
  summary : String
  detail : String
  note : String
  errors : List Diagnostic
  metrics : Metrics
  logs : List LogEntry
  frames : List Frame
  visitedPath : List String
  /-- The number of commands in words, if the script could be read. -/
  commandCount : Option String
  fingerprint : String
deriving DecidableEq, Repr, Inhabited

/-- The bytes that identify a map and a script: the two texts with a zero byte between them. -/
def fingerprintBytes (mapText scriptText : String) : List UInt8 :=
  Sha256.utf8 mapText ++ [0] ++ Sha256.utf8 scriptText

/-- The fingerprint of a map and a script. -/
def fingerprint (mapText scriptText : String) : String :=
  Sha256.hex (fingerprintBytes mapText scriptText)

namespace Report

/-- A report without a run. -/
def bare (status : Status) (note fingerprint : String) : Report :=
  { status, summary := status.summary, detail := status.detail, note, errors := [],
    metrics := {}, logs := [], frames := [], visitedPath := [], commandCount := none,
    fingerprint }

/-- The report of texts that hold nothing. -/
def ofNothing (fingerprint : String) : Report :=
  bare .idle "Load the sample to see the visited path highlighted." fingerprint

/-- The report of a text that cannot be read. -/
def ofError (error : Diagnostic) (fingerprint : String) : Report :=
  { bare .error "An error occurred. Fix the input and validate again." fingerprint with
    errors := [error], metrics := { errorCount := 1 } }

/-- The hint that goes with the outcome of a program. -/
def noteOf (metadata : Metadata) (o : Outcome) : String :=
  if !o.success then "Check the visited path and find the failing step in the log."
  else if metadata.hasDynamicControlFlow then
    "Condition and loop checks were added to the log. Step through to follow each branch."
  else "The visited path is highlighted. Step through to see each command's movement."

/-- The report of a run. -/
def ofOutcome (metadata : Metadata) (o : Outcome) (fingerprint : String) : Report :=
  let status := if o.success then Status.success else .failure
  { bare status (noteOf metadata o) fingerprint with
    errors := o.diagnostics, metrics := .ofOutcome o, logs := o.logs, frames := o.frames,
    visitedPath := o.visitedPath, commandCount := some metadata.countLabel }

/-- The error messages of a report. -/
def messages (r : Report) : List String :=
  r.errors.map (·.message)

end Report

/-- The report on a script and a map, if the run ends within a number of moves. -/
def validateWithin (moves : Nat) (rules : MapRules) (limits : Limits)
    (mapText scriptText : String) : Option Report :=
  let print := fingerprint mapText scriptText
  if Text.allBlank mapText.toList && Text.allBlank scriptText.toList then
    some (.ofNothing print)
  else match GridMap.read rules mapText with
  | .error e => some (.ofError e.toDiagnostic print)
  | .ok map =>
    match Script.read scriptText with
    | .error e => some (.ofError e.toDiagnostic print)
    | .ok program =>
      (simulateWithin moves map program limits).map fun o => .ofOutcome program.metadata o print

/-- A report is made on a script and a map if some number of moves suffices. -/
def Reports (rules : MapRules) (limits : Limits) (mapText scriptText : String) (r : Report) :
    Prop :=
  ∃ moves, validateWithin moves rules limits mapText scriptText = some r

/-- The report on a script and a map, if the run ends within the moves that its budget allows. -/
def validate (rules : MapRules) (limits : Limits) (mapText scriptText : String) :
    Option Report :=
  validateWithin (limits.operationBudget + 1) rules limits mapText scriptText

end GemGrid
