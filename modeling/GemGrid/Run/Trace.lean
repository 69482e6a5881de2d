import GemGrid.Diagnostic
import GemGrid.Grid.Position
import GemGrid.Script.Basic

/-!
# Traces

What a run leaves behind.  The *log* has a line for everything that was noticed; the *frames* are
snapshots of the actor at the observable events, for replaying the run step by step.  An `Outcome`
holds both, with the diagnostics and the final counts.
-/

namespace GemGrid

/-- The tone of a log line. -/
inductive LogKind where
  | info
  | success
  | error
deriving DecidableEq, Repr, Inhabited

/-- The name of a tone. -/
def LogKind.name : LogKind → String
  | .info => "info"
  | .success => "success"
  | .error => "error"

/-- One line of the log. -/
structure LogEntry where
  message : String
  kind : LogKind
  position : Position
  facing : Direction
deriving DecidableEq, Repr, Inhabited

/-- What a frame was taken for. -/
inductive Trigger where
  | start
  | command (command : Command)
  | warp
  | finish
deriving DecidableEq, Repr, Inhabited

namespace Trigger

/-- The name of a trigger; a command goes by its own. -/
def name : Trigger → String
  | .start => "start"
  | .command c => c.name
  | .warp => "warp"
  | .finish => "end"

/-- The trigger of a name. -/
def ofName? (name : String) : Option Trigger :=
  if name = "start" then some .start
  else if name = "warp" then some .warp
  else if name = "end" then some .finish
  else (Command.ofName? name).map .command

end Trigger

/-- A snapshot of the actor at an observable event. -/
structure Frame where
  frameIndex : Nat
  /-- The number of commands attempted so far. -/
  step : Nat
  row : Nat
  col : Nat
  facing : Direction
  /-- The keys of the cells visited so far, in order of the first visit. -/
  visited : List String
  message : String
  kind : LogKind
  label : Option String
  command : Option Trigger
  source : Option SourceRef
deriving DecidableEq, Repr, Inhabited

namespace Frame

/-- Where the actor stood. -/
def position (f : Frame) : Position :=
  { row := f.row, col := f.col }

/-- Whether the frame was taken for a command. -/
def isCommand (f : Frame) : Bool :=
  match f.command with
  | some (.command _) => true
  | _ => false

end Frame

/-- Everything a run leaves behind. -/
structure Outcome where
  logs : List LogEntry
  /-- The messages of the diagnostics. -/
  errors : List String
  /-- The fault that stopped the run, if any, and what was left undone. -/
  diagnostics : List Diagnostic
  /-- The keys of the cells visited, in order of the first visit. -/
  visitedPath : List String
  gemsCollected : Nat
  totalGems : Nat
  switchesOpen : Nat
  totalSwitches : Nat
  /-- The number of commands that completed. -/
  stepsExecuted : Nat
  frames : List Frame
deriving DecidableEq, Repr, Inhabited

namespace Outcome

/-- Whether nothing went wrong. -/
def success (o : Outcome) : Bool :=
  o.errors.isEmpty

/-- The frames taken for commands. -/
def commandFrames (o : Outcome) : List Frame :=
  o.frames.filter (·.isCommand)

end Outcome

end GemGrid
