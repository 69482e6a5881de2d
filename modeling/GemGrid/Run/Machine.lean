import GemGrid.Condition.Printer
import GemGrid.Run.Fault
import GemGrid.Run.Trace
import GemGrid.Run.Walker
import GemGrid.Text.Decimal

/-!
# The machine

A run is a sequence of moves of a machine that holds the actor and an *agenda* of tasks.  A move
takes the first task and puts what it leads to in front of the rest: the body of a loop before
the loop with one round less, the body of a function before a mark for its end, and so on.  Loops
without rounds left and marks are dropped on the way to the next task.

* Every move charges exactly one operation, before anything else happens.  A charge beyond the
  budget is a fault, so the budget bounds the number of moves.  The counter stops at the largest
  32-bit word.
* The functions being executed are those whose end marks are on the agenda; calling one of them
  is a recursion.
* A fault empties the agenda.  Nothing runs after it.

`Machine.run` makes moves until the agenda is done, and gives up after a number of moves; the
answer `none` says only that more moves are needed.  `Machine.runSkipping` does the same and is
quick where a loop has nothing to repeat: it charges the rounds of an empty loop at once.
-/

namespace GemGrid

/-- The limits of a run. -/
structure Limits where
  operationBudget : Nat := 10000
  whileLimit : Nat := 10000
deriving DecidableEq, Repr, Inhabited

/-- What a machine works on. -/
structure Setting where
  map : GridMap
  functions : List FunctionDef
  limits : Limits

/-- An item of the agenda. -/
inductive Task where
  | run (statement : Stmt)
  /-- The next check of a `while` that has been through some rounds. -/
  | recheck (rounds : Nat) (condition : Condition) (body : List Stmt) (source : SourceRef)
  /-- The end of a function. -/
  | leave (name : String)
deriving Repr, Inhabited

namespace Task

/-- The next task that does something, and what follows it. -/
def next? : List Task → Option (Task × List Task)
  | [] => none
  | .leave _ :: rest => next? rest
  | .run (.loop 0 _ _) :: rest => next? rest
  | task :: rest => some (task, rest)

/-- The functions whose ends are on an agenda. -/
def active (agenda : List Task) : List String :=
  agenda.filterMap fun
    | .leave name => some name
    | _ => none

/-- Statements in front of an agenda. -/
def ahead (statements : List Stmt) (agenda : List Task) : List Task :=
  statements.map .run ++ agenda

end Task

/-- What a frame is annotated with. -/
structure Note where
  label : Option String := none
  trigger : Option Trigger := none
  source : Option SourceRef := none
deriving DecidableEq, Repr, Inhabited

/-- The note of a command. -/
def Note.command (step : Nat) (command : Command) (source : SourceRef) : Note :=
  { label := some s!"Command {step}", trigger := some (.command command), source := some source }

/-- The note of a control statement. -/
def Note.at (source : SourceRef) : Note :=
  { source := some source }

/-- The note of a task that is about to run. -/
def Task.note (w : Walker) : Task → Note
  | .run (.command c source) => .command (w.attempted + 1) c source
  | .run s => .at s.source
  | .recheck _ _ _ source => .at source
  | .leave _ => {}

/-- The actor, the agenda, the trace so far, and the fault that has stopped the run. -/
structure Machine where
  walker : Walker
  agenda : List Task
  logs : Array LogEntry
  frames : Array Frame
  fault : Option Diagnostic

namespace Machine

/-! ## Recording -/

/-- Adds a line to the log. -/
def log (m : Machine) (message : String) (kind : LogKind) : Machine :=
  { m with
    logs := m.logs.push
      { message, kind, position := m.walker.position, facing := m.walker.facing } }

/-- Takes a snapshot. -/
def snapshot (m : Machine) (message : String) (kind : LogKind) (note : Note) : Machine :=
  { m with
    frames := m.frames.push
      { frameIndex := m.frames.size, step := m.walker.attempted, row := m.walker.position.row,
        col := m.walker.position.col, facing := m.walker.facing,
        visited := m.walker.visitedKeys, message, kind, label := note.label,
        command := note.trigger, source := note.source } }

/-- Takes a snapshot and adds its message to the log. -/
def record (m : Machine) (message : String) (kind : LogKind) (note : Note) : Machine :=
  (m.snapshot message kind note).log message kind

/-- Stops with a fault. -/
def fail (m : Machine) (fault : Fault) (note : Note) : Machine :=
  { m.record fault.message .error note with
    agenda := [], fault := some (fault.toDiagnostic note.source) }

/-- Changes the actor. -/
def withWalker (m : Machine) (w : Walker) : Machine :=
  { m with walker := w }

/-- Counts a completed command. -/
def complete (m : Machine) : Machine :=
  m.withWalker { m.walker with executed := m.walker.executed + 1 }

/-! ## Commands -/

/-- Passes through the portal that the actor has stepped on. -/
def warp (map : GridMap) (m : Machine) (step warpId : Nat) (note : Note) : Machine :=
  match map.partner? warpId m.walker.position with
  | none => m.fail (.unresolvedPortal step warpId) note
  | some exit =>
    ((m.withWalker (m.walker.goTo exit)).record
      s!"Passed through warp W{warpId} to {exit.render}." .success
      { label := some s!"Warp W{warpId}", trigger := some .warp, source := note.source }).complete

/-- Moves one cell ahead, and through the portal there. -/
def moveForward (map : GridMap) (m : Machine) (step : Nat) (note : Note) : Machine :=
  match map.neighbor? m.walker.position m.walker.facing with
  | none => m.fail (.offMap step) note
  | some target =>
    if target.isWall then m.fail (.wallCollision step) note
    else
      let p := target.position
      let m := (m.withWalker (m.walker.goTo p)).record
        s!"Command {step}: moved to {p.render}." .info note
      match target.warpId with
      | none => m.complete
      | some warpId => warp map m step warpId note

/-- Turns to a new heading. -/
def turn (m : Machine) (step : Nat) (side : String) (facing : Direction) (note : Note) :
    Machine :=
  ((m.withWalker { m.walker with facing }).record
    s!"Command {step}: turned {side}, now facing {facing.name}." .info note).complete

/-- Picks up the gem. -/
def collect (m : Machine) (step : Nat) (note : Note) : Machine :=
  match m.walker.takeGem? with
  | none => m.fail (.noGem step) note
  | some w =>
    let total := w.collected + 1
    ((m.withWalker { w with collected := total }).record
      s!"Command {step}: collected a gem (total {total})." .success note).complete

/-- Flips the switch. -/
def toggle (m : Machine) (step : Nat) (note : Note) : Machine :=
  match m.walker.toggle? with
  | none => m.fail (.noSwitch step) note
  | some (state, w) =>
    let verb := match state with
      | .opened => "opened"
      | .closed => "closed"
    ((m.withWalker w).record s!"Command {step}: {verb} the switch." .info note).complete

/-- Carries out a command. -/
def execute (map : GridMap) (m : Machine) (command : Command) (source : SourceRef) : Machine :=
  let step := m.walker.attempted + 1
  let note := Note.command step command source
  let m := m.withWalker { m.walker with attempted := step }.visit
  match command with
  | .moveForward => m.moveForward map step note
  | .turnLeft => m.turn step "left" m.walker.facing.turnLeft note
  | .turnRight => m.turn step "right" m.walker.facing.turnRight note
  | .collectGem => m.collect step note
  | .toggleSwitch => m.toggle step note

/-! ## Control statements -/

/-- Checks the condition of an `if` and goes on with the branch it selects. -/
def select (map : GridMap) (m : Machine) (condition : Condition)
    (consequent alternate : List Stmt) (rest : List Task) : Machine :=
  let result := condition.eval (m.walker.holds map)
  let verdict := if result then "true" else "false"
  { m.log s!"Condition if ({condition.render}) is {verdict}." .info with
    agenda := Task.ahead (if result then consequent else alternate) rest }

/-- Checks the condition of a `while` and goes through another round if it holds. -/
def check (setting : Setting) (m : Machine) (rounds : Nat) (condition : Condition)
    (body : List Stmt) (source : SourceRef) (rest : List Task) : Machine :=
  let result := condition.eval (m.walker.holds setting.map)
  let verdict := if result then "continue" else "stop"
  let m := m.log s!"while ({condition.render}) check: {verdict}" .info
  if !result then { m with agenda := rest }
  else
    -- the rounds of one loop are counted in a 32-bit word
    let rounds := (rounds + 1) % (Text.max32 + 1)
    let limit := setting.limits.whileLimit
    if limit < rounds then m.fail (.whileLimitExceeded limit) (.at source)
    else { m with agenda := Task.ahead body (.recheck rounds condition body source :: rest) }

/-- Enters a function. -/
def enter (functions : List FunctionDef) (m : Machine) (name : String) (source : SourceRef)
    (rest : List Task) : Machine :=
  match FunctionDef.body? functions name with
  | none => m.fail (.undefinedFunction name) (.at source)
  | some body =>
    if (Task.active rest).contains name then m.fail (.recursion name) (.at source)
    else { m with agenda := Task.ahead body (.leave name :: rest) }

/-! ## Moves -/

/-- Counts an operation; the counter stops at the largest 32-bit word. -/
def charge (m : Machine) : Machine :=
  m.withWalker { m.walker with operations := min (m.walker.operations + 1) Text.max32 }

/-- Carries out a task whose operation has been charged. -/
def perform (setting : Setting) (m : Machine) (task : Task) (rest : List Task) : Machine :=
  match task with
  | .run (.command command source) =>
    { m with agenda := rest }.execute setting.map command source
  -- one round now, and behind it the loop with one round less
  | .run (.loop count body source) =>
    { m with agenda := Task.ahead body (.run (.loop (count - 1) body source) :: rest) }
  | .run (.ifThen condition consequent _) => m.select setting.map condition consequent [] rest
  | .run (.ifElse condition consequent alternate _) =>
    m.select setting.map condition consequent alternate rest
  | .run (.whileDo condition body source) => m.check setting 0 condition body source rest
  | .run (.call name source) => m.enter setting.functions name source rest
  | .recheck rounds condition body source =>
    m.check setting rounds condition body source rest
  | .leave _ => { m with agenda := rest }

/-- One move: charges an operation, then carries out the task. -/
def move (setting : Setting) (m : Machine) (task : Task) (rest : List Task) : Machine :=
  let charged := m.charge
  let limit := setting.limits.operationBudget
  if limit < charged.walker.operations then
    charged.fail (.budgetExceeded limit) (task.note m.walker)
  else charged.perform setting task rest

/-- Makes moves until the agenda is done; `none` when more moves are needed than allowed. -/
def run (setting : Setting) : Nat → Machine → Option Machine
  | allowed, m =>
    match Task.next? m.agenda with
    | none => some m
    | some (task, rest) =>
      match allowed with
      | 0 => none
      | allowed + 1 => run setting allowed (m.move setting task rest)

/-! ## Empty loops -/

/-- How many rounds of an empty loop in front of the agenda are allowed and within the budget. -/
def emptyRounds (setting : Setting) (allowed : Nat) (m : Machine) : Nat :=
  match m.agenda with
  | .run (.loop count [] _) :: _ =>
    let budget := setting.limits.operationBudget
    -- a counter that stops at the budget never exceeds it
    let spare := if budget < Text.max32 then budget - m.walker.operations else count
    min count (min allowed spare)
  | _ => 0

/-- Charges a number of rounds of the empty loop in front of the agenda. -/
def skip (rounds : Nat) (m : Machine) : Machine :=
  match m.agenda with
  | .run (.loop count [] source) :: rest =>
    { m with
      walker.operations := min (m.walker.operations + rounds) Text.max32
      agenda := .run (.loop (count - rounds) [] source) :: rest }
  | _ => m

/-- Makes moves until the agenda is done, a number of steps at most; a step is a move and the
rounds of an empty loop that follow it. -/
def runSkipping (setting : Setting) : Nat → Nat → Machine → Option Machine
  | steps, allowed, m =>
    match Task.next? m.agenda with
    | none => some m
    | some (task, rest) =>
      match steps, allowed with
      | steps + 1, allowed + 1 =>
        let m := m.move setting task rest
        let rounds := m.emptyRounds setting allowed
        runSkipping setting steps (allowed - rounds) (m.skip rounds)
      | _, _ => none

end Machine

end GemGrid
