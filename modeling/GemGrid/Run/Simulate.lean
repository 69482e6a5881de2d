import GemGrid.Run.Machine

/-!
# Simulation

A run of a program on a map, from the start cell to the outcome.

* `simulateWithin` allows a number of moves; `Ends` says that some number suffices.  The rounds
  of an empty loop are moves that are charged at once.
* `simulate` allows one move more than the budget.  As every move charges an operation, that is
  enough whenever the counter can exceed the budget.
-/

namespace GemGrid

namespace Machine

/-- The machine before the first move. -/
def atStart (map : GridMap) (program : Program) (start : Cell) : Machine :=
  let w := (Walker.atStart map start).visit
  let m : Machine :=
    { walker := w, agenda := Task.ahead program.main [], logs := #[], frames := #[],
      fault := none }
  m.record s!"Starting at {w.position.render} facing {w.facing.name}." .success
    { label := some "Start", trigger := some .start }

/-- Records the end of a run that no fault has stopped. -/
def close (m : Machine) : Machine :=
  match m.fault with
  | some _ => m
  | none =>
    m.record "All commands executed." .success { label := some "Done", trigger := some .finish }

end Machine

/-- What is left undone, as diagnostics: gems not collected and switches not open. -/
def leftUndone (gems closed : Nat) : List Diagnostic :=
  let gemNoun := if gems = 1 then "gem" else "gems"
  let switchNoun := if closed = 1 then "switch" else "switches"
  (if 0 < gems then [.plain 500 s!"{gems} {gemNoun} left uncollected."] else []) ++
    (if 0 < closed then [.plain 501 s!"{closed} {switchNoun} not left open."] else [])

/-- The outcome on a map without a start. -/
def Outcome.withoutStart (map : GridMap) : Outcome :=
  let closed := map.switches.values.countP (· != .opened)
  let diagnostics :=
    Fault.missingStart.toDiagnostic none :: leftUndone map.totalGems closed
  { logs := [], errors := diagnostics.map (·.message), diagnostics, visitedPath := [],
    gemsCollected := 0, totalGems := map.totalGems,
    switchesOpen := map.totalSwitches - closed, totalSwitches := map.totalSwitches,
    stepsExecuted := 0, frames := [] }

/-- The outcome of a machine that has stopped. -/
def Outcome.ofMachine (map : GridMap) (m : Machine) : Outcome :=
  let w := m.walker
  let closed := w.switches.size - w.openSwitches
  let diagnostics := m.fault.toList ++ leftUndone w.gems.size closed
  { logs := m.logs.toList, errors := diagnostics.map (·.message), diagnostics,
    visitedPath := w.visitedKeys, gemsCollected := w.collected, totalGems := map.totalGems,
    switchesOpen := map.totalSwitches - closed, totalSwitches := map.totalSwitches,
    stepsExecuted := w.executed, frames := m.frames.toList }

/-- The outcome of a run, if it ends within a number of moves. -/
def simulateWithin (moves : Nat) (map : GridMap) (program : Program) (limits : Limits) :
    Option Outcome :=
  match map.start with
  | none => some (.withoutStart map)
  | some start => do
    let setting : Setting := { map, functions := program.functions, limits }
    let m ← Machine.runSkipping setting moves moves (.atStart map program start)
    return .ofMachine map m.close

/-- A run ends with an outcome if some number of moves suffices. -/
def Ends (map : GridMap) (program : Program) (limits : Limits) (o : Outcome) : Prop :=
  ∃ moves, simulateWithin moves map program limits = some o

/-- The outcome of a run. -/
def simulate (map : GridMap) (program : Program) (limits : Limits) : Option Outcome :=
  simulateWithin (limits.operationBudget + 1) map program limits

end GemGrid
