import GemGrid.Condition.Basic
import GemGrid.Grid.Map

/-!
# The actor

Where the actor stands, what it has found so far and what is left on the map.  The map itself
never changes; a run starts from its gems and switches and keeps its own account of them.
-/

namespace GemGrid

/-- The actor and its account of the map. -/
structure Walker where
  position : Position
  facing : Direction
  /-- The gems that are left. -/
  gems : OrderedSet Position
  switches : OrderedMap Position SwitchState
  /-- The cells visited, in order of the first visit. -/
  visited : List Position
  /-- The number of commands begun, including one that failed. -/
  attempted : Nat
  /-- The number of commands completed. -/
  executed : Nat
  collected : Nat
  /-- The number of operations charged, up to the largest 32-bit word. -/
  operations : Nat
deriving DecidableEq

namespace Walker

/-- The actor on the start cell; without an arrow it faces right. -/
def atStart (map : GridMap) (start : Cell) : Walker :=
  { position := start.position, facing := start.direction.getD .right, gems := map.gems,
    switches := map.switches, visited := [], attempted := 0, executed := 0, collected := 0,
    operations := 0 }

/-- Marks the current cell as visited. -/
def visit (w : Walker) : Walker :=
  if w.visited.contains w.position then w else { w with visited := w.visited ++ [w.position] }

/-- The actor on another cell, which is marked as visited. -/
def goTo (w : Walker) (p : Position) : Walker :=
  { w with position := p }.visit

/-- The keys of the visited cells. -/
def visitedKeys (w : Walker) : List String :=
  w.visited.map (·.key)

/-- Takes the gem from the current cell, if there is one. -/
def takeGem? (w : Walker) : Option Walker :=
  if w.gems.contains w.position then some { w with gems := w.gems.erase w.position } else none

/-- Flips the switch on the current cell, if there is one, and returns its new state. -/
def toggle? (w : Walker) : Option (SwitchState × Walker) := do
  let state := (← w.switches.get? w.position).toggled
  return (state, { w with switches := w.switches.insert w.position state })

/-- The number of switches that are open. -/
def openSwitches (w : Walker) : Nat :=
  w.switches.values.countP (· == .opened)

/-- Whether a sensor holds where the actor stands.  Off the map counts as blocked. -/
def holds (map : GridMap) (w : Walker) : Predicate → Bool
  | .isOnGem => w.gems.contains w.position
  | .isOnOpenSwitch => w.switches.get? w.position == some .opened
  | .isOnClosedSwitch => w.switches.get? w.position == some .closed
  | .isOnSwitch => (w.switches.get? w.position).isSome
  | .isBlocked => map.isBlocked w.position w.facing
  | .isBlockedLeft => map.isBlocked w.position w.facing.turnLeft
  | .isBlockedRight => map.isBlocked w.position w.facing.turnRight

end Walker

end GemGrid
