import GemGrid.Grid.Cell

/-!
# Grid maps

A map is a grid of cells together with what a run needs to know about it: where it starts, where
the gems and switches are, and which cells each portal number joins.

A map may come from a text or from a host.  In the latter case nothing ties the parts together:
the grid is read by index, while a cell that is entered says its own place.
-/

namespace GemGrid

/-- A map of the puzzle. -/
structure GridMap where
  grid : List (List Cell)
  rows : Nat
  columns : Nat
  start : Option Cell
  gems : OrderedSet Position
  switches : OrderedMap Position SwitchState
  portals : OrderedMap Nat (List Position)
deriving DecidableEq

namespace GridMap

/-- The map without cells. -/
def empty : GridMap :=
  { grid := [], rows := 0, columns := 0, start := none, gems := .empty, switches := .empty,
    portals := .empty }

instance : Inhabited GridMap := ⟨empty⟩

/-- The cell at a position. -/
def cell? (m : GridMap) (p : Position) : Option Cell := do
  let row ← m.grid[p.row]?
  row[p.col]?

/-- The cell next to a position. -/
def neighbor? (m : GridMap) (p : Position) (d : Direction) : Option Cell := do
  m.cell? (← p.step d)

/-- Whether a step is impossible: the neighbour is a wall or off the map. -/
def isBlocked (m : GridMap) (p : Position) (d : Direction) : Bool :=
  match m.neighbor? p d with
  | none => true
  | some cell => cell.isWall

/-- The other end of a portal: the first cell of its number that is not the given one. -/
def partner? (m : GridMap) (warpId : Nat) (p : Position) : Option Position := do
  let cells ← m.portals.get? warpId
  cells.find? (· != p)

/-- The number of gems. -/
def totalGems (m : GridMap) : Nat :=
  m.gems.size

/-- The number of switches. -/
def totalSwitches (m : GridMap) : Nat :=
  m.switches.size

/-- One row as text: the tokens with tabs between them, without blanks at the end. -/
def rowText (row : List Cell) : List Char :=
  Text.trimEnd (['\t'].intercalate (row.map fun cell => cell.token.toList))

/-- The map as text, one line a row. -/
def toText (m : GridMap) : String :=
  String.ofList (['\n'].intercalate (m.grid.map rowText))

end GridMap

end GemGrid
