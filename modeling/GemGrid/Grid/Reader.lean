import GemGrid.Diagnostic
import GemGrid.Grid.Map
import GemGrid.Text.Pieces

/-!
# Reading maps

A map text has one row a line and tabs between the cells.  Blanks at the end of a line and lines
without anything else are ignored, and short rows are filled up with floor.

* `GridMap.tokenRows` is the text as a rectangle of tokens.
* `GridMap.ofCells` collects start, gems, switches and portals from a rectangle of cells.
* `GridMap.read` puts both together and applies the rules a puzzle has to meet: exactly one start
  and exactly two cells for each portal number.  `MapRules` can lift them.

The errors are tried in a fixed order: no rows, a portal number out of range, the start, the
portals.
-/

namespace GemGrid

/-- Which of the rules for maps are lifted. -/
structure MapRules where
  allowMissingStart : Bool := false
  allowUnpairedPortals : Bool := false
  allowEmpty : Bool := false
deriving DecidableEq, Repr, Inhabited

/-- Every rule lifted, for showing a map while it is being drawn. -/
def MapRules.preview : MapRules :=
  { allowMissingStart := true, allowUnpairedPortals := true, allowEmpty := true }

/-- What can be wrong with a map text. -/
inductive MapError where
  | empty
  | portalRange (token : String)
  | noStart
  | manyStarts (count : Nat)
  | unpairedPortal (id count : Nat)
deriving DecidableEq, Repr

namespace MapError

/-- The number of an error. -/
def code : MapError → Nat
  | .empty => 100
  | .noStart => 101
  | .unpairedPortal .. => 102
  | .manyStarts _ => 103
  | .portalRange _ => 104

/-- The text of an error. -/
def message : MapError → String
  | .empty => "the map is empty"
  | .noStart => "the map needs a start arrow (one of ↑ ↓ ← →)"
  | .unpairedPortal id count =>
    s!"warp portal W{id} must appear in exactly 2 cells (found {count})"
  | .manyStarts count => s!"the map must have exactly one start arrow (found {count})"
  | .portalRange token => s!"warp portal id is out of range: {token}"

/-- The error as a diagnostic; maps have no lines to point at. -/
def toDiagnostic (e : MapError) : Diagnostic :=
  .plain e.code e.message

end MapError

namespace GridMap

/-! ## From text to tokens -/

/-- The lines of a map text that hold a row: cut at every CR and LF, without blanks at the end,
empty ones left out.  Byte order marks in front are ignored. -/
def rowLines (text : List Char) : List (List Char) :=
  ((Text.pieces (fun c => c == '\r' || c == '\n') (text.dropWhile (· == '\uFEFF'))).map
    Text.trimEnd).filter fun line => !line.isEmpty

/-- The cells of a line. -/
def cut (line : List Char) : List (List Char) :=
  Text.pieces (· == '\t') line

/-- The length of the longest row. -/
def width (rows : List (List (List Char))) : Nat :=
  rows.foldl (fun w row => max w row.length) 0

/-- Fills a row up with empty tokens. -/
def pad (w : Nat) (row : List (List Char)) : List (List Char) :=
  row ++ List.replicate (w - row.length) []

/-- The rectangle of tokens of a map text. -/
def tokenRows (text : List Char) : List (List (List Char)) :=
  let rows := (rowLines text).map cut
  rows.map (pad (width rows))

/-! ## From tokens to cells -/

/-- The cells of one row, from left to right. -/
def readRow (r : Nat) (tokens : List (List Char)) : Except MapError (List Cell) :=
  (tokens.zipIdx).mapM fun (token, c) =>
    match Cell.ofToken (String.ofList token) r c with
    | .ok cell => .ok cell
    | .error token => .error (.portalRange token)

/-- The cells of all rows, from top to bottom. -/
def readRows (rows : List (List (List Char))) : Except MapError (List (List Cell)) :=
  (rows.zipIdx).mapM fun (tokens, r) => readRow r tokens

/-! ## From cells to a map -/

/-- The start cells of a grid, row by row. -/
def starts (grid : List (List Cell)) : List Cell :=
  grid.flatten.filter (·.isStart)

/-- The positions of the gems of a grid. -/
def gemsOf (grid : List (List Cell)) : OrderedSet Position :=
  .ofList ((grid.flatten.filter (·.hasGem)).map (·.position))

/-- The switches of a grid. -/
def switchesOf (grid : List (List Cell)) : OrderedMap Position SwitchState :=
  .ofList (grid.flatten.filterMap fun cell => cell.switchState.map fun s => (cell.position, s))

/-- Adds a cell to the cells of its portal number. -/
def addPortal (portals : OrderedMap Nat (List Position)) (cell : Cell) :
    OrderedMap Nat (List Position) :=
  match cell.warpId with
  | none => portals
  | some id => portals.insert id ((portals.get? id).getD [] ++ [cell.position])

/-- The cells of each portal number of a grid, row by row. -/
def portalsOf (grid : List (List Cell)) : OrderedMap Nat (List Position) :=
  grid.flatten.foldl addPortal .empty

/-- The map of a grid with rows of the given length; the last start counts. -/
def ofCells (columns : Nat) (grid : List (List Cell)) : GridMap :=
  { grid, rows := grid.length, columns, start := (starts grid).getLast?, gems := gemsOf grid,
    switches := switchesOf grid, portals := portalsOf grid }

/-! ## The rules -/

/-- The rule that there is exactly one start. -/
def checkStarts (rules : MapRules) (grid : List (List Cell)) : Except MapError Unit :=
  if rules.allowMissingStart then .ok ()
  else match (starts grid).length with
  | 0 => .error .noStart
  | 1 => .ok ()
  | n => .error (.manyStarts n)

/-- The rule that each portal number has exactly two cells. -/
def checkPortals (rules : MapRules) (m : GridMap) : Except MapError Unit :=
  if rules.allowUnpairedPortals then .ok ()
  else match m.portals.entries.find? fun e => e.2.length != 2 with
  | some (id, cells) => .error (.unpairedPortal id cells.length)
  | none => .ok ()

/-- The map of a text. -/
def read (rules : MapRules) (text : String) : Except MapError GridMap :=
  match tokenRows text.toList with
  | [] => if rules.allowEmpty then .ok empty else .error .empty
  | rows => do
    let grid ← readRows rows
    checkStarts rules grid
    let m := ofCells (width rows) grid
    checkPortals rules m
    return m

end GridMap

end GemGrid
