import GemGrid.Grid.Position

/-!
# Cells

One cell of a map: the token it was written as, its place, and what the token means.

The legend is fixed.  A token that stands for nothing is floor and keeps its text; a portal is
written `W` and a decimal number, and cells with equal numbers belong together.

* `Cell.ofToken` reads a token.  It fails only for a portal number beyond 32 bits.
* `Cell.describe` says in words what stands on a cell.
-/

namespace GemGrid

/-- Whether a cell can be entered. -/
inductive Ground where
  | floor
  | wall
deriving DecidableEq, Repr, Inhabited

/-- The name of a ground. -/
def Ground.name : Ground → String
  | .floor => "floor"
  | .wall => "wall"

/-- The position of a switch. -/
inductive SwitchState where
  | opened
  | closed
deriving DecidableEq, Repr, Inhabited

namespace SwitchState

/-- The other state. -/
def toggled : SwitchState → SwitchState
  | .opened => .closed
  | .closed => .opened

/-- The name of a state. -/
def name : SwitchState → String
  | .opened => "open"
  | .closed => "closed"

@[simp] theorem toggled_toggled (s : SwitchState) : s.toggled.toggled = s := by
  cases s <;> rfl

end SwitchState

/-! ## The legend -/

namespace Legend

/-- The token of an impassable block. -/
def wall : String := "止"

/-- The token of a gem. -/
def gem : String := "♦"

/-- The token of an open switch. -/
def openSwitch : String := "〇"

/-- The token of a closed switch. -/
def closedSwitch : String := "●"

/-- The letter before a portal's number. -/
def portalMark : Char := 'W'

/-- The digits of a portal token. -/
def portalDigits? (token : String) : Option (List Char) :=
  match token.toList with
  | [] => none
  | c :: digits => if c = portalMark ∧ (Text.digits? digits).isSome then some digits else none

end Legend

/-! ## Cells -/

/-- One cell of a map. -/
structure Cell where
  token : String
  row : Nat
  col : Nat
  ground : Ground
  isStart : Bool
  direction : Option Direction
  hasGem : Bool
  switchState : Option SwitchState
  warpId : Option Nat
deriving DecidableEq, Repr, Inhabited

namespace Cell

/-- A plain floor cell. -/
def floor (token : String) (row col : Nat) : Cell :=
  { token, row, col, ground := .floor, isStart := false, direction := none, hasGem := false,
    switchState := none, warpId := none }

/-- The place that a cell says it has. -/
def position (c : Cell) : Position :=
  { row := c.row, col := c.col }

/-- Whether a cell is impassable. -/
def isWall (c : Cell) : Bool :=
  c.ground == .wall

/-- The cell that a token stands for, or the token itself if its portal number is too large. -/
def ofToken (token : String) (row col : Nat) : Except String Cell :=
  let plain := floor token row col
  if token = Legend.wall then .ok { plain with ground := .wall }
  else match Direction.ofArrow? token with
  | some d => .ok { plain with isStart := true, direction := some d }
  | none =>
    if token = Legend.gem then .ok { plain with hasGem := true }
    else if token = Legend.openSwitch then .ok { plain with switchState := some .opened }
    else if token = Legend.closedSwitch then .ok { plain with switchState := some .closed }
    -- with no glyph of its own a token is floor, or a portal if a number follows the mark
    else match Legend.portalDigits? token with
    | none => .ok plain
    | some digits =>
      match Text.digitsUpTo? Text.max32 digits with
      | some id => .ok { plain with warpId := some id }
      | none => .error token

/-- What stands on a cell, in words. -/
def describe (c : Cell) : String :=
  if c.isStart then
    match c.direction with
    | some d => s!"Start (facing {d.name})"
    | none => "Start (unknown facing)"
  else if c.hasGem then "Gem"
  else match c.switchState with
  | some s => s!"Switch ({s.name})"
  | none =>
    match c.warpId with
    | some id => s!"Warp portal W{id}"
    | none =>
      if c.isWall then "Impassable block"
      else match Text.trim c.token.toList with
      | [] => "Floor"
      | custom => "Custom token: " ++ String.ofList custom

end Cell

end GemGrid
