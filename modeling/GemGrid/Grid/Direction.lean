/-!
# Directions

The four headings of the actor.  Turning goes clockwise or counter-clockwise through
up, right, down, left; each heading has an arrow in map texts, a name in messages, and a
displacement in rows and columns.
-/

namespace GemGrid

/-- A heading on the grid. -/
inductive Direction where
  | up
  | down
  | left
  | right
deriving DecidableEq, Repr, Inhabited

namespace Direction

/-- All headings, in the order in which their arrows are listed. -/
def all : List Direction :=
  [.up, .down, .left, .right]

/-- A quarter turn clockwise. -/
def turnRight : Direction → Direction
  | .up => .right
  | .right => .down
  | .down => .left
  | .left => .up

/-- A quarter turn counter-clockwise. -/
def turnLeft : Direction → Direction
  | .up => .left
  | .left => .down
  | .down => .right
  | .right => .up

/-- The change of row that one step makes. -/
def rowDelta : Direction → Int
  | .up => -1
  | .down => 1
  | .left | .right => 0

/-- The change of column that one step makes. -/
def colDelta : Direction → Int
  | .left => -1
  | .right => 1
  | .up | .down => 0

/-- The arrow that marks a start with this heading in a map text. -/
def arrow : Direction → String
  | .up => "↑"
  | .down => "↓"
  | .left => "←"
  | .right => "→"

/-- The name of a heading in messages. -/
def name : Direction → String
  | .up => "up"
  | .down => "down"
  | .left => "left"
  | .right => "right"

/-- The heading of an arrow. -/
def ofArrow? (token : String) : Option Direction :=
  all.find? (·.arrow == token)

@[simp] theorem turnLeft_turnRight (d : Direction) : d.turnRight.turnLeft = d := by
  cases d <;> rfl

@[simp] theorem turnRight_turnLeft (d : Direction) : d.turnLeft.turnRight = d := by
  cases d <;> rfl

end Direction

end GemGrid
