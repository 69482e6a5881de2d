/-!
# A sample puzzle

A map of six rows and seven columns with three gems and two pairs of portals, and sixteen
commands that solve it.
-/

namespace GemGrid.Sample

/-- The rows of the sample map. -/
def mapRows : List (List String) :=
  [["止", "止", "止", "→", "", "", "♦"],
    ["止", "止", "止", "止", "止", "止", "W1"],
    ["止", "止", "止", "止", "止", "W1", "止"],
    ["", "止", "止", "止", "止", "", "止"],
    ["♦", "", "", "W2", "止", "", "止"],
    ["止", "止", "止", "止", "W2", "♦", "止"]]

/-- The text of the sample map. -/
def map : String :=
  "\n".intercalate (mapRows.map ("\t".intercalate ·))

/-- The commands that solve the sample map. -/
def solution : String :=
  "\n".intercalate
    ["moveForward()", "moveForward()", "moveForward()", "collectGem()", "turnRight()",
      "moveForward()", "moveForward()", "moveForward()", "moveForward()", "collectGem()",
      "turnRight()", "moveForward()", "moveForward()", "moveForward()", "moveForward()",
      "collectGem()"]

end GemGrid.Sample
