import GemGrid.Condition.Basic
import GemGrid.Grid.Cell
import GemGrid.Json.Printer
import GemGrid.Script.Basic

/-!
# The language reference

A short description of scripts and maps, as text for a help panel and as a table for editors.
Both list the commands, the sensors and the legend from the same definitions that reading and
running use.
-/

namespace GemGrid.Reference

/-- The version of the language. -/
def version : String := "0.1.0"

/-- A text filled up with spaces. -/
def pad (width : Nat) (s : String) : String :=
  s ++ String.ofList (List.replicate (width - s.length) ' ')

/-- A name and what it means, in two columns. -/
def entry (name meaning : String) : String :=
  "  " ++ pad 16 name ++ " " ++ meaning

/-- The tokens of maps and what they mean. -/
def legend : List (String × String) :=
  [(Legend.wall, "impassable block"),
    (Legend.gem, "gem (collect with collectGem)"),
    (Legend.openSwitch, "open switch"),
    (Legend.closedSwitch, "closed switch"),
    (" ".intercalate (Direction.all.map Direction.arrow), "start, facing up / down / left / right"),
    (s!"{Legend.portalMark}1 {Legend.portalMark}2 ...", "warp portal, exactly two cells per number"),
    ("(empty)", "floor"),
    ("anything else", "floor, shown as written")]

/-- A command as it is written. -/
def callText (c : Command) : String :=
  c.name ++ "()"

/-! ## As text -/

/-- What the game is about. -/
def preamble : List String :=
  ["GEMPATH: move an actor around a grid, collect every gem, leave every switch open.",
    "Comments: // line and /* block */"]

/-- The forms of control statements. -/
def controlFlow : List String :=
  ["CONTROL FLOW:",
    "  for N times \x7b ... \x7d                N >= 1",
    "  for i in a...b \x7b ... \x7d             inclusive range, runs b - a + 1 times",
    "  for i in a..<b \x7b ... \x7d             half-open range, runs b - a times",
    "  if cond \x7b ... \x7d else if cond \x7b ... \x7d else \x7b ... \x7d",
    "  while cond \x7b ... \x7d",
    "  func name() \x7b ... \x7d                top level only, no parameters",
    "  name()                             call a function"]

/-- The connectives, tightest first. -/
def operators : List String :=
  ["OPERATORS (tightest first):", "  ! (alias: not)    negation"]
    ++ [LogicalOp.and, .or].map (fun op =>
      "  " ++ pad 2 op.symbol ++ "                left-associative")
    ++ ["  ( ... )           grouping"]

/-- What a run does and does not allow. -/
def rules : List String :=
  ["RULES:",
    "  - Moving off the map or into a block stops the run",
    "  - Stepping onto a warp moves you to its partner cell in the same command",
    "  - Functions may not call themselves, directly or through other functions",
    "  - Function names may not reuse a command name",
    "  - A run stops after 10000 operations; a while loop after 10000 iterations",
    "  - Success means every gem collected and every switch open"]

/-- The sections of the reference, each a list of lines. -/
def sections : List (List String) :=
  [preamble,
    "COMMANDS (one per line, no arguments):"
      :: Command.all.map fun c => entry (callText c) c.description,
    controlFlow,
    "PREDICATES (usable in if / while conditions):"
      :: Predicate.all.map fun p => entry p.name p.description,
    operators,
    "MAP LEGEND (one row per line, cells separated by tabs):"
      :: legend.map fun (token, meaning) => entry token meaning,
    rules]

/-- The reference as text: the sections with an empty line between them. -/
def text : String :=
  "\n".intercalate (sections.map fun lines => String.join (lines.map (· ++ "\n")))

/-! ## As a table -/

/-- A command as a row of the table. -/
def commandRow (c : Command) : Json :=
  .obj [("description", .str c.description), ("name", .str c.name),
    ("syntax", .str (callText c))]

/-- A sensor as a row of the table. -/
def predicateRow (p : Predicate) : Json :=
  .obj [("description", .str p.description), ("name", .str p.name)]

/-- A token of maps as a row of the table. -/
def legendRow (token meaning : String) : Json :=
  .obj [("meaning", .str meaning), ("token", .str token)]

/-- The reference as a table. -/
def table : Json :=
  .obj [("commands", Json.list commandRow Command.all),
    ("legend", Json.list (fun e : String × String => legendRow e.1 e.2) legend),
    ("predicates", Json.list predicateRow Predicate.all),
    ("version", .str version)]

end GemGrid.Reference
