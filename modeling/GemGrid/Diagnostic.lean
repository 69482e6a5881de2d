/-!
# Diagnostics

What the library reports to a user: a numbered error with a message and, where there is one, the
script line it belongs to.  The causes of errors are types of their own, next to the code that
finds them; each has a code and a message and becomes a `Diagnostic` at the end.

Codes are grouped by hundreds, and the group is the category: 1xx maps, 2xx grammar of scripts,
3xx meaning of scripts, 4xx the run, 5xx what a run leaves behind.
-/

namespace GemGrid

/-- The group of errors that a diagnostic belongs to. -/
inductive Category where
  | map
  | grammar
  | semantic
  | runtime
  | postcondition
deriving DecidableEq, Repr, Inhabited

namespace Category

/-- All categories, in the order of their codes. -/
def all : List Category :=
  [.map, .grammar, .semantic, .runtime, .postcondition]

/-- The name a category is shown under. -/
def name : Category → String
  | .map => "map"
  | .grammar => "syntax"
  | .semantic => "semantic"
  | .runtime => "runtime"
  | .postcondition => "postcondition"

/-- The category of a code; a code outside every group counts as grammar. -/
def ofCode (code : Nat) : Category :=
  match code / 100 with
  | 1 => .map
  | 3 => .semantic
  | 4 => .runtime
  | 5 => .postcondition
  | _ => .grammar

end Category

/-- A numbered error with its message and, if it has one, its place in the script. -/
structure Diagnostic where
  code : Nat
  category : Category
  message : String
  line : Option Nat
  sourceLine : Option String
deriving DecidableEq, Repr, Inhabited

namespace Diagnostic

/-- A diagnostic without a place; the category follows from the code. -/
def plain (code : Nat) (message : String) : Diagnostic :=
  { code, category := .ofCode code, message, line := none, sourceLine := none }

/-- Attaches a script line and its text. -/
def atLine (d : Diagnostic) (line : Nat) (sourceLine : String) : Diagnostic :=
  { d with line := some line, sourceLine := some sourceLine }

/-- The code as shown, `E` and the number. -/
def codeName (d : Diagnostic) : String :=
  s!"E{d.code}"

/-- The one-line form: the line if there is one, the code, the category, the message. -/
def render (d : Diagnostic) : String :=
  let place := match d.line with
    | some line => s!"line {line}: "
    | none => ""
  place ++ d.codeName ++ " [" ++ d.category.name ++ "] " ++ d.message

end Diagnostic

end GemGrid
