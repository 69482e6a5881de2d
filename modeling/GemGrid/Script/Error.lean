import GemGrid.Condition.Error
import GemGrid.Script.Calls
import GemGrid.Script.LoopCount

/-!
# Errors in scripts

What can be wrong with a script, and where.  A `ScriptError` has a cause and usually a place: the
line of the script and a text to show with it.
-/

namespace GemGrid

/-- What can be wrong with a script. -/
inductive ScriptFault where
  | empty
  | unknownStatement (text : String)
  | strayBrace (brace : String)
  | noBlock
  | unclosedBlock
  | endedEarly
  | loop (error : Script.LoopError)
  | guardBlank (keyword : String)
  | guard (keyword : String) (error : ConditionError)
  | malformedFunction (text : String)
  | nestedFunction
  | duplicateFunction (name : String)
  | reservedName (name : String)
  | strayElse
  | elseWithoutBlock
  | noMain
  | call (error : CallError)
deriving DecidableEq, Repr

namespace ScriptFault

/-- The number of a fault. -/
def code : ScriptFault → Nat
  | .empty => 200
  | .unknownStatement _ | .strayBrace _ => 201
  | .noBlock => 202
  | .unclosedBlock | .endedEarly => 203
  | .loop e => e.code
  | .guardBlank _ | .guard .. => ConditionError.code
  | .malformedFunction _ => 207
  | .nestedFunction => 208
  | .duplicateFunction _ => 209
  | .reservedName _ => 210
  | .strayElse | .elseWithoutBlock => 211
  | .noMain => 212
  | .call e => e.code

/-- The text of a fault. -/
def message : ScriptFault → String
  | .empty => "the script is empty"
  | .unknownStatement text => s!"unknown statement: {text}"
  | .strayBrace brace => s!"unexpected brace {brace}"
  | .noBlock => "expected an opening brace \x7b"
  | .unclosedBlock => "missing closing brace \x7d for this block"
  | .endedEarly => "the script ended while a statement was expected"
  | .loop e => e.message
  | .guardBlank keyword => s!"the {keyword} statement needs a condition"
  | .guard keyword e => s!"cannot parse the {keyword} condition: {e.message}"
  | .malformedFunction text => s!"cannot parse the function definition: {text}"
  | .nestedFunction => "functions cannot be defined inside another block"
  | .duplicateFunction name => s!"function {name} is already defined"
  | .reservedName name => s!"a function cannot share a command's name: {name}"
  | .strayElse => "else without a matching if"
  | .elseWithoutBlock => "else must be followed by a block \x7b ... \x7d or an if statement"
  | .noMain => "no statements to run outside function definitions"
  | .call e => e.message

end ScriptFault

/-- A fault of a script with the line and text it is shown with. -/
structure ScriptError where
  fault : ScriptFault
  site : Option SourceRef
deriving DecidableEq, Repr

/-- The error as a diagnostic. -/
def ScriptError.toDiagnostic (e : ScriptError) : Diagnostic :=
  let plain := Diagnostic.plain e.fault.code e.fault.message
  match e.site with
  | some s => plain.atLine s.line s.text
  | none => plain

end GemGrid
