import GemGrid.Diagnostic

/-!
# Errors in conditions

All of them share one code; they differ in their message.
-/

namespace GemGrid

/-- What can be wrong with a condition. -/
inductive ConditionError where
  | blank
  | strangeCharacter (c : Char)
  | endedEarly
  | unclosed
  | unsupported (token : String)
  | unexpected (token : String)
deriving DecidableEq, Repr

namespace ConditionError

/-- The number shared by all errors in conditions. -/
def code : Nat := 206

/-- The text of an error. -/
def message : ConditionError → String
  | .blank => "a condition is required"
  | .strangeCharacter c => s!"unsupported character in condition: {c}"
  | .endedEarly => "the condition ended unexpectedly"
  | .unclosed => "unclosed parenthesis in condition"
  | .unsupported token => s!"unsupported condition: {token}"
  | .unexpected token => s!"unexpected token in condition: {token}"

/-- The error as a diagnostic. -/
def toDiagnostic (e : ConditionError) : Diagnostic :=
  .plain code e.message

end ConditionError

end GemGrid
