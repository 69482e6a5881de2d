import GemGrid.Diagnostic
import GemGrid.Source

/-!
# Faults of a run

A run stops at its first fault.  Commands are named by their index among the commands attempted
so far, counted from one.
-/

namespace GemGrid

/-- What can stop a run. -/
inductive Fault where
  | offMap (step : Nat)
  | wallCollision (step : Nat)
  | noGem (step : Nat)
  | noSwitch (step : Nat)
  | unresolvedPortal (step warpId : Nat)
  | budgetExceeded (limit : Nat)
  | whileLimitExceeded (limit : Nat)
  | undefinedFunction (name : String)
  | recursion (name : String)
  | missingStart
deriving DecidableEq, Repr, Inhabited

namespace Fault

/-- The number of a fault. -/
def code : Fault → Nat
  | .offMap _ => 400
  | .wallCollision _ => 401
  | .noGem _ => 402
  | .noSwitch _ => 403
  | .unresolvedPortal .. => 404
  | .budgetExceeded _ => 405
  | .whileLimitExceeded _ => 406
  | .undefinedFunction _ => 300
  | .recursion _ => 301
  | .missingStart => 101

/-- The text of a fault. -/
def message : Fault → String
  | .offMap step => s!"Command {step}: tried to move off the map."
  | .wallCollision step => s!"Command {step}: ran into an impassable cell (止)."
  | .noGem step => s!"Command {step}: there is no gem here."
  | .noSwitch step => s!"Command {step}: there is no switch here."
  | .unresolvedPortal step warpId => s!"Command {step}: warp W{warpId} has no destination."
  | .budgetExceeded limit =>
    s!"Exceeded {limit} execution steps. The script may contain an infinite loop."
  | .whileLimitExceeded limit =>
    s!"A while loop exceeded {limit} iterations. Check its condition and body."
  | .undefinedFunction name => s!"call to undefined function: {name}()"
  | .recursion name => s!"recursive function calls are not supported: {name}()"
  | .missingStart => "The map has no start position."

/-- The fault as a diagnostic, at the statement that was running. -/
def toDiagnostic (f : Fault) (source : Option SourceRef) : Diagnostic :=
  let plain := Diagnostic.plain f.code f.message
  match source with
  | some s => plain.atLine s.line s.text
  | none => plain

end Fault

end GemGrid
