import GemGrid.Script.Basic

/-!
# Calls

Functions may call each other but not themselves, neither directly nor through others, and every
call needs a function.  `checkCalls` follows the calls depth first, from the main statements and
then from every function.

* The *path* holds the functions that are being followed; a call of one of them is a recursion.
* The *cleared* functions have been followed to the end and are not followed again.

The recursion is on the number of functions that are not on the path.  When it is used up, every
function is on the path, so a call that reaches this point closes a cycle.
-/

namespace GemGrid

/-- What can be wrong with a call. -/
inductive CallError where
  | undefined (site : CallSite)
  | recursive (site : CallSite)
deriving DecidableEq, Repr

namespace CallError

/-- The call at fault. -/
def site : CallError → CallSite
  | .undefined s | .recursive s => s

/-- The number of an error. -/
def code : CallError → Nat
  | .undefined _ => 300
  | .recursive _ => 301

/-- The text of an error. -/
def message : CallError → String
  | .undefined s => s!"call to undefined function: {s.name}()"
  | .recursive s => s!"recursive function calls are not supported: {s.name}()"

end CallError

namespace Script

/-- The body that a call runs. -/
def lookup (functions : List FunctionDef) (site : CallSite) : Except CallError (List Stmt) :=
  match FunctionDef.body? functions site.name with
  | some body => .ok body
  | none => .error (.undefined site)

/-- Follows one call and returns the functions cleared after it. -/
def follow (functions : List FunctionDef) :
    Nat → List String → List String → CallSite → Except CallError (List String)
  | spare, path, cleared, site => do
    let body ← lookup functions site
    if path.contains site.name then .error (.recursive site)
    else if cleared.contains site.name then .ok cleared
    else match spare with
    | 0 => .error (.recursive site)
    | spare + 1 => do
      let cleared ← (Stmt.callsIn body).foldlM (follow functions spare (site.name :: path)) cleared
      return site.name :: cleared

/-- Follows the calls of a function unless it has been cleared. -/
def followDef (functions : List FunctionDef) (cleared : List String) (f : FunctionDef) :
    Except CallError (List String) :=
  if cleared.contains f.name then .ok cleared
  else do
    let cleared ←
      (Stmt.callsIn f.body).foldlM (follow functions functions.length [f.name]) cleared
    return f.name :: cleared

/-- Whether all calls have a function and none is recursive. -/
def checkCalls (main : List Stmt) (functions : List FunctionDef) : Except CallError Unit := do
  let cleared ← (Stmt.callsIn main).foldlM (follow functions functions.length []) []
  let _ ← functions.foldlM (followDef functions) cleared
  return ()

end Script

end GemGrid
