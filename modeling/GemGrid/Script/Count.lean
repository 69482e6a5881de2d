import GemGrid.Script.Calls
import GemGrid.Text.Decimal

/-!
# Counting commands without running them

A program whose main statements reach no `if` and no `while` executes a number of commands that
does not depend on the map.  `commandCount` finds it, counting every function once and keeping
the result; numbers beyond 64 bits are cut off at the largest 64-bit word.

The count stops at the first guarded statement: what follows it is not looked at.
-/

namespace GemGrid.Script

/-- The functions counted so far; a function that depends on the map counts as none. -/
abbrev Tally := List (String × Option Nat)

/-- A count and the functions counted on the way. -/
abbrev Counted := Except CallError (Option Nat × Tally)

/-- A number cut off at the largest 64-bit word. -/
def saturate (n : Nat) : Nat :=
  min n Text.max64

mutual

/-- The number of commands in a list of statements, given how calls are counted. -/
def countIn (countCall : Tally → CallSite → Counted) (tally : Tally) : List Stmt → Counted
  | [] => .ok (some 0, tally)
  | s :: ss => do
    match ← countOne countCall tally s with
    | (none, tally) => return (none, tally)
    | (some n, tally) =>
      let (rest, tally) ← countIn countCall tally ss
      return (rest.map fun m => saturate (n + m), tally)

/-- The number of commands in a statement, given how calls are counted. -/
def countOne (countCall : Tally → CallSite → Counted) (tally : Tally) : Stmt → Counted
  | .command .. => .ok (some 1, tally)
  | .loop count body _ => do
    let (inner, tally) ← countIn countCall tally body
    return (inner.map fun n => saturate (n * count), tally)
  | .call name source => countCall tally { name, source }
  | .ifThen .. | .ifElse .. | .whileDo .. => .ok (none, tally)

end

/-- The number of commands in a call.  The path holds the functions being counted; the number
bounds the functions that are not on it. -/
def countCall (functions : List FunctionDef) :
    Nat → List String → Tally → CallSite → Counted
  | spare, path, tally, site =>
    match tally.lookup site.name with
    -- counted before, and found to have no cycle then
    | some known => .ok (known, tally)
    | none => do
      let body ← lookup functions site
      if path.contains site.name then .error (.recursive site)
      else match spare with
      -- every function is on the path, so this one is
      | 0 => .error (.recursive site)
      | spare + 1 => do
        let (inner, tally) ←
          countIn (countCall functions spare (site.name :: path)) tally body
        return (inner, (site.name, inner) :: tally)

/-- The number of commands a complete run executes, if it does not depend on the map. -/
def commandCount (main : List Stmt) (functions : List FunctionDef) :
    Except CallError (Option Nat) := do
  let (count, _) ← countIn (countCall functions functions.length []) [] main
  return count

end GemGrid.Script
