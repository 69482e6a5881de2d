import GemGrid.Condition.Basic
import GemGrid.Source

/-!
# Programs

The tree of a script: commands to the actor, counted loops, guarded statements and calls of
functions without parameters.

Every statement keeps a reference to the header it was written as.  A statement with an `else`
and one without are two constructors; an empty `else` is not the same as none.
-/

namespace GemGrid

/-- What the actor can be told to do. -/
inductive Command where
  | moveForward
  | turnLeft
  | turnRight
  | collectGem
  | toggleSwitch
deriving DecidableEq, Repr, Inhabited

namespace Command

/-- All commands, in the order of the reference. -/
def all : List Command :=
  [.moveForward, .turnLeft, .turnRight, .collectGem, .toggleSwitch]

/-- The identifier of a command. -/
def name : Command → String
  | .moveForward => "moveForward"
  | .turnLeft => "turnLeft"
  | .turnRight => "turnRight"
  | .collectGem => "collectGem"
  | .toggleSwitch => "toggleSwitch"

/-- The command of an identifier; letter case matters. -/
def ofName? (name : String) : Option Command :=
  all.find? (·.name == name)

/-- What a command does, for the reference. -/
def description : Command → String
  | .moveForward => "Move one cell in the facing direction (portals teleport)"
  | .turnLeft => "Rotate facing counter-clockwise"
  | .turnRight => "Rotate facing clockwise"
  | .collectGem => "Pick up the gem on the current cell"
  | .toggleSwitch => "Flip the switch on the current cell open/closed"

end Command

/-- A statement of a script. -/
inductive Stmt where
  | command (command : Command) (source : SourceRef)
  | loop (count : Nat) (body : List Stmt) (source : SourceRef)
  | ifThen (condition : Condition) (consequent : List Stmt) (source : SourceRef)
  | ifElse (condition : Condition) (consequent alternate : List Stmt) (source : SourceRef)
  | whileDo (condition : Condition) (body : List Stmt) (source : SourceRef)
  | call (name : String) (source : SourceRef)
deriving Repr, Inhabited

/-- A call with the place it was written at. -/
structure CallSite where
  name : String
  source : SourceRef
deriving DecidableEq, Repr, Inhabited

namespace Stmt

/-- The header a statement was written as. -/
def source : Stmt → SourceRef
  | .command _ s | .loop _ _ s | .ifThen _ _ s | .ifElse _ _ _ s | .whileDo _ _ s | .call _ s => s

/-- An `if` with or without an alternative. -/
def ifWith (condition : Condition) (consequent : List Stmt) (alternate : Option (List Stmt))
    (source : SourceRef) : Stmt :=
  match alternate with
  | none => .ifThen condition consequent source
  | some alternate => .ifElse condition consequent alternate source

mutual

/-- The calls inside a statement, in reading order. -/
def calls : Stmt → List CallSite
  | .command .. => []
  | .loop _ body _ => callsIn body
  | .ifThen _ consequent _ => callsIn consequent
  | .ifElse _ consequent alternate _ => callsIn consequent ++ callsIn alternate
  | .whileDo _ body _ => callsIn body
  | .call name source => [{ name, source }]

/-- The calls inside a list of statements, in reading order. -/
def callsIn : List Stmt → List CallSite
  | [] => []
  | s :: ss => s.calls ++ callsIn ss

end

end Stmt

/-- A function: a name for a list of statements. -/
structure FunctionDef where
  name : String
  body : List Stmt
  source : SourceRef
deriving Repr, Inhabited

/-- The body of the first function of a name. -/
def FunctionDef.body? (functions : List FunctionDef) (name : String) : Option (List Stmt) :=
  (functions.find? (·.name == name)).map (·.body)

/-- What is known of a program before it runs. -/
structure Metadata where
  /-- The number of commands a complete run executes, if it does not depend on the map. -/
  staticCommandCount : Option Nat
  hasDynamicControlFlow : Bool
deriving DecidableEq, Repr, Inhabited

/-- The number of commands, in words. -/
def Metadata.countLabel (m : Metadata) : String :=
  match m.staticCommandCount with
  | some 1 => "1 command"
  | some n => s!"{n} commands"
  | none => if m.hasDynamicControlFlow then "variable (conditional branches)" else "— commands"

/-- A program: the statements to run and the functions they may call. -/
structure Program where
  main : List Stmt
  functions : List FunctionDef
  metadata : Metadata
deriving Repr, Inhabited

/-- The body of the function that a call of this name runs. -/
def Program.function? (p : Program) (name : String) : Option (List Stmt) :=
  FunctionDef.body? p.functions name

end GemGrid
