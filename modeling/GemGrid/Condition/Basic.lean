/-!
# Conditions

The guards of `if` and `while`: sensors of the actor, combined by negation, conjunction and
disjunction.

* `Predicate` is a sensor; the seven names are the only identifiers a condition may use.
* `Condition` is the tree of a guard.
* `Condition.eval` is its truth value, and `Condition.consulted` lists the sensors that are read
  on the way: the right operand is not looked at when the left one decides.
-/

namespace GemGrid

/-- A sensor of the actor. -/
inductive Predicate where
  | isOnGem
  | isOnOpenSwitch
  | isOnClosedSwitch
  | isOnSwitch
  | isBlocked
  | isBlockedLeft
  | isBlockedRight
deriving DecidableEq, Repr, Inhabited

namespace Predicate

/-- All sensors, in the order of the reference. -/
def all : List Predicate :=
  [.isOnGem, .isOnOpenSwitch, .isOnClosedSwitch, .isOnSwitch, .isBlocked, .isBlockedLeft,
    .isBlockedRight]

/-- The identifier of a sensor. -/
def name : Predicate → String
  | .isOnGem => "isOnGem"
  | .isOnOpenSwitch => "isOnOpenSwitch"
  | .isOnClosedSwitch => "isOnClosedSwitch"
  | .isOnSwitch => "isOnSwitch"
  | .isBlocked => "isBlocked"
  | .isBlockedLeft => "isBlockedLeft"
  | .isBlockedRight => "isBlockedRight"

/-- The sensor of an identifier; letter case matters. -/
def ofName? (name : String) : Option Predicate :=
  all.find? (·.name == name)

/-- What a sensor tells, for the reference. -/
def description : Predicate → String
  | .isOnGem => "The current cell still holds a gem"
  | .isOnOpenSwitch => "The current cell is an open switch"
  | .isOnClosedSwitch => "The current cell is a closed switch"
  | .isOnSwitch => "The current cell is a switch in either state"
  | .isBlocked => "The cell ahead is a wall or off the map"
  | .isBlockedLeft => "The cell to the left is a wall or off the map"
  | .isBlockedRight => "The cell to the right is a wall or off the map"

end Predicate

/-- A connective. -/
inductive LogicalOp where
  | and
  | or
deriving DecidableEq, Repr, Inhabited

namespace LogicalOp

/-- The sign of a connective. -/
def symbol : LogicalOp → String
  | .and => "&&"
  | .or => "||"

/-- How tightly a connective binds. -/
def precedence : LogicalOp → Nat
  | .or => 1
  | .and => 2

end LogicalOp

/-- The tree of a guard. -/
inductive Condition where
  | predicate (name : Predicate)
  | not (operand : Condition)
  | logical (operator : LogicalOp) (left right : Condition)
deriving DecidableEq, Repr, Inhabited

namespace Condition

/-- The truth value under an assignment of the sensors. -/
def eval (holds : Predicate → Bool) : Condition → Bool
  | .predicate p => holds p
  | .not c => !c.eval holds
  | .logical .and l r => l.eval holds && r.eval holds
  | .logical .or l r => l.eval holds || r.eval holds

/-- The sensors that an evaluation reads, in order. -/
def consulted (holds : Predicate → Bool) : Condition → List Predicate
  | .predicate p => [p]
  | .not c => c.consulted holds
  | .logical .and l r =>
    l.consulted holds ++ if l.eval holds then r.consulted holds else []
  | .logical .or l r =>
    l.consulted holds ++ if l.eval holds then [] else r.consulted holds

end Condition

end GemGrid
