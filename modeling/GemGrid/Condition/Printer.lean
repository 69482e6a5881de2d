import GemGrid.Condition.Basic

/-!
# Writing conditions

A condition is written with as few parentheses as its tree needs: around an operand that binds
less tightly than its connective, around a right operand that binds equally, and around a
connective under a negation.
-/

namespace GemGrid.Condition

/-- Whether an operand of `parent` has to be put in parentheses. -/
def needsParens (parent : LogicalOp) (onRight : Bool) : Condition → Bool
  | .logical op _ _ =>
    op.precedence < parent.precedence || (onRight && op.precedence == parent.precedence)
  | _ => false

/-- Whether a tree is a connective. -/
def isLogical : Condition → Bool
  | .logical .. => true
  | _ => false

/-- Puts a text in parentheses if it needs them. -/
def wrap (parens : Bool) (text : String) : String :=
  if parens then "(" ++ text ++ ")" else text

/-- The text of a condition. -/
def render : Condition → String
  | .predicate p => p.name
  | .not c => "!" ++ wrap c.isLogical c.render
  | .logical op l r =>
    wrap (l.needsParens op false) l.render ++ " " ++ op.symbol ++ " "
      ++ wrap (r.needsParens op true) r.render

end GemGrid.Condition
