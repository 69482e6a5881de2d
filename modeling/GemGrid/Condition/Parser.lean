import GemGrid.Condition.Basic
import GemGrid.Condition.Token

/-!
# Parsing conditions

Conjunction binds tighter than disjunction, negation tighter than both, and both connectives
associate to the left:

    or    = and { "||" and }
    and   = unary { "&&" unary }
    unary = "!" unary | "(" or ")" | predicate

Each function returns the tokens that it leaves over.  `chain` is the loop shared by the two
connectives; it is written for an arbitrary parser of operands, so that `unary` is the only
function that calls itself.  Its first argument bounds the tokens that are left.  A bound of zero
means that none is left, and then the condition has ended early.
-/

namespace GemGrid.Condition

/-- A tree and the tokens after it, or what is wrong. -/
abbrev Parsed := Except ConditionError (Condition × List ConditionToken)

/-- Extends `left` by one operand for each connective that follows.  The number bounds the
operands. -/
def chain (sign : ConditionToken) (operator : LogicalOp)
    (operand : List ConditionToken → Parsed) :
    Nat → Condition → List ConditionToken → Parsed
  | n + 1, left, t :: ts =>
    if t = sign then do
      let (right, rest) ← operand ts
      chain sign operator operand n (.logical operator left right) rest
    else .ok (left, t :: ts)
  | _, left, ts => .ok (left, ts)

/-- A conjunction of operands. -/
def conjunction (operand : List ConditionToken → Parsed) (n : Nat) (ts : List ConditionToken) :
    Parsed := do
  let (left, rest) ← operand ts
  chain .and .and operand n left rest

/-- A disjunction of conjunctions of operands. -/
def disjunction (operand : List ConditionToken → Parsed) (n : Nat) (ts : List ConditionToken) :
    Parsed := do
  let (left, rest) ← conjunction operand n ts
  chain .or .or (conjunction operand n) n left rest

/-- A negation, a group or a sensor. -/
def unary : Nat → List ConditionToken → Parsed
  | 0, _ => .error .endedEarly
  | _ + 1, [] => .error .endedEarly
  | n + 1, .not :: ts => do
    let (operand, rest) ← unary n ts
    return (.not operand, rest)
  | n + 1, .lparen :: ts => do
    match ← disjunction (unary n) n ts with
    | (inner, .rparen :: rest) => return (inner, rest)
    | _ => .error .unclosed
  | _ + 1, .ident name :: ts =>
    match Predicate.ofName? name with
    | some p => .ok (.predicate p, ts)
    | none => .error (.unsupported name)
  | _ + 1, t :: _ => .error (.unsupported t.render)

/-- The tree of a list of tokens; no token may be left over. -/
def ofTokens (tokens : List ConditionToken) : Except ConditionError Condition := do
  match ← disjunction (unary tokens.length) tokens.length tokens with
  | (c, []) => return c
  | (_, extra :: _) => .error (.unexpected extra.render)

/-- The tree of a text. -/
def parse (text : List Char) : Except ConditionError Condition := do
  ofTokens (← ConditionToken.scan text)

end GemGrid.Condition
