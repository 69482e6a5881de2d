import GemGrid.Condition.Error
import GemGrid.Text.Ascii
import GemGrid.Text.Blank

/-!
# Tokens of conditions

A condition is written with `&&`, `||`, `!`, parentheses and identifiers; the word `not`, in any
letter case, is another spelling of `!`.  Blanks separate words and are otherwise ignored.

`ConditionToken.scan` goes through the text once.  A word is collected letter by letter and
becomes a token when it ends, so the recursion is on the text itself.
-/

namespace GemGrid

/-- A token of a condition. -/
inductive ConditionToken where
  | and
  | or
  | not
  | lparen
  | rparen
  | ident (name : String)
deriving DecidableEq, Repr, Inhabited

namespace ConditionToken

/-- The spelling of a token. -/
def render : ConditionToken → String
  | .and => "&&"
  | .or => "||"
  | .not => "!"
  | .lparen => "("
  | .rparen => ")"
  | .ident name => name

/-- The token of a word. -/
def ofWord (word : List Char) : ConditionToken :=
  if Text.sameWord "not" word then .not else .ident (String.ofList word)

/-- The token of the word collected so far, if there is one; its letters come last first. -/
def flush (word : List Char) : List ConditionToken :=
  if word.isEmpty then [] else [ofWord word.reverse]

/-- The tokens of a text that follows the letters `word` of an unfinished word, last letter
first. -/
def scanFrom (word : List Char) : List Char → Except ConditionError (List ConditionToken)
  | [] => .ok (flush word)
  | '&' :: '&' :: cs => do return flush word ++ .and :: (← scanFrom [] cs)
  | '|' :: '|' :: cs => do return flush word ++ .or :: (← scanFrom [] cs)
  | '!' :: cs => do return flush word ++ .not :: (← scanFrom [] cs)
  | '(' :: cs => do return flush word ++ .lparen :: (← scanFrom [] cs)
  | ')' :: cs => do return flush word ++ .rparen :: (← scanFrom [] cs)
  | c :: cs =>
    if Text.isBlank c then do return flush word ++ (← scanFrom [] cs)
    else if Text.isNameStart c || (!word.isEmpty && Text.isNameChar c) then scanFrom (c :: word) cs
    else .error (.strangeCharacter c)

/-- The tokens of a condition; there has to be one. -/
def scan (text : List Char) : Except ConditionError (List ConditionToken) := do
  match ← scanFrom [] text with
  | [] => .error .blank
  | tokens => .ok tokens

end ConditionToken

end GemGrid
