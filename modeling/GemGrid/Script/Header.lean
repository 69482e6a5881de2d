import GemGrid.Text.Ascii
import GemGrid.Text.Blank

/-!
# Headers of statements

A text token is one of five things, told apart by how it begins: a guard (`if` or `while`), a
counted loop, a function definition, or a command or call.  The functions here recognise each
form and take out what matters.

* The keywords of guards and loops are read in any letter case and need a blank after them;
  `func` is read as written.
* The text of a guard runs to the end of the token and may not contain a line feed.  When nothing
  but blanks follows the keyword, the last of them counts as that text.
* A call may have blanks anywhere.
-/

namespace GemGrid.Script

/-- The condition after the keyword of a guard, trimmed. -/
def guardText? (keyword : String) (cs : List Char) : Option (List Char) := do
  let rest ← Text.afterWord? keyword cs
  let gap := rest.takeWhile Text.isBlank
  let text := rest.dropWhile Text.isBlank
  if gap.isEmpty then none
  else if text.isEmpty then
    if 2 ≤ gap.length ∧ gap.getLast? ≠ some '\n' then some [] else none
  else if text.contains '\n' then none
  else some (Text.trim text)

/-- Whether a text starts with a blank. -/
def startsBlank : List Char → Bool
  | [] => false
  | c :: _ => Text.isBlank c

/-- Whether a token is the header of a counted loop. -/
def isLoopHeader (cs : List Char) : Bool :=
  ((Text.afterWord? "for" cs).map startsBlank).getD false

/-- Whether a token is the header of a function definition. -/
def isFunctionHeader (cs : List Char) : Bool :=
  ((Text.after? "func" cs).map startsBlank).getD false

/-- The name that a function definition defines: `func NAME ( )`. -/
def functionName? (cs : List Char) : Option (List Char) := do
  let rest ← Text.after? "func" cs
  if !startsBlank rest then none
  else
    let rest := Text.trimStart rest
    let name := rest.takeWhile Text.isNameChar
    if !Text.isName name then none
    else match Text.trimStart (rest.dropWhile Text.isNameChar) with
    | '(' :: rest => if Text.trimStart rest = [')'] then some name else none
    | _ => none

/-- The name that a command or call uses: `NAME()`, blanks ignored. -/
def callName? (cs : List Char) : Option (List Char) :=
  let compact := cs.filter fun c => !Text.isBlank c
  let name := compact.takeWhile Text.isNameChar
  if !name.isEmpty && compact.dropWhile Text.isNameChar == ['(', ')'] then some name else none

end GemGrid.Script
