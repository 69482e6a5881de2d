import GemGrid.Text.Ascii
import GemGrid.Text.Decimal

/-!
# Places in a text

Whoever reads a text may say where a fault is by ending the message with a place, a line and a
column.  A message that quotes the text could end like that by itself; `withoutPlace` cuts such an
ending off, so that it is not taken for the place of the fault.
-/

namespace GemGrid.Text

/-- Whether a text is a place: a line and a column, both of them 64-bit numbers. -/
def isPlace (cs : List Char) : Bool :=
  let place? := do
    let rest ← after? " at line " cs
    let _ ← digitsUpTo? max64 (rest.takeWhile Char.isDigit)
    let column ← after? " column " (rest.dropWhile Char.isDigit)
    digitsUpTo? max64 column
  place?.isSome

/-- A text without the place that it ends with. -/
def withoutPlace : List Char → List Char
  | [] => []
  | c :: cs => if isPlace (c :: cs) then [] else c :: withoutPlace cs

end GemGrid.Text
