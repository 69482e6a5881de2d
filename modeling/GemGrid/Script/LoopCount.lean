import GemGrid.Text.Ascii
import GemGrid.Text.Decimal
import GemGrid.Text.Pieces

/-!
# How often a loop runs

A loop header has one of two forms, read word by word:

    for N times
    for x in a...b        for x in a..<b

The first runs `N` times; the second runs once for each integer from `a` to `b`, with or without
`b`.  A loop runs at least once.  Counts are 64-bit words and the bounds of a range are signed
64-bit words, and so is the length of the range.
-/

namespace GemGrid.Script

/-- What can be wrong with a loop header. -/
inductive LoopError where
  | malformed (header : String)
  | countTooLarge (digits : String)
  | countZero (digits : String)
  | boundTooLarge (header : String)
  | rangeTooLarge (header : String)
  | rangeEmpty (first last : Int)
deriving DecidableEq, Repr

namespace LoopError

/-- The number of an error: the form is wrong, or the numbers are. -/
def code : LoopError → Nat
  | .malformed _ => 204
  | _ => 205

/-- The text of an error. -/
def message : LoopError → String
  | .malformed header => s!"cannot parse the for loop: {header}"
  | .countTooLarge digits => s!"the loop count is too large: {digits}"
  | .countZero digits => s!"the loop count must be a positive integer (got {digits})"
  | .boundTooLarge header => s!"loop range bounds must be integers: {header}"
  | .rangeTooLarge header => s!"the loop range is too large: {header}"
  | .rangeEmpty first last => s!"the loop range is empty (start: {first}, end: {last})"

end LoopError

/-! ## The two forms -/

/-- The digits of a header of the form `for N times`. -/
def timesDigits? (cs : List Char) : Option (List Char) :=
  match Text.words cs with
  | [keyword, digits, unit] =>
    if Text.sameWord "for" keyword && digits.all Char.isDigit && Text.foldsTo "times" unit
    then some digits else none
  | _ => none

/-- Whether a word can be the variable of a range.  Letters are compared by folding, so the two
characters outside ASCII that fold to a letter are letters here. -/
def isLoopVariable (cs : List Char) : Bool :=
  Text.isName (cs.map Text.fold)

/-- The bound at the start of a text, and what follows it. -/
def splitBound? (cs : List Char) : Option (List Char × List Char) :=
  let unsigned := match cs with
    | '-' :: rest => rest
    | _ => cs
  let digits := unsigned.takeWhile Char.isDigit
  let sign := cs.take (cs.length - unsigned.length)
  if digits.isEmpty then none else some (sign ++ digits, unsigned.dropWhile Char.isDigit)

/-- Skips the space that may stand beside the dots of a range. -/
def skipSpace : List Char → List Char
  | ' ' :: cs => cs
  | cs => cs

/-- The bounds of a range and whether the upper one is included. -/
structure RangeText where
  first : List Char
  last : List Char
  inclusive : Bool
deriving DecidableEq, Repr

/-- Reads `a...b` or `a..<b`. -/
def rangeText? (cs : List Char) : Option RangeText := do
  let (first, rest) ← splitBound? cs
  let (inclusive, rest) ← match skipSpace rest with
    | '.' :: '.' :: '.' :: rest => some (true, rest)
    | '.' :: '.' :: '<' :: rest => some (false, rest)
    | _ => none
  match ← splitBound? (skipSpace rest) with
  | (last, []) => some { first, last, inclusive }
  | _ => none

/-- The range of a header of the form `for x in a...b` or `for x in a..<b`. -/
def headerRange? (cs : List Char) : Option RangeText :=
  match Text.words cs with
  | keyword :: counter :: link :: bounds =>
    if Text.sameWord "for" keyword && isLoopVariable counter && Text.sameWord "in" link
    then rangeText? ([' '].intercalate bounds) else none
  | _ => none

/-! ## The count -/

/-- The number of integers in a range. -/
def rangeLength (header : String) (r : RangeText) : Except LoopError Nat := do
  let bound (cs : List Char) : Except LoopError Int :=
    match (Text.integer? cs).filter Text.fits64 with
    | some i => .ok i
    | none => .error (.boundTooLarge header)
  let first ← bound r.first
  let last ← bound r.last
  let length := last - first + if r.inclusive then 1 else 0
  if !Text.fits64 (last - first) || !Text.fits64 length then .error (.rangeTooLarge header)
  else if 0 < length then .ok length.toNat
  else .error (.rangeEmpty first last)

/-- How often the loop of a header runs. -/
def loopCount (header : List Char) : Except LoopError Nat :=
  match timesDigits? header with
  | some digits =>
    match Text.digitsUpTo? Text.max64 digits with
    | none => .error (.countTooLarge (String.ofList digits))
    | some 0 => .error (.countZero (String.ofList digits))
    | some n => .ok n
  | none =>
    match headerRange? header with
    | some r => rangeLength (String.ofList header) r
    | none => .error (.malformed (String.ofList header))

end GemGrid.Script
