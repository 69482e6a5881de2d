import GemGrid.Text.Pieces

/-!
# Script sources

A script is read line by line.  `Source.ofString` brings the text into one form: every line break
becomes a single line feed, whether it was written as LF, CR or CRLF, and byte order marks are
removed wherever they stand.

* `Source.lines` are the lines of that form; there is always at least one, and joining them gives
  the text back (`intercalate_lines`).
* `Source.line?` numbers them from one.  Line numbers are natural numbers; the words that they are
  kept in have 32 bits, so what is said about lines is meant for texts of fewer than 2³² lines.
* A `SourceRef` points at the line a statement was written on and keeps the statement's text.
-/

namespace GemGrid

/-- Where a statement was written: its line, counted from one, and its text. -/
structure SourceRef where
  line : Nat
  text : String
deriving DecidableEq, Repr, Inhabited

/-- A source reference as `line: text`. -/
def SourceRef.render (s : SourceRef) : String :=
  s!"{s.line}: {s.text}"

/-- A script text with unified line breaks and without byte order marks. -/
structure Source where
  chars : List Char
deriving DecidableEq, Inhabited

namespace Source

/-- Writes every line break as a single line feed. -/
def unifyBreaks : List Char → List Char
  | [] => []
  | '\r' :: '\n' :: cs => '\n' :: unifyBreaks cs
  | '\r' :: cs => '\n' :: unifyBreaks cs
  | c :: cs => c :: unifyBreaks cs

/-- The source of a text as it was typed. -/
def ofString (text : String) : Source :=
  ⟨(unifyBreaks text.toList).filter (· != '\uFEFF')⟩

/-- The lines of a source, without their breaks. -/
def lines (s : Source) : List (List Char) :=
  Text.pieces (· == '\n') s.chars

/-- The number of lines, at least one. -/
def lineCount (s : Source) : Nat :=
  s.lines.length

/-- The line of a number, counted from one. -/
def line? (s : Source) : Nat → Option (List Char)
  | 0 => none
  | n + 1 => s.lines[n]?

/-- The lines with their numbers. -/
def numbered (s : Source) : List (Nat × List Char) :=
  (s.lines.zipIdx 1).map fun (line, n) => (n, line)

/-- The lines joined by line feeds are the source. -/
theorem intercalate_lines (s : Source) : ['\n'].intercalate s.lines = s.chars :=
  Text.intercalate_pieces '\n' s.chars

end Source

end GemGrid
