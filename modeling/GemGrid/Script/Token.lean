import GemGrid.Script.Comment
import GemGrid.Source
import GemGrid.Text.Ascii

/-!
# Tokens of scripts

A line of code splits at its braces; what stands between them is one token each, trimmed.  The
word `else` is a token of its own, also when an `if` follows it in the same piece: `else if c`
becomes `else` and `if c`.  All other pieces stay as they are and are understood later.
-/

namespace GemGrid

/-- The kinds of token. -/
inductive TokenKind where
  | lbrace
  | rbrace
  | otherwise
  | text (content : String)
deriving DecidableEq, Repr, Inhabited

/-- The spelling of a token. -/
def TokenKind.render : TokenKind → String
  | .lbrace => "\x7b"
  | .rbrace => "\x7d"
  | .otherwise => "else"
  | .text content => content

/-- A token with its line. -/
structure Token where
  kind : TokenKind
  line : Nat
deriving DecidableEq, Repr, Inhabited

namespace Token

/-- The text of a token. -/
def text (t : Token) : String :=
  t.kind.render

/-- The place of a token. -/
def source (t : Token) : SourceRef :=
  { line := t.line, text := t.text }

/-- The text and the braces of a line, in order. -/
def braceParts : List Char → List (List Char)
  | [] => [[]]
  | c :: cs =>
    if c = '\x7b' ∨ c = '\x7d' then [] :: [c] :: braceParts cs
    else
      match braceParts cs with
      | [] => [[c]]
      | part :: parts => (c :: part) :: parts

/-- The pieces of a line: trimmed, and only those that hold something. -/
def linePieces (code : List Char) : List (List Char) :=
  ((braceParts code).map Text.trim).filter fun part => !part.isEmpty

/-- Whether a text does not go on with a letter of a word. -/
def atBoundary : List Char → Bool
  | [] => true
  | c :: _ => !Text.isNameChar c

/-- The `if` part of a piece that reads `else if`, with or without blanks between the words. -/
def elseIf? (piece : List Char) : Option (List Char) := do
  let remainder := Text.trimStart (← Text.afterWord? "else" piece)
  let tail ← Text.afterWord? "if" remainder
  if atBoundary tail then some (Text.trim remainder) else none

/-- The kinds of token that a piece stands for. -/
def kindsOf (piece : List Char) : List TokenKind :=
  if piece = ['\x7b'] then [.lbrace]
  else if piece = ['\x7d'] then [.rbrace]
  else if Text.sameWord "else" piece then [.otherwise]
  else match elseIf? piece with
  | some rest => [.otherwise, .text (String.ofList rest)]
  | none => [.text (String.ofList piece)]

/-- The tokens of a line of code. -/
def ofCode (line : Nat) (code : List Char) : List Token :=
  ((linePieces code).flatMap kindsOf).map fun kind => { kind, line }

/-- The tokens of numbered lines; the first argument says whether a block comment is open. -/
def ofLines : Bool → List (Nat × List Char) → List Token
  | _, [] => []
  | inBlock, (n, line) :: lines =>
    let (code, stillOpen) := Script.stripLine inBlock line
    ofCode n code ++ ofLines stillOpen lines

/-- The tokens of a source. -/
def ofSource (source : Source) : List Token :=
  ofLines false source.numbered

end Token

end GemGrid
