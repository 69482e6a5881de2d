import GemGrid.Text.Ascii

/-!
# Comments

Two forms of comment are cut out of a script before it is split into tokens: `//` to the end of
the line, and `/*` to the next `*/`, which may stand on a later line.  Inside one form the other
has no meaning.

Lines are searched one at a time.  A search goes on from a cursor: it looks for the next sign that
matters, keeps the code in front of it, and moves the cursor behind the comment.  All that passes
from one line to the next is whether a block comment is still open.
-/

namespace GemGrid.Script

/-- Where a line comment starts, if no block comment starts before it. -/
def lineComment? (rest : List Char) : Option Nat :=
  (Text.find? ['/', '/'] rest).filter fun start =>
    (Text.find? ['/', '*'] rest).all fun blockStart => start < blockStart

/-- Cuts the comments out of a line, from a cursor on.  `code` is the code in front of the cursor,
and `inBlock` says whether a block comment is open there; the result says whether one is open at the
end.  Each round takes at least two characters, so a bound on the rounds that is no smaller than
what is left of the line is never reached. -/
def stripFrom (line : List Char) : Nat → Bool → Nat → List Char → List Char × Bool
  | 0, inBlock, _, code => (code, inBlock)
  | rounds + 1, inBlock, cursor, code =>
    let rest := line.drop cursor
    if rest.isEmpty then (code, inBlock)
    -- an open block comment swallows everything up to its end
    else if inBlock then
      match Text.find? ['*', '/'] rest with
      | some stop => stripFrom line rounds false (cursor + (stop + 2)) code
      | none => (code, true)
    else match lineComment? rest with
    | some start => (code ++ rest.take start, false)
    | none =>
      match Text.find? ['/', '*'] rest with
      | none => (code ++ rest, false)
      | some start =>
        let code := code ++ rest.take start
        -- a comment that ends in this line is followed to its end in the same round
        match Text.find? ['*', '/'] (rest.drop (start + 2)) with
        | some stop => stripFrom line rounds false (cursor + (start + 2 + (stop + 2))) code
        | none => (code, true)

/-- The code of a line, and whether a block comment is open after it.  The first argument says
whether one was open before. -/
def stripLine (inBlock : Bool) (line : List Char) : List Char × Bool :=
  stripFrom line line.length inBlock 0 []

end GemGrid.Script
