import GemGrid.Json.Numeral
import GemGrid.Json.Quoted

/-!
# JSON texts as trees

The tree of a JSON text as it is written.  It says which parts a text consists of, and nothing
about what they mean: quoted texts and numerals are kept as they stand, and a tree may be nested
to any depth.
-/

namespace GemGrid.Json

/-- The tree of a JSON text. -/
inductive Written where
  | null
  | bool (b : Bool)
  | numeral (n : Numeral)
  | quoted (q : Quoted)
  | arr (items : List Written)
  | obj (fields : List (Quoted × Written))
deriving Repr, Inhabited

end GemGrid.Json
