import GemGrid.Json.Token

/-!
# Drafts of JSON texts

A JSON text is one value with nothing but blanks around it.  The tokens are taken one at a time
by a machine with a stack of the arrays and objects that are still open, so that the nesting of a
text is not limited here.

A text that breaks off, or goes on after its value, still gives a draft: its outermost array or
object with the parts that are complete.
-/

namespace GemGrid.Json

/-- An array or object that is still open; its parts come last first. -/
inductive Open where
  | arr (items : List Written)
  | obj (fields : List (Quoted × Written)) (name : Quoted)
deriving Repr, Inhabited

/-- The array or object with the parts that it has. -/
def Open.close : Open → Written
  | .arr items => .arr items.reverse
  | .obj fields _ => .obj fields.reverse

/-- What the machine waits for. -/
inductive Reading where
  /-- A value; a closing bracket too, if an array has just been opened. -/
  | value (closable : Bool) (stack : List Open)
  /-- A field name; a closing brace too, if an object has just been opened. -/
  | name (closable : Bool) (fields : List (Quoted × Written)) (stack : List Open)
  /-- The colon after a field name. -/
  | colon (fields : List (Quoted × Written)) (name : Quoted) (stack : List Open)
  /-- A comma or bracket after an item. -/
  | afterItem (items : List Written) (stack : List Open)
  /-- A comma or brace after a field. -/
  | afterField (fields : List (Quoted × Written)) (stack : List Open)
  /-- Nothing more. -/
  | done (w : Written)
deriving Repr, Inhabited

/-- Puts a complete value where it belongs. -/
def place (w : Written) : List Open → Reading
  | [] => .done w
  | .arr items :: stack => .afterItem (w :: items) stack
  | .obj fields name :: stack => .afterField ((name, w) :: fields) stack

/-- Takes one token. -/
def accept? : Reading → Lexeme → Option Reading
  | .value _ stack, .leaf w => some (place w stack)
  | .value _ stack, .quoted q => some (place (.quoted q) stack)
  | .value _ stack, .openArr => some (.value true (.arr [] :: stack))
  | .value _ stack, .openObj => some (.name true [] stack)
  | .value true (.arr [] :: stack), .closeArr => some (place (.arr []) stack)
  | .name _ fields stack, .quoted q => some (.colon fields q stack)
  | .name true _ stack, .closeObj => some (place (.obj []) stack)
  | .colon fields name stack, .colon => some (.value false (.obj fields name :: stack))
  | .afterItem items stack, .comma => some (.value false (.arr items :: stack))
  | .afterItem items stack, .closeArr => some (place (.arr items.reverse) stack)
  | .afterField fields stack, .comma => some (.name false fields stack)
  | .afterField fields stack, .closeObj => some (place (.obj fields.reverse) stack)
  | _, _ => none

/-- The outermost of an array or object and those that it stands in. -/
def outermost (inner : Written) (stack : List Open) : Written :=
  (stack.getLast?.map Open.close).getD inner

/-- The value of the text so far. -/
def Reading.soFar? : Reading → Option Written
  | .value _ stack => stack.getLast?.map Open.close
  | .name _ fields stack | .colon fields _ stack | .afterField fields stack =>
    some (outermost (.obj fields.reverse) stack)
  | .afterItem items stack => some (outermost (.arr items.reverse) stack)
  | .done w => some w

/-- The value of a text, as far as it goes. -/
structure Draft where
  value : Option Written
  /-- Whether the text is that value and nothing else. -/
  complete : Bool
deriving Repr, Inhabited

/-- The draft of the tokens that are left; the flag says whether the text ends after them. -/
def draftFrom (r : Reading) (ended : Bool) : List Lexeme → Draft
  | [] =>
    match r with
    | .done w => { value := some w, complete := ended }
    | _ => { value := r.soFar?, complete := false }
  | l :: ls =>
    match accept? r l with
    | some next => draftFrom next ended ls
    | none => { value := r.soFar?, complete := false }

/-- The draft of a text. -/
def Draft.ofString (text : String) : Draft :=
  let found := scan text.toList
  draftFrom (.value false []) found.complete found.lexemes

end GemGrid.Json
