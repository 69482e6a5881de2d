import GemGrid.Json.Draft
import GemGrid.Json.Schema

/-!
# Reading JSON

The value of a JSON text is what a schema takes in of its tree.  No value may be taken in that is
nested deeper than `maxDepth`; what is left out may be.

Parts are taken in as they stand in the text.  When one of them, or the text itself, is faulty,
the outermost array or object is still given with the parts in front of the fault: what can be
said about those comes before the fault.
-/

namespace GemGrid.Json

/-- The greatest number of arrays and objects that are open at once in what is taken in. -/
def maxDepth : Nat := 127

namespace Written

mutual

/-- The value that a tree stands for, when `levels` more arrays and objects may be opened. -/
def value? (levels : Nat) (s : Schema) : Written → Option Json
  | .null => some .null
  | .bool b => some (.bool b)
  | .numeral n => n.value?
  | .quoted q => q.text?.map .str
  | .arr items =>
    -- each container takes one level
    match levels with
    | 0 => none
    | levels + 1 =>
      match itemValues levels s.leading s.others items with
      | (values, true) => some (.arr values)
      | (_, false) => none
  | .obj fields =>
    match levels with
    | 0 => none
    | levels + 1 =>
      match fieldValues levels s fields with
      | (values, true) => some (.obj values)
      | (_, false) => none

/-- The values of array items up to the first that has none, and whether these are all. -/
def itemValues (levels : Nat) (leading : List Schema) (others : Schema) :
    List Written → List Json × Bool
  | [] => ([], true)
  | item :: items =>
    match item.value? levels (leading.headD others) with
    | none => ([], false)
    | some value =>
      let (values, all) := itemValues levels leading.tail others items
      (value :: values, all)

/-- The values of object fields up to the first that has none, and whether these are all. -/
def fieldValues (levels : Nat) (s : Schema) :
    List (Quoted × Written) → List (String × Json) × Bool
  | [] => ([], true)
  | (q, field) :: fields =>
    match s.name? q with
    | none => ([], false)
    | some name =>
      match s.field? name with
      -- the value of a field that no one asks for is not looked at
      | none => fieldValues levels s fields
      | some inner =>
        match field.value? levels inner with
        | none => ([], false)
        | some value =>
          let (values, all) := fieldValues levels s fields
          ((name, value) :: values, all)

end

end Written

/-- The value of a text, as far as it makes sense. -/
structure Extract where
  value : Option Json
  /-- Whether the text is that value and nothing else. -/
  complete : Bool
deriving Repr, Inhabited

/-- The value of a tree, as far as it makes sense. -/
def Written.extract (s : Schema) : Written → Extract
  | .arr items =>
    let (values, all) := itemValues (maxDepth - 1) s.leading s.others items
    { value := some (.arr values), complete := all }
  | .obj fields =>
    let (values, all) := fieldValues (maxDepth - 1) s fields
    { value := some (.obj values), complete := all }
  | w =>
    let value := w.value? maxDepth s
    { value, complete := value.isSome }

/-- What a schema takes in of a text. -/
def extract (s : Schema) (text : String) : Extract :=
  let draft := Draft.ofString text
  match draft.value with
  | none => { value := none, complete := false }
  | some w =>
    let taken := w.extract s
    { taken with complete := taken.complete && draft.complete }

/-- The value of a JSON text that makes sense in all its parts. -/
def read? (text : String) : Option Json :=
  let taken := extract .whole text
  if taken.complete then taken.value else none

end GemGrid.Json
