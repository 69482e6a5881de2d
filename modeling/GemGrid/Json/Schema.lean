import GemGrid.Json.Quoted

/-!
# Schemas

A JSON text can hold more than its value: lone surrogates, numerals out of range, any nesting.
What of it has to make sense depends on what it is read for, and a `Schema` says so.

* A value that is taken in *whole* has to make sense in all its parts.
* Of a record only the fields that the schema mentions are taken in; the others are left out
  unread, but for their names.
* The items of a list and the values of a table are taken in by a schema of their own.  The names
  of a table are written without escapes.
-/

namespace GemGrid.Json

/-- What is taken in of a value. -/
inductive Schema where
  | whole
  | record (fields : List (String × Schema))
  | list (items : Schema)
  | table (values : Schema)
deriving Repr, Inhabited

namespace Schema

/-- A record whose fields are taken in whole. -/
def flat (names : List String) : Schema :=
  .record (names.map fun name => (name, .whole))

/-- The names of a record's fields, in order. -/
def names : Schema → List String
  | .record fields => fields.map Prod.fst
  | _ => []

/-- The schemas of the leading items of an array. -/
def leading : Schema → List Schema
  | .record fields => fields.map Prod.snd
  | _ => []

/-- The schema of the other items of an array. -/
def others : Schema → Schema
  | .list items => items
  | _ => .whole

/-- The name of a field, if it makes sense. -/
def name? (s : Schema) (q : Quoted) : Option String :=
  match s with
  | .table _ => q.plain?
  | _ => q.text?

/-- The schema of a field, if it is taken in. -/
def field? (s : Schema) (name : String) : Option Schema :=
  match s with
  | .record fields => fields.lookup name
  | .table values => some values
  | _ => some .whole

end Schema

end GemGrid.Json
