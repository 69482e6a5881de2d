import GemGrid.Json.Reader
import GemGrid.Text.Place

/-!
# Decoding

How JSON values become values of the library's types.  The rules are the same for all records:

* A record is an object, whose unknown fields are ignored, or an array with its fields in order.
* A field may not be repeated, and has to be there unless it is optional or has a default.  An
  optional field may be `null`; in an array it may not be left out.
* A choice among names is a string, or an object with that one name and `null`.
* A record with a tag has its tag as a field, or as the first item of an array.

Inside a tagged record two more spellings are understood: the tag of a record may be the index of
its name, and a choice may be an object with its name and an empty object.

When several fields are faulty, the first one as written is reported.  This is what `Visit` is
for: it carries, with each error, the index of the field that it comes from, and of two errors
keeps the earlier one.

A type that is read from texts has a schema, which names the fields of its record.  A record with
a tag is taken in whole, because its tag may stand behind the other fields.
-/

namespace GemGrid

/-- Why a JSON value does not stand for a value of a type. -/
inductive DecodeError where
  /-- The value has the wrong form. -/
  | shape
  | positionKey (key : String)
  | trigger (name : String)
deriving DecidableEq, Repr, Inhabited

/-- What there is to say about an error beyond the fact. -/
def DecodeError.message? : DecodeError → Option String
  | .shape => none
  | .positionKey key => some s!"bad position key: {key}"
  | .trigger name => some s!"unknown frame trigger: {name}"

/-- The message of an error inside a value.  The key or name that it quotes is the end of it, and
is not to be taken for a place. -/
def DecodeError.detail? (e : DecodeError) : Option String :=
  e.message?.map fun m => String.ofList (Text.withoutPlace m.toList)

namespace Wire

/-! ## Values without parts -/

/-- A text. -/
def string : Json → Except DecodeError String
  | .str s => .ok s
  | _ => .error .shape

/-- A truth value. -/
def bool : Json → Except DecodeError Bool
  | .bool b => .ok b
  | _ => .error .shape

/-- A number up to a bound. -/
def upTo (bound : Nat) : Json → Except DecodeError Nat
  | .int i => if 0 ≤ i ∧ i ≤ bound then .ok i.toNat else .error .shape
  | _ => .error .shape

/-- A 16-bit number. -/
def word16 : Json → Except DecodeError Nat := upTo Text.max16

/-- A 32-bit number. -/
def word32 : Json → Except DecodeError Nat := upTo Text.max32

/-- A 64-bit number. -/
def word64 : Json → Except DecodeError Nat := upTo Text.max64

/-- The member of a list that has a name. -/
def named {α : Type} (all : List α) (name : α → String) (s : String) : Except DecodeError α :=
  match all.find? fun a => name a == s with
  | some a => .ok a
  | none => .error .shape

/-- A choice among names. -/
def oneOf {α : Type} (all : List α) (name : α → String) : Json → Except DecodeError α
  | .str s => named all name s
  | .obj [(s, .null)] => named all name s
  | _ => .error .shape

/-- A choice among names, inside a tagged record. -/
def oneOfInside {α : Type} (all : List α) (name : α → String) : Json → Except DecodeError α
  | .obj [(s, .obj [])] => named all name s
  | j => oneOf all name j

/-- A list. -/
def list {α : Type} (decode : Json → Except DecodeError α) : Json → Except DecodeError (List α)
  | .arr items => items.mapM decode
  | _ => .error .shape

/-- A value that may be absent. -/
def nullable {α : Type} (decode : Json → Except DecodeError α) :
    Json → Except DecodeError (Option α)
  | .null => .ok none
  | j => (decode j).map some

/-! ## Records -/

/-- A value from some fields of a record, or an error with the index of its field. -/
structure Visit (α : Type) where
  result : Except (Nat × DecodeError) α

/-- Of two errors the one of the earlier field. -/
def earlier (a b : Nat × DecodeError) : Nat × DecodeError :=
  if b.1 < a.1 then b else a

instance : Applicative Visit where
  pure a := ⟨.ok a⟩
  seq f x :=
    match f.result, (x ()).result with
    | .ok f, .ok a => ⟨.ok (f a)⟩
    | .ok _, .error e => ⟨.error e⟩
    | .error e, .ok _ => ⟨.error e⟩
    | .error e, .error e' => ⟨.error (earlier e e')⟩

/-- The fields of a record as they were given. -/
structure Fields where
  entries : List (String × Json)
  /-- Whether the record was given as an object. -/
  byName : Bool
  /-- Whether the record was given as an array with too many items. -/
  excess : Bool

namespace Fields

/-- The fields of a record whose field names are `names`, in order. -/
def of (names : List String) : Json → Except DecodeError Fields
  | .obj entries => .ok { entries, byName := true, excess := false }
  | .arr items =>
    .ok { entries := names.zip items, byName := false, excess := names.length < items.length }
  | _ => .error .shape

/-- The values given for a field, with their indices. -/
def occurrences (f : Fields) (name : String) : List (Nat × Json) :=
  f.entries.zipIdx.filterMap fun (entry, i) => if entry.1 = name then some (i, entry.2) else none

/-- The value of a field, or `absent` if it is not given. -/
def field {α : Type} (f : Fields) (name : String) (absent : Except DecodeError α)
    (decode : Json → Except DecodeError α) : Visit α :=
  match f.occurrences name with
  | [] => ⟨absent.mapError fun e => (f.entries.length, e)⟩
  | [(i, j)] => ⟨(decode j).mapError fun e => (i, e)⟩
  | (i, j) :: (again, _) :: _ =>
    match decode j with
    | .error e => ⟨.error (i, e)⟩
    | .ok _ => ⟨.error (again, .shape)⟩

/-- A field that has to be there. -/
def required {α : Type} (f : Fields) (name : String) (decode : Json → Except DecodeError α) :
    Visit α :=
  f.field name (.error .shape) decode

/-- A field that may be `null` or missing. -/
def optional {α : Type} (f : Fields) (name : String) (decode : Json → Except DecodeError α) :
    Visit (Option α) :=
  f.field name (if f.byName then .ok none else .error .shape) (nullable decode)

/-- A field with a default. -/
def defaulted {α : Type} (f : Fields) (name : String) (default : α)
    (decode : Json → Except DecodeError α) : Visit α :=
  f.field name (.ok default) decode

/-- The record made from its fields. -/
def build {α : Type} (f : Fields) (v : Visit α) : Except DecodeError α :=
  match v.result with
  | .error (_, e) => .error e
  | .ok a => if f.excess then .error .shape else .ok a

end Fields

/-- The tag among `tags` that a value names; inside a tagged record it may be an index. -/
def tagOf (tags : List String) (inside : Bool) : Json → Except DecodeError String
  | .str t => if tags.contains t then .ok t else .error .shape
  | .int i =>
    match if inside ∧ 0 ≤ i then tags[i.toNat]? else none with
    | some t => .ok t
    | none => .error .shape
  | _ => .error .shape

/-- The tag of a record, and the record without it. -/
def tagged (tag : String) (tags : List String) (inside : Bool) :
    Json → Except DecodeError (String × Json)
  | .obj entries =>
    match entries.filter (·.1 == tag) with
    | [(_, j)] => do return (← tagOf tags inside j, .obj (entries.filter (·.1 != tag)))
    | _ => .error .shape
  | .arr (j :: items) => do return (← tagOf tags inside j, .arr items)
  | _ => .error .shape

/-! ## Texts -/

/-- A value from a JSON text.  An error in front of a fault of the text comes first. -/
def ofText {α : Type} (schema : Json.Schema) (decode : Json → Except DecodeError α)
    (text : String) : Except DecodeError α := do
  let taken := Json.extract schema text
  match taken.value with
  | none => .error .shape
  | some j =>
    let a ← decode j
    if taken.complete then .ok a else .error .shape

end Wire

end GemGrid
