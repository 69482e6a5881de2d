import GemGrid.OrderedMap

/-!
# JSON values

The values that are exchanged with hosts.  Objects keep the order of their fields, because
written text shows it and because the first faulty field decides what is reported.

Only integers have a value of their own; every other numeral is kept as it was written, since no
type of the library holds one.
-/

namespace GemGrid

/-- A JSON value. -/
inductive Json where
  | null
  | bool (b : Bool)
  | int (i : Int)
  | real (numeral : String)
  | str (s : String)
  | arr (items : List Json)
  | obj (fields : List (String × Json))
deriving Repr, Inhabited

/-- Texts are ordered by code points. -/
instance : KeyOrder String where
  decide_lt := inferInstance
  irrefl := String.lt_irrefl
  trans := String.lt_trans
  connected h k := String.le_antisymm (String.not_lt.1 k) (String.not_lt.1 h)

namespace Json

/-- A number as JSON. -/
def nat (n : Nat) : Json :=
  .int n

/-- A value that may be absent. -/
def nullable {α : Type} (encode : α → Json) : Option α → Json
  | none => .null
  | some a => encode a

/-- A list of values. -/
def list {α : Type} (encode : α → Json) (as : List α) : Json :=
  .arr (as.map encode)

mutual

/-- How deep the arrays and objects of a value are nested. -/
def depth : Json → Nat
  | .arr items => depthOfItems items + 1
  | .obj fields => depthOfFields fields + 1
  | _ => 0

/-- The greatest depth among array items. -/
def depthOfItems : List Json → Nat
  | [] => 0
  | item :: items => max item.depth (depthOfItems items)

/-- The greatest depth among object fields. -/
def depthOfFields : List (String × Json) → Nat
  | [] => 0
  | (_, value) :: fields => max value.depth (depthOfFields fields)

end

mutual

/-- The value with the fields of every object in order of their names; of fields with one name
the last counts. -/
def sortFields : Json → Json
  | .arr items => .arr (sortItems items)
  | .obj fields => .obj (sortedFields fields).entries
  | j => j

/-- Sorts the fields inside array items. -/
def sortItems : List Json → List Json
  | [] => []
  | item :: items => item.sortFields :: sortItems items

/-- The fields of an object by name, each with its own fields sorted. -/
def sortedFields : List (String × Json) → OrderedMap String Json
  | [] => .empty
  | (name, value) :: fields =>
    let later := sortedFields fields
    match later.get? name with
    | some _ => later
    | none => later.insert name value.sortFields

end

end Json

end GemGrid
