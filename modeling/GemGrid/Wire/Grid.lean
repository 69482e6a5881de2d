import GemGrid.Grid.Reader
import GemGrid.Wire.Decode

/-!
# Maps as JSON

The exchange forms of positions, cells and maps.  Gems are listed and switches are named by the
keys of their positions; portals are named by their numbers.

Keys are looked at after everything else of their field: gems in the order of the list, switches
in the order of the key texts.
-/

namespace GemGrid

open Wire

/-! ## Cells -/

/-- A position as JSON. -/
def Position.toJson (p : Position) : Json :=
  .obj [("row", .nat p.row), ("col", .nat p.col)]

/-- The fields of a position. -/
def Position.schema : Json.Schema :=
  .flat ["row", "col"]

/-- A position from JSON. -/
def Position.ofJson (j : Json) : Except DecodeError Position := do
  let f ← Fields.of Position.schema.names j
  f.build (Position.mk <$> f.required "row" word64 <*> f.required "col" word64)

/-- A direction as JSON. -/
def Direction.toJson (d : Direction) : Json :=
  .str d.name

/-- A direction from JSON. -/
def Direction.ofJson : Json → Except DecodeError Direction :=
  oneOf Direction.all Direction.name

/-- A switch state as JSON. -/
def SwitchState.toJson (s : SwitchState) : Json :=
  .str s.name

/-- A switch state from JSON. -/
def SwitchState.ofJson : Json → Except DecodeError SwitchState :=
  oneOf [.opened, .closed] SwitchState.name

/-- A cell as JSON. -/
def Cell.toJson (c : Cell) : Json :=
  .obj [("token", .str c.token), ("row", .nat c.row), ("col", .nat c.col),
    ("type", .str c.ground.name), ("isStart", .bool c.isStart),
    ("direction", Json.nullable Direction.toJson c.direction), ("hasGem", .bool c.hasGem),
    ("switchState", Json.nullable SwitchState.toJson c.switchState),
    ("warpId", Json.nullable .nat c.warpId)]

/-- The fields of a cell. -/
def Cell.schema : Json.Schema :=
  .flat ["token", "row", "col", "type", "isStart", "direction", "hasGem", "switchState", "warpId"]

/-- A cell from JSON. -/
def Cell.ofJson (j : Json) : Except DecodeError Cell := do
  let f ← Fields.of Cell.schema.names j
  f.build (Cell.mk <$> f.required "token" string <*> f.required "row" word64
    <*> f.required "col" word64 <*> f.required "type" (oneOf [.floor, .wall] Ground.name)
    <*> f.required "isStart" bool <*> f.optional "direction" Direction.ofJson
    <*> f.required "hasGem" bool <*> f.optional "switchState" SwitchState.ofJson
    <*> f.optional "warpId" word32)

/-! ## Maps -/

/-- The position of a key. -/
def Position.ofKey (key : String) : Except DecodeError Position :=
  match Position.ofKey? key with
  | some p => .ok p
  | none => .error (.positionKey key)

/-- A set of positions as JSON. -/
def gemsToJson (gems : OrderedSet Position) : Json :=
  .arr (gems.members.map fun p => .str p.key)

/-- A set of positions from JSON. -/
def gemsOfJson (j : Json) : Except DecodeError (OrderedSet Position) := do
  let keys ← list string j
  return .ofList (← keys.mapM Position.ofKey)

/-- Switches as JSON. -/
def switchesToJson (switches : OrderedMap Position SwitchState) : Json :=
  .obj (switches.entries.map fun (p, s) => (p.key, s.toJson))

/-- Switches from JSON; of two keys for one position the later text counts. -/
def switchesOfJson : Json → Except DecodeError (OrderedMap Position SwitchState)
  | .obj fields => do
    let states ← fields.mapM fun (key, j) => do return (key, ← SwitchState.ofJson j)
    let byKey := OrderedMap.ofList states
    return .ofList (← byKey.entries.mapM fun (key, s) => do return (← Position.ofKey key, s))
  | _ => .error .shape

/-- Portals as JSON. -/
def portalsToJson (portals : OrderedMap Nat (List Position)) : Json :=
  .obj (portals.entries.map fun (id, cells) => (id.repr, Json.list Position.toJson cells))

/-- The portal number of a field name: a 32-bit numeral without sign and leading zeros. -/
def portalId (name : String) : Except DecodeError Nat :=
  match Text.digitsUpTo? Text.max32 name.toList with
  | some id => if id.repr = name then .ok id else .error .shape
  | none => .error .shape

/-- Portals from JSON. -/
def portalsOfJson : Json → Except DecodeError (OrderedMap Nat (List Position))
  | .obj fields => do
    return .ofList (← fields.mapM fun (name, j) => do
      return (← portalId name, ← list Position.ofJson j))
  | _ => .error .shape

/-- A map as JSON. -/
def GridMap.toJson (m : GridMap) : Json :=
  .obj [("grid", Json.list (Json.list Cell.toJson) m.grid), ("rows", .nat m.rows),
    ("columns", .nat m.columns), ("start", Json.nullable Cell.toJson m.start),
    ("gems", gemsToJson m.gems), ("switches", switchesToJson m.switches),
    ("portals", portalsToJson m.portals)]

/-- The fields of a map. -/
def GridMap.schema : Json.Schema :=
  .record [("grid", .list (.list Cell.schema)), ("rows", .whole), ("columns", .whole),
    ("start", Cell.schema), ("gems", .whole), ("switches", .whole),
    ("portals", .table (.list Position.schema))]

/-- A map from JSON. -/
def GridMap.ofJson (j : Json) : Except DecodeError GridMap := do
  let f ← Fields.of GridMap.schema.names j
  f.build (GridMap.mk <$> f.required "grid" (list (list Cell.ofJson))
    <*> f.required "rows" word64 <*> f.required "columns" word64
    <*> f.optional "start" Cell.ofJson <*> f.required "gems" gemsOfJson
    <*> f.required "switches" switchesOfJson <*> f.required "portals" portalsOfJson)

/-- Map rules as JSON. -/
def MapRules.toJson (r : MapRules) : Json :=
  .obj [("allowMissingStart", .bool r.allowMissingStart),
    ("allowUnpairedPortals", .bool r.allowUnpairedPortals), ("allowEmpty", .bool r.allowEmpty)]

/-- The fields of map rules. -/
def MapRules.schema : Json.Schema :=
  .flat ["allowMissingStart", "allowUnpairedPortals", "allowEmpty"]

/-- Map rules from JSON; a rule that is not mentioned holds. -/
def MapRules.ofJson (j : Json) : Except DecodeError MapRules := do
  let f ← Fields.of MapRules.schema.names j
  f.build (MapRules.mk <$> f.defaulted "allowMissingStart" false bool
    <*> f.defaulted "allowUnpairedPortals" false bool <*> f.defaulted "allowEmpty" false bool)

end GemGrid
