import GemGrid.Script.Basic
import GemGrid.Wire.Decode

/-!
# Programs as JSON

The exchange forms of source references, conditions, statements and programs.  Conditions carry
the tag `type`, statements the tag `kind`.  A statement without an `else` has `null` for it.

Nested values are decoded with a bound on the nesting that is left, which the value itself
provides.
-/

namespace GemGrid

open Wire

/-! ## Source references -/

/-- A source reference as JSON. -/
def SourceRef.toJson (s : SourceRef) : Json :=
  .obj [("line", .nat s.line), ("text", .str s.text)]

/-- The fields of a source reference. -/
def SourceRef.schema : Json.Schema :=
  .flat ["line", "text"]

/-- A source reference from JSON. -/
def SourceRef.ofJson (j : Json) : Except DecodeError SourceRef := do
  let f ← Fields.of SourceRef.schema.names j
  f.build (SourceRef.mk <$> f.required "line" word32 <*> f.required "text" string)

/-! ## Conditions -/

namespace Condition

/-- A condition as JSON. -/
def toJson : Condition → Json
  | .predicate p => .obj [("type", .str "predicate"), ("name", .str p.name)]
  | .not c => .obj [("type", .str "not"), ("operand", c.toJson)]
  | .logical op l r =>
    .obj [("type", .str "logical"), ("operator", .str op.symbol), ("left", l.toJson),
      ("right", r.toJson)]

/-- The tags of conditions. -/
def tags : List String :=
  ["predicate", "not", "logical"]

/-- A condition from JSON nested at most `n` deep; the flag says whether it stands inside a tagged
record. -/
def ofJsonWithin : Nat → Bool → Json → Except DecodeError Condition
  | 0, _, _ => .error .shape
  | n + 1, inside, j => do
    let (tag, body) ← tagged "type" tags inside j
    match tag with
    | "predicate" =>
      let f ← Fields.of ["name"] body
      f.build (predicate <$> f.required "name" (oneOfInside Predicate.all Predicate.name))
    | "not" =>
      let f ← Fields.of ["operand"] body
      f.build (Condition.not <$> f.required "operand" (ofJsonWithin n true))
    | "logical" =>
      let f ← Fields.of ["operator", "left", "right"] body
      f.build (logical <$> f.required "operator" (oneOfInside [.and, .or] LogicalOp.symbol)
        <*> f.required "left" (ofJsonWithin n true) <*> f.required "right" (ofJsonWithin n true))
    | _ => .error .shape

/-- A condition from JSON. -/
def ofJson (j : Json) : Except DecodeError Condition :=
  ofJsonWithin j.depth false j

/-- A condition inside a tagged record. -/
def ofJsonInside (j : Json) : Except DecodeError Condition :=
  ofJsonWithin j.depth true j

end Condition

/-! ## Statements -/

namespace Stmt

mutual

/-- A statement as JSON. -/
def toJson : Stmt → Json
  | .command c source =>
    .obj [("kind", .str "command"), ("type", .str c.name), ("source", source.toJson)]
  | .loop count body source =>
    .obj [("kind", .str "loop"), ("count", .nat count), ("body", .arr (listToJson body)),
      ("source", source.toJson)]
  | .ifThen condition consequent source =>
    .obj [("kind", .str "if"), ("condition", condition.toJson),
      ("consequent", .arr (listToJson consequent)), ("alternate", .null),
      ("source", source.toJson)]
  | .ifElse condition consequent alternate source =>
    .obj [("kind", .str "if"), ("condition", condition.toJson),
      ("consequent", .arr (listToJson consequent)), ("alternate", .arr (listToJson alternate)),
      ("source", source.toJson)]
  | .whileDo condition body source =>
    .obj [("kind", .str "while"), ("condition", condition.toJson),
      ("body", .arr (listToJson body)), ("source", source.toJson)]
  | .call name source =>
    .obj [("kind", .str "call"), ("name", .str name), ("source", source.toJson)]

/-- Statements as JSON. -/
def listToJson : List Stmt → List Json
  | [] => []
  | s :: ss => s.toJson :: listToJson ss

end

/-- The tags of statements. -/
def tags : List String :=
  ["command", "loop", "if", "while", "call"]

/-- A statement from JSON nested at most `n` deep; the flag says whether it stands inside a tagged
record. -/
def ofJsonWithin : Nat → Bool → Json → Except DecodeError Stmt
  | 0, _, _ => .error .shape
  | n + 1, inside, j => do
    let (tag, body) ← tagged "kind" tags inside j
    match tag with
    | "command" =>
      let f ← Fields.of ["type", "source"] body
      f.build (command <$> f.required "type" (oneOfInside Command.all Command.name)
        <*> f.required "source" SourceRef.ofJson)
    | "loop" =>
      let f ← Fields.of ["count", "body", "source"] body
      f.build (loop <$> f.required "count" word64 <*> f.required "body" (list (ofJsonWithin n true))
        <*> f.required "source" SourceRef.ofJson)
    | "if" =>
      let f ← Fields.of ["condition", "consequent", "alternate", "source"] body
      f.build (ifWith <$> f.required "condition" Condition.ofJsonInside
        <*> f.required "consequent" (list (ofJsonWithin n true))
        <*> f.optional "alternate" (list (ofJsonWithin n true))
        <*> f.required "source" SourceRef.ofJson)
    | "while" =>
      let f ← Fields.of ["condition", "body", "source"] body
      f.build (whileDo <$> f.required "condition" Condition.ofJsonInside
        <*> f.required "body" (list (ofJsonWithin n true))
        <*> f.required "source" SourceRef.ofJson)
    | "call" =>
      let f ← Fields.of ["name", "source"] body
      f.build (call <$> f.required "name" string <*> f.required "source" SourceRef.ofJson)
    | _ => .error .shape

/-- A statement from JSON. -/
def ofJson (j : Json) : Except DecodeError Stmt :=
  ofJsonWithin j.depth false j

end Stmt

/-! ## Programs -/

/-- A function as JSON. -/
def FunctionDef.toJson (f : FunctionDef) : Json :=
  .obj [("name", .str f.name), ("body", .arr (Stmt.listToJson f.body)),
    ("source", f.source.toJson)]

/-- The fields of a function. -/
def FunctionDef.schema : Json.Schema :=
  .record [("name", .whole), ("body", .list .whole), ("source", SourceRef.schema)]

/-- A function from JSON. -/
def FunctionDef.ofJson (j : Json) : Except DecodeError FunctionDef := do
  let f ← Fields.of FunctionDef.schema.names j
  f.build (FunctionDef.mk <$> f.required "name" string <*> f.required "body" (list Stmt.ofJson)
    <*> f.required "source" SourceRef.ofJson)

/-- Metadata as JSON. -/
def Metadata.toJson (m : Metadata) : Json :=
  .obj [("staticCommandCount", Json.nullable .nat m.staticCommandCount),
    ("hasDynamicControlFlow", .bool m.hasDynamicControlFlow)]

/-- The fields of metadata. -/
def Metadata.schema : Json.Schema :=
  .flat ["staticCommandCount", "hasDynamicControlFlow"]

/-- Metadata from JSON. -/
def Metadata.ofJson (j : Json) : Except DecodeError Metadata := do
  let f ← Fields.of Metadata.schema.names j
  f.build (Metadata.mk <$> f.optional "staticCommandCount" word64
    <*> f.required "hasDynamicControlFlow" bool)

/-- A program as JSON. -/
def Program.toJson (p : Program) : Json :=
  .obj [("main", .arr (Stmt.listToJson p.main)),
    ("functions", Json.list FunctionDef.toJson p.functions), ("metadata", p.metadata.toJson)]

/-- The fields of a program. -/
def Program.schema : Json.Schema :=
  .record [("main", .list .whole), ("functions", .list FunctionDef.schema),
    ("metadata", Metadata.schema)]

/-- A program from JSON. -/
def Program.ofJson (j : Json) : Except DecodeError Program := do
  let f ← Fields.of Program.schema.names j
  f.build (Program.mk <$> f.required "main" (list Stmt.ofJson)
    <*> f.required "functions" (list FunctionDef.ofJson)
    <*> f.required "metadata" Metadata.ofJson)

end GemGrid
